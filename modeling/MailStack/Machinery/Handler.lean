import MailStack.Machinery.Faults

/-!
# Machinery/Handler — triples for programs with a session of their own

A handler is a program over the shared store that also has a session state, which no one else
touches, and that an exception may leave.  What it did to the session stays when one does.

A fact about the store is worth keeping only if others cannot undo it.  `Spec s p post` and
`Triple E A s h B post` start at any store *later* than `s`, so that what was learnt at an earlier
store is a hypothesis about that store, carried over where it is needed: the continuation of a
`bind` starts at the store its predecessor ended with.
-/

namespace Prog

universe v

variable {σ ω ε β : Type*} {α γ τ ξ : Type v}

/-- The rely of the contract composes. -/
class Contract.Lawful (C : Contract σ ω) : Prop where
  refl : ∀ s, C.rely s s
  trans : ∀ {s₁ s₂ s₃}, C.rely s₁ s₂ → C.rely s₂ s₃ → C.rely s₁ s₃

/-- `s'` is a store that may come after `s`. -/
def Contract.Later (C : Contract σ ω) (s s' : σ) : Prop := C.rely s s' ∧ C.inv s'

namespace Contract.Later

variable {C : Contract σ ω} {s₁ s₂ s₃ : σ}

theorem refl [C.Lawful] {s : σ} (h : C.inv s) : C.Later s s := ⟨Lawful.refl s, h⟩

theorem trans [C.Lawful] (h : C.Later s₁ s₂) (h' : C.Later s₂ s₃) : C.Later s₁ s₃ :=
  ⟨Lawful.trans h.1 h'.1, h'.2⟩

end Contract.Later

variable {S : SharedStore σ ω ε β} {C : Contract σ ω}

/-- A program ends at a store that comes after the one it began with. -/
theorem Ok.later [C.Lawful] {post : α → σ → Prop} {s₀ : σ} :
    ∀ {p : Prog σ ω ε β α} {s : σ}, C.Later s₀ s → Ok S C post p s →
      Ok S C (fun a s' => C.Later s₀ s' ∧ post a s') p s
  | ret _, _, hs, h => ⟨hs, h⟩
  | read _, _, hs, h =>
      ⟨h.1, fun s₁ hr hi => (h.2 s₁ hr hi).later (hs.trans ⟨hr, hi⟩)⟩
  | write _ _, _, hs, h => fun s₁ hr hi =>
      ⟨fun e he => ((h s₁ hr hi).1 e he).later (hs.trans ⟨hr, hi⟩), fun s₂ b ha hw =>
        let ⟨hg, hi₂, hr₂, hk⟩ := (h s₁ hr hi).2 s₂ b ha hw
        ⟨hg, hi₂, hr₂, hk.later ((hs.trans ⟨hr, hi⟩).trans ⟨hr₂, hi₂⟩)⟩⟩

/-- **A program that runs alone keeps its contract too**, where every write is allowed. -/
theorem Ok.alone [C.Lawful] {post : α → σ → Prop} (hallow : ∀ s w, C.allow s w) :
    ∀ {p : Prog σ ω ε β α} {s : σ}, C.inv s → Ok S C post p s → post (run S p s).2 (run S p s).1
  | ret _, _, _, h => h
  | read _, s, hi, h => by
      rw [run]
      exact (h.2 s (Contract.Lawful.refl s) hi).alone hallow hi
  | write w k, s, hi, h => by
      rw [run]
      split
      · rename_i s' b hw
        obtain ⟨-, hi', -, hk⟩ := (h s (Contract.Lawful.refl s) hi).2 s' b (hallow s w) hw
        exact hk.alone hallow hi'
      · rename_i e hw
        exact ((h s (Contract.Lawful.refl s) hi).1 e (.inr ⟨hallow s w, hw⟩)).alone hallow hi

/-! ## Programs -/

/-- From any store after `s`, the program meets the contract and returns with `post`. -/
def Spec (S : SharedStore σ ω ε β) (C : Contract σ ω) (s : σ) (p : Prog σ ω ε β α)
    (post : α → σ → Prop) : Prop :=
  ∀ s', C.Later s s' → Ok S C post p s'

namespace Spec

variable {s : σ} {p : Prog σ ω ε β α} {post : α → σ → Prop}

/-- A specification with a weaker postcondition. -/
theorem mono {post' : α → σ → Prop} (h : Spec S C s p post)
    (himp : ∀ a s', post a s' → post' a s') : Spec S C s p post' :=
  fun s' hs => (h s' hs).mono himp

/-- A value at hand: the postcondition has to hold at every store that may come. -/
theorem pure {a : α} (h : ∀ s', C.Later s s' → post a s') :
    Spec S C s (pure a : Prog σ ω ε β α) post := h

/-- The continuation starts at a store later than the one the first part began with. -/
theorem bind [C.Lawful] {f : α → Prog σ ω ε β γ} {post' : γ → σ → Prop} (h : Spec S C s p post)
    (hf : ∀ a s₁, C.Later s s₁ → post a s₁ → Spec S C s₁ (f a) post') :
    Spec S C s (p >>= f) post' := by
  intro s' hs
  refine Ok.bind (fun a s₁ ha => ?_) ((h s' hs).later hs)
  exact hf a s₁ ha.1 ha.2 s₁ (.refl ha.1.2)

/-- **A query** reads no more of the store than the view, whatever the store has become. -/
theorem query [C.Lawful] {f : σ → α}
    (hview : ∀ s₁ s₂, C.Later s s₁ → C.Later s s₂ → C.view s₁ s₂ → f s₁ = f s₂)
    (hpost : ∀ s₁, C.Later s s₁ → post (f s₁) s₁) : Spec S C s (query f) post := by
  intro s' hs
  refine Ok.query (fun s₁ s₂ h₁ h₂ hi₁ hi₂ => ?_) fun s₁ h₁ hi₁ => hpost s₁ (hs.trans ⟨h₁, hi₁⟩)
  exact hview s₁ s₂ (hs.trans ⟨h₁, hi₁⟩) (hs.trans ⟨h₂, hi₂⟩)

/-- **A locked write**, made at whatever store it finds. -/
theorem locked [C.Lawful] {w : ω} {post : Except ε β → σ → Prop}
    (herror : ∀ s₁ e, C.Later s s₁ → C.faulty ∨ (C.allow s₁ w ∧ S.apply w s₁ = .error e) →
      post (.error e) s₁)
    (hok : ∀ s₁ s₂ b, C.Later s s₁ → C.allow s₁ w → S.apply w s₁ = .ok (s₂, b) →
      C.guar s₁ s₂ ∧ C.Later s₁ s₂ ∧ post (.ok b) s₂) :
    Spec S C s (locked w) post := by
  intro s' hs
  refine Ok.locked (fun s₁ e h₁ hi₁ he => herror s₁ e (hs.trans ⟨h₁, hi₁⟩) he) ?_
  intro s₁ s₂ b h₁ hi₁ ha hw
  obtain ⟨hg, hl, hp⟩ := hok s₁ s₂ b (hs.trans ⟨h₁, hi₁⟩) ha hw
  exact ⟨hg, hl.2, hl.1, hp⟩

/-- A program that runs alone. -/
theorem alone [C.Lawful] (hallow : ∀ s w, C.allow s w) (h : Spec S C s p post) (hi : C.inv s) :
    C.Later s (run S p s).1 ∧ post (run S p s).2 (run S p s).1 :=
  ((h s (.refl hi)).later (.refl hi)).alone hallow hi

end Spec

/-! ## Handlers -/

/-- An assertion about the session that others cannot undo. -/
def Stable (C : Contract σ ω) (A : τ → σ → Prop) : Prop :=
  ∀ d s s', C.Later s s' → A d s → A d s'

/-- What a handler ends with: `B` and `post` when it returns, `E` when an exception leaves it. -/
def Ends (E B : τ → σ → Prop) (post : α → σ → Prop) (r : Except ξ α × τ) (s : σ) : Prop :=
  match r.1 with
  | .ok a => B r.2 s ∧ post a s
  | .error _ => E r.2 s

/-- From any store after `s` and any session that satisfies `A`, the handler meets the contract and
ends with `B` and `post`, or by an exception with `E`. -/
def Triple (S : SharedStore σ ω ε β) (C : Contract σ ω) (E A : τ → σ → Prop) (s : σ)
    (h : ExceptT ξ (StateT τ (Prog σ ω ε β)) α) (B : τ → σ → Prop) (post : α → σ → Prop) : Prop :=
  ∀ d s', C.Later s s' → A d s' → Ok S C (Ends E B post) (h.run.run d) s'

namespace Triple

variable {E A B : τ → σ → Prop} {s : σ} {h : ExceptT ξ (StateT τ (Prog σ ω ε β)) α}
  {post : α → σ → Prop}

/-- **The rule of consequence**; what is concluded may use that the store only moved on. -/
theorem conseq [C.Lawful] {A' B' : τ → σ → Prop} {post' : α → σ → Prop}
    (ht : Triple S C E A s h B post) (hA : ∀ d s', C.Later s s' → A' d s' → A d s')
    (hB : ∀ d s', C.Later s s' → B d s' → B' d s')
    (hpost : ∀ a s', C.Later s s' → post a s' → post' a s') : Triple S C E A' s h B' post' := by
  intro d s' hs ha
  refine ((ht d s' hs (hA d s' hs ha)).later hs).mono fun r s₁ hr => ?_
  obtain ⟨r, d₁⟩ := r
  cases r with
  | ok a => exact ⟨hB _ _ hr.1 hr.2.1, hpost _ _ hr.1 hr.2.2⟩
  | error e => exact hr.2

/-- A stronger precondition, at every store that may have come meanwhile. -/
theorem pre {A' : τ → σ → Prop} (ht : Triple S C E A s h B post)
    (hA : ∀ d s', C.Later s s' → A' d s' → A d s') : Triple S C E A' s h B post :=
  fun d s' hs ha => ht d s' hs (hA d s' hs ha)

/-- A weaker postcondition, at every store that may have come meanwhile. -/
theorem post_mono [C.Lawful] {post' : α → σ → Prop} (ht : Triple S C E A s h B post)
    (hpost : ∀ a s', C.Later s s' → post a s' → post' a s') : Triple S C E A s h B post' :=
  ht.conseq (fun _ _ _ h => h) (fun _ _ _ h => h) hpost

/-- A handler that answers at once leaves its session as it is. -/
theorem pure {a : α} (hpost : ∀ s', C.Later s s' → post a s') :
    Triple S C E A s (pure a : ExceptT ξ (StateT τ (Prog σ ω ε β)) α) A post :=
  fun _ s' hs ha => ⟨ha, hpost s' hs⟩

/-- An exception takes the session to the caller as it stands. -/
theorem throw {e : ξ} (hE : ∀ d s', C.Later s s' → A d s' → E d s') :
    Triple S C E A s (throw e : ExceptT ξ (StateT τ (Prog σ ω ε β)) α) B post :=
  fun d s' hs ha => hE d s' hs ha

/-- A branch on a value at hand. -/
theorem ite {c : Prop} [Decidable c] {h' : ExceptT ξ (StateT τ (Prog σ ω ε β)) α}
    (ht : Triple S C E A s h B post) (ht' : Triple S C E A s h' B post) :
    Triple S C E A s (if c then h else h') B post := by
  split_ifs
  · exact ht
  · exact ht'

/-- **Sequencing**: what the first part learns is known of the store it ends with. -/
theorem bind [C.Lawful] {f : α → ExceptT ξ (StateT τ (Prog σ ω ε β)) γ} {B' : τ → σ → Prop}
    {post' : γ → σ → Prop} (ht : Triple S C E A s h B post)
    (hf : ∀ a s₁, C.Later s s₁ → post a s₁ → Triple S C E B s₁ (f a) B' post') :
    Triple S C E A s (h >>= f) B' post' := by
  intro d s' hs ha
  refine Ok.bind (fun r s₁ hr => ?_) ((ht d s' hs ha).later hs)
  obtain ⟨r, d₁⟩ := r
  cases r with
  | ok a => exact hf a s₁ hr.1 hr.2.2 d₁ s₁ (.refl hr.1.2) hr.2.1
  | error e => exact hr.2

/-- A function of the answer. -/
theorem map [C.Lawful] {f : α → γ} {post' : γ → σ → Prop} (ht : Triple S C E A s h B post)
    (hpost : ∀ a s₁ s', C.Later s₁ s' → post a s₁ → post' (f a) s') :
    Triple S C E A s (f <$> h) B post' := by
  rw [map_eq_pure_bind]
  exact ht.bind fun a s₁ _ ha => pure fun s' hs => hpost a s₁ s' hs ha

/-- A program over the store, called from a handler. -/
theorem lift [C.Lawful] {p : Prog σ ω ε β α} (hA : Stable C A) (hp : Spec S C s p post) :
    Triple S C E A s (ExceptT.lift (StateT.lift p) : ExceptT ξ (StateT τ (Prog σ ω ε β)) α) A
      post := by
  intro d s' hs ha
  have hlift : Ok S C (fun r s₁ => A r.2 s₁ ∧ post r.1 s₁) ((StateT.lift p).run d) s' := by
    refine Ok.bind (fun a s₁ h₁ => ?_) ((hp s' hs).later (.refl hs.2))
    exact ⟨hA d s' s₁ h₁.1 ha, h₁.2⟩
  exact Ok.bind (fun r s₁ hr => hr) hlift

/-- The session that is read is the one the handler is in. -/
theorem get_bind {f : τ → ExceptT ξ (StateT τ (Prog σ ω ε β)) α}
    (hf : ∀ d, Triple S C E (fun d' s' => d' = d ∧ A d' s') s (f d) B post) :
    Triple S C E A s (get >>= f) B post :=
  fun d s' hs ha => hf d d s' hs ⟨rfl, ha⟩

/-- A change of the session, which nobody else sees. -/
theorem modify {g : τ → τ} (hB : ∀ d s', C.Later s s' → A d s' → B (g d) s') :
    Triple S C E A s (modify g : ExceptT ξ (StateT τ (Prog σ ω ε β)) PUnit) B fun _ _ => True :=
  fun d s' hs ha => ⟨hB d s' hs ha, trivial⟩

/-- **An exception handler** starts where the exception left the body. -/
theorem tryCatch [C.Lawful] {E' : τ → σ → Prop} {c : ξ → ExceptT ξ (StateT τ (Prog σ ω ε β)) α}
    (ht : Triple S C E' A s h B post)
    (hc : ∀ e s₁, C.Later s s₁ → Triple S C E E' s₁ (c e) B post) :
    Triple S C E A s (tryCatch h c) B post := by
  intro d s' hs ha
  refine Ok.bind (fun r s₁ hr => ?_) ((ht d s' hs ha).later hs)
  obtain ⟨r, d₁⟩ := r
  cases r with
  | ok a => exact hr.2
  | error e => exact hc e s₁ hr.1 d₁ s₁ (.refl hr.1.2) hr.2

/-- A loop whose body keeps the assertion. -/
theorem mapM [C.Lawful] {δ : Type v} {f : δ → ExceptT ξ (StateT τ (Prog σ ω ε β)) α} :
    ∀ {l : List δ} {s : σ},
      (∀ x ∈ l, ∀ s₁, C.Later s s₁ → Triple S C E A s₁ (f x) A fun _ _ => True) →
        Triple S C E A s (l.mapM f) A fun _ _ => True
  | [], _, _ => by
      rw [List.mapM_nil]
      exact pure fun _ _ => trivial
  | x :: l, s, hf => by
      rw [List.mapM_cons]
      intro d s' hs ha
      refine bind (hf x List.mem_cons_self s' hs) (fun a s₁ h₁ _ => ?_) d s' (.refl hs.2) ha
      refine bind (mapM fun y hy s₂ h₂ => ?_) fun as s₂ h₂ _ => pure fun _ _ => trivial
      exact hf y (List.mem_cons_of_mem x hy) s₂ ((hs.trans h₁).trans h₂)

/-- **A handler that runs alone** ends as its triple says, at a store that came after. -/
theorem alone [C.Lawful] (hallow : ∀ s w, C.allow s w) (ht : Triple S C E A s h B post)
    (hi : C.inv s) {d : τ} (ha : A d s) :
    C.Later s (run S (h.run.run d) s).1 ∧
      Ends E B post (run S (h.run.run d) s).2 (run S (h.run.run d) s).1 :=
  ((ht d s (.refl hi) ha).later (.refl hi)).alone hallow hi

end Triple

/-! ## What a handler may write -/

/-- A program whose writes keep the contract meets it, whatever it reads. -/
theorem Ok.of_writes {P : ω → Prop} (hview : ∀ s s', C.view s s' → s = s')
    (hwrite : ∀ s w s' b, C.inv s → C.allow s w → P w → S.apply w s = .ok (s', b) →
      C.guar s s' ∧ C.inv s' ∧ C.rely s s') :
    ∀ {p : Prog σ ω ε β α} {s : σ}, p.Writes P → Ok S C (fun _ _ => True) p s
  | ret _, _, _ => trivial
  | read _, _, h =>
      ⟨fun s₁ s₂ _ _ _ _ hv => by rw [hview s₁ s₂ hv],
        fun s₁ _ _ => Ok.of_writes hview hwrite (h s₁)⟩
  | write w _, _, h => fun s₁ _ hi =>
      ⟨fun e _ => Ok.of_writes hview hwrite (h.2 (.error e)), fun s₂ b ha hw =>
        let ⟨hg, hi₂, hr₂⟩ := hwrite s₁ w s₂ b hi ha h.1 hw
        ⟨hg, hi₂, hr₂, Ok.of_writes hview hwrite (h.2 (.ok b))⟩⟩

/-- Whatever the session, every write of the handler satisfies `P`. -/
def Emits (P : ω → Prop) (h : ExceptT ξ (StateT τ (Prog σ ω ε β)) α) : Prop :=
  ∀ d, (h.run.run d).Writes P

namespace Emits

variable {P : ω → Prop} {h : ExceptT ξ (StateT τ (Prog σ ω ε β)) α}

theorem pure {a : α} : Emits P (pure a : ExceptT ξ (StateT τ (Prog σ ω ε β)) α) := fun _ => trivial

theorem throw {e : ξ} : Emits P (throw e : ExceptT ξ (StateT τ (Prog σ ω ε β)) α) :=
  fun _ => trivial

theorem modify {g : τ → τ} :
    Emits P (modify g : ExceptT ξ (StateT τ (Prog σ ω ε β)) PUnit) := fun _ => trivial

theorem bind {f : α → ExceptT ξ (StateT τ (Prog σ ω ε β)) γ} (hh : Emits P h)
    (hf : ∀ a, Emits P (f a)) : Emits P (h >>= f) := by
  refine fun d => Writes.bind (fun r => ?_) (hh d)
  obtain ⟨r, d₁⟩ := r
  cases r with
  | ok a => exact hf a d₁
  | error e => trivial

theorem get_bind {f : τ → ExceptT ξ (StateT τ (Prog σ ω ε β)) α} (hf : ∀ d, Emits P (f d)) :
    Emits P (get >>= f) := fun d => hf d d

theorem map {f : α → γ} (hh : Emits P h) : Emits P (f <$> h) := by
  rw [map_eq_pure_bind]
  exact hh.bind fun _ => pure

theorem lift {p : Prog σ ω ε β α} (hp : p.Writes P) :
    Emits P (ExceptT.lift (StateT.lift p) : ExceptT ξ (StateT τ (Prog σ ω ε β)) α) := by
  intro d
  have hlift : ((StateT.lift p : StateT τ (Prog σ ω ε β) α).run d).Writes P :=
    Writes.bind (fun a => writes_pure _) hp
  exact Writes.bind (fun r => writes_pure _) hlift

theorem ite {c : Prop} [Decidable c] {h' : ExceptT ξ (StateT τ (Prog σ ω ε β)) α} (hh : Emits P h)
    (hh' : Emits P h') : Emits P (if c then h else h') := by
  split_ifs
  · exact hh
  · exact hh'

theorem tryCatch {c : ξ → ExceptT ξ (StateT τ (Prog σ ω ε β)) α} (hh : Emits P h)
    (hc : ∀ e, Emits P (c e)) : Emits P (tryCatch h c) := by
  refine fun d => Writes.bind (fun r => ?_) (hh d)
  obtain ⟨r, d₁⟩ := r
  cases r with
  | ok a => trivial
  | error e => exact hc e d₁

theorem mapM {δ : Type v} {f : δ → ExceptT ξ (StateT τ (Prog σ ω ε β)) α}
    (hf : ∀ x, Emits P (f x)) : ∀ l : List δ, Emits P (l.mapM f)
  | [] => by
      rw [List.mapM_nil]
      exact pure
  | x :: l => by
      rw [List.mapM_cons]
      exact (hf x).bind fun _ => (mapM hf l).bind fun _ => pure

/-- **Such a handler needs to know nothing** to keep a contract that its writes keep. -/
theorem triple {s : σ} (hh : Emits P h) (hview : ∀ s s', C.view s s' → s = s')
    (hwrite : ∀ s w s' b, C.inv s → C.allow s w → P w → S.apply w s = .ok (s', b) →
      C.guar s s' ∧ C.inv s' ∧ C.rely s s') :
    Triple S C (fun _ _ => True) (fun _ _ => True) s h (fun _ _ => True) fun _ _ => True := by
  intro d s' _ _
  refine (Ok.of_writes hview hwrite (hh d)).mono fun r s₁ _ => ?_
  obtain ⟨r, d₁⟩ := r
  cases r with
  | ok a => exact ⟨trivial, trivial⟩
  | error e => trivial

end Emits

/-! ## What a handler comes to write -/

/-- From any session and any store, every write the handler comes to make satisfies `P` at the store
it is made at. -/
def Performs (S : SharedStore σ ω ε β) (P : σ → ω → Prop)
    (h : ExceptT ξ (StateT τ (Prog σ ω ε β)) α) : Prop :=
  ∀ d s, Makes S P (h.run.run d) s

namespace Performs

variable {P : σ → ω → Prop} {h : ExceptT ξ (StateT τ (Prog σ ω ε β)) α}

theorem pure {a : α} : Performs S P (pure a : ExceptT ξ (StateT τ (Prog σ ω ε β)) α) :=
  fun _ _ => trivial

theorem throw {e : ξ} : Performs S P (throw e : ExceptT ξ (StateT τ (Prog σ ω ε β)) α) :=
  fun _ _ => trivial

theorem get : Performs S P (get : ExceptT ξ (StateT τ (Prog σ ω ε β)) τ) := fun _ _ => trivial

theorem modify {g : τ → τ} :
    Performs S P (modify g : ExceptT ξ (StateT τ (Prog σ ω ε β)) PUnit) := fun _ _ => trivial

theorem bind {f : α → ExceptT ξ (StateT τ (Prog σ ω ε β)) γ} (hh : Performs S P h)
    (hf : ∀ a, Performs S P (f a)) : Performs S P (h >>= f) := by
  refine fun d s => Makes.bind (fun r s₁ => ?_) (hh d s)
  obtain ⟨r, d₁⟩ := r
  cases r with
  | ok a => exact hf a d₁ s₁
  | error e => trivial

theorem lift {p : Prog σ ω ε β α} (hp : ∀ s, Makes S P p s) :
    Performs S P (ExceptT.lift (StateT.lift p) : ExceptT ξ (StateT τ (Prog σ ω ε β)) α) := by
  intro d s
  have hlift : Makes S P ((StateT.lift p : StateT τ (Prog σ ω ε β) α).run d) s :=
    Makes.bind (fun a s => makes_pure _ s) (hp s)
  exact Makes.bind (fun r s => makes_pure _ s) hlift

theorem tryCatch {c : ξ → ExceptT ξ (StateT τ (Prog σ ω ε β)) α} (hh : Performs S P h)
    (hc : ∀ e, Performs S P (c e)) : Performs S P (tryCatch h c) := by
  refine fun d s => Makes.bind (fun r s₁ => ?_) (hh d s)
  obtain ⟨r, d₁⟩ := r
  cases r with
  | ok a => trivial
  | error e => exact hc e d₁ s₁

end Performs

/-! ## What a handler does to its session -/

/-- Whatever it reads and however its writes are answered, the handler moves the session by `R`,
also when an exception leaves it. -/
def Moves (R : τ → τ → Prop) (h : ExceptT ξ (StateT τ (Prog σ ω ε β)) α) : Prop :=
  ∀ d, (h.run.run d).Results fun r => R d r.2

namespace Moves

variable {R : τ → τ → Prop} {h : ExceptT ξ (StateT τ (Prog σ ω ε β)) α}

theorem modify {g : τ → τ} (hg : ∀ d, R d (g d)) :
    Moves R (modify g : ExceptT ξ (StateT τ (Prog σ ω ε β)) PUnit) := fun d => hg d

variable [IsPreorder τ R]

theorem pure {a : α} : Moves R (pure a : ExceptT ξ (StateT τ (Prog σ ω ε β)) α) :=
  fun d => refl_of R d

theorem throw {e : ξ} : Moves R (throw e : ExceptT ξ (StateT τ (Prog σ ω ε β)) α) :=
  fun d => refl_of R d

theorem get : Moves R (get : ExceptT ξ (StateT τ (Prog σ ω ε β)) τ) := fun d => refl_of R d

theorem bind {f : α → ExceptT ξ (StateT τ (Prog σ ω ε β)) γ} (hh : Moves R h)
    (hf : ∀ a, Moves R (f a)) : Moves R (h >>= f) := by
  refine fun d => Results.bind (fun r hr => ?_) (hh d)
  obtain ⟨r, d₁⟩ := r
  cases r with
  | ok a => exact (hf a d₁).mono fun r' hr' => trans_of R hr hr'
  | error e => exact hr

theorem lift (p : Prog σ ω ε β α) :
    Moves R (ExceptT.lift (StateT.lift p) : ExceptT ξ (StateT τ (Prog σ ω ε β)) α) := by
  intro d
  have hlift : ((StateT.lift p : StateT τ (Prog σ ω ε β) α).run d).Results fun r => R d r.2 := by
    refine Results.bind (fun a _ => ?_) (results_of_forall (Q := fun _ => True) (fun _ => trivial) p)
    exact refl_of R d
  exact Results.bind (fun r hr => hr) hlift

theorem tryCatch {c : ξ → ExceptT ξ (StateT τ (Prog σ ω ε β)) α} (hh : Moves R h)
    (hc : ∀ e, Moves R (c e)) : Moves R (tryCatch h c) := by
  refine fun d => Results.bind (fun r hr => ?_) (hh d)
  obtain ⟨r, d₁⟩ := r
  cases r with
  | ok a => exact hr
  | error e => exact (hc e d₁).mono fun r' hr' => trans_of R hr hr'

end Moves

end Prog
