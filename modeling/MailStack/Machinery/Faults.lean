import MailStack.Machinery.Prog

/-!
# Machinery/Faults — programs alone, whose writes may fail

`Runs` executes a program with no one else about; every write of it either does what the store says
or fails, with any error and for any reason, and leaves the store as it was.  A run remembers the
stores around each write that succeeded.

`Makes P p s` says that every write `p` comes to make from `s` on satisfies `P` at the store it is
made at: what was read a moment ago still holds there.  `Makes.runs` is the rule that derives an
invariant of runs, their past included, from what such writes do.

`runFaults` is the execution when it is given beforehand which writes fail.
-/

namespace Prog

universe v

variable {σ ω ω' ε β : Type*} {α γ : Type v}

/-- The program runs from the first store to the second and returns the result; the list has the
stores before and after each write that succeeded. -/
inductive Runs (S : SharedStore σ ω ε β) : Prog σ ω ε β α → σ → List (σ × σ) → α → σ → Prop
  | ret (a : α) (s : σ) : Runs S (.ret a) s [] a s
  | read {k : σ → Prog σ ω ε β α} {s s' : σ} {ws : List (σ × σ)} {a : α}
      (h : Runs S (k s) s ws a s') : Runs S (.read k) s ws a s'
  | write {w : ω} {k : Except ε β → Prog σ ω ε β α} {s s₁ s' : σ} {b : β} {ws : List (σ × σ)}
      {a : α} (hw : S.apply w s = .ok (s₁, b)) (h : Runs S (k (.ok b)) s₁ ws a s') :
      Runs S (.write w k) s ((s, s₁) :: ws) a s'
  | fault {w : ω} {k : Except ε β → Prog σ ω ε β α} {s s' : σ} {e : ε} {ws : List (σ × σ)} {a : α}
      (h : Runs S (k (.error e)) s ws a s') : Runs S (.write w k) s ws a s'

/-! ## What a run was made of -/

section Inversion

variable {S : SharedStore σ ω ε β} {s s' : σ} {ws : List (σ × σ)}

/-- A program that has ended does nothing more. -/
theorem Runs.of_ret {a b : α} (h : Runs S (.ret a) s ws b s') : b = a ∧ s' = s ∧ ws = [] := by
  cases h
  exact ⟨rfl, rfl, rfl⟩

/-- **A run of two programs in sequence** is a run of the first, and then one of the second. -/
theorem Runs.of_bind {f : α → Prog σ ω ε β γ} {c : γ} {p : Prog σ ω ε β α}
    (h : Runs S (p >>= f) s ws c s') :
    ∃ a s₁ ws₁ ws₂, Runs S p s ws₁ a s₁ ∧ Runs S (f a) s₁ ws₂ c s' ∧ ws = ws₁ ++ ws₂ := by
  induction p generalizing s ws with
  | ret a => exact ⟨a, s, [], ws, .ret a s, h, rfl⟩
  | read k ih =>
    cases h with
    | read h =>
      obtain ⟨a, s₁, ws₁, ws₂, hp, hf, hws⟩ := ih s h
      exact ⟨a, s₁, ws₁, ws₂, .read hp, hf, hws⟩
  | write w k ih =>
    cases h with
    | write hw h =>
      obtain ⟨a, s₁, ws₁, ws₂, hp, hf, rfl⟩ := ih _ h
      exact ⟨a, s₁, _ :: ws₁, ws₂, .write hw hp, hf, rfl⟩
    | fault h =>
      obtain ⟨a, s₁, ws₁, ws₂, hp, hf, hws⟩ := ih _ h
      exact ⟨a, s₁, ws₁, ws₂, .fault hp, hf, hws⟩

/-- A read is made at once. -/
theorem Runs.of_query_bind {f : σ → α} {k : α → Prog σ ω ε β γ} {c : γ}
    (h : Runs S (query f >>= k) s ws c s') : Runs S (k (f s)) s ws c s' := by
  cases h with
  | read h => exact h

/-- A write was made, or it failed. -/
theorem Runs.of_locked_bind {σ ω ε β : Type v} {S : SharedStore σ ω ε β} {s s' : σ}
    {ws : List (σ × σ)} {w : ω} {k : Except ε β → Prog σ ω ε β γ} {c : γ}
    (h : Runs S (locked w >>= k) s ws c s') :
    (∃ s₁ b ws₁, S.apply w s = .ok (s₁, b) ∧ Runs S (k (.ok b)) s₁ ws₁ c s' ∧
        ws = (s, s₁) :: ws₁) ∨
      ∃ e, Runs S (k (.error e)) s ws c s' := by
  cases h with
  | write hw h => exact .inl ⟨_, _, _, hw, h, rfl⟩
  | fault h => exact .inr ⟨_, h⟩

end Inversion

/-! ## The writes a program comes to make -/

/-- Every write the program comes to make satisfies `P` where it is made. -/
def Makes (S : SharedStore σ ω ε β) (P : σ → ω → Prop) : Prog σ ω ε β α → σ → Prop
  | ret _, _ => True
  | read k, s => Makes S P (k s) s
  | write w k, s =>
    P s w ∧ (∀ s₁ b, S.apply w s = .ok (s₁, b) → Makes S P (k (.ok b)) s₁) ∧
      ∀ e, Makes S P (k (.error e)) s

section Rules

variable {S : SharedStore σ ω ε β} {P : σ → ω → Prop}

theorem makes_pure (a : α) (s : σ) : Makes S P (pure a : Prog σ ω ε β α) s := trivial

/-- The rule of sequencing, where what comes after needs nothing from what came before. -/
theorem Makes.bind {f : α → Prog σ ω ε β γ} (hf : ∀ a s, Makes S P (f a) s) :
    ∀ {p : Prog σ ω ε β α} {s : σ}, Makes S P p s → Makes S P (p >>= f) s
  | ret a, s, _ => hf a s
  | read k, s, h => Makes.bind (p := k s) hf h
  | write _ _, _, h =>
      ⟨h.1, fun s₁ b hw => Makes.bind hf (h.2.1 s₁ b hw), fun e => Makes.bind hf (h.2.2 e)⟩

theorem Makes.bind_pure {f : α → γ} {p : Prog σ ω ε β α} {s : σ} (h : Makes S P p s) :
    Makes S P (p >>= fun a => pure (f a)) s := Makes.bind (fun a s => makes_pure (f a) s) h

/-- A read, and what follows. -/
theorem makes_query_bind {f : σ → α} {k : α → Prog σ ω ε β γ} {s : σ}
    (h : Makes S P (k (f s)) s) : Makes S P (query f >>= k) s := h

/-- A write whose condition holds. -/
theorem makes_locked {w : ω} {s : σ} (h : P s w) : Makes S P (locked w) s :=
  ⟨h, fun _ _ _ => trivial, fun _ => trivial⟩

/-- A program whose writes satisfy `P` anywhere. -/
theorem Makes.of_writes {W : ω → Prop} (hW : ∀ w, W w → ∀ s, P s w) :
    ∀ {p : Prog σ ω ε β α} {s : σ}, p.Writes W → Makes S P p s
  | ret _, _, _ => trivial
  | read k, s, h => Makes.of_writes hW (p := k s) (h s)
  | write w _, s, h =>
      ⟨hW w h.1 s, fun _ b _ => Makes.of_writes hW (h.2 (.ok b)),
        fun e => Makes.of_writes hW (h.2 (.error e))⟩

/-- What is known of the writes is known of those it comes to make. -/
theorem Makes.and_writes {W : ω → Prop} : ∀ {p : Prog σ ω ε β α} {s : σ}, Makes S P p s →
    p.Writes W → Makes S (fun s w => P s w ∧ W w) p s
  | ret _, _, _, _ => trivial
  | read k, s, h, hw => Makes.and_writes (p := k s) h (hw s)
  | write _ _, _, h, hw =>
      ⟨⟨h.1, hw.1⟩, fun s₁ b happly => (h.2.1 s₁ b happly).and_writes (hw.2 (.ok b)),
        fun e => (h.2.2 e).and_writes (hw.2 (.error e))⟩

/-- **An invariant of the writes is one of the runs**; it may speak of the writes made so far. -/
theorem Makes.runs {I : List (σ × σ) → σ → Prop}
    (hstep : ∀ ws s w s₁ b, I ws s → P s w → S.apply w s = .ok (s₁, b) → I (ws ++ [(s, s₁)]) s₁)
    {p : Prog σ ω ε β α} {s s' : σ} {ws : List (σ × σ)} {a : α} (hrun : Runs S p s ws a s') :
    ∀ {ws₀ : List (σ × σ)}, Makes S P p s → I ws₀ s → I (ws₀ ++ ws) s' := by
  induction hrun with
  | ret a s =>
    intro ws₀ _ hi
    rwa [List.append_nil]
  | read h ih => exact fun hm hi => ih hm hi
  | write hw h ih =>
    intro ws₀ hm hi
    rw [List.append_cons]
    exact ih (hm.2.1 _ _ hw) (hstep _ _ _ _ _ hi hm.1 hw)
  | fault h ih => exact fun hm hi => ih (hm.2.2 _) hi

/-- A preorder on stores that the writes keep is kept by the runs. -/
theorem Makes.rel {R : σ → σ → Prop} (hrefl : ∀ s, R s s)
    (htrans : ∀ {s₁ s₂ s₃}, R s₁ s₂ → R s₂ s₃ → R s₁ s₃)
    (hstep : ∀ {s w s₁ b}, P s w → S.apply w s = .ok (s₁, b) → R s s₁)
    {p : Prog σ ω ε β α} {s s' : σ} {ws : List (σ × σ)} {a : α} (hp : Makes S P p s)
    (hrun : Runs S p s ws a s') : R s s' := by
  induction hrun with
  | ret a s => exact hrefl s
  | read h ih => exact ih hp
  | write hw h ih => exact htrans (hstep hp.1 hw) (ih (hp.2.1 _ _ hw))
  | fault h ih => exact ih (hp.2.2 _)

/-- **What every write keeps, a run keeps.** -/
theorem Writes.runs {P : ω → Prop} {R : σ → σ → Prop} (hrefl : ∀ s, R s s)
    (htrans : ∀ {s₁ s₂ s₃}, R s₁ s₂ → R s₂ s₃ → R s₁ s₃)
    (hstep : ∀ {s w s₁ b}, P w → S.apply w s = .ok (s₁, b) → R s s₁)
    {p : Prog σ ω ε β α} {s s' : σ} {ws : List (σ × σ)} {a : α} (hp : Writes P p)
    (hrun : Runs S p s ws a s') : R s s' :=
  (Makes.of_writes (P := fun _ w => P w) (fun _ hw _ => hw) hp).rel hrefl htrans hstep hrun

/-- What a program does alone is a run. -/
theorem runs_run : ∀ (p : Prog σ ω ε β α) (s : σ), ∃ ws, Runs S p s ws (run S p s).2 (run S p s).1
  | ret a, s => ⟨[], .ret a s⟩
  | read k, s => by
      obtain ⟨ws, h⟩ := runs_run (k s) s
      exact ⟨ws, .read h⟩
  | write w k, s => by
      rw [run]
      split
      · rename_i s' b hw
        obtain ⟨ws, h⟩ := runs_run (k (.ok b)) s'
        exact ⟨_, .write hw h⟩
      · rename_i e hw
        obtain ⟨ws, h⟩ := runs_run (k (.error e)) s
        exact ⟨ws, .fault h⟩

/-- What holds of every result holds of the result of a run. -/
theorem Results.runs {Q : α → Prop} {p : Prog σ ω ε β α} {s s' : σ} {ws : List (σ × σ)} {a : α}
    (hp : p.Results Q) (hrun : Runs S p s ws a s') : Q a := by
  induction hrun with
  | ret a s => exact hp
  | read h ih => exact ih (hp _)
  | write hw h ih => exact ih (hp _)
  | fault h ih => exact ih (hp _)

/-- **A program that only reads** has one run. -/
theorem runs_iff_of_reads {p : Prog σ ω ε β α} {s s' : σ} {a : α} (hp : p.Writes fun _ => False) :
    (∃ ws, Runs S p s ws a s') ↔ run S p s = (s', a) := by
  induction p with
  | ret b =>
    constructor
    · rintro ⟨ws, hrun⟩
      obtain ⟨rfl, rfl, -⟩ := hrun.of_ret
      rfl
    · intro h
      obtain ⟨rfl, rfl⟩ := Prod.mk.inj h
      exact ⟨[], .ret _ _⟩
  | read k ih =>
    rw [run, ← ih s (hp s)]
    constructor
    · rintro ⟨ws, hrun⟩
      cases hrun with
      | read h => exact ⟨ws, h⟩
    · rintro ⟨ws, h⟩
      exact ⟨ws, .read h⟩
  | write w k ih => exact hp.1.elim

end Rules

/-! ## Programs over a store with more writes -/

/-- The program with its writes renamed. -/
def mapWrites (g : ω → ω') : Prog σ ω ε β α → Prog σ ω' ε β α
  | ret a => ret a
  | read k => read fun s => mapWrites g (k s)
  | write w k => write (g w) fun r => mapWrites g (k r)

section MapWrites

variable {S : SharedStore σ ω ε β} {S' : SharedStore σ ω' ε β} {g : ω → ω'}
  (hg : ∀ w s, S'.apply (g w) s = S.apply w s)

include hg

/-- A condition is carried to the other kind of writes. -/
theorem Makes.mapWrites {P : σ → ω → Prop} {P' : σ → ω' → Prop}
    (hP : ∀ s w, P s w → P' s (g w)) :
    ∀ {p : Prog σ ω ε β α} {s : σ}, Makes S P p s → Makes S' P' (p.mapWrites g) s
  | ret _, _, _ => trivial
  | read k, s, h => Makes.mapWrites hP (p := k s) h
  | write w _, s, h => by
      refine ⟨hP s w h.1, fun s₁ b hw => ?_, fun e => (h.2.2 e).mapWrites hP⟩
      rw [hg] at hw
      exact (h.2.1 s₁ b hw).mapWrites hP

end MapWrites

/-! ## Programs over a part of a store -/

/-- The program on the part `get` of a larger store. -/
def embed {σ' : Type*} (get : σ' → σ) (g : ω → ω') : Prog σ ω ε β α → Prog σ' ω' ε β α
  | ret a => ret a
  | read k => read fun s => embed get g (k (get s))
  | write w k => write (g w) fun r => embed get g (k r)

/-- Renaming writes is embedding the same state. -/
theorem mapWrites_eq_embed (g : ω → ω') :
    ∀ p : Prog σ ω ε β α, p.mapWrites g = p.embed id g
  | ret _ => rfl
  | read k => congrArg read (funext fun s => mapWrites_eq_embed g (k s))
  | write w k => congrArg (write (g w)) (funext fun r => mapWrites_eq_embed g (k r))

/-- A bound on writes is carried along. -/
theorem Writes.embed {σ' : Type*} {get : σ' → σ} {g : ω → ω'} {P : ω → Prop} {P' : ω' → Prop}
    (hP : ∀ w, P w → P' (g w)) :
    ∀ {p : Prog σ ω ε β α}, Writes P p → Writes P' (p.embed get g)
  | ret _, _ => trivial
  | read _, h => fun s => (h (get s)).embed hP
  | write w _, h => ⟨hP w h.1, fun r => (h.2 r).embed hP⟩

/-- **A run of an embedded program** is one on the part, and leaves the rest as it was. -/
theorem Runs.of_embed {σ' ρ : Type*} {S : SharedStore σ ω ε β} {S' : SharedStore σ' ω' ε β}
    {get : σ' → σ} {g : ω → ω'} (put : σ' → σ → σ') (rest : σ' → ρ)
    (hg : ∀ w s, S'.apply (g w) s = (S.apply w (get s)).map fun p => (put s p.1, p.2))
    (hget : ∀ s t, get (put s t) = t) (hrest : ∀ s t, rest (put s t) = rest s)
    {p : Prog σ ω ε β α} {s s' : σ'} {ws : List (σ' × σ')} {a : α}
    (h : Runs S' (p.embed get g) s ws a s') :
    (∃ ws', Runs S p (get s) ws' a (get s')) ∧ rest s' = rest s := by
  induction p generalizing s ws with
  | ret b =>
    obtain ⟨rfl, rfl, -⟩ := Runs.of_ret h
    exact ⟨⟨[], .ret a (get s')⟩, rfl⟩
  | read k ih =>
    cases h with
    | read h =>
      obtain ⟨⟨ws', hk⟩, hsame⟩ := ih (get s) h
      exact ⟨⟨ws', .read hk⟩, hsame⟩
  | write w k ih =>
    cases h with
    | fault h =>
      obtain ⟨⟨ws', hk⟩, hsame⟩ := ih _ h
      exact ⟨⟨ws', .fault hk⟩, hsame⟩
    | write hw h =>
      obtain ⟨⟨ws', hk⟩, hsame⟩ := ih _ h
      rw [hg] at hw
      cases happly : S.apply w (get s) with
      | error e =>
        rw [happly] at hw
        exact absurd hw (by simp [Except.map])
      | ok q =>
        rw [happly] at hw
        obtain ⟨rfl, rfl⟩ := Prod.mk.inj (Except.ok.inj hw)
        rw [hget] at hk
        exact ⟨⟨_, .write happly hk⟩, hsame.trans (hrest s q.1)⟩

/-! ## Given which writes fail -/

/-- A store, and for each write to come the error it fails with, if it does. -/
abbrev Faulty (σ ε : Type*) := σ × (ℕ → Option ε)

/-- The execution with these failures. -/
def runFaults (S : SharedStore σ ω ε β) : Prog σ ω ε β α → Faulty σ ε → Faulty σ ε × α
  | ret a, x => (x, a)
  | read k, x => runFaults S (k x.1) x
  | write w k, (s, faults) =>
    let rest := fun n => faults (n + 1)
    match faults 0 with
    | some e => runFaults S (k (.error e)) (s, rest)
    | none =>
      match S.apply w s with
      | .ok (s', b) => runFaults S (k (.ok b)) (s', rest)
      | .error e => runFaults S (k (.error e)) (s, rest)

/-- A sequence goes on with the faults that are left. -/
theorem runFaults_bind (S : SharedStore σ ω ε β) (f : α → Prog σ ω ε β γ) :
    ∀ (p : Prog σ ω ε β α) (x : Faulty σ ε),
      runFaults S (p >>= f) x = runFaults S (f (runFaults S p x).2) (runFaults S p x).1
  | ret a, x => rfl
  | read k, x => runFaults_bind S f (k x.1) x
  | write w k, (s, faults) => by
      rw [write_bind, runFaults, runFaults]
      split
      · exact runFaults_bind S f _ _
      · split
        · exact runFaults_bind S f _ _
        · exact runFaults_bind S f _ _

theorem runFaults_query_bind (S : SharedStore σ ω ε β) (f : σ → α) (k : α → Prog σ ω ε β γ)
    (x : Faulty σ ε) : runFaults S (query f >>= k) x = runFaults S (k (f x.1)) x := rfl

/-- Such an execution is a run. -/
theorem runs_runFaults (S : SharedStore σ ω ε β) :
    ∀ (p : Prog σ ω ε β α) (x : Faulty σ ε),
      ∃ ws, Runs S p x.1 ws (runFaults S p x).2 (runFaults S p x).1.1
  | ret a, x => ⟨[], .ret a x.1⟩
  | read k, x => by
      obtain ⟨ws, h⟩ := runs_runFaults S (k x.1) x
      exact ⟨ws, .read h⟩
  | write w k, (s, faults) => by
      rw [runFaults]
      dsimp only
      split
      · rename_i e _
        obtain ⟨ws, h⟩ := runs_runFaults S (k (.error e)) (s, fun n => faults (n + 1))
        exact ⟨ws, .fault h⟩
      · split
        · rename_i s' b hw
          obtain ⟨ws, h⟩ := runs_runFaults S (k (.ok b)) (s', fun n => faults (n + 1))
          exact ⟨_, .write hw h⟩
        · rename_i e _
          obtain ⟨ws, h⟩ := runs_runFaults S (k (.error e)) (s, fun n => faults (n + 1))
          exact ⟨ws, .fault h⟩

end Prog
