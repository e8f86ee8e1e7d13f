import MailStack.Machinery.Run

/-!
# Machinery/Prog — programs that read and write a shared store

A program over a store is a tree: it returns, or reads the committed store and goes on, or makes
one locked write and goes on with what the write answered.  A write is first-order data `ω`, so
that a statement about a run can speak of the write a program is about to make; `SharedStore.apply`
says what it does.  A write that fails leaves the store as it was.

`Prog.run` executes a program alone.  `Prog.Ok` is rely–guarantee reasoning about one program among
others: between two of its steps the store may change by any `rely` step, reads may depend on the
store only up to `view`, and every write it makes must meet `guar`.
-/

/-- What writes do: `apply w s` is the new store and the answer, or the error of a write that
was rolled back. -/
structure SharedStore (σ ω ε β : Type*) where
  apply : ω → σ → Except ε (σ × β)

/-- A program over a store `σ` with writes `ω`, answered by `Except ε β`. -/
inductive Prog (σ ω ε β : Type*) (α : Type*)
  | ret (a : α)
  | read (k : σ → Prog σ ω ε β α)
  | write (w : ω) (k : Except ε β → Prog σ ω ε β α)

namespace Prog

universe v

variable {σ ω ε β : Type*} {α γ δ : Type v}

/-- Sequencing. -/
def bind (f : α → Prog σ ω ε β γ) : Prog σ ω ε β α → Prog σ ω ε β γ
  | ret a => f a
  | read k => read fun s => bind f (k s)
  | write w k => write w fun r => bind f (k r)

instance : Monad (Prog σ ω ε β) where
  pure := ret
  bind p f := p.bind f

@[simp] theorem pure_eq (a : α) : (pure a : Prog σ ω ε β α) = ret a := rfl

@[simp] theorem ret_bind (a : α) (f : α → Prog σ ω ε β γ) : (ret a : Prog σ ω ε β α) >>= f = f a :=
  rfl

@[simp] theorem read_bind (k : σ → Prog σ ω ε β α) (f : α → Prog σ ω ε β γ) :
    read k >>= f = read fun s => k s >>= f := rfl

@[simp] theorem write_bind (w : ω) (k : Except ε β → Prog σ ω ε β α) (f : α → Prog σ ω ε β γ) :
    write w k >>= f = write w fun r => k r >>= f := rfl

theorem bind_ret (p : Prog σ ω ε β α) : p >>= ret = p := by
  induction p with
  | ret a => rfl
  | read k ih => exact congrArg read (funext ih)
  | write w k ih => exact congrArg (write w) (funext ih)

theorem bind_assoc (p : Prog σ ω ε β α) (f : α → Prog σ ω ε β γ) (g : γ → Prog σ ω ε β δ) :
    p >>= f >>= g = p >>= fun a => f a >>= g := by
  induction p with
  | ret a => rfl
  | read k ih => exact congrArg read (funext ih)
  | write w k ih => exact congrArg (write w) (funext ih)

instance : LawfulMonad (Prog σ ω ε β) :=
  LawfulMonad.mk' _ bind_ret (fun _ _ => rfl) bind_assoc

/-- One query of the committed store. -/
def query (f : σ → α) : Prog σ ω ε β α := read fun s => ret (f s)

/-- One locked write. -/
def locked (w : ω) : Prog σ ω ε β (Except ε β) := write w ret

/-! ## Alone -/

/-- The store and the result when no one else acts. -/
def run (S : SharedStore σ ω ε β) : Prog σ ω ε β α → σ → σ × α
  | ret a, s => (s, a)
  | read k, s => run S (k s) s
  | write w k, s =>
    match S.apply w s with
    | .ok (s', b) => run S (k (.ok b)) s'
    | .error e => run S (k (.error e)) s

/-- A sequence run alone. -/
theorem run_bind (S : SharedStore σ ω ε β) (f : α → Prog σ ω ε β γ) :
    ∀ (p : Prog σ ω ε β α) (s : σ),
      run S (p >>= f) s = run S (f (run S p s).2) (run S p s).1
  | ret a, s => rfl
  | read k, s => run_bind S f (k s) s
  | write w k, s => by
      rw [write_bind, run, run]
      split
      · exact run_bind S f _ _
      · exact run_bind S f _ _

/-- A read run alone sees the state. -/
theorem run_query_bind (S : SharedStore σ ω ε β) (f : σ → α) (k : α → Prog σ ω ε β γ) (s : σ) :
    run S (query f >>= k) s = run S (k (f s)) s := rfl

/-- A write under the lock that succeeds. -/
theorem run_locked_of_ok {σ ω ε β : Type v} {S : SharedStore σ ω ε β} {w : ω} {s s' : σ} {b : β}
    (h : S.apply w s = .ok (s', b)) : run S (locked w) s = (s', .ok b) := by
  rw [locked, run, h]
  rfl

/-- Every write the program may come to make satisfies `P`. -/
def Writes (P : ω → Prop) : Prog σ ω ε β α → Prop
  | ret _ => True
  | read k => ∀ s, Writes P (k s)
  | write w k => P w ∧ ∀ r, Writes P (k r)

/-- Every program is bounded by what every write satisfies. -/
theorem writes_of_forall {P : ω → Prop} (h : ∀ w, P w) : ∀ p : Prog σ ω ε β α, p.Writes P
  | ret _ => trivial
  | read k => fun s => writes_of_forall h (k s)
  | write w k => ⟨h w, fun r => writes_of_forall h (k r)⟩

theorem Writes.mono {P P' : ω → Prop} (h : ∀ w, P w → P' w) :
    ∀ {p : Prog σ ω ε β α}, Writes P p → Writes P' p
  | ret _, _ => trivial
  | read _, hk => fun s => Writes.mono h (hk s)
  | write _ _, hk => ⟨h _ hk.1, fun r => Writes.mono h (hk.2 r)⟩

/-- The writes of a sequence are those of its parts. -/
theorem Writes.bind {P : ω → Prop} {f : α → Prog σ ω ε β γ} (hf : ∀ a, Writes P (f a)) :
    ∀ {p : Prog σ ω ε β α}, Writes P p → Writes P (p >>= f)
  | ret a, _ => hf a
  | read _, h => fun s => Writes.bind hf (h s)
  | write _ _, h => ⟨h.1, fun r => Writes.bind hf (h.2 r)⟩

theorem writes_pure {P : ω → Prop} (a : α) : Writes P (pure a : Prog σ ω ε β α) := trivial

theorem writes_locked {P : ω → Prop} {w : ω} (h : P w) :
    Writes P (locked w : Prog σ ω ε β _) := ⟨h, fun _ => trivial⟩

/-- A query whose result decides how to go on. -/
theorem Writes.query_bind {P : ω → Prop} {f : σ → α} {k : α → Prog σ ω ε β γ}
    (h : ∀ a, Writes P (k a)) : Writes P (query f >>= k) := fun s => h (f s)

/-- Whatever it reads and however its writes are answered, the program returns what satisfies `Q`. -/
def Results (Q : α → Prop) : Prog σ ω ε β α → Prop
  | ret a => Q a
  | read k => ∀ s, Results Q (k s)
  | write _ k => ∀ r, Results Q (k r)

/-- Every program has results that every value satisfies. -/
theorem results_of_forall {Q : α → Prop} (h : ∀ a, Q a) : ∀ p : Prog σ ω ε β α, p.Results Q
  | ret a => h a
  | read k => fun s => results_of_forall h (k s)
  | write _ k => fun r => results_of_forall h (k r)

theorem Results.mono {Q Q' : α → Prop} (h : ∀ a, Q a → Q' a) :
    ∀ {p : Prog σ ω ε β α}, p.Results Q → p.Results Q'
  | ret a, ha => h a ha
  | read _, hk => fun s => Results.mono h (hk s)
  | write _ _, hk => fun r => Results.mono h (hk r)

/-- The results of a sequence are those of its second part. -/
theorem Results.bind {Q : α → Prop} {Q' : γ → Prop} {f : α → Prog σ ω ε β γ}
    (hf : ∀ a, Q a → (f a).Results Q') :
    ∀ {p : Prog σ ω ε β α}, p.Results Q → (p >>= f).Results Q'
  | ret a, h => hf a h
  | read _, h => fun s => Results.bind hf (h s)
  | write _ _, h => fun r => Results.bind hf (h r)

/-- A run has one of the results. -/
theorem Results.run {Q : α → Prop} (S : SharedStore σ ω ε β) :
    ∀ {p : Prog σ ω ε β α}, p.Results Q → ∀ s, Q (run S p s).2
  | ret _, h, _ => h
  | read _, h, s => Results.run S (h s) s
  | write w k, h, s => by
      rw [Prog.run]
      split
      · exact Results.run S (h _) _
      · exact Results.run S (h _) s

/-- The result where its reads saw these stores and its writes were answered so, in this order. -/
def observe : Prog σ ω ε β α → List (σ ⊕ Except ε β) → Option α
  | ret a, [] => some a
  | read k, .inl s :: seen => observe (k s) seen
  | write _ k, .inr r :: seen => observe (k r) seen
  | _, _ => none

theorem eq_of_observe_ret {a b : α} {seen : List (σ ⊕ Except ε β)}
    (h : observe (ret a : Prog σ ω ε β α) seen = some b) : a = b := by
  cases seen with
  | nil => exact Option.some.inj h
  | cons _ _ => exact nomatch h

/-! ## Among others -/

/-- A rely–guarantee contract.  `inv` holds of every store a program sees; `rely` is what the store
may become between two of its steps; `view` is what its reads may tell apart; `allow` is assumed of
the writes it makes, when they are made, and `faulty` says whether one may fail without a reason in
the store; `guar` is what each write that succeeds must do. -/
structure Contract (σ ω : Type*) where
  inv : σ → Prop
  rely : σ → σ → Prop
  view : σ → σ → Prop
  allow : σ → ω → Prop
  faulty : Prop
  guar : σ → σ → Prop

/-- The program meets the contract from the store `s` on, and returns with `post`. -/
def Ok (S : SharedStore σ ω ε β) (C : Contract σ ω) (post : α → σ → Prop) :
    Prog σ ω ε β α → σ → Prop
  | ret a, s => post a s
  | read k, s =>
    (∀ s₁ s₂, C.rely s s₁ → C.rely s s₂ → C.inv s₁ → C.inv s₂ → C.view s₁ s₂ → k s₁ = k s₂) ∧
      ∀ s₁, C.rely s s₁ → C.inv s₁ → Ok S C post (k s₁) s₁
  | write w k, s =>
    ∀ s₁, C.rely s s₁ → C.inv s₁ →
      (∀ e, C.faulty ∨ (C.allow s₁ w ∧ S.apply w s₁ = .error e) →
        Ok S C post (k (.error e)) s₁) ∧
      ∀ s₂ b, C.allow s₁ w → S.apply w s₁ = .ok (s₂, b) →
        C.guar s₁ s₂ ∧ C.inv s₂ ∧ C.rely s₁ s₂ ∧ Ok S C post (k (.ok b)) s₂

section Rules

variable {S : SharedStore σ ω ε β} {C : Contract σ ω} {post : α → σ → Prop}

/-- A weaker postcondition. -/
theorem Ok.mono {post' : α → σ → Prop} (himp : ∀ a s, post a s → post' a s) :
    ∀ {p : Prog σ ω ε β α} {s : σ}, Ok S C post p s → Ok S C post' p s
  | ret a, s, h => himp a s h
  | read _, _, h => ⟨h.1, fun s₁ hr hi => (h.2 s₁ hr hi).mono himp⟩
  | write _ _, _, h => fun s₁ hr hi =>
      ⟨fun e he => ((h s₁ hr hi).1 e he).mono himp, fun s₂ b ha hw =>
        let ⟨hg, hi₂, hr₂, hk⟩ := (h s₁ hr hi).2 s₂ b ha hw
        ⟨hg, hi₂, hr₂, hk.mono himp⟩⟩

/-- A read that the others cannot change between two states of the view. -/
theorem Ok.query {f : σ → α} {s : σ}
    (hview : ∀ s₁ s₂, C.rely s s₁ → C.rely s s₂ → C.inv s₁ → C.inv s₂ → C.view s₁ s₂ → f s₁ = f s₂)
    (hpost : ∀ s₁, C.rely s s₁ → C.inv s₁ → post (f s₁) s₁) : Ok S C post (query f) s :=
  ⟨fun s₁ s₂ h₁ h₂ hi₁ hi₂ hv => congrArg ret (hview s₁ s₂ h₁ h₂ hi₁ hi₂ hv), hpost⟩

/-- **The rule of a locked write.** -/
theorem Ok.locked {w : ω} {s : σ} {post : Except ε β → σ → Prop}
    (herror : ∀ s₁ e, C.rely s s₁ → C.inv s₁ →
      C.faulty ∨ (C.allow s₁ w ∧ S.apply w s₁ = .error e) → post (.error e) s₁)
    (hok : ∀ s₁ s₂ b, C.rely s s₁ → C.inv s₁ → C.allow s₁ w → S.apply w s₁ = .ok (s₂, b) →
      C.guar s₁ s₂ ∧ C.inv s₂ ∧ C.rely s₁ s₂ ∧ post (.ok b) s₂) :
    Ok S C post (locked w) s := fun s₁ hr hi =>
  ⟨fun e he => herror s₁ e hr hi he, fun s₂ b ha hw => hok s₁ s₂ b hr hi ha hw⟩

/-- **The rule of sequencing.** -/
theorem Ok.bind {f : α → Prog σ ω ε β γ} {post' : γ → σ → Prop}
    (hf : ∀ a s, post a s → Ok S C post' (f a) s) :
    ∀ {p : Prog σ ω ε β α} {s : σ}, Ok S C post p s → Ok S C post' (p >>= f) s
  | ret a, s, h => hf a s h
  | read _, _, h =>
      ⟨fun s₁ s₂ h₁ h₂ hi₁ hi₂ hv => congrArg (Prog.bind f) (h.1 s₁ s₂ h₁ h₂ hi₁ hi₂ hv),
        fun s₁ hr hi => Ok.bind hf (h.2 s₁ hr hi)⟩
  | write _ _, _, h => fun s₁ hr hi =>
      ⟨fun e he => Ok.bind hf ((h s₁ hr hi).1 e he), fun s₂ b ha hw =>
        let ⟨hg, hi₂, hr₂, hk⟩ := (h s₁ hr hi).2 s₂ b ha hw
        ⟨hg, hi₂, hr₂, Ok.bind hf hk⟩⟩

/-- **A program that meets its contract goes on meeting it when others act.** -/
theorem Ok.stable (htrans : ∀ s₁ s₂ s₃, C.rely s₁ s₂ → C.rely s₂ s₃ → C.rely s₁ s₃)
    (hpost : ∀ a s s', C.rely s s' → C.inv s' → post a s → post a s') {s s' : σ}
    (hr : C.rely s s') (hi : C.inv s') :
    ∀ {p : Prog σ ω ε β α}, Ok S C post p s → Ok S C post p s'
  | ret a, h => hpost a s s' hr hi h
  | read _, h =>
      ⟨fun s₁ s₂ h₁ h₂ => h.1 s₁ s₂ (htrans _ _ _ hr h₁) (htrans _ _ _ hr h₂),
        fun s₁ h₁ => h.2 s₁ (htrans _ _ _ hr h₁)⟩
  | write _ _, h => fun s₁ h₁ => h s₁ (htrans _ _ _ hr h₁)

end Rules

end Prog
