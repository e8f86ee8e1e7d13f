import Mathlib.Tactic.Common

/-!
# Machinery/Traced — computations that may run out of fuel, and what they do on the way

A computation records events, and has no result if its fuel runs out.  `Ends good m a` says that `m`
comes to an end, with the result `a`, and that every event on the way is good.  The rule for loops is
`Ends.loop`: a measure that shrinks with every iteration is fuel enough.
-/

variable {ε α β σ : Type}

/-- A computation with its events; `none` where the fuel runs out. -/
def Traced (ε α : Type) := Option (α × List ε)

namespace Traced

def outOfFuel : Traced ε α := none

/-- Record an event. -/
def emit (e : ε) : Traced ε Unit := some ((), [e])

instance : Monad (Traced ε) where
  pure a := some (a, [])
  bind m f :=
    match m with
    | none => none
    | some (a, events) =>
      match f a with
      | none => none
      | some (b, events') => some (b, events ++ events')

/-- `while`: an iteration says with what to go on, or what the loop comes to. -/
def loop (iteration : σ → Traced ε (σ ⊕ β)) : ℕ → σ → Traced ε β
  | 0, _ => outOfFuel
  | n + 1, s => do
    match ← iteration s with
    | .inl s' => loop iteration n s'
    | .inr b => pure b

/-! ## Computations that end -/

/-- The computation ends with this result, and every event on the way is good. -/
def Ends (good : ε → Prop) (m : Traced ε α) (a : α) : Prop :=
  ∃ events, m = some (a, events) ∧ ∀ e ∈ events, good e

namespace Ends

variable {good : ε → Prop} {m : Traced ε α} {f : α → Traced ε β} {a : α} {b : β} {e : ε}

theorem pure (a : α) : Ends good (Pure.pure a : Traced ε α) a :=
  ⟨[], rfl, fun _ h => absurd h List.not_mem_nil⟩

theorem emit (h : good e) : Ends good (Traced.emit e) () :=
  ⟨[e], rfl, fun _ he => List.mem_singleton.mp he ▸ h⟩

theorem bind (hm : Ends good m a) (hf : Ends good (f a) b) : Ends good (m >>= f) b := by
  obtain ⟨events, rfl, hevents⟩ := hm
  obtain ⟨events', hb, hevents'⟩ := hf
  refine ⟨events ++ events', ?_, fun e he => ?_⟩
  · change (match f a with
      | none => none
      | some (b, events') => some (b, events ++ events')) = _
    rw [hb]
  · exact (List.mem_append.mp he).elim (hevents e) (hevents' e)

/-- **The rule for loops**: where every iteration ends, and goes on with a smaller measure and the
same outcome or comes to this outcome, the loop comes to it. -/
theorem loop {iteration : σ → Traced ε (σ ⊕ β)} (size : σ → ℕ) (outcome : σ → β)
    (hiteration : ∀ s, (∃ s', Ends good (iteration s) (.inl s') ∧ size s' < size s ∧
      outcome s' = outcome s) ∨ Ends good (iteration s) (.inr (outcome s))) :
    ∀ {n : ℕ} {s : σ}, size s < n → Ends good (Traced.loop iteration n s) (outcome s)
  | 0, _, hn => absurd hn (Nat.not_lt_zero _)
  | n + 1, s, hn => by
      rw [Traced.loop]
      rcases hiteration s with ⟨s', hnext, hsize, houtcome⟩ | hlast
      · rw [← houtcome]
        exact hnext.bind (Ends.loop size outcome hiteration
          (Nat.lt_of_lt_of_le hsize (Nat.le_of_lt_succ hn)))
      · exact hlast.bind (Ends.pure _)

end Ends

end Traced
