import Mathlib.Logic.Basic
import Mathlib.Tactic.Common

/-!
# Machinery/Run — runs of a step function driven by inputs

`exec step s as` is the state after the inputs `as`, and `none` when one of them is not enabled.
`Along` asks something of every transition of such a run; `exec_invariant_of_along` is the
induction every safety statement goes through.
-/

namespace Run

variable {σ ι : Type*} {step : σ → ι → Option σ}

/-- The state after a list of inputs. -/
def exec (step : σ → ι → Option σ) : σ → List ι → Option σ
  | s, [] => some s
  | s, a :: as => (step s a).bind fun s' => exec step s' as

/-- `C` holds of every state of the run together with the input it takes there. -/
def Along (step : σ → ι → Option σ) (C : σ → ι → Prop) : σ → List ι → Prop
  | _, [] => True
  | s, a :: as => C s a ∧ ∀ s', step s a = some s' → Along step C s' as

theorem exec_cons_eq_some_iff {s t : σ} {a : ι} {as : List ι} :
    exec step s (a :: as) = some t ↔ ∃ s', step s a = some s' ∧ exec step s' as = some t :=
  Option.bind_eq_some_iff

theorem exec_append (s : σ) (as bs : List ι) :
    exec step s (as ++ bs) = (exec step s as).bind fun s' => exec step s' bs := by
  induction as generalizing s with
  | nil => rfl
  | cons a as ih =>
    simp only [List.cons_append, exec, Option.bind_assoc]
    exact congrArg _ (funext fun s' => ih s')

/-- **An invariant of the transitions that meet `C` holds at the end of every run along `C`.** -/
theorem exec_invariant_of_along {C : σ → ι → Prop} {I : σ → Prop}
    (hstep : ∀ s a s', I s → C s a → step s a = some s' → I s') :
    ∀ {as : List ι} {s t : σ}, I s → Along step C s as → exec step s as = some t → I t
  | [], s, t, hs, _, h => by
      obtain rfl : s = t := Option.some.inj h
      exact hs
  | a :: as, s, t, hs, hC, h => by
      obtain ⟨s', hs', ht⟩ := exec_cons_eq_some_iff.mp h
      exact exec_invariant_of_along hstep (hstep s a s' hs hC.1 hs') (hC.2 s' hs') ht

theorem Along.mono {C C' : σ → ι → Prop} (h : ∀ s a, C s a → C' s a) :
    ∀ {as : List ι} {s : σ}, Along step C s as → Along step C' s as
  | [], _, _ => trivial
  | _ :: _, _, hC => ⟨h _ _ hC.1, fun s' hs' => Along.mono h (hC.2 s' hs')⟩

theorem Along.cons {C : σ → ι → Prop} {s s' : σ} {a : ι} {as : List ι} (hC : C s a)
    (hs : step s a = some s') (h : Along step C s' as) : Along step C s (a :: as) := by
  refine ⟨hC, fun t ht => ?_⟩
  obtain rfl : s' = t := Option.some.inj (hs.symm.trans ht)
  exact h

/-- A run is checked as it goes, where each of its transitions is. -/
instance Along.decidable {C : σ → ι → Prop} [∀ s a, Decidable (C s a)] :
    ∀ (s : σ) (as : List ι), Decidable (Along step C s as)
  | _, [] => isTrue trivial
  | s, a :: as =>
    match hs : step s a with
    | none => decidable_of_iff (C s a)
        ⟨fun hC => ⟨hC, by simp [hs]⟩, And.left⟩
    | some s' =>
      have := Along.decidable (C := C) s' as
      decidable_of_iff (C s a ∧ Along step C s' as)
        ⟨fun h => .cons h.1 hs h.2, fun h => ⟨h.1, h.2 s' hs⟩⟩

theorem along_true (s : σ) (as : List ι) : Along step (fun _ _ => True) s as := by
  induction as generalizing s with
  | nil => trivial
  | cons a as ih => exact ⟨trivial, fun s' _ => ih s'⟩

theorem along_of_forall {C : σ → ι → Prop} {as : List ι} (h : ∀ a ∈ as, ∀ s, C s a) (s : σ) :
    Along step C s as := by
  induction as generalizing s with
  | nil => trivial
  | cons a as ih =>
    exact ⟨h a List.mem_cons_self s, fun s' _ => ih (fun b hb => h b (List.mem_cons_of_mem a hb)) s'⟩

/-- **An invariant of every transition holds at the end of every run.** -/
theorem exec_invariant {I : σ → Prop} (hstep : ∀ s a s', I s → step s a = some s' → I s')
    {as : List ι} {s t : σ} (hs : I s) (h : exec step s as = some t) : I t :=
  exec_invariant_of_along (C := fun _ _ => True) (fun s a s' hs _ => hstep s a s' hs) hs
    (along_true s as) h

/-- **Good as long as `C` is met, and bad for good from then on.** -/
theorem along_or {C : σ → ι → Prop} {G B : σ → Prop}
    (hgood : ∀ s a s', G s → C s a → step s a = some s' → G s')
    (hbad : ∀ s a s', G s → ¬ C s a → step s a = some s' → B s')
    (hkeep : ∀ s a s', B s → step s a = some s' → B s') :
    ∀ {as : List ι} {s t : σ}, G s → exec step s as = some t →
      (Along step C s as ∧ G t) ∨ (¬ Along step C s as ∧ B t)
  | [], s, t, hs, h => by
      obtain rfl : s = t := Option.some.inj h
      exact .inl ⟨trivial, hs⟩
  | a :: as, s, t, hs, h => by
      obtain ⟨s', hs', ht⟩ := exec_cons_eq_some_iff.mp h
      by_cases hC : C s a
      · rcases along_or hgood hbad hkeep (hgood s a s' hs hC hs') ht with ⟨hrest, hG⟩ | ⟨hrest, hB⟩
        · exact .inl ⟨.cons hC hs' hrest, hG⟩
        · exact .inr ⟨fun hall => hrest (hall.2 s' hs'), hB⟩
      · exact .inr ⟨fun hall => hC hall.1, exec_invariant hkeep (hbad s a s' hs hC hs') ht⟩

end Run
