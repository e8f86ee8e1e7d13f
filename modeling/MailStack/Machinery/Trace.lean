import Mathlib.Data.List.Basic
import Mathlib.Tactic.Common

/-!
# Machinery/Trace — what comes before and after what in a trace

`Preceded p q l` says that every `p` of the trace `l` has a `q` of its own before it, `Followed P b l`
that behind every `P` comes `b`, directly.  A trace only grows at its end: `preceded_concat` and
`Followed.append` are the rules for that.
-/

namespace Trace

variable {α : Type*} {p q : α → Bool} {P : α → Prop} {a b : α} {l l' : List α}

theorem countP_eq_add_toNat (p : α → Bool) (a : α) (l : List α) :
    (a :: l).countP p = l.countP p + (p a).toNat := by
  rw [List.countP_cons]
  cases p a <;> rfl

theorem countP_concat (p : α → Bool) (l : List α) (a : α) :
    (l ++ [a]).countP p = l.countP p + (p a).toNat := by
  rw [List.countP_append, countP_eq_add_toNat, List.countP_nil, Nat.zero_add]

/-! ## Before -/

/-- At no point of the trace have there been more `p` than `q`. -/
def Preceded (p q : α → Bool) (l : List α) : Prop :=
  ∀ before, before <+: l → before.countP p ≤ before.countP q

theorem preceded_nil : Preceded p q [] := by
  intro before hbefore
  rw [List.prefix_nil.mp hbefore]
  exact Nat.le_refl 0

theorem Preceded.countP_le (h : Preceded p q l) : l.countP p ≤ l.countP q :=
  h l (List.prefix_refl l)

theorem preceded_concat : Preceded p q (l ++ [a]) ↔
    Preceded p q l ∧ (l ++ [a]).countP p ≤ (l ++ [a]).countP q := by
  constructor
  · exact fun h => ⟨fun before hbefore => h before (hbefore.trans (List.prefix_append l [a])),
      h.countP_le⟩
  · rintro ⟨h, hlast⟩ before hbefore
    rcases List.prefix_concat_iff.mp hbefore with rfl | hbefore
    · exact hlast
    · exact h before hbefore

/-- What is no `p` may always come next. -/
theorem Preceded.concat (h : Preceded p q l) (ha : p a = false) : Preceded p q (l ++ [a]) := by
  refine preceded_concat.mpr ⟨h, ?_⟩
  rw [countP_concat, countP_concat, ha]
  exact Nat.le_add_right_of_le h.countP_le

/-! ## Behind -/

/-- Directly behind every `P` of the trace comes `b`. -/
def Followed (P : α → Prop) (b : α) : List α → Prop
  | [] => True
  | a :: l => (P a → l.head? = some b) ∧ Followed P b l

theorem Followed.append : ∀ {l : List α}, Followed P b l → Followed P b l' → Followed P b (l ++ l')
  | [], _, h' => h'
  | a :: l, h, h' => by
      refine ⟨fun ha => ?_, h.2.append h'⟩
      have hhead : (l ++ l').head? = some b := by rw [List.head?_append, h.1 ha, Option.some_or]
      exact hhead

theorem Followed.concat (h : Followed P b l) (ha : ¬ P a) : Followed P b (l ++ [a]) :=
  h.append ⟨fun hP => absurd hP ha, trivial⟩

theorem Followed.head? {after : List α} (ha : P a) :
    ∀ {before : List α}, Followed P b (before ++ a :: after) → after.head? = some b
  | [], h => h.1 ha
  | _ :: _, h => Followed.head? ha h.2

end Trace
