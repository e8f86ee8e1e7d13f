import Mathlib.Data.List.Basic
import Mathlib.Data.List.Infix
import Mathlib.Tactic.Common

/-!
# Machinery/Brackets — how much of a text stands in brackets

`weight l r none s` is the total length of the pieces of `s` from a left bracket to the next right
bracket, both included and with no other bracket between them.  Pieces of disjoint parts of a text
are pieces of the text (`weight_add_le`), and a text adds no more to them than its length
(`weight_add_opened_le`).  Brackets may also be nested: in a `Balanced` text each has its match.
-/

namespace Brackets

variable {α : Type*} {l r : α} {o : Option ℕ} {s t a : List α}

/-- There is no bracket in the text. -/
def Plain (l r : α) (s : List α) : Prop := l ∉ s ∧ r ∉ s

instance [DecidableEq α] (l r : α) (s : List α) : Decidable (Plain l r s) :=
  inferInstanceAs (Decidable (_ ∧ _))

theorem plain_cons {c : α} : Plain l r (c :: s) ↔ (c ≠ l ∧ c ≠ r) ∧ Plain l r s := by
  simp only [Plain, List.mem_cons, not_or]
  constructor
  · rintro ⟨⟨hl, hls⟩, hr, hrs⟩
    exact ⟨⟨Ne.symm hl, Ne.symm hr⟩, hls, hrs⟩
  · rintro ⟨⟨hl, hr⟩, hls, hrs⟩
    exact ⟨⟨Ne.symm hl, hls⟩, Ne.symm hr, hrs⟩

theorem plain_append : Plain l r (s ++ t) ↔ Plain l r s ∧ Plain l r t := by
  simp only [Plain, List.mem_append, not_or]
  tauto

/-! ## Nested brackets -/

/-- Every bracket has its match. -/
inductive Balanced (l r : α) : List α → Prop
  | nil : Balanced l r []
  | plain {c : α} {s : List α} : c ≠ l → c ≠ r → Balanced l r s → Balanced l r (c :: s)
  | nested {s t : List α} : Balanced l r s → Balanced l r t → Balanced l r (l :: (s ++ r :: t))

theorem Plain.balanced : ∀ {s : List α}, Plain l r s → Balanced l r s
  | [], _ => .nil
  | _ :: _, h => .plain (plain_cons.mp h).1.1 (plain_cons.mp h).1.2 (plain_cons.mp h).2.balanced

/-! ## The pieces in brackets -/

variable [DecidableEq α]

/-- The total length of the pieces in brackets; a piece of this length is open. -/
def weight (l r : α) : Option ℕ → List α → ℕ
  | _, [] => 0
  | o, c :: s =>
    if c = l then weight l r (some 1) s
    else if c = r then o.elim 0 (· + 1) + weight l r none s
    else weight l r (o.map (· + 1)) s

/-- The piece that is open after the text. -/
def opened (l r : α) : Option ℕ → List α → Option ℕ
  | o, [] => o
  | o, c :: s =>
    if c = l then opened l r (some 1) s
    else if c = r then opened l r none s
    else opened l r (o.map (· + 1)) s

theorem weight_append : ∀ (o : Option ℕ) (s t : List α),
    weight l r o (s ++ t) = weight l r o s + weight l r (opened l r o s) t
  | _, [], t => (Nat.zero_add _).symm
  | o, c :: s, t => by
      rw [List.cons_append, weight, weight, opened]
      split_ifs
      · exact weight_append _ s t
      · rw [weight_append none s t, Nat.add_assoc]
      · exact weight_append _ s t

theorem opened_append : ∀ (o : Option ℕ) (s t : List α),
    opened l r o (s ++ t) = opened l r (opened l r o s) t
  | _, [], t => rfl
  | o, c :: s, t => by
      rw [List.cons_append, opened, opened]
      split_ifs
      · exact opened_append _ s t
      · exact opened_append _ s t
      · exact opened_append _ s t

/-- An open piece adds to the weight. -/
theorem weight_none_le : ∀ (o : Option ℕ) (s : List α), weight l r none s ≤ weight l r o s
  | _, [] => Nat.le_refl 0
  | o, c :: s => by
      rw [weight, weight]
      split_ifs
      · exact Nat.le_refl _
      · exact Nat.add_le_add_right (Nat.zero_le _) _
      · exact weight_none_le (o.map (· + 1)) s

/-- **The pieces of two parts are pieces of the whole.** -/
theorem weight_add_le (s t : List α) :
    weight l r none s + weight l r none t ≤ weight l r none (s ++ t) := by
  rw [weight_append]
  exact Nat.add_le_add_left (weight_none_le _ t) _

/-- A part in the middle. -/
theorem weight_le_of_append (s t u : List α) :
    weight l r none t ≤ weight l r none (s ++ t ++ u) :=
  calc weight l r none t ≤ weight l r none s + weight l r none t := Nat.le_add_left ..
    _ ≤ weight l r none (s ++ t) := weight_add_le s t
    _ ≤ weight l r none (s ++ t) + weight l r none u := Nat.le_add_right ..
    _ ≤ weight l r none (s ++ t ++ u) := weight_add_le _ u

/-- **No text adds more than its length.** -/
theorem weight_add_opened_le : ∀ (o : Option ℕ) (s : List α),
    weight l r o s + (opened l r o s).getD 0 ≤ o.getD 0 + s.length
  | o, [] => by simp [weight, opened]
  | o, c :: s => by
      rw [weight, opened, List.length_cons]
      split_ifs
      · have := weight_add_opened_le (some 1) s
        simp only [Option.getD_some] at this
        omega
      · have := weight_add_opened_le none s
        cases o with
        | none =>
          simp only [Option.getD_none, Option.elim_none] at this ⊢
          omega
        | some k =>
          simp only [Option.getD_none, Option.getD_some, Option.elim_some] at this ⊢
          omega
      · have := weight_add_opened_le (o.map (· + 1)) s
        cases o with
        | none =>
          simp only [Option.map_none, Option.getD_none] at this ⊢
          omega
        | some k =>
          simp only [Option.map_some, Option.getD_some] at this ⊢
          omega

/-! ## Text without brackets -/

theorem Plain.weight : ∀ {o : Option ℕ} {s : List α}, Plain l r s → Brackets.weight l r o s = 0
  | _, [], _ => rfl
  | o, c :: s, h => by
      obtain ⟨⟨hl, hr⟩, hs⟩ := plain_cons.mp h
      rw [Brackets.weight, if_neg hl, if_neg hr]
      exact hs.weight

theorem Plain.opened : ∀ {o : Option ℕ} {s : List α}, Plain l r s →
    Brackets.opened l r o s = o.map (· + s.length)
  | o, [], _ => by cases o <;> rfl
  | o, c :: s, h => by
      obtain ⟨⟨hl, hr⟩, hs⟩ := plain_cons.mp h
      rw [Brackets.opened, if_neg hl, if_neg hr, hs.opened, Option.map_map]
      refine congrArg (Option.map · o) (funext fun k => ?_)
      simp only [Function.comp_apply, List.length_cons]
      omega

/-- Text without brackets in front adds nothing where no piece is open. -/
theorem Plain.weight_append (h : Plain l r s) (t : List α) :
    Brackets.weight l r none (s ++ t) = Brackets.weight l r none t := by
  rw [Brackets.weight_append, h.weight, h.opened, Nat.zero_add]
  rfl

/-- **A text in brackets.** -/
theorem weight_bracketed (hne : l ≠ r) (ha : Plain l r a) :
    weight l r none (l :: a ++ [r]) = a.length + 2 := by
  rw [List.cons_append, weight, if_pos rfl, weight_append, ha.weight, ha.opened, weight,
    if_neg hne.symm, if_pos rfl, weight]
  simp only [Option.map_some, Option.elim_some]
  omega

/-- Up to a right bracket a text adds no more than its length. -/
theorem weight_append_cons_le (hne : l ≠ r) (o : Option ℕ) (s t : List α) :
    weight l r o (s ++ r :: t) ≤ o.getD 0 + s.length + 1 + weight l r none t := by
  have hsum := weight_add_opened_le (l := l) (r := r) o (s ++ [r])
  have hclosed : opened l r o (s ++ [r]) = none := by
    rw [opened_append, opened, if_neg hne.symm, if_pos rfl, opened]
  rw [hclosed, List.length_append, List.length_singleton] at hsum
  rw [← List.singleton_append, ← List.append_assoc, weight_append, hclosed]
  omega

/-- A left bracket behind text without brackets. -/
theorem Plain.weight_append_cons (h : Plain l r s) (t : List α) :
    Brackets.weight l r o (s ++ l :: t) = Brackets.weight l r (some 1) t := by
  rw [Brackets.weight_append, h.weight, Nat.zero_add, Brackets.weight, if_pos rfl]

end Brackets
