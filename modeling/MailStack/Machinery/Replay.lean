import Mathlib.Data.List.Induction
import Mathlib.Tactic.Common

/-!
# Machinery/Replay — removing elements of a list by number, one after the other

`replay l ks` removes from `l` the element numbered `k`, counting from 1, for each `k` of `ks` in
turn, and is `none` when a number is out of range.  Numbers shift with every removal; taken from
the highest down they do not, so that the numbers in the original list can be used: `replay_marked`.
-/

namespace Replay

variable {α : Type*}

/-- The list without its `k`-th element. -/
def remove (l : List α) (k : ℕ) : Option (List α) :=
  if 1 ≤ k ∧ k ≤ l.length then some (l.eraseIdx (k - 1)) else none

/-- The removals one after the other. -/
def replay : List α → List ℕ → Option (List α)
  | l, [] => some l
  | l, k :: ks => (remove l k).bind fun l' => replay l' ks

theorem remove_concat (l : List α) (a : α) : remove (l ++ [a]) (l.length + 1) = some l := by
  rw [remove, if_pos ⟨Nat.le_add_left 1 _, by simp⟩, Nat.add_sub_cancel,
    List.eraseIdx_append_of_length_le (Nat.le_refl _), Nat.sub_self, List.eraseIdx_zero,
    List.tail_cons, List.append_nil]

theorem remove_append {l l' : List α} {k : ℕ} (h : remove l k = some l') (m : List α) :
    remove (l ++ m) k = some (l' ++ m) := by
  rw [remove] at h
  split_ifs at h with hk
  obtain rfl := Option.some.inj h
  have hlen : k ≤ (l ++ m).length := Nat.le_trans hk.2 (by simp)
  rw [remove, if_pos ⟨hk.1, hlen⟩, List.eraseIdx_append_of_lt_length (by omega)]

/-- What stands behind the elements removed stays. -/
theorem replay_append {ks : List ℕ} {l l' : List α} (h : replay l ks = some l') (m : List α) :
    replay (l ++ m) ks = some (l' ++ m) := by
  induction ks generalizing l with
  | nil =>
    obtain rfl := Option.some.inj h
    rfl
  | cons k ks ih =>
    obtain ⟨l₁, hremove, hrest⟩ := Option.bind_eq_some_iff.mp h
    rw [replay, remove_append hremove, Option.bind_some]
    exact ih hrest

/-- **From the highest number down**, the marked elements go, under their original numbers, and the
others are left in order. -/
theorem replay_marked (q : α × ℕ → Bool) (l : List α) :
    replay l (((l.zipIdx 1).filter q).reverse.map (·.2)) =
      some (((l.zipIdx 1).filter fun p => !q p).map (·.1)) := by
  induction l using List.reverseRecOn with
  | nil => rfl
  | append_singleton l a ih =>
    have hzip : (l ++ [a]).zipIdx 1 = l.zipIdx 1 ++ [(a, l.length + 1)] := by
      rw [List.zipIdx_append, Nat.add_comm]
      rfl
    rw [hzip, List.filter_append, List.filter_append]
    cases hq : q (a, l.length + 1) with
    | true =>
      have hmarked : [(a, l.length + 1)].filter q = [(a, l.length + 1)] := by simp [hq]
      have hleft : [(a, l.length + 1)].filter (fun p => !q p) = [] := by simp [hq]
      rw [hmarked, hleft, List.reverse_append, List.append_nil, List.reverse_singleton,
        List.singleton_append, List.map_cons, replay, remove_concat, Option.bind_some, ih]
    | false =>
      have hmarked : [(a, l.length + 1)].filter q = [] := by simp [hq]
      have hleft : [(a, l.length + 1)].filter (fun p => !q p) = [(a, l.length + 1)] := by simp [hq]
      rw [hmarked, hleft, List.append_nil, List.map_append]
      exact replay_append ih [a]

end Replay
