import Mathlib.Data.List.Sort
import Mathlib.Data.List.TakeWhile
import Mathlib.Order.Defs.LinearOrder

/-!
# Machinery/Rank — where an element stands in a list sorted by a key

In a list in which a key strictly increases, an element stands behind exactly those with a smaller
key: its index is their number, its **rank**.
-/

namespace Rank

variable {α κ : Type*} [LinearOrder κ] {key : α → κ} {l : List α} {a : α}

/-- The number of elements with a smaller key. -/
def rank (key : α → κ) (l : List α) (a : α) : ℕ := l.countP fun b => key b < key a

theorem rank_perm {l' : List α} (h : l.Perm l') : rank key l a = rank key l' a := h.countP_eq _

theorem rank_map {β : Type*} (g : β → α) (l : List β) :
    rank key (l.map g) a = l.countP fun b => key (g b) < key a := by
  rw [rank, List.countP_map]
  rfl

/-- **An element stands at its rank.** -/
theorem getElem?_rank (h : l.Pairwise fun b c => key b < key c) (ha : a ∈ l) :
    l[rank key l a]? = some a := by
  induction l with
  | nil => exact absurd ha List.not_mem_nil
  | cons b l ih =>
    obtain ⟨hb, hl⟩ := List.pairwise_cons.mp h
    rcases List.mem_cons.mp ha with rfl | ha
    · have hnone : ∀ c ∈ l, ¬ key c < key a := fun c hc => (hb c hc).not_gt
      have hzero : rank key (a :: l) a = 0 := by
        rw [rank, List.countP_eq_zero]
        intro c hc
        rcases List.mem_cons.mp hc with rfl | hc
        · simp
        · simpa using hnone c hc
      rw [hzero]
      rfl
    · have hsucc : rank key (b :: l) a = rank key l a + 1 := by
        rw [rank, List.countP_cons_of_pos (by simpa using hb a ha)]
        rfl
      rw [hsucc, List.getElem?_cons_succ]
      exact ih hl ha

/-- The first element with the key of the one at `i` is the one at `i`. -/
theorem findIdx?_of_getElem? [DecidableEq κ] (h : l.Pairwise fun b c => key b < key c) {i : ℕ}
    (hi : l[i]? = some a) : l.findIdx? (fun b => key b = key a) = some i := by
  induction l generalizing i with
  | nil => exact absurd hi (by simp)
  | cons b l ih =>
    obtain ⟨hb, hl⟩ := List.pairwise_cons.mp h
    cases i with
    | zero =>
      obtain rfl : b = a := by simpa using hi
      simp [List.findIdx?_cons]
    | succ i =>
      have hia : l[i]? = some a := by simpa using hi
      have hne : key b ≠ key a := (hb a (List.mem_of_getElem? hia)).ne
      rw [List.findIdx?_cons, if_neg (by simpa using hne), ih hl hia]
      rfl

/-- **Among the first `n` elements it is found at its rank, or not at all.** -/
theorem findIdx?_take [DecidableEq κ] (h : l.Pairwise fun b c => key b < key c) (ha : a ∈ l)
    (n : ℕ) : (l.take n).findIdx? (fun b => key b = key a) =
      if rank key l a < n then some (rank key l a) else none := by
  have hrank := getElem?_rank h ha
  split_ifs with hn
  · exact findIdx?_of_getElem? (h.sublist (List.take_sublist n l))
      (by rw [List.getElem?_take_of_lt hn, hrank])
  · rw [List.findIdx?_eq_none_iff]
    intro b hb
    obtain ⟨i, hlt, hi⟩ := List.mem_iff_getElem.mp hb
    have hib : l[i]? = some b := by
      rw [List.length_take] at hlt
      rw [List.getElem_take] at hi
      rw [List.getElem?_eq_getElem (by omega), hi]
    simp only [decide_eq_false_iff_not]
    intro hkey
    have hat := findIdx?_of_getElem? h hib
    rw [hkey, findIdx?_of_getElem? h hrank] at hat
    rw [List.length_take] at hlt
    have := Option.some.inj hat
    omega

/-- Sorted by a key that tells the elements apart, the key strictly increases. -/
theorem pairwise_insertionSort (h : l.Pairwise fun b c => key b ≠ key c) :
    (l.insertionSort fun b c => key b ≤ key c).Pairwise fun b c => key b < key c := by
  have hsorted : (l.insertionSort fun b c => key b ≤ key c).Pairwise fun b c => key b ≤ key c := by
    have : Std.Total fun b c : α => key b ≤ key c := ⟨fun b c => le_total _ _⟩
    have : IsTrans α fun b c => key b ≤ key c := ⟨fun b c d h h' => le_trans h h'⟩
    exact List.pairwise_insertionSort _ l
  have hne : (l.insertionSort fun b c => key b ≤ key c).Pairwise fun b c => key b ≠ key c :=
    h.perm (List.perm_insertionSort _ l).symm fun hbc => hbc.symm
  exact hsorted.imp₂ (fun b c hle hbc => lt_of_le_of_ne hle hbc) hne

/-! ## A part of a sorted list -/

section Filter

variable (r : α → α → Prop) [DecidableRel r] (p : α → Bool)

/-- An element that is kept is inserted among those that are kept. -/
theorem filter_orderedInsert_of_pos [IsTrans α r] (a : α) (hp : p a = true) (l : List α)
    (hl : l.Pairwise r) :
    (l.orderedInsert r a).filter p = (l.filter p).orderedInsert r a := by
  induction l with
  | nil => simp [hp]
  | cons b l ih =>
    obtain ⟨hb, hl'⟩ := List.pairwise_cons.mp hl
    by_cases hab : r a b
    · have hfirst : ∀ c ∈ (b :: l).filter p, r a c := by
        intro c hc
        rcases List.mem_cons.mp (List.mem_filter.mp hc).1 with rfl | hc
        · exact hab
        · exact IsTrans.trans a b c hab (hb c hc)
      rw [List.orderedInsert_cons, if_pos hab, List.filter_cons_of_pos hp]
      cases hf : (b :: l).filter p with
      | nil => rfl
      | cons c l' =>
        rw [hf] at hfirst
        rw [List.orderedInsert_cons, if_pos (hfirst c List.mem_cons_self)]
    · rw [List.orderedInsert_cons, if_neg hab]
      cases hpb : p b with
      | true =>
        rw [List.filter_cons_of_pos hpb, List.filter_cons_of_pos hpb, List.orderedInsert_cons,
          if_neg hab, ih hl']
      | false =>
        have hneg : ¬ p b = true := by simp [hpb]
        rw [List.filter_cons_of_neg hneg, List.filter_cons_of_neg hneg, ih hl']

theorem filter_orderedInsert_of_neg (a : α) (hp : p a = false) (l : List α) :
    (l.orderedInsert r a).filter p = l.filter p := by
  induction l with
  | nil => simp [hp]
  | cons b l ih =>
    rw [List.orderedInsert_cons]
    split_ifs
    · simp [hp]
    · rw [List.filter_cons, List.filter_cons, ih]

/-- **Sorting is stable**: what is kept of a sorted list is what is kept, sorted. -/
theorem filter_insertionSort [Std.Total r] [IsTrans α r] (l : List α) :
    (l.insertionSort r).filter p = (l.filter p).insertionSort r := by
  induction l with
  | nil => rfl
  | cons a l ih =>
    rw [List.insertionSort_cons]
    cases hp : p a with
    | true =>
      rw [filter_orderedInsert_of_pos r p a hp _ (List.pairwise_insertionSort r l), ih,
        List.filter_cons_of_pos hp, List.insertionSort_cons]
    | false =>
      rw [filter_orderedInsert_of_neg r p a hp, ih, List.filter_cons_of_neg (by simp [hp])]

end Filter

end Rank
