import Mathlib.Data.List.Basic
import Mathlib.Data.List.Infix
import Mathlib.Tactic.Common

/-!
# Machinery/Search — finding a word in a text

`cutSub d s` is `find(d)` and the texts on both sides of the first occurrence.  What makes the first
occurrence predictable is a symbol that the word does not contain: an occurrence lies on one side of
it (`infix_append_cons`), so a word that follows such a symbol, and is not in what stands before, is
found there (`cutSub_append_cons`).
-/

namespace Search

variable {α : Type*} {d a b s : List α} {x : α}

/-- **An occurrence lies on one side of a symbol that the word does not contain.** -/
theorem infix_append_cons (hx : x ∉ d) : d <:+: a ++ x :: b ↔ d <:+: a ∨ d <:+: b := by
  constructor
  · rintro ⟨p, q, h⟩
    rw [List.append_eq_append_iff] at h
    rcases h with ⟨c, rfl, -⟩ | ⟨c, hpd, hxb⟩
    · exact .inl ⟨p, c, rfl⟩
    · rw [List.append_eq_append_iff] at hpd
      rcases hpd with ⟨e, rfl, hd⟩ | ⟨e, rfl, rfl⟩
      · cases c with
        | nil =>
          rw [List.append_nil] at hd
          exact .inl ⟨p, [], by rw [hd, List.append_nil]⟩
        | cons y c =>
          obtain rfl := (List.cons.inj hxb).1
          exact absurd (hd ▸ List.mem_append_right e List.mem_cons_self) hx
      · cases e with
        | nil =>
          cases d with
          | nil => exact .inl List.nil_infix
          | cons y d =>
            obtain rfl := (List.cons.inj hxb).1
            exact absurd List.mem_cons_self hx
        | cons y e =>
          obtain ⟨-, rfl⟩ := List.cons.inj hxb
          exact .inr ⟨e, q, by simp⟩
  · rintro (h | h)
    · exact h.trans (List.infix_append [] a _)
    · exact h.trans ⟨a ++ [x], [], by simp⟩

/-- What has no symbol of the word in common with it can be left out at the ends. -/
theorem infix_append_disjoint (hd : d ≠ []) (ha : ∀ x ∈ a, x ∉ d) (hb : ∀ x ∈ b, x ∉ d) :
    d <:+: a ++ s ++ b ↔ d <:+: s := by
  have hout : ∀ {t : List α}, (∀ x ∈ t, x ∉ d) → ¬ d <:+: t := by
    intro t ht h
    obtain ⟨x, hx⟩ := List.exists_mem_of_ne_nil d hd
    exact ht x (h.subset hx) hx
  have hright : d <:+: s ++ b ↔ d <:+: s := by
    cases b with
    | nil => rw [List.append_nil]
    | cons x b =>
      obtain ⟨hx, hb⟩ := List.forall_mem_cons.mp hb
      rw [infix_append_cons hx, or_iff_left (hout hb)]
  rw [List.append_assoc, ← hright]
  induction a with
  | nil => rfl
  | cons x a ih =>
    obtain ⟨hx, ha⟩ := List.forall_mem_cons.mp ha
    have hcons := infix_append_cons (d := d) (a := []) (b := a ++ (s ++ b)) hx
    rw [List.cons_append, ← List.nil_append (x :: _), hcons, List.infix_nil, or_iff_right hd]
    exact ih ha

/-- So does one at the very start. -/
theorem prefix_of_prefix_append_cons (hx : x ∉ d) (h : d <+: a ++ x :: b) : d <+: a := by
  obtain ⟨q, hq⟩ := h
  rw [List.append_eq_append_iff] at hq
  rcases hq with ⟨c, rfl, -⟩ | ⟨c, rfl, hc⟩
  · exact List.prefix_append d c
  · cases c with
    | nil => rw [List.append_nil]
    | cons y c =>
      obtain rfl := (List.cons.inj hc).1
      exact absurd (List.mem_append_right a List.mem_cons_self) hx

/-- An occurrence is aligned at a symbol that comes last at the same place of both. -/
theorem prefix_of_infix_marker {c : List α} (hb : x ∉ b)
    (h : a ++ x :: c <:+: a ++ x :: b) : c <+: b := by
  obtain ⟨p, q, h⟩ := h
  rw [← List.append_assoc, List.append_assoc (p ++ a), List.append_eq_append_iff] at h
  rcases h with ⟨e, he, hxb⟩ | ⟨e, he, hxb⟩
  · have hlen := congrArg List.length he
    simp only [List.length_append] at hlen
    obtain rfl : e = [] := List.eq_nil_of_length_eq_zero (by omega)
    exact ⟨q, (List.cons.inj hxb).2⟩
  · cases e with
    | nil => exact ⟨q, (List.cons.inj hxb).2.symm⟩
    | cons y e =>
      obtain ⟨rfl, rfl⟩ := List.cons.inj hxb
      exact absurd (by simp) hb

/-- A word with a symbol that a text does not contain does not occur in it. -/
theorem not_infix_of_notMem (hx : x ∈ d) (hs : x ∉ s) : ¬ d <:+: s := fun h => hs (h.subset hx)

variable [DecidableEq α]

/-- `find(d)`, then the text before it and the text after it; `none` where `d` does not occur. -/
def cutSub (d : List α) : List α → Option (List α × List α)
  | [] => if d = [] then some ([], []) else none
  | x :: s =>
    if d.isPrefixOf (x :: s) then some ([], (x :: s).drop d.length)
    else (cutSub d s).map fun p => (x :: p.1, p.2)

/-- `find(d) != npos`. -/
def contains (d s : List α) : Bool := (cutSub d s).isSome

theorem cutSub_of_prefix (d b : List α) : cutSub d (d ++ b) = some ([], b) := by
  cases hs : d ++ b with
  | nil =>
    obtain ⟨rfl, rfl⟩ := List.append_eq_nil_iff.mp hs
    rfl
  | cons x s =>
    have hprefix : d.isPrefixOf (x :: s) = true := by
      rw [List.isPrefixOf_iff_prefix, ← hs]
      exact List.prefix_append d b
    rw [cutSub, if_pos hprefix, ← hs, List.drop_left]

/-- A symbol with which the word does not start is passed over. -/
theorem cutSub_cons (h : ¬ d <+: x :: s) :
    cutSub d (x :: s) = (cutSub d s).map fun p => (x :: p.1, p.2) := by
  rw [cutSub, if_neg (fun hp => h (List.isPrefixOf_iff_prefix.mp hp))]

/-- So is a text without the first symbol of the word. -/
theorem cutSub_append (hd : d.head? = some x) (s : List α) :
    ∀ {a : List α}, x ∉ a → cutSub d (a ++ s) = (cutSub d s).map fun p => (a ++ p.1, p.2)
  | [], _ => by simp
  | y :: a, hx => by
      have hstart : ¬ d <+: y :: (a ++ s) := by
        intro h
        obtain ⟨d', rfl⟩ := List.head?_eq_some_iff.mp hd
        exact hx (by simp [(List.cons_prefix_cons.mp h).1])
      rw [List.cons_append, cutSub_cons hstart,
        cutSub_append hd s (List.not_mem_of_not_mem_cons hx), Option.map_map]
      rfl

/-- **The first occurrence of a word with a symbol that nothing in front of it contains.** -/
theorem cutSub_marked {u v : List α} (hd : d = u ++ x :: v) (hu : x ∉ u) (s : List α) :
    ∀ {a : List α}, x ∉ a → cutSub d (a ++ (d ++ s)) = some (a, s)
  | [], _ => cutSub_of_prefix d s
  | y :: a, ha => by
      have hstart : ¬ d <+: y :: (a ++ (d ++ s)) := by
        intro h
        have hstarts : u ++ [x] <+: d := ⟨v, by rw [hd, List.append_assoc]; rfl⟩
        have hfront : (y :: a) ++ u <+: y :: (a ++ (d ++ s)) := ⟨x :: v ++ s, by rw [hd]; simp⟩
        have hmark : u ++ [x] <+: (y :: a) ++ u := by
          refine List.prefix_of_prefix_length_le (hstarts.trans h) hfront ?_
          simp only [List.length_append, List.length_cons, List.length_nil]
          omega
        have hx := hmark.subset (List.mem_append_right u List.mem_cons_self)
        exact (List.mem_append.mp hx).elim ha hu
      rw [List.cons_append, cutSub_cons hstart,
        cutSub_marked hd hu s (List.not_mem_of_not_mem_cons ha)]
      rfl

theorem eq_of_cutSub : ∀ {s a b : List α}, cutSub d s = some (a, b) → s = a ++ d ++ b
  | [], a, b, h => by
      rw [cutSub] at h
      split_ifs at h with hd
      obtain ⟨rfl, rfl⟩ := Prod.mk.inj (Option.some.inj h)
      rw [hd]
      rfl
  | x :: s, a, b, h => by
      rw [cutSub] at h
      split_ifs at h with hd
      · obtain ⟨rfl, rfl⟩ := Prod.mk.inj (Option.some.inj h)
        obtain ⟨t, ht⟩ := List.isPrefixOf_iff_prefix.mp hd
        rw [← ht, List.drop_left]
        rfl
      · obtain ⟨⟨a', b'⟩, hcut, heq⟩ := Option.map_eq_some_iff.mp h
        obtain ⟨rfl, rfl⟩ := Prod.mk.inj heq
        rw [eq_of_cutSub hcut]
        rfl

/-- What stands before the first occurrence has none. -/
theorem notInfix_of_cutSub (hd : d ≠ []) :
    ∀ {s a b : List α}, cutSub d s = some (a, b) → ¬ d <:+: a
  | [], a, b, h => by
      rw [cutSub, if_neg hd] at h
      exact nomatch h
  | x :: s, a, b, h => by
      by_cases hstart : d <+: x :: s
      · rw [cutSub, if_pos (List.isPrefixOf_iff_prefix.mpr hstart)] at h
        obtain ⟨rfl, -⟩ := Prod.mk.inj (Option.some.inj h)
        rwa [List.infix_nil]
      · rw [cutSub_cons hstart, Option.map_eq_some_iff] at h
        obtain ⟨⟨a', b'⟩, hcut, heq⟩ := h
        obtain ⟨rfl, rfl⟩ := Prod.mk.inj heq
        intro hoccurs
        rcases List.infix_cons_iff.mp hoccurs with hfirst | hoccurs
        · refine hstart (hfirst.trans ?_)
          rw [eq_of_cutSub hcut]
          exact ⟨d ++ b', by simp⟩
        · exact notInfix_of_cutSub hd hcut hoccurs

theorem cutSub_eq_none_iff : ∀ {s : List α}, cutSub d s = none ↔ ¬ d <:+: s
  | [] => by
      rw [cutSub]
      split_ifs with hd <;> simp [hd]
  | x :: s => by
      by_cases hd : d <+: x :: s
      · rw [cutSub, if_pos (List.isPrefixOf_iff_prefix.mpr hd)]
        simpa using hd.isInfix
      · rw [cutSub_cons hd, Option.map_eq_none_iff, cutSub_eq_none_iff, List.infix_cons_iff]
        simp [hd]

/-- What is found is still found first when the text goes on. -/
theorem cutSub_append_right {t : List α} :
    ∀ {s a b : List α}, cutSub d s = some (a, b) → cutSub d (s ++ t) = some (a, b ++ t)
  | [], a, b, h => by
      rw [cutSub] at h
      split_ifs at h with hd
      obtain ⟨rfl, rfl⟩ := Prod.mk.inj (Option.some.inj h)
      rw [hd]
      exact cutSub_of_prefix [] t
  | x :: s, a, b, h => by
      have hlength := congrArg List.length (eq_of_cutSub h)
      simp only [List.length_append] at hlength
      by_cases hstart : d <+: x :: s
      · rw [cutSub, if_pos (List.isPrefixOf_iff_prefix.mpr hstart)] at h
        obtain ⟨rfl, rfl⟩ := Prod.mk.inj (Option.some.inj h)
        obtain ⟨rest, hrest⟩ := hstart
        rw [← hrest, List.append_assoc, cutSub_of_prefix, List.drop_left]
      · have hstart' : ¬ d <+: x :: (s ++ t) := fun hp => hstart
          (List.prefix_of_prefix_length_le hp (List.prefix_append (x :: s) t) (by omega))
        rw [cutSub_cons hstart, Option.map_eq_some_iff] at h
        obtain ⟨⟨a', b'⟩, hcut, heq⟩ := h
        obtain ⟨rfl, rfl⟩ := Prod.mk.inj heq
        rw [List.cons_append, cutSub_cons hstart', cutSub_append_right hcut]
        rfl

/-- What is found only when the text goes on ends in what is added. -/
theorem length_lt_of_cutSub_append {s t : List α} (hnone : cutSub d s = none)
    (h : cutSub d (s ++ t) = some (a, b)) : b.length < t.length := by
  by_contra hle
  have heq : s ++ t = (a ++ d) ++ b := eq_of_cutSub h
  obtain ⟨c, rfl⟩ : t <:+ b :=
    List.suffix_of_suffix_length_le (heq ▸ List.suffix_append s t) (List.suffix_append _ b) (by omega)
  have hs : s = a ++ d ++ c := List.append_cancel_right (heq.trans (List.append_assoc ..).symm)
  exact cutSub_eq_none_iff.mp hnone (hs ▸ ⟨a, c, rfl⟩)

theorem contains_iff : contains d s = true ↔ d <:+: s := by
  rw [contains, Option.isSome_iff_ne_none, ne_eq, cutSub_eq_none_iff, not_not]

/-- A symbol that the word does not contain is passed over, with a text in front of it in which the
word does not occur. -/
theorem cutSub_append_of_notMem (hx : x ∉ d) (s : List α) : ∀ {a : List α}, ¬ d <:+: a →
    cutSub d (a ++ x :: s) = (cutSub d s).map fun p => (a ++ x :: p.1, p.2)
  | [], ha => by
      have hd : ¬ d <+: x :: s := by
        intro h
        cases d with
        | nil => exact ha List.nil_infix
        | cons y d => exact hx (by simp [(List.cons_prefix_cons.mp h).1])
      rw [List.nil_append, cutSub_cons hd]
      rfl
  | y :: a, ha => by
      have hd : ¬ d <+: y :: (a ++ x :: s) := fun h =>
        ha (prefix_of_prefix_append_cons (a := y :: a) hx h).isInfix
      rw [List.cons_append, cutSub_cons hd,
        cutSub_append_of_notMem hx s fun h => ha (h.trans (List.suffix_cons y a).isInfix),
        Option.map_map]
      rfl

/-- **A word after a symbol that it does not contain is found there**, if it is not found before. -/
theorem cutSub_append_cons (hx : x ∉ d) (ha : ¬ d <:+: a) :
    cutSub d (a ++ x :: (d ++ b)) = some (a ++ [x], b) := by
  rw [cutSub_append_of_notMem hx _ ha, cutSub_of_prefix]
  rfl

/-! ## Positions -/

section Positions

variable {pos p : ℕ}

/-- `s.find(d, pos)`, for a word that is not empty. -/
def findFrom (d s : List α) (pos : ℕ) : Option ℕ :=
  (cutSub d (s.drop pos)).map fun p => pos + p.1.length

/-- `s.substr(pos, stop - pos)`. -/
def slice (s : List α) (pos stop : ℕ) : List α := (s.drop pos).take (stop - pos)

theorem findFrom_eq_none : findFrom d s pos = none ↔ cutSub d (s.drop pos) = none := by
  rw [findFrom, Option.map_eq_none_iff]

/-- **A word is found where the text is cut at it.** -/
theorem exists_cutSub_of_findFrom (h : findFrom d s pos = some p) :
    pos ≤ p ∧ cutSub d (s.drop pos) = some (slice s pos p, s.drop (p + d.length)) := by
  obtain ⟨⟨a, b⟩, hcut, rfl⟩ := Option.map_eq_some_iff.mp h
  have heq := eq_of_cutSub hcut
  have hslice : slice s pos (pos + a.length) = a := by
    rw [slice, Nat.add_sub_cancel_left, heq, List.append_assoc, List.take_left]
  have hdrop : s.drop (pos + a.length + d.length) = b := by
    rw [Nat.add_assoc, ← List.drop_drop, heq, ← List.length_append, List.drop_left]
  exact ⟨Nat.le_add_right .., by rw [hslice, hdrop, hcut]⟩

theorem drop_of_findFrom (h : findFrom d s pos = some p) : s.drop p = d ++ s.drop (p + d.length) := by
  obtain ⟨⟨a, b⟩, hcut, rfl⟩ := Option.map_eq_some_iff.mp h
  have heq := eq_of_cutSub hcut
  have hdrop : s.drop (pos + a.length) = d ++ b := by
    rw [← List.drop_drop, heq, List.append_assoc, List.drop_left]
  dsimp only
  rw [hdrop, ← List.drop_drop, hdrop, List.drop_left]

theorem findFrom_lt (hd : d ≠ []) (h : findFrom d s pos = some p) : p + d.length ≤ s.length := by
  obtain ⟨hle, hcut⟩ := exists_cutSub_of_findFrom h
  have heq := congrArg List.length (eq_of_cutSub hcut)
  have hpos := List.length_pos_of_ne_nil hd
  simp only [List.length_append, List.length_drop, slice, List.length_take] at heq
  omega

end Positions

end Search
