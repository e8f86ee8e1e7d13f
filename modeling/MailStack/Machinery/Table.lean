import Mathlib.Data.Int.Notation
import Mathlib.Data.List.Basic
import Mathlib.Order.Basic
import Mathlib.Tactic.Common

/-!
# Machinery/Table — a table keyed by `INTEGER PRIMARY KEY AUTOINCREMENT`

The rows in the order of their ids, and the largest id ever handed out.  A row is never inserted
under an id that was used before, deleted rows included: `get?_eq_none_of_seq_lt` says that an id
beyond `seq` has no row, and `seq` never decreases.

Every statement that changes a table is one of `insert`, `map` and `filter`; each has one lemma
about `get?`.
-/

/-- Rows sorted by id, with the sequence counter of `AUTOINCREMENT`. -/
structure Table (α : Type*) where
  rows : List (ℤ × α)
  seq : ℤ
  sorted : rows.Pairwise fun r r' => r.1 < r'.1
  le_seq : ∀ r ∈ rows, r.1 ≤ seq

namespace Table

variable {α : Type*} {t : Table α} {i : ℤ} {a : α}

@[ext] theorem ext {t t' : Table α} (hrows : t.rows = t'.rows) (hseq : t.seq = t'.seq) :
    t = t' := by
  cases t
  cases t'
  cases hrows
  cases hseq
  rfl

/-- The table of a fresh database. -/
def empty : Table α := ⟨[], 0, List.Pairwise.nil, by simp⟩

/-- `SELECT … WHERE id = ?`. -/
def get? (t : Table α) (i : ℤ) : Option α := (t.rows.find? (·.1 = i)).map (·.2)

/-- `INSERT`: the row goes under the next id. -/
def insert (t : Table α) (a : α) : Table α where
  rows := t.rows ++ [(t.seq + 1, a)]
  seq := t.seq + 1
  sorted := by
    refine List.pairwise_append.mpr ⟨t.sorted, List.pairwise_singleton _ _, ?_⟩
    intro r hr r' hr'
    obtain rfl := List.mem_singleton.mp hr'
    exact Int.lt_add_one_iff.mpr (t.le_seq r hr)
  le_seq := by
    intro r hr
    rcases List.mem_append.mp hr with hr | hr
    · exact Int.le_of_lt (Int.lt_add_one_iff.mpr (t.le_seq r hr))
    · obtain rfl := List.mem_singleton.mp hr
      exact Int.le_refl _

/-- `UPDATE`, of every row. -/
def map (t : Table α) (f : ℤ → α → α) : Table α where
  rows := t.rows.map fun r => (r.1, f r.1 r.2)
  seq := t.seq
  sorted := List.pairwise_map.mpr t.sorted
  le_seq := by
    intro r hr
    obtain ⟨r₀, hr₀, rfl⟩ := List.mem_map.mp hr
    exact t.le_seq r₀ hr₀

/-- `DELETE`: the rows that satisfy `p` stay. -/
def filter (t : Table α) (p : ℤ → α → Bool) : Table α where
  rows := t.rows.filter fun r => p r.1 r.2
  seq := t.seq
  sorted := t.sorted.filter _
  le_seq r hr := t.le_seq r (List.mem_filter.mp hr).1

/-- `UPDATE … WHERE id = ?`. -/
def modify (t : Table α) (i : ℤ) (f : α → α) : Table α := t.map fun j a => if j = i then f a else a

/-- `DELETE … WHERE id = ?`. -/
def erase (t : Table α) (i : ℤ) : Table α := t.filter fun j _ => j ≠ i

@[simp] theorem seq_insert : (t.insert a).seq = t.seq + 1 := rfl

@[simp] theorem seq_map (f : ℤ → α → α) : (t.map f).seq = t.seq := rfl

@[simp] theorem seq_filter (p : ℤ → α → Bool) : (t.filter p).seq = t.seq := rfl

@[simp] theorem seq_modify (j : ℤ) (f : α → α) : (t.modify j f).seq = t.seq := rfl

@[simp] theorem seq_erase (j : ℤ) : (t.erase j).seq = t.seq := rfl

/-! ## Lookup -/

/-- **A row is what lookup finds under its id.** -/
theorem mem_rows_iff : (i, a) ∈ t.rows ↔ t.get? i = some a := by
  have key : ∀ rows : List (ℤ × α), rows.Pairwise (fun r r' => r.1 < r'.1) →
      ((i, a) ∈ rows ↔ (rows.find? (·.1 = i)).map (·.2) = some a) := by
    intro rows h
    induction rows with
    | nil => simp
    | cons r rows ih =>
      obtain ⟨hr, hrows⟩ := List.pairwise_cons.mp h
      by_cases hi : r.1 = i
      · have hnot : (i, a) ∉ rows := fun hmem => absurd (hr _ hmem) (by simp [hi])
        rw [List.find?_cons_of_pos (by simpa using hi), List.mem_cons, or_iff_left hnot]
        simp [Prod.ext_iff, hi, eq_comm]
      · have hne : (i, a) ≠ r := fun h => hi (by rw [← h])
        rw [List.find?_cons_of_neg (by simpa using hi), List.mem_cons, or_iff_right hne, ih hrows]
  exact key t.rows t.sorted

/-- No row has an id that was not given out. -/
theorem get?_eq_none_of_seq_lt (h : t.seq < i) : t.get? i = none := by
  rw [Option.eq_none_iff_forall_not_mem]
  intro a ha
  have := t.le_seq _ (mem_rows_iff.mpr ha)
  simp only at this
  omega

/-- A row's id was given out. -/
theorem le_seq_of_get? (h : t.get? i = some a) : i ≤ t.seq := t.le_seq _ (mem_rows_iff.mpr h)

@[simp] theorem get?_empty : (empty : Table α).get? i = none := rfl

@[simp] theorem get?_insert :
    (t.insert a).get? i = if i = t.seq + 1 then some a else t.get? i := by
  rw [insert, get?, List.find?_append]
  split_ifs with hi
  · subst hi
    have hnone := get?_eq_none_of_seq_lt (t := t) (Int.lt_succ t.seq)
    rw [get?, Option.map_eq_none_iff] at hnone
    simp [hnone]
  · rw [get?]
    cases t.rows.find? (·.1 = i) with
    | some r => rfl
    | none => simp [Ne.symm hi]

/-- An insert removes no row. -/
theorem isSome_get?_insert (h : (t.get? i).isSome) : ((t.insert a).get? i).isSome := by
  rw [get?_insert]
  split_ifs
  · rfl
  · exact h

@[simp] theorem get?_map (f : ℤ → α → α) : (t.map f).get? i = (t.get? i).map (f i) := by
  ext b
  rw [← mem_rows_iff, Option.map_eq_some_iff]
  simp only [map, List.mem_map, Prod.mk.injEq, Prod.exists, ← mem_rows_iff]
  constructor
  · rintro ⟨i', a, hmem, rfl, rfl⟩
    exact ⟨a, hmem, rfl⟩
  · rintro ⟨a, hmem, rfl⟩
    exact ⟨i, a, hmem, rfl, rfl⟩

@[simp] theorem get?_filter (p : ℤ → α → Bool) :
    (t.filter p).get? i = (t.get? i).filter (p i) := by
  ext b
  rw [← mem_rows_iff, Option.filter_eq_some_iff]
  simp only [filter, List.mem_filter, ← mem_rows_iff]

@[simp] theorem get?_modify (j : ℤ) (f : α → α) :
    (t.modify j f).get? i = if i = j then (t.get? i).map f else t.get? i := by
  rw [modify, get?_map]
  split_ifs with h
  · rfl
  · exact Option.map_id'

/-- A search that an update does not bear on finds the same row. -/
theorem find?_modify {p : ℤ × α → Bool} {f : α → α} (h : ∀ i a, p (i, f a) = p (i, a)) (j : ℤ) :
    (t.modify j f).rows.find? p =
      (t.rows.find? p).map fun r => (r.1, if r.1 = j then f r.2 else r.2) := by
  rw [modify, map, List.find?_map]
  congr 2
  ext r
  rw [Function.comp_apply]
  split_ifs with hr
  · exact h r.1 r.2
  · rfl

/-- An update removes no row. -/
@[simp] theorem isSome_get?_modify (j : ℤ) (f : α → α) :
    ((t.modify j f).get? i).isSome = (t.get? i).isSome := by
  rw [get?_modify]
  split_ifs
  · exact Option.isSome_map
  · rfl

@[simp] theorem get?_erase (j : ℤ) :
    (t.erase j).get? i = if i = j then none else t.get? i := by
  rw [erase, get?_filter]
  split_ifs with h
  · simp [h]
  · cases t.get? i with
    | none => rfl
    | some a => simp [h]

end Table
