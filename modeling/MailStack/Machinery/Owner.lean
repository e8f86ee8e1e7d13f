import Mathlib.Data.List.Sort
import MailStack.Machinery.Table

/-!
# Machinery/Owner — tables whose rows belong to someone

`own` says to whom a row belongs.  An id that was handed out for a row of `u` stays `u`'s: its row
may go, but ids are not used again (`Owned.ages`).  Two tables `Agree` on the rows that satisfy `p`
when these are the same in both; a query that looks at such rows only answers the same on both
(`Agree.get?_eq`, `Agree.filter_rows`).

Each of `insert`, `map` and `filter` has one lemma for either notion.
-/

namespace Table

variable {α γ : Type*} {own : α → γ} {p : α → Prop} {t t' t'' : Table α} {i : ℤ} {u : γ}

/-- What becomes of a table: no id is used again, and a row keeps its owner. -/
structure Ages (own : α → γ) (t t' : Table α) : Prop where
  seq : t.seq ≤ t'.seq
  row : ∀ i a', t'.get? i = some a' → i ≤ t.seq → ∃ a, t.get? i = some a ∧ own a' = own a

/-- The id was handed out, and its row, if it is still there, belongs to `u`. -/
structure Owned (own : α → γ) (u : γ) (t : Table α) (i : ℤ) : Prop where
  le_seq : i ≤ t.seq
  owner : ∀ a, t.get? i = some a → own a = u

/-- The rows that satisfy `p` are the same in both tables. -/
def Agree (p : α → Prop) (t t' : Table α) : Prop :=
  ∀ i a, p a → (t.get? i = some a ↔ t'.get? i = some a)

theorem Owned.of_get? {a : α} (h : t.get? i = some a) (ha : own a = u) : Owned own u t i := by
  refine ⟨le_seq_of_get? h, fun a' ha' => ?_⟩
  obtain rfl := Option.some.inj (h.symm.trans ha')
  exact ha

/-! ## Ages -/

namespace Ages

theorem refl (t : Table α) : Ages own t t := ⟨Int.le_refl _, fun _ a h _ => ⟨a, h, rfl⟩⟩

theorem trans (h : Ages own t t') (h' : Ages own t' t'') : Ages own t t'' := by
  refine ⟨Int.le_trans h.seq h'.seq, fun i a'' ha'' hi => ?_⟩
  obtain ⟨a', ha', hown'⟩ := h'.row i a'' ha'' (Int.le_trans hi h.seq)
  obtain ⟨a, ha, hown⟩ := h.row i a' ha' hi
  exact ⟨a, ha, hown'.trans hown⟩

theorem insert (a : α) : Ages own t (t.insert a) := by
  refine ⟨Int.le_of_lt (Int.lt_succ _), fun i a' ha' hi => ?_⟩
  rw [get?_insert, if_neg (by omega)] at ha'
  exact ⟨a', ha', rfl⟩

theorem map {f : ℤ → α → α} (hf : ∀ i a, t.get? i = some a → own (f i a) = own a) :
    Ages own t (t.map f) := by
  refine ⟨Int.le_refl _, fun i a' ha' _ => ?_⟩
  rw [get?_map] at ha'
  obtain ⟨a, ha, rfl⟩ := Option.map_eq_some_iff.mp ha'
  exact ⟨a, ha, hf i a ha⟩

theorem filter (q : ℤ → α → Bool) : Ages own t (t.filter q) := by
  refine ⟨Int.le_refl _, fun i a ha _ => ?_⟩
  rw [get?_filter] at ha
  exact ⟨a, (Option.filter_eq_some_iff.mp ha).1, rfl⟩

end Ages

/-- **What was handed out to `u` stays `u`'s.** -/
theorem Owned.ages (h : Owned own u t i) (ha : Ages own t t') : Owned own u t' i := by
  refine ⟨Int.le_trans h.le_seq ha.seq, fun a' ha' => ?_⟩
  obtain ⟨a, haa, hown⟩ := ha.row i a' ha' h.le_seq
  exact hown.trans (h.owner a haa)

/-! ## Agree -/

namespace Agree

theorem refl (t : Table α) : Agree p t t := fun _ _ _ => Iff.rfl

theorem trans (h : Agree p t t') (h' : Agree p t' t'') : Agree p t t'' :=
  fun i a ha => (h i a ha).trans (h' i a ha)

theorem insert {a : α} (ha : ¬ p a) : Agree p t (t.insert a) := by
  intro i b hb
  rw [get?_insert]
  split_ifs with hi
  · subst hi
    have hnone : t.get? (t.seq + 1) = none := get?_eq_none_of_seq_lt (Int.lt_succ _)
    refine ⟨fun h => absurd (hnone.symm.trans h) (by simp), fun h => ?_⟩
    obtain rfl := Option.some.inj h
    exact absurd hb ha
  · exact Iff.rfl

/-- An update agrees where it changes no row that satisfies `p`, and makes none. -/
theorem map {f : ℤ → α → α}
    (hf : ∀ i a, t.get? i = some a → f i a = a ∨ (¬ p a ∧ ¬ p (f i a))) : Agree p t (t.map f) := by
  intro i b hb
  rw [get?_map, Option.map_eq_some_iff]
  constructor
  · intro h
    exact ⟨b, h, (hf i b h).resolve_right fun hn => hn.1 hb⟩
  · rintro ⟨a, ha, rfl⟩
    rcases hf i a ha with heq | hn
    · rw [heq]
      exact ha
    · exact absurd hb hn.2

theorem filter {q : ℤ → α → Bool} (hq : ∀ i a, t.get? i = some a → p a → q i a = true) :
    Agree p t (t.filter q) := by
  intro i b hb
  rw [get?_filter, Option.filter_eq_some_iff]
  exact ⟨fun h => ⟨h, hq i b h hb⟩, fun h => h.1⟩

/-- Looking up an id under which either table has only rows that satisfy `p`. -/
theorem get?_eq (h : Agree p t t') (hp : ∀ a, t.get? i = some a → p a)
    (hp' : ∀ a, t'.get? i = some a → p a) : t.get? i = t'.get? i := by
  ext a
  constructor
  · intro ha
    exact (h i a (hp a ha)).mp ha
  · intro ha
    exact (h i a (hp' a ha)).mpr ha

/-- **A scan that only selects rows that satisfy `p` selects the same rows, in the same order.** -/
theorem filter_rows (h : Agree p t t') {q : ℤ × α → Bool}
    (hq : ∀ i a, t.get? i = some a → q (i, a) = true → p a)
    (hq' : ∀ i a, t'.get? i = some a → q (i, a) = true → p a) :
    t.rows.filter q = t'.rows.filter q := by
  have hirrefl : Std.Irrefl fun r r' : ℤ × α => r.1 < r'.1 := ⟨fun r => Int.lt_irrefl r.1⟩
  have hantisymm : Std.Antisymm fun r r' : ℤ × α => r.1 < r'.1 :=
    ⟨fun r r' hlt hlt' => absurd hlt' (Int.lt_asymm hlt)⟩
  refine (t.sorted.filter q).eq_of_mem_iff (t'.sorted.filter q) fun r => ?_
  rw [List.mem_filter, List.mem_filter, mem_rows_iff, mem_rows_iff]
  constructor
  · rintro ⟨hr, hqr⟩
    exact ⟨(h _ _ (hq _ _ hr hqr)).mp hr, hqr⟩
  · rintro ⟨hr, hqr⟩
    exact ⟨(h _ _ (hq' _ _ hr hqr)).mpr hr, hqr⟩

/-- So does a scan for the first such row. -/
theorem find?_rows (h : Agree p t t') {q : ℤ × α → Bool}
    (hq : ∀ i a, t.get? i = some a → q (i, a) = true → p a)
    (hq' : ∀ i a, t'.get? i = some a → q (i, a) = true → p a) :
    t.rows.find? q = t'.rows.find? q := by
  rw [← List.head?_filter, ← List.head?_filter, h.filter_rows hq hq']

end Agree

end Table
