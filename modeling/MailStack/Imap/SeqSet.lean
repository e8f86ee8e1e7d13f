import Mathlib.Algebra.Ring.Nat
import MailStack.Imap.Utils

/-!
# Imap/SeqSet — the meaning of a sequence set, and what `ParseSequenceSet` makes of its text

A sequence set is a list of numbers and ranges, and `*` in it stands for the largest number there
is.  `parseSequenceSet` puts `maxValue` in its place, and each number of each part into a vector.  The
first part stops it that has a number too large for `std::stoll`, or more numbers than there is room
for, or a range up to `INT64_MAX` (`parseSequenceSet_text`); a set without such a part is read as it is
meant.  Where the numbers and `maxValue` are at most `2 ^ 62`, only the room matters
(`parseSequenceSet_denotes_iff`).
-/

open Bytes

namespace MailStack.Imap

/-! ## Sequence sets -/

/-- The text of a number. -/
structure Digits where
  text : Bytes
  ne_nil : text ≠ []
  digits : ∀ c ∈ text, isDigit c = true

/-- A number of a sequence set. -/
inductive SeqNum
  | num (d : Digits)
  | star

/-- One part of a sequence set: a number, or two numbers with everything in between. -/
inductive SeqPart
  | single (n : SeqNum)
  | range (a b : SeqNum)

/-- A sequence set: its parts, of which there is at least one. -/
structure SeqSet where
  first : SeqPart
  rest : List SeqPart

namespace SeqNum

/-- The number, with `top` for `*`. -/
def value (top : ℤ) : SeqNum → ℤ
  | num d => digitsValue d.text
  | star => top

def text : SeqNum → Bytes
  | num d => d.text
  | star => lit "*"

/-- The number is beyond `INT64_MAX`. -/
def tooLarge : SeqNum → Bool
  | num d => int64Max < digitsValue d.text
  | star => false

end SeqNum

namespace SeqPart

/-- The numbers the part denotes, with `top` for `*`. -/
def denotes (top : ℤ) : SeqPart → ℤ → Bool
  | single a, n => n = a.value top
  | range a b, n => min (a.value top) (b.value top) ≤ n && n ≤ max (a.value top) (b.value top)

def text : SeqPart → Bytes
  | single a => a.text
  | range a b => a.text ++ ':'.toUInt8 :: b.text

def tooLarge : SeqPart → Bool
  | single a => a.tooLarge
  | range a b => a.tooLarge || b.tooLarge

/-- The part is a range up to `INT64_MAX`, as one with `*` for an end is where that is `top`. -/
def endless (top : ℤ) : SeqPart → Bool
  | single _ => false
  | range a b => max (a.value top) (b.value top) = int64Max

/-- How many numbers the part has. -/
def size (top : ℤ) : SeqPart → ℕ
  | single _ => 1
  | range a b => (max (a.value top) (b.value top) - min (a.value top) (b.value top) + 1).toNat

/-- The numbers of the part, in order. -/
def numbers (top : ℤ) : SeqPart → List ℤ
  | single a => [a.value top]
  | range a b => (List.range (size top (range a b))).map fun k : ℕ =>
      min (a.value top) (b.value top) + k

/-- How the part stops `ParseSequenceSet`, if it does, behind `n` numbers. -/
def stop (top : ℤ) (n : ℕ) (p : SeqPart) : Option Stop :=
  if p.tooLarge then some (.throw (.outOfRange (lit "stoll")))
  else if maxVectorSize < n + p.size top then some (.throw .lengthError)
  else if p.endless top then some .undefined
  else none

/-- The part is `*` alone. -/
def isStar : SeqPart → Bool
  | single .star => true
  | _ => false

end SeqPart

namespace SeqSet

def parts (s : SeqSet) : List SeqPart := s.first :: s.rest

/-- The numbers the set denotes, with `top` for `*`. -/
def denotes (top : ℤ) (s : SeqSet) (n : ℤ) : Bool := s.parts.any fun p => p.denotes top n

def text (s : SeqSet) : Bytes := s.first.text ++ s.rest.flatMap fun p => ','.toUInt8 :: p.text

/-- How many numbers its parts have, each for itself. -/
def size (top : ℤ) (s : SeqSet) : ℕ := (s.parts.map (SeqPart.size top)).sum

/-- How the first of the parts that does stops `ParseSequenceSet`, behind `n` numbers. -/
def stopAt (top : ℤ) : ℕ → List SeqPart → Option Stop
  | _, [] => none
  | n, p :: ps => (p.stop top n).or (stopAt top (n + p.size top) ps)

/-- How the set stops `ParseSequenceSet`, if it does. -/
def stop (top : ℤ) (s : SeqSet) : Option Stop := stopAt top 0 s.parts

end SeqSet

/-! ## The text of a set -/

theorem isDigit_of_mem_text {n : SeqNum} {c : UInt8} (h : c ∈ n.text) :
    isDigit c = true ∨ c = '*'.toUInt8 := by
  cases n with
  | num d => exact .inl (d.digits c h)
  | star => exact .inr (List.mem_singleton.mp h)

/-- A number is written with digits or as a star. -/
theorem SeqNum.notMem_text (n : SeqNum) {x : UInt8} (hx : isDigit x = false)
    (hstar : x ≠ '*'.toUInt8) : x ∉ n.text := by
  intro h
  rcases isDigit_of_mem_text h with h | h
  · exact isDigit_ne h hx rfl
  · exact hstar h

theorem SeqNum.text_ne_nil (n : SeqNum) : n.text ≠ [] := by
  cases n with
  | num d => exact d.ne_nil
  | star => exact List.cons_ne_nil _ _

theorem SeqPart.text_ne_nil (p : SeqPart) : p.text ≠ [] := by
  cases p with
  | single a => exact a.text_ne_nil
  | range a b => exact List.append_ne_nil_of_left_ne_nil a.text_ne_nil _

/-- A part has no comma, so the set is cut where it is meant to. -/
theorem SeqPart.comma_notMem_text (p : SeqPart) : ','.toUInt8 ∉ p.text := by
  cases p with
  | single a => exact a.notMem_text (by decide) (by decide)
  | range a b =>
    refine List.not_mem_append (a.notMem_text (by decide) (by decide)) ?_
    exact List.not_mem_cons_of_ne_of_not_mem (by decide)
      (b.notMem_text (by decide) (by decide))

/-- The text splits into the texts of the parts. -/
theorem split_text (s : SeqSet) : split s.text ','.toUInt8 = s.parts.map SeqPart.text := by
  obtain ⟨p, ps⟩ := s
  simp only [SeqSet.text, SeqSet.parts]
  induction ps generalizing p with
  | nil =>
    rw [List.flatMap_nil, List.append_nil]
    exact getlines_of_notMem p.comma_notMem_text p.text_ne_nil
  | cons q ps ih =>
    rw [List.flatMap_cons, List.cons_append, split, getlines_append_cons _ p.comma_notMem_text]
    exact congrArg (p.text :: ·) (ih q)

/-! ## One part -/

theorem not_isSpace_digits {d : Digits} : d.text.dropWhile isSpace = d.text := by
  obtain ⟨t, hne, hdigits⟩ := d
  obtain ⟨c, s, rfl⟩ := List.exists_cons_of_ne_nil hne
  simp [not_isSpace_of_isDigit (hdigits c List.mem_cons_self)]

/-- `std::stoll` of digits. -/
theorem stoll_digits (d : Digits) :
    stoll d.text = if int64Max < digitsValue d.text then .error (.outOfRange (lit "stoll"))
      else .ok (digitsValue d.text) := by
  have hhead : ∀ x : UInt8, isDigit x = false → d.text.head? ≠ some x := fun x hx h =>
    isDigit_ne (d.digits x (List.mem_of_mem_head? h)) hx rfl
  have htake : d.text.takeWhile isDigit = d.text := List.takeWhile_eq_self_iff.mpr d.digits
  have hlow : ¬ (digitsValue d.text : ℤ) < -2 ^ 63 := by omega
  simp only [stoll, not_isSpace_digits, hhead '-'.toUInt8 (by decide),
    hhead '+'.toUInt8 (by decide), or_self, if_false, htake, d.ne_nil, hlow, false_or]

/-- A number is read as its value, if it is not too large. -/
theorem seqNumber_text (top : ℤ) (n : SeqNum) :
    seqNumber top n.text =
      if n.tooLarge then .error (.outOfRange (lit "stoll")) else .ok (n.value top) := by
  cases n with
  | star => rfl
  | num d =>
    have hstar : d.text ≠ lit "*" := by
      intro h
      have hmem : '*'.toUInt8 ∈ d.text := by
        rw [h]
        decide
      exact isDigit_ne (d.digits _ hmem) (by decide) rfl
    rw [SeqNum.text, seqNumber, if_neg hstar, stoll_digits]
    simp [SeqNum.tooLarge, SeqNum.value]

/-- A single number has no colon. -/
theorem cut_colon_text (a : SeqNum) : cut ':'.toUInt8 a.text = none :=
  cut_eq_none (a.notMem_text (by decide) (by decide))

/-- A range is cut at its colon. -/
theorem cut_colon_range (a b : SeqNum) :
    cut ':'.toUInt8 (a.text ++ ':'.toUInt8 :: b.text) = some (a.text, b.text) :=
  cut_eq_some_iff.mpr ⟨rfl, a.notMem_text (by decide) (by decide)⟩

@[simp] theorem SeqPart.length_numbers (top : ℤ) (p : SeqPart) :
    (p.numbers top).length = p.size top := by
  cases p with
  | single a => rfl
  | range a b => rw [numbers, List.length_map, List.length_range]

/-- The numbers of a part are those it denotes. -/
theorem SeqPart.mem_numbers {top n : ℤ} {p : SeqPart} :
    n ∈ p.numbers top ↔ p.denotes top n = true := by
  cases p with
  | single a => rw [numbers, List.mem_singleton, denotes, decide_eq_true_iff]
  | range a b =>
    rw [numbers, size, List.mem_map, denotes, Bool.and_eq_true, decide_eq_true_iff, decide_eq_true_iff]
    constructor
    · rintro ⟨k, hk, rfl⟩
      rw [List.mem_range] at hk
      omega
    · rintro ⟨hlo, hhi⟩
      exact ⟨(n - min (a.value top) (b.value top)).toNat, List.mem_range.mpr (by omega), by omega⟩

/-- A part with a number beyond `INT64_MAX` makes `std::stoll` throw. -/
theorem seqPart_of_tooLarge {top : ℤ} {res : List ℤ} {p : SeqPart} (h : p.tooLarge = true) :
    seqPart top res p.text = .error (.throw (.outOfRange (lit "stoll"))) := by
  cases p with
  | single a =>
    have ha : a.tooLarge = true := h
    simp only [SeqPart.text, seqPart, cut_colon_text, seqNumber_text, ha, if_true]
    rfl
  | range a b =>
    simp only [SeqPart.text, seqPart, cut_colon_range, seqNumber_text]
    cases ha : a.tooLarge with
    | true => rfl
    | false =>
      have hb : b.tooLarge = true := by simpa [SeqPart.tooLarge, ha] using h
      rw [hb]
      rfl

/-- **One part**: its numbers go behind those that are there, or it stops the parser. -/
theorem seqPart_text (top : ℤ) (res : List ℤ) (p : SeqPart) :
    seqPart top res p.text = (p.stop top res.length).elim (.ok (res ++ p.numbers top)) .error := by
  cases hlarge : p.tooLarge with
  | true =>
    rw [seqPart_of_tooLarge hlarge, SeqPart.stop, if_pos hlarge]
    rfl
  | false =>
    rw [SeqPart.stop, if_neg (by simp [hlarge])]
    cases p with
    | single a =>
      have hsmall : a.tooLarge = false := hlarge
      have hpart : seqPart top res (SeqPart.single a).text = pushBack res (a.value top) := by
        simp only [SeqPart.text, seqPart, cut_colon_text, seqNumber_text, hsmall]
        rfl
      rw [hpart, pushBack, SeqPart.size, SeqPart.endless, if_neg Bool.false_ne_true]
      by_cases hroom : res.length < maxVectorSize
      · rw [if_pos hroom, if_neg (by omega)]
        rfl
      · rw [if_neg hroom, if_pos (by omega)]
        rfl
    | range a b =>
      obtain ⟨ha, hb⟩ := Bool.or_eq_false_iff.mp hlarge
      have hpart : seqPart top res (SeqPart.range a b).text =
          seqRange res (min (a.value top) (b.value top)) (max (a.value top) (b.value top)) := by
        simp only [SeqPart.text, seqPart, cut_colon_range, seqNumber_text, ha, hb]
        rfl
      rw [hpart, seqRange, SeqPart.size, SeqPart.endless]
      simp only [decide_eq_true_eq]
      split_ifs <;> rfl

/-! ## The whole set -/

/-- **The parts, one after the other.** -/
theorem foldlM_seqPart_text (top : ℤ) : ∀ (ps : List SeqPart) (res : List ℤ),
    (ps.map SeqPart.text).foldlM (seqPart top) res = (SeqSet.stopAt top res.length ps).elim
      (.ok (res ++ ps.flatMap (SeqPart.numbers top))) .error
  | [], res => by
      rw [List.flatMap_nil, List.append_nil]
      rfl
  | p :: ps, res => by
      rw [List.map_cons, List.foldlM_cons, seqPart_text, SeqSet.stopAt]
      cases p.stop top res.length with
      | some e => rfl
      | none =>
        have ih := foldlM_seqPart_text top ps (res ++ p.numbers top)
        rw [List.length_append, p.length_numbers, List.append_assoc] at ih
        exact ih

/-- Sorted, and each number once. -/
theorem pairwise_dedup_insertionSort (l : List ℤ) :
    (l.insertionSort (· ≤ ·)).dedup.Pairwise (· < ·) := by
  have hsorted := (List.pairwise_insertionSort (· ≤ ·) l).sublist (List.dedup_sublist _)
  exact hsorted.imp₂ (fun a b hle hne => lt_of_le_of_ne hle hne) (List.nodup_dedup _)

/-- **What `ParseSequenceSet` makes of a set**: its numbers, in order and once each, or what the first
part that stops it does. -/
theorem parseSequenceSet_text (top : ℤ) (s : SeqSet) : parseSequenceSet s.text top =
    (s.stop top).elim
      (.ok ((s.parts.flatMap (SeqPart.numbers top)).insertionSort (· ≤ ·)).dedup) .error := by
  rw [parseSequenceSet, split_text, foldlM_seqPart_text, SeqSet.stop]
  cases SeqSet.stopAt top 0 s.parts <;> rfl

/-- **A set that does not stop it is read as it is meant.** -/
theorem parse_text {top : ℤ} {s : SeqSet} (h : s.stop top = none) :
    ∃ l, parseSequenceSet s.text top = .ok l ∧ l.Pairwise (· < ·) ∧
      ∀ n, n ∈ l ↔ s.denotes top n = true := by
  refine ⟨_, by rw [parseSequenceSet_text, h]; rfl, pairwise_dedup_insertionSort _, fun n => ?_⟩
  rw [List.mem_dedup, List.mem_insertionSort, List.mem_flatMap, SeqSet.denotes, List.any_eq_true]
  exact exists_congr fun p => and_congr_right fun _ => SeqPart.mem_numbers

/-- A set with a part that stops is not parsed. -/
theorem parse_text_stop {top : ℤ} {s : SeqSet} {e : Stop} (h : s.stop top = some e) :
    parseSequenceSet s.text top = .error e := by
  rw [parseSequenceSet_text, h]
  rfl

/-- A part is read if it fits, its numbers included. -/
theorem SeqPart.stop_eq_none_iff {top : ℤ} {n : ℕ} {p : SeqPart} : p.stop top n = none ↔
    p.tooLarge = false ∧ n + p.size top ≤ maxVectorSize ∧ p.endless top = false := by
  rw [stop]
  split_ifs with hlarge hroom hendless
  · simp [hlarge]
  · simp [hroom]
  · simp [hendless]
  · simp [hlarge, hendless, Nat.not_lt.mp hroom]

/-- **When no part stops the parser.** -/
theorem SeqSet.stopAt_eq_none_iff {top : ℤ} : ∀ {ps : List SeqPart} {n : ℕ},
    n ≤ maxVectorSize → (stopAt top n ps = none ↔
      (∀ p ∈ ps, p.tooLarge = false ∧ p.endless top = false) ∧
        n + (ps.map (SeqPart.size top)).sum ≤ maxVectorSize)
  | [], n, hn => iff_of_true rfl ⟨List.forall_mem_nil _, hn⟩
  | p :: ps, n, hn => by
      rw [stopAt, Option.or_eq_none_iff, SeqPart.stop_eq_none_iff, List.forall_mem_cons, List.map_cons,
        List.sum_cons, ← Nat.add_assoc]
      constructor
      · rintro ⟨⟨hlarge, hroom, hendless⟩, hps⟩
        obtain ⟨hforall, hsum⟩ := (stopAt_eq_none_iff hroom).mp hps
        exact ⟨⟨⟨hlarge, hendless⟩, hforall⟩, hsum⟩
      · rintro ⟨⟨⟨hlarge, hendless⟩, hforall⟩, hsum⟩
        have hroom : n + p.size top ≤ maxVectorSize := (Nat.le_add_right _ _).trans hsum
        exact ⟨⟨hlarge, hroom, hendless⟩, (stopAt_eq_none_iff hroom).mpr ⟨hforall, hsum⟩⟩

/-- A set is read if its parts fit, all their numbers together. -/
theorem SeqSet.stop_eq_none_iff {top : ℤ} {s : SeqSet} : s.stop top = none ↔
    (∀ p ∈ s.parts, p.tooLarge = false ∧ p.endless top = false) ∧ s.size top ≤ maxVectorSize := by
  rw [stop, stopAt_eq_none_iff (Nat.zero_le _), Nat.zero_add, size]

/-- The numbers of a part are at most `m`. -/
def SeqPart.AtMost (m : ℕ) : SeqPart → Prop
  | single a => ∀ d, a = .num d → digitsValue d.text ≤ m
  | range a b => ∀ d, a = .num d ∨ b = .num d → digitsValue d.text ≤ m

/-- **A set is read as it is meant** — each number once, in order, with `maxValue` for `*` — exactly
when the vector has room for the numbers of all its parts. -/
theorem parseSequenceSet_denotes_iff {s : SeqSet} {maxValue : ℤ} (hmax : maxValue < 2 ^ 62)
    (hnum : ∀ p ∈ s.parts, p.AtMost (2 ^ 62)) :
    (∃ l, parseSequenceSet s.text maxValue = .ok l ∧ l.Pairwise (· < ·) ∧
      ∀ n, n ∈ l ↔ s.denotes maxValue n = true) ↔ s.size maxValue ≤ maxVectorSize := by
  have hsmall : ∀ a : SeqNum, (∀ d, a = .num d → digitsValue d.text ≤ 2 ^ 62) →
      a.tooLarge = false ∧ a.value maxValue < int64Max := by
    intro a ha
    cases a with
    | star => exact ⟨rfl, by rw [SeqNum.value, int64Max]; omega⟩
    | num d =>
      have hd := ha d rfl
      rw [SeqNum.tooLarge, SeqNum.value, int64Max, decide_eq_false_iff_not]
      omega
  have hparts : ∀ p ∈ s.parts, p.tooLarge = false ∧ p.endless maxValue = false := by
    intro p hp
    have hp := hnum p hp
    cases p with
    | single a => exact ⟨(hsmall a hp).1, rfl⟩
    | range a b =>
      obtain ⟨ha, hatop⟩ := hsmall a fun d hd => hp d (.inl hd)
      obtain ⟨hb, hbtop⟩ := hsmall b fun d hd => hp d (.inr hd)
      exact ⟨Bool.or_eq_false_iff.mpr ⟨ha, hb⟩, decide_eq_false (max_lt hatop hbtop).ne⟩
  have hstop : s.stop maxValue = none ↔ s.size maxValue ≤ maxVectorSize :=
    SeqSet.stop_eq_none_iff.trans (and_iff_right hparts)
  rw [← hstop]
  constructor
  · rintro ⟨l, hl, -⟩
    by_contra hne
    obtain ⟨e, he⟩ := Option.ne_none_iff_exists'.mp hne
    rw [parse_text_stop he] at hl
    cases hl
  · exact parse_text

def two : Digits := ⟨lit "2", List.cons_ne_nil _ _, List.all_eq_true.mp rfl⟩

theorem parseSequenceSet_denotes_iff_two : ∃ l,
    parseSequenceSet (SeqSet.text ⟨.range .star (.num two), [.single .star]⟩) 4 = .ok l ∧
      l.Pairwise (· < ·) ∧
        ∀ n, n ∈ l ↔ SeqSet.denotes 4 ⟨.range .star (.num two), [.single .star]⟩ n = true := by
  refine (parseSequenceSet_denotes_iff (by decide) (List.forall_mem_cons.mpr
    ⟨?_, List.forall_mem_singleton.mpr fun d h => nomatch h⟩)).mpr (by decide)
  rintro d (h | h)
  · exact nomatch h
  · obtain rfl := SeqNum.num.inj h
    decide

/-- `1:4611686018427387904`: more numbers than a vector can hold. -/
def wideSet : SeqSet :=
  ⟨.range (.num ⟨lit "1", List.cons_ne_nil _ _, List.all_eq_true.mp rfl⟩)
    (.num ⟨lit "4611686018427387904", List.cons_ne_nil _ _, List.all_eq_true.mp rfl⟩), []⟩

theorem not_denotes_wideSet :
    (∀ p ∈ wideSet.parts, p.AtMost (2 ^ 62)) ∧
      parseSequenceSet wideSet.text 0 = .error (.throw .lengthError) ∧
      ¬ ∃ l, parseSequenceSet wideSet.text 0 = .ok l ∧ l.Pairwise (· < ·) ∧
        ∀ n, n ∈ l ↔ wideSet.denotes 0 n = true := by
  have hstop : wideSet.stop 0 = some (.throw .lengthError) := by decide
  have hparse := parse_text_stop hstop
  refine ⟨List.forall_mem_singleton.mpr ?_, hparse, ?_⟩
  · rintro d (h | h) <;> obtain rfl := SeqNum.num.inj h <;> decide
  · rintro ⟨l, hl, -⟩
    rw [hparse] at hl
    cases hl

/-! ## What the place of `*` changes -/

/-- Of the parts that do not reach up to `INT64_MAX`, only `*` alone depends on the number it stands
for. -/
theorem SeqPart.denotes_iff {p : SeqPart} (h : p.tooLarge = false ∧ p.endless int64Max = false)
    (top n : ℤ) :
    p.denotes top n = true ↔
      (p.isStar = false ∧ p.denotes int64Max n = true) ∨ (p.isStar = true ∧ n = top) := by
  cases p with
  | single a =>
    cases a with
    | star =>
      rw [denotes, decide_eq_true_iff]
      simp [isStar, SeqNum.value]
    | num d =>
      rw [denotes, decide_eq_true_iff, denotes, decide_eq_true_iff]
      simp [isStar, SeqNum.value]
  | range a b =>
    simp only [tooLarge, endless, Bool.or_eq_false_iff, decide_eq_false_iff_not] at h
    obtain ⟨⟨ha, hb⟩, hmax⟩ := h
    have hnum : ∀ c : SeqNum, c.tooLarge = false → c.value int64Max ≤ int64Max := by
      intro c hc
      cases c with
      | star => exact le_refl _
      | num d => simpa [SeqNum.tooLarge, SeqNum.value] using hc
    have hnot : ∀ c : SeqNum, c.value int64Max ≠ int64Max → c.value top = c.value int64Max := by
      intro c hc
      cases c with
      | star => exact absurd rfl hc
      | num d => rfl
    have hva : a.value int64Max ≠ int64Max := fun hv => hmax (by rw [hv, max_eq_left (hnum b hb)])
    have hvb : b.value int64Max ≠ int64Max := fun hv => hmax (by rw [hv, max_eq_right (hnum a ha)])
    simp [denotes, isStar, hnot a hva, hnot b hvb]

/-- What a set denotes, apart from its stars. -/
theorem SeqSet.denotes_iff {s : SeqSet} (h : s.stop int64Max = none) (top n : ℤ) :
    s.denotes top n = true ↔ (∃ p ∈ s.parts, p.isStar = false ∧ p.denotes int64Max n = true) ∨
      ((∃ p ∈ s.parts, p.isStar = true) ∧ n = top) := by
  have hpart : ∀ p ∈ s.parts, p.denotes top n = true ↔
      (p.isStar = false ∧ p.denotes int64Max n = true) ∨ (p.isStar = true ∧ n = top) :=
    fun p hp => SeqPart.denotes_iff ((SeqSet.stop_eq_none_iff.mp h).1 p hp) top n
  rw [SeqSet.denotes, List.any_eq_true]
  constructor
  · rintro ⟨p, hp, hn⟩
    rcases (hpart p hp).mp hn with ⟨hstar, hn⟩ | ⟨hstar, hn⟩
    · exact .inl ⟨p, hp, hstar, hn⟩
    · exact .inr ⟨⟨p, hp, hstar⟩, hn⟩
  · rintro (⟨p, hp, hstar, hn⟩ | ⟨⟨p, hp, hstar⟩, hn⟩)
    · exact ⟨p, hp, (hpart p hp).mpr (.inl ⟨hstar, hn⟩)⟩
    · exact ⟨p, hp, (hpart p hp).mpr (.inr ⟨hstar, hn⟩)⟩

end MailStack.Imap
