import Mathlib.Algebra.Group.Int.Defs
import Mathlib.Algebra.Group.Nat.Defs
import Mathlib.Data.Int.Notation
import Mathlib.Data.Nat.Notation
import Mathlib.Data.List.Basic
import Mathlib.Tactic.Common

/-!
# Machinery/Bytes — byte strings, the searches a C++ `std::string` offers, and its exceptions

A string is the list of its bytes.  `find` of one byte followed by the two `substr` around it is
`cut`; repeated `std::getline` is `getlines`.
-/

/-- The standard exceptions, with their `what()` text where it is looked at. -/
inductive Exn
  | runtimeError (what : List UInt8)
  | invalidArgument (what : List UInt8)
  | outOfRange (what : List UInt8)
  | lengthError
  | badOptionalAccess
  deriving DecidableEq, Repr

/-- A `std::string`, byte by byte. -/
abbrev Bytes := List UInt8

namespace Bytes

/-- The bytes of an ASCII string literal. -/
def lit (s : String) : Bytes := s.toList.map Char.toUInt8

/-- The bytes of two literals in a row. -/
theorem lit_append (s t : String) : lit (s ++ t) = lit s ++ lit t := by
  rw [lit, String.toList_append, List.map_append]
  rfl

/-- `std::toupper` in the "C" locale. -/
def upper (c : UInt8) : UInt8 :=
  if 'a'.toUInt8 ≤ c ∧ c ≤ 'z'.toUInt8 then c - 32 else c

/-! ## Cutting at the first occurrence of a byte -/

/-- `find(c)`, then the text before it and the text after it; `none` when `c` does not occur. -/
def cut (c : UInt8) : Bytes → Option (Bytes × Bytes)
  | [] => none
  | x :: s => if x = c then some ([], s) else (cut c s).map fun p => (x :: p.1, p.2)

/-- **A cut is the split at the first occurrence.** -/
theorem cut_eq_some_iff {c : UInt8} :
    ∀ {s a b : Bytes}, cut c s = some (a, b) ↔ s = a ++ c :: b ∧ c ∉ a
  | [], a, b => by simp [cut]
  | x :: s, a, b => by
      by_cases hx : x = c
      · subst hx
        cases a with
        | nil => simp [cut]
        | cons y a =>
          simp only [cut, if_true, Option.some.injEq, Prod.mk.injEq, List.nil_eq, reduceCtorEq,
            false_and, List.cons_append, List.cons.injEq, List.mem_cons, not_or, false_iff, not_and]
          rintro ⟨rfl, -⟩ h
          exact absurd rfl h
      · simp only [cut, if_neg hx, Option.map_eq_some_iff, Prod.exists, Prod.mk.injEq]
        constructor
        · rintro ⟨a', b', h, rfl, rfl⟩
          obtain ⟨rfl, hc⟩ := cut_eq_some_iff.mp h
          exact ⟨rfl, by simp [hc, Ne.symm hx]⟩
        · rintro ⟨hs, hc⟩
          cases a with
          | nil => exact absurd (List.cons.inj hs).1 hx
          | cons y a =>
            obtain ⟨rfl, rfl⟩ := List.cons.inj hs
            have hca : c ∉ a := fun h => hc (List.mem_cons_of_mem _ h)
            exact ⟨a, b, cut_eq_some_iff.mpr ⟨rfl, hca⟩, rfl, rfl⟩

theorem cut_eq_none {c : UInt8} {s : Bytes} (h : c ∉ s) : cut c s = none := by
  rw [Option.eq_none_iff_forall_not_mem]
  rintro ⟨a, b⟩ hab
  obtain ⟨rfl, -⟩ := cut_eq_some_iff.mp hab
  exact h (by simp)

/-- `rfind(c)`, then the text before it and the text after it. -/
def cutLast (c : UInt8) (s : Bytes) : Option (Bytes × Bytes) :=
  (cut c s.reverse).map fun p => (p.2.reverse, p.1.reverse)

theorem cutLast_append_cons {c : UInt8} {a b : Bytes} (h : c ∉ b) :
    cutLast c (a ++ c :: b) = some (a, b) := by
  have hcut : cut c (a ++ c :: b).reverse = some (b.reverse, a.reverse) :=
    cut_eq_some_iff.mpr ⟨by simp, by simpa using h⟩
  rw [cutLast, hcut, Option.map_some, List.reverse_reverse, List.reverse_reverse]

/-! ## Repeated `std::getline` -/

/-- All the pieces `while (std::getline(stream, piece, d))` yields: an unterminated last piece
counts, an empty one after the last delimiter does not. -/
def getlines (d : UInt8) : Bytes → List Bytes
  | [] => []
  | c :: s =>
    if c = d then [] :: getlines d s
    else match getlines d s with
      | [] => [[c]]
      | l :: ls => (c :: l) :: ls

/-- A text without the delimiter is one piece. -/
theorem getlines_of_notMem {d : UInt8} :
    ∀ {s : Bytes}, d ∉ s → s ≠ [] → getlines d s = [s]
  | [], _, h => absurd rfl h
  | [c], hd, _ => by
      rw [getlines, if_neg (fun h => hd (by simp [h]))]
      rfl
  | c :: c' :: s, hd, _ => by
      have htail := getlines_of_notMem (List.not_mem_of_not_mem_cons hd) (List.cons_ne_nil c' s)
      rw [getlines, if_neg (fun h => hd (by simp [h])), htail]

/-- The first piece of a text ends at its first delimiter. -/
theorem getlines_append_cons {d : UInt8} (s : Bytes) :
    ∀ {l : Bytes}, d ∉ l → getlines d (l ++ d :: s) = l :: getlines d s
  | [], _ => if_pos rfl
  | c :: l, hd => by
      rw [List.cons_append, getlines, if_neg (fun h => hd (by simp [h])),
        getlines_append_cons s (List.not_mem_of_not_mem_cons hd)]

/-- No piece holds the delimiter. -/
theorem notMem_of_mem_getlines {d : UInt8} :
    ∀ {s : Bytes} {l : Bytes}, l ∈ getlines d s → d ∉ l
  | [], l, h => by simp [getlines] at h
  | c :: s, l, h => by
      rw [getlines] at h
      split_ifs at h with hc
      · rcases List.mem_cons.mp h with rfl | h
        · simp
        · exact notMem_of_mem_getlines h
      · have ih := @notMem_of_mem_getlines d s
        split at h
        · obtain rfl := List.mem_singleton.mp h
          simpa using Ne.symm hc
        · rename_i l₀ ls hl
          rcases List.mem_cons.mp h with rfl | h
          · have := @ih l₀ (by simp [hl])
            simp [this, Ne.symm hc]
          · exact ih (by simp [hl, h])

/-! ## Lines -/

/-- The text has no CR and no LF. -/
def NoBreak (s : Bytes) : Prop := '\r'.toUInt8 ∉ s ∧ '\n'.toUInt8 ∉ s

instance (s : Bytes) : Decidable (NoBreak s) := inferInstanceAs (Decidable (_ ∧ _))

/-- The lines, each ended by CRLF. -/
def unlines (ls : List Bytes) : Bytes := ls.flatMap (· ++ lit "\r\n")

@[simp] theorem unlines_nil : unlines [] = [] := rfl

theorem unlines_cons (l : Bytes) (ls : List Bytes) :
    unlines (l :: ls) = l ++ lit "\r\n" ++ unlines ls := List.flatMap_cons

theorem unlines_append (ls ls' : List Bytes) : unlines (ls ++ ls') = unlines ls ++ unlines ls' :=
  List.flatMap_append

theorem noBreak_append {s t : Bytes} : NoBreak (s ++ t) ↔ NoBreak s ∧ NoBreak t := by
  simp only [NoBreak, List.mem_append, not_or]
  tauto

/-- `erase(std::remove(begin, end, c), end)` for CR, then for LF. -/
def eraseBreaks (s : Bytes) : Bytes :=
  (s.filter fun c => c ≠ '\r'.toUInt8).filter fun c => c ≠ '\n'.toUInt8

theorem eraseBreaks_append (s t : Bytes) : eraseBreaks (s ++ t) = eraseBreaks s ++ eraseBreaks t := by
  simp only [eraseBreaks, List.filter_append]

theorem noBreak_eraseBreaks (s : Bytes) : NoBreak (eraseBreaks s) := by
  simp [NoBreak, eraseBreaks]

theorem eraseBreaks_of_noBreak {s : Bytes} (h : NoBreak s) : eraseBreaks s = s := by
  have hcr : s.filter (fun c => c ≠ '\r'.toUInt8) = s :=
    List.filter_eq_self.mpr fun c hc => decide_eq_true fun heq => h.1 (heq ▸ hc)
  have hlf : s.filter (fun c => c ≠ '\n'.toUInt8) = s :=
    List.filter_eq_self.mpr fun c hc => decide_eq_true fun heq => h.2 (heq ▸ hc)
  rw [eraseBreaks, hcr, hlf]

end Bytes
