import Mathlib.Data.List.Dedup
import Mathlib.Data.List.Sort
import Mathlib.Data.List.TakeWhile
import MailStack.Imap.Parser
import MailStack.Store.Repository

/-!
# Imap/Utils — the string functions of `IMAP_UTILS` and `ImapResponse`

`parseSequenceSet` can end in three ways: with the numbers, with an exception of `std::stoll`, or in
undefined behaviour, where a range reaches up to `INT64_MAX` and the loop over it increments past
the end.
-/

open Bytes

namespace MailStack.Imap

open Store

/-- How a handler stops short of its reply: by an exception, or in undefined behaviour, which is
`missing` where it reads an argument that the command does not have. -/
inductive Stop
  | throw (e : Exn)
  | undefined
  | missing (i : ℕ)
  deriving DecidableEq, Repr

/-! ## Text -/

/-- `std::to_string`. -/
def decimal (n : ℤ) : Bytes := lit (toString n)

/-- `isspace` in the "C" locale. -/
def isSpace (c : UInt8) : Bool := c = ' '.toUInt8 || (9 ≤ c && c ≤ 13)

/-- `SplitArgs`: the words of a text. -/
def splitArgs (s : Bytes) : List Bytes := (s.splitOnP isSpace).filter (· ≠ [])

/-- `TrimParentheses`. -/
def trimParentheses (s : Bytes) : Bytes :=
  if 2 ≤ s.length ∧ s.head? = some '('.toUInt8 ∧ s.getLast? = some ')'.toUInt8 then
    (s.drop 1).dropLast
  else s

/-- `Split`. -/
def split (s : Bytes) (delim : UInt8) : List Bytes := getlines delim s

/-- `find(pat) != npos`. -/
def hasSubstring (pat s : Bytes) : Bool := s.tails.any fun t => pat.isPrefixOf t

/-- `pop_back` of a space. -/
def popSpace (s : Bytes) : Bytes := if s.getLast? = some ' '.toUInt8 then s.dropLast else s

/-- The items joined as by `if (!out.empty()) out += sep; out += item;`. -/
def joinNonempty (sep : Bytes) (items : List Bytes) : Bytes :=
  items.foldl (fun out item => (if out = [] then [] else out ++ sep) ++ item) []

/-! ## `ParseSequenceSet` -/

/-- `INT64_MAX`. -/
def int64Max : ℤ := 2 ^ 63 - 1

/-- The digits of a number, most significant first. -/
def digitsValue (s : Bytes) : ℕ := s.foldl (fun n c => 10 * n + (c - '0'.toUInt8).toNat) 0

def isDigit (c : UInt8) : Bool := '0'.toUInt8 ≤ c && c ≤ '9'.toUInt8

/-- `std::stoll`: leading space, a sign, digits; what follows them is ignored. -/
def stoll (s : Bytes) : Except Exn ℤ :=
  let t := s.dropWhile isSpace
  let negative := t.head? = some '-'.toUInt8
  let t := if negative ∨ t.head? = some '+'.toUInt8 then t.drop 1 else t
  let digits := t.takeWhile isDigit
  let value : ℤ := if negative then -digitsValue digits else digitsValue digits
  if digits = [] then .error (.invalidArgument (lit "stoll"))
  else if value < -2 ^ 63 ∨ int64Max < value then .error (.outOfRange (lit "stoll"))
  else .ok value

/-- One end of a range, or a number alone. -/
def seqNumber (maxValue : ℤ) (s : Bytes) : Except Exn ℤ :=
  if s = lit "*" then .ok maxValue else stoll s

/-- How many numbers a `std::vector<int64_t>` can hold: `PTRDIFF_MAX / sizeof(int64_t)`. -/
def maxVectorSize : ℕ := 2 ^ 60 - 1

/-- `res.push_back(n)`. -/
def pushBack (res : List ℤ) (n : ℤ) : Except Stop (List ℤ) :=
  if res.length < maxVectorSize then .ok (res ++ [n]) else .error (.throw .lengthError)

/-- The loop `for (i = first; i <= second; ++i) res.push_back(i)`: where it is to go on to `INT64_MAX`,
either the vector is full before, or `++i` overflows. -/
def seqRange (res : List ℤ) (first second : ℤ) : Except Stop (List ℤ) :=
  if maxVectorSize < res.length + (second - first + 1).toNat then .error (.throw .lengthError)
  else if second = int64Max then .error .undefined
  else .ok (res ++ (List.range (second - first + 1).toNat).map fun k : ℕ => first + k)

/-- The numbers of one part of a set, behind those of the parts before it. -/
def seqPart (maxValue : ℤ) (res : List ℤ) (part : Bytes) : Except Stop (List ℤ) :=
  match cut ':'.toUInt8 part with
  | some (a, b) => do
    let first ← (seqNumber maxValue a).mapError .throw
    let second ← (seqNumber maxValue b).mapError .throw
    seqRange res (min first second) (max first second)
  | none => do pushBack res (← (seqNumber maxValue part).mapError .throw)

/-- `ParseSequenceSet`. -/
def parseSequenceSet (sequenceSet : Bytes) (maxValue : ℤ) : Except Stop (List ℤ) := do
  let res ← (split sequenceSet ','.toUInt8).foldlM (seqPart maxValue) []
  return (res.insertionSort (· ≤ ·)).dedup

/-- What the rounds of a loop keep, the loop keeps. -/
theorem of_foldlM_eq_ok {α β ε : Type} {f : β → α → Except ε β} {P : β → Prop}
    (hf : ∀ b a b', P b → f b a = .ok b' → P b') :
    ∀ {l : List α} {b b' : β}, P b → l.foldlM f b = .ok b' → P b'
  | [], b, b', hb, h => by
      obtain rfl := Except.ok.inj h
      exact hb
  | a :: l, b, b', hb, h => by
      rw [List.foldlM_cons] at h
      cases ha : f b a with
      | error e =>
        rw [ha] at h
        cases h
      | ok b₁ =>
        rw [ha] at h
        exact of_foldlM_eq_ok hf (hf b a b₁ hb ha) h

/-- The round at which a loop stopped. -/
theorem exists_of_foldlM_error {α β ε : Type} {f : β → α → Except ε β} {e : ε} :
    ∀ {l : List α} {b : β}, l.foldlM f b = .error e → ∃ b' a, f b' a = .error e
  | [], b, h => by cases h
  | a :: l, b, h => by
      rw [List.foldlM_cons] at h
      cases ha : f b a with
      | error e' =>
        rw [ha] at h
        exact ⟨b, a, ha.trans h⟩
      | ok b₁ =>
        rw [ha] at h
        exact exists_of_foldlM_error h

theorem seqPart_ne_missing (maxValue : ℤ) (res : List ℤ) (part : Bytes) (i : ℕ) :
    seqPart maxValue res part ≠ .error (.missing i) := by
  rw [seqPart]
  split
  · rename_i a b _
    cases ha : seqNumber maxValue a with
    | error e => exact nofun
    | ok m =>
      cases hb : seqNumber maxValue b with
      | error e => exact nofun
      | ok n =>
        change seqRange res (min m n) (max m n) ≠ _
        rw [seqRange]
        split_ifs <;> exact nofun
  · cases seqNumber maxValue part with
    | error e => exact nofun
    | ok m =>
      change pushBack res m ≠ _
      rw [pushBack]
      split_ifs <;> exact nofun

/-- The numbers are taken from the text, and no argument is. -/
theorem parseSequenceSet_ne_missing (t : Bytes) (maxValue : ℤ) (i : ℕ) :
    parseSequenceSet t maxValue ≠ .error (.missing i) := by
  intro h
  rw [parseSequenceSet] at h
  cases hparts : (split t ','.toUInt8).foldlM (seqPart maxValue) [] with
  | ok res =>
    rw [hparts] at h
    exact nomatch h
  | error e =>
    rw [hparts] at h
    have he : e = .missing i := Except.error.inj h
    obtain ⟨res, part, hpart⟩ := exists_of_foldlM_error hparts
    exact seqPart_ne_missing maxValue res part i (he ▸ hpart)

/-- The conversion of `int64_t` to `int`. -/
def toInt (n : ℤ) : ℤ := n.bmod (2 ^ 32)

/-- The conversion of `int64_t` to `size_t`. -/
def toSizeT (n : ℤ) : ℕ := (n % 2 ^ 64).toNat

/-! ## A number printed and read -/

theorem decimal_natCast (n : ℕ) : decimal n = (Nat.toDigits 10 n).map Char.toUInt8 := by
  have htoString : toString (n : ℤ) = n.repr := rfl
  rw [decimal, lit, htoString, Nat.toList_repr]

theorem decimal_neg (n : ℕ) : decimal (-(n + 1 : ℕ)) = '-'.toUInt8 :: decimal (n + 1 : ℕ) := by
  have hneg : toString (-((n + 1 : ℕ) : ℤ)) = "-" ++ (n + 1).repr := rfl
  rw [decimal_natCast, decimal, lit, hneg]
  simp

/-- The byte of a digit is a digit, of the same value. -/
theorem isDigit_toUInt8 {c : Char} (h : c.isDigit = true) :
    isDigit c.toUInt8 = true ∧ (c.toUInt8 - '0'.toUInt8).toNat = c.toNat - '0'.toNat := by
  have key : ∀ k < 58, 48 ≤ k → isDigit (Char.ofNat k).toUInt8 = true ∧
      ((Char.ofNat k).toUInt8 - '0'.toUInt8).toNat = (Char.ofNat k).toNat - '0'.toNat := by decide
  obtain ⟨hle, hge⟩ := Char.isDigit_iff_toNat.mp h
  have hc := key c.toNat (Nat.lt_succ_of_le hge) hle
  rwa [Char.ofNat_toNat] at hc

theorem isDigit_of_mem_decimal {n : ℕ} {c : UInt8} (h : c ∈ decimal n) : isDigit c = true := by
  rw [decimal_natCast] at h
  obtain ⟨x, hx, rfl⟩ := List.mem_map.mp h
  exact (isDigit_toUInt8 (Nat.isDigit_of_mem_toDigits (by decide) (by decide) hx)).1

theorem decimal_ne_nil (n : ℤ) : decimal n ≠ [] := by
  obtain ⟨k, rfl | rfl⟩ := Int.eq_nat_or_neg n
  · simp [decimal_natCast, Nat.toDigits_ne_nil]
  · cases k with
    | zero => exact fun h => nomatch h
    | succ k =>
      rw [decimal_neg]
      exact List.cons_ne_nil _ _

/-- A number is written in digits, behind a minus sign if it is negative. -/
theorem mem_decimal {n : ℤ} {c : UInt8} (h : c ∈ decimal n) :
    c = '-'.toUInt8 ∨ isDigit c = true := by
  obtain ⟨k, rfl | rfl⟩ := Int.eq_nat_or_neg n
  · exact .inr (isDigit_of_mem_decimal h)
  · cases k with
    | zero => exact .inr (isDigit_of_mem_decimal h)
    | succ k =>
      rw [decimal_neg] at h
      exact (List.mem_cons.mp h).imp_right isDigit_of_mem_decimal

theorem digitsValue_decimal (n : ℕ) : digitsValue (decimal n) = n := by
  have key : ∀ (l : List Char) (k : ℕ), (∀ c ∈ l, c.isDigit = true) →
      (l.map Char.toUInt8).foldl (fun n c => 10 * n + (c - '0'.toUInt8).toNat) k =
        Nat.ofDigitChars 10 l k := by
    intro l
    induction l with
    | nil =>
      intro k _
      simp
    | cons c l ih =>
      intro k hl
      rw [List.map_cons, List.foldl_cons, ih _ fun c hc => hl c (List.mem_cons_of_mem _ hc),
        Nat.ofDigitChars_cons, (isDigit_toUInt8 (hl c List.mem_cons_self)).2]
  rw [digitsValue, decimal_natCast, key, Nat.ofDigitChars_ten_toDigits]
  exact fun c hc => Nat.isDigit_of_mem_toDigits (by decide) (by decide) hc

/-- How many digits a number has. -/
theorem length_decimal {n k : ℕ} (hlo : 10 ^ k ≤ n) (hhi : n < 10 ^ (k + 1)) :
    (decimal n).length = k + 1 := by
  have hle : (Nat.toDigits 10 n).length ≤ k + 1 :=
    (Nat.length_toDigits_le_iff (by decide) k.succ_pos).mpr hhi
  have hlt : ¬ (Nat.toDigits 10 n).length ≤ k := by
    rcases Nat.eq_zero_or_pos k with rfl | hk
    · exact Nat.not_le.mpr Nat.length_toDigits_pos
    · rw [Nat.length_toDigits_le_iff (by decide) hk]
      exact Nat.not_lt.mpr hlo
  rw [decimal_natCast, List.length_map]
  omega

/-- A number can be read off what is written of it. -/
theorem decimal_injective : Function.Injective decimal := by
  have hminus : ∀ (k l : ℕ), decimal k ≠ decimal (-(l + 1 : ℕ)) := by
    intro k l h
    rw [decimal_neg] at h
    have hdigit := isDigit_of_mem_decimal (n := k) (h ▸ List.mem_cons_self ..)
    exact absurd hdigit (by decide)
  intro a b h
  cases a with
  | ofNat k =>
    cases b with
    | ofNat l =>
      have hvalue := congrArg digitsValue h
      exact congrArg Int.ofNat ((digitsValue_decimal k).symm.trans
        (hvalue.trans (digitsValue_decimal l)))
    | negSucc l => exact absurd h (hminus k l)
  | negSucc k =>
    cases b with
    | ofNat l => exact absurd h.symm (hminus l k)
    | negSucc l =>
      change decimal (-(k + 1 : ℕ)) = decimal (-(l + 1 : ℕ)) at h
      rw [decimal_neg, decimal_neg] at h
      have hvalue := congrArg digitsValue (List.cons.inj h).2
      rw [digitsValue_decimal, digitsValue_decimal] at hvalue
      rw [Nat.succ.inj hvalue]

theorem isDigit_ne {c x : UInt8} (h : isDigit c = true) (hx : isDigit x = false) : c ≠ x := by
  rintro rfl
  rw [h] at hx
  exact absurd hx (by decide)

theorem notMem_decimal (n : ℤ) {x : UInt8} (hx : isDigit x = false) (hminus : x ≠ '-'.toUInt8) :
    x ∉ decimal n := by
  intro h
  rcases mem_decimal h with h | h
  · exact hminus h
  · exact isDigit_ne h hx rfl

theorem not_isSpace_of_isDigit {c : UInt8} (h : isDigit c = true) : isSpace c = false := by
  simp only [isDigit, Bool.and_eq_true, decide_eq_true_eq, UInt8.le_iff_toNat_le] at h
  simp only [isSpace, Bool.or_eq_false_iff, Bool.and_eq_false_iff, decide_eq_false_iff_not,
    UInt8.le_iff_toNat_le, ← UInt8.toNat_inj]
  have h0 : '0'.toUInt8.toNat = 48 := rfl
  have hs : ' '.toUInt8.toNat = 32 := rfl
  have h13 : (13 : UInt8).toNat = 13 := rfl
  omega

/-- **`std::stoll` reads what `std::to_string` wrote.** -/
theorem stoll_decimal {n : ℤ} (hlo : -2 ^ 63 ≤ n) (hhi : n ≤ int64Max) :
    stoll (decimal n) = .ok n := by
  have hdigits : ∀ k : ℕ, (decimal k).takeWhile isDigit = decimal k := fun k =>
    List.takeWhile_eq_self_iff.mpr fun c hc => isDigit_of_mem_decimal hc
  have hhead : ∀ (k : ℕ) (x : UInt8), isDigit x = false → (decimal k).head? ≠ some x := by
    intro k x hx h
    exact isDigit_ne (isDigit_of_mem_decimal (List.mem_of_mem_head? h)) hx rfl
  have hspace : ∀ k : ℕ, (decimal k).dropWhile isSpace = decimal k := by
    intro k
    cases hd : decimal k with
    | nil => rfl
    | cons c s =>
      have hc : c ∈ decimal k := by simp [hd]
      simp [not_isSpace_of_isDigit (isDigit_of_mem_decimal hc)]
  rw [int64Max] at hhi
  obtain ⟨k, rfl | rfl⟩ := Int.eq_nat_or_neg n
  · have hminus := hhead k '-'.toUInt8 (by decide)
    have hplus := hhead k '+'.toUInt8 (by decide)
    have hrange : ¬ ((k : ℤ) < -2 ^ 63 ∨ 2 ^ 63 - 1 < (k : ℤ)) := by omega
    simp only [stoll, hspace, hminus, hplus, or_self, if_false, hdigits, digitsValue_decimal,
      decimal_ne_nil, int64Max, hrange]
  · cases k with
    | zero => rfl
    | succ k =>
      have hrange : ¬ (-((k + 1 : ℕ) : ℤ) < -2 ^ 63 ∨ 2 ^ 63 - 1 < -((k + 1 : ℕ) : ℤ)) := by omega
      have hminus : isSpace '-'.toUInt8 = false := rfl
      rw [stoll, decimal_neg]
      simp only [List.dropWhile_cons, hminus, List.head?_cons, true_or, if_true, List.drop_one,
        List.tail_cons, hdigits, digitsValue_decimal, decimal_ne_nil, int64Max, hrange, if_false,
        Bool.false_eq_true]

/-- **A number alone is the set of that number.** -/
theorem parseSequenceSet_decimal {n : ℤ} (hlo : -2 ^ 63 ≤ n) (hhi : n ≤ int64Max) (maxValue : ℤ) :
    parseSequenceSet (decimal n) maxValue = .ok [n] := by
  have hsplit : split (decimal n) ','.toUInt8 = [decimal n] :=
    getlines_of_notMem (notMem_decimal n (by decide) (by decide)) (decimal_ne_nil n)
  have hcolon : cut ':'.toUInt8 (decimal n) = none :=
    cut_eq_none (notMem_decimal n (by decide) (by decide))
  have hstar : decimal n ≠ lit "*" := by
    intro h
    have hmem : '*'.toUInt8 ∈ decimal n := by
      rw [h]
      decide
    exact notMem_decimal n (by decide) (by decide) hmem
  have hpart : seqPart maxValue [] (decimal n) = .ok [n] := by
    rw [seqPart, hcolon, seqNumber, if_neg hstar, stoll_decimal hlo hhi]
    rfl
  rw [parseSequenceSet, hsplit, List.foldlM_cons, hpart]
  rfl

/-! ## `ImapResponse` -/

namespace ImapResponse

def ok (tag : Bytes) (message : Bytes) : Bytes := tag ++ lit " OK " ++ message ++ lit "\r\n"

def no (tag : Bytes) (message : Bytes) : Bytes := tag ++ lit " NO " ++ message ++ lit "\r\n"

def bad (tag : Bytes) (message : Bytes) : Bytes := tag ++ lit " BAD " ++ message ++ lit "\r\n"

def untagged (message : Bytes) : Bytes := lit "* " ++ message ++ lit "\r\n"

def capability : Bytes := lit "* CAPABILITY IMAP4rev1\r\n"

def flags : Bytes := lit "* FLAGS (\\Seen \\Answered \\Flagged \\Draft \\Deleted \\Recent)\r\n"

/-- `Exists` and `Recent`. -/
def count (n : ℕ) (what : String) : Bytes := lit "* " ++ decimal n ++ lit what ++ lit "\r\n"

/-- `List` and `Lsub`, with separator `'/'`. -/
def mailbox (command : String) (mailbox : Bytes) (attributes : String) : Bytes :=
  lit "* " ++ lit command ++ lit " (\\" ++ lit attributes ++ lit ") \"/\" \"" ++ mailbox ++
    lit "\"\r\n"

def status (mailbox statusData : Bytes) : Bytes :=
  lit "* STATUS " ++ mailbox ++ lit " (" ++ statusData ++ lit ")\r\n"

def fetch (msgNum : ℕ) (data : Bytes) : Bytes :=
  lit "* " ++ decimal msgNum ++ lit " FETCH " ++ data ++ lit "\r\n"

end ImapResponse

/-! ## Flags and data items -/

/-- The names of the flags that are set, each followed by a space. -/
def flagNames (f : Flags) : Bytes :=
  (if f.seen then lit "\\Seen " else []) ++ (if f.deleted then lit "\\Deleted " else []) ++
    (if f.draft then lit "\\Draft " else []) ++ (if f.answered then lit "\\Answered " else []) ++
    (if f.flagged then lit "\\Flagged " else []) ++ (if f.recent then lit "\\Recent " else [])

/-- `FormatFlagsResponse`. -/
def formatFlagsResponse (msg : Message) : Bytes :=
  popSpace (lit "(FLAGS (" ++ flagNames msg.flags) ++ lit "))"

/-- The flags `STORE` takes. -/
def validSystemFlags : List Bytes :=
  [lit "\\Seen", lit "\\Deleted", lit "\\Draft", lit "\\Answered", lit "\\Flagged", lit "\\Recent"]

/-- What an item that starts a `BODY[HEADER.FIELDS` section starts with. -/
def headerFieldsStart (item : Bytes) : Option Bytes :=
  if (lit "BODY[HEADER.FIELDS").isPrefixOf (toUpper item) then some (lit "BODY[")
  else if (lit "BODY.PEEK[HEADER.FIELDS").isPrefixOf (toUpper item) then some (lit "BODY.PEEK[")
  else none

/-- `CombineSplitBodySections`.  `some (start, content)` is a section that has not come to its
`']'` yet: it takes up the items that follow, and is closed where they end. -/
def combineSections : Option (Bytes × Bytes) → List Bytes → List Bytes
  | none, [] => []
  | none, item :: items =>
    match headerFieldsStart item with
    | none => item :: combineSections none items
    | some start =>
      let content := item.drop start.length
      if content.getLast? = some ']'.toUInt8 then
        (start ++ content) :: combineSections none items
      else combineSections (some (start, content)) items
  | some (start, content), [] => [start ++ content ++ lit "]"]
  | some (start, content), item :: items =>
    let content := content ++ lit " " ++ item
    if content.getLast? = some ']'.toUInt8 then (start ++ content) :: combineSections none items
    else combineSections (some (start, content)) items

def combineSplitBodySections (items : List Bytes) : List Bytes := combineSections none items

/-- The macros of `FETCH`; any other item in upper case. -/
def expandItem (item : Bytes) : List Bytes :=
  let fast := [lit "FLAGS", lit "INTERNALDATE", lit "RFC822.SIZE"]
  if toUpper item = lit "ALL" then fast ++ [lit "ENVELOPE"]
  else if toUpper item = lit "FAST" then fast
  else if toUpper item = lit "FULL" then fast ++ [lit "ENVELOPE", lit "BODY"]
  else [toUpper item]

/-- The data items of a `FETCH` argument. -/
def fetchItems (arg : Bytes) : List Bytes :=
  (combineSplitBodySections (splitArgs (trimParentheses arg))).flatMap expandItem

end MailStack.Imap
