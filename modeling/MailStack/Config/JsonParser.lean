import Mathlib.Data.List.TakeDrop
import Mathlib.Logic.Function.Basic
import MailStack.Imap.Utils

/-!
# Config/JsonParser — `JsonParser`, which reads the configuration

The parser keeps one cursor, which only moves forward; what is left of the text behind it is passed
on here.  Objects are nested by recursion, so `ParseObject` is given fuel: `parse_settles` says that
every text has its map, with any fuel beyond its length.
-/

open Bytes

namespace MailStack.Config

open Imap

/-- `JsonParser::FlatMap`: the value of a key. -/
abbrev FlatMap := Bytes → Option Bytes

/-- `out[key] = value`. -/
def FlatMap.set (out : FlatMap) (key value : Bytes) : FlatMap :=
  Function.update out key (some value)

/-! ## The tokens -/

/-- `' '`, `'\t'`, `'\r'` or `'\n'`. -/
def isWhitespace (c : UInt8) : Bool :=
  c = ' '.toUInt8 || c = '\t'.toUInt8 || c = '\r'.toUInt8 || c = '\n'.toUInt8

/-- `SkipWhitespace`. -/
def skipWhitespace (s : Bytes) : Bytes := s.dropWhile isWhitespace

/-- `if (m_json[m_pos] == c) ++m_pos;`. -/
def consume (c : UInt8) (s : Bytes) : Bytes := if s.head? = some c then s.drop 1 else s

/-- The `switch` of `ParseString`. -/
def unescape (c : UInt8) : UInt8 :=
  if c = 'n'.toUInt8 then '\n'.toUInt8
  else if c = 'r'.toUInt8 then '\r'.toUInt8
  else if c = 't'.toUInt8 then '\t'.toUInt8
  else c

/-- The loop of `ParseString`, up to the closing quote: the string, and what is left. -/
def stringLoop : Bytes → Bytes × Bytes
  | [] => ([], [])
  | [c] => if c = '"'.toUInt8 then ([], []) else ([c], [])
  | c :: e :: s =>
    if c = '"'.toUInt8 then ([], e :: s)
    else if c = '\\'.toUInt8 then
      let (result, s) := stringLoop s
      (unescape e :: result, s)
    else
      let (result, s) := stringLoop (e :: s)
      (c :: result, s)

/-- `ParseString`, at the opening quote. -/
def parseString (s : Bytes) : Bytes × Bytes := stringLoop (s.drop 1)

def isNumberChar (c : UInt8) : Bool :=
  isDigit c || c = '.'.toUInt8 || c = 'e'.toUInt8 || c = 'E'.toUInt8 || c = '+'.toUInt8 ||
    c = '-'.toUInt8

/-- `ParseNumber`. -/
def parseNumber (s : Bytes) : Bytes × Bytes :=
  let rest := (consume '-'.toUInt8 s).dropWhile isNumberChar
  (s.take (s.length - rest.length), rest)

def literals : List Bytes := [lit "true", lit "false", lit "null"]

/-- `ParseLiteral`; anything else goes up to the next delimiter. -/
def parseLiteral (s : Bytes) : Bytes × Bytes :=
  match literals.find? (·.isPrefixOf s) with
  | some word => (word, s.drop word.length)
  | none => s.span fun c => c ≠ ','.toUInt8 && c ≠ '}'.toUInt8 && c ≠ ']'.toUInt8

/-! ## Objects -/

/-- What is left of the text, and the map; `none` where the fuel runs out. -/
abbrev Parsed := Option (Bytes × FlatMap)

/-- `prefix.empty() ? key : prefix + "." + key`. -/
def fullKey (path key : Bytes) : Bytes := if path = [] then key else path ++ lit "." ++ key

/-- `ParseValue`, with what parses an object behind its brace. -/
def parseValue (parseObject : Bytes → Bytes → FlatMap → Parsed) (key s : Bytes) (out : FlatMap) :
    Parsed :=
  match skipWhitespace s with
  | [] => some ([], out)
  | c :: s =>
    if c = '{'.toUInt8 then parseObject key s out
    else
      let (value, rest) :=
        if c = '"'.toUInt8 then parseString (c :: s)
        else if c = '-'.toUInt8 || isDigit c then parseNumber (c :: s)
        else parseLiteral (c :: s)
      some (rest, out.set key value)

/-- The loop of `ParseObject`, up to behind the closing brace. `none` where the JSON is incorrect.
-/
def objectLoop : ℕ → Bytes → Bytes → FlatMap → Parsed
  | 0, _, _, _ => none
  | fuel + 1, path, s, out =>
    if s.head? ∈ [none, some '}'.toUInt8] then some (s.drop 1, out)
    else
      let s := skipWhitespace s
      if s.head? ≠ some '"'.toUInt8 then some (consume '}'.toUInt8 s, out)
      else do
        let (key, s) := parseString s
        let s := consume ':'.toUInt8 (skipWhitespace s)
        let (s, out) ← parseValue (fun key s out => objectLoop fuel key (skipWhitespace s) out)
          (fullKey path key) s out
        objectLoop fuel path (consume ','.toUInt8 (skipWhitespace s)) out

/-- `ParseObject`, behind the brace. -/
def parseObject (fuel : ℕ) (path s : Bytes) (out : FlatMap) : Parsed :=
  objectLoop fuel path (skipWhitespace s) out

/-- `JsonParser::Parse`. -/
def parse (fuel : ℕ) (json : Bytes) : Option FlatMap :=
  match skipWhitespace json with
  | c :: s => if c = '{'.toUInt8 then (parseObject fuel [] s fun _ => none).map Prod.snd
    else some fun _ => none
  | [] => some fun _ => none

/-! ## The cursor moves forward -/

theorem length_skipWhitespace_le (s : Bytes) : (skipWhitespace s).length ≤ s.length :=
  List.length_dropWhile_le isWhitespace s

theorem length_consume_le (c : UInt8) (s : Bytes) : (consume c s).length ≤ s.length := by
  rw [consume]
  split_ifs
  · exact (List.drop_sublist 1 s).length_le
  · exact Nat.le_refl _

theorem length_stringLoop_le : ∀ s : Bytes, (stringLoop s).2.length ≤ s.length
  | [] => Nat.le_refl 0
  | [c] => by
      rw [stringLoop]
      split_ifs <;> exact Nat.zero_le 1
  | c :: e :: s => by
      have hskip := length_stringLoop_le s
      have hnext := length_stringLoop_le (e :: s)
      rw [stringLoop]
      split_ifs
      · exact Nat.le_succ _
      · exact Nat.le_trans hskip (Nat.le_add_right _ 2)
      · exact Nat.le_succ_of_le hnext

/-- The opening quote is behind the cursor. -/
theorem length_parseString_lt {s : Bytes} (h : s ≠ []) :
    (parseString s).2.length < s.length := by
  obtain ⟨c, s, rfl⟩ := List.exists_cons_of_ne_nil h
  exact Nat.lt_succ_of_le (length_stringLoop_le s)

theorem length_parseNumber_le (s : Bytes) : (parseNumber s).2.length ≤ s.length :=
  Nat.le_trans (List.length_dropWhile_le _ _) (length_consume_le _ s)

theorem length_parseLiteral_le (s : Bytes) : (parseLiteral s).2.length ≤ s.length := by
  rw [parseLiteral]
  split
  · exact (List.drop_sublist _ s).length_le
  · rw [List.span_eq_takeWhile_dropWhile]
    exact List.length_dropWhile_le _ s

/-- With enough fuel the result is always the same, and no more than `size` of the text is left. -/
def Settles (enough size : ℕ) (parsed : ℕ → Parsed) : Prop :=
  ∃ r : Bytes × FlatMap, r.1.length ≤ size ∧ ∀ fuel, enough ≤ fuel → parsed fuel = some r

/-- **A value is parsed** if every shorter object is. -/
theorem parseValue_settles {n : ℕ} (object : ℕ → Bytes → Bytes → FlatMap → Parsed)
    (hobject : ∀ path s out, s.length < n → Settles n s.length fun fuel => object fuel path s out)
    (key : Bytes) {s : Bytes} (hs : s.length ≤ n) (out : FlatMap) :
    Settles n s.length fun fuel => parseValue (object fuel) key s out := by
  have hle := length_skipWhitespace_le s
  simp only [parseValue]
  cases hskip : skipWhitespace s with
  | nil => exact ⟨([], out), Nat.zero_le _, fun _ _ => rfl⟩
  | cons c t =>
    rw [hskip, List.length_cons] at hle
    dsimp only
    split_ifs with hbrace hquote hnumber
    · obtain ⟨r, hr, hparsed⟩ := hobject key t out (by omega)
      exact ⟨r, by omega, hparsed⟩
    · have hlt := length_parseString_lt (List.cons_ne_nil c t)
      rw [List.length_cons] at hlt
      exact ⟨_, by dsimp only; omega, fun _ _ => rfl⟩
    · have hrest := length_parseNumber_le (c :: t)
      rw [List.length_cons] at hrest
      exact ⟨_, by dsimp only; omega, fun _ _ => rfl⟩
    · have hrest := length_parseLiteral_le (c :: t)
      rw [List.length_cons] at hrest
      exact ⟨_, by dsimp only; omega, fun _ _ => rfl⟩

/-- **Every iteration goes on behind its key, or is the last.** -/
theorem objectLoop_settles : ∀ (n : ℕ) (path s : Bytes) (out : FlatMap), s.length < n →
    Settles n s.length fun fuel => objectLoop fuel path s out
  | 0, _, _, _, h => absurd h (Nat.not_lt_zero _)
  | n + 1, path, s, out, h => by
      have ih := objectLoop_settles n
      suffices hnext : Settles n s.length fun fuel => objectLoop (fuel + 1) path s out by
        obtain ⟨r, hr, hparsed⟩ := hnext
        refine ⟨r, hr, fun fuel hfuel => ?_⟩
        obtain ⟨fuel, rfl⟩ := Nat.exists_eq_add_of_le' (Nat.le_trans (Nat.succ_pos n) hfuel)
        exact hparsed fuel (Nat.le_of_succ_le_succ hfuel)
      have hskip := length_skipWhitespace_le s
      simp only [objectLoop]
      split_ifs with hend hquote
      · exact ⟨_, (List.drop_sublist 1 s).length_le, fun _ _ => rfl⟩
      · exact ⟨_, Nat.le_trans (length_consume_le _ _) hskip, fun _ _ => rfl⟩
      · have hkey : (parseString (skipWhitespace s)).2.length < (skipWhitespace s).length :=
          length_parseString_lt fun hnil => hquote (by rw [hnil]; exact nofun)
        let t := consume ':'.toUInt8 (skipWhitespace (parseString (skipWhitespace s)).2)
        have ht : t.length ≤ (parseString (skipWhitespace s)).2.length :=
          Nat.le_trans (length_consume_le _ _) (length_skipWhitespace_le _)
        obtain ⟨v, hv, hvalue⟩ := parseValue_settles (n := n)
          (fun fuel key s out => objectLoop fuel key (skipWhitespace s) out)
          (fun path s out hs => by
            have hle := length_skipWhitespace_le s
            obtain ⟨r, hr, hparsed⟩ := ih path (skipWhitespace s) out (by omega)
            exact ⟨r, by omega, hparsed⟩)
          (fullKey path (parseString (skipWhitespace s)).1) (s := t) (by omega) out
        let u := consume ','.toUInt8 (skipWhitespace v.1)
        have hu : u.length ≤ v.1.length :=
          Nat.le_trans (length_consume_le _ _) (length_skipWhitespace_le _)
        obtain ⟨r, hr, hrest⟩ := ih path u v.2 (by omega)
        refine ⟨r, by omega, fun fuel hfuel => ?_⟩
        have hvalue := hvalue fuel hfuel
        dsimp only at hvalue ⊢
        rw [show parseValue _ _ (consume _ _) out = some v from hvalue]
        exact hrest fuel hfuel

/-- **`Parse` ends on every text**, with the same map whatever the fuel beyond its length. -/
theorem parse_settles (json : Bytes) :
    ∃ m, ∀ fuel, json.length < fuel → parse fuel json = some m := by
  have hle := length_skipWhitespace_le json
  simp only [parse]
  cases hskip : skipWhitespace json with
  | nil => exact ⟨_, fun _ _ => rfl⟩
  | cons c s =>
    rw [hskip, List.length_cons] at hle
    have hs := length_skipWhitespace_le s
    dsimp only
    split_ifs
    · obtain ⟨r, -, hparsed⟩ := objectLoop_settles (json.length + 1) [] (skipWhitespace s)
        (fun _ => none) (by omega)
      exact ⟨r.2, fun fuel hfuel => congrArg (Option.map Prod.snd) (hparsed fuel hfuel)⟩
    · exact ⟨_, fun _ _ => rfl⟩

end MailStack.Config
