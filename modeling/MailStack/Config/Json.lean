import MailStack.Config.JsonParser
import MailStack.Machinery.Lines

/-!
# Config/Json — JSON objects, and what `Parse` makes of their texts

A text of an object has any whitespace between its tokens, and any of the escapes in its strings.
Whatever the choices, `Parse` returns the leaves under their dotted paths (`parse_document`).  The
loop over an object leaves the cursor behind its brace, which is what the induction over the objects
carries (`objectLoop_prints`).
-/

open Bytes

namespace MailStack.Config

open Imap

/-! ## Objects -/

inductive Leaf
  | string (s : Bytes)
  | number (s : Bytes)
  | true
  | false
  | null

/-- The text of a leaf, without quotes. -/
def Leaf.text : Leaf → Bytes
  | string s => s
  | number s => s
  | true => lit "true"
  | false => lit "false"
  | null => lit "null"

/-- An object, member by member. -/
inductive Tree
  | nil
  | leaf (key : Bytes) (l : Leaf) (rest : Tree)
  | node (key : Bytes) (inner rest : Tree)

/-- The leaves in the order of the text, each with the keys on the way to it. -/
def Tree.leaves : Tree → List (List Bytes × Bytes)
  | nil => []
  | leaf key l rest => ([key], l.text) :: rest.leaves
  | node key inner rest => inner.leaves.map (fun p => (key :: p.1, p.2)) ++ rest.leaves

def dotted (keys : List Bytes) : Bytes := (lit ".").intercalate keys

/-- The leaves by their dotted paths; of several with one path, the last. -/
def Tree.flat (t : Tree) : FlatMap := fun path =>
  (t.leaves.map fun p => (dotted p.1, p.2)).reverse.lookup path

/-! ## Their texts -/

def IsBlank (w : Bytes) : Prop := ∀ c ∈ w, isWhitespace c = true

instance (w : Bytes) : Decidable (IsBlank w) := List.decidableBAll _ w

/-- The letter of an escape, and what it stands for. -/
def escapes : List (UInt8 × UInt8) :=
  [('"'.toUInt8, '"'.toUInt8), ('\\'.toUInt8, '\\'.toUInt8), ('/'.toUInt8, '/'.toUInt8),
    ('n'.toUInt8, '\n'.toUInt8), ('r'.toUInt8, '\r'.toUInt8), ('t'.toUInt8, '\t'.toUInt8)]

/-- A string, and what stands for it between the quotes. -/
inductive PrintsString : Bytes → Bytes → Prop
  | nil : PrintsString [] []
  | plain {c : UInt8} {s t : Bytes} : c ≠ '"'.toUInt8 → c ≠ '\\'.toUInt8 → PrintsString s t →
      PrintsString (c :: s) (c :: t)
  | escape {e c : UInt8} {s t : Bytes} : (e, c) ∈ escapes → PrintsString s t →
      PrintsString (c :: s) ('\\'.toUInt8 :: e :: t)

/-- A string with nothing to escape. -/
theorem PrintsString.self : ∀ {s : Bytes}, '"'.toUInt8 ∉ s → '\\'.toUInt8 ∉ s → PrintsString s s
  | [], _, _ => .nil
  | c :: s, hquote, hback => by
      rw [List.mem_cons, not_or] at hquote hback
      exact .plain (Ne.symm hquote.1) (Ne.symm hback.1) (.self hquote.2 hback.2)

def IsDigits (s : Bytes) : Prop := s ≠ [] ∧ ∀ c ∈ s, isDigit c = true

/-- A sign, digits, a fraction and an exponent. -/
def IsNumber (s : Bytes) : Prop :=
  ∃ sign whole fraction exponent : Bytes, s = sign ++ whole ++ fraction ++ exponent ∧
    sign ∈ [[], lit "-"] ∧ IsDigits whole ∧
    (fraction = [] ∨ ∃ d, IsDigits d ∧ fraction = lit "." ++ d) ∧
    (exponent = [] ∨ ∃ e ∈ [lit "e", lit "E"], ∃ sign ∈ [[], lit "+", lit "-"], ∃ d, IsDigits d ∧
      exponent = e ++ sign ++ d)

inductive PrintsLeaf : Leaf → Bytes → Prop
  | string {s t : Bytes} : PrintsString s t →
      PrintsLeaf (.string s) ('"'.toUInt8 :: (t ++ ['"'.toUInt8]))
  | number {s : Bytes} : IsNumber s → PrintsLeaf (.number s) s
  | true : PrintsLeaf .true (lit "true")
  | false : PrintsLeaf .false (lit "false")
  | null : PrintsLeaf .null (lit "null")

/-- A key, up to its value. -/
inductive PrintsKey : Bytes → Bytes → Prop
  | mk {key t w w' : Bytes} : key ≠ [] → PrintsString key t → IsBlank w → IsBlank w' →
      PrintsKey key ('"'.toUInt8 :: (t ++ '"'.toUInt8 :: (w ++ ':'.toUInt8 :: w')))

/-- What stands before a key: a comma, unless it is the first. -/
inductive Leads : Bool → Bytes → Prop
  | first {w : Bytes} : IsBlank w → Leads true w
  | next {w w' : Bytes} : IsBlank w → IsBlank w' → Leads false (w ++ ','.toUInt8 :: w')

/-- The members of an object and its closing brace. -/
inductive Prints : Bool → Tree → Bytes → Prop
  | close {first : Bool} {w : Bytes} : IsBlank w → Prints first .nil (w ++ ['}'.toUInt8])
  | leaf {first : Bool} {lead key k s u : Bytes} {l : Leaf} {rest : Tree} : Leads first lead →
      PrintsKey key k → PrintsLeaf l s → Prints false rest u →
        Prints first (.leaf key l rest) (lead ++ (k ++ (s ++ u)))
  | node {first : Bool} {lead key k s u : Bytes} {inner rest : Tree} : Leads first lead →
      PrintsKey key k → Prints true inner s → Prints false rest u →
        Prints first (.node key inner rest) (lead ++ (k ++ ('{'.toUInt8 :: (s ++ u))))

/-- A document: an object between whitespace. -/
inductive PrintsDocument : Tree → Bytes → Prop
  | mk {t : Tree} {before text after : Bytes} : IsBlank before → Prints true t text →
      IsBlank after → PrintsDocument t (before ++ ('{'.toUInt8 :: (text ++ after)))

/-! ## The tokens are read -/

/-- Blank text is skipped whole. -/
theorem skipWhitespace_append {w : Bytes} (hw : IsBlank w) (s : Bytes) :
    skipWhitespace (w ++ s) = skipWhitespace s := List.dropWhile_append_of_pos hw

theorem skipWhitespace_cons {c : UInt8} (hc : isWhitespace c = false) (s : Bytes) :
    skipWhitespace (c :: s) = c :: s :=
  List.dropWhile_cons_of_neg (by rw [hc]; exact Bool.false_ne_true)

theorem consume_cons (c : UInt8) (s : Bytes) : consume c (c :: s) = s := if_pos rfl

theorem consume_of_ne {c x : UInt8} (h : x ≠ c) (s : Bytes) : consume c (x :: s) = x :: s :=
  if_neg fun heq => h (Option.some.inj heq)

/-- A string ends at its quote. -/
theorem stringLoop_quote (s : Bytes) : stringLoop ('"'.toUInt8 :: s) = ([], s) := by
  cases s <;> rfl

/-- A plain character stands for itself. -/
theorem stringLoop_plain {c : UInt8} (hquote : c ≠ '"'.toUInt8) (hback : c ≠ '\\'.toUInt8)
    (s : Bytes) : stringLoop (c :: s) = (c :: (stringLoop s).1, (stringLoop s).2) := by
  cases s with
  | nil => exact if_neg hquote
  | cons e s => rw [stringLoop, if_neg hquote, if_neg hback]

/-- An escape stands for one character. -/
theorem stringLoop_escape (e : UInt8) (s : Bytes) : stringLoop ('\\'.toUInt8 :: e :: s) =
    (unescape e :: (stringLoop s).1, (stringLoop s).2) := rfl

theorem unescape_of_mem {e c : UInt8} (h : (e, c) ∈ escapes) : unescape e = c := by
  have key : (escapes.all fun p => unescape p.1 = p.2) = true := by decide
  exact of_decide_eq_true (List.all_eq_true.mp key (e, c) h)

/-- **A string is read up to its closing quote.** -/
theorem stringLoop_prints {s t : Bytes} (h : PrintsString s t) (u : Bytes) :
    stringLoop (t ++ '"'.toUInt8 :: u) = (s, u) := by
  induction h with
  | nil => exact stringLoop_quote u
  | plain hquote hback _ ih => rw [List.cons_append, stringLoop_plain hquote hback, ih]
  | escape he _ ih =>
    rw [List.cons_append, List.cons_append, stringLoop_escape, ih, unescape_of_mem he]

/-- A number is made of the characters a number is read with. -/
theorem isNumberChar_of_isNumber {s : Bytes} (h : IsNumber s) :
    ∀ c ∈ s, isNumberChar c = true := by
  have hdigits : ∀ {d : Bytes}, IsDigits d → ∀ c ∈ d, isNumberChar c = true := fun hd c hc => by
    simp [isNumberChar, hd.2 c hc]
  let marks := [[], lit "-"] ++ ([[], lit "+", lit "-"] ++ [lit "e", lit "E"])
  have hmarks : marks.all (·.all isNumberChar) = true := by decide
  have hmark : ∀ m ∈ marks, ∀ c ∈ m, isNumberChar c = true := fun m hm =>
    List.all_eq_true.mp (List.all_eq_true.mp hmarks m hm)
  obtain ⟨sign, whole, fraction, exponent, rfl, hsign, hwhole, hfraction, hexponent⟩ := h
  have hfraction : ∀ c ∈ fraction, isNumberChar c = true := by
    rcases hfraction with rfl | ⟨d, hd, rfl⟩
    · exact fun c hc => absurd hc List.not_mem_nil
    · exact List.forall_mem_cons.mpr ⟨by decide, hdigits hd⟩
  have hexponent : ∀ c ∈ exponent, isNumberChar c = true := by
    rcases hexponent with rfl | ⟨e, he, sign, hs, d, hd, rfl⟩
    · exact fun c hc => absurd hc List.not_mem_nil
    · have hletter := hmark e (List.mem_append_right _ (List.mem_append_right _ he))
      have hsign := hmark sign (List.mem_append_right _ (List.mem_append_left _ hs))
      exact List.forall_mem_append.mpr
        ⟨List.forall_mem_append.mpr ⟨hletter, hsign⟩, hdigits hd⟩
  have hsign := hmark sign (List.mem_append_left _ hsign)
  exact List.forall_mem_append.mpr ⟨List.forall_mem_append.mpr ⟨List.forall_mem_append.mpr
    ⟨hsign, hdigits hwhole⟩, hfraction⟩, hexponent⟩

/-- A number starts with a sign or a digit. -/
theorem exists_of_isNumber {s : Bytes} (h : IsNumber s) :
    ∃ c t, s = c :: t ∧ (c = '-'.toUInt8 || isDigit c) = true := by
  obtain ⟨sign, whole, fraction, exponent, rfl, hsign, ⟨hne, hwhole⟩, -, -⟩ := h
  obtain ⟨c, whole, rfl⟩ := List.exists_cons_of_ne_nil hne
  simp only [List.mem_cons, List.not_mem_nil, or_false] at hsign
  rcases hsign with rfl | rfl
  · exact ⟨c, _, rfl, by simp [hwhole]⟩
  · exact ⟨'-'.toUInt8, _, rfl, by simp⟩

/-- **A number is read up to what cannot go on with it.** -/
theorem parseNumber_append {s u : Bytes} (h : IsNumber s)
    (hu : ∀ c ∈ u.head?, isNumberChar c = false) : parseNumber (s ++ u) = (s, u) := by
  have hs := isNumberChar_of_isNumber h
  have hstop : u.dropWhile isNumberChar = u := (takeWhile_dropWhile_stop hu).2
  have hrest : (consume '-'.toUInt8 (s ++ u)).dropWhile isNumberChar = u := by
    obtain ⟨c, t, rfl, -⟩ := exists_of_isNumber h
    rw [consume]
    split_ifs
    · rw [List.cons_append, List.drop_one, List.tail_cons,
        List.dropWhile_append_of_pos fun x hx => hs x (List.mem_cons_of_mem c hx), hstop]
    · rw [List.dropWhile_append_of_pos hs, hstop]
  rw [parseNumber, hrest, List.length_append, Nat.add_sub_cancel, List.take_left]

/-- One of the three words is read whatever follows. -/
theorem parseLiteral_append {word : Bytes} (h : word ∈ literals) (u : Bytes) :
    parseLiteral (word ++ u) = (word, u) := by
  have key : ∀ word ∈ literals, ∀ u : Bytes,
      literals.find? (·.isPrefixOf (word ++ u)) = some word := by
    simp only [literals, List.forall_mem_cons]
    exact ⟨fun _ => rfl, fun _ => rfl, fun _ => rfl, fun _ h => absurd h List.not_mem_nil⟩
  rw [parseLiteral, key word h u]
  exact congrArg (Prod.mk word) List.drop_left

/-! ## A value -/

section Value

variable {object : Bytes → Bytes → FlatMap → Parsed} {key s u : Bytes} {out : FlatMap}

/-- Blank text before a value is skipped. -/
theorem parseValue_blank {w : Bytes} (hw : IsBlank w) :
    parseValue object key (w ++ s) out = parseValue object key s out := by
  rw [parseValue, parseValue, skipWhitespace_append hw]

/-- A brace opens an object. -/
theorem parseValue_node : parseValue object key ('{'.toUInt8 :: s) out = object key s out := rfl

/-- What starts a number starts no other token. -/
theorem not_token_of_number {c : UInt8} (h : (c = '-'.toUInt8 || isDigit c) = true) :
    isWhitespace c = false ∧ c ≠ '{'.toUInt8 ∧ c ≠ '"'.toUInt8 := by
  rcases Bool.or_eq_true_iff.mp h with h | h
  · rw [of_decide_eq_true h]
    decide
  · have hne : ∀ x : UInt8, isDigit x = false → c ≠ x := fun x => isDigit_ne h
    refine ⟨?_, hne _ (by decide), hne _ (by decide)⟩
    rw [isWhitespace, decide_eq_false (hne _ (by decide)), decide_eq_false (hne _ (by decide)),
      decide_eq_false (hne _ (by decide)), decide_eq_false (hne _ (by decide))]
    rfl

/-- A word is stored as it is written. -/
theorem parseValue_word {word : Bytes} (h : word ∈ literals) :
    parseValue object key (word ++ u) out = some (u, out.set key word) := by
  have hparsed := parseLiteral_append h u
  have hletter : ∀ word ∈ literals, ∃ c t, word = c :: t ∧ isWhitespace c = false ∧
      c ≠ '{'.toUInt8 ∧ c ≠ '"'.toUInt8 ∧ (c = '-'.toUInt8 || isDigit c) ≠ true := by
    simp only [literals, List.forall_mem_cons]
    exact ⟨⟨_, _, rfl, by decide⟩, ⟨_, _, rfl, by decide⟩, ⟨_, _, rfl, by decide⟩,
      fun _ h => absurd h List.not_mem_nil⟩
  obtain ⟨c, t, rfl, hspace, hbrace, hquote, hnumber⟩ := hletter word h
  rw [List.cons_append] at hparsed ⊢
  rw [parseValue, skipWhitespace_cons hspace]
  dsimp only
  rw [if_neg hbrace, if_neg hquote, if_neg hnumber, hparsed]

/-- **A leaf is stored as its text.** -/
theorem parseValue_leaf {l : Leaf} (h : PrintsLeaf l s)
    (hu : ∀ c ∈ u.head?, isNumberChar c = false) :
    parseValue object key (s ++ u) out = some (u, out.set key l.text) := by
  cases h with
  | @string s t h =>
    have hstring : parseString ('"'.toUInt8 :: (t ++ ['"'.toUInt8] ++ u)) = (s, u) := by
      rw [List.append_assoc]
      exact stringLoop_prints h u
    rw [List.cons_append, parseValue, skipWhitespace_cons (by decide)]
    dsimp only
    rw [if_neg (by decide), if_pos rfl, hstring]
    rfl
  | number h =>
    obtain ⟨c, t, rfl, hc⟩ := exists_of_isNumber h
    obtain ⟨hspace, hbrace, hquote⟩ := not_token_of_number hc
    have hnumber := parseNumber_append h hu
    rw [List.cons_append] at hnumber ⊢
    rw [parseValue, skipWhitespace_cons hspace]
    dsimp only
    rw [if_neg hbrace, if_neg hquote, if_pos hc, hnumber]
    rfl
  | true => exact parseValue_word (by decide)
  | false => exact parseValue_word (by decide)
  | null => exact parseValue_word (by decide)

end Value

/-! ## An object -/

/-- The cursor before a member: the comma of the last one is behind it. -/
def resume (first : Bool) (s : Bytes) : Bytes :=
  if first then skipWhitespace s else consume ','.toUInt8 (skipWhitespace s)

/-- Whitespace goes, and what follows stays. -/
theorem resume_append {first : Bool} {w : Bytes} (hw : IsBlank w) {c : UInt8}
    (hspace : isWhitespace c = false) (hcomma : c ≠ ','.toUInt8) (s : Bytes) :
    resume first (w ++ c :: s) = c :: s := by
  have hskip : skipWhitespace (w ++ c :: s) = c :: s := by
    rw [skipWhitespace_append hw, skipWhitespace_cons hspace]
  cases first with
  | true => exact hskip
  | false => exact (congrArg (consume ','.toUInt8) hskip).trans (consume_of_ne hcomma s)

/-- The cursor comes to the key, or to whitespace before it. -/
theorem Leads.exists_resume {first : Bool} {lead key k : Bytes} (h : Leads first lead)
    (hk : PrintsKey key k) (s : Bytes) :
    ∃ w, IsBlank w ∧ resume first (lead ++ (k ++ s)) = w ++ (k ++ s) := by
  cases h with
  | first hw =>
    cases hk
    exact ⟨[], by decide, resume_append hw (by decide) (by decide) _⟩
  | @next w w' hw hw' =>
    have hskip : skipWhitespace (w ++ ','.toUInt8 :: w' ++ (k ++ s)) =
        ','.toUInt8 :: (w' ++ (k ++ s)) := by
      rw [List.append_assoc, skipWhitespace_append hw, List.cons_append,
        skipWhitespace_cons (by decide)]
    exact ⟨w', hw', (congrArg (consume ','.toUInt8) hskip).trans (consume_cons _ _)⟩

theorem PrintsKey.length_pos {key k : Bytes} (h : PrintsKey key k) : 0 < k.length := by
  cases h
  exact Nat.succ_pos _

theorem PrintsKey.ne_nil {key k : Bytes} (h : PrintsKey key k) : key ≠ [] := by
  cases h
  assumption

/-- A number does not go on behind a member. -/
theorem isNumberChar_head {w : Bytes} (hw : IsBlank w) {c : UInt8} (hc : isNumberChar c = false)
    (s : Bytes) : ∀ x ∈ (w ++ c :: s).head?, isNumberChar x = false := by
  intro x hx
  cases w with
  | nil => exact Option.some.inj hx ▸ hc
  | cons y w =>
    obtain rfl : y = x := Option.some.inj hx
    have hspace := hw y List.mem_cons_self
    simp only [isWhitespace, Bool.or_eq_true, decide_eq_true_eq] at hspace
    rcases hspace with ((rfl | rfl) | rfl) | rfl <;> decide

/-- What follows a value does not prolong a number. -/
theorem Prints.head {t : Tree} {text : Bytes} (h : Prints false t text) (tail : Bytes) :
    ∀ c ∈ (text ++ tail).head?, isNumberChar c = false := by
  have hlead : ∀ {lead : Bytes}, Leads false lead → ∀ s : Bytes,
      ∀ c ∈ (lead ++ s ++ tail).head?, isNumberChar c = false := by
    intro lead hlead s
    cases hlead with
    | next hw _ =>
      rw [List.append_assoc, List.append_assoc, List.cons_append]
      exact isNumberChar_head hw (by decide) _
  cases h with
  | close hw =>
    rw [List.append_assoc]
    exact isNumberChar_head hw (by decide) tail
  | leaf hl _ _ _ => exact hlead hl _
  | node hl _ _ _ => exact hlead hl _

/-- **One iteration**: the key is read, its value, and what is left from behind the comma. -/
theorem objectLoop_member {fuel : ℕ} {path w key k : Bytes} (hw : IsBlank w) (hk : PrintsKey key k)
    (s : Bytes) (out : FlatMap) : objectLoop (fuel + 1) path (w ++ (k ++ s)) out =
      (parseValue (parseObject fuel) (fullKey path key) s out).bind fun r =>
        objectLoop fuel path (resume false r.1) r.2 := by
  cases hk with
  | @mk t v v' _ ht hv hv' =>
    let rest := v ++ ':'.toUInt8 :: (v' ++ s)
    have htext : '"'.toUInt8 :: (t ++ '"'.toUInt8 :: (v ++ ':'.toUInt8 :: v')) ++ s =
        '"'.toUInt8 :: (t ++ '"'.toUInt8 :: rest) := by
      simp only [rest, List.cons_append, List.append_assoc]
    have hhead : (w ++ '"'.toUInt8 :: (t ++ '"'.toUInt8 :: rest)).head? ∉
        [none, some '}'.toUInt8] := by
      cases w with
      | nil => exact (by decide : some '"'.toUInt8 ∉ [none, some '}'.toUInt8])
      | cons c w =>
        have hc := hw c List.mem_cons_self
        have hne : c ≠ '}'.toUInt8 := by
          rintro rfl
          exact absurd hc (by decide)
        simp [hne]
    have hskip : skipWhitespace (w ++ '"'.toUInt8 :: (t ++ '"'.toUInt8 :: rest)) =
        '"'.toUInt8 :: (t ++ '"'.toUInt8 :: rest) := by
      rw [skipWhitespace_append hw, skipWhitespace_cons (by decide)]
    have hstring : parseString ('"'.toUInt8 :: (t ++ '"'.toUInt8 :: rest)) = (key, rest) :=
      stringLoop_prints ht rest
    have hcolon : consume ':'.toUInt8 (skipWhitespace rest) = v' ++ s := by
      rw [skipWhitespace_append hv, skipWhitespace_cons (by decide), consume_cons]
    rw [htext, objectLoop, if_neg hhead, hskip]
    dsimp only
    rw [if_neg (fun h => h rfl), hstring]
    dsimp only
    rw [hcolon, parseValue_blank hv']
    rfl

/-! ## The paths -/

/-- A key below others is joined to them with a dot. -/
theorem dotted_concat {keys : List Bytes} (hne : keys ≠ []) (key : Bytes) :
    dotted (keys ++ [key]) = dotted keys ++ lit "." ++ key := by
  rw [dotted, dotted, intercalate_concat hne]

/-- The key of a member, behind the path of its object. -/
theorem fullKey_dotted {keys : List Bytes} (hkeys : ∀ k ∈ keys, k ≠ []) (key : Bytes) :
    fullKey (dotted keys) key = dotted (keys ++ [key]) := by
  rcases eq_or_ne keys [] with rfl | hne
  · rw [List.nil_append, dotted, dotted, List.intercalate_nil, List.intercalate_singleton]
    exact if_pos rfl
  · have hpath : dotted keys ≠ [] := by
      obtain ⟨k, keys, rfl⟩ := List.exists_cons_of_ne_nil hne
      rw [dotted, intercalate_eq_flatMap]
      exact List.append_ne_nil_of_left_ne_nil (hkeys k List.mem_cons_self) _
    rw [fullKey, if_neg hpath, dotted_concat hne]

/-- The map with the leaves of an object, which stands behind these keys. -/
def Tree.write (t : Tree) (keys : List Bytes) (out : FlatMap) : FlatMap :=
  t.leaves.foldl (fun out p => out.set (dotted (keys ++ p.1)) p.2) out

/-- A leaf is stored under its path. -/
theorem Tree.write_leaf (key : Bytes) (l : Leaf) (rest : Tree) (keys : List Bytes) (out : FlatMap) :
    (Tree.leaf key l rest).write keys out =
      rest.write keys (out.set (dotted (keys ++ [key])) l.text) := rfl

/-- An object is stored with its key added to the path. -/
theorem Tree.write_node (key : Bytes) (inner rest : Tree) (keys : List Bytes) (out : FlatMap) :
    (Tree.node key inner rest).write keys out =
      rest.write keys (inner.write (keys ++ [key]) out) := by
  rw [write, leaves, List.foldl_append, List.foldl_map]
  simp only [write, List.append_assoc, List.singleton_append]

/-- **Of the values stored under a key, the last is found.** -/
theorem foldl_set (l : List (Bytes × Bytes)) (out : FlatMap) : ∀ key,
    l.foldl (fun out p => out.set p.1 p.2) out key = (l.reverse.lookup key).or (out key) := by
  intro key
  induction l using List.reverseRecOn with
  | nil => rfl
  | append_singleton l p ih =>
    rw [List.foldl_append, List.foldl_cons, List.foldl_nil, List.reverse_concat, FlatMap.set,
      Function.update_apply, List.lookup_cons]
    by_cases h : key = p.1
    · rw [if_pos h, h]
      simp
    · rw [if_neg h, ih, beq_false_of_ne h]

/-- Written from the top, a tree is its flat map. -/
theorem Tree.write_nil (t : Tree) : t.write [] (fun _ => none) = t.flat := by
  funext path
  have hfold := foldl_set (t.leaves.map fun p => (dotted p.1, p.2)) (fun _ => none) path
  rw [List.foldl_map, Option.or_none] at hfold
  exact hfold

/-! ## The whole text -/

/-- **An object is read up to behind its brace**, and its leaves are stored. -/
theorem objectLoop_prints {first : Bool} {t : Tree} {text : Bytes} (h : Prints first t text) :
    ∀ {keys : List Bytes} (out : FlatMap) (tail : Bytes) {fuel : ℕ}, (∀ k ∈ keys, k ≠ []) →
      text.length < fuel → objectLoop fuel (dotted keys) (resume first (text ++ tail)) out =
        some (tail, t.write keys out) := by
  induction h with
  | @close first w hw =>
    intro keys out tail fuel _ hfuel
    obtain ⟨fuel, rfl⟩ := Nat.exists_eq_succ_of_ne_zero (Nat.ne_zero_of_lt hfuel)
    rw [List.append_assoc, List.singleton_append, resume_append hw (by decide) (by decide)]
    rfl
  | @leaf first lead key k s u l rest hlead hkey hs hu ih =>
    intro keys out tail fuel hkeys hfuel
    obtain ⟨fuel, rfl⟩ := Nat.exists_eq_succ_of_ne_zero (Nat.ne_zero_of_lt hfuel)
    have hu' : u.length < fuel := by
      have := hkey.length_pos
      simp only [List.length_append] at hfuel
      omega
    obtain ⟨w, hw, hresume⟩ := hlead.exists_resume hkey (s ++ (u ++ tail))
    have htext : lead ++ (k ++ (s ++ u)) ++ tail = lead ++ (k ++ (s ++ (u ++ tail))) := by
      simp only [List.append_assoc]
    rw [htext, hresume, objectLoop_member hw hkey, parseValue_leaf hs (hu.head tail),
      fullKey_dotted hkeys, Tree.write_leaf]
    exact ih _ tail hkeys hu'
  | @node first lead key k s u inner rest hlead hkey hs hu ihs ihu =>
    intro keys out tail fuel hkeys hfuel
    obtain ⟨fuel, rfl⟩ := Nat.exists_eq_succ_of_ne_zero (Nat.ne_zero_of_lt hfuel)
    have hlength : s.length < fuel ∧ u.length < fuel := by
      have := hkey.length_pos
      simp only [List.length_append, List.length_cons] at hfuel
      omega
    have hkeys' : ∀ k ∈ keys ++ [key], k ≠ [] :=
      List.forall_mem_append.mpr ⟨hkeys, List.forall_mem_singleton.mpr hkey.ne_nil⟩
    obtain ⟨w, hw, hresume⟩ := hlead.exists_resume hkey ('{'.toUInt8 :: (s ++ (u ++ tail)))
    have htext : lead ++ (k ++ ('{'.toUInt8 :: (s ++ u))) ++ tail =
        lead ++ (k ++ ('{'.toUInt8 :: (s ++ (u ++ tail)))) := by
      simp only [List.append_assoc, List.cons_append]
    have hinner := ihs out (u ++ tail) hkeys' hlength.1
    rw [htext, hresume, objectLoop_member hw hkey, parseValue_node, fullKey_dotted hkeys,
      Tree.write_node, parseObject, show skipWhitespace (s ++ (u ++ tail)) =
        resume true (s ++ (u ++ tail)) from rfl, hinner]
    exact ihu _ tail hkeys hlength.2

/-- **The map has the leaves of the document.** -/
theorem parse_prints {t : Tree} {text : Bytes} (h : PrintsDocument t text) {fuel : ℕ}
    (hfuel : text.length < fuel) : parse fuel text = some t.flat := by
  cases h with
  | @mk before text after hbefore h hafter =>
    have hlength : text.length < fuel := by
      simp only [List.length_append, List.length_cons] at hfuel
      omega
    have hobject := @objectLoop_prints true t text h [] (fun _ => none) after fuel (by simp) hlength
    rw [t.write_nil, dotted, List.intercalate_nil] at hobject
    rw [parse, skipWhitespace_append hbefore, skipWhitespace_cons (by decide)]
    exact congrArg (Option.map Prod.snd) hobject

/-- **A document is read as it is meant, and every text is read to an end.** -/
theorem parse_document {t : Tree} {text : Bytes} (h : PrintsDocument t text) (json : Bytes) :
    (∀ fuel, text.length < fuel → parse fuel text = some t.flat) ∧
      ∃ m, ∀ fuel, json.length < fuel → parse fuel json = some m :=
  ⟨fun _ hfuel => parse_prints h hfuel, parse_settles json⟩

/-- Two members of one path, the first nested, with an escape and a number. -/
def sample : Tree := .node (lit "a") (.leaf (lit "b") (.string (lit "\n")) .nil)
  (.leaf (lit "a.b") (.number (lit "-1e3")) .nil)

theorem parse_document_sample :
    (∀ fuel, (lit " \x7b\"a\": \x7b\"b\":\"\\n\"\x7d , \"a.b\":-1e3\x7d").length < fuel →
      parse fuel (lit " \x7b\"a\": \x7b\"b\":\"\\n\"\x7d , \"a.b\":-1e3\x7d") =
        some sample.flat) ∧
    ∃ m, ∀ fuel, (lit "\x7b[").length < fuel → parse fuel (lit "\x7b[") = some m := by
  have hkey : ∀ {key w : Bytes}, key ≠ [] → '"'.toUInt8 ∉ key → '\\'.toUInt8 ∉ key → IsBlank w →
      PrintsKey key ('"'.toUInt8 :: (key ++ '"'.toUInt8 :: ([] ++ ':'.toUInt8 :: w))) :=
    fun hne hquote hback hw => .mk hne (.self hquote hback) (by decide) hw
  have hend : ∀ first, Prints first .nil (lit "\x7d") := fun first =>
    @Prints.close first [] (by decide)
  have hinner : Prints true (.leaf (lit "b") (.string (lit "\n")) .nil)
      (lit "\"b\":\"\\n\"\x7d") :=
    @Prints.leaf true [] _ (lit "\"b\":") (lit "\"\\n\"") (lit "\x7d") _ _ (.first (by decide))
      (@hkey (lit "b") [] (by decide) (by decide) (by decide) (by decide))
      (@PrintsLeaf.string _ (lit "\\n") (.escape (by decide) .nil)) (hend false)
  have hnumber : IsNumber (lit "-1e3") :=
    ⟨lit "-", lit "1", [], lit "e3", rfl, by decide, ⟨by decide, List.all_eq_true.mp rfl⟩, .inl rfl,
      .inr ⟨lit "e", by decide, [], by decide, lit "3", ⟨by decide, List.all_eq_true.mp rfl⟩, rfl⟩⟩
  have hrest : Prints false (.leaf (lit "a.b") (.number (lit "-1e3")) .nil)
      (lit " , \"a.b\":-1e3\x7d") :=
    @Prints.leaf false (lit " , ") _ (lit "\"a.b\":") (lit "-1e3") (lit "\x7d") _ _
      (@Leads.next (lit " ") (lit " ") (by decide) (by decide))
      (@hkey (lit "a.b") [] (by decide) (by decide) (by decide) (by decide)) (.number hnumber)
      (hend false)
  have htext : Prints true sample
      (lit "\"a\": \x7b\"b\":\"\\n\"\x7d , \"a.b\":-1e3\x7d") :=
    @Prints.node true [] _ (lit "\"a\": ") _ _ _ _ (.first (by decide))
      (@hkey (lit "a") (lit " ") (by decide) (by decide) (by decide) (by decide)) hinner hrest
  exact parse_document (@PrintsDocument.mk _ (lit " ") _ [] (by decide) htext (by decide))
    (lit "\x7b[")

end MailStack.Config
