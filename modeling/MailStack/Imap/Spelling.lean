import MailStack.Imap.BodySection
import MailStack.Imap.FetchLine
import MailStack.Imap.Items

/-!
# Imap/Spelling — a data item of `FETCH` with and without parentheses

`FETCH k X` and `FETCH k (X)` come to the same items where `X` is one word.  A section that names
header fields has spaces: without parentheses the names become an argument of their own, which the
branch for `BODY[HEADER.FIELDS]` reads; inside parentheses they stay in the item, the item is none
of the two spellings that branch compares with, and `GetBodySection` returns all the headers.
`spellings_agree_iff` says when that is the same.
-/

open Bytes

namespace MailStack.Imap

open Store Prog ImapResponse

/-! ## Data items -/

/-- A byte of a data item: no white space, and nothing that stops an atom. -/
def isItemChar (c : UInt8) : Bool := !stopsAtom c && !isSpace c

/-- One that is no bracket either. -/
def isFieldChar (c : UInt8) : Bool := isItemChar c && c ≠ '['.toUInt8 && c ≠ ']'.toUInt8

/-- `BODY[HEADER.FIELDS (f1 ... fn)]`: the keyword and the specifier as they are typed, the names,
and what may follow the section, such as `<0.10>`. -/
structure FieldsItem where
  peek : Bool
  keyword : Bytes
  specifier : Bytes
  names : List Bytes
  suffix : Bytes
  keyword_eq : toUpper keyword = if peek then lit "BODY.PEEK" else lit "BODY"
  prefix_specifier : lit "HEADER.FIELDS" <+: toUpper specifier
  chars : ∀ c ∈ keyword ++ specifier ++ suffix, isFieldChar c = true
  name_chars : ∀ f ∈ names, f ≠ [] ∧ ∀ c ∈ f, isFieldChar c = true

/-- A data item: one word, or a section that names header fields. -/
inductive DataItem
  | word (w : Bytes) (h : w ≠ [] ∧ ∀ c ∈ w, isItemChar c = true)
  | fields (x : FieldsItem)

namespace FieldsItem

variable (x : FieldsItem)

/-- What the section starts with, in upper case. -/
def start : Bytes := if x.peek then lit "BODY.PEEK[" else lit "BODY["

/-- The names in parentheses. -/
def nameList : Bytes := lit "(" ++ joinWords x.names ++ lit ")"

def text : Bytes :=
  x.keyword ++ lit "[" ++ x.specifier ++ lit " " ++ x.nameList ++ lit "]" ++ x.suffix

/-- The lines of the requested fields that the headers have. -/
def present (headers : Bytes) : Bytes :=
  x.names.flatMap fun f =>
    let v := Mime.getHeaderValue headers (f ++ lit ":")
    if v = [] then [] else f ++ lit ": " ++ v ++ lit "\r\n"

end FieldsItem

def DataItem.text : DataItem → Bytes
  | .word w _ => w
  | .fields x => x.text

/-- `FETCH` of one item. -/
def fetchText (tag : Bytes) (k : ℤ) (item : Bytes) : Bytes :=
  tag ++ lit " FETCH " ++ decimal k ++ lit " " ++ item

/-! ## The lines, parsed -/

theorem isItemChar_iff {c : UInt8} :
    isItemChar c = true ↔ stopsAtom c = false ∧ isSpace c = false := by
  simp [isItemChar]

theorem isFieldChar_iff {c : UInt8} :
    isFieldChar c = true ↔ isItemChar c = true ∧ c ≠ '['.toUInt8 ∧ c ≠ ']'.toUInt8 := by
  simp [isFieldChar, and_assoc]

theorem ne_of_isItemChar {c : UInt8} (h : isItemChar c = true) :
    c ≠ '('.toUInt8 ∧ c ≠ ')'.toUInt8 ∧ c ≠ '"'.toUInt8 := by
  have hstop := (isItemChar_iff.mp h).1
  simp only [stopsAtom, Bool.or_eq_false_iff, decide_eq_false_iff_not] at hstop
  exact ⟨hstop.1.1.1.2, hstop.1.1.2, hstop.1.2⟩

/-- A number in digits is one word. -/
theorem stopsAtom_decimal {k : ℤ} {c : UInt8} (h : c ∈ decimal k) : stopsAtom c = false := by
  simp only [stopsAtom, Bool.or_eq_false_iff, decide_eq_false_iff_not]
  have hne : ∀ x : UInt8, isDigit x = false → x ≠ '-'.toUInt8 → c ≠ x := by
    rintro x hx hminus rfl
    exact notMem_decimal k hx hminus h
  exact ⟨⟨⟨⟨hne _ (by decide) (by decide), hne _ (by decide) (by decide)⟩,
    hne _ (by decide) (by decide)⟩, hne _ (by decide) (by decide)⟩, hne _ (by decide) (by decide)⟩

section Parsed

variable {tag rest : Bytes} {k : ℤ} {n : ℕ} {args : List Bytes}

/-- The `FETCH` of one message is read up to its items. -/
theorem parses_fetchText (htag : ' '.toUInt8 ∉ tag)
    (h : parseArgs n (decimal k ++ ' '.toUInt8 :: rest) [] = some args) :
    Parses (fetchText tag k rest) { tag, type := .fetch, args } := by
  have hline : fetchText tag k rest =
      tag ++ ' '.toUInt8 :: (lit "FETCH" ++ ' '.toUInt8 :: (decimal k ++ ' '.toUInt8 :: rest)) := by
    simp only [fetchText, List.append_assoc]
    rfl
  have hne : fetchText tag k rest ≠ [] := by
    rw [hline]
    exact List.append_ne_nil_of_right_ne_nil _ (List.cons_ne_nil _ _)
  have hsplit : splitCommand (lit "FETCH" ++ ' '.toUInt8 :: (decimal k ++ ' '.toUInt8 :: rest)) =
      (lit "FETCH", decimal k ++ ' '.toUInt8 :: rest) := by
    rw [splitCommand, cut_eq_some_iff.mpr ⟨rfl, by decide⟩, Option.getD_some]
  refine ⟨n, ?_⟩
  rw [parse, if_neg hne, hline, cut_eq_some_iff.mpr ⟨rfl, htag⟩]
  dsimp only
  have huid : toUpper (lit "FETCH") ≠ lit "UID" := by decide
  rw [hsplit, if_neg huid, parseArguments, h]
  rfl

/-- The number is the first argument. -/
theorem parseArgs_decimal {c : UInt8} (hc : c ≠ ' '.toUInt8) :
    parseArgs (n + 1) (decimal k ++ ' '.toUInt8 :: c :: rest) [] =
      parseArgs n (c :: rest) [decimal k] := by
  have hskip : skipWhitespace (c :: rest) = c :: rest := by
    rw [skipWhitespace, List.dropWhile_cons_of_neg (by simpa using hc)]
  rw [parseArgs_atom_space (decimal_ne_nil k) fun c hc => stopsAtom_decimal hc, List.nil_append,
    hskip]

/-- A word is its own list of items. -/
theorem parses_word {w : Bytes} (htag : ' '.toUInt8 ∉ tag)
    (hw : w ≠ [] ∧ ∀ c ∈ w, isItemChar c = true) :
    Parses (fetchText tag k w) { tag, type := .fetch, args := [decimal k, w] } ∧
    Parses (fetchText tag k (lit "(" ++ w ++ lit ")"))
      { tag, type := .fetch, args := [decimal k, lit "(" ++ w ++ lit ")"] } := by
  obtain ⟨hne, hchars⟩ := hw
  have hstop : ∀ c ∈ w, stopsAtom c = false := fun c hc => (isItemChar_iff.mp (hchars c hc)).1
  constructor
  · refine parses_fetchText (n := 2) htag ?_
    have hatom : parseArgs 1 w [decimal k] = some [decimal k, w] := parseArgs_atom_end hne hstop
    obtain ⟨c, t, rfl⟩ := List.exists_cons_of_ne_nil hne
    have hc : c ≠ ' '.toUInt8 := by
      rintro rfl
      exact absurd (hstop _ List.mem_cons_self) (by decide)
    rw [parseArgs_decimal hc, hatom]
  · refine parses_fetchText (n := 2) htag ?_
    have hlist := parseListLoop_word w .plain (fun _ h => nomatch h)
      fun c hc => ne_of_isItemChar (hchars c hc)
    have hparen : lit "(" ++ w ++ lit ")" = '('.toUInt8 :: (w ++ lit ")") := rfl
    rw [hparen, parseArgs_decimal (by decide), parseArgs_list hlist (Nat.zero_le _)]
    rfl

end Parsed

namespace FieldsItem

variable (x : FieldsItem)

/-- The word that the section starts with. -/
def head : Bytes := x.keyword ++ lit "[" ++ x.specifier

theorem isFieldChar_keyword {c : UInt8} (h : c ∈ x.keyword) : isFieldChar c = true :=
  x.chars c (by simp [h])

theorem isFieldChar_specifier {c : UInt8} (h : c ∈ x.specifier) : isFieldChar c = true :=
  x.chars c (by simp [h])

theorem isFieldChar_suffix {c : UInt8} (h : c ∈ x.suffix) : isFieldChar c = true :=
  x.chars c (by simp [h])

theorem keyword_ne_nil : x.keyword ≠ [] := by
  intro h
  have hkeyword := x.keyword_eq
  rw [h] at hkeyword
  split_ifs at hkeyword <;> exact nomatch hkeyword

theorem head_ne_nil : x.head ≠ [] := by simp [head, x.keyword_ne_nil]

theorem isItemChar_head {c : UInt8} (h : c ∈ x.head) : isItemChar c = true := by
  rw [head, List.mem_append, List.mem_append] at h
  rcases h with (h | h) | h
  · exact (isFieldChar_iff.mp (x.isFieldChar_keyword h)).1
  · rw [List.mem_singleton.mp h]
    decide
  · exact (isFieldChar_iff.mp (x.isFieldChar_specifier h)).1

/-- Between the names there is nothing but spaces. -/
theorem mem_names {c : UInt8} (h : c ∈ joinWords x.names) :
    c = ' '.toUInt8 ∨ isFieldChar c = true :=
  (mem_joinWords h).imp_right fun ⟨f, hf, hc⟩ => (x.name_chars f hf).2 c hc

/-- A list of header fields has two words: the space inside makes the cut. -/
theorem text_eq : x.text = x.head ++ ' '.toUInt8 :: (x.nameList ++ (lit "]" ++ x.suffix)) := by
  simp [text, head, lit]

section Parsed

variable {tag : Bytes} {k : ℤ}

/-- Without parentheses the names are an argument of their own. -/
theorem parses_text (htag : ' '.toUInt8 ∉ tag) :
    Parses (fetchText tag k x.text)
      { tag, type := .fetch, args := [decimal k, x.head, x.nameList, lit "]" ++ x.suffix] } := by
  have hhead : ∀ c ∈ x.head, stopsAtom c = false :=
    fun c hc => (isItemChar_iff.mp (x.isItemChar_head hc)).1
  have hplain : ∀ c ∈ joinWords x.names,
      c ≠ '('.toUInt8 ∧ c ≠ ')'.toUInt8 ∧ c ≠ '['.toUInt8 ∧ c ≠ '"'.toUInt8 := by
    intro c hc
    rcases x.mem_names hc with rfl | hc
    · decide
    · obtain ⟨hitem, hopen, -⟩ := isFieldChar_iff.mp hc
      exact ⟨(ne_of_isItemChar hitem).1, (ne_of_isItemChar hitem).2.1, hopen,
        (ne_of_isItemChar hitem).2.2⟩
  have hlist : parseListLoop .plain 1 (joinWords x.names ++ ')'.toUInt8 :: (lit "]" ++ x.suffix)) =
      (joinWords x.names ++ lit ")", lit "]" ++ x.suffix) := by
    rw [parseListLoop_plain _ _ hplain]
    rfl
  have hlast : parseArgs 1 (lit "]" ++ x.suffix) [decimal k, x.head, x.nameList] =
      some [decimal k, x.head, x.nameList, lit "]" ++ x.suffix] := by
    have hstop : ∀ c ∈ lit "]" ++ x.suffix, stopsAtom c = false := by
      intro c hc
      rcases List.mem_append.mp hc with hc | hc
      · rw [List.mem_singleton.mp hc]
        decide
      · exact (isItemChar_iff.mp (isFieldChar_iff.mp (x.isFieldChar_suffix hc)).1).1
    exact parseArgs_atom_end (List.cons_ne_nil _ _) hstop
  have hnames : x.nameList ++ (lit "]" ++ x.suffix) =
      '('.toUInt8 :: (joinWords x.names ++ ')'.toUInt8 :: (lit "]" ++ x.suffix)) := by
    simp [nameList, lit]
  obtain ⟨c, t, hct⟩ := List.exists_cons_of_ne_nil x.head_ne_nil
  have hc : c ≠ ' '.toUInt8 := by
    rintro rfl
    exact absurd (hhead _ (hct ▸ List.mem_cons_self)) (by decide)
  have htext : x.text = c :: (t ++ ' '.toUInt8 :: (x.nameList ++ (lit "]" ++ x.suffix))) := by
    rw [text_eq, hct, List.cons_append]
  refine parses_fetchText (n := 4) htag ?_
  have hskip : ∀ s, skipWhitespace ('('.toUInt8 :: s) = '('.toUInt8 :: s := fun _ => rfl
  have hle : (lit "]" ++ x.suffix).length ≤
      (joinWords x.names ++ ')'.toUInt8 :: (lit "]" ++ x.suffix)).length := by
    simp only [List.length_append, List.length_cons]
    omega
  rw [htext, parseArgs_decimal hc, ← htext, text_eq, parseArgs_atom_space x.head_ne_nil hhead,
    hnames, hskip, parseArgs_list hlist hle]
  exact hlast

/-- In parentheses it is one argument. -/
theorem parses_paren (htag : ' '.toUInt8 ∉ tag) :
    Parses (fetchText tag k (lit "(" ++ x.text ++ lit ")"))
      { tag, type := .fetch, args := [decimal k, lit "(" ++ x.text ++ lit ")"] } := by
  have hplain : ∀ {s : Bytes}, (∀ c ∈ s, isFieldChar c = true) → ∀ c ∈ s,
      c ≠ '('.toUInt8 ∧ c ≠ ')'.toUInt8 ∧ c ≠ '['.toUInt8 ∧ c ≠ '"'.toUInt8 := by
    intro s hs c hc
    obtain ⟨hitem, hopen, -⟩ := isFieldChar_iff.mp (hs c hc)
    exact ⟨(ne_of_isItemChar hitem).1, (ne_of_isItemChar hitem).2.1, hopen,
      (ne_of_isItemChar hitem).2.2⟩
  have hinner : ∀ c ∈ x.specifier ++ lit " " ++ x.nameList,
      c ≠ '['.toUInt8 ∧ c ≠ ']'.toUInt8 := by
    have hall : (lit " ()").all (fun c => c ≠ '['.toUInt8 ∧ c ≠ ']'.toUInt8) = true := by decide
    have hparens : ∀ c ∈ lit " ()", c ≠ '['.toUInt8 ∧ c ≠ ']'.toUInt8 := fun c hc =>
      of_decide_eq_true (List.all_eq_true.mp hall c hc)
    intro c hc
    simp only [nameList, List.mem_append] at hc
    rcases hc with (hc | hc) | (hc | hc) | hc
    · exact (isFieldChar_iff.mp (x.isFieldChar_specifier hc)).2
    · exact hparens c (List.mem_singleton.mp hc ▸ by decide)
    · exact hparens c (List.mem_singleton.mp hc ▸ by decide)
    · rcases x.mem_names hc with rfl | hc
      · exact hparens _ (by decide)
      · exact (isFieldChar_iff.mp hc).2
    · exact hparens c (List.mem_singleton.mp hc ▸ by decide)
  have htext : x.text ++ lit ")" = x.keyword ++ '['.toUInt8 ::
      ((x.specifier ++ lit " " ++ x.nameList) ++ ']'.toUInt8 :: (x.suffix ++ lit ")")) := by
    simp [text, lit]
  have hlist : parseListLoop .plain 1 (x.text ++ lit ")") = (x.text ++ lit ")", []) := by
    have hclose : parseListLoop .plain 1 (lit ")") = (lit ")", []) := rfl
    have hbracket : ∀ s, parseListLoop .plain 1 ('['.toUInt8 :: s) =
        emit '['.toUInt8 (parseListLoop (.bracket 0) 1 s) := fun _ => rfl
    have hend : ∀ s, parseListLoop (.bracket 0) 1 (']'.toUInt8 :: s) =
        emit ']'.toUInt8 (parseListLoop .plain 1 s) := fun _ => rfl
    rw [htext, parseListLoop_plain _ _ (hplain fun c => x.isFieldChar_keyword), hbracket,
      parseListLoop_bracket _ _ hinner, hend,
      parseListLoop_plain _ _ (hplain fun c => x.isFieldChar_suffix), hclose]
    rfl
  have hparen : lit "(" ++ x.text ++ lit ")" = '('.toUInt8 :: (x.text ++ lit ")") := rfl
  refine parses_fetchText (n := 2) htag ?_
  rw [hparen, parseArgs_decimal (by decide), parseArgs_list hlist (Nat.zero_le _)]
  rfl

end Parsed

end FieldsItem

/-! ## The items -/

theorem trimParentheses_paren (s : Bytes) : trimParentheses (lit "(" ++ s ++ lit ")") = s := by
  rw [trimParentheses, if_pos]
  · simp [lit]
  · refine ⟨by simp [lit], rfl, ?_⟩
    rw [List.getLast?_append_of_ne_nil _ (by decide)]
    rfl

/-- A text without a parenthesis is left as it is. -/
theorem trimParentheses_of_head {s : Bytes} (h : '('.toUInt8 ∉ s) : trimParentheses s = s := by
  rw [trimParentheses, if_neg]
  rintro ⟨-, hhead, -⟩
  exact h (List.mem_of_mem_head? hhead)

/-- **The two spellings of a word come to the same items.** -/
theorem fetchItems_paren {w : Bytes} (hw : ∀ c ∈ w, isItemChar c = true) :
    fetchItems (lit "(" ++ w ++ lit ")") = fetchItems w := by
  rw [fetchItems, trimParentheses_paren, fetchItems, trimParentheses_of_head]
  exact fun h => (ne_of_isItemChar (hw _ h)).1 rfl

theorem toUpper_append (s t : Bytes) : toUpper (s ++ t) = toUpper s ++ toUpper t := List.map_append

/-- A byte that no letter becomes in upper case is there only where it was. -/
theorem mem_toUpper {s : Bytes} {x : UInt8} (hx : x < 'A'.toUInt8 ∨ 'Z'.toUInt8 < x)
    (h : x ∈ toUpper s) : x ∈ s := by
  obtain ⟨c, hc, rfl⟩ := List.mem_map.mp h
  rw [upper] at hx ⊢
  split_ifs at hx ⊢ with hlower
  · obtain ⟨hlo, hhi⟩ := hlower
    have h32 : (32 : UInt8) ≤ c := by
      rw [UInt8.le_iff_toNat_le] at hlo ⊢
      exact le_trans (by decide) hlo
    simp only [UInt8.lt_iff_toNat_lt, UInt8.le_iff_toNat_le, UInt8.toNat_sub_of_le _ _ h32]
      at hx hlo hhi
    have ha : 'a'.toUInt8.toNat = 97 := rfl
    have hz : 'z'.toUInt8.toNat = 122 := rfl
    have hA : 'A'.toUInt8.toNat = 65 := rfl
    have hZ : 'Z'.toUInt8.toNat = 90 := rfl
    have h32' : (32 : UInt8).toNat = 32 := rfl
    omega
  · exact hc

/-- No macro starts with `B`. -/
theorem expandItem_of_head {item : Bytes} (h : (toUpper item).head? = some 'B'.toUInt8) :
    expandItem item = [toUpper item] := by
  have hne : ∀ s : Bytes, s.head? ≠ some 'B'.toUInt8 → toUpper item ≠ s := by
    rintro s hs rfl
    exact hs h
  rw [expandItem, if_neg (hne _ (by decide)), if_neg (hne _ (by decide)),
    if_neg (hne _ (by decide))]

namespace FieldsItem

variable (x : FieldsItem)

theorem toUpper_start : toUpper x.start = x.start := by
  rw [start]
  split_ifs <;> decide

theorem start_eq : x.start = toUpper x.keyword ++ lit "[" := by
  rw [start, x.keyword_eq]
  split_ifs <;> rfl

theorem length_start : x.start.length = (x.keyword ++ lit "[").length := by
  rw [start_eq, List.length_append, List.length_append, toUpper, List.length_map]

theorem head?_start (s : Bytes) : (x.start ++ s).head? = some 'B'.toUInt8 := by
  rw [start]
  split_ifs <;> rfl

/-- The head of the item is recognised in either case. -/
theorem headerFieldsStart_head : headerFieldsStart x.head = some x.start := by
  have hupper : toUpper x.head = x.start ++ toUpper x.specifier := by
    rw [head, toUpper_append, toUpper_append, start_eq]
    rfl
  obtain ⟨t, ht⟩ := x.prefix_specifier
  rw [headerFieldsStart, hupper, ← ht, start]
  cases x.peek with
  | false =>
    have hprefix : (lit "BODY[HEADER.FIELDS").isPrefixOf (lit "BODY[" ++ (lit "HEADER.FIELDS" ++ t)) :=
      List.isPrefixOf_iff_prefix.mpr ⟨t, rfl⟩
    simp only [Bool.false_eq_true, if_false, hprefix, if_true]
  | true =>
    have hprefix : (lit "BODY.PEEK[HEADER.FIELDS").isPrefixOf
        (lit "BODY.PEEK[" ++ (lit "HEADER.FIELDS" ++ t)) := List.isPrefixOf_iff_prefix.mpr ⟨t, rfl⟩
    have hother : (lit "BODY[HEADER.FIELDS").isPrefixOf
        (lit "BODY.PEEK[" ++ (lit "HEADER.FIELDS" ++ t)) = false := rfl
    simp only [if_true, hother, Bool.false_eq_true, if_false, hprefix]

/-- What follows the bracket is the specifier. -/
theorem drop_head : x.head.drop x.start.length = x.specifier := by
  rw [length_start, head]
  exact List.drop_left

theorem notMem_specifier : ']'.toUInt8 ∉ x.specifier :=
  fun h => (isFieldChar_iff.mp (x.isFieldChar_specifier h)).2.2 rfl

/-- Without parentheses, the section is closed behind its first word. -/
theorem fetchItems_head : fetchItems x.head = [x.start ++ toUpper x.specifier ++ lit "]"] := by
  have hword : splitArgs x.head = [x.head] := by
    have hwords : splitArgs (joinWords [x.head]) = [x.head] := by
      refine splitArgs_joinWords fun w hw => ?_
      rw [List.mem_singleton.mp hw]
      exact ⟨x.head_ne_nil, fun c hc => (isItemChar_iff.mp (x.isItemChar_head hc)).2⟩
    rwa [joinWords_singleton] at hwords
  have hopen : x.specifier.getLast? ≠ some ']'.toUInt8 :=
    fun h => x.notMem_specifier (List.mem_of_getLast? h)
  have hcombine : combineSections none [x.head] = [x.start ++ x.specifier ++ lit "]"] := by
    rw [combineSections, headerFieldsStart_head]
    simp only [drop_head, if_neg hopen]
    rfl
  have hupper : toUpper (x.start ++ x.specifier ++ lit "]") =
      x.start ++ toUpper x.specifier ++ lit "]" := by
    rw [toUpper_append, toUpper_append, toUpper_start]
    rfl
  rw [fetchItems, trimParentheses_of_head fun h => (ne_of_isItemChar (x.isItemChar_head h)).1 rfl,
    hword, combineSplitBodySections, hcombine, List.flatMap_singleton, expandItem_of_head, hupper]
  rw [hupper, List.append_assoc]
  exact x.head?_start _

/-- A name is a word without brackets. -/
theorem isWord_name {f : Bytes} (hf : f ∈ x.names) : IsWord f ∧ ']'.toUInt8 ∉ f := by
  obtain ⟨hne, hchars⟩ := x.name_chars f hf
  exact ⟨⟨hne, fun c hc => (isItemChar_iff.mp (isFieldChar_iff.mp (hchars c hc)).1).2⟩,
    fun h => (isFieldChar_iff.mp (hchars _ h)).2.2 rfl⟩

/-- The names with the parenthesis in front of them are words, the last of them `w`. -/
theorem exists_words_names : ∃ (ws : List Bytes) (w : Bytes),
    (∀ v ∈ ws ++ [w], IsWord v ∧ ']'.toUInt8 ∉ v) ∧
      joinWords (ws ++ [w]) = lit "(" ++ joinWords x.names := by
  have hname : ∀ f ∈ x.names, IsWord f ∧ ']'.toUInt8 ∉ f := fun _ => x.isWord_name
  cases hnames : x.names with
  | nil =>
    refine ⟨[], lit "(", fun v hv => ?_, by simp [joinWords]⟩
    rw [List.mem_singleton.mp hv]
    exact ⟨⟨by decide, fun c hc => List.mem_singleton.mp hc ▸ rfl⟩, by decide⟩
  | cons f fs =>
    rw [hnames] at hname
    have hopened : IsWord (lit "(" ++ f) ∧ ']'.toUInt8 ∉ lit "(" ++ f := by
      obtain ⟨⟨-, hspace⟩, hbracket⟩ := hname f List.mem_cons_self
      refine ⟨⟨List.cons_ne_nil _ _, fun c hc => ?_⟩, List.not_mem_append (by decide) hbracket⟩
      rcases List.mem_append.mp hc with hc | hc
      · rw [List.mem_singleton.mp hc]
        decide
      · exact hspace c hc
    obtain ⟨ws, w, hlast⟩ := List.eq_nil_or_concat ((lit "(" ++ f) :: fs) |>.resolve_left
      (List.cons_ne_nil _ _)
    rw [List.concat_eq_append] at hlast
    refine ⟨ws, w, fun v hv => ?_, ?_⟩
    · rw [← hlast] at hv
      rcases List.mem_cons.mp hv with rfl | hv
      · exact hopened
      · exact hname v (List.mem_cons_of_mem _ hv)
    · rw [← hlast]
      cases fs with
      | nil => simp
      | cons g gs => simp [joinWords_cons_cons]

/-- There is no space behind the names. -/
theorem isSpace_suffix {c : UInt8} (hc : c ∈ lit ")]" ++ x.suffix) : isSpace c = false := by
  rcases List.mem_append.mp hc with hc | hc
  · have hclose : (lit ")]").all (fun c => !isSpace c) = true := by decide
    exact Bool.not_eq_true' _ |>.mp (List.all_eq_true.mp hclose c hc)
  · exact (isItemChar_iff.mp (isFieldChar_iff.mp (x.isFieldChar_suffix hc)).1).2

section Words

variable {ws : List Bytes} {w : Bytes}

/-- The section and its names are split at the spaces. -/
theorem splitArgs_text (hwords : ∀ v ∈ ws ++ [w], IsWord v ∧ ']'.toUInt8 ∉ v)
    (hjoin : joinWords (ws ++ [w]) = lit "(" ++ joinWords x.names) :
    splitArgs x.text = x.head :: (ws ++ [w ++ (lit ")]" ++ x.suffix)]) := by
  have htext : x.text = joinWords (x.head :: (ws ++ [w ++ (lit ")]" ++ x.suffix)])) := by
    obtain ⟨u, us, hus⟩ := List.exists_cons_of_ne_nil (List.append_ne_nil_of_right_ne_nil ws
      (List.cons_ne_nil (w ++ (lit ")]" ++ x.suffix)) []))
    rw [hus, joinWords_cons_cons, ← hus, joinWords_concat_append, hjoin, text_eq]
    simp [nameList, lit]
  rw [htext]
  refine splitArgs_joinWords fun v hv => ?_
  rcases List.mem_cons.mp hv with rfl | hv
  · exact ⟨x.head_ne_nil, fun c hc => (isItemChar_iff.mp (x.isItemChar_head hc)).2⟩
  · rcases List.mem_append.mp hv with hv | hv
    · exact (hwords v (List.mem_append_left _ hv)).1
    · rw [List.mem_singleton.mp hv]
      obtain ⟨hne, hspace⟩ := (hwords w (List.mem_append_right _ (List.mem_singleton.mpr rfl))).1
      refine ⟨List.append_ne_nil_of_left_ne_nil hne _, fun c hc => ?_⟩
      rcases List.mem_append.mp hc with hc | hc
      · exact hspace c hc
      · exact x.isSpace_suffix hc

/-- What is between the brackets ends with the names. -/
theorem exists_closeSection (hjoin : joinWords (ws ++ [w]) = lit "(" ++ joinWords x.names) : ∃ t,
    closeSection (x.specifier ++ ' '.toUInt8 :: joinWords (ws ++ [w ++ (lit ")]" ++ x.suffix)])) =
      x.specifier ++ lit " " ++ x.nameList ++ lit "]" ++ t := by
  have hcontent : x.specifier ++ ' '.toUInt8 :: joinWords (ws ++ [w ++ (lit ")]" ++ x.suffix)]) =
      x.specifier ++ lit " " ++ x.nameList ++ lit "]" ++ x.suffix := by
    rw [joinWords_concat_append, hjoin]
    simp [nameList, lit]
  rw [hcontent, closeSection]
  split_ifs
  · exact ⟨x.suffix, rfl⟩
  · exact ⟨x.suffix ++ lit "]", List.append_assoc ..⟩

/-- The words of a section are put together again. -/
theorem exists_combineSections (hwords : ∀ v ∈ ws ++ [w], IsWord v ∧ ']'.toUInt8 ∉ v)
    (hjoin : joinWords (ws ++ [w]) = lit "(" ++ joinWords x.names) : ∃ t,
    combineSections none (x.head :: (ws ++ [w ++ (lit ")]" ++ x.suffix)])) =
      [x.start ++ (x.specifier ++ lit " " ++ x.nameList ++ lit "]" ++ t)] := by
  have hopen : x.specifier.getLast? ≠ some ']'.toUInt8 :=
    fun h => x.notMem_specifier (List.mem_of_getLast? h)
  obtain ⟨t, ht⟩ := x.exists_closeSection hjoin
  refine ⟨t, ?_⟩
  rw [combineSections, headerFieldsStart_head]
  simp only [drop_head, if_neg hopen]
  rw [combineSections_words, ht]
  · exact List.append_ne_nil_of_right_ne_nil _ (by simp [lit])
  · intro v hv
    obtain ⟨hword, hbracket⟩ := hwords v (List.mem_append_left _ hv)
    exact ⟨hword.1, hbracket⟩

end Words

/-- In parentheses, it keeps its names. -/
theorem fetchItems_text : ∃ t, fetchItems (lit "(" ++ x.text ++ lit ")") =
    [x.start ++ toUpper (x.specifier ++ lit " " ++ x.nameList) ++ lit "]" ++ t] := by
  obtain ⟨ws, w, hwords, hjoin⟩ := x.exists_words_names
  obtain ⟨t, hcombine⟩ := x.exists_combineSections hwords hjoin
  have hupper : toUpper (x.start ++ (x.specifier ++ lit " " ++ x.nameList ++ lit "]" ++ t)) =
      x.start ++ toUpper (x.specifier ++ lit " " ++ x.nameList) ++ lit "]" ++ toUpper t := by
    rw [toUpper_append, toUpper_start, toUpper_append, toUpper_append]
    simp only [List.append_assoc]
    rfl
  refine ⟨toUpper t, ?_⟩
  rw [fetchItems, trimParentheses_paren, x.splitArgs_text hwords hjoin, combineSplitBodySections,
    hcombine, List.flatMap_singleton, expandItem_of_head, hupper]
  rw [hupper]
  simp only [List.append_assoc]
  exact x.head?_start _

end FieldsItem

/-! ## The text of the section -/

/-- The functions read the message's file as the source does. -/
structure ReadsFile (S : Services) (m : Message) : Prop where
  bodySection : ∀ sec, S.getBodySection m sec = getBodySection (S.getBodyContent m) sec
  split : S.splitHeadersAndBody = Mime.splitHeadersAndBody
  header : S.getHeaderValue = Mime.getHeaderValue

/-- All the headers of a file. -/
def headersOf (raw : Bytes) : Bytes := (Mime.splitHeadersAndBody raw).1

/-- What `GetBodySection` returns for a section that names header fields. -/
def allHeaders (raw : Bytes) : Bytes := if raw = [] then [] else headersOf raw ++ lit "\r\n\r\n"

theorem lit_append_ne {a b : Bytes} (h : a.isPrefixOf b = false) (t : Bytes) : a ++ t ≠ b := by
  rintro rfl
  exact Bool.false_ne_true (h.symm.trans (List.isPrefixOf_iff_prefix.mpr (List.prefix_append a t)))

/-- **Whatever fields it names, it is all the headers.** -/
theorem getBodySection_fields {sec : Bytes} (h : lit "HEADER.FIELDS" <+: toUpper sec) (raw : Bytes) :
    getBodySection raw sec = .ok (allHeaders raw) := by
  obtain ⟨t, ht⟩ := h
  have hprefix : (lit "HEADER.").isPrefixOf (toUpper sec) = true := by
    rw [← ht]
    exact List.isPrefixOf_iff_prefix.mpr ⟨lit "FIELDS" ++ t, rfl⟩
  have hne : ∀ b : Bytes, (lit "HEADER.FIELDS").isPrefixOf b = false → toUpper sec ≠ b := by
    rintro b hb
    rw [← ht]
    exact lit_append_ne hb t
  rw [getBodySection, allHeaders, headersOf]
  split_ifs with hraw
  · rfl
  · dsimp only
    rw [if_neg (hne _ (by decide)), if_neg (hne _ (by decide)), if_neg (hne _ (by decide)),
      if_pos hprefix]

/-- The items in front of the branches for sections. -/
def plainItems : List Bytes :=
  [lit "FLAGS", lit "INTERNALDATE", lit "RFC822.SIZE", lit "ENVELOPE", lit "BODY[]", lit "RFC822",
    lit "RFC822.TEXT", lit "RFC822.HEADER", lit "BODYSTRUCTURE", lit "BODY"]

/-- What is no plain item is a section, a list of header fields or unknown. -/
theorem fetchItem_of_notMem {S : Services} {cmd : ImapCommand} {m : Message} {item : Bytes}
    (h : ∀ b ∈ plainItems, item ≠ b) :
    fetchItem S cmd m item =
      if item = lit "BODY[HEADER.FIELDS]" ∨ item = lit "BODY.PEEK[HEADER.FIELDS]" then
        headerFields S cmd item m
      else if (lit "BODY.PEEK[").isPrefixOf item then bodySection S (lit "BODY.PEEK[") item m
      else if (lit "BODY[").isPrefixOf item then bodySection S (lit "BODY[") item m
      else if item = lit "UID" then return lit "UID " ++ decimal m.uid ++ lit " "
      else throw (.throw (.invalidArgument (lit "Invalid fetch attribute: " ++ item))) := by
  simp only [plainItems, List.forall_mem_cons] at h
  obtain ⟨hflags, hdate, hsize, henvelope, hbody, hrfc, htext, hheader, hstructure, hword, -⟩ := h
  rw [fetchItem, if_neg hflags, if_neg hdate, if_neg hsize, if_neg henvelope,
    if_neg (not_or.mpr ⟨hbody, not_or.mpr ⟨hrfc, htext⟩⟩), if_neg hheader, if_neg hstructure,
    if_neg hword]

namespace FieldsItem

variable (x : FieldsItem) {S : Services} {cmd : ImapCommand} {d : Dispatcher} {db : DB} {m : Message}

/-- An item that starts as the section does is in one of two branches. -/
theorem fetchItem_start (s : Bytes) :
    fetchItem S cmd m (x.start ++ (lit "HEADER.FIELDS" ++ s)) =
      if s = lit "]" then headerFields S cmd (x.start ++ (lit "HEADER.FIELDS" ++ s)) m
      else bodySection S x.start (x.start ++ (lit "HEADER.FIELDS" ++ s)) m := by
  have hplain : ∀ a : Bytes, (∀ b ∈ plainItems, a.isPrefixOf b = false) →
      ∀ b ∈ plainItems, a ++ s ≠ b := fun a ha b hb => lit_append_ne (ha b hb) s
  rw [start]
  cases x.peek with
  | false =>
    have hstart : lit "BODY[HEADER.FIELDS" = lit "BODY[" ++ lit "HEADER.FIELDS" :=
      lit_append "BODY[" "HEADER.FIELDS"
    have hclosed : lit "BODY[HEADER.FIELDS]" = lit "BODY[HEADER.FIELDS" ++ lit "]" :=
      lit_append "BODY[HEADER.FIELDS" "]"
    have hitem : lit "BODY[" ++ (lit "HEADER.FIELDS" ++ s) = lit "BODY[HEADER.FIELDS" ++ s := by
      rw [hstart, List.append_assoc]
    have hexact : (lit "BODY[HEADER.FIELDS" ++ s = lit "BODY[HEADER.FIELDS]" ∨
        lit "BODY[HEADER.FIELDS" ++ s = lit "BODY.PEEK[HEADER.FIELDS]") ↔ s = lit "]" := by
      rw [or_iff_left (lit_append_ne (by decide) s), hclosed, List.append_right_inj]
    have hpeek : (lit "BODY.PEEK[").isPrefixOf (lit "BODY[HEADER.FIELDS" ++ s) = false := rfl
    have hprefix : (lit "BODY[").isPrefixOf (lit "BODY[HEADER.FIELDS" ++ s) = true :=
      List.isPrefixOf_iff_prefix.mpr ⟨lit "HEADER.FIELDS" ++ s, hitem⟩
    simp only [Bool.false_eq_true, if_false, hitem]
    rw [fetchItem_of_notMem (hplain (lit "BODY[HEADER.FIELDS") (by decide))]
    simp only [hexact, hpeek, hprefix, if_true, if_false, Bool.false_eq_true]
  | true =>
    have hstart : lit "BODY.PEEK[HEADER.FIELDS" = lit "BODY.PEEK[" ++ lit "HEADER.FIELDS" :=
      lit_append "BODY.PEEK[" "HEADER.FIELDS"
    have hclosed : lit "BODY.PEEK[HEADER.FIELDS]" = lit "BODY.PEEK[HEADER.FIELDS" ++ lit "]" :=
      lit_append "BODY.PEEK[HEADER.FIELDS" "]"
    have hitem : lit "BODY.PEEK[" ++ (lit "HEADER.FIELDS" ++ s) =
        lit "BODY.PEEK[HEADER.FIELDS" ++ s := by
      rw [hstart, List.append_assoc]
    have hexact : (lit "BODY.PEEK[HEADER.FIELDS" ++ s = lit "BODY[HEADER.FIELDS]" ∨
        lit "BODY.PEEK[HEADER.FIELDS" ++ s = lit "BODY.PEEK[HEADER.FIELDS]") ↔ s = lit "]" := by
      rw [or_iff_right (lit_append_ne (by decide) s), hclosed, List.append_right_inj]
    have hpeek : (lit "BODY.PEEK[").isPrefixOf (lit "BODY.PEEK[HEADER.FIELDS" ++ s) = true :=
      List.isPrefixOf_iff_prefix.mpr ⟨lit "HEADER.FIELDS" ++ s, hitem⟩
    simp only [if_true, hitem]
    rw [fetchItem_of_notMem (hplain (lit "BODY.PEEK[HEADER.FIELDS") (by decide))]
    simp only [hexact, hpeek, if_true]

/-- The branch for any section. -/
theorem serves_bodySection (d : Dispatcher) (db : DB) (hS : ReadsFile S m) {sec t : Bytes}
    (hsec : lit "HEADER.FIELDS" <+: toUpper sec) (hbracket : ']'.toUInt8 ∉ sec) :
    Serves (Imap.bodySection S x.start (x.start ++ (sec ++ lit "]" ++ t)) m) d db
      (literal (x.start ++ sec ++ lit "]") (allHeaders (S.getBodyContent m)) ++ lit " ") d db := by
  have hcut : cut ']'.toUInt8 ((x.start ++ (sec ++ lit "]" ++ t)).drop x.start.length) =
      some (sec, t) := by
    rw [List.drop_left, List.append_assoc]
    exact cut_eq_some_iff.mpr ⟨rfl, hbracket⟩
  rw [Imap.bodySection, hcut]
  dsimp only
  rw [hS.bodySection, getBodySection_fields hsec]
  rfl

/-- `BODY[HEADER.FIELDS]`, with the names in the third argument. -/
theorem serves_headerFields (hS : ReadsFile S m) (hargs : cmd.args[2]? = some x.nameList)
    (hraw : S.getBodyContent m ≠ []) :
    Serves (headerFields S cmd (x.start ++ (lit "HEADER.FIELDS" ++ lit "]")) m) d db
      (literal (x.start ++ (lit "HEADER.FIELDS" ++ lit " " ++ x.nameList) ++ lit "]")
        (x.present (headersOf (S.getBodyContent m)) ++ lit "\r\n") ++ lit " ") d db := by
  have hnames : trimParentheses x.nameList = joinWords x.names := trimParentheses_paren _
  have hsplit : splitArgs (joinWords x.names) = x.names := by
    refine splitArgs_joinWords fun f hf => ?_
    obtain ⟨hne, hchars⟩ := x.name_chars f hf
    exact ⟨hne, fun c hc => (isItemChar_iff.mp (isFieldChar_iff.mp (hchars c hc)).1).2⟩
  have hlabel : (x.start ++ (lit "HEADER.FIELDS" ++ lit "]")).dropLast ++ lit " (" ++
      joinWords x.names ++ lit ")]" =
        x.start ++ (lit "HEADER.FIELDS" ++ lit " " ++ x.nameList) ++ lit "]" := by
    have hdrop : (x.start ++ (lit "HEADER.FIELDS" ++ lit "]")).dropLast =
        x.start ++ lit "HEADER.FIELDS" := by
      rw [← List.append_assoc]
      exact List.dropLast_concat
    rw [hdrop]
    simp [nameList, lit]
  rw [← hlabel, headerFields, if_neg hraw]
  refine .bind (.arg hargs) ?_
  dsimp only
  rw [hnames, hsplit, hS.split, hS.header]
  exact .pure _

/-- A message whose file cannot be read has no header fields to print. -/
theorem not_returns_headerFields {item : Bytes} {a : Bytes} (hraw : S.getBodyContent m = []) :
    ¬ Returns (headerFields S cmd item m) d db a := by
  rintro ⟨d', db', hs⟩
  rw [headerFields, if_pos hraw] at hs
  cases (Prod.mk.inj (Prod.mk.inj hs).2).1

end FieldsItem

/-! ## The replies -/

/-- A literal tells its text, and its name where the length of that is known. -/
theorem literal_inj {name name' text text' : Bytes} (hlength : name.length = name'.length)
    (h : literal name text = literal name' text') : name = name' ∧ text = text' := by
  have hcut : ∀ t : Bytes, cut '}'.toUInt8 (lit " \x7b" ++ decimal t.length ++
      (lit "\x7d\r\n" ++ t)) = some (lit " \x7b" ++ decimal t.length, lit "\r\n" ++ t) := fun t =>
    cut_eq_some_iff.mpr ⟨rfl, List.not_mem_append (by decide)
      (notMem_decimal _ (by decide) (by decide))⟩
  simp only [literal, List.append_assoc] at h
  obtain ⟨hname, hrest⟩ := List.append_inj h hlength
  refine ⟨hname, ?_⟩
  simp only [← List.append_assoc] at hrest
  rw [List.append_assoc (_ ++ _), List.append_assoc (_ ++ _)] at hrest
  have hboth := congrArg (cut '}'.toUInt8) hrest
  rw [hcut, hcut] at hboth
  exact List.append_cancel_left (Prod.mk.inj (Option.some.inj hboth)).2

/-- The reply with one line, and one item in it. -/
def oneItem (tag : Bytes) (k : ℤ) (text : Bytes) : Bytes :=
  fetch (toSizeT k) (lit "(" ++ text ++ lit ")") ++ ok tag (lit "Fetch completed")

/-- The printed text of an item can be read off the line. -/
theorem oneItem_inj {tag text text' : Bytes} {k : ℤ} (h : oneItem tag k text = oneItem tag k text') :
    text = text' := by
  have hdata := (fetch_inj (List.append_cancel_right h)).2
  exact List.append_cancel_left (List.append_cancel_right hdata)

theorem Returns.of_eq {α : Type} {h : HandlerM α} {d : Dispatcher} {db : DB} {a b : α}
    (hs : Returns h d db a) (he : a = b) : Returns h d db b := he ▸ hs

/-- A line that prints an item is no `BAD`. -/
theorem oneItem_ne_bad {tag text what : Bytes} {k : ℤ} (htag : ' '.toUInt8 ∉ tag) :
    oneItem tag k text ≠ bad tag what := by
  intro h
  have hfetch : cut ' '.toUInt8 (oneItem tag k text) = some (lit "*", decimal (toSizeT k) ++
      (lit " FETCH " ++ (lit "(" ++ text ++ lit ")") ++ lit "\r\n" ++
        ok tag (lit "Fetch completed"))) := by
    refine cut_eq_some_iff.mpr ⟨?_, by decide⟩
    simp [oneItem, fetch, lit]
  have hbad : cut ' '.toUInt8 (bad tag what) = some (tag, lit "BAD " ++ what ++ lit "\r\n") := by
    refine cut_eq_some_iff.mpr ⟨?_, htag⟩
    simp [bad, lit]
  rw [h, hbad] at hfetch
  obtain ⟨-, hrest⟩ := Prod.mk.inj (Option.some.inj hfetch)
  obtain ⟨c, t, hct⟩ := List.exists_cons_of_ne_nil (decimal_ne_nil (toSizeT k))
  rw [hct] at hrest
  have hc : c = 'B'.toUInt8 := (List.cons.inj hrest).1.symm
  have hmem : 'B'.toUInt8 ∈ decimal (toSizeT k) := by
    rw [hct, hc]
    exact List.mem_cons_self
  exact notMem_decimal (toSizeT k) (by decide) (by decide) hmem

section Replies

variable {S : Services} {cmd : ImapCommand} {d : Dispatcher} {db : DB} {u inbox k : ℤ} {m : Message}
  {list item text : Bytes} {rest : List Bytes}

theorem returns_oneItem (hd : InMailbox u inbox d db) (hlo : -2 ^ 63 ≤ k) (hhi : k ≤ int64Max)
    (hk : nthMessage db inbox k = some m) (hargs : cmd.args = decimal k :: list :: rest)
    (hitems : fetchItems list = [item])
    (hitem : Serves (fetchItem S cmd m item) d db (text ++ lit " ") d db) :
    Returns (handleFetch S cmd) d db (oneItem cmd.tag k text) := by
  have hspace : popSpace (lit " ") = [] := rfl
  have hdata : Returns (fetchData S cmd (lit "(") (fetchItems list) m) d db
      (lit "(" ++ text ++ lit ")") := by
    have hpop : popSpace (lit "(" ++ [text ++ lit " "].flatten) = lit "(" ++ text := by
      rw [List.flatten_singleton, ← List.append_assoc, popSpace_append (by decide), hspace,
        List.append_nil]
    rw [hitems, returns_fetchData, ← hpop]
    exact ⟨[text ++ lit " "], Returns.mapM_singleton.mpr ⟨_, ⟨d, db, hitem⟩, rfl⟩, rfl⟩
  have hlines := (returns_fetchLines_nth hd hlo hhi hk hargs).mpr ⟨_, hdata, rfl⟩
  have hreply := returns_handleFetch hd (by rw [hargs]; simp) hlines
  rwa [List.flatten_singleton] at hreply

/-- A reply with one line is made by the item. -/
theorem returns_item_of_reply (hd : InMailbox u inbox d db) (hlo : -2 ^ 63 ≤ k) (hhi : k ≤ int64Max)
    (hk : nthMessage db inbox k = some m) (hargs : cmd.args = decimal k :: list :: rest)
    (htag : ' '.toUInt8 ∉ cmd.tag) (hitems : fetchItems list = [item])
    (h : Returns (handleFetch S cmd) d db (oneItem cmd.tag k text)) :
    ∃ t, Returns (fetchItem S cmd m item) d db t := by
  rcases returns_handleFetch_cases hd (by rw [hargs]; simp) h with ⟨lines, hlines, -⟩ | ⟨what, hbad⟩
  · obtain ⟨data, hdata, -⟩ := (returns_fetchLines_nth hd hlo hhi hk hargs).mp hlines
    rw [hitems] at hdata
    obtain ⟨texts, htexts, -⟩ := returns_fetchData.mp hdata
    obtain ⟨t, ht, -⟩ := Returns.mapM_singleton.mp htexts
    exact ⟨t, ht⟩
  · exact absurd hbad (oneItem_ne_bad htag)

/-- Commands with the same items and the same number are handled alike. -/
theorem handleFetch_congr {cmd' : ImapCommand} {set list' : Bytes} (htag : cmd.tag = cmd'.tag)
    (hargs : cmd.args = [set, list]) (hargs' : cmd'.args = [set, list'])
    (hitems : fetchItems list = fetchItems list') : handleFetch S cmd = handleFetch S cmd' := by
  have hitem : fetchItem S cmd = fetchItem S cmd' := fetchItem_congr (by rw [hargs, hargs']; rfl)
  have hlines : fetchLines S cmd = fetchLines S cmd' := by
    have hset : arg cmd 0 = pure set := by simp only [arg, hargs, List.getElem?_cons_zero]
    have hset' : arg cmd' 0 = pure set := by simp only [arg, hargs', List.getElem?_cons_zero]
    have hlist : arg cmd 1 = pure list := by
      simp only [arg, hargs, List.getElem?_cons_succ, List.getElem?_cons_zero]
    have hlist' : arg cmd' 1 = pure list' := by
      simp only [arg, hargs', List.getElem?_cons_succ, List.getElem?_cons_zero]
    simp only [fetchLines, hset, hset', hlist, hlist', pure_bind, fetchData, hitem, hitems]
  have hfailure : fetchFailure cmd = fetchFailure cmd' := by
    funext e
    cases e <;> simp only [fetchFailure, htag]
  rw [handleFetch_eq, handleFetch_eq, whenSelected, whenSelected, hlines, hfailure, htag, hargs,
    hargs']
  rfl

end Replies

/-! ## The two spellings -/

/-- `FETCH k X` and `FETCH k (X)` are answered alike; where `X` names header fields, the line holds
those of them that the message has, and nothing else. -/
def SpellingsAgree (S : Services) (d : Dispatcher) (db : DB) (m : Message) (tag : Bytes) (k : ℤ)
    (X : DataItem) : Prop :=
  ∃ cmd cmd', Parses (fetchText tag k X.text) cmd ∧
    Parses (fetchText tag k (lit "(" ++ X.text ++ lit ")")) cmd' ∧
    (∀ reply, Returns (dispatch S cmd) d db reply ↔ Returns (dispatch S cmd') d db reply) ∧
    ∀ x, X = .fields x → ∃ name, Returns (dispatch S cmd') d db
      (oneItem tag k (literal name (x.present (headersOf (S.getBodyContent m)) ++ lit "\r\n")))

/-- The section is `HEADER.FIELDS`, the names are in upper case, the file can be read, and its
headers are the requested fields, written as the server writes them. -/
structure FieldsItem.IsWhole (x : FieldsItem) (raw : Bytes) : Prop where
  specifier : toUpper x.specifier = lit "HEADER.FIELDS"
  names : toUpper x.nameList = x.nameList
  file : raw ≠ []
  headers : x.present (headersOf raw) ++ lit "\r\n" = headersOf raw ++ lit "\r\n\r\n"

/-- A word, or a section whose names make no difference. -/
def DataItem.Indifferent (X : DataItem) (raw : Bytes) : Prop := ∀ x, X = .fields x → x.IsWhole raw

section Fields

variable {S : Services} {d : Dispatcher} {db : DB} {u inbox k : ℤ} {m : Message} {tag : Bytes}
  (x : FieldsItem)

/-- Upper-casing reaches the names of the fields. -/
theorem FieldsItem.toUpper_section :
    toUpper (x.specifier ++ lit " " ++ x.nameList) =
      toUpper x.specifier ++ lit " " ++ toUpper x.nameList := by
  rw [toUpper_append, toUpper_append]
  rfl

/-- In parentheses, the item is answered with all the headers. -/
theorem FieldsItem.returns_paren (tag : Bytes) (hS : ReadsFile S m) (hd : InMailbox u inbox d db)
    (hlo : -2 ^ 63 ≤ k) (hhi : k ≤ int64Max) (hk : nthMessage db inbox k = some m) :
    Returns (handleFetch S
        { tag, type := .fetch, args := [decimal k, lit "(" ++ x.text ++ lit ")"] }) d db
      (oneItem tag k (literal (x.start ++ (toUpper x.specifier ++ lit " " ++ toUpper x.nameList) ++
        lit "]") (allHeaders (S.getBodyContent m)))) := by
  obtain ⟨t, hitems⟩ := x.fetchItems_text
  obtain ⟨v, hv⟩ := x.prefix_specifier
  rw [x.toUpper_section] at hitems
  refine returns_oneItem hd hlo hhi hk rfl hitems ?_
  have hstart : x.start ++ (toUpper x.specifier ++ lit " " ++ toUpper x.nameList) ++ lit "]" ++ t =
      x.start ++ (lit "HEADER.FIELDS" ++ (v ++ lit " " ++ toUpper x.nameList ++ lit "]" ++ t)) := by
    rw [← hv]
    simp only [List.append_assoc]
  have hspace : v ++ lit " " ++ toUpper x.nameList ++ lit "]" ++ t ≠ lit "]" := by
    intro h
    have hmem : ' '.toUInt8 ∈ v ++ lit " " ++ toUpper x.nameList ++ lit "]" ++ t := by simp [lit]
    rw [h] at hmem
    exact absurd hmem (by decide)
  have hbracket : ']'.toUInt8 ∉ toUpper x.specifier ++ lit " " ++ toUpper x.nameList := by
    rw [← x.toUpper_section]
    intro h
    have hmem := mem_toUpper (.inr (by decide)) h
    simp only [nameList, List.mem_append] at hmem
    rcases hmem with (hmem | hmem) | (hmem | hmem) | hmem
    · exact x.notMem_specifier hmem
    · exact absurd hmem (by decide)
    · exact absurd hmem (by decide)
    · rcases x.mem_names hmem with hmem | hmem
      · exact absurd hmem (by decide)
      · exact absurd hmem (by decide)
    · exact absurd hmem (by decide)
  have hsec : lit "HEADER.FIELDS" <+:
      toUpper (toUpper x.specifier ++ lit " " ++ toUpper x.nameList) := by
    rw [← hv, List.append_assoc, List.append_assoc, toUpper_append]
    exact List.prefix_append _ _
  rw [hstart, x.fetchItem_start, if_neg hspace, ← hstart, List.append_assoc, List.append_assoc]
  have hitem := x.serves_bodySection (t := t) d db hS hsec hbracket
  simp only [List.append_assoc] at hitem ⊢
  exact hitem

/-- Without, it is answered so only where its specifier is longer than `HEADER.FIELDS`. -/
theorem FieldsItem.returns_text_of_ne (tag : Bytes) (hS : ReadsFile S m)
    (hd : InMailbox u inbox d db)
    (hlo : -2 ^ 63 ≤ k) (hhi : k ≤ int64Max) (hk : nthMessage db inbox k = some m)
    (hne : toUpper x.specifier ≠ lit "HEADER.FIELDS") (rest : List Bytes) :
    Returns (handleFetch S { tag, type := .fetch, args := decimal k :: x.head :: rest }) d db
      (oneItem tag k (literal (x.start ++ toUpper x.specifier ++ lit "]")
        (allHeaders (S.getBodyContent m)))) := by
  obtain ⟨v, hv⟩ := x.prefix_specifier
  refine returns_oneItem hd hlo hhi hk rfl x.fetchItems_head ?_
  have hstart : x.start ++ toUpper x.specifier ++ lit "]" =
      x.start ++ (lit "HEADER.FIELDS" ++ (v ++ lit "]")) := by
    rw [← hv]
    simp only [List.append_assoc]
  have hlong : v ++ lit "]" ≠ lit "]" := by
    intro h
    have hnil : v = [] := List.append_left_eq_self.mp h
    rw [hnil, List.append_nil] at hv
    exact hne hv.symm
  have hbracket : ']'.toUInt8 ∉ toUpper x.specifier :=
    fun h => x.notMem_specifier (mem_toUpper (.inr (by decide)) h)
  have hsec : lit "HEADER.FIELDS" <+: toUpper (toUpper x.specifier) := by
    rw [← hv, toUpper_append]
    exact List.prefix_append _ _
  rw [hstart, x.fetchItem_start, if_neg hlong, ← hstart]
  have hitem := x.serves_bodySection (t := []) d db hS hsec hbracket
  simp only [List.append_assoc, List.append_nil] at hitem ⊢
  exact hitem

/-- And with the requested fields where it is `HEADER.FIELDS`, if the file can be read. -/
theorem FieldsItem.returns_text_of_eq (tag : Bytes) (hS : ReadsFile S m)
    (hd : InMailbox u inbox d db)
    (hlo : -2 ^ 63 ≤ k) (hhi : k ≤ int64Max) (hk : nthMessage db inbox k = some m)
    (heq : toUpper x.specifier = lit "HEADER.FIELDS") (hraw : S.getBodyContent m ≠ [])
    (rest : List Bytes) :
    Returns (handleFetch S
        { tag, type := .fetch, args := decimal k :: x.head :: x.nameList :: rest }) d db
      (oneItem tag k (literal (x.start ++ (lit "HEADER.FIELDS" ++ lit " " ++ x.nameList) ++ lit "]")
        (x.present (headersOf (S.getBodyContent m)) ++ lit "\r\n"))) := by
  have hitems := x.fetchItems_head
  rw [heq, List.append_assoc] at hitems
  refine returns_oneItem hd hlo hhi hk rfl hitems ?_
  rw [x.fetchItem_start, if_pos rfl]
  exact x.serves_headerFields hS rfl hraw

/-- Where the section makes a difference, the two replies are not the same. -/
theorem FieldsItem.isWhole_of_agree (hS : ReadsFile S m) (hd : InMailbox u inbox d db)
    (hlo : -2 ^ 63 ≤ k) (hhi : k ≤ int64Max) (hk : nthMessage db inbox k = some m)
    (htag : ' '.toUInt8 ∉ tag) (h : SpellingsAgree S d db m tag k (.fields x)) :
    x.IsWhole (S.getBodyContent m) := by
  obtain ⟨cmd, cmd', hparses, hparses', hsame, -⟩ := h
  obtain rfl := hparses.unique (x.parses_text htag)
  obtain rfl := hparses'.unique (x.parses_paren htag)
  have hreply := (hsame _).mpr (x.returns_paren tag hS hd hlo hhi hk)
  by_cases heq : toUpper x.specifier = lit "HEADER.FIELDS"
  · have hitems := x.fetchItems_head
    rw [heq, List.append_assoc] at hitems
    have hraw : S.getBodyContent m ≠ [] := by
      intro hempty
      obtain ⟨t, ht⟩ := returns_item_of_reply hd hlo hhi hk rfl htag hitems hreply
      rw [x.fetchItem_start, if_pos rfl] at ht
      exact not_returns_headerFields hempty ht
    have htext := oneItem_inj (hreply.unique (x.returns_text_of_eq tag hS hd hlo hhi hk heq hraw _))
    rw [heq, allHeaders, if_neg hraw] at htext
    obtain ⟨hname, hheaders⟩ := literal_inj (by simp [toUpper]) htext
    refine ⟨heq, ?_, hraw, hheaders.symm⟩
    exact List.append_cancel_left (List.append_cancel_left (List.append_cancel_right hname))
  · have htext := oneItem_inj (hreply.unique (x.returns_text_of_ne tag hS hd hlo hhi hk heq _))
    simp only [literal, List.append_assoc, List.append_cancel_left_eq] at htext
    exact absurd (List.cons.inj htext).1 (by decide)

/-- **Parentheses around a data item make no difference if and only if it is a word, or the section
consists of the requested fields anyway.** -/
theorem spellings_agree_iff {X : DataItem} (hS : ReadsFile S m) (hd : InMailbox u inbox d db)
    (hlo : -2 ^ 63 ≤ k) (hhi : k ≤ int64Max) (hk : nthMessage db inbox k = some m)
    (htag : ' '.toUInt8 ∉ tag) :
    SpellingsAgree S d db m tag k X ↔ X.Indifferent (S.getBodyContent m) := by
  cases X with
  | word w hw =>
    obtain ⟨hparses, hparses'⟩ := parses_word (k := k) htag hw
    refine iff_of_true ⟨_, _, hparses, hparses', fun reply => ?_, fun x hx => nomatch hx⟩
      fun x hx => nomatch hx
    have hsame : handleFetch S { tag, type := .fetch, args := [decimal k, w] } =
        handleFetch S { tag, type := .fetch, args := [decimal k, lit "(" ++ w ++ lit ")"] } :=
      handleFetch_congr rfl rfl rfl (fetchItems_paren hw.2).symm
    rw [dispatch, dispatch, hsame]
  | fields x =>
    constructor
    · rintro h y hy
      obtain rfl := DataItem.fields.inj hy
      exact x.isWhole_of_agree hS hd hlo hhi hk htag h
    · intro h
      obtain ⟨hspecifier, hnames, hfile, hheaders⟩ := h x rfl
      have hparen := x.returns_paren tag hS hd hlo hhi hk
      have htext := x.returns_text_of_eq tag hS hd hlo hhi hk hspecifier hfile [lit "]" ++ x.suffix]
      rw [hspecifier, hnames, allHeaders, if_neg hfile, ← hheaders] at hparen
      refine ⟨_, _, x.parses_text htag, x.parses_paren htag, fun reply => ?_, fun y hy => ?_⟩
      · constructor
        · intro hreply
          rw [hreply.unique htext]
          exact hparen
        · intro hreply
          rw [hreply.unique hparen]
          exact htext
      · obtain rfl := DataItem.fields.inj hy
        exact ⟨_, hparen⟩

end Fields

/-! ## One field of two -/

/-- Every message has this file. -/
def oneFile (raw : Bytes) : Services :=
  { noFiles with
    getBodyContent _ := raw
    getBodySection _ sec := getBodySection raw sec
    splitHeadersAndBody := Mime.splitHeadersAndBody
    getHeaderValue := Mime.getHeaderValue }

theorem readsFile_oneFile (raw : Bytes) (m : Message) : ReadsFile (oneFile raw) m :=
  ⟨fun _ => rfl, rfl, rfl⟩

/-- `BODY[HEADER.FIELDS (f)]`. -/
def fieldsOf (f : Bytes) (hne : f ≠ []) (hchars : f.all isFieldChar = true) : FieldsItem where
  peek := false
  keyword := lit "BODY"
  specifier := lit "HEADER.FIELDS"
  names := [f]
  suffix := []
  keyword_eq := by decide
  prefix_specifier := ⟨[], by decide⟩
  chars := List.all_eq_true.mp (by decide)
  name_chars g hg := by
    obtain rfl := List.mem_singleton.mp hg
    exact ⟨hne, List.all_eq_true.mp hchars⟩

/-- `BODY[HEADER.FIELDS (SUBJECT)]` and `BODY[HEADER.FIELDS (Subject)]`. -/
def upperSubject : FieldsItem := fieldsOf (lit "SUBJECT") (by decide) (by decide)

def subjectItem : FieldsItem := fieldsOf (lit "Subject") (by decide) (by decide)

theorem spellings_agree_upper :
    SpellingsAgree (oneFile (lit "SUBJECT: hi\r\n\r\nbody")) pageSession (pageDB 1) (lastMessage 1)
      (lit "a") 1 (.fields upperSubject) := by
  refine (spellings_agree_iff (u := 1) (readsFile_oneFile _ _) ⟨rfl, rfl, rfl⟩ (by decide)
    (by decide) rfl (by decide)).mpr fun x hx => ?_
  obtain rfl := DataItem.fields.inj hx
  exact ⟨by decide, by decide, by decide, by decide⟩

/-- **Subject is asked for**, and in parentheses the sender is sent with it. -/
theorem not_spellings_agree_subject :
    let S := oneFile (lit "Subject: hi\r\nFrom: bob\r\n\r\nbody")
    subjectItem.text = lit "BODY[HEADER.FIELDS (Subject)]" ∧
      (∃ cmd, Parses (lit "a FETCH 1 BODY[HEADER.FIELDS (Subject)]") cmd ∧
        Returns (dispatch S cmd) pageSession (pageDB 1)
          (lit "* 1 FETCH (BODY[HEADER.FIELDS (Subject)] \x7b15\x7d\r\nSubject: hi\r\n\r\n)\r\n" ++
            lit "a OK Fetch completed\r\n")) ∧
      (∃ cmd, Parses (lit "a FETCH 1 (BODY[HEADER.FIELDS (Subject)])") cmd ∧
        Returns (dispatch S cmd) pageSession (pageDB 1)
          (lit "* 1 FETCH (BODY[HEADER.FIELDS (SUBJECT)] \x7b26\x7d\r\n" ++
            lit "Subject: hi\r\nFrom: bob\r\n\r\n)\r\na OK Fetch completed\r\n")) ∧
      ¬ SpellingsAgree S pageSession (pageDB 1) (lastMessage 1) (lit "a") 1
        (.fields subjectItem) := by
  have hread := readsFile_oneFile (lit "Subject: hi\r\nFrom: bob\r\n\r\nbody") (lastMessage 1)
  have hd : InMailbox 1 1 pageSession (pageDB 1) := ⟨rfl, rfl, rfl⟩
  have htag : ' '.toUInt8 ∉ lit "a" := by decide +kernel
  have htext := subjectItem.returns_text_of_eq (lit "a") hread hd (k := 1) (by decide) (by decide)
    rfl (by decide +kernel) (by decide +kernel) [lit "]"]
  have hparen := subjectItem.returns_paren (lit "a") hread hd (k := 1) (by decide) (by decide) rfl
  refine ⟨by decide +kernel, ⟨_, subjectItem.parses_text htag (k := 1), ?_⟩,
    ⟨_, subjectItem.parses_paren htag (k := 1), ?_⟩, fun h => ?_⟩
  · exact htext.of_eq (by decide +kernel)
  · exact hparen.of_eq (by decide +kernel)
  · have hwhole := subjectItem.isWhole_of_agree hread hd (by decide) (by decide +kernel) rfl htag h
    exact absurd hwhole.names (by decide +kernel)

end MailStack.Imap
