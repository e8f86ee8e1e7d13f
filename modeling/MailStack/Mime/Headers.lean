import MailStack.Mime.Fields

/-!
# Mime/Headers — headers with either line ending

`SplitHeadersAndBody` looks for two CRLF first, wherever they are, so with LF for an ending the body
is found exactly if there are none in it (`splitHeadersAndBody_iff`).  `GetHeaderValue` finds the
first field of a name, however it is folded; where nothing stands on its first line, the value
starts with the space that joins the next fragment to it (`getHeaderValue_iff`).
-/

open Bytes Search

namespace MailStack.Mime

/-! ## Where the body starts -/

section Split

variable {terminator : Bytes} {ls : List Bytes}

/-- With LF for an ending, two CRLF are looked for in the body. -/
theorem splitHeadersAndBody_lf (hne : ls ≠ []) (hls : ∀ l ∈ ls, IsHeaderLine l) (body : Bytes) :
    splitHeadersAndBody ((lit "\n").intercalate ls ++ (lit "\n\n" ++ body)) =
      match cutSub (lit "\r\n\r\n") body with
      | some (front, back) => ((lit "\n").intercalate ls ++ lit "\n\n" ++ front, back)
      | none => ((lit "\n").intercalate ls, body) := by
  have hcr : '\r'.toUInt8 ∉ (lit "\n").intercalate ls ++ lit "\n\n" :=
    List.not_mem_append (notMem_intercalate (by decide) fun l hl => (hls l hl).2.1) (by decide)
  have hcut := cutSub_append (d := lit "\r\n\r\n") rfl body hcr
  rw [List.append_assoc] at hcut
  rw [splitHeadersAndBody, hcut]
  cases cutSub (lit "\r\n\r\n") body with
  | some p => rfl
  | none =>
    obtain ⟨l, ls, rfl⟩ := List.exists_cons_of_ne_nil hne
    obtain ⟨hl, hls⟩ := List.forall_mem_cons.mp hls
    have hlf : cutSub (lit "\n\n") ((lit "\n").intercalate (l :: ls) ++ (lit "\n\n" ++ body)) =
        some ((lit "\n").intercalate (l :: ls), body) := cutSub_intercalate (.inl rfl) body hl.2 hls
    rw [Option.map_none, hlf]

/-- **The body starts after the first empty line exactly if** the ending is CRLF, or the body has
no two CRLF in a row. Otherwise the headers go on into the body. -/
theorem splitHeadersAndBody_iff (hterm : IsTerminator terminator) (hne : ls ≠ [])
    (hls : ∀ l ∈ ls, IsHeaderLine l) (body : Bytes) :
    splitHeadersAndBody (endLines terminator ls ++ terminator ++ body) =
        (terminator.intercalate ls, body) ↔
      (terminator = lit "\n" → ¬ lit "\r\n\r\n" <:+: body) := by
  rcases hterm with rfl | rfl
  · have hraw : endLines (lit "\n") ls ++ lit "\n" ++ body =
        (lit "\n").intercalate ls ++ (lit "\n\n" ++ body) := by
      obtain ⟨l, ls, rfl⟩ := List.exists_cons_of_ne_nil hne
      rw [endLines_eq_intercalate, List.append_assoc, List.append_assoc]
      rfl
    rw [hraw, splitHeadersAndBody_lf hne hls]
    cases hcut : cutSub (lit "\r\n\r\n") body with
    | none => exact iff_of_true rfl fun _ => cutSub_eq_none_iff.mp hcut
    | some p =>
      refine iff_of_false (fun hsame => ?_) fun hnone => ?_
      · have hlength := congrArg List.length (Prod.mk.inj hsame).1
        simp only [List.length_append] at hlength
        have htwo : (lit "\n\n").length = 2 := rfl
        omega
      · exact nomatch hcut.symm.trans (cutSub_eq_none_iff.mpr (hnone rfl))
  · refine iff_of_true ?_ fun h => absurd h (by decide)
    rw [← joinLines_eq_intercalate]
    exact splitHeadersAndBody_unlines hne hls body

theorem splitHeadersAndBody_iff_two :
    splitHeadersAndBody (endLines (lit "\n") [lit "A: b", lit "C: d"] ++ lit "\n" ++
        lit "b\n\nc") = ((lit "\n").intercalate [lit "A: b", lit "C: d"], lit "b\n\nc") ↔
      (lit "\n" = lit "\n" → ¬ lit "\r\n\r\n" <:+: lit "b\n\nc") :=
  splitHeadersAndBody_iff (.inl rfl) (List.cons_ne_nil _ _)
    (List.forall_mem_cons.mpr ⟨⟨List.cons_ne_nil _ _, by decide⟩,
      List.forall_mem_singleton.mpr ⟨List.cons_ne_nil _ _, by decide⟩⟩) _

theorem not_splitHeadersAndBody : ∃ ls body, ls ≠ [] ∧ (∀ l ∈ ls, IsHeaderLine l) ∧
    splitHeadersAndBody (endLines (lit "\n") ls ++ lit "\n" ++ body) ≠
      ((lit "\n").intercalate ls, body) :=
  ⟨[lit "a"], lit "b\r\n\r\nc", List.cons_ne_nil _ _,
    List.forall_mem_singleton.mpr ⟨List.cons_ne_nil _ _, by decide⟩, by decide +kernel⟩

end Split

/-! ## Folded fields -/

/-- A line on which a field goes on: a space or a tab, and a fragment of the value. -/
def IsFold (p : UInt8 × Bytes) : Prop := (p.1 = ' '.toUInt8 ∨ p.1 = '\t'.toUInt8) ∧ NoBreak p.2

theorem IsFold.isBlank {p : UInt8 × Bytes} (h : IsFold p) : isBlank p.1 = true := by
  rcases h.1 with hp | hp
  · rw [hp]
    decide
  · rw [hp]
    decide

/-- A fold does not begin with a colon. -/
theorem IsFold.ne_colon {p : UInt8 × Bytes} (h : IsFold p) : p.1 ≠ ':'.toUInt8 := by
  intro hp
  have hblank := h.isBlank
  rw [hp] at hblank
  exact absurd hblank (by decide)

/-- A folded line has no break. -/
theorem IsFold.noBreak {p : UInt8 × Bytes} (h : IsFold p) : NoBreak (p.1 :: p.2) := by
  have hfirst : NoBreak [p.1] := by
    rcases h.1 with hp | hp
    · rw [hp]
      decide
    · rw [hp]
      decide
  exact noBreak_append.mpr ⟨hfirst, h.2⟩

/-- A header field: its name, the fragment on its first line, and the fragments on the lines on
which it goes on, each behind a blank. -/
structure FoldedField where
  name : Bytes
  first : Bytes
  more : List (UInt8 × Bytes) := []
  name_plain : ∀ c ∈ name, isBlank c = false ∧ c ≠ ':'.toUInt8
  first_noBreak : NoBreak first
  more_folded : ∀ p ∈ more, IsFold p

namespace FoldedField

variable (f : FoldedField)

/-- How the field is written. -/
def lines : List Bytes := (f.name ++ lit ":" ++ f.first) :: f.more.map fun p => p.1 :: p.2

def fragments : List Bytes := f.first :: f.more.map Prod.snd

/-- The value: the fragments trimmed, the empty ones dropped, with single spaces between them. -/
def value : Bytes := (lit " ").intercalate ((f.fragments.map trim).filter (· ≠ []))

/-- What is left of the fragments behind the first. -/
def appended : List Bytes := (f.more.map fun p => trim p.2).filter (· ≠ [])

/-- How the field is read. -/
def read : Bytes := trim f.first ++ f.appended.flatMap (lit " " ++ ·)

theorem noBreak_name : NoBreak f.name :=
  ⟨fun h => absurd (f.name_plain _ h).1 (by decide),
    fun h => absurd (f.name_plain _ h).1 (by decide)⟩

theorem isHeaderLine : ∀ l ∈ f.lines, IsHeaderLine l := by
  rw [lines, List.forall_mem_cons, List.forall_mem_map]
  constructor
  · exact ⟨List.append_ne_nil_of_left_ne_nil
        (List.append_ne_nil_of_right_ne_nil f.name (List.cons_ne_nil _ _)) f.first,
      noBreak_append.mpr ⟨noBreak_append.mpr ⟨f.noBreak_name, by decide⟩, f.first_noBreak⟩⟩
  · intro p hp
    exact ⟨List.cons_ne_nil _ _, (f.more_folded p hp).noBreak⟩

/-- The field starts no line with a blank. -/
theorem head?_lines : ∀ l ∈ f.lines.head?, IsHeaderLine l ∧ ∃ c ∈ l.head?, isBlank c = false := by
  intro l hl
  obtain rfl := Option.some.inj hl
  refine ⟨f.isHeaderLine _ List.mem_cons_self, ?_⟩
  cases hname : f.name with
  | nil => exact ⟨':'.toUInt8, rfl, by decide⟩
  | cons c t => exact ⟨c, rfl, (f.name_plain c (hname ▸ List.mem_cons_self)).1⟩

/-- A field is cut at its colon. -/
theorem cut_line : cut ':'.toUInt8 (f.name ++ lit ":" ++ f.first) = some (f.name, f.first) := by
  refine cut_eq_some_iff.mpr ⟨?_, fun h => (f.name_plain _ h).2 rfl⟩
  rw [List.append_assoc]
  rfl

end FoldedField

/-- **A field is read as its value exactly if** something stands on its first line, or nothing on
the others. -/
theorem FoldedField.read_eq_value_iff (f : FoldedField) :
    f.read = f.value ↔ trim f.first ≠ [] ∨ ∀ p ∈ f.more, trim p.2 = [] := by
  have hfragments : (f.fragments.map trim).filter (· ≠ []) =
      [trim f.first].filter (· ≠ []) ++ f.appended := by
    rw [fragments, List.map_cons, List.map_map, appended, ← List.filter_append]
    rfl
  have hnone : f.appended = [] ↔ ∀ p ∈ f.more, trim p.2 = [] := by
    rw [appended, List.filter_eq_nil_iff, List.forall_mem_map]
    simp
  rw [read, value, hfragments]
  by_cases hfirst : trim f.first = []
  · rw [or_iff_right (not_not.mpr hfirst), ← hnone, hfirst, List.filter_cons_of_neg (by simp),
      List.filter_nil, List.nil_append, List.nil_append]
    cases f.appended with
    | nil => exact iff_of_true rfl rfl
    | cons w ws =>
      refine iff_of_false (fun hsame => ?_) (List.cons_ne_nil w ws)
      have hlength := congrArg List.length hsame
      rw [intercalate_eq_flatMap, List.flatMap_cons] at hlength
      have hone : (lit " ").length = 1 := rfl
      simp only [List.length_append] at hlength
      omega
  · refine iff_of_true ?_ (.inl hfirst)
    rw [List.filter_cons_of_pos (by simpa using hfirst), List.filter_nil, List.singleton_append,
      intercalate_eq_flatMap]

/-! ## Reading folded fields -/

section Read

variable {key : Bytes} {rest : List Bytes}

theorem lower_lower (c : UInt8) : lower (lower c) = lower c := by
  have hall : ∀ n < 256, lower (lower (UInt8.ofNat n)) = lower (UInt8.ofNat n) := by decide +kernel
  have h := hall c.toNat c.toNat_lt
  rwa [UInt8.ofNat_toNat] at h

/-- Comparing without case. -/
theorem iequals_toLower (name k : Bytes) : iequals name (toLower k) = iequals name k := by
  have hk : toLower (toLower k) = toLower k := by
    rw [toLower, toLower, List.map_map]
    exact List.map_congr_left fun c _ => lower_lower c
  rw [iequals, iequals, hk]

theorem not_isBlank_lower {c : UInt8} (h : isBlank c = false) : isBlank (lower c) = false := by
  have hall : ∀ n < 256, isBlank (UInt8.ofNat n) = false →
      isBlank (lower (UInt8.ofNat n)) = false := by decide +kernel
  have hc := hall c.toNat c.toNat_lt
  rw [UInt8.ofNat_toNat] at hc
  exact hc h

/-- A name that starts with a blank is no other name. -/
theorem iequals_blank_cons (hkey : ∀ c ∈ key, isBlank c = false) {b : UInt8}
    (hb : isBlank b = true) (name : Bytes) : iequals (b :: name) key = false := by
  rw [iequals, decide_eq_false_iff_not]
  intro hsame
  have hmem : lower b ∈ toLower key := by
    rw [← hsame]
    exact List.mem_cons_self
  obtain ⟨c, hc, hlower⟩ := List.mem_map.mp hmem
  exact absurd (isBlank_lower hb) (by rw [← hlower, not_isBlank_lower (hkey c hc)]; decide)

namespace FoldedField

/-- The lines on which a value goes on are read up to the next field. -/
theorem unfoldValue_folded
    (hrest : ∀ l ∈ rest.head?, IsHeaderLine l ∧ ∃ c ∈ l.head?, isBlank c = false) :
    ∀ {more : List (UInt8 × Bytes)} (result : Bytes),
      (∀ p ∈ more, IsFold p) →
        unfoldValue result ((more.map fun p => p.1 :: p.2) ++ rest) =
          result ++ ((more.map fun p => trim p.2).filter (· ≠ [])).flatMap (lit " " ++ ·)
  | [], result, _ => by
      rw [List.map_nil, List.nil_append, Field.unfoldValue_stop hrest]
      exact (List.append_nil result).symm
  | p :: more, result, hmore => by
      obtain ⟨hp, hmore⟩ := List.forall_mem_cons.mp hmore
      have hhead : (p.1 :: p.2).head? = some ' '.toUInt8 ∨
          (p.1 :: p.2).head? = some '\t'.toUInt8 := hp.1.imp (congrArg some) (congrArg some)
      rw [List.map_cons, List.cons_append, unfoldValue, popBack_of_notMem hp.noBreak.1]
      dsimp only
      rw [if_neg (List.cons_ne_nil p.1 p.2), if_pos hhead, trim_cons p.2 hp.isBlank,
        unfoldValue_folded hrest _ hmore, List.map_cons]
      by_cases hempty : trim p.2 = []
      · rw [if_neg (not_not.mpr hempty), List.filter_cons_of_neg (by simpa using hempty)]
      · rw [if_pos hempty, List.filter_cons_of_pos (by simpa using hempty), List.flatMap_cons]
        simp only [List.append_assoc]

/-- The first line of a field of that name. -/
theorem findField_cons (f : FoldedField) (hkey : iequals f.name key = true)
    (hrest : ∀ l ∈ rest.head?, IsHeaderLine l ∧ ∃ c ∈ l.head?, isBlank c = false) :
    findField key (f.lines ++ rest) = f.read := by
  obtain ⟨hne, hbreak⟩ := f.isHeaderLine _ List.mem_cons_self
  rw [lines, List.cons_append, findField, popBack_of_notMem hbreak.1, if_neg hne, f.cut_line]
  dsimp only
  rw [if_pos hkey, unfoldValue_folded hrest _ f.more_folded]
  rfl

/-- A line on which another field goes on is passed over, whatever it looks like. If it looks like
a field, its name starts with the blank. -/
theorem findField_folded (hkey : ∀ c ∈ key, isBlank c = false) (rest : List Bytes) :
    ∀ {more : List (UInt8 × Bytes)}, (∀ p ∈ more, IsFold p) →
      findField key ((more.map fun p => p.1 :: p.2) ++ rest) = findField key rest
  | [], _ => rfl
  | p :: more, hmore => by
      obtain ⟨hp, hmore⟩ := List.forall_mem_cons.mp hmore
      rw [List.map_cons, List.cons_append, findField, popBack_of_notMem hp.noBreak.1,
        if_neg (List.cons_ne_nil p.1 p.2)]
      cases hcut : cut ':'.toUInt8 (p.1 :: p.2) with
      | none => exact findField_folded hkey rest hmore
      | some q =>
        obtain ⟨name, text⟩ := q
        obtain ⟨hsplit, -⟩ := cut_eq_some_iff.mp hcut
        have hother : iequals name key = false := by
          cases name with
          | nil => exact absurd (List.cons.inj hsplit).1 hp.ne_colon
          | cons c name =>
            obtain ⟨rfl, -⟩ := List.cons.inj hsplit
            exact iequals_blank_cons hkey hp.isBlank name
        dsimp only
        rw [if_neg (by simp [hother])]
        exact findField_folded hkey rest hmore

/-- **A field of another name is passed over**, with all of its lines. -/
theorem findField_append (hkey : ∀ c ∈ key, isBlank c = false) (f : FoldedField)
    (hname : iequals f.name key = false) (rest : List Bytes) :
    findField key (f.lines ++ rest) = findField key rest := by
  obtain ⟨hne, hbreak⟩ := f.isHeaderLine _ List.mem_cons_self
  rw [lines, List.cons_append, findField, popBack_of_notMem hbreak.1, if_neg hne, f.cut_line]
  dsimp only
  rw [if_neg (by simp [hname])]
  exact findField_folded hkey rest f.more_folded

end FoldedField

/-- The lines of all fields. -/
def foldedLines (fs : List FoldedField) : List Bytes := fs.flatMap FoldedField.lines

/-- Folded fields are written on header lines. -/
theorem isHeaderLine_foldedLines (fs : List FoldedField) :
    ∀ l ∈ foldedLines fs, IsHeaderLine l := by
  intro l hl
  obtain ⟨f, -, hl⟩ := List.mem_flatMap.mp hl
  exact f.isHeaderLine l hl

/-- Their first line does not begin with a blank alone. -/
theorem head?_foldedLines (fs : List FoldedField) :
    ∀ l ∈ (foldedLines fs).head?, IsHeaderLine l ∧ ∃ c ∈ l.head?, isBlank c = false := by
  cases fs with
  | nil => exact fun l hl => nomatch hl
  | cons f fs => exact f.head?_lines

/-- The first field of the name. -/
def firstNamed (k : Bytes) (fs : List FoldedField) : Option FoldedField :=
  fs.find? fun f => iequals f.name k

/-- **The first field of the name is read.** -/
theorem findField_foldedLines (hkey : ∀ c ∈ key, isBlank c = false) : ∀ fs : List FoldedField,
    findField key (foldedLines fs) = ((firstNamed key fs).map FoldedField.read).getD []
  | [] => rfl
  | f :: fs => by
      rw [foldedLines, List.flatMap_cons, firstNamed, List.find?_cons]
      cases hname : iequals f.name key with
      | true => exact f.findField_cons hname (head?_foldedLines fs)
      | false =>
        rw [f.findField_append hkey hname]
        exact findField_foldedLines hkey fs

end Read

/-- **`GetHeaderValue` returns the value of the first field of the name exactly if** the fragment on
the first line of that field is not blank, or all the others are. -/
theorem getHeaderValue_iff {terminator headers k : Bytes} {fs : List FoldedField}
    (hterm : IsTerminator terminator) (hk : ∀ c ∈ k, isBlank c = false)
    (hheaders : headers = endLines terminator (foldedLines fs) ∨
      headers = terminator.intercalate (foldedLines fs)) :
    getHeaderValue headers (k ++ lit ":") = ((firstNamed k fs).map FoldedField.value).getD [] ↔
      ∀ f ∈ firstNamed k fs, trim f.first ≠ [] ∨ ∀ p ∈ f.more, trim p.2 = [] := by
  have hlines := isHeaderLine_foldedLines fs
  have hget : (getlines '\n'.toUInt8 headers).map (popBack '\r'.toUInt8) = foldedLines fs := by
    rcases hheaders with rfl | rfl
    · exact getlines_endLines hterm fun l hl => (hlines l hl).2
    · exact getlines_intercalate hterm hlines
  have hkey : popBack ':'.toUInt8 (toLower (k ++ lit ":")) = toLower k := by
    rw [toLower_append]
    exact popBack_append ':'.toUInt8 (toLower k)
  have hblank : ∀ c ∈ toLower k, isBlank c = false :=
    List.forall_mem_map.mpr fun c hc => not_isBlank_lower (hk c hc)
  have hnamed : firstNamed (toLower k) fs = firstNamed k fs := by
    rw [firstNamed, firstNamed]
    exact congrArg (fs.find? ·) (funext fun f => iequals_toLower f.name k)
  rw [getHeaderValue_of_getlines _ (fun l hl => (hlines l hl).2) hget, hkey,
    findField_foldedLines hblank, hnamed]
  cases firstNamed k fs with
  | none => exact iff_of_true rfl fun f hf => nomatch hf
  | some f =>
    rw [Option.map_some, Option.map_some, Option.getD_some, Option.getD_some, f.read_eq_value_iff]
    constructor
    · rintro h g hg
      obtain rfl := Option.some.inj hg
      exact h
    · exact fun h => h f rfl

/-- A subject on two lines. -/
def subject : FoldedField where
  name := lit "Subject"
  first := lit " a"
  more := [('\t'.toUInt8, lit "From: b")]
  name_plain := by decide +kernel
  first_noBreak := by decide
  more_folded := List.forall_mem_singleton.mpr ⟨.inr rfl, by decide⟩

theorem getHeaderValue_iff_subject :
    getHeaderValue (endLines (lit "\n") (foldedLines [subject])) (lit "SUBJECT" ++ lit ":") =
        ((firstNamed (lit "SUBJECT") [subject]).map FoldedField.value).getD [] ↔
      ∀ f ∈ firstNamed (lit "SUBJECT") [subject], trim f.first ≠ [] ∨ ∀ p ∈ f.more, trim p.2 = [] :=
  getHeaderValue_iff (.inl rfl) (by decide +kernel) (.inl rfl)

/-- A subject with nothing on its first line. -/
theorem not_getHeaderValue : ∃ (fs : List FoldedField) (k : Bytes), (∀ c ∈ k, isBlank c = false) ∧
    getHeaderValue (endLines (lit "\r\n") (foldedLines fs)) (k ++ lit ":") ≠
      ((firstNamed k fs).map FoldedField.value).getD [] := by
  refine ⟨[{ subject with first := [], first_noBreak := by decide }], lit "Subject", ?_, ?_⟩
  · decide +kernel
  · decide +kernel

end MailStack.Mime
