import MailStack.Machinery.Lines
import MailStack.Mime.Parser

/-!
# Mime/Fields — header blocks, and what the parser finds in them

A header block is a list of lines, none of them empty and none with a break in it.  After such a
block and an empty line `SplitHeadersAndBody` starts the body, and `GetHeaderValue` reads the lines
one by one.  A `Field` is a name and a value that may go on over more lines; `GetHeaderValue` finds
the first field of a name, with its lines trimmed and joined by spaces.
-/

open Bytes Search

namespace MailStack.Mime

/-! ## Lines -/

/-- The lines with CRLF between them. -/
def joinLines : List Bytes → Bytes
  | [] => []
  | [l] => l
  | l :: ls => l ++ lit "\r\n" ++ joinLines ls

theorem joinLines_cons (l : Bytes) {ls : List Bytes} (h : ls ≠ []) :
    joinLines (l :: ls) = l ++ lit "\r\n" ++ joinLines ls := by
  cases ls with
  | nil => exact absurd rfl h
  | cons l' ls => rfl

/-- Lines each ended are lines joined and ended once more. -/
theorem unlines_eq_joinLines : ∀ {ls : List Bytes}, ls ≠ [] → unlines ls = joinLines ls ++ lit "\r\n"
  | [l], _ => by rw [unlines_cons, unlines_nil, List.append_nil, joinLines]
  | l :: l' :: ls, _ => by
      rw [unlines_cons, unlines_eq_joinLines (List.cons_ne_nil l' ls),
        joinLines_cons l (List.cons_ne_nil l' ls)]
      simp only [List.append_assoc]

/-- A line of a header block. -/
def IsHeaderLine (l : Bytes) : Prop := l ≠ [] ∧ NoBreak l

/-- Joining is `intercalate`. -/
theorem joinLines_eq_intercalate : ∀ ls : List Bytes, joinLines ls = (lit "\r\n").intercalate ls
  | [] => rfl
  | [l] => List.intercalate_singleton.symm
  | l :: l' :: ls => by
      rw [joinLines_cons l (List.cons_ne_nil l' ls), joinLines_eq_intercalate (l' :: ls),
        List.intercalate_cons_cons]

/-- **The body starts after the empty line.** -/
theorem splitHeadersAndBody_unlines {ls : List Bytes} (hne : ls ≠ [])
    (hls : ∀ l ∈ ls, IsHeaderLine l) (body : Bytes) :
    splitHeadersAndBody (unlines ls ++ lit "\r\n" ++ body) = (joinLines ls, body) := by
  have hraw : unlines ls ++ lit "\r\n" ++ body = joinLines ls ++ (lit "\r\n\r\n" ++ body) := by
    rw [unlines_eq_joinLines hne, List.append_assoc, List.append_assoc]
    rfl
  obtain ⟨l, ls, rfl⟩ := List.exists_cons_of_ne_nil hne
  obtain ⟨hl, hls⟩ := List.forall_mem_cons.mp hls
  have hcut : cutSub (lit "\r\n\r\n") (joinLines (l :: ls) ++ (lit "\r\n\r\n" ++ body)) =
      some (joinLines (l :: ls), body) := by
    rw [joinLines_eq_intercalate]
    exact cutSub_intercalate (.inr rfl) body hl.2 hls
  rw [splitHeadersAndBody, hraw, hcut]

/-! ## Reading the lines -/

/-- Nothing is dropped that is not there. -/
theorem popBack_of_notMem {c : UInt8} {line : Bytes} (h : c ∉ line) : popBack c line = line := by
  rw [popBack, if_neg]
  exact fun hlast => h (List.mem_of_getLast? hlast)

theorem popBack_append (c : UInt8) (line : Bytes) : popBack c (line ++ [c]) = line := by
  rw [popBack, if_pos List.getLast?_concat, List.dropLast_concat]

/-- Only what is left of a line after `pop_back` counts. -/
theorem unfoldValue_congr :
    ∀ {ls ls' : List Bytes}, ls.map (popBack '\r'.toUInt8) = ls'.map (popBack '\r'.toUInt8) →
      ∀ result, unfoldValue result ls = unfoldValue result ls'
  | [], [], _, _ => rfl
  | l :: ls, l' :: ls', h, result => by
      obtain ⟨hl, hls⟩ := List.cons.inj h
      simp only [unfoldValue, hl, unfoldValue_congr hls]

/-- Only the lines without their carriage return matter. -/
theorem findField_congr (key : Bytes) :
    ∀ {ls ls' : List Bytes}, ls.map (popBack '\r'.toUInt8) = ls'.map (popBack '\r'.toUInt8) →
      findField key ls = findField key ls'
  | [], [], _ => rfl
  | l :: ls, l' :: ls', h => by
      obtain ⟨hl, hls⟩ := List.cons.inj h
      simp only [findField, hl, findField_congr key hls, unfoldValue_congr hls]

/-- What `std::getline` and `pop_back` make of a line that either ending ends. -/
theorem getlines_terminated {terminator l : Bytes} (hterm : IsTerminator terminator)
    (hl : NoBreak l) (rest : Bytes) :
    (getlines '\n'.toUInt8 (l ++ (terminator ++ rest))).map (popBack '\r'.toUInt8) =
      l :: (getlines '\n'.toUInt8 rest).map (popBack '\r'.toUInt8) := by
  rcases hterm with rfl | rfl
  · have hraw : l ++ (lit "\n" ++ rest) = l ++ '\n'.toUInt8 :: rest := rfl
    rw [hraw, getlines_append_cons rest hl.2, List.map_cons, popBack_of_notMem hl.1]
  · have hraw : l ++ (lit "\r\n" ++ rest) = (l ++ ['\r'.toUInt8]) ++ '\n'.toUInt8 :: rest := by
      rw [List.append_assoc]
      rfl
    have hlf : '\n'.toUInt8 ∉ l ++ ['\r'.toUInt8] := List.not_mem_append hl.2 (by decide)
    rw [hraw, getlines_append_cons rest hlf, List.map_cons, popBack_append]

/-- Lines that are each ended are read back. -/
theorem getlines_endLines {terminator : Bytes} (hterm : IsTerminator terminator) :
    ∀ {ls : List Bytes}, (∀ l ∈ ls, NoBreak l) →
      (getlines '\n'.toUInt8 (endLines terminator ls)).map (popBack '\r'.toUInt8) = ls
  | [], _ => rfl
  | l :: ls, hls => by
      obtain ⟨hl, hls⟩ := List.forall_mem_cons.mp hls
      rw [endLines_cons, getlines_terminated hterm hl, getlines_endLines hterm hls]

/-- So are lines with an ending between them. -/
theorem getlines_intercalate {terminator : Bytes} (hterm : IsTerminator terminator) :
    ∀ {ls : List Bytes}, (∀ l ∈ ls, IsHeaderLine l) →
      (getlines '\n'.toUInt8 (terminator.intercalate ls)).map (popBack '\r'.toUInt8) = ls
  | [], _ => rfl
  | [l], hls => by
      obtain ⟨hne, hl⟩ := hls l List.mem_cons_self
      rw [List.intercalate_singleton, getlines_of_notMem hl.2 hne, List.map_cons,
        popBack_of_notMem hl.1, List.map_nil]
  | l :: l' :: ls, hls => by
      obtain ⟨hl, hls⟩ := List.forall_mem_cons.mp hls
      rw [List.intercalate_cons_cons, List.append_assoc, getlines_terminated hterm hl.2,
        getlines_intercalate hterm hls]

/-- **`GetHeaderValue` reads the lines one by one.** -/
theorem getHeaderValue_of_getlines {headers : Bytes} {ls : List Bytes} (key : Bytes)
    (hls : ∀ l ∈ ls, NoBreak l)
    (h : (getlines '\n'.toUInt8 headers).map (popBack '\r'.toUInt8) = ls) :
    getHeaderValue headers key = findField (popBack ':'.toUInt8 (toLower key)) ls := by
  have hself : ls.map (popBack '\r'.toUInt8) = ls.map id :=
    List.map_congr_left fun l hl => popBack_of_notMem (hls l hl).1
  exact findField_congr _ (h.trans ((List.map_id ls).symm.trans hself.symm))

/-- A field is looked for line by line. -/
theorem getHeaderValue_joinLines (key : Bytes) {ls : List Bytes} (hls : ∀ l ∈ ls, IsHeaderLine l) :
    getHeaderValue (joinLines ls) key = findField (popBack ':'.toUInt8 (toLower key)) ls := by
  rw [joinLines_eq_intercalate]
  exact getHeaderValue_of_getlines key (fun l hl => (hls l hl).2)
    (getlines_intercalate (.inr rfl) hls)

theorem mem_popBack {c x : UInt8} {line : Bytes} (h : x ∈ popBack c line) : x ∈ line := by
  rw [popBack] at h
  split_ifs at h
  · exact (List.dropLast_sublist line).subset h
  · exact h

theorem mem_trim {x : UInt8} {s : Bytes} (h : x ∈ trim s) : x ∈ s := by
  obtain ⟨a, b, hs, -⟩ := exists_trim s
  rw [hs]
  simp [h]

/-- Unfolding brings in nothing but spaces. -/
theorem notMem_unfoldValue {x : UInt8} (hx : x ≠ ' '.toUInt8) :
    ∀ {ls : List Bytes} {result : Bytes}, x ∉ result → (∀ l ∈ ls, x ∉ l) →
      x ∉ unfoldValue result ls
  | [], _, hresult, _ => hresult
  | l :: ls, result, hresult, hls => by
      obtain ⟨hl, hls⟩ := List.forall_mem_cons.mp hls
      rw [unfoldValue]
      dsimp only
      split_ifs
      · exact notMem_unfoldValue hx hresult hls
      · refine notMem_unfoldValue hx ?_ hls
        simp only [List.mem_append, not_or]
        exact ⟨⟨hresult, List.not_mem_cons_of_ne_of_not_mem hx List.not_mem_nil⟩,
          fun h => hl (mem_popBack (mem_trim h))⟩
      · exact notMem_unfoldValue hx hresult hls
      · exact hresult

/-- A value is made of the lines it is found on. -/
theorem notMem_findField {x : UInt8} (hx : x ≠ ' '.toUInt8) (key : Bytes) :
    ∀ {ls : List Bytes}, (∀ l ∈ ls, x ∉ l) → x ∉ findField key ls
  | [], _ => List.not_mem_nil
  | l :: ls, hls => by
      obtain ⟨hl, hls⟩ := List.forall_mem_cons.mp hls
      have ih := notMem_findField hx key hls
      rw [findField]
      split_ifs
      · exact ih
      · split
        · exact ih
        · rename_i name value hcut
          have hvalue : x ∉ value := by
            intro h
            refine hl (mem_popBack (c := '\r'.toUInt8) ?_)
            rw [(cut_eq_some_iff.mp hcut).1]
            exact List.mem_append_right name (List.mem_cons_of_mem _ h)
          split_ifs
          · exact notMem_unfoldValue hx (fun h => hvalue (mem_trim h)) hls
          · exact ih

/-- A value has no line feed, folded as it may be. -/
theorem notMem_getHeaderValue (headers key : Bytes) :
    '\n'.toUInt8 ∉ getHeaderValue headers key :=
  notMem_findField (by decide) _ fun _ hl => notMem_of_mem_getlines hl

/-! ## Fields -/

/-- The name of a header field. -/
def IsFieldName (name : Bytes) : Prop :=
  (∃ c ∈ name.head?, isBlank c = false) ∧ NoBreak name ∧ ':'.toUInt8 ∉ name

instance (name : Bytes) : Decidable (IsFieldName name) := inferInstanceAs (Decidable (_ ∧ _ ∧ _))

/-- A header field: its name, its value, and the lines on which the value goes on. -/
structure Field where
  name : Bytes
  value : Bytes
  more : List Bytes := []
  isFieldName : IsFieldName name
  noBreak_value : NoBreak value
  noBreak_more : ∀ w ∈ more, NoBreak w ∧ ':'.toUInt8 ∉ w

namespace Field

/-- How the field is written. -/
def lines (f : Field) : List Bytes :=
  (f.name ++ lit ": " ++ f.value) :: f.more.map (lit "\t" ++ ·)

/-- How the field is read. -/
def text (f : Field) : Bytes :=
  f.more.foldl (fun result w => if trim w ≠ [] then result ++ lit " " ++ trim w else result)
    (trim f.value)

/-- The first line starts with a character that is not blank. -/
theorem exists_head (f : Field) :
    ∃ c t, f.name ++ lit ": " ++ f.value = c :: t ∧ isBlank c = false := by
  obtain ⟨⟨c, hc, hblank⟩, -⟩ := f.isFieldName
  obtain ⟨t, ht⟩ := List.head?_eq_some_iff.mp hc
  exact ⟨c, t ++ lit ": " ++ f.value, by rw [ht]; rfl, hblank⟩

/-- A field is written on header lines. -/
theorem isHeaderLine (f : Field) : ∀ l ∈ f.lines, IsHeaderLine l := by
  rw [lines, List.forall_mem_cons, List.forall_mem_map]
  constructor
  · obtain ⟨c, t, ht, -⟩ := f.exists_head
    refine ⟨ht ▸ List.cons_ne_nil c t, ?_⟩
    exact noBreak_append.mpr ⟨noBreak_append.mpr ⟨f.isFieldName.2.1, by decide⟩, f.noBreak_value⟩
  · intro w hw
    exact ⟨List.cons_ne_nil _ _, noBreak_append.mpr ⟨by decide, (f.noBreak_more w hw).1⟩⟩

/-- A line that starts with no blank ends the value. -/
theorem unfoldValue_stop {rest : List Bytes}
    (hrest : ∀ l ∈ rest.head?, IsHeaderLine l ∧ ∃ c ∈ l.head?, isBlank c = false) (result : Bytes) :
    unfoldValue result rest = result := by
  cases rest with
  | nil => rfl
  | cons l rest =>
    obtain ⟨hl, c, hc, hblank⟩ := hrest l rfl
    have hhead : ¬ (l.head? = some ' '.toUInt8 ∨ l.head? = some '\t'.toUInt8) := by
      rw [Option.mem_def.mp hc]
      rintro (h | h) <;>
      · obtain rfl := Option.some.inj h
        exact absurd hblank (by decide)
    rw [unfoldValue, popBack_of_notMem hl.2.1]
    dsimp only
    rw [if_neg hl.1, if_neg hhead]

/-- The lines on which a value goes on are read up to the next field. -/
theorem unfoldValue_more {rest : List Bytes}
    (hrest : ∀ l ∈ rest.head?, IsHeaderLine l ∧ ∃ c ∈ l.head?, isBlank c = false) :
    ∀ {more : List Bytes} (result : Bytes), (∀ w ∈ more, NoBreak w) →
      unfoldValue result (more.map (lit "\t" ++ ·) ++ rest) =
        more.foldl (fun result w => if trim w ≠ [] then result ++ lit " " ++ trim w else result) result
  | [], result, _ => unfoldValue_stop hrest result
  | w :: more, result, hmore => by
      obtain ⟨hw, hmore⟩ := List.forall_mem_cons.mp hmore
      have hline : '\r'.toUInt8 ∉ lit "\t" ++ w := List.not_mem_append (by decide) hw.1
      have hne : lit "\t" ++ w ≠ [] := List.cons_ne_nil _ _
      have htrim : trim (lit "\t" ++ w) = trim w := trim_cons w (by decide)
      rw [List.map_cons, List.cons_append, unfoldValue, popBack_of_notMem hline]
      dsimp only
      rw [if_neg hne, if_pos (.inr rfl), htrim, unfoldValue_more hrest _ hmore]
      rfl

/-- The name of a field is what stands before the first colon of its first line. -/
theorem cut_line (f : Field) :
    cut ':'.toUInt8 (f.name ++ lit ": " ++ f.value) = some (f.name, lit " " ++ f.value) := by
  refine cut_eq_some_iff.mpr ⟨?_, f.isFieldName.2.2⟩
  rw [List.append_assoc]
  rfl

/-- The first line of a field of that name. -/
theorem findField_cons (f : Field) {key : Bytes} (hkey : iequals f.name key = true)
    {rest : List Bytes}
    (hrest : ∀ l ∈ rest.head?, IsHeaderLine l ∧ ∃ c ∈ l.head?, isBlank c = false) :
    findField key (f.lines ++ rest) = f.text := by
  obtain ⟨hne, hbreak⟩ := f.isHeaderLine _ List.mem_cons_self
  have htrim : trim (lit " " ++ f.value) = trim f.value := trim_cons f.value (by decide)
  rw [lines, List.cons_append, findField, popBack_of_notMem hbreak.1, if_neg hne, f.cut_line]
  dsimp only
  rw [if_pos hkey, htrim, unfoldValue_more hrest _ fun w hw => (f.noBreak_more w hw).1]
  rfl

/-- A field of another name is passed over, with all of its lines. -/
theorem findField_append (f : Field) {key : Bytes} (hkey : iequals f.name key = false)
    (rest : List Bytes) : findField key (f.lines ++ rest) = findField key rest := by
  obtain ⟨hne, hbreak⟩ := f.isHeaderLine _ List.mem_cons_self
  have hmore : ∀ {more : List Bytes}, (∀ w ∈ more, NoBreak w ∧ ':'.toUInt8 ∉ w) →
      findField key (more.map (lit "\t" ++ ·) ++ rest) = findField key rest := by
    intro more hmore
    induction more with
    | nil => rfl
    | cons w more ih =>
      obtain ⟨⟨hw, hcolon⟩, hmore⟩ := List.forall_mem_cons.mp hmore
      have hline : '\r'.toUInt8 ∉ lit "\t" ++ w := List.not_mem_append (by decide) hw.1
      have hne : lit "\t" ++ w ≠ [] := List.cons_ne_nil _ _
      have hnone : cut ':'.toUInt8 (lit "\t" ++ w) = none :=
        cut_eq_none (List.not_mem_append (by decide) hcolon)
      rw [List.map_cons, List.cons_append, findField, popBack_of_notMem hline, if_neg hne, hnone]
      exact ih hmore
  rw [lines, List.cons_append, findField, popBack_of_notMem hbreak.1, if_neg hne, f.cut_line]
  dsimp only
  rw [if_neg (by simp [hkey])]
  exact hmore f.noBreak_more

end Field

/-! ## Blocks of fields -/

/-- The lines of a block of fields. -/
def blockLines (fs : List Field) : List Bytes := fs.flatMap Field.lines

/-- So is a block of them. -/
theorem isHeaderLine_blockLines (fs : List Field) : ∀ l ∈ blockLines fs, IsHeaderLine l := by
  intro l hl
  obtain ⟨f, -, hl⟩ := List.mem_flatMap.mp hl
  exact f.isHeaderLine l hl

/-- What follows a field starts no line with a blank. -/
theorem head?_blockLines (fs : List Field) :
    ∀ l ∈ (blockLines fs).head?, IsHeaderLine l ∧ ∃ c ∈ l.head?, isBlank c = false := by
  intro l hl
  refine ⟨isHeaderLine_blockLines fs l (List.mem_of_mem_head? hl), ?_⟩
  cases fs with
  | nil => exact absurd hl (by simp [blockLines])
  | cons f fs =>
    obtain rfl := Option.some.inj hl
    obtain ⟨c, t, ht, hc⟩ := f.exists_head
    exact ⟨c, by rw [ht]; rfl, hc⟩

/-- **The headers and the body of a message or of a part.** -/
theorem splitHeadersAndBody_blockLines {fs : List Field} (hne : fs ≠ []) (body : Bytes) :
    splitHeadersAndBody (unlines (blockLines fs) ++ lit "\r\n" ++ body) =
      (joinLines (blockLines fs), body) := by
  refine splitHeadersAndBody_unlines ?_ (isHeaderLine_blockLines fs) body
  obtain ⟨f, fs, rfl⟩ := List.exists_cons_of_ne_nil hne
  exact List.cons_ne_nil _ _

section

variable {key : Bytes} (lowerKey : Bytes) (hkey : popBack ':'.toUInt8 (toLower key) = lowerKey)
include hkey

/-- **`GetHeaderValue` finds the first field of a name.** -/
theorem getHeaderValue_blockLines (before : List Field)
    (hbefore : ∀ g ∈ before, iequals g.name lowerKey = false) {f : Field}
    (hf : iequals f.name lowerKey = true) (after : List Field) :
    getHeaderValue (joinLines (blockLines (before ++ f :: after))) key = f.text := by
  rw [getHeaderValue_joinLines key (isHeaderLine_blockLines _), hkey]
  induction before with
  | nil =>
    rw [List.nil_append, blockLines, List.flatMap_cons]
    exact f.findField_cons hf (head?_blockLines after)
  | cons g before ih =>
    obtain ⟨hg, hbefore⟩ := List.forall_mem_cons.mp hbefore
    rw [List.cons_append, blockLines, List.flatMap_cons, g.findField_append hg]
    exact ih hbefore

/-- And none where there is none. -/
theorem getHeaderValue_blockLines_none {fs : List Field}
    (hfs : ∀ g ∈ fs, iequals g.name lowerKey = false) :
    getHeaderValue (joinLines (blockLines fs)) key = [] := by
  rw [getHeaderValue_joinLines key (isHeaderLine_blockLines _), hkey]
  induction fs with
  | nil => rfl
  | cons g fs ih =>
    obtain ⟨hg, hfs⟩ := List.forall_mem_cons.mp hfs
    rw [blockLines, List.flatMap_cons, g.findField_append hg]
    exact ih hfs

end

/-! ## Words in a value -/

theorem toLower_append (s t : Bytes) : toLower (s ++ t) = toLower s ++ toLower t := List.map_append

/-- A blank stays blank in lower case. -/
theorem isBlank_lower {c : UInt8} (h : isBlank c = true) : isBlank (lower c) = true := by
  simp only [isBlank, Bool.or_eq_true, decide_eq_true_eq] at h
  rcases h with ((rfl | rfl) | rfl) | rfl <;> decide

theorem not_isBlank_of_all {d : Bytes} (h : d.all (!isBlank ·) = true) :
    ∀ c ∈ d, isBlank c = false := fun c hc => by
  simpa using List.all_eq_true.mp h c hc

section

variable {d : Bytes} (hd : d ≠ []) (hblank : ∀ c ∈ d, isBlank c = false)
include hd hblank

/-- A word without blanks is in a trimmed text where it is in the text. -/
theorem infix_toLower_trim (s : Bytes) : d <:+: toLower (trim s) ↔ d <:+: toLower s := by
  obtain ⟨a, b, hs, ha, hb⟩ := exists_trim s
  have hout : ∀ {t : Bytes}, (∀ c ∈ t, isBlank c = true) → ∀ c ∈ toLower t, c ∉ d := by
    intro t ht c hc hcd
    obtain ⟨c, hct, rfl⟩ := List.mem_map.mp hc
    exact absurd (isBlank_lower (ht c hct)) (by simp [hblank _ hcd])
  rw [iff_comm]
  nth_rewrite 1 [hs]
  rw [toLower_append, toLower_append]
  exact infix_append_disjoint hd (hout ha) (hout hb)

/-- **A word without blanks is in a value where it is on one of its lines.** -/
theorem infix_toLower_text (f : Field) :
    d <:+: toLower f.text ↔ d <:+: toLower f.value ∨ ∃ w ∈ f.more, d <:+: toLower w := by
  have hspace : ' '.toUInt8 ∉ d := fun h => absurd (hblank _ h) (by decide)
  have hfold : ∀ (more : List Bytes) (result : Bytes),
      d <:+: toLower (more.foldl (fun result w =>
        if trim w ≠ [] then result ++ lit " " ++ trim w else result) result) ↔
      d <:+: toLower result ∨ ∃ w ∈ more, d <:+: toLower w := by
    intro more
    induction more with
    | nil => simp
    | cons w more ih =>
      intro result
      have hstep : d <:+: toLower (if trim w ≠ [] then result ++ lit " " ++ trim w else result) ↔
          d <:+: toLower result ∨ d <:+: toLower w := by
        rw [← infix_toLower_trim hd hblank w]
        split_ifs with hw
        · rw [List.append_assoc, toLower_append]
          exact infix_append_cons hspace
        · rw [not_not.mp hw]
          simp [toLower, hd]
      rw [List.foldl_cons, ih, hstep]
      simp only [List.exists_mem_cons_iff, or_assoc]
  rw [Field.text, hfold, infix_toLower_trim hd hblank]

end

end MailStack.Mime
