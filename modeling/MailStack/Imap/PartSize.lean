import MailStack.Imap.BodySection

/-!
# Imap/PartSize — the octet count of a part, and the literal that `BODY[i]` returns for it

`ParsePartStructure` counts what stands between the header block of a part and the next delimiter,
the line break in front of that delimiter included.  `ExtractPartBySection` leaves this line break
out, and `GetBodySection` also drops the line breaks a body begins with.  So the two lengths are
equal where there is nothing to leave out (`sizesAgree_iff`), and in no part that is written the
usual way.
-/

open Bytes Search

namespace MailStack.Imap

open Mime (MimePart splitHeadersAndBody getHeaderValue extractBoundary isBreak popBack multipartParts
  splitType partStructure children_partStructure)

/-! ## `BuildBodystructureFromMimePart` -/

/-- What is printed for a leaf. -/
def leafText (type subtype charset encoding : Bytes) (size lines : ℕ) : Bytes :=
  lit "(\"" ++ type ++ lit "\" \"" ++ subtype ++ lit "\" " ++
    (lit "(\"charset\" \"" ++ charset ++ lit "\")") ++ lit " NIL NIL \"" ++ encoding ++
    lit "\" " ++ (decimal size ++ (lit " " ++ decimal lines ++ lit ")"))

mutual

/-- `BuildBodystructureFromMimePart`. -/
def buildBodystructureFromMimePart : MimePart → Bytes
  | ⟨type, subtype, charset, encoding, _, size, lines, boundary, children⟩ =>
    if type = lit "multipart" then
      lit "(" ++ buildChildren children ++ lit " \"" ++ subtype ++ lit "\"" ++
        (if boundary ≠ [] then lit " (\"boundary\" \"" ++ boundary ++ lit "\")" else lit " NIL") ++
        lit " NIL NIL)"
    else leafText type subtype charset encoding size lines

/-- The loop over the children. -/
def buildChildren : List MimePart → Bytes
  | [] => []
  | part :: parts => buildBodystructureFromMimePart part ++ buildChildren parts

end

/-- The octet count can be read off what is printed. -/
theorem leafText_inj {type subtype charset encoding : Bytes} {m n lines : ℕ} :
    leafText type subtype charset encoding m lines =
      leafText type subtype charset encoding n lines ↔ m = n := by
  refine ⟨fun h => Int.ofNat_inj.mp (decimal_injective ?_), fun h => h ▸ rfl⟩
  exact List.append_cancel_right (List.append_cancel_left h)

/-- The text that is printed for the leaf announces so many octets. -/
def Announces (part : MimePart) (octets : ℕ) : Prop :=
  buildBodystructureFromMimePart part =
    leafText part.type part.subtype part.charset part.encoding octets part.lines

/-- A leaf announces its size. -/
theorem announces_iff {part : MimePart} (hleaf : part.type ≠ lit "multipart") {octets : ℕ} :
    Announces part octets ↔ part.size = octets := by
  obtain ⟨type, subtype, charset, encoding, filename, size, lines, boundary, children⟩ := part
  rw [Announces, buildBodystructureFromMimePart, if_neg hleaf]
  exact leafText_inj

/-! ## What is cut off a part -/

/-- The line break that is taken off is one, and all of it. -/
theorem exists_dropBreak (x : Bytes) : ∃ t, x = dropBreak x ++ t ∧
    (t = [] ∧ x.getLast? ≠ some '\n'.toUInt8 ∨
      (t = lit "\n" ∧ (dropBreak x).getLast? ≠ some '\r'.toUInt8 ∨ t = lit "\r\n") ∧
        x.getLast? = some '\n'.toUInt8) := by
  rw [dropBreak]
  split_ifs with hlf
  · have hx : x = x.dropLast ++ lit "\n" := (List.dropLast_append_getLast? _ hlf).symm
    rw [popBack]
    split_ifs with hcr
    · have hy : x.dropLast = x.dropLast.dropLast ++ lit "\r" :=
        (List.dropLast_append_getLast? _ hcr).symm
      refine ⟨lit "\r\n", ?_, .inr ⟨.inr rfl, hlf⟩⟩
      calc x = x.dropLast ++ lit "\n" := hx
        _ = (x.dropLast.dropLast ++ lit "\r") ++ lit "\n" := by rw [← hy]
        _ = x.dropLast.dropLast ++ lit "\r\n" := List.append_assoc ..
    · exact ⟨lit "\n", hx, .inr ⟨.inl ⟨rfl, hcr⟩, hlf⟩⟩
  · exact ⟨[], (List.append_nil x).symm, .inl ⟨rfl, hlf⟩⟩

section Split

variable {s h b t y : Bytes}

/-- The first empty line ended by CRLF makes the cut. -/
theorem split_of_crlf (hcut : cutSub (lit "\r\n\r\n") s = some (h, b)) :
    splitHeadersAndBody s = (h, b) := by
  rw [splitHeadersAndBody, hcut]

/-- Without one, the first empty line ended by a line feed does. -/
theorem split_of_lf (hcrlf : cutSub (lit "\r\n\r\n") s = none)
    (hcut : cutSub (lit "\n\n") s = some (h, b)) : splitHeadersAndBody s = (h, b) := by
  rw [splitHeadersAndBody, hcrlf]
  dsimp only
  rw [hcut]

/-- Without either, all is body. -/
theorem split_of_none (hcrlf : cutSub (lit "\r\n\r\n") s = none)
    (hlf : cutSub (lit "\n\n") s = none) : splitHeadersAndBody s = ([], s) := by
  rw [splitHeadersAndBody, hcrlf]
  dsimp only
  rw [hlf]

/-- What the whole does not contain, its beginning does not. -/
theorem cutSub_none_of_append {d : Bytes} (hnone : cutSub d (s ++ t) = none) :
    cutSub d s = none :=
  cutSub_eq_none_iff.mpr fun hd => cutSub_eq_none_iff.mp hnone
    (hd.trans (List.prefix_append s t).isInfix)

theorem last_eq_of_concat_eq {c c' : UInt8} {u v : Bytes} (heq : u ++ [c] = v ++ [c']) :
    u = v ∧ c = c' := by
  obtain ⟨hu, hc⟩ := List.append_inj' heq rfl
  exact ⟨hu, (List.cons.inj hc).1⟩

/-- What is found in a longer text is found in the text, or reaches into what was added. -/
theorem cutSub_of_append {d : Bytes} (hcut : cutSub d (y ++ t) = some (h, b)) :
    (∃ c, cutSub d y = some (h, c) ∧ b = c ++ t) ∨ cutSub d y = none ∧ b.length < t.length := by
  cases hy : cutSub d y with
  | none => exact .inr ⟨rfl, length_lt_of_cutSub_append hy hcut⟩
  | some p =>
    obtain ⟨a, c⟩ := p
    obtain ⟨rfl, rfl⟩ :=
      Prod.mk.inj (Option.some.inj ((cutSub_append_right hy).symm.trans hcut))
    exact .inl ⟨c, rfl, rfl⟩

/-- The header block ends in the last line break. -/
theorem eq_append_of_blank (ht : t = lit "\n" ∧ y.getLast? ≠ some '\r'.toUInt8 ∨ t = lit "\r\n")
    (heq : y ++ t = h ++ lit "\r\n\r\n" ++ b) (hb : b.length < t.length) :
    b = [] ∧ t = lit "\r\n" ∧ y = h ++ lit "\r\n" := by
  rcases ht with ⟨rfl, hcr⟩ | rfl
  · obtain rfl : b = [] := List.eq_nil_of_length_eq_zero (Nat.lt_one_iff.mp hb)
    have hy : y ++ [10] = (h ++ [13, 10, 13]) ++ [10] := by
      rw [List.append_nil] at heq
      rw [List.append_assoc]
      exact heq
    rw [(last_eq_of_concat_eq hy).1, List.getLast?_append] at hcr
    exact absurd rfl hcr
  · match b, hb with
    | [], _ =>
      refine ⟨rfl, rfl, (List.append_left_inj (lit "\r\n")).mp ?_⟩
      rw [List.append_nil] at heq
      rw [List.append_assoc]
      exact heq
    | [c], _ =>
      have hy : (y ++ [13]) ++ [10] = (h ++ lit "\r\n\r\n") ++ [c] := by
        rw [List.append_assoc]
        exact heq
      have hlast : y ++ [13] = (h ++ [13, 10, 13]) ++ [10] := by
        rw [(last_eq_of_concat_eq hy).1, List.append_assoc]
        rfl
      exact absurd (last_eq_of_concat_eq hlast).2 (by decide)

/-- So it does where the lines end in `\n` alone. -/
theorem eq_append_of_blank_lf (ht : t = lit "\n" ∨ t = lit "\r\n")
    (heq : y ++ t = h ++ lit "\n\n" ++ b) (hb : b.length < t.length) :
    b = [] ∧ t = lit "\n" ∧ y = h ++ lit "\n" := by
  rcases ht with rfl | rfl
  · obtain rfl : b = [] := List.eq_nil_of_length_eq_zero (Nat.lt_one_iff.mp hb)
    refine ⟨rfl, rfl, (List.append_left_inj (lit "\n")).mp ?_⟩
    rw [List.append_nil] at heq
    rw [List.append_assoc]
    exact heq
  · match b, hb with
    | [], _ =>
      have hy : (y ++ [13]) ++ [10] = (h ++ [10]) ++ [10] := by
        rw [List.append_nil] at heq
        rw [List.append_assoc, List.append_assoc]
        exact heq
      exact absurd (last_eq_of_concat_eq (last_eq_of_concat_eq hy).1).2 (by decide)
    | [c], _ =>
      have hy : (y ++ [13]) ++ [10] = (h ++ lit "\n\n") ++ [c] := by
        rw [List.append_assoc]
        exact heq
      have hlast : y ++ [13] = (h ++ [10]) ++ [10] := by
        rw [(last_eq_of_concat_eq hy).1, List.append_assoc]
        rfl
      exact absurd (last_eq_of_concat_eq hlast).2 (by decide)

/-- A line break behind a text without a blank line belongs to the body. -/
theorem body_append_crlf (hcrlf : cutSub (lit "\r\n\r\n") (h ++ lit "\r\n") = none) :
    (splitHeadersAndBody (h ++ lit "\r\n")).2 = (splitHeadersAndBody h).2 ++ lit "\r\n" := by
  have hcr : '\r'.toUInt8 ∉ lit "\n\n" := by decide
  cases hlf : cutSub (lit "\n\n") h with
  | none =>
    have hnone : cutSub (lit "\n\n") (h ++ lit "\r\n") = none := by
      refine cutSub_eq_none_iff.mpr fun hfound => ?_
      rcases (infix_append_cons (b := lit "\n") hcr).mp hfound with hin | hin
      · exact cutSub_eq_none_iff.mp hlf hin
      · exact absurd hin.length_le (by decide)
    rw [split_of_none hcrlf hnone, split_of_none (cutSub_none_of_append hcrlf) hlf]
  | some p =>
    obtain ⟨a, c⟩ := p
    rw [split_of_lf hcrlf (cutSub_append_right hlf), split_of_lf (cutSub_none_of_append hcrlf) hlf]

/-- **A line break at the end of a text** is the end of its body, or of the blank line behind its
header block. -/
theorem splitHeadersAndBody_append
    (ht : t = lit "\n" ∧ y.getLast? ≠ some '\r'.toUInt8 ∨ t = lit "\r\n") :
    (splitHeadersAndBody (y ++ t)).2 = (splitHeadersAndBody y).2 ++ t ∨
      (splitHeadersAndBody (y ++ t)).2 = [] ∧
        (splitHeadersAndBody y).2 =
          (splitHeadersAndBody (splitHeadersAndBody (y ++ t)).1).2 ++ t := by
  cases hcrlf : cutSub (lit "\r\n\r\n") (y ++ t) with
  | some p =>
    obtain ⟨h, b⟩ := p
    rw [split_of_crlf hcrlf]
    rcases cutSub_of_append hcrlf with ⟨c, hc, rfl⟩ | ⟨hnone, hb⟩
    · rw [split_of_crlf hc]
      exact .inl rfl
    · obtain ⟨rfl, rfl, rfl⟩ := eq_append_of_blank ht (eq_of_cutSub hcrlf) hb
      exact .inr ⟨rfl, body_append_crlf hnone⟩
  | none =>
    have hycrlf := cutSub_none_of_append hcrlf
    cases hlf : cutSub (lit "\n\n") (y ++ t) with
    | none =>
      rw [split_of_none hcrlf hlf, split_of_none hycrlf (cutSub_none_of_append hlf)]
      exact .inl rfl
    | some p =>
      obtain ⟨h, b⟩ := p
      rw [split_of_lf hcrlf hlf]
      rcases cutSub_of_append hlf with ⟨c, hc, rfl⟩ | ⟨hnone, hb⟩
      · rw [split_of_lf hycrlf hc]
        exact .inl rfl
      · obtain ⟨rfl, rfl, rfl⟩ :=
          eq_append_of_blank_lf (ht.imp_left And.left) (eq_of_cutSub hlf) hb
        rw [split_of_none hycrlf hnone,
          split_of_none (cutSub_none_of_append hycrlf) (cutSub_none_of_append hnone)]
        exact .inr ⟨rfl, rfl⟩

end Split

/-! ## The text of a part, and its length -/

/-- Where a part has as many octets as the literal for it: it does not end in a line break, and its
body does not start with one; or the break it ends in is its blank line, and nothing else would be
its body without that break. -/
def SameSize (x : Bytes) : Prop :=
  if x.getLast? = some '\n'.toUInt8 then
    (splitHeadersAndBody x).2 = [] ∧
      ∀ c ∈ (splitHeadersAndBody (splitHeadersAndBody x).1).2, isBreak c = true
  else ∀ c ∈ (splitHeadersAndBody x).2.head?, isBreak c = false

/-- The literal for a part. -/
def sectionBody (x : Bytes) : Bytes :=
  (splitHeadersAndBody (dropBreak x)).2.dropWhile fun c => c = '\r'.toUInt8 ∨ c = '\n'.toUInt8

/-- The text of a section begins behind the breaks. -/
theorem sectionBody_eq (x : Bytes) :
    sectionBody x = (splitHeadersAndBody (dropBreak x)).2.dropWhile isBreak := by
  have hbreak : (fun c => decide (c = '\r'.toUInt8 ∨ c = '\n'.toUInt8)) = isBreak :=
    funext fun c => Bool.decide_or _ _
  rw [sectionBody, hbreak]

/-- Nothing is dropped where the first character stays. -/
theorem length_dropWhile_eq_iff {p : UInt8 → Bool} (s : Bytes) :
    (s.dropWhile p).length = s.length ↔ ∀ c ∈ s.head?, p c = false := by
  cases s with
  | nil => simp
  | cons c s =>
    have hle : (s.dropWhile p).length ≤ s.length := (List.dropWhile_sublist p).length_le
    cases hc : p c with
    | true =>
      rw [List.dropWhile_cons_of_pos hc]
      simp only [List.length_cons, List.head?_cons, Option.mem_def, Option.some.injEq]
      exact ⟨fun h => by omega, fun h => absurd (h c rfl) (by simp [hc])⟩
    | false =>
      rw [List.dropWhile_cons_of_neg (by simp [hc])]
      exact ⟨fun _ d hd => Option.some.inj hd ▸ hc, fun _ => rfl⟩

/-- **The literal for a part is as long as the part's body** where nothing is cut off. A break is
counted, and is not in the literal. -/
theorem sameSize_iff (x : Bytes) :
    (splitHeadersAndBody x).2.length = (sectionBody x).length ↔ SameSize x := by
  obtain ⟨t, hx, ⟨rfl, hlast⟩ | ⟨ht, hlast⟩⟩ := exists_dropBreak x
  · rw [SameSize, if_neg hlast, sectionBody_eq, ← length_dropWhile_eq_iff]
    rw [List.append_nil] at hx
    rw [← hx]
    exact eq_comm
  have hbreaks : ∀ c ∈ t, isBreak c = true := by
    refine List.all_eq_true.mp ?_
    rcases ht with ⟨rfl, -⟩ | rfl
    · decide
    · decide
  have hpos : 0 < t.length := by
    rcases ht with ⟨rfl, -⟩ | rfl
    · decide
    · decide
  have hsplit := splitHeadersAndBody_append ht
  rw [← hx] at hsplit
  rw [SameSize, if_pos hlast, sectionBody_eq]
  rcases hsplit with hbody | ⟨hbody, hrest⟩
  · have hle : ((splitHeadersAndBody (dropBreak x)).2.dropWhile isBreak).length ≤
        (splitHeadersAndBody (dropBreak x)).2.length := (List.dropWhile_sublist _).length_le
    rw [hbody, List.length_append]
    constructor
    · intro h
      omega
    · rintro ⟨h, -⟩
      obtain rfl : t = [] := (List.append_eq_nil_iff.mp h).2
      exact absurd hpos (Nat.lt_irrefl 0)
  · rw [hbody, hrest, List.length_nil, eq_comm, List.length_eq_zero_iff, List.dropWhile_eq_nil_iff]
    constructor
    · exact fun h => ⟨rfl, fun c hc => h c (List.mem_append_left _ hc)⟩
    · rintro ⟨-, h⟩ c hc
      exact (List.mem_append.mp hc).elim (h c) (hbreaks c)

/-! ## The children of the top-level multipart -/

section Children

variable {i : ℕ} {raw x : Bytes}

/-- The texts of the children. -/
def topTexts (raw : Bytes) : List Bytes :=
  let (headers, body) := splitHeadersAndBody raw
  let contentType := getHeaderValue headers (lit "Content-Type:")
  if (splitType contentType).1 = lit "multipart" ∧ extractBoundary contentType ≠ [] then
    partTexts body (extractBoundary contentType)
  else []

/-- The children are the parts of the text. -/
theorem children_eq (raw : Bytes) :
    (partStructure raw).children = (topTexts raw).map partStructure := by
  rw [topTexts]
  cases hraw : splitHeadersAndBody raw with
  | mk headers body =>
    dsimp only
    split_ifs with htop
    · rw [children_partStructure hraw htop.1 htop.2, multipartParts_eq]
    · rw [partStructure, Mime.parsePartStructure, hraw]
      dsimp only
      by_cases htype : (splitType (getHeaderValue headers (lit "Content-Type:"))).1 =
          lit "multipart"
      · rw [if_pos htype, if_pos (not_not.mp fun hboundary => htop ⟨htype, hboundary⟩)]
        rfl
      · rw [if_neg htype]
        rfl

/-- The size of a leaf is the length of its raw text. -/
theorem size_partStructure (hleaf : (partStructure x).type ≠ lit "multipart") :
    (partStructure x).size = (splitHeadersAndBody x).2.length := by
  have htype : (splitType (getHeaderValue (splitHeadersAndBody x).1 (lit "Content-Type:"))).1 ≠
      lit "multipart" := by
    intro htype
    rw [partStructure, Mime.parsePartStructure] at hleaf
    dsimp only at hleaf
    rw [if_pos htype] at hleaf
    split_ifs at hleaf
    · exact hleaf htype
    · exact hleaf htype
  rw [partStructure, Mime.parsePartStructure]
  dsimp only
  rw [if_neg htype]

/-- The octet counts that are printed for the leaves among the children are the lengths of the
literals that `BODY[i]` returns for them. -/
def SizesAgree (raw : Bytes) : Prop :=
  ∀ (i : ℕ) part, 0 < i → (partStructure raw).children[i - 1]? = some part →
    part.type ≠ lit "multipart" →
      ∃ literal, getBodySection raw (decimal i) = .ok literal ∧ Announces part literal.length

/-- The message is a multipart for `GetBodySection` too, which compares in lower case alone. -/
def namedMultipart (raw : Bytes) : Bool :=
  contains (lit "multipart") (getHeaderValue (splitHeadersAndBody raw).1 (lit "Content-Type:"))

/-- The text that `BODY[i]` takes for the i-th child is the text of that child. -/
theorem sections_getElem? {body boundary : Bytes} (hx : (partTexts body boundary)[i - 1]? = some x) :
    (sections body boundary)[i - 1]? = some x := by
  obtain ⟨rest, hrest⟩ := partTexts_prefix body boundary
  obtain ⟨hi, -⟩ := List.getElem?_eq_some_iff.mp hx
  rw [← hrest, List.getElem?_append_left hi, hx]

/-- A section by its number is the text of that part. -/
theorem getBodySection_child (hi : 0 < i) (hx : (topTexts raw)[i - 1]? = some x) :
    getBodySection raw (decimal i) =
      if i ≤ 2 ^ 31 - 1 then
        .ok (if namedMultipart raw then sectionBody x
          else if i = 1 then (splitHeadersAndBody raw).2 else [])
      else .error (.outOfRange (lit "stoi")) := by
  have hraw : raw ≠ [] := by
    rintro rfl
    exact absurd hx (by rw [show topTexts [] = [] by decide]; exact fun h => nomatch h)
  rw [topTexts] at hx
  dsimp only at hx
  split_ifs at hx with htop
  · have hsection := @getBodySection_decimal_append i raw _ _ [] hi hraw Prod.mk.eta.symm htop.2
      rfl rfl
    rw [List.append_nil] at hsection
    have hpart : ((sections (splitHeadersAndBody raw).2 (extractBoundary
        (getHeaderValue (splitHeadersAndBody raw).1 (lit "Content-Type:"))))[i - 1]?).elim []
          dropBreak = dropBreak x := by
      rw [sections_getElem? hx]
      rfl
    rw [hsection, numberedText, namedMultipart]
    dsimp only
    rw [hpart]
    have htext : ∀ h b : Bytes, sectionText [] h b = b := fun h b => if_neg (by decide)
    have hbody : (if dropBreak x = [] then [] else sectionText []
        (splitHeadersAndBody (dropBreak x)).1 ((splitHeadersAndBody (dropBreak x)).2.dropWhile
          fun c => c = '\r'.toUInt8 ∨ c = '\n'.toUInt8)) = sectionBody x := by
      rw [htext, sectionBody]
      split_ifs with hempty
      · rw [hempty]
        rfl
      · rfl
    rw [hbody, htext]
  · exact nomatch hx

/-- A part is shorter than the whole. -/
theorem length_body_lt (hx : x ∈ topTexts raw) :
    (splitHeadersAndBody x).2.length < (splitHeadersAndBody raw).2.length := by
  rw [topTexts] at hx
  dsimp only at hx
  split_ifs at hx
  · rw [← multipartParts_eq] at hx
    exact (Mime.length_body_le x).trans_lt (Mime.length_lt_of_mem_multipartParts hx)
  · exact absurd hx List.not_mem_nil

/-- **The count printed for a leaf is the length of its literal** exactly where nothing is cut off
its text; where `GetBodySection` takes the message for a single part, only if the part is empty. -/
theorem announces_literal_iff (hi : 0 < i) (hx : (topTexts raw)[i - 1]? = some x)
    (hleaf : (partStructure x).type ≠ lit "multipart") :
    (∃ literal, getBodySection raw (decimal i) = .ok literal ∧
        Announces (partStructure x) literal.length) ↔
      i ≤ 2 ^ 31 - 1 ∧
        if namedMultipart raw then SameSize x else i ≠ 1 ∧ (splitHeadersAndBody x).2 = [] := by
  have hlength := length_body_lt (List.mem_of_getElem? hx)
  simp only [announces_iff hleaf, size_partStructure hleaf, getBodySection_child hi hx]
  by_cases hint : i ≤ 2 ^ 31 - 1
  · simp only [hint, ↓reduceIte, Except.ok.injEq, exists_eq_left', true_and]
    by_cases hnamed : namedMultipart raw = true
    · rw [if_pos hnamed, if_pos hnamed]
      exact sameSize_iff x
    · rw [if_neg hnamed, if_neg hnamed]
      by_cases hone : i = 1
      · rw [if_pos hone]
        exact ⟨fun h => by omega, fun h => absurd hone h.1⟩
      · rw [if_neg hone, List.length_nil, List.length_eq_zero_iff]
        exact ⟨fun h => ⟨hone, h⟩, And.right⟩
  · simp only [hint, ↓reduceIte, false_and, iff_false]
    rintro ⟨literal, h, -⟩
    exact nomatch h

/-- **The octet counts of `BODYSTRUCTURE` are the lengths of the literals of `BODY[i]` if and only if
nothing is cut off the text of any leaf**, in a message that names its type in lower case. -/
theorem sizesAgree_iff (raw : Bytes) :
    SizesAgree raw ↔ ∀ (i : ℕ) x, 0 < i → (topTexts raw)[i - 1]? = some x →
      (partStructure x).type ≠ lit "multipart" → i ≤ 2 ^ 31 - 1 ∧
        if namedMultipart raw then SameSize x else i ≠ 1 ∧ (splitHeadersAndBody x).2 = [] := by
  simp only [SizesAgree, children_eq, List.getElem?_map, Option.map_eq_some_iff]
  constructor
  · intro h i x hi hx hleaf
    exact (announces_literal_iff hi hx hleaf).mp (h i _ hi ⟨x, hx, rfl⟩ hleaf)
  · rintro h i _ hi ⟨x, hx, rfl⟩ hleaf
    exact (announces_literal_iff hi hx hleaf).mpr (h i x hi hx hleaf)

end Children

/-! ## A message of one part -/

/-- **The count for the only part is five, and its literal has three octets**: the line break in
front of the closing delimiter is counted. -/
theorem not_sizesAgree_onePart :
    ((partStructure onePart).children.map MimePart.size = [5] ∧
      getBodySection onePart (decimal 1) = .ok (lit "one")) ∧ ¬ SizesAgree onePart := by
  have hsize : (partStructure onePart).children.map MimePart.size = [5] := by decide +kernel
  have hget : getBodySection onePart (decimal 1) = .ok (lit "one") := by decide +kernel
  refine ⟨⟨hsize, hget⟩, fun hagree => ?_⟩
  match hchildren : (partStructure onePart).children with
  | [] =>
    rw [hchildren] at hsize
    exact nomatch hsize
  | part :: parts =>
    have htypes : (partStructure onePart).children.map MimePart.type = [lit "text"] := by
      decide +kernel
    rw [hchildren] at hsize htypes
    have hleaf : part.type ≠ lit "multipart" := by
      rw [(List.cons.inj htypes).1]
      decide +kernel
    obtain ⟨literal, hliteral, hannounces⟩ :=
      hagree 1 part Nat.one_pos (by rw [hchildren]; rfl) hleaf
    obtain rfl : lit "one" = literal := Except.ok.inj (hget.symm.trans hliteral)
    rw [announces_iff hleaf, (List.cons.inj hsize).1] at hannounces
    exact absurd hannounces (by decide +kernel)

end MailStack.Imap
