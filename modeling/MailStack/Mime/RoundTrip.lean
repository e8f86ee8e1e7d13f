import MailStack.Mime.Message

/-!
# Mime/RoundTrip — `ParseEmail` on what `BuildEmail` writes

The parser goes down the same tree of parts as the builder: the body, which is the text or the text
and the HTML as alternatives, and then the attachments.  The HTML always comes back
(`parseEmail_htmlText`).  An attachment comes back unless the parser takes it for a multipart, which
it does by looking for `multipart` anywhere in the part's `Content-Type`, the file name included.
-/

open Bytes Search MailStack.Base64

namespace MailStack.Mime

/-! ## No part holds a delimiter -/

section

variable {digits : Fin 24 → Fin 16}

/-- Texts without the delimiter, with a character between them that it does not have. -/
theorem delimiter_notIn_cons {a b : Bytes} {c : UInt8} (hc : c ∉ boundaryChars)
    (ha : ¬ lit "--" ++ generateBoundary digits <:+: a)
    (hb : ¬ lit "--" ++ generateBoundary digits <:+: b) :
    ¬ lit "--" ++ generateBoundary digits <:+: a ++ c :: b := by
  rw [delimiter_infix_cons hc]
  exact not_or.mpr ⟨ha, hb⟩

/-- A delimiter does not arise across a line break. -/
theorem delimiter_notIn_crlf {a b : Bytes}
    (ha : ¬ lit "--" ++ generateBoundary digits <:+: a)
    (hb : ¬ lit "--" ++ generateBoundary digits <:+: b) :
    ¬ lit "--" ++ generateBoundary digits <:+: a ++ lit "\r\n" ++ b := by
  rw [delimiter_infix_crlf]
  exact not_or.mpr ⟨ha, hb⟩

/-- A block of fields and a body are a part where neither holds the delimiter. -/
theorem isPart_block {f : Field} {fs : List Field} {body : Bytes}
    (hf : f.name = lit "Content-Type")
    (hfields : ¬ lit "--" ++ generateBoundary digits <:+: unlines (blockLines (f :: fs)))
    (hbody : ¬ lit "--" ++ generateBoundary digits <:+: body) :
    IsPart (lit "--" ++ generateBoundary digits) (block (f :: fs) (body ++ lit "\r\n")) where
  notInfix := by
    have hend : ¬ lit "--" ++ generateBoundary digits <:+: [] := delimiter_notIn (by simp)
    have hlast := delimiter_notIn_crlf hbody hend
    rw [List.append_nil] at hlast
    exact delimiter_notIn_crlf hfields hlast
  getLast? := by
    rw [block, ← List.append_assoc]
    exact List.getLast?_append_of_ne_nil _ (by decide)
  notPrefix := by
    rw [block, blockLines, List.flatMap_cons, Field.lines, hf]
    intro h
    exact absurd (List.cons_prefix_cons.mp h).1 (by decide)

/-- Nothing of a delimiter is in two texts of which the first is a part. -/
theorem IsPart.not_infix_append {p b : Bytes} (hp : IsPart (lit "--" ++ generateBoundary digits) p)
    (hb : ¬ lit "--" ++ generateBoundary digits <:+: b) :
    ¬ lit "--" ++ generateBoundary digits <:+: p ++ b := by
  obtain ⟨q, rfl⟩ := List.getLast?_eq_some_iff.mp hp.getLast?
  rw [List.append_assoc]
  exact delimiter_notIn_cons (by decide)
    (fun h => hp.notInfix (h.trans (List.prefix_append q _).isInfix)) hb

/-- The text part is a part if the boundary is not in the text. -/
theorem isPart_textPart {email : Email} (h : ¬ generateBoundary digits <:+: email.plainText) :
    IsPart (lit "--" ++ generateBoundary digits) (textPart email) := by
  refine isPart_block rfl (delimiter_notIn (by decide)) ?_
  obtain ⟨ls, hls, hpiece⟩ := exists_unlines_wrapText email.plainText 998
  rw [hls, ← List.append_nil (unlines ls), delimiter_infix_unlines]
  rintro (⟨l, hl, hd⟩ | hd)
  · exact delimiter_notIn_of_boundary (fun hb => h (hb.trans (hpiece l hl))) hd
  · exact delimiter_notIn (by simp) hd

/-- The HTML part is encoded, so the boundary cannot be in it. -/
theorem isPart_htmlPart (email : Email) :
    IsPart (lit "--" ++ generateBoundary digits) (htmlPart email) := by
  refine isPart_block rfl (delimiter_notIn (by decide)) (delimiter_notIn ?_)
  intro h
  have := mem_chunkBytes 0 email.htmlText _ h
  exact absurd this (by decide)

/-- An attachment is a part if the boundary is not in its name or type. -/
theorem isPart_attachment {att : Attachment} {p : Bytes} (hp : IsAttachmentPart att p)
    (hname : ¬ generateBoundary digits <:+: att.fileName)
    (hmime : ¬ lit "--" ++ generateBoundary digits <:+: sentMimeType att)
    (hdata : ¬ generateBoundary digits <:+: att.base64Data) :
    IsPart (lit "--" ++ generateBoundary digits) p := by
  obtain ⟨ct, disp, e, -, he, hct, hdisp, hctText, hdispText, rfl⟩ := hp
  refine isPart_block hct ?_ (delimiter_notIn_of_boundary hdata)
  have hne := he.delimiter_notIn hname
  have hquote : '"'.toUInt8 ∉ boundaryChars := by decide
  have hspace : ' '.toUInt8 ∉ boundaryChars := by decide
  have hend : ¬ lit "--" ++ generateBoundary digits <:+: e ++ '"'.toUInt8 :: [] :=
    delimiter_notIn_cons hquote hne (delimiter_notIn (by simp))
  have hctLine : ¬ lit "--" ++ generateBoundary digits <:+:
      lit "Content-Type:" ++ ' '.toUInt8 :: (sentMimeType att ++ ';'.toUInt8 ::
        (lit " name=" ++ '"'.toUInt8 :: (e ++ '"'.toUInt8 :: []))) :=
    delimiter_notIn_cons hspace (delimiter_notIn (by decide))
      (delimiter_notIn_cons (by decide) hmime
        (delimiter_notIn_cons hquote (delimiter_notIn (by decide)) hend))
  have hencLine : ¬ lit "--" ++ generateBoundary digits <:+:
      lit "Content-Transfer-Encoding: " ++ lit "base64" := delimiter_notIn (by decide)
  have hdispLine : ¬ lit "--" ++ generateBoundary digits <:+:
      lit "Content-Disposition: " ++ (lit "attachment; filename=" ++ '"'.toUInt8 ::
        (e ++ '"'.toUInt8 :: [])) := by
    rw [← List.append_assoc]
    exact delimiter_notIn_cons hquote (delimiter_notIn (by decide)) hend
  have hlast : ¬ lit "--" ++ generateBoundary digits <:+: [] := delimiter_notIn (by simp)
  have h := delimiter_notIn_crlf hctLine (delimiter_notIn_crlf hencLine
    (delimiter_notIn_crlf hdispLine hlast))
  have hlits : lit "Content-Type: " = lit "Content-Type:" ++ [' '.toUInt8] ∧
      lit "; name=\"" = ';'.toUInt8 :: (lit " name=" ++ ['"'.toUInt8]) ∧
      lit "attachment; filename=\"" = lit "attachment; filename=" ++ ['"'.toUInt8] ∧
      lit "\"" = ['"'.toUInt8] := by decide
  rw [unlines_attachmentFields hct hdisp, hctText, hdispText]
  simp only [headerLine, hlits, List.append_assoc, List.cons_append, List.nil_append,
    List.append_nil] at h ⊢
  exact h

end

/-! ## What a part does to the email -/

/-- The HTML and the attachments stay as they are. -/
def Keeps (out out' : Email) : Prop :=
  out'.htmlText = out.htmlText ∧ out'.attachments = out.attachments

theorem Keeps.refl (out : Email) : Keeps out out := ⟨rfl, rfl⟩

theorem keeps_setCharset (out : Email) (contentType : Bytes) :
    Keeps out (out.setCharset contentType) := by
  rw [Email.setCharset]
  split_ifs
  · exact ⟨rfl, rfl⟩
  · exact .refl out

section

variable {fs : List Field} (hne : fs ≠ [])
  (hqp : contains (lit "quoted-printable") (toLower (getHeaderValue (joinLines (blockLines fs))
    (lit "Content-Transfer-Encoding:"))) = false)
include hne hqp

/-- A part that is no multipart. -/
theorem processMimePart_leaf
    (hct : contains (lit "multipart") (toLower (getHeaderValue (joinLines (blockLines fs))
      (lit "Content-Type:"))) = false) (n : ℕ) (body : Bytes) (out : Email) :
    processMimePart (n + 1) (block fs body) out =
      processLeaf (joinLines (blockLines fs)) body
        (toLower (getHeaderValue (joinLines (blockLines fs)) (lit "Content-Type:")))
        (toLower (getHeaderValue (joinLines (blockLines fs)) (lit "Content-Disposition:")))
        (toLower (getHeaderValue (joinLines (blockLines fs)) (lit "Content-Transfer-Encoding:")))
        out := by
  rw [processMimePart, block, splitHeadersAndBody_blockLines hne]
  simp only [hct, hqp, Bool.false_eq_true, if_false]

/-- A multipart: its parts, one after the other, where it has a boundary. -/
theorem processMimePart_multipart
    (hct : contains (lit "multipart") (toLower (getHeaderValue (joinLines (blockLines fs))
      (lit "Content-Type:"))) = true) {boundary : Bytes}
    (hboundary : extractBoundary (getHeaderValue (joinLines (blockLines fs))
      (lit "Content-Type:")) = boundary) (n : ℕ) (body : Bytes) (out : Email) :
    ∃ out', Keeps out out' ∧ processMimePart (n + 1) (block fs body) out =
      if boundary ≠ [] then parseMultipartBody n body boundary out' else out' := by
  rw [processMimePart, block, splitHeadersAndBody_blockLines hne]
  simp only [hct, hqp, hboundary, Bool.false_eq_true, if_false, if_true]
  by_cases hb : boundary ≠ []
  · refine ⟨_, ?_, by rw [if_pos hb, if_pos hb]; rfl⟩
    split_ifs
    · exact ⟨rfl, rfl⟩
    · exact .refl out
  · exact ⟨out, .refl out, by rw [if_neg hb, if_neg hb]⟩

end

/-- **The text part** leaves the HTML and the attachments alone. -/
theorem keeps_textPart (n : ℕ) (email out : Email) :
    Keeps out (processMimePart (n + 1) (textPart email) out) := by
  have hct : getHeaderValue (joinLines (blockLines textFields)) (lit "Content-Type:") =
      lit "text/plain; charset=\"utf-8\"" := by decide
  have hdisp : getHeaderValue (joinLines (blockLines textFields)) (lit "Content-Disposition:") =
      [] := by decide
  have henc : getHeaderValue (joinLines (blockLines textFields))
      (lit "Content-Transfer-Encoding:") = lit "8bit" := by decide
  have hne : textFields ≠ [] := List.cons_ne_nil _ _
  rw [textPart, processMimePart_leaf hne (by rw [henc]; decide)
    (by rw [hct]; decide), hct, hdisp, henc, processLeaf, if_neg (by decide),
    if_pos (by decide)]
  exact keeps_setCharset _ _

/-- **The HTML part** is decoded to what was encoded. -/
theorem processMimePart_htmlPart (n : ℕ) (email out : Email) :
    (processMimePart (n + 1) (htmlPart email) out).htmlText = email.htmlText ∧
      (processMimePart (n + 1) (htmlPart email) out).attachments = out.attachments := by
  have hct : getHeaderValue (joinLines (blockLines htmlFields)) (lit "Content-Type:") =
      lit "text/html; charset=\"utf-8\"" := by decide
  have hdisp : getHeaderValue (joinLines (blockLines htmlFields)) (lit "Content-Disposition:") =
      [] := by decide
  have henc : getHeaderValue (joinLines (blockLines htmlFields))
      (lit "Content-Transfer-Encoding:") = lit "base64" := by decide
  have hbody : eraseBreaks (chunkBytes 0 email.htmlText ++ lit "\r\n") =
      eraseBreaks (chunkBytes 0 email.htmlText) := by
    rw [eraseBreaks_append, show eraseBreaks (lit "\r\n") = [] from rfl, List.append_nil]
  have hne : htmlFields ≠ [] := List.cons_ne_nil _ _
  rw [htmlPart, processMimePart_leaf hne (by rw [henc]; decide)
    (by rw [hct]; decide), hct, hdisp, henc, processLeaf, if_neg (by decide),
    if_neg (by decide), if_pos (by decide), decodeText, if_pos (by decide),
    hbody, decodeBase64_chunkBytes]
  exact ⟨rfl, rfl⟩

/-! ## Attachments -/

/-- `multipart` is found in what `EncodeHeader` makes of the file name. -/
def namesMultipart (fileName : Bytes) : Bool :=
  match encodeHeader {} fileName (lit "\r\n\t") with
  | .ok encodedName => contains (lit "multipart") (toLower encodedName)
  | .error _ => false

/-- The part of the attachment is taken for a multipart. -/
def takenForMultipart (att : Attachment) : Bool :=
  contains (lit "multipart") (toLower (sentMimeType att)) || namesMultipart att.fileName

/-- What `GetHeaderValue` finds in the part of an attachment. -/
theorem getHeaderValue_attachment {ct disp : Field} (hct : ct.name = lit "Content-Type")
    (hdisp : disp.name = lit "Content-Disposition") :
    getHeaderValue (joinLines (blockLines [ct, base64Field, disp])) (lit "Content-Type:") =
        ct.text ∧
      getHeaderValue (joinLines (blockLines [ct, base64Field, disp])) (lit "Content-Disposition:") =
        disp.text ∧
      getHeaderValue (joinLines (blockLines [ct, base64Field, disp]))
        (lit "Content-Transfer-Encoding:") = lit "base64" := by
  refine ⟨?_, ?_, ?_⟩
  · refine getHeaderValue_blockLines (lit "content-type") (by decide) [] (by simp) ?_
      [base64Field, disp]
    rw [hct]
    decide
  · refine getHeaderValue_blockLines (lit "content-disposition") (by decide)
      [ct, base64Field] ?_ ?_ []
    · simp only [List.forall_mem_cons, hct]
      exact ⟨by decide, by decide, by simp⟩
    · rw [hdisp]
      decide
  · have htext : base64Field.text = lit "base64" := by decide
    rw [← htext]
    refine getHeaderValue_blockLines (lit "content-transfer-encoding") (by decide) [ct] ?_
      (by decide) [disp]
    rw [List.forall_mem_singleton, hct]
    decide

/-- The parser looks for `multipart` in the type and in the name. -/
theorem contains_multipart_iff {att : Attachment} {ct : Field} {e : Bytes}
    (hct : folded ct.value ct.more = sentMimeType att ++ lit "; name=\"" ++ e ++ lit "\"") :
    contains (lit "multipart") (toLower ct.text) = true ↔
      contains (lit "multipart") (toLower (sentMimeType att)) = true ∨
        contains (lit "multipart") (toLower e) = true := by
  have hsplit : toLower (sentMimeType att ++ lit "; name=\"" ++ e ++ lit "\"") =
      toLower (sentMimeType att) ++ ';'.toUInt8 ::
        (lit " name=" ++ '"'.toUInt8 :: (toLower e ++ '"'.toUInt8 :: [])) := by
    simp only [toLower_append, List.append_assoc]
    rfl
  have hname : ¬ lit "multipart" <:+: lit " name=" := not_infix_of_notMem (x := 'u'.toUInt8)
    (by decide) (by decide)
  have hnil : ¬ lit "multipart" <:+: [] := by simp [lit]
  rw [contains_iff, contains_iff, contains_iff,
    infix_toLower_text_folded (by decide) (not_isBlank_of_all rfl), hct, hsplit,
    infix_append_cons (by decide), infix_append_cons (by decide), infix_append_cons (by decide),
    or_iff_right hname, or_iff_left hnil]

/-- No part is found in a body without dashes. -/
theorem multipartParts_eq_nil {body : Bytes} (h : '-'.toUInt8 ∉ body) (boundary : Bytes) :
    multipartParts body boundary = [] := by
  have hcut : cutSub (lit "--" ++ boundary) body = none :=
    cutSub_eq_none_iff.mpr (not_infix_of_notMem List.mem_cons_self h)
  rw [multipartParts, hcut]

/-- **An attachment comes back unless its part is taken for a multipart.** -/
theorem processMimePart_attachment {att : Attachment} {p : Bytes} (hp : IsAttachmentPart att p)
    (hdata : '-'.toUInt8 ∉ att.base64Data) (n : ℕ) (out : Email) :
    (processMimePart (n + 1) p out).htmlText = out.htmlText ∧
      (processMimePart (n + 1) p out).attachments.map Attachment.base64Data =
        out.attachments.map Attachment.base64Data ++
          if takenForMultipart att then [] else [eraseBreaks att.base64Data] := by
  obtain ⟨ct, disp, e, hcode, -, hct, hdisp, hctText, hdispText, rfl⟩ := hp
  obtain ⟨hvct, hvdisp, hvenc⟩ := getHeaderValue_attachment hct hdisp
  have hne : [ct, base64Field, disp] ≠ [] := List.cons_ne_nil _ _
  have hqp : contains (lit "quoted-printable") (toLower (getHeaderValue
      (joinLines (blockLines [ct, base64Field, disp])) (lit "Content-Transfer-Encoding:"))) =
      false := by
    rw [hvenc]
    decide
  have htaken : takenForMultipart att = true ↔
      contains (lit "multipart") (toLower ct.text) = true := by
    rw [contains_multipart_iff hctText, takenForMultipart, Bool.or_eq_true, namesMultipart, hcode]
  cases hmulti : contains (lit "multipart") (toLower ct.text) with
  | true =>
    have hbody : '-'.toUInt8 ∉ att.base64Data ++ lit "\r\n" :=
      List.not_mem_append hdata (by decide)
    obtain ⟨out', hkeeps, hout⟩ := processMimePart_multipart hne hqp (hvct ▸ hmulti) rfl n
      (att.base64Data ++ lit "\r\n") out
    have heq : processMimePart (n + 1) (block [ct, base64Field, disp]
        (att.base64Data ++ lit "\r\n")) out = out' := by
      rw [hout, parseMultipartBody, multipartParts_eq_nil hbody]
      split_ifs <;> rfl
    rw [heq, if_pos (htaken.mpr hmulti), List.append_nil, hkeeps.2]
    exact ⟨hkeeps.1, rfl⟩
  | false =>
    have hattachment : contains (lit "attachment") (toLower disp.text) = true := by
      rw [contains_iff, infix_toLower_text_folded (by decide) (not_isBlank_of_all rfl), hdispText,
        List.append_assoc, toLower_append]
      exact (List.prefix_append (lit "attachment") _).isInfix
    rw [processMimePart_leaf hne hqp (hvct ▸ hmulti), hvct, hvdisp, hvenc, processLeaf,
      if_pos (.inl hattachment), if_pos (by decide),
      if_neg (by rw [htaken, hmulti]; simp), eraseBreaks_append,
      show eraseBreaks (lit "\r\n") = [] from rfl, List.append_nil]
    exact ⟨rfl, by rw [Email.addAttachment, List.map_append]; rfl⟩

/-- Every part is the part of an attachment. -/
theorem exists_attachment_of_mem {atts : List Attachment} {ps : List Bytes}
    (hps : List.Forall₂ IsAttachmentPart atts ps) {p : Bytes} (hp : p ∈ ps) :
    ∃ a ∈ atts, IsAttachmentPart a p := by
  induction hps with
  | nil => exact absurd hp List.not_mem_nil
  | cons ha _ ih =>
    rcases List.mem_cons.mp hp with rfl | hp
    · exact ⟨_, List.mem_cons_self, ha⟩
    · obtain ⟨a, ha, hpart⟩ := ih hp
      exact ⟨a, List.mem_cons_of_mem _ ha, hpart⟩

/-- **All the attachments.** -/
theorem foldl_attachments (n : ℕ) {atts : List Attachment} {ps : List Bytes}
    (hps : List.Forall₂ IsAttachmentPart atts ps) (hdata : ∀ a ∈ atts, '-'.toUInt8 ∉ a.base64Data)
    (out : Email) :
    (ps.foldl (fun out p => processMimePart (n + 1) p out) out).htmlText = out.htmlText ∧
      (ps.foldl (fun out p => processMimePart (n + 1) p out) out).attachments.map
          Attachment.base64Data =
        out.attachments.map Attachment.base64Data ++
          (atts.filter (!takenForMultipart ·)).map (eraseBreaks ·.base64Data) := by
  induction hps generalizing out with
  | nil => simp
  | @cons a p atts ps hp hps ih =>
    obtain ⟨ha, hatts⟩ := List.forall_mem_cons.mp hdata
    obtain ⟨hhtml, hmap⟩ := processMimePart_attachment hp ha n out
    obtain ⟨ihhtml, ihmap⟩ := ih hatts (processMimePart (n + 1) p out)
    refine ⟨ihhtml.trans hhtml, ?_⟩
    rw [List.foldl_cons, ihmap, hmap, List.append_assoc, List.filter_cons]
    cases takenForMultipart a <;> simp

/-! ## Multiparts -/

/-- A type of the builder: it starts with no blank and has no `b` that could start `boundary=`. -/
def IsMultipartType (type : Bytes) : Prop :=
  (∃ c ∈ type.head?, isBlank c = false) ∧ 'b'.toUInt8 ∉ toLower type ∧
    lit "multipart" <:+: toLower type

theorem isMultipartType_mixed : IsMultipartType (lit "multipart/mixed") :=
  ⟨by decide, by decide, (List.prefix_append (lit "multipart") (lit "/mixed")).isInfix⟩

theorem isMultipartType_alternative : IsMultipartType (lit "multipart/alternative") :=
  ⟨by decide, by decide, (List.prefix_append (lit "multipart") (lit "/alternative")).isInfix⟩

section

variable {type : Bytes} (htype : NoBreak type) (hmulti : IsMultipartType type)
  (digits : Fin 24 → Fin 16)
include hmulti

/-- The `Content-Type` is read as it was written. -/
theorem text_multipartField : (multipartField type htype digits).text =
    type ++ lit "; boundary=\"" ++ generateBoundary digits ++ lit "\"" := by
  obtain ⟨c, hc, hblank⟩ := hmulti.1
  obtain ⟨t, rfl⟩ := List.head?_eq_some_iff.mp hc
  refine trim_of_not_blank ?_ ?_
  · intro c' hc'
    obtain rfl := Option.some.inj hc'
    exact hblank
  · intro c' hc'
    have hlast : (c :: t ++ lit "; boundary=\"" ++ generateBoundary digits ++ lit "\"").getLast? =
        some '"'.toUInt8 := List.getLast?_append_of_ne_nil _ (by decide)
    obtain rfl := Option.some.inj (hlast.symm.trans hc')
    decide

/-- The field names a multipart. -/
theorem contains_multipartField :
    contains (lit "multipart") (toLower (multipartField type htype digits).text) = true := by
  rw [contains_iff, text_multipartField htype hmulti, toLower_append, toLower_append,
    toLower_append, List.append_assoc, List.append_assoc]
  exact hmulti.2.2.trans (List.prefix_append _ _).isInfix

/-- The boundary is read back from the field. -/
theorem extractBoundary_multipartField :
    extractBoundary (multipartField type htype digits).text = generateBoundary digits := by
  have hpre : 'b'.toUInt8 ∉ toLower (type ++ lit "; ") := by
    rw [toLower_append]
    exact List.not_mem_append hmulti.2.1 (by decide)
  have hquote : '"'.toUInt8 ∉ generateBoundary digits := notMem_generateBoundary (by decide)
  have h := extractBoundary_quoted hpre hquote trim_generateBoundary
  have hlit : lit "; boundary=\"" = lit "; " ++ lit "boundary=\"" := by decide
  rw [text_multipartField htype hmulti, hlit, ← List.append_assoc type]
  exact h

end

/-- The text and the HTML as alternatives. -/
theorem parseMultipartBody_alternative (n : ℕ) {drawn : Drawn} {email : Email}
    (hplain : ¬ generateBoundary drawn.alternative <:+: email.plainText) (t : Bytes) (out : Email) :
    (parseMultipartBody (n + 1) (alternativeBody drawn email t)
        (generateBoundary drawn.alternative) out).htmlText = email.htmlText ∧
      (parseMultipartBody (n + 1) (alternativeBody drawn email t)
        (generateBoundary drawn.alternative) out).attachments = out.attachments := by
  have hparts : ∀ p ∈ [textPart email, htmlPart email],
      IsPart (lit "--" ++ generateBoundary drawn.alternative) p := by
    rw [List.forall_mem_cons, List.forall_mem_singleton]
    exact ⟨isPart_textPart hplain, isPart_htmlPart email⟩
  rw [parseMultipartBody, alternativeBody,
    multipartParts_renderParts (notMem_delimiter (by decide)) t hparts, List.foldl_cons,
    List.foldl_cons, List.foldl_nil]
  have htext := keeps_textPart n email out
  have hhtml := processMimePart_htmlPart n email (processMimePart (n + 1) (textPart email) out)
  exact ⟨hhtml.1, hhtml.2.trans htext.2⟩

/-- **A message that is a multipart of the builder** is read part by part. -/
theorem parseEmail_multipart {fs : List Field} (hnames : ∀ f ∈ fs, f.name ∈ mainNames)
    {type : Bytes} (htype : NoBreak type) (hmulti : IsMultipartType type)
    (digits : Fin 24 → Fin 16) (body : Bytes) (out : Email) :
    ∃ n out', Keeps out out' ∧
      parseEmail (block (fs ++ [multipartField type htype digits]) body) out =
        (true, parseMultipartBody (n + 2) body (generateBoundary digits) out') := by
  let f := multipartField type htype digits
  have hct : getHeaderValue (joinLines (blockLines (fs ++ [f]))) (lit "Content-Type:") = f.text := by
    have hmain : ∀ name ∈ mainNames, iequals name (lit "content-type") = false := by decide
    have hname : iequals (lit "Content-Type") (lit "content-type") = true := by decide
    exact getHeaderValue_blockLines (lit "content-type") (by decide) fs
      (fun g hg => hmain g.name (hnames g hg)) hname []
  have hsplit := splitHeadersAndBody_blockLines (List.append_ne_nil_of_right_ne_nil fs
    (List.cons_ne_nil f [])) body
  obtain ⟨n, hn⟩ : ∃ n, (block (fs ++ [f]) body).length = n + 2 := by
    have hcrlf : (lit "\r\n").length = 2 := rfl
    simp only [block, List.length_append, hcrlf]
    exact ⟨(unlines (blockLines (fs ++ [f]))).length + body.length, by omega⟩
  have hne : block (fs ++ [f]) body ≠ [] := List.ne_nil_of_length_eq_add_one hn
  have hparse : ∃ out', Keeps out out' ∧ parseEmail (block (fs ++ [f]) body) out =
      (true, parseMultipartBody (block (fs ++ [f]) body).length body (generateBoundary digits)
        out') := by
    rw [parseEmail, if_neg hne]
    nth_rewrite 1 [block]
    rw [hsplit]
    dsimp only
    rw [hct, if_pos (contains_multipartField htype hmulti digits),
      extractBoundary_multipartField htype hmulti digits, if_neg generateBoundary_ne_nil]
    refine ⟨_, ?_, rfl⟩
    split_ifs <;> exact ⟨rfl, rfl⟩
  rw [hn] at hparse
  exact ⟨n, hparse⟩

/-- The first part of a message with attachments. -/
theorem isPart_bodyPart {drawn : Drawn} {email : Email}
    (hne : generateBoundary drawn.mixed ≠ generateBoundary drawn.alternative)
    (hplain : ¬ generateBoundary drawn.mixed <:+: email.plainText) :
    IsPart (lit "--" ++ generateBoundary drawn.mixed) (bodyPart drawn email) := by
  rw [bodyPart]
  split_ifs
  · have hbody : alternativeBody drawn email (lit "\r\n") =
        ([textPart email, htmlPart email].map
          (delimited (generateBoundary drawn.alternative))).flatten ++
          (lit "--" ++ generateBoundary drawn.alternative ++ lit "--\r\n") ++ lit "\r\n" :=
      renderParts_eq _ _ _
    rw [hbody]
    have hnil : ¬ lit "--" ++ generateBoundary drawn.mixed <:+: [] := delimiter_notIn (by simp)
    refine isPart_block rfl ?_ ?_
    · have hshort : ¬ lit "--" ++ generateBoundary drawn.mixed <:+:
          generateBoundary drawn.alternative := by
        intro h
        have := h.length_le
        rw [List.length_append, length_generateBoundary, length_generateBoundary] at this
        exact absurd this (by decide)
      have hquote : '"'.toUInt8 ∉ boundaryChars := by decide
      have hstart : ¬ lit "--" ++ generateBoundary drawn.mixed <:+:
          lit "Content-Type: " ++ (lit "multipart/alternative" ++ lit "; boundary=") :=
        delimiter_notIn (by decide)
      have hline := delimiter_notIn_crlf (delimiter_notIn_cons hquote hstart
        (delimiter_notIn_cons hquote hshort hnil)) hnil
      have hlits : lit "; boundary=\"" = lit "; boundary=" ++ ['"'.toUInt8] ∧
          lit "\"" = ['"'.toUInt8] := by decide
      rw [alternativeField, ← multipartHeader_eq, multipartHeader, headerLine]
      simp only [hlits, List.append_assoc, List.cons_append, List.nil_append, List.append_nil]
        at hline ⊢
      exact hline
    · have hopen : ¬ lit "--" ++ generateBoundary drawn.mixed <:+:
          lit "--" ++ generateBoundary drawn.alternative ++ [] :=
        delimiter_notIn_delimiter hne (by simp)
      rw [List.append_nil] at hopen
      have hclose : ¬ lit "--" ++ generateBoundary drawn.mixed <:+:
          lit "--" ++ generateBoundary drawn.alternative ++ lit "--" :=
        delimiter_notIn_delimiter hne (by decide)
      have hend := delimiter_notIn_crlf hclose hnil
      have hhtml := delimiter_notIn_crlf hopen ((isPart_htmlPart email).not_infix_append hend)
      have htext := delimiter_notIn_crlf hopen ((isPart_textPart hplain).not_infix_append hhtml)
      have hlit : lit "--\r\n" = lit "--" ++ lit "\r\n" := by decide
      simp only [List.map_cons, List.map_nil, List.flatten_cons, List.flatten_nil, delimited, hlit,
        List.append_assoc, List.append_nil] at htext ⊢
      exact htext
  · exact isPart_textPart hplain

/-- **The body of a message with attachments.** -/
theorem processMimePart_bodyPart (n : ℕ) {drawn : Drawn} {email : Email}
    (hplain : ¬ generateBoundary drawn.alternative <:+: email.plainText) (out : Email) :
    (processMimePart (n + 2) (bodyPart drawn email) out).htmlText =
        (if email.hasHtml then email.htmlText else out.htmlText) ∧
      (processMimePart (n + 2) (bodyPart drawn email) out).attachments = out.attachments := by
  rw [bodyPart]
  split_ifs
  · have hmulti := isMultipartType_alternative
    have hname : iequals (lit "Content-Type") (lit "content-type") = true := by decide
    have hother : iequals (lit "Content-Type") (lit "content-transfer-encoding") = false := by decide
    let f := alternativeField drawn
    have hct : getHeaderValue (joinLines (blockLines [f])) (lit "Content-Type:") = f.text :=
      getHeaderValue_blockLines (lit "content-type") (by decide) [] (by simp) hname []
    have henc : getHeaderValue (joinLines (blockLines [f])) (lit "Content-Transfer-Encoding:") =
        [] := getHeaderValue_blockLines_none (lit "content-transfer-encoding") (by decide)
          (List.forall_mem_singleton.mpr hother)
    obtain ⟨out', hkeeps, hout⟩ := processMimePart_multipart (List.cons_ne_nil f [])
      (by rw [henc]; decide) (hct ▸ contains_multipartField (by decide) hmulti drawn.alternative)
      (hct ▸ extractBoundary_multipartField (by decide) hmulti drawn.alternative) (n + 1)
      (alternativeBody drawn email (lit "\r\n")) out
    rw [if_pos generateBoundary_ne_nil] at hout
    rw [hout]
    have h := parseMultipartBody_alternative n hplain (lit "\r\n") out'
    exact ⟨h.1, h.2.trans hkeeps.2⟩
  · exact keeps_textPart (n + 1) email out

/-! ## The round trip -/

/-- The base64 alphabet, `=` and line breaks. -/
def IsBase64Text (s : Bytes) : Prop :=
  ∀ c ∈ s, isValidBase64 c = true ∨ c = '\r'.toUInt8 ∨ c = '\n'.toUInt8

instance (s : Bytes) : Decidable (IsBase64Text s) := inferInstanceAs (Decidable (∀ c ∈ s, _))

/-- Encoded text has no dash. -/
theorem IsBase64Text.notMem {s : Bytes} (h : IsBase64Text s) : '-'.toUInt8 ∉ s := fun hc =>
  absurd (h _ hc) (by decide)

/-- A type of the table. -/
theorem getMimeType_mem (fileName : Bytes) :
    getMimeType fileName ∈ lit "application/octet-stream" :: mimeMap.map Prod.snd := by
  rw [getMimeType]
  split
  · exact List.mem_cons_self
  · rename_i ext _ _
    cases hlookup : mimeMap.lookup (toLower ext.reverse) with
    | none => exact List.mem_cons_self
    | some type =>
      obtain ⟨l₁, l₂, hmap, -⟩ := List.lookup_eq_some_iff.mp hlookup
      refine List.mem_cons_of_mem _ (List.mem_map.mpr ⟨(toLower ext.reverse, type), ?_, rfl⟩)
      rw [hmap]
      exact List.mem_append_right l₁ List.mem_cons_self

/-- What the types of the table have in common. -/
theorem getMimeType_spec (fileName : Bytes) : NoBreak (getMimeType fileName) ∧
    '_'.toUInt8 ∉ getMimeType fileName ∧
    contains (lit "multipart") (toLower (getMimeType fileName)) = false := by
  have hall : ∀ type ∈ lit "application/octet-stream" :: mimeMap.map Prod.snd, NoBreak type ∧
      '_'.toUInt8 ∉ type ∧ contains (lit "multipart") (toLower type) = false := by decide +kernel
  exact hall _ (getMimeType_mem fileName)

/-- The type that is sent has no line break. -/
theorem noBreak_sentMimeType {att : Attachment} (h : NoBreak att.mimeType) :
    NoBreak (sentMimeType att) := by
  rw [sentMimeType]
  split_ifs
  · exact (getMimeType_spec att.fileName).1
  · exact h

/-- Nor has it the delimiter. -/
theorem delimiter_notIn_sentMimeType {digits : Fin 24 → Fin 16} {att : Attachment}
    (h : ¬ generateBoundary digits <:+: att.mimeType) :
    ¬ lit "--" ++ generateBoundary digits <:+: sentMimeType att := by
  rw [sentMimeType]
  split_ifs
  · exact delimiter_notIn (getMimeType_spec att.fileName).2.1
  · exact delimiter_notIn_of_boundary h

/-- **A message with attachments**, read back. -/
theorem parseEmail_mixed {drawn : Drawn} {email : Email} (hfresh : FreshBoundaries drawn email)
    (hdata : ∀ a ∈ email.attachments, IsBase64Text a.base64Data) {fs : List Field} {ps : List Bytes}
    (hnames : ∀ f ∈ fs, f.name ∈ mainNames)
    (hps : List.Forall₂ IsAttachmentPart email.attachments ps)
    (hatt : email.hasAttachments = true) (out : Email) :
    ∃ out', parseEmail (message drawn email fs ps) out = (true, out') ∧
      out'.htmlText = (if email.hasHtml then email.htmlText else out.htmlText) ∧
      out'.attachments.map Attachment.base64Data =
        out.attachments.map Attachment.base64Data ++
          (email.attachments.filter (!takenForMultipart ·)).map (eraseBreaks ·.base64Data) := by
  have hplain : email.plainText ∈ email.fields := by simp [Email.fields]
  have hfields : ∀ a ∈ email.attachments, a.fileName ∈ email.fields ∧
      a.mimeType ∈ email.fields ∧ a.base64Data ∈ email.fields := by
    intro a ha
    have hmem : ∀ s ∈ [a.fileName, a.mimeType, a.base64Data], s ∈ email.fields := fun s hs =>
      List.mem_append_right _ (List.mem_flatMap.mpr ⟨a, ha, hs⟩)
    exact ⟨hmem _ (by simp), hmem _ (by simp), hmem _ (by simp)⟩
  have hparts : ∀ p ∈ bodyPart drawn email :: ps,
      IsPart (lit "--" ++ generateBoundary drawn.mixed) p := by
    refine List.forall_mem_cons.mpr
      ⟨isPart_bodyPart hfresh.ne (hfresh.mixed _ hplain), fun p hp => ?_⟩
    obtain ⟨a, ha, hpart⟩ := exists_attachment_of_mem hps hp
    obtain ⟨hname, hmime, hbase⟩ := hfields a ha
    exact isPart_attachment hpart (hfresh.mixed _ hname)
      (delimiter_notIn_sentMimeType (hfresh.mixed _ hmime)) (hfresh.mixed _ hbase)
  obtain ⟨n, out', hkeeps, hparse⟩ := parseEmail_multipart hnames (by decide)
    isMultipartType_mixed drawn.mixed
    (renderParts (lit "--" ++ generateBoundary drawn.mixed) [] (bodyPart drawn email :: ps)) out
  rw [message, if_pos hatt, hparse]
  refine ⟨_, rfl, ?_⟩
  rw [parseMultipartBody, multipartParts_renderParts (notMem_delimiter (by decide)) [] hparts,
    List.foldl_cons]
  have hbody := processMimePart_bodyPart n (hfresh.alternative _ hplain) out'
  have hrest := foldl_attachments (n + 1) hps (fun a ha => (hdata a ha).notMem)
    (processMimePart (n + 2) (bodyPart drawn email) out')
  rw [hbody.1, hbody.2, hkeeps.1, hkeeps.2] at hrest
  exact hrest

/-- **The HTML comes back byte for byte.**  The email is one the builder accepts, with any text and
any attachments; the boundaries are in none of its texts. -/
theorem parseEmail_htmlText (drawn : Drawn) (email out : Email) (hvalid : validateEmail email = true)
    (hclean : CleanHeaders email) (hhtml : email.htmlText ≠ [])
    (hsize : email.htmlText.length ≤ maxFileSize)
    (hatts : ∀ a ∈ email.attachments,
      ValidUtf8 a.fileName ∧ NoBreak a.mimeType ∧ IsBase64Text a.base64Data)
    (hfresh : FreshBoundaries drawn email) :
    ∃ raw out', buildEmail {} drawn email = .ok (some raw) ∧ parseEmail raw out = (true, out') ∧
      out'.htmlText = email.htmlText := by
  obtain ⟨fs, ps, hnames, hps, hbuild⟩ := buildEmail_spec drawn hvalid hclean hsize
    fun a ha => ⟨(hatts a ha).1, noBreak_sentMimeType (hatts a ha).2.1⟩
  have hhas : email.hasHtml = true := by simp [Email.hasHtml, hhtml]
  cases hatt : email.hasAttachments with
  | true =>
    obtain ⟨out', hparse, hout, -⟩ := parseEmail_mixed hfresh (fun a ha => (hatts a ha).2.2) hnames
      hps hatt out
    exact ⟨_, out', hbuild, hparse, by rw [hout, if_pos hhas]⟩
  | false =>
    have hplain : email.plainText ∈ email.fields := by simp [Email.fields]
    obtain ⟨n, out', -, hparse⟩ := parseEmail_multipart hnames (by decide)
      isMultipartType_alternative drawn.alternative (alternativeBody drawn email []) out
    have h := parseMultipartBody_alternative (n + 1) (hfresh.alternative _ hplain) [] out'
    refine ⟨_, _, hbuild, ?_, h.1⟩
    rw [message, if_neg (by simp [hatt]), if_pos hhas]
    exact hparse

/-- Values for the witnesses. -/
def drawnSample : Drawn where
  now := ⟨1, 5, 3, 2024, 9, 5, 7, false, 120⟩
  millis := 1712305507000
  uniqueId := fun i => ⟨i.val % 16, Nat.mod_lt _ (by decide)⟩
  mixed := fun _ => 3
  alternative := fun _ => 4

/-- An email with a text, HTML and one attachment of that name. -/
def emailWith (fileName : Bytes) : Email :=
  { sender := lit "alice@example.com"
    «to» := [lit "bob@example.com"]
    subject := lit "Report"
    plainText := lit "See the file."
    htmlText := lit "<b>See the file.</b>"
    attachments := [{ fileName, base64Data := lit "QUJD\r\nREVG" }] }

theorem cleanHeaders_emailWith (fileName : Bytes) : CleanHeaders (emailWith fileName) where
  subject := ⟨"Report".toList, show lit "Report" = _ by decide⟩
  sender := show NoBreak (lit "alice@example.com") by decide
  «to» := List.forall_mem_singleton.mpr (show NoBreak (lit "bob@example.com") by decide)
  cc := by simp [emailWith]
  messageId := by simp [emailWith, NoBreak]
  inReplyTo := by simp [emailWith, NoBreak]
  references := by simp [emailWith, NoBreak]

theorem isBase64Text_sample : IsBase64Text (lit "QUJD\r\nREVG") := by decide +kernel

theorem parseEmail_htmlText_sample :
    ∃ raw out', buildEmail {} drawnSample (emailWith (lit "report.txt")) = .ok (some raw) ∧
      parseEmail raw {} = (true, out') ∧ out'.htmlText = lit "<b>See the file.</b>" :=
  parseEmail_htmlText drawnSample (emailWith (lit "report.txt")) {} (by decide)
    (cleanHeaders_emailWith _) (by decide) (by decide)
    (List.forall_mem_singleton.mpr ⟨⟨"report.txt".toList, by decide⟩, by decide,
      isBase64Text_sample⟩)
    ⟨by decide, by decide, by decide⟩

/-! ## Which attachments come back -/

/-- `BuildEmail` throws on HTML that is too large. -/
theorem length_le_of_buildEmail {drawn : Drawn} {email : Email} {raw : Bytes}
    (h : buildEmail {} drawn email = .ok (some raw)) :
    validateEmail email = true ∧ email.htmlText.length ≤ maxFileSize := by
  rw [buildEmail] at h
  cases hvalid : validateEmail email with
  | false => simp [hvalid, pure, Except.pure] at h
  | true =>
    refine ⟨rfl, ?_⟩
    by_contra hlong
    have hlarge : maxFileSize < email.htmlText.length := Nat.not_le.mp hlong
    have hhas : email.hasHtml = true := by
      cases htext : email.htmlText with
      | nil => simp [htext] at hlarge
      | cons c s => simp [Email.hasHtml, htext]
    have hcode : toBase64 email.htmlText = .error (.thrown (.runtimeError (lit "File too large"))) := by
      rw [toBase64, encodeBase64, if_pos hlarge]
    have hbody : ∀ boundary, appendBodyContent drawn email boundary =
        .error (.thrown (.runtimeError (lit "File too large"))) := by
      intro boundary
      simp only [appendBodyContent, appendHtmlPart, hcode, hhas, if_true]
      rfl
    rw [if_pos hvalid] at h
    cases hheaders : appendMainHeaders {} drawn email with
    | error e => simp [hheaders, bind, Except.bind] at h
    | ok headers => cases hatt : email.hasAttachments <;>
        simp [hheaders, hatt, hbody, bind, Except.bind] at h

/-- What comes back of the attachments. -/
theorem attachments_parseEmail {drawn : Drawn} {email : Email} (hclean : CleanHeaders email)
    (hne : email.attachments ≠ [])
    (hatts : ∀ a ∈ email.attachments,
      ValidUtf8 a.fileName ∧ a.mimeType = [] ∧ IsBase64Text a.base64Data)
    (hfresh : FreshBoundaries drawn email) {raw : Bytes}
    (hraw : buildEmail {} drawn email = .ok (some raw)) :
    (parseEmail raw {}).2.attachments.map Attachment.base64Data =
      (email.attachments.filter (!namesMultipart ·.fileName)).map (eraseBreaks ·.base64Data) := by
  obtain ⟨hvalid, hsize⟩ := length_le_of_buildEmail hraw
  have hmime : ∀ a ∈ email.attachments, NoBreak (sentMimeType a) := fun a ha =>
    noBreak_sentMimeType (by rw [(hatts a ha).2.1]; decide)
  obtain ⟨fs, ps, hnames, hps, hbuild⟩ := buildEmail_spec drawn hvalid hclean hsize
    fun a ha => ⟨(hatts a ha).1, hmime a ha⟩
  obtain rfl := Option.some.inj (Except.ok.inj (hraw.symm.trans hbuild))
  have hatt : email.hasAttachments = true := by simp [Email.hasAttachments, hne]
  obtain ⟨out', hparse, -, hmap⟩ := parseEmail_mixed hfresh (fun a ha => (hatts a ha).2.2) hnames
    hps hatt {}
  rw [hparse, hmap, List.map_nil, List.nil_append]
  congr 1
  refine List.filter_congr fun a ha => ?_
  rw [takenForMultipart, sentMimeType, if_pos (hatts a ha).2.1, (getMimeType_spec a.fileName).2.2,
    Bool.false_or]

/-- **The attachments come back, all of them and in order, exactly where no encoded file name has
`multipart` in it.** -/
theorem attachments_parseEmail_iff (drawn : Drawn) (email : Email) (hclean : CleanHeaders email)
    (hne : email.attachments ≠ [])
    (hatts : ∀ a ∈ email.attachments,
      ValidUtf8 a.fileName ∧ a.mimeType = [] ∧ IsBase64Text a.base64Data)
    (hfresh : FreshBoundaries drawn email) (raw : Bytes)
    (hraw : buildEmail {} drawn email = .ok (some raw)) :
    (parseEmail raw {}).2.attachments.map Attachment.base64Data =
        email.attachments.map (eraseBreaks ·.base64Data) ↔
      ∀ a ∈ email.attachments, namesMultipart a.fileName = false := by
  rw [attachments_parseEmail hclean hne hatts hfresh hraw]
  constructor
  · intro h a ha
    have hlen := congrArg List.length h
    rw [List.length_map, List.length_map] at hlen
    have hall := List.length_filter_eq_length_iff.mp hlen a ha
    simpa using hall
  · intro h
    rw [List.filter_eq_self.mpr fun a ha => by simp [h a ha]]

/-- What is asked of the attachments, for an email with one. -/
theorem attachments_emailWith {fileName : Bytes} (hname : ValidUtf8 fileName) :
    ∀ a ∈ (emailWith fileName).attachments,
      ValidUtf8 a.fileName ∧ a.mimeType = [] ∧ IsBase64Text a.base64Data :=
  List.forall_mem_singleton.mpr ⟨hname, rfl, isBase64Text_sample⟩

theorem exists_buildEmail_emailWith {fileName : Bytes} (hname : ValidUtf8 fileName) :
    ∃ raw, buildEmail {} drawnSample (emailWith fileName) = .ok (some raw) := by
  have hvalid : validateEmail (emailWith fileName) = validateEmail (emailWith []) := rfl
  have hbase : validateEmail (emailWith []) = true := by decide
  have hsize : (lit "<b>See the file.</b>").length ≤ maxFileSize := by decide
  have hmime : ∀ a ∈ (emailWith fileName).attachments, NoBreak (sentMimeType a) := fun a ha =>
    noBreak_sentMimeType (by rw [(attachments_emailWith hname a ha).2.1]; decide)
  obtain ⟨fs, ps, -, -, hbuild⟩ := buildEmail_spec drawnSample (hvalid.trans hbase)
    (cleanHeaders_emailWith fileName) hsize
    fun a ha => ⟨(attachments_emailWith hname a ha).1, hmime a ha⟩
  exact ⟨_, hbuild⟩

theorem attachments_parseEmail_sample :
    ∃ raw, buildEmail {} drawnSample (emailWith (lit "report.txt")) = .ok (some raw) ∧
      (parseEmail raw {}).2.attachments.map Attachment.base64Data = [lit "QUJDREVG"] := by
  have hname : ValidUtf8 (lit "report.txt") := ⟨"report.txt".toList, by decide⟩
  obtain ⟨raw, hraw⟩ := exists_buildEmail_emailWith hname
  exact ⟨raw, hraw, (attachments_parseEmail_iff drawnSample _ (cleanHeaders_emailWith _)
    (List.cons_ne_nil _ _) (attachments_emailWith hname)
    ⟨by decide, by decide, by decide⟩ raw hraw).mpr (by decide)⟩

/-- An attachment that does not come back: its name has `multipart` in it. -/
theorem attachments_parseEmail_lost :
    CleanHeaders (emailWith (lit "multipart.pdf")) ∧
      (∀ a ∈ (emailWith (lit "multipart.pdf")).attachments,
        ValidUtf8 a.fileName ∧ a.mimeType = [] ∧ IsBase64Text a.base64Data) ∧
      FreshBoundaries drawnSample (emailWith (lit "multipart.pdf")) ∧
      ∃ raw, buildEmail {} drawnSample (emailWith (lit "multipart.pdf")) = .ok (some raw) ∧
        (parseEmail raw {}).2.attachments = [] ∧
        (emailWith (lit "multipart.pdf")).attachments.length = 1 := by
  have hname : ValidUtf8 (lit "multipart.pdf") := ⟨"multipart.pdf".toList, by decide⟩
  have hfresh : FreshBoundaries drawnSample (emailWith (lit "multipart.pdf")) :=
    ⟨by decide, by decide, by decide⟩
  obtain ⟨raw, hraw⟩ := exists_buildEmail_emailWith hname
  have h := attachments_parseEmail (cleanHeaders_emailWith _) (List.cons_ne_nil _ _)
    (attachments_emailWith hname) hfresh hraw
  have hlost : (emailWith (lit "multipart.pdf")).attachments.filter
      (!namesMultipart ·.fileName) = [] := by decide
  rw [hlost, List.map_nil] at h
  exact ⟨cleanHeaders_emailWith _, attachments_emailWith hname, hfresh, raw, hraw,
    List.map_eq_nil_iff.mp h, rfl⟩

end MailStack.Mime
