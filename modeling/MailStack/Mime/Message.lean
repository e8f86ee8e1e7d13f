import MailStack.Mime.Multipart

/-!
# Mime/Message — what `BuildEmail` writes, as blocks of fields and as parts

A message is a block of fields, an empty line and a body; so is each of its parts.  For an email with
`CleanHeaders` the main headers are a block of fields none of which is `Content-Type`
(`appendMainHeaders_spec`), and every attachment is a part with three fields
(`appendAttachment_spec`).
-/

open Bytes Search MailStack.Base64

namespace MailStack.Mime

/-! ## Emails the builder is meant for -/

/-- The subject is UTF-8, and the other header fields have no break in them. -/
structure CleanHeaders (email : Email) : Prop where
  subject : ValidUtf8 email.subject
  sender : NoBreak email.sender
  «to» : ∀ address ∈ email.to, NoBreak address
  cc : ∀ address ∈ email.cc, NoBreak address
  messageId : NoBreak email.messageId
  inReplyTo : NoBreak email.inReplyTo
  references : NoBreak email.references

/-- Every text of an email. -/
def Email.fields (email : Email) : List Bytes :=
  [email.sender, email.subject, email.date, email.charset, email.messageId, email.inReplyTo,
    email.references, email.plainText, email.htmlText, email.plainTextEncoding,
    email.htmlTextEncoding, email.boundaryMixed, email.boundaryAlternative] ++
    email.to ++ email.cc ++ email.bcc ++
    email.attachments.flatMap fun a => [a.fileName, a.mimeType, a.base64Data]

/-- The two boundaries differ, and neither occurs in a text of the email. -/
structure FreshBoundaries (drawn : Drawn) (email : Email) : Prop where
  ne : generateBoundary drawn.mixed ≠ generateBoundary drawn.alternative
  mixed : ∀ s ∈ email.fields, ¬ generateBoundary drawn.mixed <:+: s
  alternative : ∀ s ∈ email.fields, ¬ generateBoundary drawn.alternative <:+: s

/-! ## Texts without breaks -/

theorem noBreak_decimal (n : ℕ) : NoBreak (decimal n) := by
  have hdigit : ∀ c : Char, c.isDigit = true → 48 ≤ c.toUInt8.toNat := by
    intro c hc
    simp only [Char.isDigit, Bool.and_eq_true, decide_eq_true_eq] at hc
    have hlo : 48 ≤ c.val.toNat := hc.1
    have hhi : c.val.toNat ≤ 57 := hc.2
    have hbyte : c.toUInt8.toNat = c.val.toNat % 256 := rfl
    omega
  have hmem : ∀ c ∈ decimal n, 48 ≤ c.toNat := by
    intro c hc
    obtain ⟨d, hd, rfl⟩ := List.mem_map.mp hc
    exact hdigit d (Nat.isDigit_of_mem_toDigits (by decide) (by decide) hd)
  exact ⟨fun h => absurd (hmem _ h) (by decide), fun h => absurd (hmem _ h) (by decide)⟩

theorem noBreak_twoDigits (n : ℕ) : NoBreak (twoDigits n) := by
  refine noBreak_append.mpr ⟨?_, noBreak_decimal n⟩
  split_ifs <;> decide

theorem noBreak_hexDigits {n : ℕ} (digits : Fin n → Fin 16) : NoBreak (hexDigits digits) := by
  have hhex : ∀ d : Fin 16, (lit "0123456789abcdef").getD d.val 0 ≠ '\r'.toUInt8 ∧
      (lit "0123456789abcdef").getD d.val 0 ≠ '\n'.toUInt8 := by decide
  constructor <;> intro h <;> obtain ⟨d, -, hd⟩ := List.mem_map.mp h
  · exact (hhex d).1 hd
  · exact (hhex d).2 hd

theorem noBreak_format (tm : Tm) : NoBreak tm.format := by
  have hday : ∀ d : Fin 7, NoBreak ([lit "Sun", lit "Mon", lit "Tue", lit "Wed", lit "Thu",
      lit "Fri", lit "Sat"].getD d []) := by decide
  have hmon : ∀ d : Fin 12, NoBreak ([lit "Jan", lit "Feb", lit "Mar", lit "Apr", lit "May",
      lit "Jun", lit "Jul", lit "Aug", lit "Sep", lit "Oct", lit "Nov", lit "Dec"].getD d []) := by
    decide
  have hsign : NoBreak (if tm.west then lit "-" else lit "+") := by split_ifs <;> decide
  have hlit : NoBreak (lit ", ") ∧ NoBreak (lit " ") ∧ NoBreak (lit ":") := by decide
  simp only [Tm.format, noBreak_append, hday, hmon, hsign, hlit, noBreak_decimal,
    noBreak_twoDigits, and_self]

theorem noBreak_joinAddresses : ∀ {addresses : List Bytes}, (∀ a ∈ addresses, NoBreak a) →
    NoBreak (joinAddresses addresses)
  | [], _ => by decide
  | [a], h => h a List.mem_cons_self
  | a :: b :: addresses, h => by
      obtain ⟨ha, h⟩ := List.forall_mem_cons.mp h
      exact noBreak_append.mpr ⟨noBreak_append.mpr ⟨ha, by decide⟩, noBreak_joinAddresses h⟩

/-- What is cut off a text has no break either. -/
theorem noBreak_cut {c : UInt8} {s a b : Bytes} (hs : NoBreak s) (h : cut c s = some (a, b)) :
    NoBreak a ∧ NoBreak b := by
  obtain ⟨rfl, -⟩ := cut_eq_some_iff.mp h
  obtain ⟨ha, hb⟩ := noBreak_append.mp hs
  exact ⟨ha, List.not_mem_of_not_mem_cons hb.1, List.not_mem_of_not_mem_cons hb.2⟩

/-- An identifier has no break if the sender has none. -/
theorem noBreak_generateMessageId (drawn : Drawn) {sender : Bytes} (hsender : NoBreak sender) :
    NoBreak (generateMessageId {} drawn sender) := by
  have hdomain : NoBreak ((cut '@'.toUInt8 sender).elim (lit "localhost") Prod.snd) := by
    cases hcut : cut '@'.toUInt8 sender with
    | none => decide
    | some p => exact (noBreak_cut hsender hcut).2
  have hangle : ∀ {s : Bytes}, NoBreak s → NoBreak ((cut '>'.toUInt8 s).elim s Prod.fst) := by
    intro s hs
    cases hcut : cut '>'.toUInt8 s with
    | none => exact hs
    | some p => exact (noBreak_cut hs hcut).1
  have hlit : NoBreak (lit "<") ∧ NoBreak (lit ".") ∧ NoBreak (lit "@") ∧ NoBreak (lit ">") := by
    decide
  simp only [generateMessageId, noBreak_append, hlit, noBreak_decimal, noBreak_hexDigits,
    hangle hdomain, and_self]

/-! ## Blocks of fields -/

/-- The text is a block of fields with these names. -/
def IsBlock (names : List Bytes) (s : Bytes) : Prop :=
  ∃ fs : List Field, s = unlines (blockLines fs) ∧ ∀ f ∈ fs, f.name ∈ names

theorem IsBlock.nil (names : List Bytes) : IsBlock names [] := ⟨[], rfl, by simp⟩

/-- Blocks are joined to blocks. -/
theorem IsBlock.append {names : List Bytes} {s t : Bytes} (hs : IsBlock names s)
    (ht : IsBlock names t) : IsBlock names (s ++ t) := by
  obtain ⟨fs, rfl, hfs⟩ := hs
  obtain ⟨gs, rfl, hgs⟩ := ht
  refine ⟨fs ++ gs, ?_, fun f hf => (List.mem_append.mp hf).elim (hfs f) (hgs f)⟩
  rw [blockLines, blockLines, blockLines, List.flatMap_append, unlines_append]

/-- A value that goes on over several lines. -/
def folded (w : Bytes) (ws : List Bytes) : Bytes := w ++ ws.flatMap (lit "\r\n\t" ++ ·)

/-- **A header line of the builder is a field.** -/
theorem headerLine_folded (f : Field) :
    headerLine (f.name ++ lit ": ") (folded f.value f.more) = unlines f.lines := by
  have hmore : ∀ ws : List Bytes, ws.flatMap (lit "\r\n\t" ++ ·) ++ lit "\r\n" =
      lit "\r\n" ++ unlines (ws.map (lit "\t" ++ ·)) := by
    intro ws
    induction ws with
    | nil => rfl
    | cons w ws ih =>
      rw [List.flatMap_cons, List.map_cons, unlines_cons, List.append_assoc, ih]
      simp only [List.append_assoc]
      rfl
  rw [headerLine, folded, Field.lines, unlines_cons]
  simp only [List.append_assoc, hmore]

/-- A value on one line. -/
theorem IsBlock.headerLine {names : List Bytes} (name : Bytes) {value : Bytes}
    (hname : IsFieldName name) (hmem : name ∈ names) (hvalue : NoBreak value) :
    IsBlock names (headerLine (name ++ lit ": ") value) := by
  let f : Field :=
    { name, value
      isFieldName := hname
      noBreak_value := hvalue
      noBreak_more := by simp }
  refine ⟨[f], ?_, List.forall_mem_singleton.mpr hmem⟩
  have h := headerLine_folded f
  rw [folded, List.flatMap_nil, List.append_nil] at h
  rw [h, blockLines, List.flatMap_singleton]

/-- A folded text between two others, as a field. -/
theorem exists_field {name w : Bytes} (pre post : Bytes) {ws : List Bytes}
    (hname : IsFieldName name) (hpre : NoBreak pre) (hpost : NoBreak post ∧ ':'.toUInt8 ∉ post)
    (hw : NoBreak w)
    (hws : ∀ v ∈ ws, NoBreak v ∧ ':'.toUInt8 ∉ v) :
    ∃ f : Field, f.name = name ∧ folded f.value f.more = pre ++ folded w ws ++ post ∧
      pre <+: f.value := by
  rcases List.eq_nil_or_concat ws with rfl | ⟨us, u, rfl⟩
  · let f : Field :=
      { name
        value := pre ++ w ++ post
        isFieldName := hname
        noBreak_value := noBreak_append.mpr ⟨noBreak_append.mpr ⟨hpre, hw⟩, hpost.1⟩
        noBreak_more := by simp }
    refine ⟨f, rfl, by simp [folded, f], ?_⟩
    exact ⟨w ++ post, (List.append_assoc pre w post).symm⟩
  · obtain ⟨hus, hu⟩ := List.forall_mem_append.mp (List.concat_eq_append ▸ hws)
    obtain ⟨hu, hcolon⟩ := hu u List.mem_cons_self
    let f : Field :=
      { name
        value := pre ++ w
        more := us ++ [u ++ post]
        isFieldName := hname
        noBreak_value := noBreak_append.mpr ⟨hpre, hw⟩
        noBreak_more := List.forall_mem_append.mpr ⟨hus, List.forall_mem_singleton.mpr
          ⟨noBreak_append.mpr ⟨hu, hpost.1⟩, List.not_mem_append hcolon hpost.2⟩⟩ }
    exact ⟨f, rfl, by simp [folded, f], List.prefix_append pre w⟩

/-- A word without blanks is on one of the lines. -/
theorem infix_toLower_folded {d : Bytes} (hd : d ≠ []) (hblank : ∀ c ∈ d, isBlank c = false)
    (w : Bytes) (ws : List Bytes) :
    d <:+: toLower (folded w ws) ↔ d <:+: toLower w ∨ ∃ v ∈ ws, d <:+: toLower v := by
  have hout : ∀ {c : UInt8}, isBlank c = true → c ∉ d := fun hc h => by simp [hblank _ h] at hc
  induction ws generalizing w with
  | nil => simp [folded]
  | cons v ws ih =>
    have hfold : folded w (v :: ws) = w ++ '\r'.toUInt8 :: (lit "\n\t" ++ folded v ws ++ []) := by
      simp only [folded, List.flatMap_cons, List.append_assoc, List.append_nil]
      rfl
    have hskip : d <:+: lit "\n\t" ++ toLower (folded v ws) ++ [] ↔ d <:+: toLower (folded v ws) :=
      infix_append_disjoint hd (List.forall_mem_cons.mpr ⟨hout (by decide),
        List.forall_mem_singleton.mpr (hout (by decide))⟩) (by simp)
    have hcons : d <:+: toLower w ++ '\r'.toUInt8 :: (lit "\n\t" ++ toLower (folded v ws) ++ []) ↔ _ :=
      infix_append_cons (hout (by decide))
    have htail : d <:+: toLower (folded v ws) ↔ d <:+: toLower v ∨ ∃ u ∈ ws, d <:+: toLower u := ih v
    rw [hfold, List.exists_mem_cons_iff, ← htail, ← hskip, ← hcons]
    simp only [toLower, List.map_append, List.map_cons]
    rfl

/-- So what is read has the words without blanks of what was written. -/
theorem infix_toLower_text_folded {d : Bytes} (hd : d ≠ []) (hblank : ∀ c ∈ d, isBlank c = false)
    (f : Field) : d <:+: toLower f.text ↔ d <:+: toLower (folded f.value f.more) := by
  rw [infix_toLower_text hd hblank, infix_toLower_folded hd hblank]

/-! ## Encoded texts in fields -/

/-- What `EncodeHeader` makes of a header text. -/
def IsEncodedText (text e : Bytes) : Prop :=
  ∃ w ws, e = folded w ws ∧
    (needsEncoding text = false ∧ w = text ∧ ws = [] ∨ ∀ v ∈ w :: ws, IsEncodedWord v)

/-- A valid text is encoded as words with folds between them. -/
theorem encodeHeader_folded {text : Bytes} (h : ValidUtf8 text) :
    ∃ e, encodeHeader {} text (lit "\r\n\t") = .ok e ∧ IsEncodedText text e := by
  obtain ⟨w, ws, he, hw⟩ := @encodeHeader_spec {} text (lit "\r\n\t") (by decide)
    (by decide) h
  exact ⟨_, he, w, ws, rfl, hw⟩

/-- An encoded text as part of a field. -/
theorem IsEncodedText.exists_field {text e : Bytes} (he : IsEncodedText text e)
    (name pre post : Bytes) (hname : IsFieldName name) (hpre : NoBreak pre)
    (hpost : NoBreak post ∧ ':'.toUInt8 ∉ post) :
    ∃ f : Field, f.name = name ∧ folded f.value f.more = pre ++ e ++ post ∧ pre <+: f.value := by
  obtain ⟨w, ws, rfl, ⟨hneeds, rfl, rfl⟩ | hwords⟩ := he
  · exact Mime.exists_field pre post hname hpre hpost (noBreak_of_not_needsEncoding hneeds) (by simp)
  · obtain ⟨hw, hws⟩ := List.forall_mem_cons.mp hwords
    exact Mime.exists_field pre post hname hpre hpost hw.noBreak fun v hv =>
      ⟨(hws v hv).noBreak, (hws v hv).notMem (by decide) (by decide)⟩

/-- A delimiter that is not in the text is not in its encoding. -/
theorem IsEncodedText.delimiter_notIn {text e : Bytes} (he : IsEncodedText text e)
    {digits : Fin 24 → Fin 16} (htext : ¬ generateBoundary digits <:+: text) :
    ¬ lit "--" ++ generateBoundary digits <:+: e := by
  obtain ⟨w, ws, rfl, ⟨-, rfl, rfl⟩ | hwords⟩ := he
  · rw [folded, List.flatMap_nil, List.append_nil]
    exact delimiter_notIn_of_boundary htext
  · have hout : ∀ v ∈ w :: ws, '_'.toUInt8 ∉ v := fun v hv =>
      (hwords v hv).notMem (by decide) (by decide)
    obtain ⟨hw, hws⟩ := List.forall_mem_cons.mp hout
    refine Mime.delimiter_notIn (List.not_mem_append hw ?_)
    intro h
    obtain ⟨v, hv, h⟩ := List.mem_flatMap.mp h
    exact List.not_mem_append (by decide) (hws v hv) h

/-! ## The main headers -/

/-- The names of the fields `AppendMainHeaders` writes. -/
def mainNames : List Bytes :=
  [lit "MIME-Version", lit "Date", lit "Subject", lit "From", lit "To", lit "Cc",
    lit "Message-ID", lit "In-Reply-To", lit "References"]

/-- **The main headers are a block of fields.** -/
theorem appendMainHeaders_spec (drawn : Drawn) {email : Email} (h : CleanHeaders email) :
    ∃ headers, appendMainHeaders {} drawn email = .ok headers ∧ IsBlock mainNames headers := by
  obtain ⟨subject, hsubject, hblock⟩ : ∃ s, appendSubject {} email = .ok s ∧
      IsBlock mainNames s := by
    rw [appendSubject]
    split_ifs
    · obtain ⟨e, he, htext⟩ := encodeHeader_folded h.subject
      obtain ⟨f, hname, hfold, -⟩ := htext.exists_field (lit "Subject") [] [] (by decide)
        (by decide) (by decide)
      refine ⟨headerLine (lit "Subject: ") e, by rw [he]; rfl, [f], ?_, ?_⟩
      · rw [List.nil_append, List.append_nil] at hfold
        rw [blockLines, List.flatMap_singleton, ← headerLine_folded, hname, hfold]
        rfl
      · exact List.forall_mem_singleton.mpr (hname ▸ by decide)
    · exact ⟨[], rfl, .nil _⟩
  have hid : NoBreak (if email.messageId = [] then generateMessageId {} drawn email.sender
      else email.messageId) := by
    split_ifs
    · exact noBreak_generateMessageId drawn h.sender
    · exact h.messageId
  have hopt : ∀ {p : Prop} [Decidable p] {s : Bytes}, IsBlock mainNames s →
      IsBlock mainNames (if p then s else []) := by
    intro p _ s hs
    split_ifs
    · exact hs
    · exact .nil _
  refine ⟨_, by rw [appendMainHeaders, hsubject]; rfl, ?_⟩
  refine .append (.append (.append (.append (.append (.append (.append (.append ?_ ?_) hblock) ?_)
    ?_) (hopt ?_)) ?_) (hopt ?_)) (hopt ?_)
  · exact .headerLine (lit "MIME-Version") (by decide) (by decide) (by decide)
  · exact .headerLine (lit "Date") (by decide) (by decide) (noBreak_format drawn.now)
  · exact .headerLine (lit "From") (by decide) (by decide) h.sender
  · exact .headerLine (lit "To") (by decide) (by decide) (noBreak_joinAddresses h.to)
  · exact .headerLine (lit "Cc") (by decide) (by decide) (noBreak_joinAddresses h.cc)
  · exact .headerLine (lit "Message-ID") (by decide) (by decide) hid
  · exact .headerLine (lit "In-Reply-To") (by decide) (by decide) h.inReplyTo
  · exact .headerLine (lit "References") (by decide) (by decide) h.references

/-! ## The parts -/

/-- A block of fields, an empty line, and a body. -/
def block (fs : List Field) (body : Bytes) : Bytes := unlines (blockLines fs) ++ lit "\r\n" ++ body

/-- The fields of a text part. -/
def textFields : List Field :=
  [{ name := lit "Content-Type"
     value := lit "text/plain; charset=\"utf-8\""
     isFieldName := by decide
     noBreak_value := by decide
     noBreak_more := by simp },
   { name := lit "Content-Transfer-Encoding"
     value := lit "8bit"
     isFieldName := by decide
     noBreak_value := by decide
     noBreak_more := by simp }]

/-- The transfer encoding of an HTML part and of an attachment. -/
def base64Field : Field where
  name := lit "Content-Transfer-Encoding"
  value := lit "base64"
  isFieldName := by decide
  noBreak_value := by decide
  noBreak_more := by simp

/-- The fields of an HTML part. -/
def htmlFields : List Field :=
  [{ name := lit "Content-Type"
     value := lit "text/html; charset=\"utf-8\""
     isFieldName := by decide
     noBreak_value := by decide
     noBreak_more := by simp },
   base64Field]

/-- The `Content-Type` of a multipart of the builder. -/
def multipartField (type : Bytes) (htype : NoBreak type) (digits : Fin 24 → Fin 16) : Field where
  name := lit "Content-Type"
  value := type ++ lit "; boundary=\"" ++ generateBoundary digits ++ lit "\""
  isFieldName := by decide
  noBreak_value := by
    have hboundary : NoBreak (generateBoundary digits) :=
      ⟨notMem_generateBoundary (by decide), notMem_generateBoundary (by decide)⟩
    have hlit : NoBreak (lit "; boundary=\"") ∧ NoBreak (lit "\"") := by decide
    simp only [noBreak_append, htype, hlit, hboundary, and_self]
  noBreak_more := by simp

/-- The header of a multipart is one block. -/
theorem multipartHeader_eq (type : Bytes) (htype : NoBreak type) (digits : Fin 24 → Fin 16) :
    multipartHeader type (generateBoundary digits) =
      unlines (blockLines [multipartField type htype digits]) := by
  have h := headerLine_folded (multipartField type htype digits)
  rw [folded, multipartField, List.flatMap_nil, List.append_nil] at h
  rw [blockLines, List.flatMap_singleton]
  exact h

/-- The text part: its delimiter, its fields, the wrapped text. -/
theorem appendTextPart_eq (body boundary : Bytes) : appendTextPart body boundary =
    lit "--" ++ boundary ++ (lit "\r\n" ++ block textFields (wrapText body 998 ++ lit "\r\n")) := by
  have hfields : unlines (blockLines textFields) =
      lit "Content-Type: text/plain; charset=\"utf-8\"\r\n" ++
        lit "Content-Transfer-Encoding: 8bit\r\n" := by decide +kernel
  rw [appendTextPart, block, hfields]
  simp only [List.append_assoc]

/-- The HTML part: its delimiter, its fields, the encoded text. -/
theorem appendHtmlPart_eq {htmlBody : Bytes} (h : htmlBody.length ≤ maxFileSize) (boundary : Bytes) :
    appendHtmlPart htmlBody boundary = .ok (lit "--" ++ boundary ++
      (lit "\r\n" ++ block htmlFields (chunkBytes 0 htmlBody ++ lit "\r\n"))) := by
  have hfields : unlines (blockLines htmlFields) =
      lit "Content-Type: text/html; charset=\"utf-8\"\r\n" ++
        lit "Content-Transfer-Encoding: base64\r\n" := by decide +kernel
  have hcode : toBase64 htmlBody = .ok (chunkBytes 0 htmlBody) := by
    rw [toBase64, encodeBase64, if_neg (Nat.not_lt.mpr h)]
  rw [appendHtmlPart, hcode, block, hfields]
  simp only [List.append_assoc]
  rfl

/-- The type under which an attachment is sent. -/
def sentMimeType (att : Attachment) : Bytes :=
  if att.mimeType = [] then getMimeType att.fileName else att.mimeType

/-- The part of an attachment whose name is encoded as `e`. -/
def IsAttachmentPart (att : Attachment) (p : Bytes) : Prop :=
  ∃ (ct disp : Field) (e : Bytes), encodeHeader {} att.fileName (lit "\r\n\t") = .ok e ∧
    IsEncodedText att.fileName e ∧ ct.name = lit "Content-Type" ∧
    disp.name = lit "Content-Disposition" ∧
    folded ct.value ct.more = sentMimeType att ++ lit "; name=\"" ++ e ++ lit "\"" ∧
    folded disp.value disp.more = lit "attachment; filename=\"" ++ e ++ lit "\"" ∧
    p = block [ct, base64Field, disp] (att.base64Data ++ lit "\r\n")

/-- The three fields of an attachment, as they are written. -/
theorem unlines_attachmentFields {ct disp : Field} (hct : ct.name = lit "Content-Type")
    (hdisp : disp.name = lit "Content-Disposition") :
    unlines (blockLines [ct, base64Field, disp]) =
      headerLine (lit "Content-Type: ") (folded ct.value ct.more) ++
      headerLine (lit "Content-Transfer-Encoding: ") (lit "base64") ++
      headerLine (lit "Content-Disposition: ") (folded disp.value disp.more) := by
  simp only [blockLines, List.flatMap_cons, List.flatMap_nil, unlines_append, List.append_nil,
    ← headerLine_folded, hct, hdisp, List.append_assoc]
  rfl

/-- **An attachment is written as a part with three fields.** -/
theorem appendAttachment_spec (boundary : Bytes) {att : Attachment}
    (hname : ValidUtf8 att.fileName) (hmime : NoBreak (sentMimeType att)) :
    ∃ p, appendAttachment {} boundary att = .ok (lit "--" ++ boundary ++ (lit "\r\n" ++ p)) ∧
      IsAttachmentPart att p := by
  obtain ⟨e, he, htext⟩ := encodeHeader_folded hname
  obtain ⟨ct, hct, hctText, -⟩ := htext.exists_field (lit "Content-Type")
    (sentMimeType att ++ lit "; name=\"") (lit "\"") (by decide)
    (noBreak_append.mpr ⟨hmime, by decide⟩) (by decide)
  obtain ⟨disp, hdisp, hdispText, -⟩ := htext.exists_field (lit "Content-Disposition")
    (lit "attachment; filename=\"") (lit "\"") (by decide) (by decide) (by decide)
  refine ⟨_, ?_, ct, disp, e, he, htext, hct, hdisp, hctText, hdispText, rfl⟩
  rw [block, unlines_attachmentFields hct hdisp, hctText, hdispText, appendAttachment, he]
  simp only [List.append_assoc]
  rfl

/-- What stands before each part, and the part. -/
def delimited (boundary p : Bytes) : Bytes := lit "--" ++ boundary ++ (lit "\r\n" ++ p)

/-- Every attachment is written as a part. -/
theorem appendAttachments_spec (boundary : Bytes) {email : Email}
    (hatts : ∀ a ∈ email.attachments, ValidUtf8 a.fileName ∧ NoBreak (sentMimeType a)) :
    ∃ ps, appendAttachments {} email boundary = .ok (ps.map (delimited boundary)).flatten ∧
      List.Forall₂ IsAttachmentPart email.attachments ps := by
  obtain ⟨ps, hps, hparts⟩ : ∃ ps, email.attachments.mapM (appendAttachment {} boundary) =
      .ok (ps.map (delimited boundary)) ∧ List.Forall₂ IsAttachmentPart email.attachments ps := by
    revert hatts
    induction email.attachments with
    | nil => exact fun _ => ⟨[], rfl, .nil⟩
    | cons a atts ih =>
      intro hatts
      obtain ⟨ha, hatts⟩ := List.forall_mem_cons.mp hatts
      obtain ⟨p, hp, hpart⟩ := appendAttachment_spec boundary ha.1 ha.2
      obtain ⟨ps, hps, hparts⟩ := ih hatts
      refine ⟨p :: ps, ?_, .cons hpart hparts⟩
      rw [List.mapM_cons, hp, hps]
      rfl
  exact ⟨ps, by rw [appendAttachments, hps]; rfl, hparts⟩

/-- The parts one after the other, with the closing delimiter. -/
theorem renderParts_eq (boundary t : Bytes) (ps : List Bytes) :
    renderParts (lit "--" ++ boundary) t ps =
      (ps.map (delimited boundary)).flatten ++ (lit "--" ++ boundary ++ lit "--\r\n") ++ t := by
  rw [renderParts]
  induction ps with
  | nil => simp [renderTail]
  | cons p ps ih =>
    rw [renderTail, ih, List.map_cons, List.flatten_cons, delimited]
    simp only [List.append_assoc]

/-! ## The message -/

/-- The text part of an email. -/
def textPart (email : Email) : Bytes :=
  block textFields (wrapText email.plainText 998 ++ lit "\r\n")

/-- The HTML part of an email. -/
def htmlPart (email : Email) : Bytes :=
  block htmlFields (chunkBytes 0 email.htmlText ++ lit "\r\n")

/-- The `Content-Type` of the text and the HTML together. -/
def alternativeField (drawn : Drawn) : Field :=
  multipartField (lit "multipart/alternative") (by decide) drawn.alternative

/-- The text and the HTML, and `t` after them. -/
def alternativeBody (drawn : Drawn) (email : Email) (t : Bytes) : Bytes :=
  renderParts (lit "--" ++ generateBoundary drawn.alternative) t [textPart email, htmlPart email]

/-- The first part of an email with attachments. -/
def bodyPart (drawn : Drawn) (email : Email) : Bytes :=
  if email.hasHtml then block [alternativeField drawn] (alternativeBody drawn email (lit "\r\n"))
  else textPart email

/-- The message, with `fs` for its main headers and `ps` for its attachments. -/
def message (drawn : Drawn) (email : Email) (fs : List Field) (ps : List Bytes) : Bytes :=
  if email.hasAttachments then
    block (fs ++ [multipartField (lit "multipart/mixed") (by decide) drawn.mixed])
      (renderParts (lit "--" ++ generateBoundary drawn.mixed) [] (bodyPart drawn email :: ps))
  else if email.hasHtml then block (fs ++ [alternativeField drawn]) (alternativeBody drawn email [])
  else block (fs ++ textFields) (email.plainText ++ lit "\r\n")

/-- More fields come before the body. -/
theorem block_append (fs gs : List Field) (body : Bytes) :
    block (fs ++ gs) body = unlines (blockLines fs) ++ block gs body := by
  simp only [block, blockLines, List.flatMap_append, unlines_append, List.append_assoc]

/-- What `AppendBodyContent` writes of the text and the HTML. -/
theorem alternative_eq (drawn : Drawn) (email : Email) (t : Bytes) :
    block [alternativeField drawn] (alternativeBody drawn email t) =
      multipartHeader (lit "multipart/alternative") (generateBoundary drawn.alternative) ++
        lit "\r\n" ++ appendTextPart email.plainText (generateBoundary drawn.alternative) ++
        delimited (generateBoundary drawn.alternative) (htmlPart email) ++
        (lit "--" ++ generateBoundary drawn.alternative ++ lit "--\r\n") ++ t := by
  rw [multipartHeader_eq _ (by decide), block, alternativeBody, renderParts_eq, appendTextPart_eq]
  simp only [List.map_cons, List.map_nil, List.flatten_cons, List.flatten_nil, List.append_nil,
    List.append_assoc, delimited, textPart]
  rfl

/-- The body of a mail by what the mail has. -/
theorem appendBodyContent_eq (drawn : Drawn) {email : Email}
    (hhtml : email.htmlText.length ≤ maxFileSize) (boundary : Bytes) :
    appendBodyContent drawn email boundary =
      .ok (if email.hasAttachments then delimited boundary (bodyPart drawn email)
        else if email.hasHtml then block [alternativeField drawn] (alternativeBody drawn email [])
        else block textFields (email.plainText ++ lit "\r\n")) := by
  have hhtmlPart : appendHtmlPart email.htmlText (generateBoundary drawn.alternative) =
      .ok (delimited (generateBoundary drawn.alternative) (htmlPart email)) :=
    appendHtmlPart_eq hhtml _
  have hfields : unlines (blockLines textFields) =
      lit "Content-Type: text/plain; charset=\"utf-8\"\r\n" ++
        lit "Content-Transfer-Encoding: 8bit\r\n" := by decide +kernel
  cases hh : email.hasHtml <;> cases ha : email.hasAttachments
  · simp only [appendBodyContent, hh, ha, block, hfields, List.append_assoc, Bool.false_eq_true,
      if_false]
    rfl
  · simp only [appendBodyContent, hh, ha, bodyPart, appendTextPart_eq, delimited, textPart,
      Bool.false_eq_true, if_false, if_true]
    rfl
  · simp only [appendBodyContent, hh, ha, hhtmlPart, alternative_eq, Bool.false_eq_true, if_false,
      if_true]
    rfl
  · simp only [appendBodyContent, hh, ha, hhtmlPart, bodyPart, alternative_eq, delimited,
      List.append_assoc, if_true]
    rfl

/-- **What `BuildEmail` writes.** -/
theorem buildEmail_spec (drawn : Drawn) {email : Email} (hvalid : validateEmail email = true)
    (hclean : CleanHeaders email) (hhtml : email.htmlText.length ≤ maxFileSize)
    (hatts : ∀ a ∈ email.attachments, ValidUtf8 a.fileName ∧ NoBreak (sentMimeType a)) :
    ∃ fs ps, (∀ f ∈ fs, f.name ∈ mainNames) ∧
      List.Forall₂ IsAttachmentPart email.attachments ps ∧
      buildEmail {} drawn email = .ok (some (message drawn email fs ps)) := by
  obtain ⟨-, hheaders, fs, rfl, hnames⟩ := appendMainHeaders_spec drawn hclean
  obtain ⟨ps, hps, hparts⟩ := appendAttachments_spec (generateBoundary drawn.mixed) hatts
  refine ⟨fs, ps, hnames, hparts, ?_⟩
  have hbody := appendBodyContent_eq drawn hhtml (generateBoundary drawn.mixed)
  rw [buildEmail, if_pos hvalid, hheaders]
  cases ha : email.hasAttachments with
  | false =>
    simp only [ha, Bool.false_eq_true, if_false] at hbody
    simp only [message, ha, hbody, block_append, Bool.false_eq_true, if_false]
    split_ifs <;> rfl
  | true =>
    simp only [ha, if_true] at hbody
    rw [message, if_pos ha, block_append, block, renderParts_eq, List.map_cons, List.flatten_cons]
    simp only [hbody, hps, List.append_assoc, List.append_nil, if_true,
      multipartHeader_eq (lit "multipart/mixed") (by decide)]
    rfl

end MailStack.Mime
