import MailStack.Base64.Format
import MailStack.Mime.Termination

/-!
# Client/AttachmentSize — the size an attachment is announced with, and the bytes that are saved

`Attachment` works its size out of the length and the padding of base64 data.  `ProcessMimePart` puts
there whatever the part holds, and `TryDecodeAttachmentBytes` falls back to the data where it is no
base64; these bytes are always more than the size.  `sizesRight_iff` says for which messages the two
agree.
-/

open Bytes MailStack.Base64 Search

namespace MailStack.Client

open Mime (Attachment Email splitHeadersAndBody getHeaderValue extractBoundary toLower
  multipartParts processMimePart processLeaf parseEmail decodeQuotedPrintable extractFileName)

/-- `TryDecodeAttachmentBytes`; `none` where it returns `false`. -/
def tryDecodeAttachmentBytes (attachment : Attachment) : Option Bytes :=
  if attachment.base64Data = [] then none
  else
    match decodeBase64 attachment.base64Data with
    | .ok out => some out
    | .error _ => some attachment.base64Data

/-! ## The data of the attachments -/

/-- What is stored for the attachments of a part. -/
def attachmentData : ℕ → Bytes → List Bytes
  | 0, _ => []
  | n + 1, partRaw =>
    let (partHeaders, partBody) := splitHeadersAndBody partRaw
    let contentType := toLower (getHeaderValue partHeaders (lit "Content-Type:"))
    let disposition := toLower (getHeaderValue partHeaders (lit "Content-Disposition:"))
    let encoding := toLower (getHeaderValue partHeaders (lit "Content-Transfer-Encoding:"))
    let partBody :=
      if contains (lit "quoted-printable") encoding then decodeQuotedPrintable partBody else partBody
    if contains (lit "multipart") contentType then
      let nestedBoundary := extractBoundary (getHeaderValue partHeaders (lit "Content-Type:"))
      if nestedBoundary ≠ [] then (multipartParts partBody nestedBoundary).flatMap (attachmentData n)
      else []
    else if contains (lit "attachment") disposition ∨ contains (lit "name=") contentType ∨
        contains (lit "filename=") disposition then
      [if contains (lit "base64") encoding then eraseBreaks partBody else partBody]
    else []

/-- What is stored for the attachments of a message. -/
def messageData (rawMime : Bytes) : List Bytes :=
  let (topHeaders, body) := splitHeadersAndBody rawMime
  let contentType := getHeaderValue topHeaders (lit "Content-Type:")
  if contains (lit "multipart") (toLower contentType) ∧ extractBoundary contentType ≠ [] then
    (multipartParts body (extractBoundary contentType)).flatMap (attachmentData rawMime.length)
  else []

/-- The size that `Attachment` works out. -/
def announcedSize (data : Bytes) : ℕ := (Attachment.of [] [] data).fileSize

/-- The data and the size of an attachment. -/
def dataAndSize (attachment : Attachment) : Bytes × ℕ :=
  (attachment.base64Data, attachment.fileSize)

section Data

variable {n : ℕ} {partRaw rawMime data : Bytes}

theorem attachments_setCharset (out : Email) (contentType : Bytes) :
    (out.setCharset contentType).attachments = out.attachments := by
  rw [Email.setCharset]
  split_ifs <;> rfl

theorem attachments_processLeaf (partHeaders partBody contentType disposition encoding : Bytes)
    (out : Email) :
    (processLeaf partHeaders partBody contentType disposition encoding out).attachments.map
        dataAndSize = out.attachments.map dataAndSize ++
      (if contains (lit "attachment") disposition ∨ contains (lit "name=") contentType ∨
          contains (lit "filename=") disposition then
        [if contains (lit "base64") encoding then eraseBreaks partBody else partBody]
      else []).map fun data => (data, announcedSize data) := by
  rw [processLeaf]
  by_cases hattachment : contains (lit "attachment") disposition ∨
      contains (lit "name=") contentType ∨ contains (lit "filename=") disposition
  · rw [if_pos hattachment, if_pos hattachment, Email.addAttachment, List.map_append]
    rfl
  · rw [if_neg hattachment, if_neg hattachment, List.map_nil, List.append_nil]
    split_ifs
    · exact congrArg (List.map dataAndSize) (attachments_setCharset _ _)
    · rfl
    · rfl

/-- So do the parts one after the other, if each adds its own. -/
theorem attachments_foldl {process : Email → Bytes → Email} {stored : Bytes → List Bytes}
    (hprocess : ∀ out p, (process out p).attachments.map dataAndSize =
      out.attachments.map dataAndSize ++ (stored p).map fun data => (data, announcedSize data)) :
    ∀ (parts : List Bytes) (out : Email), (parts.foldl process out).attachments.map dataAndSize =
      out.attachments.map dataAndSize ++
        (parts.flatMap stored).map fun data => (data, announcedSize data)
  | [], out => (List.append_nil _).symm
  | p :: parts, out => by
      rw [List.foldl_cons, attachments_foldl hprocess parts, hprocess, List.flatMap_cons,
        List.map_append, List.append_assoc]

/-- **A part adds the attachments that are in it.** -/
theorem attachments_processMimePart : ∀ (n : ℕ) (partRaw : Bytes) (out : Email),
    (processMimePart n partRaw out).attachments.map dataAndSize =
      out.attachments.map dataAndSize ++
        (attachmentData n partRaw).map fun data => (data, announcedSize data)
  | 0, _, _ => (List.append_nil _).symm
  | n + 1, partRaw, out => by
      rw [processMimePart, attachmentData]
      dsimp only
      generalize (splitHeadersAndBody partRaw).1 = headers
      generalize (if contains (lit "quoted-printable") _ then _ else _ : Bytes) = body
      by_cases hmultipart : contains (lit "multipart")
          (toLower (getHeaderValue headers (lit "Content-Type:"))) = true
      · rw [if_pos hmultipart, if_pos hmultipart]
        by_cases hboundary : extractBoundary (getHeaderValue headers (lit "Content-Type:")) ≠ []
        · rw [if_pos hboundary, if_pos hboundary, attachments_foldl
            (fun out p => attachments_processMimePart n p out)]
          split_ifs <;> rfl
        · rw [if_neg hboundary, if_neg hboundary, List.map_nil, List.append_nil]
      · rw [if_neg hmultipart, if_neg hmultipart]
        exact attachments_processLeaf ..

/-- **The attachments that `ParseEmail` finds**, each with its data and its size. -/
theorem attachments_parseEmail (rawMime : Bytes) :
    (parseEmail rawMime {}).2.attachments.map dataAndSize =
      (messageData rawMime).map fun data => (data, announcedSize data) := by
  rw [parseEmail, messageData]
  by_cases hempty : rawMime = []
  · subst hempty
    rfl
  rw [if_neg hempty]
  dsimp only
  generalize splitHeadersAndBody rawMime = split
  obtain ⟨headers, body⟩ := split
  dsimp only
  by_cases hmultipart : contains (lit "multipart")
      (toLower (getHeaderValue headers (lit "Content-Type:"))) = true
  · rw [if_pos hmultipart]
    by_cases hboundary : extractBoundary (getHeaderValue headers (lit "Content-Type:")) = []
    · rw [if_pos hboundary, if_neg fun h => h.2 hboundary]
      rfl
    · have hboth : contains (lit "multipart")
          (toLower (getHeaderValue headers (lit "Content-Type:"))) = true ∧
            extractBoundary (getHeaderValue headers (lit "Content-Type:")) ≠ [] :=
        ⟨hmultipart, hboundary⟩
      rw [if_neg hboundary, if_pos hboth, Mime.parseMultipartBody]
      dsimp only
      rw [attachments_foldl fun out p => attachments_processMimePart rawMime.length p out]
      split_ifs <;> rfl
  · rw [if_neg hmultipart, if_neg fun h => hmultipart h.1]
    exact congrArg (List.map dataAndSize) (attachments_setCharset _ _)

theorem length_eraseBreaks_le (s : Bytes) : (eraseBreaks s).length ≤ s.length := by
  rw [eraseBreaks]
  exact (List.length_filter_le ..).trans (List.length_filter_le ..)

/-- What is stored is no longer than the part. -/
theorem length_le_of_mem_attachmentData : ∀ {n : ℕ} {partRaw : Bytes},
    data ∈ attachmentData n partRaw → data.length ≤ partRaw.length
  | 0, _, h => absurd h List.not_mem_nil
  | n + 1, partRaw, h => by
      have hsplit := Mime.length_body_le partRaw
      rw [attachmentData] at h
      dsimp only at h
      obtain ⟨body, hbody, hlength⟩ : ∃ body, body =
          (if contains (lit "quoted-printable")
              (toLower (getHeaderValue (splitHeadersAndBody partRaw).1
                (lit "Content-Transfer-Encoding:"))) then
            decodeQuotedPrintable (splitHeadersAndBody partRaw).2
          else (splitHeadersAndBody partRaw).2) ∧ body.length ≤ partRaw.length := by
        refine ⟨_, rfl, ?_⟩
        split_ifs
        · exact (Mime.length_decodeQuotedPrintable_le _).trans hsplit
        · exact hsplit
      rw [← hbody] at h
      split_ifs at h
      · obtain ⟨p, hp, hdata⟩ := List.mem_flatMap.mp h
        have hpart := Mime.length_lt_of_mem_multipartParts hp
        exact (length_le_of_mem_attachmentData hdata).trans (hpart.le.trans hlength)
      · exact absurd h List.not_mem_nil
      · rw [List.mem_singleton.mp h]
        exact (length_eraseBreaks_le body).trans hlength
      · rw [List.mem_singleton.mp h]
        exact hlength
      · exact absurd h List.not_mem_nil

theorem length_le_of_mem_messageData (h : data ∈ messageData rawMime) :
    data.length ≤ rawMime.length := by
  rw [messageData] at h
  dsimp only at h
  split_ifs at h
  · obtain ⟨p, hp, hdata⟩ := List.mem_flatMap.mp h
    exact (length_le_of_mem_attachmentData hdata).trans
      ((Mime.length_lt_of_mem_multipartParts hp).le.trans (Mime.length_body_le rawMime))
  · exact absurd h List.not_mem_nil

end Data

/-! ## The size and the bytes -/

section Size

variable {data : Bytes}

/-- The number of `=` among the last two characters. -/
def padding (data : Bytes) : ℕ :=
  if 2 ≤ data.length then
    (if data.getLast? = some '='.toUInt8 then 1 else 0) +
      if data.dropLast.getLast? = some '='.toUInt8 then 1 else 0
  else 0

theorem padding_le (data : Bytes) : padding data ≤ 2 := by
  rw [padding]
  split_ifs <;> decide

theorem announcedSize_eq (hdata : data ≠ []) :
    announcedSize data = (data.length * 3 % 2 ^ 64 / 4 + 2 ^ 64 - padding data) % 2 ^ 64 :=
  if_pos hdata

/-- The subtraction of the padding goes below zero where the overflow leaves too little. -/
theorem announcedSize_cases (hdata : data ≠ []) :
    padding data ≤ data.length * 3 % 2 ^ 64 / 4 ∧
        announcedSize data + padding data = data.length * 3 % 2 ^ 64 / 4 ∨
      data.length * 3 % 2 ^ 64 / 4 < padding data ∧
        announcedSize data + padding data = data.length * 3 % 2 ^ 64 / 4 + 2 ^ 64 := by
  have hpadding := padding_le data
  have hquarter : data.length * 3 % 2 ^ 64 / 4 < 2 ^ 62 := by omega
  rw [announcedSize_eq hdata]
  omega

/-- The data is base64, and no `=` is in it but among its last two characters; for data so long that
`length() * 3` overflows, as many as the overflow takes off. -/
def Announceable (data : Bytes) : Prop :=
  (Framed data ∧ ∀ c ∈ data, isValidBase64 c = true) ∧
    (data.take (data.length - 2)).count '='.toUInt8 =
      data.length * 3 / 4 - data.length * 3 % 2 ^ 64 / 4

/-- The `=` of a text, by place. -/
theorem count_eq_add_padding (hlength : 2 ≤ data.length) :
    data.count '='.toUInt8 = (data.take (data.length - 2)).count '='.toUInt8 + padding data := by
  obtain ⟨t, c, c', rfl⟩ : ∃ t c c', data = t ++ [c, c'] := by
    rcases List.eq_nil_or_concat data with rfl | ⟨u, c', rfl⟩
    · exact absurd hlength (by decide)
    rcases List.eq_nil_or_concat u with rfl | ⟨t, c, rfl⟩
    · exact absurd hlength (by simp)
    · exact ⟨t, c, c', by simp⟩
  have hlast : (t ++ [c, c']).getLast? = some c' := by
    rw [List.getLast?_append]
    rfl
  have hbefore : (t ++ [c, c']).dropLast.getLast? = some c := by
    rw [List.dropLast_append_of_ne_nil (List.cons_ne_nil _ _), List.getLast?_append]
    rfl
  have htake : (t ++ [c, c']).take ((t ++ [c, c']).length - 2) = t := by
    rw [List.length_append]
    exact List.take_left
  rw [padding, if_pos hlength, hlast, hbefore, htake, List.count_append, List.count_cons,
    List.count_singleton]
  simp only [Option.some.injEq, beq_iff_eq]

/-- **The announced size is the number of bytes that are saved** exactly for such data. -/
theorem announcedSize_eq_iff (hdata : data ≠ []) (hsize : data.length < 2 ^ 64) :
    (∃ out, tryDecodeAttachmentBytes (.of [] [] data) = some out ∧
      announcedSize data = out.length) ↔ Announceable data := by
  have hpos := List.length_pos_of_ne_nil hdata
  have hpadding := padding_le data
  have hcases := announcedSize_cases hdata
  have hsaved : tryDecodeAttachmentBytes (.of [] [] data) =
      match decodeBase64 data with
      | .ok out => some out
      | .error _ => some data := if_neg hdata
  rw [hsaved, Announceable, ← decodes_iff]
  cases hdecoded : decodeBase64 data with
  | error e =>
    constructor
    · rintro ⟨out, hout, hequal⟩
      obtain rfl := Option.some.inj hout
      have hlost : data.length * 3 / 2 ^ 64 = 0 ∨ data.length * 3 / 2 ^ 64 = 1 ∨
          data.length * 3 / 2 ^ 64 = 2 := by omega
      rcases hlost with hlost | hlost | hlost
      · omega
      · omega
      · omega
    · rintro ⟨⟨out, hok⟩, -⟩
      exact nomatch hok
  | ok bytes =>
    obtain ⟨hvalid, hfour, hgroups⟩ := decodeBase64_ok hdecoded
    have hcount := (framed_of_decodeGroups hfour hvalid hgroups).2
    have hplaces := @count_eq_add_padding data (by omega)
    have hequal_iff : announcedSize data = bytes.length ↔
        (data.take (data.length - 2)).count '='.toUInt8 =
          data.length * 3 / 4 - data.length * 3 % 2 ^ 64 / 4 := by omega
    constructor
    · rintro ⟨out, hout, hequal⟩
      obtain rfl := Option.some.inj hout
      exact ⟨⟨bytes, rfl⟩, hequal_iff.mp hequal⟩
    · rintro ⟨-, hequal⟩
      exact ⟨bytes, rfl, hequal_iff.mpr hequal⟩

end Size

/-! ## The attachments of a message -/

/-- Every attachment that `ParseEmail` finds with data in it is announced with the number of bytes
that are saved for it. -/
def SizesRight (rawMime : Bytes) : Prop :=
  ∀ attachment ∈ (parseEmail rawMime {}).2.attachments, attachment.base64Data ≠ [] →
    ∃ out, tryDecodeAttachmentBytes attachment = some out ∧ attachment.fileSize = out.length

/-- **The sizes are right exactly where all data is padded base64.** -/
theorem sizesRight_iff (rawMime : Bytes) (hsize : rawMime.length < 2 ^ 64) :
    SizesRight rawMime ↔ ∀ data ∈ messageData rawMime, data ≠ [] → Announceable data := by
  have hall : ∀ P : Bytes × ℕ → Prop,
      (∀ a ∈ (parseEmail rawMime {}).2.attachments, P (dataAndSize a)) ↔
        ∀ data ∈ messageData rawMime, P (data, announcedSize data) := by
    intro P
    rw [← List.forall_mem_map, attachments_parseEmail, List.forall_mem_map]
  refine (hall fun p => p.1 ≠ [] → ∃ out,
    tryDecodeAttachmentBytes (.of [] [] p.1) = some out ∧ p.2 = out.length).trans ?_
  refine forall₂_congr fun data hmem => forall_congr' fun hdata => ?_
  exact announcedSize_eq_iff hdata ((length_le_of_mem_messageData hmem).trans_lt hsize)

/-! ## A text file -/

/-- A message with a text file, as it is. -/
def textFileMessage : Bytes :=
  Mime.mixedMessage [lit "Content-Type: text/plain; name=a.txt\r\n\r\nhello"]

theorem sizesRight_iff_textFile : textFileMessage.length < 2 ^ 64 ∧
    (SizesRight textFileMessage ↔
      ∀ data ∈ messageData textFileMessage, data ≠ [] → Announceable data) :=
  ⟨by decide, sizesRight_iff textFileMessage (by decide)⟩

/-- **Five bytes are announced, and seven are saved.** -/
theorem not_sizesRight_textFile :
    ((parseEmail textFileMessage {}).1 = true ∧
      (parseEmail textFileMessage {}).2.attachments =
        [⟨lit "a.txt", lit "text/plain", lit "hello\r\n", 5⟩]) ∧ ¬ SizesRight textFileMessage := by
  have hattachments : (parseEmail textFileMessage {}).2.attachments =
      [⟨lit "a.txt", lit "text/plain", lit "hello\r\n", 5⟩] := by decide +kernel
  refine ⟨⟨by decide +kernel, hattachments⟩, fun hright => ?_⟩
  obtain ⟨out, hout, hequal⟩ := hright _ (hattachments ▸ List.mem_singleton_self _) (by decide)
  have hsaved : tryDecodeAttachmentBytes ⟨lit "a.txt", lit "text/plain", lit "hello\r\n", 5⟩ =
      some (lit "hello\r\n") := by decide +kernel
  obtain rfl := Option.some.inj (hsaved.symm.trans hout)
  exact absurd hequal (by decide +kernel)

end MailStack.Client
