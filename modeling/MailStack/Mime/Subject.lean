import MailStack.Mime.RoundTrip

/-!
# Mime/Subject — the subject, from the email to the message and back

`EncodeHeader` leaves a printable subject as it is; `DecodeEncodedWord` takes unencoded text with a
`=` and two hex digits in it for quoted-printable.  The `Subject` line stands before every line that
holds other texts of the email, so `subject_parseEmail` asks nothing of these.
-/

open Bytes Search

namespace MailStack.Mime

/-! ## Text without encoded words -/

/-- Text without `=?` is decoded only where it looks like quoted-printable. -/
theorem decodeEncodedWord_of_plain {text : Bytes} (h : ¬ lit "=?" <:+: text) :
    decodeEncodedWord text = if hasQpArtifacts text then decodeQEncoding text else text := by
  have hloop : decodeLoop text.length text false [] = (text, false) := by
    cases text with
    | nil => rfl
    | cons c s =>
      rw [List.length_cons, decodeLoop, cutSub_eq_none_iff.mpr h]
      rfl
  rw [decodeEncodedWord, hloop]
  rfl

/-- Decoding makes no text longer. -/
theorem length_decodeQEncoding_le : ∀ text : Bytes, (decodeQEncoding text).length ≤ text.length
  | [] => Nat.le_refl 0
  | [c] => by simp [decodeQEncoding]
  | [c, c1] => by simp [decodeQEncoding]
  | c :: c1 :: c2 :: s => by
      have hlong := length_decodeQEncoding_le (c1 :: c2 :: s)
      have hshort := length_decodeQEncoding_le s
      simp only [List.length_cons] at hlong
      rw [decodeQEncoding]
      split_ifs <;> simp only [List.length_cons] <;> omega

/-- Decoding what looks like quoted-printable shortens it. -/
theorem length_decodeQEncoding_lt : ∀ {text : Bytes}, hasQpArtifacts text = true →
    (decodeQEncoding text).length < text.length
  | [], h => absurd h (by simp [hasQpArtifacts])
  | [c], h => absurd h (by simp [hasQpArtifacts])
  | [c, c1], h => absurd h (by simp [hasQpArtifacts])
  | c :: c1 :: c2 :: s, h => by
      rw [hasQpArtifacts, Bool.or_eq_true, Bool.and_eq_true, Bool.and_eq_true,
        decide_eq_true_eq] at h
      rcases h with ⟨⟨rfl, h1⟩, h2⟩ | h
      · have hle := length_decodeQEncoding_le s
        rw [decodeQEncoding, if_neg (by decide), if_pos ⟨rfl, h1, h2⟩]
        simp only [List.length_cons]
        omega
      · have hlt := length_decodeQEncoding_lt h
        have hle := length_decodeQEncoding_le s
        simp only [List.length_cons] at hlt
        rw [decodeQEncoding]
        split_ifs <;> simp only [List.length_cons] <;> omega

/-! ## The parser keeps the subject and the date -/

/-- The subject and the date stay as they are. -/
def SameHeaders (out out' : Email) : Prop := out'.subject = out.subject ∧ out'.date = out.date

theorem SameHeaders.refl (out : Email) : SameHeaders out out := ⟨rfl, rfl⟩

theorem SameHeaders.trans {out out' out'' : Email} (h : SameHeaders out out')
    (h' : SameHeaders out' out'') : SameHeaders out out'' :=
  ⟨h'.1.trans h.1, h'.2.trans h.2⟩

/-- The charset is none of the fields. -/
theorem sameHeaders_setCharset (out : Email) (contentType : Bytes) :
    SameHeaders out (out.setCharset contentType) := by
  rw [Email.setCharset]
  split_ifs
  · exact ⟨rfl, rfl⟩
  · exact .refl out

/-- A leaf leaves the fields alone. -/
theorem sameHeaders_processLeaf (partHeaders partBody contentType disposition encoding : Bytes)
    (out : Email) :
    SameHeaders out (processLeaf partHeaders partBody contentType disposition encoding out) := by
  rw [processLeaf]
  split
  · exact ⟨rfl, rfl⟩
  · split
    · exact sameHeaders_setCharset _ _
    · split
      · exact ⟨rfl, rfl⟩
      · exact .refl out

/-- A part leaves them, since each of its parts does. -/
theorem sameHeaders_processMimePart : ∀ (n : ℕ) (part : Bytes) (out : Email),
    SameHeaders out (processMimePart n part out)
  | 0, _, out => .refl out
  | n + 1, part, out => by
      have hparts : ∀ (parts : List Bytes) (out : Email),
          SameHeaders out (parts.foldl (fun out p => processMimePart n p out) out) := by
        intro parts
        induction parts with
        | nil => exact .refl
        | cons p parts ih => exact fun out => (sameHeaders_processMimePart n p out).trans (ih _)
      rw [processMimePart]
      dsimp only
      split
      · split
        · refine .trans ?_ (hparts _ _)
          split
          · exact ⟨rfl, rfl⟩
          · exact .refl out
        · exact .refl out
      · exact sameHeaders_processLeaf _ _ _ _ _ _

/-- So do the parts of a body. -/
theorem sameHeaders_parseMultipartBody (n : ℕ) (body boundary : Bytes) (out : Email) :
    SameHeaders out (parseMultipartBody n body boundary out) := by
  rw [parseMultipartBody]
  induction multipartParts body boundary generalizing out with
  | nil => exact .refl out
  | cons p parts ih => exact (sameHeaders_processMimePart n p out).trans (ih _)

/-- **The subject and the date are those of the headers**, whatever the body holds. -/
theorem sameHeaders_parseEmail {raw : Bytes} (hne : raw ≠ []) (out : Email) :
    SameHeaders (parseMainHeaders (splitHeadersAndBody raw).1 out) (parseEmail raw out).2 := by
  rw [parseEmail, if_neg hne]
  dsimp only
  generalize parseMainHeaders (splitHeadersAndBody raw).1 out = headers
  split
  · split
    · exact ⟨rfl, rfl⟩
    · refine .trans ?_ (sameHeaders_parseMultipartBody _ _ _ _)
      split
      · exact ⟨rfl, rfl⟩
      · split
        · exact ⟨rfl, rfl⟩
        · exact .refl _
  · exact sameHeaders_setCharset _ _

/-- The subject is the decoded field, whatever the body. -/
theorem subject_parseEmail_of_headers {raw : Bytes} (hne : raw ≠ []) (out : Email) :
    (parseEmail raw out).2.subject =
      decodeEncodedWord (getHeaderValue (splitHeadersAndBody raw).1 (lit "Subject:")) :=
  (sameHeaders_parseEmail hne out).1

/-- The date is the field, whatever the body. -/
theorem date_parseEmail_of_headers {raw : Bytes} (hne : raw ≠ []) (out : Email) :
    (parseEmail raw out).2.date = getHeaderValue (splitHeadersAndBody raw).1 (lit "Date:") :=
  (sameHeaders_parseEmail hne out).2

/-! ## The message around the `Subject` line -/

theorem bind_eq_ok {α β : Type} {x : Except Failure α} {f : α → Except Failure β} {b : β}
    (h : x >>= f = .ok b) : ∃ a, x = .ok a ∧ f a = .ok b := by
  cases x with
  | error e => exact absurd h (by simp [bind, Except.bind])
  | ok a => exact ⟨a, rfl, h⟩

section Built

variable {config : MimeConfig} {drawn : Drawn} {email : Email}

/-- The lines in front of the sender's. -/
def firstLines (drawn : Drawn) (email : Email) : List Bytes :=
  [lit "MIME-Version: 1.0", lit "Date: " ++ drawn.now.format, lit "Subject: " ++ email.subject]

/-- The headers start with them. -/
theorem appendMainHeaders_prefix (config : MimeConfig) (drawn : Drawn) (hne : email.subject ≠ [])
    (hplain : needsEncoding email.subject = false) :
    ∃ headers, appendMainHeaders config drawn email = .ok headers ∧
      unlines (firstLines drawn email) ++ lit "From: " <+: headers := by
  have hsubject : appendSubject config email = .ok (headerLine (lit "Subject: ") email.subject) := by
    rw [appendSubject, if_pos hne, encodeHeader, hplain]
    rfl
  have hfirst : unlines (firstLines drawn email) = headerLine (lit "MIME-Version: ") (lit "1.0") ++
      headerLine (lit "Date: ") drawn.now.format ++ headerLine (lit "Subject: ") email.subject := by
    simp only [firstLines, unlines_cons, unlines_nil, List.append_nil, headerLine]
    rfl
  have hsender : lit "From: " <+: headerLine (lit "From: ") email.sender :=
    (List.prefix_append _ _).trans (List.prefix_append _ _)
  rw [appendMainHeaders, hsubject, hfirst]
  refine ⟨_, rfl, ?_⟩
  exact (((((List.prefix_append_right_inj _).mpr hsender).trans (List.prefix_append _ _)).trans
    (List.prefix_append _ _)).trans (List.prefix_append _ _)).trans
      ((List.prefix_append _ _).trans (List.prefix_append _ _))

/-- A text within the first is within both. -/
theorem infix_append_left {d s t : Bytes} (h : d <:+: s) : d <:+: s ++ t :=
  h.trans (List.infix_append' [] s t)

/-- A text within the second is within both. -/
theorem infix_append_right {d s t : Bytes} (h : d <:+: t) : d <:+: s ++ t :=
  h.trans (List.suffix_append s t).isInfix

/-- An empty line after a line. -/
theorem infix_line (s : Bytes) : lit "\r\n\r\n" <:+: s ++ lit "\r\n" ++ lit "\r\n" :=
  ⟨s, [], by rw [List.append_nil, List.append_assoc]; rfl⟩

/-- Without attachments, an empty line ends the fields in front of the text. -/
theorem infix_appendBodyContent {boundary content : Bytes} (hnone : email.hasAttachments = false)
    (h : appendBodyContent drawn email boundary = .ok content) : lit "\r\n\r\n" <:+: content := by
  rw [appendBodyContent, hnone] at h
  split at h
  · obtain ⟨html, -, h⟩ := bind_eq_ok h
    obtain rfl := Except.ok.inj h
    refine infix_append_left (infix_append_left (infix_append_left (infix_append_left ?_)))
    exact infix_line _
  · obtain rfl := Except.ok.inj h
    exact infix_append_left (infix_append_left (by decide +kernel))

/-- **A message that was built**: the first lines, the sender, and somewhere an empty line. -/
theorem exists_of_buildEmail {raw : Bytes} (h : buildEmail config drawn email = .ok (some raw))
    (hne : email.subject ≠ []) (hplain : needsEncoding email.subject = false) :
    unlines (firstLines drawn email) ++ lit "From: " <+: raw ∧ lit "\r\n\r\n" <:+: raw := by
  obtain ⟨headers, hheaders, hstart⟩ := appendMainHeaders_prefix config drawn hne hplain
  rw [buildEmail, hheaders] at h
  split at h
  · obtain ⟨_, hheaders, h⟩ := bind_eq_ok h
    obtain rfl := Except.ok.inj hheaders
    cases hatt : email.hasAttachments with
    | true =>
      rw [if_pos hatt] at h
      obtain ⟨content, -, h⟩ := bind_eq_ok h
      obtain ⟨attachments, -, h⟩ := bind_eq_ok h
      obtain rfl := Option.some.inj (Except.ok.inj h)
      refine ⟨?_, infix_append_left (infix_append_left (infix_append_left ?_))⟩
      · exact (((hstart.trans (List.prefix_append _ _)).trans (List.prefix_append _ _)).trans
          (List.prefix_append _ _)).trans ((List.prefix_append _ _).trans (List.prefix_append _ _))
      · rw [multipartHeader, headerLine, ← List.append_assoc]
        exact infix_line _
    | false =>
      rw [if_neg (by simp [hatt])] at h
      obtain ⟨content, hcontent, h⟩ := bind_eq_ok h
      obtain rfl := Option.some.inj (Except.ok.inj h)
      exact ⟨hstart.trans (List.prefix_append _ _),
        infix_append_right (infix_appendBodyContent hatt hcontent)⟩
  · exact absurd h (by simp [pure, Except.pure])

end Built

/-! ## Reading it -/

/-- An empty line is first found behind complete lines that are followed by another. -/
theorem cutSub_unlines_append {c : UInt8} (s : Bytes) (hc : c ≠ '\r'.toUInt8) :
    ∀ {ls : List Bytes}, (∀ l ∈ ls, IsHeaderLine l) →
      cutSub (lit "\r\n\r\n") (unlines ls ++ c :: s) =
        (cutSub (lit "\r\n\r\n") (c :: s)).map fun p => (unlines ls ++ p.1, p.2)
  | [], _ => by simp
  | l :: ls, hls => by
      obtain ⟨hl, hls⟩ := List.forall_mem_cons.mp hls
      have ih := cutSub_unlines_append s hc hls
      obtain ⟨x, t, ht, hx⟩ : ∃ x t, unlines ls ++ c :: s = x :: t ∧ x ≠ '\r'.toUInt8 := by
        cases ls with
        | nil => exact ⟨c, s, rfl, hc⟩
        | cons l' ls =>
          obtain ⟨hne, hbreak, -⟩ := hls l' List.mem_cons_self
          obtain ⟨x, t, rfl⟩ := List.exists_cons_of_ne_nil hne
          exact ⟨x, _, by rw [unlines_cons]; rfl, fun h => hbreak (h ▸ List.mem_cons_self)⟩
      rw [ht] at ih
      have hfirst : ¬ lit "\r\n\r\n" <+: '\r'.toUInt8 :: '\n'.toUInt8 :: x :: t := by
        intro hp
        have h₂ := (List.cons_prefix_cons.mp (List.cons_prefix_cons.mp hp).2).2
        exact hx (List.cons_prefix_cons.mp h₂).1.symm
      have hsecond : ¬ lit "\r\n\r\n" <+: '\n'.toUInt8 :: x :: t := fun hp =>
        absurd (List.cons_prefix_cons.mp hp).1 (by decide)
      have hstep : cutSub (lit "\r\n\r\n") (lit "\r\n" ++ x :: t) =
          (cutSub (lit "\r\n\r\n") (x :: t)).map fun p => (lit "\r\n" ++ p.1, p.2) := by
        refine (cutSub_cons hfirst).trans ?_
        rw [cutSub_cons hsecond, Option.map_map]
        rfl
      rw [unlines_cons, List.append_assoc, List.append_assoc, ht, cutSub_append rfl _ hl.2.1, hstep,
        ih, Option.map_map, Option.map_map]
      simp only [Function.comp_def, List.append_assoc]

/-- The lines are read one by one, and then what follows. -/
theorem getHeaderValue_unlines_append (key s : Bytes) {ls : List Bytes}
    (hls : ∀ l ∈ ls, IsHeaderLine l) :
    getHeaderValue (unlines ls ++ s) key =
      findField (popBack ':'.toUInt8 (toLower key)) (ls ++ getlines '\n'.toUInt8 s) := by
  refine findField_congr _ ?_
  induction ls with
  | nil => rfl
  | cons l ls ih =>
    obtain ⟨hl, hls⟩ := List.forall_mem_cons.mp hls
    have hlf : '\n'.toUInt8 ∉ l ++ ['\r'.toUInt8] := List.not_mem_append hl.2.2 (by decide)
    have hraw : unlines (l :: ls) ++ s = (l ++ ['\r'.toUInt8]) ++ '\n'.toUInt8 :: (unlines ls ++ s) := by
      rw [unlines_cons, List.append_assoc, List.append_assoc, List.append_assoc]
      rfl
    rw [hraw, getlines_append_cons _ hlf, List.map_cons, List.cons_append, List.map_cons, ih hls,
      popBack_append, popBack_of_notMem hl.2.1]

/-- A line that starts with no blank ends the value. -/
theorem unfoldValue_of_head (result : Bytes) {c : UInt8} {line : Bytes} (hc : isBlank c = false)
    (lines : List Bytes) : unfoldValue result ((c :: line) :: lines) = result := by
  obtain ⟨t, ht⟩ : ∃ t, popBack '\r'.toUInt8 (c :: line) = c :: t := by
    rw [popBack]
    split_ifs with hlast
    · cases line with
      | nil =>
        obtain rfl := Option.some.inj hlast
        exact absurd hc (by decide)
      | cons c' line => exact ⟨_, rfl⟩
    · exact ⟨line, rfl⟩
  have hhead : ¬ ((c :: t).head? = some ' '.toUInt8 ∨ (c :: t).head? = some '\t'.toUInt8) := by
    rintro (h | h) <;>
    · obtain rfl := Option.some.inj h
      exact absurd hc (by decide)
  rw [unfoldValue, ht]
  dsimp only
  rw [if_neg (List.cons_ne_nil c t), if_neg hhead]

/-- A line of another field is passed over. -/
theorem findField_of_ne {name value lowerKey : Bytes} (hname : ':'.toUInt8 ∉ name)
    (hkey : iequals name lowerKey = false) (hbreak : NoBreak (name ++ lit ": " ++ value))
    (lines : List Bytes) :
    findField lowerKey ((name ++ lit ": " ++ value) :: lines) = findField lowerKey lines := by
  have hcut : cut ':'.toUInt8 (name ++ lit ": " ++ value) = some (name, lit " " ++ value) :=
    cut_eq_some_iff.mpr ⟨by rw [List.append_assoc]; rfl, hname⟩
  rw [findField, popBack_of_notMem hbreak.1, if_neg (by simp [lit]), hcut]
  dsimp only
  rw [if_neg (by simp [hkey])]

section Subject

variable {config : MimeConfig} {drawn : Drawn} {email : Email}

/-- Of the printable characters, only the space is blank. -/
theorem isBlank_of_printable {c : UInt8} (hprint : needsEncoding email.subject = false)
    (hc : c ∈ email.subject) (hspace : c ≠ ' '.toUInt8) : isBlank c = false := by
  rw [needsEncoding, List.any_eq_false] at hprint
  have hlow := hprint c hc
  simp only [Bool.or_eq_true, decide_eq_true_eq, not_or, UInt8.not_lt] at hlow
  have hne : ∀ d : UInt8, d < 32 → c ≠ d := fun d hd heq =>
    absurd hlow.1 (UInt8.not_le.mpr (heq ▸ hd))
  simp [isBlank, hspace, hne _ (show '\t'.toUInt8 < 32 by decide),
    hne _ (show '\r'.toUInt8 < 32 by decide), hne _ (show '\n'.toUInt8 < 32 by decide)]

/-- The fields that come first are header lines. -/
theorem isHeaderLine_firstLines (hbreak : NoBreak email.subject) :
    ∀ l ∈ firstLines drawn email, IsHeaderLine l := by
  simp only [firstLines, List.forall_mem_cons, List.not_mem_nil, false_implies, implies_true,
    and_true]
  refine ⟨⟨List.cons_ne_nil _ _, by decide⟩, ⟨List.cons_ne_nil _ _, ?_⟩,
    ⟨List.cons_ne_nil _ _, ?_⟩⟩
  · exact noBreak_append.mpr ⟨by decide, noBreak_format drawn.now⟩
  · exact noBreak_append.mpr ⟨by decide, hbreak⟩

/-- The headers end somewhere behind the start of the sender's line. -/
theorem splitHeadersAndBody_built {raw : Bytes} (hbreak : NoBreak email.subject)
    (hstart : unlines (firstLines drawn email) ++ lit "From: " <+: raw)
    (hempty : lit "\r\n\r\n" <:+: raw) :
    ∃ top, (splitHeadersAndBody raw).1 = unlines (firstLines drawn email) ++ 'F'.toUInt8 :: top := by
  obtain ⟨tail, htail⟩ := hstart
  have hF : 'F'.toUInt8 ≠ '\r'.toUInt8 := by decide
  have hraw : raw = unlines (firstLines drawn email) ++ 'F'.toUInt8 :: (lit "rom: " ++ tail) := by
    rw [← htail, List.append_assoc]
    rfl
  have hls : ∀ l ∈ firstLines drawn email, IsHeaderLine l := isHeaderLine_firstLines hbreak
  have hcut := cutSub_unlines_append (lit "rom: " ++ tail) hF hls
  have hnot : ¬ lit "\r\n\r\n" <+: 'F'.toUInt8 :: (lit "rom: " ++ tail) := fun hp =>
    hF (List.cons_prefix_cons.mp hp).1.symm
  rw [← hraw, cutSub_cons hnot, Option.map_map] at hcut
  rw [splitHeadersAndBody]
  cases hrest : cutSub (lit "\r\n\r\n") (lit "rom: " ++ tail) with
  | none =>
    rw [hrest] at hcut
    exact absurd hempty (cutSub_eq_none_iff.mp hcut)
  | some p =>
    rw [hrest] at hcut
    exact ⟨p.1, by rw [hcut]; rfl⟩

/-- **The headers of a built message give the subject back** as it is written. -/
theorem getHeaderValue_subject {raw : Bytes} (h : buildEmail config drawn email = .ok (some raw))
    (hne : email.subject ≠ []) (hplain : needsEncoding email.subject = false)
    (hfirst : email.subject.head? ≠ some ' '.toUInt8)
    (hlast : email.subject.getLast? ≠ some ' '.toUInt8) :
    getHeaderValue (splitHeadersAndBody raw).1 (lit "Subject:") = email.subject := by
  obtain ⟨hstart, hempty⟩ := exists_of_buildEmail h hne hplain
  have hbreak := noBreak_of_not_needsEncoding hplain
  obtain ⟨top, htop⟩ := splitHeadersAndBody_built hbreak hstart hempty
  have htrim : trim (lit " " ++ email.subject) = email.subject := by
    rw [show lit " " ++ email.subject = ' '.toUInt8 :: email.subject from rfl,
      trim_cons _ (by decide)]
    refine trim_of_not_blank (fun c hc => ?_) fun c hc => ?_
    · exact isBlank_of_printable hplain (List.mem_of_mem_head? hc) fun heq => hfirst (heq ▸ hc)
    · exact isBlank_of_printable hplain (List.mem_of_getLast? hc) fun heq => hlast (heq ▸ hc)
  obtain ⟨line, lines, hlines⟩ : ∃ line lines,
      getlines '\n'.toUInt8 ('F'.toUInt8 :: top) = ('F'.toUInt8 :: line) :: lines := by
    rw [getlines, if_neg (by decide)]
    split
    · exact ⟨[], [], rfl⟩
    · exact ⟨_, _, rfl⟩
  have hdate := noBreak_format drawn.now
  have hkey : popBack ':'.toUInt8 (toLower (lit "Subject:")) = lit "subject" := by decide
  rw [htop, getHeaderValue_unlines_append _ _ (isHeaderLine_firstLines hbreak), hlines, hkey]
  have hfirstLines : firstLines drawn email ++ ('F'.toUInt8 :: line) :: lines =
      (lit "MIME-Version" ++ lit ": " ++ lit "1.0") ::
        (lit "Date" ++ lit ": " ++ drawn.now.format) ::
        (lit "Subject: " ++ email.subject) :: ('F'.toUInt8 :: line) :: lines := rfl
  have hcut : cut ':'.toUInt8 (lit "Subject: " ++ email.subject) =
      some (lit "Subject", lit " " ++ email.subject) := cut_eq_some_iff.mpr ⟨rfl, by decide⟩
  have hcr : '\r'.toUInt8 ∉ lit "Subject: " ++ email.subject :=
    List.not_mem_append (by decide) hbreak.1
  rw [hfirstLines, findField_of_ne (by decide) (by decide) (by decide),
    findField_of_ne (by decide) (by decide) (noBreak_append.mpr ⟨by decide, hdate⟩), findField,
    popBack_of_notMem hcr, hcut]
  have hline : lit "Subject: " ++ email.subject ≠ [] := List.cons_ne_nil _ _
  dsimp only
  rw [if_neg hline, if_pos (by decide), htrim, unfoldValue_of_head _ (by decide)]

/-- **The subject comes back**, where it is printable, starts and ends with no space and has no `=?`
in it: as it was, unless it has a `=` and two hex digits in it, which are then decoded. -/
theorem subject_parseEmail {raw : Bytes} (h : buildEmail config drawn email = .ok (some raw))
    (hne : email.subject ≠ []) (hfirst : email.subject.head? ≠ some ' '.toUInt8)
    (hlast : email.subject.getLast? ≠ some ' '.toUInt8)
    (hprint : ∀ c ∈ email.subject, 32 ≤ c ∧ c ≤ 126) (hplain : ¬ lit "=?" <:+: email.subject)
    (out : Email) :
    (parseEmail raw out).2.subject =
        (if hasQpArtifacts email.subject then decodeQEncoding email.subject else email.subject) ∧
      ((parseEmail raw out).2.subject = email.subject ↔ hasQpArtifacts email.subject = false) := by
  have hneeds : needsEncoding email.subject = false := by
    rw [needsEncoding, List.any_eq_false]
    intro c hc
    simpa [not_or, UInt8.not_lt] using hprint c hc
  obtain ⟨⟨tail, htail⟩, -⟩ := exists_of_buildEmail h hne hneeds
  have hraw : raw ≠ [] := by
    rw [← htail]
    simp [lit]
  have hsubject : (parseEmail raw out).2.subject =
      if hasQpArtifacts email.subject then decodeQEncoding email.subject else email.subject := by
    rw [subject_parseEmail_of_headers hraw, getHeaderValue_subject h hne hneeds hfirst hlast,
      decodeEncodedWord_of_plain hplain]
  refine ⟨hsubject, ?_⟩
  rw [hsubject]
  cases hartifacts : hasQpArtifacts email.subject with
  | false => simp
  | true =>
    refine iff_of_false (fun heq => ?_) (by simp)
    rw [if_pos rfl] at heq
    exact absurd (congrArg List.length heq) (length_decodeQEncoding_lt hartifacts).ne

end Subject

/-- A mail about something. -/
def emailAbout (subject : Bytes) : Email :=
  { sender := lit "alice@localhost", «to» := [lit "bob@localhost"], subject
    plainText := lit "See you there." }

theorem subject_parseEmail_lunch :
    ∃ raw, buildEmail {} drawnSample (emailAbout (lit "a=b, lunch?")) = .ok (some raw) ∧
      (parseEmail raw {}).2.subject = lit "a=b, lunch?" := by
  obtain ⟨raw, hraw⟩ : ∃ raw, buildEmail {} drawnSample (emailAbout (lit "a=b, lunch?")) =
    .ok (some raw) := ⟨_, rfl⟩
  exact ⟨raw, hraw, ((subject_parseEmail hraw (by decide) (by decide) (by decide)
    (by decide +kernel) (by decide) {}).2).mpr (by decide +kernel)⟩

/-- **A subject that does not come back**: `x=41` is read as `xA`. -/
theorem subject_parseEmail_changed :
    (∀ c ∈ lit "x=41", 32 ≤ c ∧ c ≤ 126) ∧ ¬ lit "=?" <:+: lit "x=41" ∧
      trim (lit "x=41") = lit "x=41" ∧
      ∃ raw, buildEmail {} drawnSample (emailAbout (lit "x=41")) = .ok (some raw) ∧
        (parseEmail raw {}).2.subject = lit "xA" := by
  refine ⟨by decide +kernel, by decide +kernel, by decide +kernel, _, rfl, ?_⟩
  decide +kernel

end MailStack.Mime
