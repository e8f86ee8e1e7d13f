import Mathlib.Data.List.Forall2
import MailStack.Machinery.Endings
import MailStack.Mime.QuotedPrintable
import MailStack.Mime.Termination

/-!
# Mime/Endings — `ParseEmail` reads a message alike with either line ending

    s ──crlf──▸ crlf s
    │             │        ParseEmail
    ▾             ▾
    mail ─same──▸ mail

A message is sent with CRLFs and stored with LFs.  Where it has no other CRs, the parser finds the
same headers and the same parts in both; of the texts only the line ends differ, of what was base64
not even these.  All it takes is that no multipart in the message is quoted-printable
(`parseEmail_crlf`).
-/

open Bytes Search MailStack.Base64

namespace MailStack.Mime

variable {s headers body boundary : Bytes}

/-! ## Headers -/

/-- Splitting makes no carriage return. -/
theorem splitHeadersAndBody_cr (hs : '\r'.toUInt8 ∉ s) :
    '\r'.toUInt8 ∉ (splitHeadersAndBody s).1 ∧ '\r'.toUInt8 ∉ (splitHeadersAndBody s).2 := by
  have hcut : ∀ {d : Bytes} {p : Bytes × Bytes}, cutSub d s = some p →
      '\r'.toUInt8 ∉ p.1 ∧ '\r'.toUInt8 ∉ p.2 := fun {d p} h => by
    rw [eq_of_cutSub h, List.mem_append, List.mem_append, not_or, not_or] at hs
    exact ⟨hs.1.1, hs.2⟩
  rw [splitHeadersAndBody]
  split
  · exact hcut ‹_›
  · split
    · exact hcut ‹_›
    · exact ⟨List.not_mem_nil, hs⟩

/-- **The empty line is found at the same place.** -/
theorem splitHeadersAndBody_crlf (hs : '\r'.toUInt8 ∉ s) : splitHeadersAndBody (crlf s) =
    (crlf (splitHeadersAndBody s).1, crlf (splitHeadersAndBody s).2) := by
  have hcode : cutSub (lit "\r\n\r\n") (crlf s) =
      (cutSub (lit "\n\n") s).map fun p => (crlf p.1, crlf p.2) :=
    cutSub_crlf (d := lit "\n\n") (List.cons_ne_nil _ _) (by decide) hs
  have hnone : cutSub (lit "\r\n\r\n") s = none :=
    cutSub_eq_none_iff.mpr (not_infix_of_notMem List.mem_cons_self hs)
  rw [splitHeadersAndBody, splitHeadersAndBody, hcode, hnone]
  cases cutSub (lit "\n\n") s with
  | some p => rfl
  | none =>
    rw [Option.map_none, cutSub_eq_none_iff.mpr (not_infix_crlf s)]
    rfl

/-- A field is found with the same value whatever the ending. -/
theorem getHeaderValue_crlf (hheaders : '\r'.toUInt8 ∉ headers) (key : Bytes) :
    getHeaderValue (crlf headers) key = getHeaderValue headers key :=
  findField_congr _ (map_getlines_crlf
    (fun l hl => by rw [popBack_append, popBack_of_notMem hl]) hheaders)

/-- So is the name of a file. -/
theorem extractFileName_crlf (hheaders : '\r'.toUInt8 ∉ headers) :
    extractFileName (crlf headers) = extractFileName headers := by
  simp only [extractFileName, getHeaderValue_crlf hheaders]

/-- And so are the fields of the mail. -/
theorem parseMainHeaders_crlf (hheaders : '\r'.toUInt8 ∉ headers) (out : Email) :
    parseMainHeaders (crlf headers) out = parseMainHeaders headers out := by
  simp only [parseMainHeaders, getHeaderValue_crlf hheaders]

/-- The value of a parameter is a part of the text. -/
theorem mem_paramValue {x : UInt8} {s : Bytes} (h : x ∈ paramValue s) : x ∈ s := by
  cases s with
  | nil => exact h
  | cons c s =>
    rw [paramValue] at h
    split_ifs at h with hquote
    · cases hcut : cut '"'.toUInt8 s with
      | none =>
        rw [hcut] at h
        exact absurd h List.not_mem_nil
      | some p =>
        rw [hcut] at h
        rw [(cut_eq_some_iff.mp hcut).1]
        exact List.mem_cons_of_mem c (List.mem_append_left _ h)
    · exact (List.takeWhile_prefix _).subset h

/-- So is what is found by its name. -/
theorem mem_extractParam {x : UInt8} {name header : Bytes} (h : x ∈ extractParam name header) :
    x ∈ header := by
  rw [extractParam] at h
  split at h
  · exact absurd h List.not_mem_nil
  · exact List.mem_of_mem_drop (mem_paramValue (mem_trim h))

/-- A boundary is on one line. -/
theorem noBreak_extractBoundary (hheaders : '\r'.toUInt8 ∉ headers) (key : Bytes) :
    NoBreak (extractBoundary (getHeaderValue headers key)) := by
  constructor
  · refine fun h => notMem_findField (by decide) _ (fun l hl hx => ?_) (mem_extractParam h)
    exact hheaders (mem_of_mem_getlines hl hx)
  · exact fun h => notMem_getHeaderValue headers key (mem_extractParam h)

/-! ## Parts -/

theorem skipChar_subset (c : UInt8) (s : Bytes) : skipChar c s ⊆ s := by
  rw [skipChar]
  split_ifs
  · exact List.drop_subset 1 s
  · exact List.Subset.refl s

/-- Skipping one line ending, in either form. -/
theorem skipChar_crlf (hs : '\r'.toUInt8 ∉ s) :
    skipChar '\n'.toUInt8 (skipChar '\r'.toUInt8 (crlf s)) =
      crlf (skipChar '\n'.toUInt8 (skipChar '\r'.toUInt8 s)) := by
  cases s with
  | nil => rfl
  | cons c s =>
    have hc : c ≠ '\r'.toUInt8 := fun h => hs (h ▸ List.mem_cons_self)
    have hskip : ∀ t : Bytes, skipChar '\r'.toUInt8 (c :: t) = c :: t := fun t =>
      if_neg fun h => hc (Option.some.inj h)
    by_cases hlf : c = '\n'.toUInt8
    · subst hlf
      rw [hskip]
      rfl
    · have hskip' : ∀ t : Bytes, skipChar '\n'.toUInt8 (c :: t) = c :: t := fun t =>
        if_neg fun h => hlf (Option.some.inj h)
      rw [crlf_cons hlf, hskip, hskip', hskip, hskip', crlf_cons hlf]

section Parts

variable {delimiter : Bytes} (hdelimiter : NoBreak delimiter) (hne : delimiter ≠ [])
include hdelimiter hne

/-- The same parts are gone through. -/
theorem partsLoop_crlf : ∀ (n : ℕ) {s : Bytes}, '\r'.toUInt8 ∉ s →
    partsLoop delimiter n (crlf s) = (partsLoop delimiter n s).map crlf
  | 0, _, _ => rfl
  | n + 1, s, hs => by
      set t := skipChar '\n'.toUInt8 (skipChar '\r'.toUInt8 s) with ht
      have htcr : '\r'.toUInt8 ∉ t := fun h =>
        hs (skipChar_subset _ s (skipChar_subset _ _ h))
      have hdashes : (lit "--").isPrefixOf (crlf t) = (lit "--").isPrefixOf t := by
        rw [Bool.eq_iff_iff, List.isPrefixOf_iff_prefix, List.isPrefixOf_iff_prefix]
        exact crlf_prefix_iff (d := lit "--") (by decide) htcr
      rw [partsLoop, partsLoop]
      simp only [skipChar_crlf hs, ← ht, hdashes, cutSub_crlf_of_noBreak hne hdelimiter htcr]
      split_ifs
      · rfl
      · cases hcut : cutSub delimiter t with
        | none => rfl
        | some p =>
          have hrest : '\r'.toUInt8 ∉ p.2 := fun h =>
            htcr (eq_of_cutSub hcut ▸ List.mem_append_right _ h)
          exact congrArg (crlf p.1 :: ·) (partsLoop_crlf n hrest)

end Parts

/-- The parts of a text without CRs have none. -/
theorem notMem_partsLoop {x : UInt8} {delimiter p : Bytes} : ∀ {n : ℕ} {s : Bytes}, x ∉ s →
    p ∈ partsLoop delimiter n s → x ∉ p
  | 0, _, _, h => absurd h List.not_mem_nil
  | n + 1, s, hs, h => by
      have ht : x ∉ skipChar '\n'.toUInt8 (skipChar '\r'.toUInt8 s) := fun h =>
        hs (skipChar_subset _ s (skipChar_subset _ _ h))
      rw [partsLoop] at h
      split_ifs at h
      · exact absurd h List.not_mem_nil
      · split at h
        · exact absurd h List.not_mem_nil
        · rename_i part rest hcut
          rw [eq_of_cutSub hcut, List.mem_append, List.mem_append, not_or, not_or] at ht
          rcases List.mem_cons.mp h with rfl | h
          · exact ht.1.1
          · exact notMem_partsLoop ht.2 h

/-- The parts of a body are made of it. -/
theorem notMem_multipartParts {x : UInt8} {p : Bytes} (hbody : x ∉ body)
    (h : p ∈ multipartParts body boundary) : x ∉ p := by
  rw [multipartParts] at h
  split at h
  · exact absurd h List.not_mem_nil
  · rename_i rest hcut
    refine notMem_partsLoop (fun hx => hbody ?_) h
    rw [eq_of_cutSub hcut]
    exact List.mem_append_right _ hx

/-- **The parts are the same parts.** -/
theorem multipartParts_crlf (hboundary : NoBreak boundary) (hbody : '\r'.toUInt8 ∉ body) :
    multipartParts (crlf body) boundary = (multipartParts body boundary).map crlf := by
  have hne : lit "--" ++ boundary ≠ [] := List.cons_ne_nil _ _
  have hdelimiter : NoBreak (lit "--" ++ boundary) := noBreak_append.mpr ⟨by decide, hboundary⟩
  rw [multipartParts, multipartParts, cutSub_crlf_of_noBreak hne hdelimiter hbody]
  cases hcut : cutSub (lit "--" ++ boundary) body with
  | none => rfl
  | some p =>
    have hrest : '\r'.toUInt8 ∉ p.2 := fun h =>
      hbody (eq_of_cutSub hcut ▸ List.mem_append_right _ h)
    have hlength := (length_lt_of_cutSub hne hcut).2
    have hcrlf := length_le_crlf body
    exact (partsLoop_crlf hdelimiter hne _ hrest).trans
      (congrArg _ (partsLoop_fuel hne (by omega) (by omega)))

/-! ## Quoted-printable text -/

/-- A `=` that starts neither a soft line break nor two hex digits stays. -/
theorem decodeQuotedPrintable_equals {c : UInt8} (hcr : c ≠ '\r'.toUInt8) (hlf : c ≠ '\n'.toUInt8)
    (hhex : ∀ c' ∈ s.head?, (isHex c && isHex c') = false) :
    decodeQuotedPrintable ('='.toUInt8 :: c :: s) = '='.toUInt8 :: decodeQuotedPrintable (c :: s) := by
  rw [decodeQuotedPrintable.eq_def]
  dsimp only
  rw [if_pos rfl, if_neg hcr, if_neg hlf]
  cases s with
  | nil => rfl
  | cons c' s =>
    dsimp only
    rw [hhex c' rfl, if_neg (by decide)]

/-- **A soft line break is dropped with either ending**, and a hard one stays what it is. -/
theorem varies_decodeQuotedPrintable : ∀ {s : Bytes}, '\r'.toUInt8 ∉ s →
    Varies (decodeQuotedPrintable (crlf s)) (decodeQuotedPrintable s)
  | [], _ => .nil
  | [c], _ => by
      by_cases hlf : c = '\n'.toUInt8
      · subst hlf
        exact .ending .nil
      · rw [crlf_cons hlf]
        exact .refl _
  | c :: c' :: s, hs => by
      have hs' := List.not_mem_of_not_mem_cons hs
      have hcr : c' ≠ '\r'.toUInt8 := fun h => hs' (h ▸ List.mem_cons_self)
      have hrest := varies_decodeQuotedPrintable (List.not_mem_of_not_mem_cons hs')
      have htail := varies_decodeQuotedPrintable hs'
      by_cases hc : c = '='.toUInt8
      · subst hc
        rw [crlf_cons (by decide)]
        by_cases hlf : c' = '\n'.toUInt8
        · subst hlf
          rw [crlf_lf, decodeQuotedPrintable_break (.inl rfl), decodeQuotedPrintable_break (.inr rfl)]
          exact hrest
        · rw [crlf_cons hlf] at htail ⊢
          cases s with
          | nil => exact .refl _
          | cons c₂ s =>
            by_cases hhex : (isHex c' && isHex c₂) = true
            · obtain ⟨hhigh, hlow⟩ := Bool.and_eq_true_iff.mp hhex
              rw [crlf_cons (isHex_ne hlow (by decide)), decodeQuotedPrintable_hex hhigh hlow,
                decodeQuotedPrintable_hex hhigh hlow]
              exact .byte _ (varies_decodeQuotedPrintable
                (List.not_mem_of_not_mem_cons (List.not_mem_of_not_mem_cons hs')))
            · rw [Bool.not_eq_true] at hhex
              rw [decodeQuotedPrintable_equals hcr hlf,
                decodeQuotedPrintable_equals (s := c₂ :: s) hcr hlf]
              · exact .byte _ htail
              · exact fun x hx => Option.some.inj hx ▸ hhex
              · intro x hx
                by_cases hlf₂ : c₂ = '\n'.toUInt8
                · rw [hlf₂, crlf_lf] at hx
                  obtain rfl := Option.some.inj hx
                  exact Bool.and_eq_false_imp.mpr fun _ => by decide
                · rw [crlf_cons hlf₂] at hx
                  obtain rfl := Option.some.inj hx
                  exact hhex
      · by_cases hlf : c = '\n'.toUInt8
        · subst hlf
          rw [crlf_lf, decodeQuotedPrintable_literal (by decide),
            decodeQuotedPrintable_literal (by decide), decodeQuotedPrintable_literal (by decide)]
          exact .ending htail
        · rw [crlf_cons hlf, decodeQuotedPrintable_literal hc, decodeQuotedPrintable_literal hc]
          exact .byte c htail

/-! ## Emails alike -/

/-- The attachments have the same name and type; the data is the same up to line ends. -/
structure SameAttachment (a b : Attachment) : Prop where
  fileName : a.fileName = b.fileName
  mimeType : a.mimeType = b.mimeType
  base64Data : Varies a.base64Data b.base64Data
  eq_of_base64Data : a.base64Data = b.base64Data → a = b

/-- What an email says apart from its text, its HTML and its attachments. -/
def Email.frame (e : Email) : Email := { e with plainText := [], htmlText := [], attachments := [] }

/-- **The emails are alike**: only line ends differ, and these only in texts. -/
structure SameEmail (a b : Email) : Prop where
  frame : a.frame = b.frame
  plainText : Varies a.plainText b.plainText
  htmlText : Varies a.htmlText b.htmlText
  attachments : List.Forall₂ SameAttachment a.attachments b.attachments

theorem SameAttachment.refl (a : Attachment) : SameAttachment a a :=
  ⟨rfl, rfl, .refl _, fun _ => rfl⟩

/-- Attachments whose data is on one line are the same. -/
theorem eq_of_sameAttachment {as bs : List Attachment} (h : List.Forall₂ SameAttachment as bs)
    (hbs : ∀ b ∈ bs, '\n'.toUInt8 ∉ b.base64Data) : as = bs := by
  induction h with
  | nil => rfl
  | cons hab _ ih =>
    obtain ⟨hb, hbs⟩ := List.forall_mem_cons.mp hbs
    rw [hab.eq_of_base64Data (hab.base64Data.eq_of_notMem hb), ih hbs]

/-- Attachments made of texts that vary in their ends are the same. -/
theorem SameAttachment.of (name mime : Bytes) {t s : Bytes} (h : Varies t s) :
    SameAttachment (.of name mime t) (.of name mime s) :=
  ⟨rfl, rfl, h, fun heq => congrArg (Attachment.of name mime) heq⟩

theorem SameEmail.refl (e : Email) : SameEmail e e :=
  ⟨rfl, .refl _, .refl _, List.forall₂_same.mpr fun a _ => SameAttachment.refl a⟩

section SameEmail

variable {out out' : Email} (h : SameEmail out' out)
include h

/-- A field of the frame that is set to one value in both. -/
theorem SameEmail.set {f : Email → Email} (hframe : ∀ e, (f e).frame = (f e.frame).frame)
    (hplain : ∀ e, (f e).plainText = e.plainText) (hhtml : ∀ e, (f e).htmlText = e.htmlText)
    (hattachments : ∀ e, (f e).attachments = e.attachments) : SameEmail (f out') (f out) where
  frame := by rw [hframe, h.frame, ← hframe]
  plainText := by rw [hplain, hplain]; exact h.plainText
  htmlText := by rw [hhtml, hhtml]; exact h.htmlText
  attachments := by rw [hattachments, hattachments]; exact h.attachments

/-- The charset is set alike. -/
theorem SameEmail.setCharset (contentType : Bytes) :
    SameEmail (out'.setCharset contentType) (out.setCharset contentType) := by
  rw [Email.setCharset, Email.setCharset]
  split_ifs
  · exact h.set (f := fun e => { e with charset := extractCharset contentType })
      (fun _ => rfl) (fun _ => rfl) (fun _ => rfl) fun _ => rfl
  · exact h

/-- Plain texts that vary in their ends are the same. -/
theorem SameEmail.setPlainText {t s : Bytes} (hts : Varies t s) :
    SameEmail { out' with plainText := t } { out with plainText := s } :=
  ⟨h.frame, hts, h.htmlText, h.attachments⟩

/-- So are HTML texts. -/
theorem SameEmail.setHtmlText {t s : Bytes} (hts : Varies t s) :
    SameEmail { out' with htmlText := t } { out with htmlText := s } :=
  ⟨h.frame, h.plainText, hts, h.attachments⟩

/-- And the attachments made of them. -/
theorem SameEmail.addAttachment (name mime : Bytes) {t s : Bytes} (hts : Varies t s) :
    SameEmail (out'.addAttachment name mime t) (out.addAttachment name mime s) :=
  ⟨h.frame, h.plainText, h.htmlText, List.rel_append h.attachments (.cons (.of name mime hts) .nil)⟩

/-- The encoding and the charset of a text. -/
theorem SameEmail.setEncoding (encoding contentType : Bytes) :
    SameEmail ({ out' with plainTextEncoding := encoding }.setCharset contentType)
      ({ out with plainTextEncoding := encoding }.setCharset contentType) :=
  (h.set (f := fun e => { e with plainTextEncoding := encoding }) (fun _ => rfl) (fun _ => rfl)
    (fun _ => rfl) fun _ => rfl).setCharset contentType

theorem SameEmail.setHtmlEncoding (encoding : Bytes) :
    SameEmail { out' with htmlTextEncoding := encoding } { out with htmlTextEncoding := encoding } :=
  h.set (f := fun e => { e with htmlTextEncoding := encoding }) (fun _ => rfl) (fun _ => rfl)
    (fun _ => rfl) fun _ => rfl

theorem SameEmail.setAlternative (boundary : Bytes) :
    SameEmail { out' with boundaryAlternative := boundary }
      { out with boundaryAlternative := boundary } :=
  h.set (f := fun e => { e with boundaryAlternative := boundary }) (fun _ => rfl) (fun _ => rfl)
    (fun _ => rfl) fun _ => rfl

theorem SameEmail.setMixed (boundary : Bytes) :
    SameEmail { out' with boundaryMixed := boundary } { out with boundaryMixed := boundary } :=
  h.set (f := fun e => { e with boundaryMixed := boundary }) (fun _ => rfl) (fun _ => rfl)
    (fun _ => rfl) fun _ => rfl

end SameEmail

/-- What was base64 is the same, line ends and all. -/
theorem varies_decodeText {t s : Bytes} (h : Varies t s) (encoding : Bytes) :
    Varies (decodeText encoding t) (decodeText encoding s) := by
  rw [Mime.decodeText, Mime.decodeText, h.eraseBreaks_eq]
  split_ifs
  · exact .refl _
  · exact h

/-! ## The parts, one by one -/

/-- A part that is no multipart. -/
theorem SameEmail.processLeaf {out out' : Email} (h : SameEmail out' out)
    (hheaders : '\r'.toUInt8 ∉ headers) {t s : Bytes} (hbody : Varies t s)
    (contentType disposition encoding : Bytes) :
    SameEmail (processLeaf (crlf headers) t contentType disposition encoding out')
      (processLeaf headers s contentType disposition encoding out) := by
  rw [Mime.processLeaf, Mime.processLeaf, extractFileName_crlf hheaders, getHeaderValue_crlf hheaders]
  dsimp only
  split_ifs
  · rw [hbody.eraseBreaks_eq]
    exact h.addAttachment _ _ (.refl _)
  · exact h.addAttachment _ _ hbody
  · exact (h.setEncoding (encodingOr7bit encoding) _).setPlainText (varies_decodeText hbody encoding)
  · exact (h.setHtmlEncoding (encodingOr7bit encoding)).setHtmlText (varies_decodeText hbody encoding)
  · exact h

/-- The type of a part, as it is looked at. -/
def partType (part : Bytes) : Bytes :=
  toLower (getHeaderValue (splitHeadersAndBody part).1 (lit "Content-Type:"))

/-- No multipart in the part is quoted-printable. -/
inductive PlainNesting : Bytes → Prop
  | intro {part : Bytes}
      (encoding : contains (lit "multipart") (partType part) = true →
        contains (lit "quoted-printable") (toLower (getHeaderValue (splitHeadersAndBody part).1
          (lit "Content-Transfer-Encoding:"))) = false)
      (parts : contains (lit "multipart") (partType part) = true →
        ∀ p ∈ multipartParts (splitHeadersAndBody part).2
          (extractBoundary (getHeaderValue (splitHeadersAndBody part).1 (lit "Content-Type:"))),
            PlainNesting p) : PlainNesting part

/-- A part without parts is not nested. -/
theorem PlainNesting.of_leaf {part : Bytes}
    (htype : contains (lit "multipart") (partType part) = false) : PlainNesting part :=
  .intro (fun h => absurd (htype.symm.trans h) (by decide))
    fun h => absurd (htype.symm.trans h) (by decide)

/-- **Part by part**, the two readings stay the same. -/
theorem SameEmail.foldl {f g : Email → Bytes → Email} {ps : List Bytes}
    (hfg : ∀ p ∈ ps, ∀ {out out'}, SameEmail out' out → SameEmail (g out' (crlf p)) (f out p)) :
    ∀ {out out' : Email}, SameEmail out' out →
      SameEmail ((ps.map crlf).foldl g out') (ps.foldl f out) := by
  induction ps with
  | nil => exact id
  | cons p ps ih =>
    intro out out' h
    obtain ⟨hp, hps⟩ := List.forall_mem_cons.mp hfg
    exact ih hps (hp h)

/-- **Every part is read alike**, those nested in it included. -/
theorem SameEmail.processMimePart {part : Bytes} (hpart : PlainNesting part) :
    ∀ {n m : ℕ} {out out' : Email}, '\r'.toUInt8 ∉ part → part.length < n →
      (crlf part).length < m → SameEmail out' out →
        SameEmail (processMimePart m (crlf part) out') (processMimePart n part out) := by
  induction hpart with
  | @intro part hencoding hparts ih =>
    intro n m out out' hcr hn hm h
    obtain ⟨n, rfl⟩ := Nat.exists_eq_succ_of_ne_zero (Nat.ne_of_gt (Nat.zero_lt_of_lt hn))
    obtain ⟨m, rfl⟩ := Nat.exists_eq_succ_of_ne_zero (Nat.ne_of_gt (Nat.zero_lt_of_lt hm))
    obtain ⟨hheaders, hbody⟩ := splitHeadersAndBody_cr hcr
    have hraw := splitHeadersAndBody_crlf hcr
    have hlength := length_body_le part
    have hlength' := length_body_le (crlf part)
    rw [hraw] at hlength'
    rw [partType] at hencoding hparts ih
    rw [Mime.processMimePart, Mime.processMimePart, hraw]
    generalize splitHeadersAndBody part = p at *
    obtain ⟨headers, body⟩ := p
    dsimp only at *
    simp only [getHeaderValue_crlf hheaders]
    by_cases htype : contains (lit "multipart")
        (toLower (getHeaderValue headers (lit "Content-Type:"))) = true
    · have hencoding := hencoding htype
      rw [if_pos htype, if_pos htype]
      simp only [hencoding, Bool.false_eq_true, if_false]
      have hfold : ∀ {out out' : Email}, SameEmail out' out → SameEmail
          ((multipartParts (crlf body) (extractBoundary
            (getHeaderValue headers (lit "Content-Type:")))).foldl
              (fun out p => Mime.processMimePart m p out) out')
          ((multipartParts body (extractBoundary
            (getHeaderValue headers (lit "Content-Type:")))).foldl
              (fun out p => Mime.processMimePart n p out) out) := by
        intro out out' h
        have hparts := multipartParts_crlf (noBreak_extractBoundary hheaders (lit "Content-Type:")) hbody
        rw [hparts]
        refine SameEmail.foldl (fun p hp _ _ h => ?_) h
        have hshort := length_lt_of_mem_multipartParts hp
        have hshort' := length_lt_of_mem_multipartParts (hparts ▸ List.mem_map_of_mem hp)
        exact ih htype p hp (notMem_multipartParts hbody hp) (by omega) (by omega) h
      split_ifs
      · exact hfold (h.setAlternative _)
      · exact hfold h
      · exact h
    · rw [if_neg htype, if_neg htype]
      refine h.processLeaf hheaders ?_ _ _ _
      split_ifs
      · exact varies_decodeQuotedPrintable hbody
      · exact varies_crlf body

/-! ## The message -/

/-- What is decoded without taking line ends out has none. -/
theorem varies_decodeBase64 (body : Bytes) :
    Varies
      (match decodeBase64 (crlf body) with
        | .ok decoded => decoded
        | .error _ => crlf body)
      (match decodeBase64 body with
        | .ok decoded => decoded
        | .error _ => body) := by
  by_cases hlf : '\n'.toUInt8 ∈ body
  · have hfails : ∀ {t : Bytes}, '\n'.toUInt8 ∈ t → ∃ e, decodeBase64 t = .error e := fun {t} ht => by
      cases hdecode : decodeBase64 t with
      | error e => exact ⟨e, rfl⟩
      | ok data => exact absurd hdecode (decodeBase64_ne_ok ht (by decide) data)
    obtain ⟨e, he⟩ := hfails hlf
    obtain ⟨e', he'⟩ := hfails ((mem_crlf (by decide)).mpr hlf)
    rw [he, he']
    exact varies_crlf body
  · rw [crlf_of_notMem hlf]
    exact .refl _

/-- A single part is read alike under either ending. -/
theorem SameEmail.parseSingle {out out' : Email} (h : SameEmail out' out) (hbody : '\r'.toUInt8 ∉ body)
    (contentType encoding : Bytes) : SameEmail (parseSingle contentType encoding (crlf body) out')
      (parseSingle contentType encoding body out) := by
  rw [Mime.parseSingle, Mime.parseSingle]
  refine (h.setEncoding (encodingOr7bit encoding) contentType).setPlainText ?_
  split_ifs
  · exact varies_decodeQuotedPrintable hbody
  · exact varies_decodeBase64 body
  · exact varies_crlf body

/-- **`ParseEmail` does not see the line ending.**  A message without CRs and the same message with a
CR before every LF are read alike: with the same headers, and as many attachments of the same names
and types; and their texts and the data of the attachments differ in line ends only. -/
theorem parseEmail_crlf (hcr : '\r'.toUInt8 ∉ s) (hplain : PlainNesting s) (out : Email) :
    (parseEmail (crlf s) out).1 = (parseEmail s out).1 ∧
      SameEmail (parseEmail (crlf s) out).2 (parseEmail s out).2 := by
  obtain ⟨hheaders, hbody⟩ := splitHeadersAndBody_cr hcr
  have hraw := splitHeadersAndBody_crlf hcr
  have hlength := length_body_le s
  have hlength' := length_body_le (crlf s)
  rw [hraw] at hlength'
  cases hplain with
  | intro hencoding hparts =>
  rw [partType] at hparts
  rw [parseEmail, parseEmail, hraw]
  by_cases hempty : s = []
  · rw [if_pos hempty, if_pos (crlf_eq_nil_iff.mpr hempty)]
    exact ⟨rfl, .refl out⟩
  rw [if_neg hempty, if_neg (mt crlf_eq_nil_iff.mp hempty)]
  generalize splitHeadersAndBody s = p at *
  obtain ⟨headers, body⟩ := p
  dsimp only at *
  simp only [getHeaderValue_crlf hheaders, parseMainHeaders_crlf hheaders]
  have hrefl := SameEmail.refl (parseMainHeaders headers out)
  by_cases htype : contains (lit "multipart")
      (toLower (getHeaderValue headers (lit "Content-Type:"))) = true
  · rw [if_pos htype, if_pos htype]
    have hsame := multipartParts_crlf (noBreak_extractBoundary hheaders (lit "Content-Type:")) hbody
    have hfold : ∀ {out out' : Email}, SameEmail out' out → SameEmail
        (parseMultipartBody (crlf s).length (crlf body)
          (extractBoundary (getHeaderValue headers (lit "Content-Type:"))) out')
        (parseMultipartBody s.length body
          (extractBoundary (getHeaderValue headers (lit "Content-Type:"))) out) := by
      intro out out' h
      rw [parseMultipartBody, parseMultipartBody, hsame]
      refine SameEmail.foldl (fun p hp _ _ h => ?_) h
      have hshort := length_lt_of_mem_multipartParts hp
      have hshort' := length_lt_of_mem_multipartParts (hsame ▸ List.mem_map_of_mem hp)
      exact h.processMimePart (hparts htype p hp) (notMem_multipartParts hbody hp) (by omega) (by omega)
    split_ifs
    · exact ⟨rfl, hrefl.setPlainText (varies_crlf body)⟩
    · exact ⟨rfl, hfold (hrefl.setMixed _)⟩
    · exact ⟨rfl, hfold (hrefl.setAlternative _)⟩
    · exact ⟨rfl, hfold hrefl⟩
  · rw [if_neg htype, if_neg htype]
    exact ⟨rfl, hrefl.parseSingle hbody _ _⟩

/-- A mail with a file. -/
def mailWithFile : Bytes :=
  lit "Subject: hi\n" ++ lit "Content-Type: multipart/mixed; boundary=\"b\"\n\n" ++
    lit "--b\nContent-Type: text/plain\n\n" ++ lit "Hello,\nsee the file.\n" ++
    lit "--b\nContent-Type: text/csv; name=\"a.csv\"\n" ++
    lit "Content-Transfer-Encoding: base64\n\n" ++ lit "QUJD\nREVG\n" ++ lit "--b--\n"

/-- What its parts are, and how it is read. -/
theorem parts_mailWithFile :
    (∀ p ∈ multipartParts (splitHeadersAndBody mailWithFile).2
      (extractBoundary (getHeaderValue (splitHeadersAndBody mailWithFile).1 (lit "Content-Type:"))),
        contains (lit "multipart") (partType p) = false) ∧
      (parseEmail mailWithFile {}).1 = true ∧
      (parseEmail mailWithFile {}).2.plainText = lit "Hello,\nsee the file.\n" ∧
      (parseEmail mailWithFile {}).2.attachments.map Attachment.base64Data = [lit "QUJDREVG"] := by
  decide +kernel

/-- The mail with a file nests as composers do. -/
theorem plainNesting_mailWithFile : PlainNesting mailWithFile :=
  .intro (fun _ => by decide +kernel) fun _ p hp => .of_leaf (parts_mailWithFile.1 p hp)

theorem parseEmail_crlf_mailWithFile :
    (parseEmail (crlf mailWithFile) {}).1 = true ∧
      Varies (parseEmail (crlf mailWithFile) {}).2.plainText (lit "Hello,\nsee the file.\n") ∧
      (parseEmail (crlf mailWithFile) {}).2.attachments.map Attachment.base64Data =
        [lit "QUJDREVG"] := by
  obtain ⟨-, hdone, hplain, hdata⟩ := parts_mailWithFile
  obtain ⟨hsame, hemail⟩ :=
    parseEmail_crlf (s := mailWithFile) (by decide +kernel) plainNesting_mailWithFile {}
  refine ⟨hsame.trans hdone, hplain ▸ hemail.plainText, ?_⟩
  rw [eq_of_sameAttachment hemail.attachments fun a ha => ?_, hdata]
  have hmem : a.base64Data ∈ [lit "QUJDREVG"] := hdata ▸ List.mem_map_of_mem ha
  rw [List.mem_singleton.mp hmem]
  decide +kernel

end MailStack.Mime
