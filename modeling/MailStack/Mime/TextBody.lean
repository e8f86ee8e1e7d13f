import MailStack.Base64.RoundTrip
import MailStack.Mime.Structure

/-!
# Mime/TextBody — a base64 text, as a message of its own and as a part

`ProcessMimePart` takes the line breaks out of a base64 text before `DecodeBase64` reads it.
`ParseEmail`, for a message that is no multipart, does not, and the decoder refuses a line break.  So
the same headers and the same body give the text in a part (`plainText_asPart`), and the body as it
stands in a message of its own (`plainText_alone`), whatever the text is.
-/

open Bytes MailStack.Base64 Search

namespace MailStack.Mime

/-! ## The text -/

def base64TextHeaders : Bytes :=
  lit "Content-Type: text/plain\r\nContent-Transfer-Encoding: base64"

/-- The headers, a blank line, the encoded text and CRLF. -/
def base64Text (encoded : Bytes) : Bytes :=
  base64TextHeaders ++ lit "\r\n\r\n" ++ encoded ++ lit "\r\n"

/-- A multipart message with this text as its only part. -/
def asPart (encoded : Bytes) : Bytes :=
  mixedMessage [base64TextHeaders ++ lit "\r\n\r\n" ++ encoded]

/-- `ParseEmail` finds the text that was encoded. -/
def DecodesAlone (data : Bytes) (out : Email) : Prop :=
  ∃ encoded, encodeBase64 data = .ok encoded ∧
    (parseEmail (base64Text encoded) out).2.plainText = data

/-- It finds it in the part of a multipart message. -/
def DecodesAsPart (data : Bytes) (out : Email) : Prop :=
  ∃ encoded, encodeBase64 data = .ok encoded ∧
    (parseEmail (asPart encoded) out).2.plainText = data

section Text

variable {encoded : Bytes}

theorem splitHeadersAndBody_base64Text (encoded : Bytes) :
    splitHeadersAndBody (base64Text encoded) = (base64TextHeaders, encoded ++ lit "\r\n") := by
  have hlines : ∀ l ∈ [lit "Content-Type: text/plain", lit "Content-Transfer-Encoding: base64"],
      IsHeaderLine l := by
    simp only [List.forall_mem_cons]
    exact ⟨⟨by decide, by decide, by decide⟩, ⟨by decide, by decide, by decide⟩, by simp⟩
  have hsplit := splitHeadersAndBody_unlines (List.cons_ne_nil _ _) hlines (encoded ++ lit "\r\n")
  rw [base64Text, List.append_assoc (_ ++ _)]
  exact hsplit

theorem base64Text_fields :
    getHeaderValue base64TextHeaders (lit "Content-Type:") = lit "text/plain" ∧
      getHeaderValue base64TextHeaders (lit "Content-Disposition:") = [] ∧
      getHeaderValue base64TextHeaders (lit "Content-Transfer-Encoding:") = lit "base64" := by
  decide +kernel

/-- **As a message of its own** the text stays encoded, with the CRLF behind it. -/
theorem plainText_alone (encoded : Bytes) (out : Email) :
    (parseEmail (base64Text encoded) out).2.plainText = encoded ++ lit "\r\n" := by
  obtain ⟨htype, -, hencoding⟩ := base64Text_fields
  have hne : base64Text encoded ≠ [] := List.append_ne_nil_of_right_ne_nil _ (by decide)
  rw [parseEmail, if_neg hne, splitHeadersAndBody_base64Text]
  dsimp only
  rw [htype, hencoding, if_neg (by decide), parseSingle]
  dsimp only
  rw [if_neg (by decide), if_pos (by decide)]
  cases hdecoded : decodeBase64 (encoded ++ lit "\r\n") with
  | error e => rfl
  | ok decoded =>
    have hcr : '\r'.toUInt8 ∈ encoded ++ lit "\r\n" := List.mem_append_right _ (by decide)
    exact absurd hdecoded (decodeBase64_ne_ok hcr (by decide) decoded)

/-- **As a part** it is decoded without the line breaks. -/
theorem plainText_asPart (n : ℕ) (encoded : Bytes) (out : Email) :
    (processMimePart (n + 1) (base64Text encoded) out).plainText =
      decodeText (lit "base64") (encoded ++ lit "\r\n") := by
  obtain ⟨htype, hdisposition, hencoding⟩ := base64Text_fields
  have hlower : toLower (lit "base64") = lit "base64" := by decide
  rw [processMimePart, splitHeadersAndBody_base64Text]
  dsimp only
  rw [htype, hdisposition, hencoding, hlower, if_neg (by decide), if_neg (by decide), processLeaf,
    if_neg (by decide), if_pos (by decide)]

theorem decodeText_chunkBytes (data : Bytes) :
    decodeText (lit "base64") (chunkBytes 0 data ++ lit "\r\n") = data := by
  have hbreaks : eraseBreaks (chunkBytes 0 data ++ lit "\r\n") = eraseBreaks (chunkBytes 0 data) := by
    rw [eraseBreaks_append, show eraseBreaks (lit "\r\n") = [] from rfl, List.append_nil]
  rw [decodeText, if_pos (by decide), hbreaks, decodeBase64_chunkBytes]

/-- The encoded text is at least as long. -/
theorem length_le_chunkBytes : ∀ (lineLength : ℕ) (data : Bytes),
    data.length ≤ (chunkBytes lineLength data).length
  | _, [] => Nat.le_refl 0
  | _, [_] => (by decide : 1 ≤ 4)
  | _, [_, _] => (by decide : 2 ≤ 4)
  | lineLength, b0 :: b1 :: b2 :: data => by
      have h0 := length_le_chunkBytes 0 data
      have h := length_le_chunkBytes (lineLength + 4) data
      rw [chunkBytes]
      split_ifs
      · simp only [List.length_append, List.length_cons]
        omega
      · simp only [List.length_append, List.length_cons]
        omega

/-- No delimiter is in the text. -/
theorem isPart_base64Text (data : Bytes) : IsPart (lit "--b") (base64Text (chunkBytes 0 data)) := by
  have hdash : '-'.toUInt8 ∉ chunkBytes 0 data ++ lit "\r\n" := by
    intro h
    rcases List.mem_append.mp h with h | h
    · rcases mem_chunkBytes 0 data _ h with h | h | h
      · exact absurd h (by decide)
      · exact absurd h (by decide)
      · exact absurd h (by decide)
    · exact absurd h (by decide)
  have htext : base64Text (chunkBytes 0 data) = (base64TextHeaders ++ lit "\r\n\r") ++
      '\n'.toUInt8 :: (chunkBytes 0 data ++ lit "\r\n") := by
    rw [base64Text]
    simp only [List.append_assoc]
    rfl
  refine ⟨?_, ?_, ?_⟩
  · rw [htext, infix_append_cons (by decide), not_or]
    exact ⟨by decide, not_infix_of_notMem (by decide) hdash⟩
  · rw [base64Text, List.getLast?_append]
    rfl
  · rw [base64Text]
    exact fun h => absurd (List.cons_prefix_cons.mp h).1 (by decide)

theorem splitHeadersAndBody_mixedMessage (parts : List Bytes) :
    splitHeadersAndBody (mixedMessage parts) =
      (mixedHeaders, renderParts (lit "--b") [] (parts.map (· ++ lit "\r\n"))) := by
  have hlines : ∀ l ∈ [mixedHeaders], IsHeaderLine l := by
    simp only [List.forall_mem_cons]
    exact ⟨⟨by decide, by decide, by decide⟩, by simp⟩
  exact splitHeadersAndBody_unlines (List.cons_ne_nil _ _) hlines _

/-- **The text as the only part of a multipart message.** -/
theorem plainText_message (data : Bytes) (out : Email) :
    (parseEmail (asPart (chunkBytes 0 data)) out).2.plainText = data := by
  have htype : getHeaderValue mixedHeaders (lit "Content-Type:") =
      lit "multipart/mixed; boundary=\"b\"" := by decide
  have hboundary : extractBoundary (lit "multipart/mixed; boundary=\"b\"") = lit "b" := by
    decide
  have hne : asPart (chunkBytes 0 data) ≠ [] :=
    List.append_ne_nil_of_left_ne_nil (List.append_ne_nil_of_left_ne_nil (by decide) _) _
  have hparts : multipartParts (renderParts (lit "--" ++ lit "b") [] [base64Text (chunkBytes 0 data)])
      (lit "b") = [base64Text (chunkBytes 0 data)] :=
    multipartParts_renderParts (by decide) []
      fun p hp => List.mem_singleton.mp hp ▸ isPart_base64Text data
  obtain ⟨n, hn⟩ := Nat.exists_eq_succ_of_ne_zero
    (Nat.ne_of_gt (List.length_pos_of_ne_nil hne))
  rw [parseEmail, if_neg hne, hn, asPart, splitHeadersAndBody_mixedMessage]
  dsimp only
  rw [htype, if_pos (by decide), hboundary, if_neg (by decide), parseMultipartBody]
  dsimp only
  rw [List.map_singleton]
  change Email.plainText (List.foldl _ _ (multipartParts (renderParts (lit "--" ++ lit "b") []
    [base64Text (chunkBytes 0 data)]) (lit "b"))) = data
  rw [hparts, List.foldl_cons, List.foldl_nil, plainText_asPart, decodeText_chunkBytes]

/-- **What is encoded comes back from a part, and never from a message of its own.** -/
theorem not_decodesAlone (data : Bytes) (hdata : data.length ≤ maxFileSize) (out : Email) :
    ¬ DecodesAlone data out ∧ DecodesAsPart data out := by
  have hencoded : encodeBase64 data = .ok (chunkBytes 0 data) := if_neg (Nat.not_lt.mpr hdata)
  constructor
  · rintro ⟨encoded, hok, htext⟩
    obtain rfl := Except.ok.inj (hencoded.symm.trans hok)
    rw [plainText_alone] at htext
    have hlonger := congrArg List.length htext
    have hle := length_le_chunkBytes 0 data
    rw [List.length_append] at hlonger
    have htwo : (lit "\r\n").length = 2 := rfl
    omega
  · exact ⟨_, hencoded, plainText_message data out⟩

end Text

/-! ## Two bytes -/

theorem not_decodesAlone_two : (lit "hi").length ≤ maxFileSize ∧
    ¬ DecodesAlone (lit "hi") {} ∧ DecodesAsPart (lit "hi") {} :=
  ⟨by decide, not_decodesAlone (lit "hi") (by decide) {}⟩

/-- **The message `aGk=` has the text `aGk=`**, not `hi`. -/
theorem not_decodesAlone_hi :
    (parseEmail (base64Text (lit "aGk=")) {}).2.plainText = lit "aGk=\r\n" ∧
      ¬ ∀ data : Bytes, data.length ≤ maxFileSize → DecodesAlone data {} ∧ DecodesAsPart data {} := by
  refine ⟨plainText_alone _ _, fun h => ?_⟩
  obtain ⟨⟨encoded, hencoded, htext⟩, -⟩ := h (lit "hi") (by decide)
  obtain rfl : lit "aGk=" = encoded := Except.ok.inj ((by decide : _ = _).symm.trans hencoded)
  rw [plainText_alone] at htext
  exact absurd htext (by decide)

end MailStack.Mime
