import MailStack.Base64.Codec
import MailStack.Machinery.Search
import MailStack.Mime.StringUtils

/-!
# Mime/Decoder — encoded words and quoted-printable text

`DecodeEncodedWord` goes from one `=?charset?encoding?data?=` to the next.  Every iteration takes
at least the two characters of `=?`, so the length of the text is enough fuel for it.
-/

open Bytes MailStack.Base64 Search

namespace MailStack.Mime

/-- `IsHex`. -/
def isHex (c : UInt8) : Bool :=
  ('0'.toUInt8 ≤ c && c ≤ '9'.toUInt8) || ('A'.toUInt8 ≤ c && c ≤ 'F'.toUInt8) ||
    ('a'.toUInt8 ≤ c && c ≤ 'f'.toUInt8)

/-- The value of a hex digit in `InternalHexToChar`. -/
def hexValue (h : UInt8) : UInt8 :=
  if '0'.toUInt8 ≤ h ∧ h ≤ '9'.toUInt8 then h - '0'.toUInt8
  else if 'A'.toUInt8 ≤ h ∧ h ≤ 'F'.toUInt8 then h - 'A'.toUInt8 + 10
  else h - 'a'.toUInt8 + 10

/-- `InternalHexToChar`, on two hex digits: its callers make sure of both. -/
def internalHexToChar (h0 h1 : UInt8) : UInt8 := hexValue h0 <<< 4 ||| hexValue h1

/-- `HasQpArtifacts`. -/
def hasQpArtifacts : Bytes → Bool
  | c :: c1 :: c2 :: s =>
    (c = '='.toUInt8 && isHex c1 && isHex c2) || hasQpArtifacts (c1 :: c2 :: s)
  | _ => false

/-- `DecodeQEncoding`. -/
def decodeQEncoding : Bytes → Bytes
  | c :: c1 :: c2 :: s =>
    if c = '_'.toUInt8 then ' '.toUInt8 :: decodeQEncoding (c1 :: c2 :: s)
    else if c = '='.toUInt8 ∧ isHex c1 ∧ isHex c2 then
      internalHexToChar c1 c2 :: decodeQEncoding s
    else c :: decodeQEncoding (c1 :: c2 :: s)
  | c :: s => (if c = '_'.toUInt8 then ' '.toUInt8 else c) :: decodeQEncoding s
  | [] => []

/-- The text of one encoded word. -/
def decodePart (encoding text : Bytes) : Bytes :=
  if encoding = lit "Q" ∨ encoding = lit "q" then decodeQEncoding text
  else if encoding = lit "B" ∨ encoding = lit "b" then
    match decodeBase64 text with
    | .ok bytes => bytes
    | .error _ => text
  else text

/-- What stands between encoded words counts unless it is blank. -/
def keepGap (foundAnyEncoded : Bool) (gap : Bytes) : Bytes :=
  if !foundAnyEncoded || gap.any (!isBlank ·) then gap else []

/-- The loop of `DecodeEncodedWord`, on what follows the position. -/
def decodeLoop : ℕ → Bytes → Bool → Bytes → Bytes × Bool
  | 0, _, found, result => (result, found)
  | _ + 1, [], found, result => (result, found)
  | n + 1, c :: s, found, result =>
    match cutSub (lit "=?") (c :: s) with
    | none => (result ++ keepGap found (c :: s), found)
    | some (gap, rest) =>
      let result := result ++ keepGap found gap
      match cut '?'.toUInt8 rest with
      | none => (result ++ lit "=?" ++ rest, found)
      | some (_, rest₁) =>
        match cut '?'.toUInt8 rest₁ with
        | none => (result ++ lit "=?" ++ rest, found)
        | some (encoding, rest₂) =>
          match cutSub (lit "?=") rest₂ with
          | none => (result ++ lit "=?" ++ rest, found)
          | some (text, rest₃) => decodeLoop n rest₃ true (result ++ decodePart encoding text)

/-- `MimeDecoder::DecodeEncodedWord`. -/
def decodeEncodedWord (input : Bytes) : Bytes :=
  let (result, foundAnyEncoded) := decodeLoop input.length input false []
  if !foundAnyEncoded && hasQpArtifacts result then decodeQEncoding result else result

/-- `MimeDecoder::DecodeQuotedPrintable`. A soft line break is CR, LF or both. -/
def decodeQuotedPrintable : Bytes → Bytes
  | [] => []
  | c :: s =>
    if c = '='.toUInt8 then
      match s with
      | [] => [c]
      | c1 :: s₁ =>
        if c1 = '\r'.toUInt8 then
          match s₁ with
          | [] => []
          | c2 :: s₂ =>
            if c2 = '\n'.toUInt8 then decodeQuotedPrintable s₂
            else decodeQuotedPrintable (c2 :: s₂)
        else if c1 = '\n'.toUInt8 then decodeQuotedPrintable s₁
        else
          match s₁ with
          | [] => c :: decodeQuotedPrintable [c1]
          | c2 :: s₂ =>
            if isHex c1 && isHex c2 then internalHexToChar c1 c2 :: decodeQuotedPrintable s₂
            else c :: decodeQuotedPrintable (c1 :: c2 :: s₂)
    else c :: decodeQuotedPrintable s

example : decodeEncodedWord (lit "=?UTF-8?Q?a=21?= b") = lit "a! b" := by decide +kernel

example : decodeQuotedPrintable (lit "a=3D=\r\nb=") = lit "a=b=" := by decide +kernel

end MailStack.Mime
