import MailStack.Mime.Decoder

/-!
# Mime/Parser — `MimeParser::ParseEmail`

An `Email` is filled in by the parser.  A part of a multipart body is what stands between two
delimiters; which parts there are does not depend on the `Email` filled in so far, so
`ParseMultipartBody` is a fold over them.  A part nested in a part is shorter than it, so the
length of the message is enough fuel for the recursion.
-/

open Bytes MailStack.Base64 Search

namespace MailStack.Mime

/-! ## `Email` and `Attachment` -/

/-- `Attachment`. -/
structure Attachment where
  fileName : Bytes := []
  mimeType : Bytes := []
  base64Data : Bytes := []
  fileSize : ℕ := 0
  deriving DecidableEq, Repr

/-- `Attachment(name, mime, data)`; the size is computed in `std::size_t`. -/
def Attachment.of (name mime data : Bytes) : Attachment :=
  let padding :=
    if 2 ≤ data.length then
      (if data.getLast? = some '='.toUInt8 then 1 else 0) +
        if data.dropLast.getLast? = some '='.toUInt8 then 1 else 0
    else 0
  { fileName := name
    mimeType := mime
    base64Data := data
    fileSize := if data ≠ [] then (data.length * 3 % 2 ^ 64 / 4 + 2 ^ 64 - padding) % 2 ^ 64 else 0 }

/-- `Email`. -/
structure Email where
  sender : Bytes := []
  «to» : List Bytes := []
  cc : List Bytes := []
  bcc : List Bytes := []
  subject : Bytes := []
  date : Bytes := []
  charset : Bytes := lit "utf-8"
  messageId : Bytes := []
  inReplyTo : Bytes := []
  references : Bytes := []
  plainText : Bytes := []
  htmlText : Bytes := []
  plainTextEncoding : Bytes := []
  htmlTextEncoding : Bytes := []
  boundaryMixed : Bytes := []
  boundaryAlternative : Bytes := []
  attachments : List Attachment := []
  deriving DecidableEq, Repr

namespace Email

/-- `Email::AddAttachment`. -/
def addAttachment (email : Email) (name mimeType base64Data : Bytes) : Email :=
  { email with attachments := email.attachments ++ [.of name mimeType base64Data] }

/-- `Email::HasAttachments`. -/
def hasAttachments (email : Email) : Bool := !email.attachments.isEmpty

/-- `Email::HasHtml`. -/
def hasHtml (email : Email) : Bool := !email.htmlText.isEmpty

end Email

/-! ## Header fields -/

/-- `std::tolower` in the "C" locale. -/
def lower (c : UInt8) : UInt8 :=
  if 'A'.toUInt8 ≤ c ∧ c ≤ 'Z'.toUInt8 then c + 32 else c

/-- `ToLower`. -/
def toLower (s : Bytes) : Bytes := s.map lower

/-- `IEquals`. -/
def iequals (a b : Bytes) : Bool := toLower a = toLower b

/-- `if (!line.empty() && line.back() == c) line.pop_back()`. -/
def popBack (c : UInt8) (line : Bytes) : Bytes :=
  if line.getLast? = some c then line.dropLast else line

/-- The lines of a field after its first. -/
def unfoldValue (result : Bytes) : List Bytes → Bytes
  | [] => result
  | line :: lines =>
    let line := popBack '\r'.toUInt8 line
    if line = [] then unfoldValue result lines
    else if line.head? = some ' '.toUInt8 ∨ line.head? = some '\t'.toUInt8 then
      let appended := trim line
      unfoldValue (if appended ≠ [] then result ++ lit " " ++ appended else result) lines
    else result

/-- The first field of that name. -/
def findField (lowerKey : Bytes) : List Bytes → Bytes
  | [] => []
  | line :: lines =>
    let line := popBack '\r'.toUInt8 line
    if line = [] then findField lowerKey lines
    else
      match cut ':'.toUInt8 line with
      | none => findField lowerKey lines
      | some (currentKey, value) =>
        if iequals currentKey lowerKey then unfoldValue (trim value) lines
        else findField lowerKey lines

/-- `MimeParser::GetHeaderValue`. -/
def getHeaderValue (headers key : Bytes) : Bytes :=
  findField (popBack ':'.toUInt8 (toLower key)) (getlines '\n'.toUInt8 headers)

/-- `MimeParser::SplitHeadersAndBody`. -/
def splitHeadersAndBody (rawBlock : Bytes) : Bytes × Bytes :=
  match cutSub (lit "\r\n\r\n") rawBlock with
  | some p => p
  | none =>
    match cutSub (lit "\n\n") rawBlock with
    | some p => p
    | none => ([], rawBlock)

/-- A parameter's value: in quotes, or up to `" ;\r\n"`. -/
def paramValue : Bytes → Bytes
  | [] => []
  | c :: s =>
    if c = '"'.toUInt8 then
      match cut '"'.toUInt8 s with
      | some (value, _) => value
      | none => []
    else (c :: s).takeWhile fun c =>
      !(c = ' '.toUInt8 || c = ';'.toUInt8 || c = '\r'.toUInt8 || c = '\n'.toUInt8)

/-- A parameter whose name is found in any case. -/
def extractParam (name contentTypeHeader : Bytes) : Bytes :=
  match cutSub name (toLower contentTypeHeader) with
  | none => []
  | some (before, _) => trim (paramValue (contentTypeHeader.drop (before.length + name.length)))

/-- `MimeParser::ExtractBoundary`. -/
def extractBoundary (contentTypeHeader : Bytes) : Bytes :=
  extractParam (lit "boundary=") contentTypeHeader

/-- `MimeParser::ExtractCharset`. -/
def extractCharset (contentTypeHeader : Bytes) : Bytes :=
  extractParam (lit "charset=") contentTypeHeader

/-- A parameter whose name is found as it is written. -/
def findParam (name header : Bytes) : Bytes :=
  match cutSub name header with
  | none => []
  | some (_, rest) => paramValue rest

/-- `MimeParser::ExtractFileName`. -/
def extractFileName (partHeaders : Bytes) : Bytes :=
  let fileName := findParam (lit "filename=") (getHeaderValue partHeaders (lit "Content-Disposition:"))
  let fileName :=
    if fileName = [] then findParam (lit "name=") (getHeaderValue partHeaders (lit "Content-Type:"))
    else fileName
  decodeEncodedWord (trim (if fileName = [] then lit "unnamed_file" else fileName))

/-! ## Addresses -/

/-- The state of the loop of `SplitAddresses`. -/
structure AddressScan where
  result : List Bytes := []
  current : Bytes := []
  angleDepth : ℕ := 0
  inQuotes : Bool := false

/-- `if (!trimmed.empty()) result.push_back(trimmed)`. -/
def AddressScan.flush (a : AddressScan) : List Bytes :=
  let trimmed := trim a.current
  if trimmed ≠ [] then a.result ++ [trimmed] else a.result

/-- One character of `SplitAddresses`. -/
def AddressScan.step (a : AddressScan) (c : UInt8) : AddressScan :=
  let current := a.current ++ [c]
  if c = '"'.toUInt8 ∧ a.angleDepth = 0 then
    { a with
      inQuotes := !a.inQuotes
      current }
  else if ¬ a.inQuotes ∧ c = '<'.toUInt8 then
    { a with
      angleDepth := a.angleDepth + 1
      current }
  else if ¬ a.inQuotes ∧ c = '>'.toUInt8 then
    { a with
      angleDepth := a.angleDepth - 1
      current }
  else if ¬ a.inQuotes ∧ a.angleDepth = 0 ∧ c = ','.toUInt8 then
    { a with
      result := a.flush
      current := [] }
  else { a with current }

/-- `MimeParser::SplitAddresses`. -/
def splitAddresses (headerValue : Bytes) : List Bytes :=
  (headerValue.foldl AddressScan.step {}).flush

/-- `MimeParser::ParseMainHeaders`. -/
def parseMainHeaders (topHeaders : Bytes) (out : Email) : Email :=
  { out with
    sender := decodeEncodedWord (getHeaderValue topHeaders (lit "From:"))
    subject := decodeEncodedWord (getHeaderValue topHeaders (lit "Subject:"))
    date := getHeaderValue topHeaders (lit "Date:")
    «to» := splitAddresses (decodeEncodedWord (getHeaderValue topHeaders (lit "To:")))
    cc := splitAddresses (decodeEncodedWord (getHeaderValue topHeaders (lit "Cc:")))
    messageId := getHeaderValue topHeaders (lit "Message-ID:")
    inReplyTo := getHeaderValue topHeaders (lit "In-Reply-To:")
    references := getHeaderValue topHeaders (lit "References:") }

/-! ## Multipart bodies -/

/-- `if (start_pos < body.length() && body[start_pos] == c) start_pos++`. -/
def skipChar (c : UInt8) (s : Bytes) : Bytes := if s.head? = some c then s.drop 1 else s

/-- The loop of `ParseMultipartBody`, on what follows a delimiter: the parts it goes through. -/
def partsLoop (delimiter : Bytes) : ℕ → Bytes → List Bytes
  | 0, _ => []
  | n + 1, s =>
    let s := skipChar '\n'.toUInt8 (skipChar '\r'.toUInt8 s)
    if (lit "--").isPrefixOf s then []
    else
      match cutSub delimiter s with
      | none => []
      | some (partRaw, rest) => partRaw :: partsLoop delimiter n rest

/-- The parts `ParseMultipartBody` hands to `ProcessMimePart`. -/
def multipartParts (body boundary : Bytes) : List Bytes :=
  let delimiter := lit "--" ++ boundary
  match cutSub delimiter body with
  | none => []
  | some (_, rest) => partsLoop delimiter body.length rest

/-- `erase` of CR and LF, `DecodeBase64`, and the text as it is where that throws. -/
def decodeText (encoding body : Bytes) : Bytes :=
  if contains (lit "base64") encoding then
    match decodeBase64 (eraseBreaks body) with
    | .ok decoded => decoded
    | .error _ => eraseBreaks body
  else body

/-- `encoding.empty() ? "7bit" : encoding`. -/
def encodingOr7bit (encoding : Bytes) : Bytes := if encoding = [] then lit "7bit" else encoding

/-- `if (!cs.empty()) out_email.charset = cs`. -/
def Email.setCharset (out : Email) (contentType : Bytes) : Email :=
  let cs := extractCharset contentType
  if cs ≠ [] then { out with charset := cs } else out

/-- `ProcessMimePart` on a part that is no multipart. -/
def processLeaf (partHeaders partBody contentType disposition encoding : Bytes) (out : Email) :
    Email :=
  if contains (lit "attachment") disposition ∨ contains (lit "name=") contentType ∨
      contains (lit "filename=") disposition then
    let pureMime := (cut ';'.toUInt8 contentType).elim contentType Prod.fst
    let partBody := if contains (lit "base64") encoding then eraseBreaks partBody else partBody
    out.addAttachment (extractFileName partHeaders) pureMime partBody
  else if contains (lit "text/plain") contentType then
    let out := { out with plainTextEncoding := encodingOr7bit encoding }
    let out := out.setCharset (getHeaderValue partHeaders (lit "Content-Type:"))
    { out with plainText := decodeText encoding partBody }
  else if contains (lit "text/html") contentType then
    { out with
      htmlTextEncoding := encodingOr7bit encoding
      htmlText := decodeText encoding partBody }
  else out

/-- `MimeParser::ProcessMimePart`, with `ParseMultipartBody` in it. -/
def processMimePart : ℕ → Bytes → Email → Email
  | 0, _, out => out
  | n + 1, partRaw, out =>
    let (partHeaders, partBody) := splitHeadersAndBody partRaw
    let contentType := toLower (getHeaderValue partHeaders (lit "Content-Type:"))
    let disposition := toLower (getHeaderValue partHeaders (lit "Content-Disposition:"))
    let encoding := toLower (getHeaderValue partHeaders (lit "Content-Transfer-Encoding:"))
    let partBody :=
      if contains (lit "quoted-printable") encoding then decodeQuotedPrintable partBody else partBody
    if contains (lit "multipart") contentType then
      let nestedBoundary := extractBoundary (getHeaderValue partHeaders (lit "Content-Type:"))
      if nestedBoundary ≠ [] then
        let out :=
          if contains (lit "multipart/alternative") contentType then
            { out with boundaryAlternative := nestedBoundary }
          else out
        (multipartParts partBody nestedBoundary).foldl (fun out p => processMimePart n p out) out
      else out
    else processLeaf partHeaders partBody contentType disposition encoding out

/-- `MimeParser::ParseMultipartBody`. -/
def parseMultipartBody (n : ℕ) (body boundary : Bytes) (out : Email) : Email :=
  (multipartParts body boundary).foldl (fun out p => processMimePart n p out) out

/-- `ParseEmail` on a message that is no multipart. -/
def parseSingle (contentType encoding body : Bytes) (out : Email) : Email :=
  let out := { out with plainTextEncoding := encodingOr7bit encoding }
  let out := out.setCharset contentType
  { out with
    plainText :=
      if contains (lit "quoted-printable") encoding then decodeQuotedPrintable body
      else if contains (lit "base64") encoding then
        match decodeBase64 body with
        | .ok decoded => decoded
        | .error _ => body
      else body }

/-- `MimeParser::ParseEmail`: what it returns, and `out_email` afterwards. -/
def parseEmail (rawMime : Bytes) (out : Email) : Bool × Email :=
  if rawMime = [] then (false, out)
  else
    let (topHeaders, body) := splitHeadersAndBody rawMime
    let out := parseMainHeaders topHeaders out
    let contentType := getHeaderValue topHeaders (lit "Content-Type:")
    let ctLower := toLower contentType
    if contains (lit "multipart") ctLower then
      let boundary := extractBoundary contentType
      if boundary = [] then (false, { out with plainText := body })
      else
        let out :=
          if contains (lit "multipart/mixed") ctLower then { out with boundaryMixed := boundary }
          else if contains (lit "multipart/alternative") ctLower then
            { out with boundaryAlternative := boundary }
          else out
        (true, parseMultipartBody rawMime.length body boundary out)
    else
      let encoding := toLower (getHeaderValue topHeaders (lit "Content-Transfer-Encoding:"))
      (true, parseSingle contentType encoding body out)

end MailStack.Mime
