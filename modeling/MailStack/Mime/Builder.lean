import MailStack.Mime.Encoder
import MailStack.Mime.Parser

/-!
# Mime/Builder — `MimeBuilder::BuildEmail`

What the builder takes from the clock and from the random device is a parameter, `Drawn`.  The
result is `none` where the email is refused; encoding can also fail to return, with a `Failure`.
-/

open Bytes

namespace MailStack.Mime

/-! ## What is drawn at run time -/

/-- The local time, as `std::tm` has it. -/
structure Tm where
  wday : Fin 7
  mday : ℕ
  mon : Fin 12
  year : ℕ
  hour : ℕ
  min : ℕ
  sec : ℕ
  west : Bool
  offsetMinutes : ℕ

/-- What `BuildEmail` takes from the clock and from `std::random_device`. -/
structure Drawn where
  now : Tm
  millis : ℕ
  uniqueId : Fin 32 → Fin 16
  mixed : Fin 24 → Fin 16
  alternative : Fin 24 → Fin 16

/-- `std::to_string`, of a number that is not negative. -/
def decimal (n : ℕ) : Bytes := (Nat.toDigits 10 n).map Char.toUInt8

/-- A number on two digits. -/
def twoDigits (n : ℕ) : Bytes := (if n < 10 then lit "0" else []) ++ decimal n

/-- `std::put_time(&tm, "%a, %d %b %Y %H:%M:%S %z")` in the "C" locale. -/
def Tm.format (tm : Tm) : Bytes :=
  ([lit "Sun", lit "Mon", lit "Tue", lit "Wed", lit "Thu", lit "Fri", lit "Sat"].getD tm.wday []) ++
    lit ", " ++ twoDigits tm.mday ++ lit " " ++
    ([lit "Jan", lit "Feb", lit "Mar", lit "Apr", lit "May", lit "Jun", lit "Jul", lit "Aug",
      lit "Sep", lit "Oct", lit "Nov", lit "Dec"].getD tm.mon []) ++
    lit " " ++ decimal tm.year ++ lit " " ++ twoDigits tm.hour ++ lit ":" ++ twoDigits tm.min ++
    lit ":" ++ twoDigits tm.sec ++ lit " " ++ (if tm.west then lit "-" else lit "+") ++
    twoDigits (tm.offsetMinutes / 60) ++ twoDigits (tm.offsetMinutes % 60)

/-- `hex_chars[dist(gen)]`, as often as the loop runs. -/
def hexDigits {n : ℕ} (digits : Fin n → Fin 16) : Bytes :=
  (List.ofFn digits).map fun d : Fin 16 => (lit "0123456789abcdef").getD d.val 0

/-- `MimeBuilder::GenerateBoundary`. -/
def generateBoundary (digits : Fin 24 → Fin 16) : Bytes := lit "----=_Part_" ++ hexDigits digits

/-- `MimeBuilder::GenerateMessageId`. -/
def generateMessageId (config : MimeConfig) (drawn : Drawn) (sender : Bytes) : Bytes :=
  let domain := (cut '@'.toUInt8 sender).elim config.defaultDomain Prod.snd
  let domain := (cut '>'.toUInt8 domain).elim domain Prod.fst
  lit "<" ++ decimal drawn.millis ++ lit "." ++ hexDigits drawn.uniqueId ++ lit "@" ++ domain ++
    lit ">"

/-! ## The parts of a message -/

/-- `JoinAddresses`. -/
def joinAddresses : List Bytes → Bytes
  | [] => []
  | [address] => address
  | address :: addresses => address ++ lit ", " ++ joinAddresses addresses

/-- `MimeBuilder::ValidateEmail`. -/
def validateEmail (email : Email) : Bool :=
  trim email.sender ≠ [] ∧ email.to ≠ [] ∧ ¬ (trim email.plainText = [] ∧ email.htmlText = []) ∧
    '@'.toUInt8 ∈ trim email.sender ∧ ∀ address ∈ email.to, '@'.toUInt8 ∈ trim address

/-- `name + text + "\r\n"`. -/
def headerLine (name text : Bytes) : Bytes := name ++ text ++ lit "\r\n"

/-- The `Subject` line of `AppendMainHeaders`. -/
def appendSubject (config : MimeConfig) (email : Email) : Except Failure Bytes :=
  if email.subject ≠ [] then
    headerLine (lit "Subject: ") <$> encodeHeader config email.subject (lit "\r\n\t")
  else pure []

/-- `MimeBuilder::AppendMainHeaders`. -/
def appendMainHeaders (config : MimeConfig) (drawn : Drawn) (email : Email) :
    Except Failure Bytes := do
  let subject ← appendSubject config email
  let messageId :=
    if email.messageId = [] then generateMessageId config drawn email.sender else email.messageId
  return headerLine (lit "MIME-Version: ") (lit "1.0") ++
    headerLine (lit "Date: ") drawn.now.format ++ subject ++
    headerLine (lit "From: ") email.sender ++
    headerLine (lit "To: ") (joinAddresses email.to) ++
    (if email.cc ≠ [] then headerLine (lit "Cc: ") (joinAddresses email.cc) else []) ++
    headerLine (lit "Message-ID: ") messageId ++
    (if email.inReplyTo ≠ [] then headerLine (lit "In-Reply-To: ") email.inReplyTo else []) ++
    (if email.references ≠ [] then headerLine (lit "References: ") email.references else [])

/-- `MimeBuilder::AppendTextPart`. -/
def appendTextPart (body boundary : Bytes) : Bytes :=
  lit "--" ++ boundary ++ lit "\r\n" ++
    lit "Content-Type: text/plain; charset=\"utf-8\"\r\n" ++
    lit "Content-Transfer-Encoding: 8bit\r\n" ++ lit "\r\n" ++ wrapText body 998 ++ lit "\r\n"

/-- `MimeBuilder::AppendHtmlPart`. -/
def appendHtmlPart (htmlBody boundary : Bytes) : Except Failure Bytes := do
  return lit "--" ++ boundary ++ lit "\r\n" ++
    lit "Content-Type: text/html; charset=\"utf-8\"\r\n" ++
    lit "Content-Transfer-Encoding: base64\r\n" ++ lit "\r\n" ++ (← toBase64 htmlBody) ++ lit "\r\n"

/-- `"Content-Type: " + type + "; boundary=\"" + boundary + "\"\r\n"`. -/
def multipartHeader (type boundary : Bytes) : Bytes :=
  headerLine (lit "Content-Type: ") (type ++ lit "; boundary=\"" ++ boundary ++ lit "\"")

/-- `MimeBuilder::AppendBodyContent`. -/
def appendBodyContent (drawn : Drawn) (email : Email) (boundary : Bytes) : Except Failure Bytes := do
  if email.hasHtml then
    let altBoundary := generateBoundary drawn.alternative
    return (if email.hasAttachments then lit "--" ++ boundary ++ lit "\r\n" else []) ++
      multipartHeader (lit "multipart/alternative") altBoundary ++ lit "\r\n" ++
      appendTextPart email.plainText altBoundary ++
      (← appendHtmlPart email.htmlText altBoundary) ++
      (lit "--" ++ altBoundary ++ lit "--\r\n") ++
      (if email.hasAttachments then lit "\r\n" else [])
  else if email.hasAttachments then return appendTextPart email.plainText boundary
  else
    return lit "Content-Type: text/plain; charset=\"utf-8\"\r\n" ++
      lit "Content-Transfer-Encoding: 8bit\r\n" ++ lit "\r\n" ++ email.plainText ++ lit "\r\n"

/-- The table of `GetMimeType`. -/
def mimeMap : List (Bytes × Bytes) :=
  [(lit "pdf", lit "application/pdf"), (lit "jpg", lit "image/jpeg"),
    (lit "jpeg", lit "image/jpeg"), (lit "png", lit "image/png"), (lit "gif", lit "image/gif"),
    (lit "txt", lit "text/plain"), (lit "html", lit "text/html"), (lit "htm", lit "text/html"),
    (lit "xml", lit "application/xml"), (lit "zip", lit "application/zip"),
    (lit "doc", lit "application/msword"),
    (lit "docx", lit "application/vnd.openxmlformats-officedocument.wordprocessingml.document"),
    (lit "xls", lit "application/vnd.ms-excel"),
    (lit "xlsx", lit "application/vnd.openxmlformats-officedocument.spreadsheetml.sheet"),
    (lit "ppt", lit "application/vnd.ms-powerpoint"),
    (lit "pptx", lit "application/vnd.openxmlformats-officedocument.presentationml.presentation"),
    (lit "json", lit "application/json"), (lit "csv", lit "text/csv")]

/-- `MimeBuilder::GetMimeType`; what follows the last `.` is found from the end. -/
def getMimeType (fileName : Bytes) : Bytes :=
  match cut '.'.toUInt8 fileName.reverse with
  | none => lit "application/octet-stream"
  | some (ext, _) => (mimeMap.lookup (toLower ext.reverse)).getD (lit "application/octet-stream")

/-- One round of `AppendAttachments`. -/
def appendAttachment (config : MimeConfig) (boundary : Bytes) (att : Attachment) :
    Except Failure Bytes := do
  let mimeType := if att.mimeType = [] then getMimeType att.fileName else att.mimeType
  let encodedName ← encodeHeader config att.fileName (lit "\r\n\t")
  return lit "--" ++ boundary ++ lit "\r\n" ++
    headerLine (lit "Content-Type: ") (mimeType ++ lit "; name=\"" ++ encodedName ++ lit "\"") ++
    headerLine (lit "Content-Transfer-Encoding: ") (lit "base64") ++
    headerLine (lit "Content-Disposition: ")
      (lit "attachment; filename=\"" ++ encodedName ++ lit "\"") ++
    lit "\r\n" ++ att.base64Data ++ lit "\r\n"

/-- `MimeBuilder::AppendAttachments`. -/
def appendAttachments (config : MimeConfig) (email : Email) (boundary : Bytes) :
    Except Failure Bytes := do
  return (← email.attachments.mapM (appendAttachment config boundary)).flatten

/-- `MimeBuilder::BuildEmail`: the message, or `none` where it returns `false`. -/
def buildEmail (config : MimeConfig) (drawn : Drawn) (email : Email) :
    Except Failure (Option Bytes) := do
  if validateEmail email then
    let mixedBoundary := generateBoundary drawn.mixed
    let headers ← appendMainHeaders config drawn email
    if email.hasAttachments then
      return some (headers ++ multipartHeader (lit "multipart/mixed") mixedBoundary ++ lit "\r\n" ++
        (← appendBodyContent drawn email mixedBoundary) ++
        (← appendAttachments config email mixedBoundary) ++
        (lit "--" ++ mixedBoundary ++ lit "--\r\n"))
    else return some (headers ++ (← appendBodyContent drawn email mixedBoundary))
  else return none

end MailStack.Mime
