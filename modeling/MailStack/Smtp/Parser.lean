import MailStack.Machinery.Bytes

/-!
# Smtp/Parser — `SmtpParser::Parse` and the reply texts of `SmtpResponse`
-/

open Bytes

namespace MailStack.Smtp

/-- `SmtpCommandType`. -/
inductive SmtpCommandType
  | helo | ehlo | mail | rcpt | data | rset | noop | quit | unknown | starttls | auth
  deriving DecidableEq, Repr

/-- `SmtpCommand`. -/
structure SmtpCommand where
  type : SmtpCommandType := .unknown
  argument : Bytes := []
  deriving DecidableEq, Repr

/-- `ToUpper`. -/
def toUpper (s : Bytes) : Bytes := s.map upper

/-- The blanks `Trim` removes. -/
def isBlank (c : UInt8) : Bool :=
  c = ' '.toUInt8 || c = '\t'.toUInt8 || c = '\r'.toUInt8 || c = '\n'.toUInt8

/-- `Trim`. -/
def trim (s : Bytes) : Bytes := ((s.dropWhile isBlank).reverse.dropWhile isBlank).reverse

/-- `StripAngleBrackets`. -/
def stripAngleBrackets (s : Bytes) : Bytes :=
  if 2 ≤ s.length ∧ s.head? = some '<'.toUInt8 ∧ s.getLast? = some '>'.toUInt8 then
    (s.drop 1).dropLast
  else s

/-- The line without one trailing CR. -/
def dropCR (line : Bytes) : Bytes :=
  if line.getLast? = some '\r'.toUInt8 then line.dropLast else line

/-- The argument of `AUTH`: the mechanism in upper case, the initial response untouched. -/
def authArgument (arg : Bytes) : Bytes :=
  match cut ' '.toUInt8 arg with
  | none => toUpper arg
  | some (mechanism, response) => toUpper mechanism ++ lit " " ++ response

/-- `SmtpParser::Parse`. -/
def parse (line : Bytes) : SmtpCommand :=
  let clean := dropCR line
  let upper := toUpper clean
  if lit "HELO " <+: upper then { type := .helo, argument := trim (clean.drop 5) }
  else if lit "EHLO " <+: upper then { type := .ehlo, argument := trim (clean.drop 5) }
  else if lit "MAIL FROM:" <+: upper then
    { type := .mail, argument := stripAngleBrackets (trim (clean.drop 10)) }
  else if lit "RCPT TO:" <+: upper then
    { type := .rcpt, argument := stripAngleBrackets (trim (clean.drop 8)) }
  else if upper = lit "DATA" then { type := .data }
  else if upper = lit "RSET" then { type := .rset }
  else if upper = lit "NOOP" then { type := .noop }
  else if upper = lit "QUIT" then { type := .quit }
  else if upper = lit "STARTTLS" then { type := .starttls }
  else if lit "AUTH " <+: upper then { type := .auth, argument := authArgument (clean.drop 5) }
  else {}

example : parse (lit "mail from:<alice@x>\r") = { type := .mail, argument := lit "alice@x" } := by
  decide

/-! ## `SmtpResponse` -/

namespace SmtpResponse

def ok : Bytes := lit "250 OK\r\n"
def hello (domain : Bytes) : Bytes := lit "250 " ++ domain ++ lit " greets you\r\n"
def ehlo (domain : Bytes) (tlsActive : Bool) : Bytes :=
  lit "250-" ++ domain ++ lit "\r\n" ++ (if tlsActive then [] else lit "250-STARTTLS\r\n") ++
    lit "250 AUTH LOGIN PLAIN\r\n"
def startMailInput : Bytes := lit "354 End data with <CR><LF>.<CR><LF>\r\n"
def messageStorageFailed : Bytes := lit "452 Message storage failed\r\n"
def badSequence : Bytes := lit "503 Bad sequence of commands\r\n"
def messageTooLarge : Bytes := lit "552 Message size exceeds fixed maximum\r\n"
def syntaxError : Bytes := lit "500 Syntax error\r\n"
def notImplemented : Bytes := lit "502 Command not implemented\r\n"
def closing : Bytes := lit "221 Bye\r\n"
def startTls : Bytes := lit "220 Ready to start TLS\r\n"
def authChallenge (b64 : Bytes) : Bytes := lit "334 " ++ b64 ++ lit "\r\n"
def authSucceeded : Bytes := lit "235 Authentication successful\r\n"
def authFailed : Bytes := lit "535 Authentication credentials invalid\r\n"
def authRequired : Bytes := lit "530 Authentication required\r\n"
def encryptionRequired : Bytes := lit "538 Encryption required for requested auth mechanism\r\n"
def unrecognizedAuthMech : Bytes := lit "504 Unrecognized authentication mechanism\r\n"

/-- The three digits a reply starts with. -/
def code (reply : Bytes) : Bytes := reply.take 3

end SmtpResponse

end MailStack.Smtp
