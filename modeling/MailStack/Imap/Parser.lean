import MailStack.Machinery.Bytes

/-!
# Imap/Parser — `ImapParser`: a command line cut into tag, command and arguments

The element parser keeps `m_str` and a cursor `m_pos`; only the text from the cursor on is ever
read again, so the state here is that remaining text, and `m_pos` grows exactly when it shrinks.
`parseArgs` is the one loop of the parser whose iterations need not consume anything: it takes the
number of iterations it may run, and `none` says that it is still running after them.
-/

open Bytes

namespace MailStack.Imap

/-- `ImapCommandType`. -/
inductive ImapCommandType
  | login | logout | capability | noop | select | list | lsub | status | fetch | store | create
  | delete | rename | copy | expunge | uidFetch | uidStore | uidCopy | subscribe | unsubscribe
  | close | check | unknown | startTLS
  deriving DecidableEq, Repr

/-- `ImapCommand`. -/
structure ImapCommand where
  tag : Bytes := []
  type : ImapCommandType := .unknown
  args : List Bytes := []
  deriving DecidableEq, Repr

/-- `IMAP_UTILS::ToUpper`. -/
def toUpper (s : Bytes) : Bytes := s.map upper

/-- The table of `IMAP_UTILS::StringToCommandType`. -/
def commandMap : List (Bytes × ImapCommandType) :=
  [(lit "LOGIN", .login), (lit "LOGOUT", .logout), (lit "CAPABILITY", .capability),
   (lit "NOOP", .noop), (lit "SELECT", .select), (lit "LIST", .list), (lit "LSUB", .lsub),
   (lit "STATUS", .status), (lit "FETCH", .fetch), (lit "STORE", .store),
   (lit "CREATE", .create), (lit "DELETE", .delete), (lit "RENAME", .rename),
   (lit "COPY", .copy), (lit "EXPUNGE", .expunge), (lit "UID", .uidFetch),
   (lit "SUBSCRIBE", .subscribe), (lit "UNSUBSCRIBE", .unsubscribe), (lit "CLOSE", .close),
   (lit "CHECK", .check), (lit "STARTTLS", .startTLS)]

/-- `IMAP_UTILS::StringToCommandType`. -/
def stringToCommandType (cmd : Bytes) : ImapCommandType :=
  ((commandMap.find? fun e => e.1 = toUpper cmd).map (·.2)).getD .unknown

/-! ## The element parsers

Each returns the element and the text behind it. -/

/-- `SkipWhitespace`. -/
def skipWhitespace (s : Bytes) : Bytes := s.dropWhile (· = ' '.toUInt8)

/-- Prepends a byte to the result of the rest of a scan. -/
def emit (c : UInt8) (r : Bytes × Bytes) : Bytes × Bytes := (c :: r.1, r.2)

/-- The loop of `ParseQuoted`, behind the opening quote.  `esc` says that a backslash was just
read: it is dropped if a character follows it and kept if it is the last one. -/
def parseQuotedLoop (esc : Bool) : Bytes → Bytes × Bytes
  | [] => (if esc then lit "\\" else [], [])
  | c :: s =>
    if esc then emit c (parseQuotedLoop false s)
    else if c = '"'.toUInt8 then ([], s)
    else if c = '\\'.toUInt8 then parseQuotedLoop true s
    else emit c (parseQuotedLoop false s)

/-- `ParseQuoted`. -/
def parseQuoted (s : Bytes) : Bytes × Bytes :=
  match s with
  | [] => ([], s)
  | c :: t => if c = '"'.toUInt8 then parseQuotedLoop false t else ([], s)

/-- Which of the three nested loops of `ParseList` reads the next character: the list loop itself,
the loop over a bracketed section (with `bracketDepth - 1`), or `ParseQuoted`. -/
inductive ListMode
  | plain
  | bracket (bracketDepth : ℕ)
  | quoted (esc : Bool)
  deriving DecidableEq, Repr

/-- The loops of `ParseList`, behind the opening parenthesis. The closing quote is written back
even when the input ends before it. -/
def parseListLoop : ListMode → ℕ → Bytes → Bytes × Bytes
  | .plain, 0, s => ([], s)
  | .plain, _ + 1, [] => ([], [])
  | .plain, depth + 1, c :: s =>
    if c = '('.toUInt8 then emit c (parseListLoop .plain (depth + 2) s)
    else if c = ')'.toUInt8 then emit c (parseListLoop .plain depth s)
    else if c = '['.toUInt8 then emit c (parseListLoop (.bracket 0) (depth + 1) s)
    else if c = '"'.toUInt8 then emit c (parseListLoop (.quoted false) (depth + 1) s)
    else emit c (parseListLoop .plain (depth + 1) s)
  | .bracket _, _, [] => ([], [])
  | .bracket b, depth, c :: s =>
    if c = '['.toUInt8 then emit c (parseListLoop (.bracket (b + 1)) depth s)
    else if c = ']'.toUInt8 then
      match b with
      | 0 => emit c (parseListLoop .plain depth s)
      | b + 1 => emit c (parseListLoop (.bracket b) depth s)
    else emit c (parseListLoop (.bracket b) depth s)
  | .quoted esc, _, [] => (if esc then lit "\\\"" else lit "\"", [])
  | .quoted esc, depth, c :: s =>
    if esc then emit c (parseListLoop (.quoted false) depth s)
    else if c = '"'.toUInt8 then emit c (parseListLoop .plain depth s)
    else if c = '\\'.toUInt8 then parseListLoop (.quoted true) depth s
    else emit c (parseListLoop (.quoted false) depth s)

/-- `ParseList`. -/
def parseList (s : Bytes) : Bytes × Bytes :=
  match s with
  | [] => ([], s)
  | c :: t => if c = '('.toUInt8 then emit c (parseListLoop .plain 1 t) else ([], s)

/-- The loop of `ParseLiteral`, behind the opening brace. -/
def parseLiteralLoop : Bytes → Bytes × Bytes
  | [] => ([], [])
  | c :: s => if c = '}'.toUInt8 then ([c], s) else emit c (parseLiteralLoop s)

/-- `ParseLiteral`. -/
def parseLiteral (s : Bytes) : Bytes × Bytes :=
  match s with
  | [] => ([], s)
  | c :: t => if c = '{'.toUInt8 then emit c (parseLiteralLoop t) else ([], s)

/-- The characters `ParseAtom` stops at. -/
def stopsAtom (c : UInt8) : Bool :=
  c = ' '.toUInt8 || c = '('.toUInt8 || c = ')'.toUInt8 || c = '"'.toUInt8 || c = '{'.toUInt8

/-- `ParseAtom`. -/
def parseAtom (s : Bytes) : Bytes × Bytes :=
  (s.takeWhile (!stopsAtom ·), s.dropWhile (!stopsAtom ·))

/-- `ParseElement`. -/
def parseElement (s : Bytes) : Bytes × Bytes :=
  match s with
  | [] => ([], s)
  | c :: _ =>
    if c = '"'.toUInt8 then parseQuoted s
    else if c = '('.toUInt8 then parseList s
    else if c = '{'.toUInt8 then parseLiteral s
    else parseAtom s

/-! ## `ParseArgs` -/

/-- One iteration of the loop of `ParseArgs`: the remaining text and the arguments after it. -/
def parseArgsStep (s : Bytes) (args : List Bytes) : Bytes × List Bytes :=
  match skipWhitespace s with
  | [] => ([], args)
  | c :: t =>
    let elem := parseElement (c :: t)
    (skipWhitespace elem.2, if elem.2.length < (c :: t).length then args ++ [elem.1] else args)

/-- `ParseArgs`, allowed `n` iterations of its loop. -/
def parseArgs : ℕ → Bytes → List Bytes → Option (List Bytes)
  | _, [], args => some args
  | 0, _ :: _, _ => none
  | n + 1, c :: s, args =>
    parseArgs n (parseArgsStep (c :: s) args).1 (parseArgsStep (c :: s) args).2

/-- `ParseArguments`. -/
def parseArguments (n : ℕ) (args : Bytes) : Option (List Bytes) := parseArgs n args []

/-! ## `Parse` -/

/-- `rest` cut into the command word and the argument text. -/
def splitCommand (rest : Bytes) : Bytes × Bytes :=
  (cut ' '.toUInt8 rest).getD (rest, [])

/-- The command type of `UID <sub>`, for the three subcommands the parser knows. -/
def uidSubCommand (sub : Bytes) : Option ImapCommandType :=
  if toUpper sub = lit "FETCH" then some .uidFetch
  else if toUpper sub = lit "STORE" then some .uidStore
  else if toUpper sub = lit "COPY" then some .uidCopy
  else none

/-- `ImapParser::Parse`, allowed `n` iterations of the argument loop. The result of
`TrimParentheses(argsStr)` is dropped. -/
def parse (n : ℕ) (line : Bytes) : Option ImapCommand :=
  if line = [] then some {}
  else match cut ' '.toUInt8 line with
    | none => some {}
    | some (tag, rest) =>
      if toUpper (splitCommand rest).1 = lit "UID" then
        match cut ' '.toUInt8 (splitCommand rest).2 with
        | none => some { tag }
        | some (sub, restArgs) =>
          match uidSubCommand sub with
          | none => some { tag }
          | some type => (parseArguments n restArgs).map fun args => { tag, type, args }
      else
        (parseArguments n (splitCommand rest).2).map fun args =>
          { tag, type := stringToCommandType (splitCommand rest).1, args }

/-- The part of a line that `Parse` hands to `ParseArguments`: the text behind the command word,
behind the subcommand word for the `UID` commands, and nothing where no argument is read. -/
def argumentText (line : Bytes) : Option Bytes :=
  (cut ' '.toUInt8 line).bind fun p =>
    if toUpper (splitCommand p.2).1 = lit "UID" then
      (cut ' '.toUInt8 (splitCommand p.2).2).bind fun q => (uidSubCommand q.1).map fun _ => q.2
    else some (splitCommand p.2).2

end MailStack.Imap
