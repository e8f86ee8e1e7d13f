import MailStack.Mime.Builder
import MailStack.Smtp.Session
import MailStack.Store.Accounts

/-!
# Smtp/SaveMessage — `SmtpSession::SaveMessage`, the delivery loop

The loop writes to two places, the database and the mail files; `Server` is both, and a program over
it may fail at each of its steps: at a query, at a locked write, at each step of `WriteMailToFile`
and of the destructor of its stream.

`saveTo` is the body of the loop for one recipient: `false` stands for a `continue`.
-/

open Bytes Prog MailStack.Store
open MailStack.Mime (Email Tm decimal hexDigits parseEmail twoDigits)

namespace MailStack.Smtp

/-! ## The database and the files -/

/-- The database, and the mail files by their path. -/
structure Server where
  db : DB
  files : Bytes → Option Bytes

/-- A step that may fail. -/
inductive ServerWrite
  | database (w : StoreWrite)
  /-- A `SELECT`: it changes nothing. -/
  | select
  /-- `std::filesystem::create_directories`. -/
  | createDirectories (dir : Bytes)
  /-- `std::ofstream(path)`: the file is there, and empty. -/
  | openFile (path : Bytes)
  | appendFile (path text : Bytes)

/-- **What a step does**; a path ends before its first NUL, as a text does. -/
def ServerWrite.apply : ServerWrite → Server → Except Bytes (Server × Answer)
  | .database w, s => (w.apply s.db).map fun p => ({ s with db := p.1 }, p.2)
  | .select, s => .ok (s, {})
  | .createDirectories _, s => .ok (s, {})
  | .openFile path, s => .ok ({ s with files := Function.update s.files (cstr path) (some []) }, {})
  | .appendFile path text, s =>
    .ok ({ s with
      files := Function.update s.files (cstr path) ((s.files (cstr path)).map (· ++ text)) }, {})

/-- The database and the files as a store. -/
def serverStore : SharedStore Server ServerWrite Bytes Answer := ⟨ServerWrite.apply⟩

/-- A program over both. -/
abbrev ServerM (α : Type) := Prog Server ServerWrite Bytes Answer α

/-- An operation of a repository. -/
def ofStore {α : Type} (p : StoreM α) : ServerM α := p.embed Server.db .database

/-- A lookup; one that fails finds nothing. -/
def lookup {α : Type} (f : DB → Option α) : ServerM (Option α) := do
  match ← locked .select with
  | .error _ => return none
  | .ok _ => query fun s => f s.db

/-! ## `WriteMailToFile`

The text goes through the buffer of a `std::ofstream`.  What `ofs.write` writes out is tested before
the path is returned; the rest is written when the stream is destroyed, where nothing tests it. -/

/-- What `SaveMessage` takes from the clock, from `std::random_device` and from libsodium for one
recipient; how much of the text `ofs.write` writes out, the rest being left in the buffer; and how
much of a text is in the file when it cannot be written out in full. -/
structure Chance where
  salt : Bytes
  millis : ℕ
  digits : Fin 16 → Fin 16
  now : Tm
  written : ℕ
  torn : ℕ

/-- Zeros all through: the whole text is left in the buffer. -/
def noChance : Chance where
  salt := []
  millis := 0
  digits i := ⟨0, i.pos⟩
  now := ⟨⟨0, by decide⟩, 1, ⟨0, by decide⟩, 1970, 0, 0, 0, false, 0⟩
  written := 0
  torn := 0

/-- `CurrentUtcTimestamp`: `"%Y-%m-%d %H:%M:%S"`. -/
def currentUtcTimestamp (tm : Tm) : Bytes :=
  decimal tm.year ++ lit "-" ++ twoDigits (tm.mon + 1) ++ lit "-" ++ twoDigits tm.mday ++ lit " " ++
    twoDigits tm.hour ++ lit ":" ++ twoDigits tm.min ++ lit ":" ++ twoDigits tm.sec

/-- `GenerateMailFilename`. -/
def generateMailFilename (c : Chance) : Bytes :=
  decimal c.millis ++ lit "_" ++ hexDigits c.digits ++ lit ".eml"

/-- `mail_dir + "/" + GenerateMailFilename()`. -/
def mailPath (c : Chance) (mailDir : Bytes) : Bytes := mailDir ++ lit "/" ++ generateMailFilename c

/-- Bytes go to the file; an attempt that fails leaves a part of them there, and not all. -/
def writeOut (c : Chance) (path text : Bytes) : ServerM Bool :=
  if text = [] then return true
  else do
    match ← locked (.appendFile path text) with
    | .ok _ => return true
    | .error _ =>
      let _ ← locked (.appendFile path (text.dropLast.take c.torn))
      return false

/-- `WriteMailToFile`, up to the destructor of its stream: the path, empty where it failed, and
whether the destructor could write what was left in the buffer — which no caller is told. -/
def writeAndClose (c : Chance) (mailDir body : Bytes) : ServerM (Bytes × Bool) := do
  match ← locked (.createDirectories mailDir) with
  | .error _ => return ([], true)
  | .ok _ =>
    let path := mailPath c mailDir
    match ← locked (.openFile path) with
    | .error _ => return ([], true)
    | .ok _ =>
      let ofs ← writeOut c path (body.take c.written)
      if ofs then
        let closed ← writeOut c path (body.drop c.written)
        return (path, closed)
      else return ([], true)

/-- `WriteMailToFile`: the path, and the empty text where it failed. -/
def writeMailToFile (c : Chance) (mailDir body : Bytes) : ServerM Bytes := do
  let (path, _) ← writeAndClose c mailDir body
  return path

/-! ## The message row -/

/-- `mime_structure`. -/
def mimeStructure (parsed : Email) : Bytes :=
  if parsed.attachments ≠ [] then
    lit "multipart/mixed; parts=" ++ decimal (1 + parsed.attachments.length) ++
      lit "; attachments=" ++ decimal parsed.attachments.length
  else if parsed.htmlText ≠ [] then lit "multipart/alternative; parts=2; attachments=0"
  else lit "text/plain"

/-- `if (!s.empty()) column = s`. -/
def nonEmpty (s : Bytes) : Option Bytes := if s = [] then none else some s

/-- The `Message` that is delivered; `parsed` is there where `mime_ok`. -/
def newMessage (c : Chance) (sender body path : Bytes) (parsed : Option Email) (userId : ℤ) :
    Message where
  userId := userId
  folderId := 0
  uid := 0
  content :=
    { rawFilePath := path
      sizeBytes := body.length
      internalDate := currentUtcTimestamp c.now
      fromAddress := (parsed.bind fun e => nonEmpty e.sender).getD sender
      subject := parsed.bind fun e => nonEmpty e.subject
      messageIdHeader := parsed.bind fun e => nonEmpty e.messageId
      inReplyTo := parsed.bind fun e => nonEmpty e.inReplyTo
      referencesHeader := parsed.bind fun e => nonEmpty e.references
      dateHeader := parsed.bind fun e => nonEmpty e.date
      mimeStructure := parsed.bind fun e => nonEmpty (mimeStructure e) }

/-! ## The loop -/

/-- `findByUsername`, `registerUser` where there is no such user, and `findByUsername` again. -/
def findOrRegister (P : PasswordHash) (username salt : Bytes) : ServerM (Option User) := do
  match ← lookup (UserDAL.findByUsername · username) with
  | some user => return some user
  | none =>
    let newUser : User := { username, passwordHash := lit "smtp_auto" }
    match ← ofStore (UserRepository.registerUser P newUser [] salt) with
    | .error _ => return none
    | .ok _ => lookup (UserDAL.findByUsername · username)

/-- `add_mime_recipients`: the results of `addRecipient` are ignored. -/
def addMimeRecipients (messageId : ℤ) (recipientAddr : Bytes) (type : RecipientType) :
    List Bytes → ServerM Unit
  | [] => return ()
  | addr :: addrs =>
    if addr = [] ∨ type = .to ∧ addr = recipientAddr then
      addMimeRecipients messageId recipientAddr type addrs
    else do
      let _ ← ofStore (MessageRepository.addRecipient { messageId, address := addr, type })
      addMimeRecipients messageId recipientAddr type addrs

/-- The recipients of a delivered message. -/
def addRecipients (messageId : ℤ) (recipientAddr : Bytes) (parsed : Option Email) :
    ServerM Unit := do
  let _ ← ofStore (MessageRepository.addRecipient
    { messageId, address := recipientAddr, type := .to })
  match parsed with
  | none => return ()
  | some e =>
    addMimeRecipients messageId recipientAddr .to e.to
    addMimeRecipients messageId recipientAddr .cc e.cc
    addMimeRecipients messageId recipientAddr .bcc e.bcc

/-- `"mailstore/" + username`. -/
def mailDir (username : Bytes) : Bytes := lit "mailstore/" ++ username

/-- The body of the loop. -/
def saveTo (P : PasswordHash) (sender body : Bytes) (parsed : Option Email) (c : Chance)
    (recipientAddr : Bytes) : ServerM Bool := do
  let username := extractUsername recipientAddr
  match (← findOrRegister P username c.salt).bind (·.id) with
  | none => return false
  | some userId =>
    match (← lookup (FolderDAL.findByName · userId (lit "INBOX"))).bind (·.id) with
    | none => return false
    | some inboxId =>
      let path ← writeMailToFile c (mailDir username) body
      if path = [] then return false
      else
        let msg := newMessage c sender body path parsed userId
        match ← ofStore (ofMessages (MessageRepository.deliver msg inboxId)) with
        | .error _ => return false
        | .ok delivered =>
          addRecipients (delivered.id.getD 0) recipientAddr parsed
          return true

/-- The loop of `SaveMessage`, with `any_saved`. -/
def saveLoop (P : PasswordHash) (sender body : Bytes) (parsed : Option Email) :
    (ℕ → Chance) → List Bytes → (anySaved : Bool) → ServerM Bool
  | _, [], anySaved => return anySaved
  | chances, recipientAddr :: recipients, anySaved => do
    let saved ← saveTo P sender body parsed (chances 0) recipientAddr
    saveLoop P sender body parsed (fun n => chances (n + 1)) recipients (anySaved || saved)

/-- What `SaveMessage` knows of the MIME structure of the body: nothing without a logger, and
nothing where `ParseEmail` fails. -/
def parsedBody (logger : Bool) (body : Bytes) : Option Email :=
  let r := parseEmail body {}
  if logger ∧ r.1 then some r.2 else none

/-- `SaveMessage`. -/
def saveMessage (P : PasswordHash) (logger : Bool) (chances : ℕ → Chance) (sender : Bytes)
    (recipients : List Bytes) (body : Bytes) : ServerM Bool :=
  if recipients = [] then return false
  else saveLoop P sender body (parsedBody logger body) chances recipients false

/-- `UserRepository::authorize`, whose lookup may fail. -/
def authorize (P : PasswordHash) (username password : Bytes) : ServerM Bool := do
  match ← lookup (UserDAL.findByUsername · username) with
  | none => return false
  | some user => return P.verify user.passwordHash password

/-! ## The repositories of a session -/

/-- What is not the session's to decide at one request: what others did to the database and the
files since the last one, which steps fail, and what `SaveMessage` draws. -/
structure Moment where
  others : Server → Server
  faults : ℕ → Option Bytes
  chances : ℕ → Chance

/-- The world of a session: the server, and what is to come. -/
structure World where
  server : Server
  moments : ℕ → Moment

/-- The server as a request finds it. -/
def World.found (w : World) : Faulty Server Bytes :=
  ((w.moments 0).others w.server, (w.moments 0).faults)

/-- The world once a request was carried out. -/
def World.after (w : World) {α : Type} (p : ServerM α) : World where
  server := (runFaults serverStore p w.found).1.1
  moments n := w.moments (n + 1)

/-- **The repositories**, under every course of failures and of what others do between two
requests. -/
def repo (P : PasswordHash) (logger : Bool) : Repo World where
  authorize w username password :=
    ((runFaults serverStore (authorize P username password) w.found).2,
      w.after (authorize P username password))
  saveMessage w sender recipients body :=
    let p := saveMessage P logger (w.moments 0).chances sender recipients body
    (.ok (runFaults serverStore p w.found).2, w.after p)

end MailStack.Smtp
