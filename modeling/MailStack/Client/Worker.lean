import MailStack.Client.Payload
import MailStack.Client.Quote
import MailStack.Client.Summaries

/-!
# Client/Worker — `MailWorker`, and the server at the other end of its connection

The worker takes one command after the other.  It remembers a connection and the folder it takes for
selected; what is selected is kept by the dispatcher at the other end.  A connection that fails is
replaced in the middle of a command, and the request sent once more.

What the transport does is not the worker's to decide.  `Surroundings` says it for one command: whether a
request is sent, served and answered, what becomes of each attempt to reconnect, and what others
have made of the database by the time a request is served.  An answer too large for a frame is one
that does not arrive.
-/

open Bytes

namespace MailStack.Client

open Store Imap Proto

/-! ## The worker -/

/-- The members that `handleConnect` stores. -/
structure Settings where
  smtpHost : Bytes := []
  smtpPort : UInt16 := 0
  smtpUsername : Bytes := []
  imapHost : Bytes := []
  imapPort : UInt16 := 0
  imapUsername : Bytes := []
  imapPassword : Bytes := []
  deriving DecidableEq, Repr

/-- The first check of `reconnectSession`. -/
def Settings.initialized (s : Settings) : Bool :=
  s.smtpHost ≠ [] && s.smtpPort ≠ 0 && s.smtpUsername ≠ [] && s.imapHost ≠ [] && s.imapPort ≠ 0

/-- The members of `MailWorker`, and the server's database. -/
structure Worker where
  /-- There is an `m_connector`. -/
  connector : Bool := false
  settings : Settings := {}
  /-- The dispatcher that `m_imapConnection` leads to. -/
  imapConnection : Option Dispatcher := none
  tagCounter : UInt32 := 0
  currentFolder : Bytes := []
  db : DB

/-- What becomes of one request. -/
structure Wire where
  /-- What `Send` returns. -/
  sent : Bool := true
  /-- What others have made of the database when it is served; `none` where it never is. -/
  served : Option (DB → DB) := some id
  /-- Whether `Receive` returns the answer. -/
  arrives : Bool := true

/-- What becomes of one iteration of the loop in `reconnectSession`. -/
inductive Attempt
  /-- `LOGIN` is not served; up to two tags were taken. -/
  | failed (tags : Fin 3)
  /-- `LOGIN` is served, after `others`. -/
  | login (others : DB → DB) (arrives : Bool)

/-- What happens in one call of `imapExchange`: in a reconnect before its first request, to that
request, in the reconnect when it fails, and to the second. -/
structure Exchange where
  before : List Attempt := []
  first : Wire := {}
  between : List Attempt := []
  second : Wire := {}

/-- What happens around the worker while it handles one command. -/
structure Surroundings where
  /-- In the reconnect of the handler itself.  The attempts end where `m_stopRequested` is seen. -/
  connect : List Attempt := []
  /-- In its calls of `imapExchange`, by their place in the handler. -/
  exchange : ℕ → Exchange := fun _ => {}
  /-- What `m_connector->Connect` to the SMTP server returns, before and after a reconnect. -/
  smtpConnect : Bool := true
  smtpReconnect : Bool := true
  /-- How the SMTP dialogue ends, and what it leaves in the database. -/
  smtp : Except Bytes Unit := .ok ()
  delivered : DB → DB := id
  /-- What `handleDownloadAttachment` makes of a payload: parsing, decoding and writing the file. -/
  save : Bytes → Except Bytes Unit := fun _ => .ok ()

/-! ## Exchanges -/

/-- The server's answer to a line, and what it leaves. -/
def respond (S : Services) (line : Bytes) (d : Dispatcher) (db : DB) :
    DB × Option Bytes × Dispatcher :=
  match parse line.length line with
  | none => (db, none, d)
  | some cmd =>
    let r := serve (handleCommand S cmd) d db
    (r.1, r.2.1.toOption, r.2.2)

/-- `loginImap`, once `LOGIN` was sent and served: the dispatcher, if the client is let in.
`STARTTLS` had taken a tag too, and left the dispatcher as it was. -/
def loginImap (S : Services) (others : DB → DB) (arrives : Bool) (w : Worker) : Worker :=
  let n := w.tagCounter + 2
  let tag := nextTag n.toNat
  let r := respond S
    (commandLine tag (lit "LOGIN") [w.settings.imapUsername, w.settings.imapPassword]) {}
    (others w.db)
  let accepted := r.2.1.any fun reply => (tag ++ lit " OK").isPrefixOf (stripLineEnd reply)
  { w with
    db := r.1
    tagCounter := n
    imapConnection := if arrives && accepted then some r.2.2 else none }

/-- The loop of `reconnectSession`. -/
def reconnectLoop (S : Services) : List Attempt → Worker → Except Bytes Unit × Worker
  | [], w => (.error (lit "Reconnect canceled"), w)
  | .failed tags :: attempts, w =>
    reconnectLoop S attempts { w with
      imapConnection := none
      tagCounter := w.tagCounter + UInt32.ofNat tags }
  | .login others arrives :: attempts, w =>
    let w := loginImap S others arrives w
    if w.imapConnection.isSome then (.ok (), { w with tagCounter := 0, currentFolder := [] })
    else reconnectLoop S attempts w

/-- `reconnectSession`. -/
def reconnectSession (S : Services) (attempts : List Attempt) (w : Worker) :
    Except Bytes Unit × Worker :=
  if w.settings.initialized then reconnectLoop S attempts { w with connector := true }
  else (.error (lit "Reconnection settings are not initialized"), w)

/-- `ensureImapConnected`. -/
def ensureImapConnected (S : Services) (attempts : List Attempt) (w : Worker) :
    Except Bytes Unit × Worker :=
  if w.imapConnection.isSome then (.ok (), w) else reconnectSession S attempts w

/-- One request of `imapExchange`, on the connection there is: the verdict and the lines before it,
or `none` where the transport fails. -/
def request (S : Services) (wire : Wire) (cmd : Bytes) (w : Worker) :
    Option (Bool × List Bytes) × Worker :=
  let n := w.tagCounter + 1
  let tag := nextTag n.toNat
  let w := { w with tagCounter := n }
  match w.imapConnection, wire.served with
  | some d, some others =>
    let r := respond S (tag ++ lit " " ++ cmd) d (others w.db)
    let reply := if wire.sent && wire.arrives then r.2.1 else none
    (reply.bind fun reply => readReply tag [] [stripLineEnd reply],
      { w with db := r.1, imapConnection := some r.2.2 })
  | _, _ => (none, w)

/-- The lines of a reply that was `OK`. -/
def okLines (r : Bool × List Bytes) : Option (List Bytes) := if r.1 then some r.2 else none

/-- `imapExchange`: the untagged lines, if the command succeeded. -/
def imapExchange (S : Services) (x : Exchange) (cmd : Bytes) (w : Worker) :
    Option (List Bytes) × Worker :=
  match ensureImapConnected S x.before w with
  | (.error _, w) => (none, w)
  | (.ok _, w) =>
    match request S x.first cmd w with
    | (some r, w) => (okLines r, w)
    | (none, w) =>
      match reconnectSession S x.between w with
      | (.error _, w) => (none, w)
      | (.ok _, w) =>
        let r := request S x.second cmd w
        (r.1.bind okLines, r.2)

/-! ## Handlers -/

/-- A handler's code: it ends with the text of a failure, or dereferences a null pointer. -/
abbrev WorkerM := ExceptT Bytes (StateT Worker Option)

section Primitives

variable {α : Type}

/-- A function that may fail. -/
def call (f : Worker → Except Bytes α × Worker) : WorkerM α :=
  ExceptT.mk fun w => some (f w)

/-- A function that always returns. -/
def use (f : Worker → α × Worker) : WorkerM α := ExceptT.lift fun w => some (f w)

/-- A null pointer is dereferenced. -/
def undefined : WorkerM α := ExceptT.mk fun _ => none

end Primitives

/-- An exchange whose failure ends the handler with this text. -/
def exchange (S : Services) (x : Exchange) (cmd error : Bytes) : WorkerM (List Bytes) := do
  match ← use (imapExchange S x cmd) with
  | some lines => return lines
  | none => throw error

/-- `ensureMailboxSelected`. -/
def ensureMailboxSelected (S : Services) (x : Exchange) (folderName : Bytes) : WorkerM Unit := do
  if (← get).currentFolder = folderName then return
  else
    let _ ← exchange S x (lit "SELECT " ++ quoteImap folderName)
      (lit "SELECT " ++ folderName ++ lit " failed")
    modify fun w => { w with currentFolder := folderName }

/-- What the handlers that act on a folder begin with. -/
def ensureSelected (S : Services) (o : Surroundings) (folderName : Bytes) : WorkerM Unit := do
  call (ensureImapConnected S o.connect)
  ensureMailboxSelected S (o.exchange 0) folderName

/-- `fetchFlagsBySeq`. -/
def fetchFlagsBySeq (S : Services) (x : Exchange) (mailId : ℤ) : WorkerM (List Bytes) := do
  return (← use (imapExchange S x (lit "FETCH " ++ decimal mailId ++ lit " (FLAGS)"))).getD []

/-- `fetchMessagePayloadBySeq`, with the items left to try. -/
def fetchMessagePayloadBySeq (S : Services) (mailId : ℤ) :
    List (Bytes × Exchange) → WorkerM (Option Bytes)
  | [] => return none
  | (fetchItems, x) :: items => do
    let lines ← use (imapExchange S x
      (lit "FETCH " ++ decimal mailId ++ lit " (" ++ fetchItems ++ lit ")"))
    let candidate := (lines.map extractRfc822Payload).getD []
    if candidate = [] then fetchMessagePayloadBySeq S mailId items else return some candidate

/-- The items that `fetchMessagePayloadBySeq` tries. -/
def payloadItems (o : Surroundings) : List (Bytes × Exchange) :=
  [(lit "RFC822", o.exchange 1), (lit "BODY[]", o.exchange 2), (lit "BODY.PEEK[]", o.exchange 3)]

/-- `NormalizeFlag`. -/
def normalizeFlag (raw : Bytes) : Bytes :=
  if raw = [] ∨ raw.head? = some '\\'.toUInt8 ∨ raw.head? = some '$'.toUInt8 then raw
  else if Mime.toLower raw = lit "seen" then lit "\\Seen"
  else if Mime.toLower raw = lit "flagged" ∨ Mime.toLower raw = lit "important" then lit "\\Flagged"
  else if Mime.toLower raw = lit "deleted" then lit "\\Deleted"
  else raw

/-- `IsStarredFolder`. -/
def isStarredFolder (folderName : Bytes) : Bool := Mime.toLower folderName = lit "starred"

/-- `ConnectCommand`. -/
structure ConnectCommand where
  smtpHost : Bytes
  smtpPort : UInt16
  imapHost : Bytes
  imapPort : UInt16
  username : Bytes
  password : Bytes

section Handlers

variable (S : Services) (o : Surroundings)

def handleConnect (cmd : ConnectCommand) : WorkerM Unit := do
  modify fun w => { w with
    connector := true
    settings := ⟨cmd.smtpHost, cmd.smtpPort, cmd.username, cmd.imapHost, cmd.imapPort, cmd.username,
      cmd.password⟩ }
  call (reconnectSession S o.connect)
  modify fun w => { w with tagCounter := 0, currentFolder := [] }

/-- `handleDisconnect`: `m_imapConnection->Close()` has no meaning where a cancelled reconnect
left no connection. -/
def handleDisconnect : WorkerM Unit := do
  if (← get).imapConnection.isSome then
    let _ ← use (imapExchange S (o.exchange 0) (lit "LOGOUT"))
    if (← get).imapConnection = none then undefined
  modify fun w => { w with
    imapConnection := none
    connector := false
    currentFolder := []
    tagCounter := 0
    settings := {} }

def handleSendMail : WorkerM Unit := do
  let w ← get
  if w.settings.smtpHost = [] ∨ w.connector = false ∨ w.settings.smtpUsername = [] then
    throw (lit "Not connected - call connect first")
  if o.smtpConnect = false then
    match ← use fun w => (reconnectSession S o.connect w) with
    | .error _ => throw (lit "Failed to reconnect to SMTP")
    | .ok _ => if o.smtpReconnect = false then throw (lit "Failed to reconnect to SMTP")
  modify fun w => { w with db := o.delivered w.db }
  call fun w => (o.smtp, w)

def handleFetchFolders : WorkerM (List Bytes) := do
  call (ensureImapConnected S o.connect)
  return fetchFolders (← exchange S (o.exchange 0) (lit "LIST \"\" \"*\"") (lit "LIST failed"))

def handleFetchMails (folderName : Bytes) (offset limit : UInt32) : WorkerM (List MailSummary) := do
  ensureSelected S o folderName
  let first := offset + 1
  let last := offset + max 1 limit
  return fetchMails (← exchange S (o.exchange 1)
    (lit "FETCH " ++ pageRange first.toNat last.toNat ++ lit " " ++ summaryItems)
    (lit "FETCH failed"))

/-- `handleFetchMail`: the flags and the payload it goes on to parse. -/
def handleFetchMail (mailId : ℤ) : WorkerM ((Bool × Bool) × Bytes) := do
  call (ensureImapConnected S o.connect)
  let lines ← fetchFlagsBySeq S (o.exchange 0) mailId
  match ← fetchMessagePayloadBySeq S mailId (payloadItems o) with
  | some rawEmail => return (extractFlags lines, rawEmail)
  | none => throw (lit "FETCH failed or returned empty payload")

/-- `STORE` of one mail. -/
def storeMail (x : Exchange) (mailId : ℤ) (flags : Bytes) : WorkerM Unit := do
  let _ ← exchange S x (lit "STORE " ++ decimal mailId ++ lit " " ++ flags) (lit "STORE failed")

/-- `STORE` of the mark and `EXPUNGE`, which several handlers end with. -/
def expungeMail (first second : Exchange) (mailId : ℤ) : WorkerM Unit := do
  storeMail S first mailId (lit "+FLAGS (\\Deleted)")
  let _ ← exchange S second (lit "EXPUNGE") (lit "EXPUNGE failed")

/-- `COPY` of one mail. -/
def copyMail (x : Exchange) (mailId : ℤ) (targetFolder : Bytes) : WorkerM Unit := do
  let _ ← exchange S x (lit "COPY " ++ decimal mailId ++ lit " " ++ quoteImap targetFolder)
    (lit "COPY failed")

def handleDeleteMail (mailId : ℤ) : WorkerM Unit := do
  ensureSelected S o (lit "INBOX")
  expungeMail S (o.exchange 1) (o.exchange 2) mailId

def handleMarkMailRead (mailId : ℤ) : WorkerM Unit := do
  ensureSelected S o (lit "INBOX")
  storeMail S (o.exchange 1) mailId (lit "+FLAGS (\\Seen)")

def handleMoveMail (mailId : ℤ) (targetFolder : Bytes) : WorkerM Unit := do
  ensureSelected S o (lit "INBOX")
  if targetFolder = [] then throw (lit "Target folder is empty")
  copyMail S (o.exchange 1) mailId targetFolder
  expungeMail S (o.exchange 2) (o.exchange 3) mailId

def handleDownloadAttachment (mailId : ℤ) (attachmentIndex : ℕ) : WorkerM Unit := do
  call (ensureImapConnected S o.connect)
  if attachmentIndex = 0 then throw (lit "Attachment index is 1-based and must be > 0")
  ensureMailboxSelected S (o.exchange 0) (lit "INBOX")
  match ← fetchMessagePayloadBySeq S mailId (payloadItems o) with
  | some rawEmail => call fun w => (o.save rawEmail, w)
  | none => throw (lit "FETCH failed")

def handleCreateFolder (folderName : Bytes) : WorkerM Unit := do
  call (ensureImapConnected S o.connect)
  let _ ← exchange S (o.exchange 0) (lit "CREATE " ++ quoteImap folderName) (lit "CREATE failed")

def handleDeleteFolder (folderName : Bytes) : WorkerM Unit := do
  call (ensureImapConnected S o.connect)
  let _ ← exchange S (o.exchange 0) (lit "DELETE " ++ quoteImap folderName) (lit "DELETE failed")
  if (← get).currentFolder = folderName then modify fun w => { w with currentFolder := [] }

def handleAddLabel (mailId : ℤ) (label : Bytes) : WorkerM Unit := do
  ensureSelected S o (lit "INBOX")
  storeMail S (o.exchange 1) mailId (lit "+FLAGS (" ++ normalizeFlag label ++ lit ")")

def handleRemoveLabel (mailId : ℤ) (label : Bytes) : WorkerM Unit := do
  ensureSelected S o (lit "INBOX")
  storeMail S (o.exchange 1) mailId (lit "-FLAGS (" ++ normalizeFlag label ++ lit ")")

/-- `handleMarkMailStarred`: an error of creating the folder is ignored. -/
def handleMarkMailStarred (mailId : ℤ) (starred : Bool) : WorkerM Unit := do
  ensureSelected S o (lit "INBOX")
  let targetFolder := if starred then lit "Starred" else lit "INBOX"
  if starred = false ∧ isStarredFolder (← get).currentFolder = false then return
  else
    if starred then
      let _ ← use (imapExchange S (o.exchange 1) (lit "CREATE " ++ quoteImap targetFolder))
    copyMail S (o.exchange 2) mailId targetFolder
    expungeMail S (o.exchange 3) (o.exchange 4) mailId

def handleMarkMailImportant (mailId : ℤ) (important : Bool) : WorkerM Unit := do
  ensureSelected S o (lit "INBOX")
  storeMail S (o.exchange 1) mailId
    (if important then lit "+FLAGS (\\Flagged)" else lit "-FLAGS (\\Flagged)")

end Handlers

/-! ## Commands -/

/-- `MailCommand`. -/
inductive MailCommand
  | connect (cmd : ConnectCommand)
  | disconnect
  | sendMail
  | fetchMails (folderName : Bytes) (offset limit : UInt32)
  | fetchMail (mailId : ℤ)
  | deleteMail (mailId : ℤ)
  | markMailRead (mailId : ℤ)
  | moveMail (mailId : ℤ) (targetFolder : Bytes)
  | downloadAttachment (mailId : ℤ) (attachmentIndex : ℕ)
  | fetchFolders
  | createFolder (folderName : Bytes)
  | deleteFolder (folderName : Bytes)
  | addLabel (mailId : ℤ) (label : Bytes)
  | removeLabel (mailId : ℤ) (label : Bytes)
  | markMailStarred (mailId : ℤ) (starred : Bool)
  | markMailImportant (mailId : ℤ) (important : Bool)

/-- `MailResult`: what the worker reports, or the text of the error. -/
inductive MailResult
  | action (r : Except Bytes Unit)
  | folders (r : Except Bytes (List Bytes))
  | mails (r : Except Bytes (List MailSummary))
  | mail (r : Except Bytes ((Bool × Bool) × Bytes))

/-- The result a handler reports, and the worker it leaves. -/
def report {α : Type} (result : Except Bytes α → MailResult) (h : WorkerM α) (w : Worker) :
    Option (MailResult × Worker) :=
  (h.run.run w).map fun r => (result r.1, r.2)

/-- One turn of `run`; `none` where the behaviour is undefined. -/
def handle (S : Services) (o : Surroundings) : MailCommand → Worker → Option (MailResult × Worker)
  | .connect cmd => report .action (handleConnect S o cmd)
  | .disconnect => report .action (handleDisconnect S o)
  | .sendMail => report .action (handleSendMail S o)
  | .fetchMails folderName offset limit =>
      report .mails (handleFetchMails S o folderName offset limit)
  | .fetchMail mailId => report .mail (handleFetchMail S o mailId)
  | .deleteMail mailId => report .action (handleDeleteMail S o mailId)
  | .markMailRead mailId => report .action (handleMarkMailRead S o mailId)
  | .moveMail mailId targetFolder => report .action (handleMoveMail S o mailId targetFolder)
  | .downloadAttachment mailId index => report .action (handleDownloadAttachment S o mailId index)
  | .fetchFolders => report .folders (handleFetchFolders S o)
  | .createFolder folderName => report .action (handleCreateFolder S o folderName)
  | .deleteFolder folderName => report .action (handleDeleteFolder S o folderName)
  | .addLabel mailId label => report .action (handleAddLabel S o mailId label)
  | .removeLabel mailId label => report .action (handleRemoveLabel S o mailId label)
  | .markMailStarred mailId starred => report .action (handleMarkMailStarred S o mailId starred)
  | .markMailImportant mailId important =>
    report .action (handleMarkMailImportant S o mailId important)

/-- A command is handled, and this happens meanwhile. -/
structure WorkerAct where
  command : MailCommand
  world : Surroundings

/-- The worker after a command. -/
def Worker.next (S : Services) (w : Worker) (a : WorkerAct) : Option Worker :=
  (handle S a.world a.command w).map Prod.snd

/-! ## What a handler leads to -/

/-- From `w` the handler returns with `post`, or fails with `E`, if its behaviour is defined. -/
def Leads {α : Type} (E : Worker → Prop) (h : WorkerM α) (w : Worker) (post : α → Worker → Prop) :
    Prop :=
  ∀ r w', h.run.run w = some (r, w') →
    match r with
    | .ok a => post a w'
    | .error _ => E w'

namespace Leads

variable {α γ : Type} {E : Worker → Prop} {h : WorkerM α} {w : Worker} {post : α → Worker → Prop}

/-- A value at hand. -/
theorem pure {a : α} (hpost : post a w) : Leads E (pure a) w post := by
  rintro r w' hr
  obtain ⟨rfl, rfl⟩ := Prod.mk.inj (Option.some.inj hr)
  exact hpost

/-- An error leaves the worker as it stands. -/
theorem throw {e : Bytes} (hE : E w) : Leads E (throw e) w post := by
  rintro r w' hr
  obtain ⟨rfl, rfl⟩ := Prod.mk.inj (Option.some.inj hr)
  exact hE

/-- A change of the worker. -/
theorem modify {g : Worker → Worker} {post : Unit → Worker → Prop} (hpost : post () (g w)) :
    Leads E (modify g) w post := by
  rintro r w' hr
  obtain ⟨rfl, rfl⟩ := Prod.mk.inj (Option.some.inj hr)
  exact hpost

/-- A step that has an answer. -/
theorem use {f : Worker → α × Worker} (hpost : post (f w).1 (f w).2) : Leads E (use f) w post := by
  rintro r w' hr
  obtain ⟨rfl, rfl⟩ := Prod.mk.inj (Option.some.inj hr)
  exact hpost

/-- A step that may fail. -/
theorem call {f : Worker → Except Bytes α × Worker} (hok : ∀ a w', f w = (.ok a, w') → post a w')
    (herror : ∀ e w', f w = (.error e, w') → E w') : Leads E (call f) w post := by
  rintro r w' hr
  have hf : f w = (r, w') := Option.some.inj hr
  cases r with
  | ok a => exact hok a w' hf
  | error e => exact herror e w' hf

/-- The second part starts where the first one led. -/
theorem bind {f : α → WorkerM γ} {post' : γ → Worker → Prop} (hh : Leads E h w post)
    (hf : ∀ a w₁, post a w₁ → Leads E (f a) w₁ post') : Leads E (h >>= f) w post' := by
  intro r w' hr
  obtain ⟨⟨r₁, w₁⟩, hr₁, hr⟩ := Option.bind_eq_some_iff.mp hr
  cases r₁ with
  | ok a => exact hf a w₁ (hh _ w₁ hr₁) r w' hr
  | error e =>
    obtain ⟨rfl, rfl⟩ := Prod.mk.inj (Option.some.inj hr)
    exact hh _ w₁ hr₁

/-- Behind an error nothing is done. -/
theorem throw_bind {e : Bytes} {f : α → WorkerM γ} {post : γ → Worker → Prop} (hE : E w) :
    Leads E ((MonadExcept.throw e : WorkerM α) >>= f) w post := throw hE

/-- Nor behind what has no meaning. -/
theorem undefined_bind {f : α → WorkerM γ} {post : γ → Worker → Prop} :
    Leads E (Client.undefined >>= f) w post := fun _ _ hr => nomatch hr

/-- The worker that is read is the one at hand. -/
theorem get_bind {f : Worker → WorkerM α} (hf : Leads E (f w) w post) :
    Leads E (get >>= f) w post :=
  hf

theorem ite {c : Prop} [Decidable c] {h' : WorkerM α} (hh : c → Leads E h w post)
    (hh' : ¬ c → Leads E h' w post) : Leads E (if c then h else h') w post := by
  split_ifs with hc
  · exact hh hc
  · exact hh' hc

/-- A weaker postcondition. -/
theorem mono {post' : α → Worker → Prop} (hh : Leads E h w post)
    (himp : ∀ a w', post a w' → post' a w') : Leads E h w post' := by
  intro r w' hr
  have := hh r w' hr
  cases r with
  | ok a => exact himp a w' this
  | error e => exact this

/-- A command whose handler ends in `I`, however it ends. -/
theorem report {I : Worker → Prop} {result : Except Bytes α → MailResult} {r : MailResult × Worker}
    (hh : Leads I h w fun _ => I) (hr : report result h w = some r) : I r.2 := by
  obtain ⟨⟨r', w'⟩, hrun, rfl⟩ := Option.map_eq_some_iff.mp hr
  have := hh r' w' hrun
  cases r' with
  | ok a => exact this
  | error e => exact this

end Leads

end MailStack.Client
