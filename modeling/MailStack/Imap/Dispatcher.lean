import MailStack.Imap.Utils

/-!
# Imap/Dispatcher — `ImapCommandDispatcher`: the handlers of the IMAP commands

A handler reads and writes the session's fields, queries the database and makes locked writes; it
replies, or an exception leaves it.  `HandlerM` is that, over the programs of `Store`: what a
handler did to the session stays when an exception leaves it, as in the source.

Reading an empty `std::optional` throws, and some handlers catch everything; `badAccess` remembers
that it happened.  What `FETCH` prints of a message's file goes through `Services`: the bodies of
these functions play no part in what a handler asks of the database.
-/

open Bytes

namespace MailStack.Imap

open Store Prog

/-- `SessionState`. -/
inductive SessionState
  | nonAuthenticated | authenticated | selected
  deriving DecidableEq, Repr

/-- `MailboxState`, less the members no handler uses. -/
structure MailboxState where
  name : Bytes := []
  numExists : ℕ := 0
  numRecent : ℕ := 0
  id : Option ℤ := none
  deriving DecidableEq, Repr

/-- The members of the dispatcher, and the `m_last_error` of its repository. -/
structure Dispatcher where
  state : SessionState := .nonAuthenticated
  authenticatedUserName : Bytes := []
  authenticatedUserID : Option ℤ := none
  currentMailbox : MailboxState := {}
  lastError : Bytes := []
  /-- `value()` was called on an empty optional. -/
  badAccess : Bool := false
  deriving DecidableEq, Repr

/-- The fields of a parsed `Email` that the handlers read. -/
structure Email where
  sender : Bytes
  toAddresses : List Bytes
  ccAddresses : List Bytes
  subject : Bytes
  date : Bytes
  messageId : Bytes

/-- What the handlers call outside of the database: the password check, and the functions that
read a message's file. -/
structure Services where
  /-- `crypto_pwhash_str_verify`, hash first. -/
  verify : Bytes → Bytes → Bool
  getBodyContent : Message → Bytes
  getParsedEmail : Message → Except Exn (Option Email)
  getBodySection : Message → Bytes → Except Exn Bytes
  /-- `BuildBodystructure(msg, GetParsedEmail(msg), GetParsedMimePart(msg))`. -/
  buildBodystructure : Message → Except Exn Bytes
  /-- `BuildEnvelope`, with the recipients it looks up. -/
  buildEnvelope : Message → Option Email → List Recipient → Except Exn Bytes
  dateToIMAPInternal : Bytes → Except Exn Bytes
  splitHeadersAndBody : Bytes → Bytes × Bytes
  getHeaderValue : Bytes → Bytes → Bytes

/-- A handler's code. -/
abbrev HandlerM := ExceptT Stop (StateT Dispatcher (Prog DB Write Bytes Answer))

section Primitives

variable {α : Type}

/-- A call of the repositories. -/
def ask (p : DbM α) : HandlerM α := ExceptT.lift (StateT.lift p)

/-- A call that reports failure: the failure's text, if it left one, stays in `m_last_error`. -/
def attempt (p : DbM (Result α)) : HandlerM (Option α) := do
  match ← ask p with
  | .ok a => return some a
  | .error none => return none
  | .error (some e) =>
    modify fun d => { d with lastError := e }
    return none

/-- `std::optional::value()`. -/
def value (o : Option α) : HandlerM α :=
  match o with
  | some a => pure a
  | none => do
    modify fun d => { d with badAccess := true }
    throw (.throw .badOptionalAccess)

/-- A call that may throw. -/
def orThrow (r : Except Exn α) : HandlerM α :=
  match r with
  | .ok a => pure a
  | .error e => throw (.throw e)

/-- `cmd.m_args[i]`; out of range is undefined. -/
def arg (cmd : ImapCommand) (i : ℕ) : HandlerM Bytes :=
  match cmd.args[i]? with
  | some a => pure a
  | none => throw (.missing i)

/-- `try { body } catch (const std::exception& ex) { handler }`. -/
def catching (body : HandlerM α) (handler : Exn → HandlerM α) : HandlerM α :=
  tryCatch body fun
    | .throw e => handler e
    | e => throw e

/-- `m_authenticatedUserID.value()`. -/
def userID : HandlerM ℤ := do value (← get).authenticatedUserID

/-- `m_currentMailbox.m_id.value()`. -/
def mailboxID : HandlerM ℤ := do value (← get).currentMailbox.id

end Primitives

open ImapResponse

/-! ## Session commands -/

/-- `UserRepository::authorize`. -/
def authorize (S : Services) (username password : Bytes) : DbM Bool :=
  query fun db => (UserDAL.findByUsername db username).any fun u => S.verify u.passwordHash password

/-- `HandleLogin`; its log line prints the id. -/
def handleLogin (S : Services) (cmd : ImapCommand) : HandlerM Bytes := do
  if cmd.args.length ≠ 2 then return bad cmd.tag (lit "Missing arguments")
  else if ← ask (authorize S (← arg cmd 0) (← arg cmd 1)) then
    match ← ask (query (UserDAL.findByUsername · (← arg cmd 0))) with
    | some user =>
      let name ← arg cmd 0
      modify fun d => { d with
        authenticatedUserName := name
        authenticatedUserID := user.id
        state := .authenticated }
      let _ ← userID
      return ok cmd.tag (lit "Login successful")
    | none => return no cmd.tag (lit "Login failed")
  else return no cmd.tag (lit "Login failed")

def handleLogout (cmd : ImapCommand) : HandlerM Bytes :=
  return untagged (lit "BYE Logout") ++ ok cmd.tag (lit "Logout completed")

def handleCapability (cmd : ImapCommand) : HandlerM Bytes :=
  return capability ++ ok cmd.tag (lit "Capability completed")

def handleNoop (cmd : ImapCommand) : HandlerM Bytes := return ok cmd.tag (lit "Noop completed")

def handleStartTLS (cmd : ImapCommand) : HandlerM Bytes :=
  if cmd.args ≠ [] then return bad cmd.tag (lit "STARTTLS takes no arguments")
  else return cmd.tag ++ lit " OK Begin TLS negotiation now\r\n"

/-! ## Mailboxes -/

def numRecent (messages : List Message) : ℕ := messages.countP (·.flags.recent)

def numUnseen (messages : List Message) : ℕ := messages.countP fun m => !m.flags.seen

/-- `HandleSelect`; the result of clearing `\Recent` is not looked at. -/
def handleSelect (cmd : ImapCommand) : HandlerM Bytes := do
  if cmd.args.length ≠ 1 then return bad cmd.tag (lit "Invalid arguments number")
  else match ← ask (MessageRepository.findFolderByName (← userID) (← arg cmd 0)) with
    | none => return bad cmd.tag (lit "Mailbox not found")
    | some folder =>
      modify fun d => { d with currentMailbox := { d.currentMailbox with name := folder.name } }
      let messages ← ask (MessageRepository.findByFolder (← value folder.id))
      modify fun d => { d with currentMailbox := { d.currentMailbox with
        numExists := messages.length
        numRecent := numRecent messages } }
      let _ ← attempt (MessageRepository.clearRecentByFolder (← value folder.id))
      modify fun d => { d with currentMailbox := { d.currentMailbox with id := folder.id } }
      let uidvalidity ← value folder.id
      let response :=
        flags ++ lit "* OK [UIDVALIDITY " ++ decimal uidvalidity ++ lit "]\r\n" ++
        lit "* OK [PERMANENTFLAGS (\\Seen \\Answered \\Flagged \\Draft \\Deleted \\*)]\r\n" ++
        lit "* OK [UNSEEN " ++ decimal (numUnseen messages) ++ lit "]\r\n" ++
        count messages.length " EXISTS" ++
        lit "* OK [UIDNEXT " ++ decimal folder.nextUid ++ lit "]\r\n" ++
        count (numRecent messages) " RECENT" ++
        ok cmd.tag (lit "[READ-WRITE] Select completed")
      modify fun d => { d with state := .selected }
      return response

/-- `HandleList` and `HandleLsub`: the folders `keep` selects. -/
def handleListing (command done : String) (keep : Folder → Bool) (cmd : ImapCommand) :
    HandlerM Bytes := do
  if cmd.args.length ≠ 2 then return bad cmd.tag (lit "Invalid arguments number")
  else if (← arg cmd 1) = [] then
    return mailbox command [] "Noselect" ++ ok cmd.tag (lit done)
  else
    let folders ← ask (MessageRepository.findFoldersByUser (← userID))
    return (folders.filter keep).flatMap (fun f => mailbox command f.name "HasNoChildren") ++
      ok cmd.tag (lit done)

def handleList (cmd : ImapCommand) : HandlerM Bytes :=
  handleListing "LIST" "List completed" (fun _ => true) cmd

def handleLsub (cmd : ImapCommand) : HandlerM Bytes :=
  handleListing "LSUB" "Lsub completed" (·.isSubscribed) cmd

/-- The text of one status item; nothing for an unknown one. -/
def statusItem (folder : Folder) (messages : List Message) (req : Bytes) :
    HandlerM (Option Bytes) := do
  if req = lit "MESSAGES" then return some (lit "MESSAGES " ++ decimal messages.length ++ lit " ")
  else if req = lit "RECENT" then
    return some (lit "RECENT " ++ decimal (numRecent messages) ++ lit " ")
  else if req = lit "UIDNEXT" then
    return some (lit "UIDNEXT " ++ decimal folder.nextUid ++ lit " ")
  else if req = lit "UIDVALIDITY" then
    return some (lit "UIDVALIDITY " ++ decimal (← value folder.id) ++ lit " ")
  else if req = lit "UNSEEN" then
    return some (lit "UNSEEN " ++ decimal (numUnseen messages) ++ lit " ")
  else return none

def handleStatus (cmd : ImapCommand) : HandlerM Bytes := do
  if cmd.args.length ≠ 2 then return bad cmd.tag (lit "Invalid arguments number")
  else match ← ask (MessageRepository.findFolderByName (← userID) (← arg cmd 0)) with
    | none => return bad cmd.tag (lit "Mailbox not found")
    | some folder =>
      let messages ← ask (MessageRepository.findByFolder (← value folder.id))
      let items ← (splitArgs (trimParentheses (← arg cmd 1))).mapM (statusItem folder messages)
      let found := items.filterMap id
      if found = [] then return bad cmd.tag (lit "Invalid status data items")
      else
        return status (← arg cmd 0) (popSpace found.flatten) ++
          ok cmd.tag (lit "Status completed")

/-- The reply to a failed write: `NO` or `BAD`, and `m_last_error`. -/
def failure (reply : Bytes → Bytes → Bytes) (cmd : ImapCommand) (text : String) :
    HandlerM Bytes := do
  return reply cmd.tag (lit text ++ (← get).lastError)

/-- The chain of parents of `HandleCreate`: each component is looked up by its own name, and from
the second on has to be the folder found before. -/
def findParent (prev : Option Folder) : List Bytes → HandlerM (Except Bytes (Option Folder))
  | [] => return .ok prev
  | name :: names => do
    match ← ask (MessageRepository.findFolderByName (← userID) name) with
    | some f => if prev.all (· = f) then findParent (some f) names else return .error name
    | none => return .error name

/-- `createFolder`, and the reply. -/
def createReply (cmd : ImapCommand) (f : Folder) : HandlerM Bytes := do
  match ← attempt (MessageRepository.createFolder f) with
  | some _ => return ok cmd.tag (lit "Create completed")
  | none => failure no cmd "Create failed: "

def handleCreate (cmd : ImapCommand) : HandlerM Bytes := do
  if cmd.args.length ≠ 1 then return bad cmd.tag (lit "Invalid parameters number")
  else
    let name ← arg cmd 0
    let parts := split name '/'.toUInt8
    if name = [] ∨ [] ∈ parts then
      return no cmd.tag (lit "Create failed: invalid mailbox name")
    else if parts.length ≠ 1 then
      match ← findParent none parts.dropLast with
      | .error missing => return bad cmd.tag (lit "Parent folder doesn`t exist: " ++ missing)
      | .ok prev =>
        match prev.bind (·.id) with
        | none => return bad cmd.tag (lit "Parent folder doesn`t exist")
        | some parentId => createReply cmd { userId := ← userID, parentId := some parentId, name }
    else createReply cmd { userId := ← userID, parentId := none, name }

def handleDelete (cmd : ImapCommand) : HandlerM Bytes := do
  if cmd.args.length ≠ 1 then return bad cmd.tag (lit "Invalid parameters number")
  else match ← ask (MessageRepository.findFolderByName (← userID) (← arg cmd 0)) with
    | none => return bad cmd.tag (lit "No such folder")
    | some folder =>
      if folder.name = lit "INBOX" then return no cmd.tag (lit "Can`t delete INBOX folder")
      else match ← attempt (MessageRepository.deleteFolder (← value folder.id)) with
        | some _ => return ok cmd.tag (lit "Delete completed")
        | none => failure bad cmd "Delete failed: "

def handleRename (cmd : ImapCommand) : HandlerM Bytes := do
  if cmd.args.length ≠ 2 then return bad cmd.tag (lit "Invalid arguments number")
  else match ← ask (MessageRepository.findFolderByName (← userID) (← arg cmd 0)) with
    | none => return no cmd.tag (lit "No mailbox with specified name")
    | some folder =>
      match ← attempt (MessageRepository.renameFolder (← value folder.id) (← arg cmd 1)) with
      | some _ => return ok cmd.tag (lit "Rename completed")
      | none => failure bad cmd "Rename failed: "

/-- `HandleSubscribe` and `HandleUnsubscribe`. -/
def handleSubscription (subscribed : Bool) (done : String) (cmd : ImapCommand) :
    HandlerM Bytes := do
  if cmd.args.length ≠ 1 then return bad cmd.tag (lit "Invalid arguments number")
  else match ← ask (MessageRepository.findFolderByName (← userID) (← arg cmd 0)) with
    | none => return bad cmd.tag (lit "Mailbox does not exist")
    | some folder =>
      match folder.id with
      | none => return bad cmd.tag (lit "Mailbox does not exist")
      | some id =>
        match ← attempt (MessageRepository.setSubscribed id subscribed) with
        | some _ => return ok cmd.tag (lit done)
        | none => failure no cmd ""

def handleSubscribe (cmd : ImapCommand) : HandlerM Bytes :=
  handleSubscription true "SUBSCRIBE completed" cmd

def handleUnsubscribe (cmd : ImapCommand) : HandlerM Bytes :=
  handleSubscription false "UNSUBSCRIBE completed" cmd

/-- The guard of the commands that need a selected mailbox. -/
def whenSelected (cmd : ImapCommand) (body : HandlerM Bytes) : HandlerM Bytes := do
  if (← get).state ≠ .selected then return bad cmd.tag (lit "No mailbox selected") else body

def handleClose (cmd : ImapCommand) : HandlerM Bytes := whenSelected cmd do
  match ← attempt (MessageRepository.expunge (← mailboxID)) with
  | some _ =>
    modify fun d => { d with state := .authenticated, currentMailbox := {} }
    return ok cmd.tag (lit "Close completed")
  | none => return no cmd.tag (lit "Close failed")

def handleCheck (cmd : ImapCommand) : HandlerM Bytes := whenSelected cmd do
  return ok cmd.tag (lit "Check completed")

/-! ## Messages -/

/-- `ParseSequenceSet`, in a handler. -/
def sequenceSet (s : Bytes) (maxValue : ℤ) : HandlerM (List ℤ) :=
  match parseSequenceSet s maxValue with
  | .ok l => pure l
  | .error e => throw e

/-- The messages at the numbers, each taken as an `int`, that are positions. -/
def selectMessages (messages : List Message) (ids : List ℤ) : List Message :=
  ids.filterMap fun n => if 0 < toInt n then messages[(toInt n - 1).toNat]? else none

/-- The recipients of one type, joined by `", "`. -/
def addresses (type : RecipientType) (recipients : List Recipient) : Bytes :=
  joinNonempty (lit ", ") ((recipients.filter (·.type = type)).map (·.address))

/-- The header lines of `RFC822.HEADER`. -/
def headerText (sender recipients cc subject date : Bytes) : Bytes :=
  lit "From: " ++ sender ++ lit "\r\nTo: " ++ recipients ++ lit "\r\n" ++
    (if cc = [] then [] else lit "Cc: " ++ cc ++ lit "\r\n") ++ lit "Subject: " ++ subject ++
    lit "\r\nDate: " ++ date ++ lit "\r\n"

/-- `RFC822.HEADER` of a message: from its file, or else from its rows. -/
def rfc822Header (S : Services) (msg : Message) : HandlerM Bytes := do
  match ← orThrow (S.getParsedEmail msg) with
  | some email =>
    return headerText email.sender (joinNonempty (lit ", ") email.toAddresses)
      (joinNonempty (lit ", ") email.ccAddresses) email.subject email.date ++
      lit "Message-ID: " ++ email.messageId ++ lit "\r\n\r\n"
  | none =>
    let user ← ask (query (UserDAL.findByID · msg.userId))
    let recipients ← ask (MessageRepository.findRecipientsByMessage (← value msg.id))
    return headerText ((user.map (·.username)).getD (lit "unknown") ++ lit "@test.com")
      (addresses .to recipients) (addresses .cc recipients) (msg.content.subject.getD [])
      msg.content.internalDate ++ lit "\r\n"

/-- A literal: its size in braces, then its bytes. -/
def literal (name text : Bytes) : Bytes :=
  name ++ lit " \x7b" ++ decimal text.length ++ lit "\x7d\r\n" ++ text

/-- `BODY[HEADER.FIELDS]`, with the names in `cmd.m_args[2]`. -/
def headerFields (S : Services) (cmd : ImapCommand) (item : Bytes) (msg : Message) :
    HandlerM Bytes := do
  let raw := S.getBodyContent msg
  if raw = [] then throw (.throw (.runtimeError (lit "File doesn`t have content")))
  let headers := (S.splitHeadersAndBody raw).1
  let names := trimParentheses (← arg cmd 2)
  let lines := (splitArgs names).flatMap fun req =>
    let v := S.getHeaderValue headers (req ++ lit ":")
    if v = [] then [] else req ++ lit ": " ++ v ++ lit "\r\n"
  return literal (item.dropLast ++ lit " (" ++ names ++ lit ")]") (lines ++ lit "\r\n") ++ lit " "

/-- `BODY[section]` and `BODY.PEEK[section]`. -/
def bodySection (S : Services) (start item : Bytes) (msg : Message) : HandlerM Bytes := do
  match cut ']'.toUInt8 (item.drop start.length) with
  | none => throw (.throw (.invalidArgument (lit "Invalid BODY section: " ++ item)))
  | some (sec, _) =>
    return literal (start ++ sec ++ lit "]") (← orThrow (S.getBodySection msg sec)) ++ lit " "

/-- The text of one data item. -/
def fetchItem (S : Services) (cmd : ImapCommand) (msg : Message) (item : Bytes) :
    HandlerM Bytes := do
  if item = lit "FLAGS" then
    return popSpace (lit "FLAGS (" ++ flagNames msg.flags) ++ lit ") "
  else if item = lit "INTERNALDATE" then
    return lit "INTERNALDATE \"" ++ (← orThrow (S.dateToIMAPInternal msg.content.internalDate)) ++
      lit "\" "
  else if item = lit "RFC822.SIZE" then
    return lit "RFC822.SIZE " ++ decimal msg.content.sizeBytes ++ lit " "
  else if item = lit "ENVELOPE" then
    let email ← orThrow (S.getParsedEmail msg)
    let recipients ← ask (MessageRepository.findRecipientsByMessage (← value msg.id))
    return lit "ENVELOPE " ++ (← orThrow (S.buildEnvelope msg email recipients)) ++ lit " "
  else if item = lit "BODY[]" ∨ item = lit "RFC822" ∨ item = lit "RFC822.TEXT" then
    return literal item (S.getBodyContent msg) ++ lit " "
  else if item = lit "RFC822.HEADER" then
    return literal (lit "RFC822.HEADER") (← rfc822Header S msg)
  else if item = lit "BODYSTRUCTURE" then
    return lit "BODYSTRUCTURE " ++ (← orThrow (S.buildBodystructure msg)) ++ lit " "
  else if item = lit "BODY" then
    return lit "BODY " ++ (← orThrow (S.buildBodystructure msg)) ++ lit " "
  else if item = lit "BODY[HEADER.FIELDS]" ∨ item = lit "BODY.PEEK[HEADER.FIELDS]" then
    headerFields S cmd item msg
  else if (lit "BODY.PEEK[").isPrefixOf item then bodySection S (lit "BODY.PEEK[") item msg
  else if (lit "BODY[").isPrefixOf item then bodySection S (lit "BODY[") item msg
  else if item = lit "UID" then return lit "UID " ++ decimal msg.uid ++ lit " "
  else throw (.throw (.invalidArgument (lit "Invalid fetch attribute: " ++ item)))

/-- The data of one `FETCH` response: what it starts with, the items, the closing parenthesis. -/
def fetchData (S : Services) (cmd : ImapCommand) (start : Bytes) (items : List Bytes)
    (msg : Message) : HandlerM Bytes := do
  return popSpace (start ++ (← items.mapM (fetchItem S cmd msg)).flatten) ++ lit ")"

/-- The `catch` clauses of the two `FETCH` handlers. -/
def fetchFailure (cmd : ImapCommand) : Exn → HandlerM Bytes
  | .invalidArgument what | .runtimeError what => return bad cmd.tag what
  | _ => return bad cmd.tag (lit "Invalid message sequence")

/-- `HandleFetch`: the i-th message selected is labelled with the i-th number of the set. -/
def handleFetch (S : Services) (cmd : ImapCommand) : HandlerM Bytes := whenSelected cmd do
  if cmd.args.length < 2 then return bad cmd.tag (lit "Missing arguments")
  else
    catching
      (do
        let messages ← ask (MessageRepository.findByFolder (← mailboxID))
        let ids ← sequenceSet (← arg cmd 0) messages.length
        let items := fetchItems (← arg cmd 1)
        let lines ← ((selectMessages messages ids).zip ids).mapM fun p => do
          return fetch (toSizeT p.2) (← fetchData S cmd (lit "(") items p.1)
        return lines.flatten ++ ok cmd.tag (lit "Fetch completed"))
      (fetchFailure cmd)

/-- `HandleUidFetch`: the number is 0 where the message is not among those listed. -/
def handleUidFetch (S : Services) (cmd : ImapCommand) : HandlerM Bytes := whenSelected cmd do
  if cmd.args.length < 2 then return bad cmd.tag (lit "Missing arguments")
  else
    catching
      (do
        let uids ← sequenceSet (← arg cmd 0) int64Max
        let messages ← ask (MessageRepository.findByFolder (← mailboxID))
        let items := fetchItems (← arg cmd 1)
        let lines ← uids.mapM fun uid => do
          match ← ask (MessageRepository.findByUID (← mailboxID) uid) with
          | none => return []
          | some msg =>
            let seqNum : ℕ := ((messages.findIdx? (·.uid = uid)).map (· + 1)).getD 0
            return fetch seqNum
              (← fetchData S cmd (lit "(UID " ++ decimal msg.uid ++ lit " ") items msg)
        return lines.flatten ++ ok cmd.tag (lit "Uid Fetch completed"))
      (fetchFailure cmd)

/-- The flags of a `STORE` in the repository's format. -/
def flagsToSend (item : Bytes) (rawFlags : List Bytes) : List Bytes :=
  match item.head? with
  | some c => if c = '+'.toUInt8 ∨ c = '-'.toUInt8 then rawFlags.map (c :: ·) else rawFlags
  | none => rawFlags

/-- `setFlags` of one message of a `STORE`, and the line that reports it. -/
def storeOne (item : Bytes) (rawFlags : List Bytes) (report : Message → Bytes) (msg : Message) :
    HandlerM Bytes := do
  match ← attempt (MessageRepository.setFlags (← value msg.id) (flagsToSend item rawFlags)) with
  | none => return []
  | some _ =>
    if hasSubstring (lit ".SILENT") item then return []
    else match ← ask (MessageRepository.findByID (← value msg.id)) with
      | some updated => return report updated
      | none => return []

/-- The first flag that `STORE` does not know. -/
def unknownFlag (rawFlags : List Bytes) : Option Bytes :=
  rawFlags.find? fun f => f ∉ validSystemFlags

def handleStore (cmd : ImapCommand) : HandlerM Bytes := whenSelected cmd do
  if cmd.args.length ≠ 3 then return bad cmd.tag (lit "Invalid arguments number")
  else
    catching
      (do
        let rawFlags := splitArgs (trimParentheses (← arg cmd 2))
        match unknownFlag rawFlags with
        | some f => return bad cmd.tag (lit "Unknown flag: " ++ f)
        | none =>
          let item ← arg cmd 1
          let messages ← ask (MessageRepository.findByFolder (← mailboxID))
          let ids ← sequenceSet (← arg cmd 0) messages.length
          let lines ← ids.mapM fun n => do
            match (if 0 < toInt n then messages[(toInt n - 1).toNat]? else none) with
            | none => return []
            | some msg =>
              storeOne item rawFlags (fun m => fetch (toInt n).toNat (formatFlagsResponse m)) msg
          return lines.flatten ++ ok cmd.tag (lit "Store completed"))
      fun _ => return bad cmd.tag (lit "Error processing STORE")

/-- `HandleUidStore`: a message is labelled with its position in the set, not in the folder. -/
def handleUidStore (cmd : ImapCommand) : HandlerM Bytes := whenSelected cmd do
  if cmd.args.length ≠ 3 then return bad cmd.tag (lit "Missing arguments")
  else
    catching
      (do
        let rawFlags := splitArgs (trimParentheses (← arg cmd 2))
        match unknownFlag rawFlags with
        | some f => return bad cmd.tag (lit "Unknown flag: " ++ f)
        | none =>
          let item ← arg cmd 1
          let uids ← sequenceSet (← arg cmd 0) int64Max
          let lines ← uids.zipIdx.mapM fun p => do
            match ← ask (MessageRepository.findByUID (← mailboxID) p.1) with
            | none => return []
            | some msg =>
              storeOne item rawFlags (fun m => fetch (p.2 + 1)
                (lit "(UID " ++ decimal m.uid ++ lit " " ++ formatFlagsResponse m ++ lit ")")) msg
          return lines.flatten ++ ok cmd.tag (lit "Uid Store completed"))
      fun _ => return bad cmd.tag (lit "Invalid message sequence")

/-- `copy` of the selected messages one after the other; its results are not looked at. -/
def copyAll (folderId : Option ℤ) : List Message → HandlerM Unit
  | [] => return
  | msg :: msgs => do
    let _ ← attempt (MessageRepository.copy (← value msg.id) (← value folderId))
    copyAll folderId msgs

/-- `copy` of the messages with these uids, as they are found. -/
def copyUids (folderId : Option ℤ) : List ℤ → HandlerM (List Message)
  | [] => return []
  | uid :: uids => do
    match ← ask (MessageRepository.findByUID (← mailboxID) uid) with
    | none => copyUids folderId uids
    | some msg =>
      let _ ← attempt (MessageRepository.copy (← value msg.id) (← value folderId))
      return msg :: (← copyUids folderId uids)

/-- `HandleCopy`, with the messages it selected when it answers `OK`. -/
def handleCopySelected (cmd : ImapCommand) : HandlerM (Bytes × List Message) := do
  if (← get).state ≠ .selected then return (bad cmd.tag (lit "No mailbox selected"), [])
  else if cmd.args.length ≠ 2 then return (bad cmd.tag (lit "Missing arguments"), [])
  else match ← ask (MessageRepository.findFolderByName (← userID) (← arg cmd 1)) with
    | none => return (bad cmd.tag (lit "No such folder"), [])
    | some dest =>
      catching
        (do
          let messages ← ask (MessageRepository.findByFolder (← mailboxID))
          let ids ← sequenceSet (← arg cmd 0) messages.length
          let selected := selectMessages messages ids
          copyAll dest.id selected
          return (ok cmd.tag (lit "Copy completed"), selected))
        fun _ => return (bad cmd.tag (lit "Invalid message sequence"), [])

def handleCopy (cmd : ImapCommand) : HandlerM Bytes := Prod.fst <$> handleCopySelected cmd

/-- `HandleUidCopy`, with the messages it selected when it answers `OK`. -/
def handleUidCopySelected (cmd : ImapCommand) : HandlerM (Bytes × List Message) := do
  if (← get).state ≠ .selected then return (bad cmd.tag (lit "No mailbox selected"), [])
  else if cmd.args.length ≠ 2 then return (bad cmd.tag (lit "Missing arguments"), [])
  else match ← ask (MessageRepository.findFolderByName (← userID) (← arg cmd 1)) with
    | none => return (bad cmd.tag (lit "No such folder"), [])
    | some dest =>
      catching
        (do
          let uids ← sequenceSet (← arg cmd 0) int64Max
          let selected ← copyUids dest.id uids
          return (ok cmd.tag (lit "Uid Copy completed"), selected))
        fun _ => return (bad cmd.tag (lit "Invalid message sequence"), [])

def handleUidCopy (cmd : ImapCommand) : HandlerM Bytes := Prod.fst <$> handleUidCopySelected cmd

/-- `hardDelete` of the messages one after the other, each reported by its number. -/
def expungeAll : List (Message × ℕ) → HandlerM Bytes
  | [] => return []
  | (msg, index) :: msgs => do
    let line := match ← attempt (MessageRepository.hardDelete (← value msg.id)) with
      | some _ => untagged (decimal index ++ lit " EXPUNGE")
      | none => []
    return line ++ (← expungeAll msgs)

/-- `HandleExpunge`: from the highest number down. -/
def handleExpunge (cmd : ImapCommand) : HandlerM Bytes := whenSelected cmd do
  if cmd.args.length ≠ 0 then return bad cmd.tag (lit "Invalid arguments")
  else
    let messages ← ask (MessageRepository.findByFolder (← mailboxID))
    let deleted := ((messages.zipIdx 1).filter (·.1.flags.deleted)).reverse
    return (← expungeAll deleted) ++ ok cmd.tag (lit "Expunge completed")

/-! ## Dispatch -/

/-- `RequiresAuth`. -/
def requiresAuth : ImapCommandType → Bool
  | .login | .logout | .capability | .noop | .startTLS => false
  | _ => true

/-- `Dispatch`. -/
def dispatch (S : Services) (cmd : ImapCommand) : HandlerM Bytes :=
  match cmd.type with
  | .login => handleLogin S cmd
  | .logout => handleLogout cmd
  | .capability => handleCapability cmd
  | .noop => handleNoop cmd
  | .select => handleSelect cmd
  | .list => handleList cmd
  | .lsub => handleLsub cmd
  | .status => handleStatus cmd
  | .fetch => handleFetch S cmd
  | .store => handleStore cmd
  | .create => handleCreate cmd
  | .delete => handleDelete cmd
  | .rename => handleRename cmd
  | .copy => handleCopy cmd
  | .expunge => handleExpunge cmd
  | .uidFetch => handleUidFetch S cmd
  | .uidStore => handleUidStore cmd
  | .uidCopy => handleUidCopy cmd
  | .subscribe => handleSubscribe cmd
  | .unsubscribe => handleUnsubscribe cmd
  | .close => handleClose cmd
  | .check => handleCheck cmd
  | .startTLS => handleStartTLS cmd
  | .unknown => return bad cmd.tag (lit "Command not implemented")

/-- `ImapSession::HandleCommand`, on the command that `Parse` made of the line. -/
def handleCommand (S : Services) (cmd : ImapCommand) : HandlerM Bytes := do
  if cmd.type = .unknown then return cmd.tag ++ lit " BAD Command not recognized\r\n"
  else if requiresAuth cmd.type ∧ (← get).state = .nonAuthenticated then
    return cmd.tag ++ lit " BAD Not authenticated\r\n"
  else
    catching (dispatch S cmd) fun _ => return lit "BAD Internal server error\r\n"

end MailStack.Imap
