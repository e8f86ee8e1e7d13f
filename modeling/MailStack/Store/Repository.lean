import MailStack.Machinery.Clients
import MailStack.Store.Schema

/-!
# Store/Repository — `MessageRepository`, as reads and locked writes

What happens under one `writeLock()` is one `Write`: a single statement, or a transaction that is
rolled back when a statement of it fails.  Everything else an operation does is a read of the
committed database, and other clients may act between any two of these steps.

A failed operation answers `false`; `Result` keeps what it left in `m_last_error`, if anything.
-/

open Bytes Prog

namespace MailStack.Store

/-- What a locked write reports: `sqlite3_last_insert_rowid` and the uid of an inserted message. -/
structure Answer where
  id : ℤ := 0
  uid : ℤ := 0
  deriving DecidableEq, Repr

/-- What is done under one write lock. -/
inductive Write
  /-- `assignUID`: the folder is read inside the transaction. -/
  | assignUID (m : Message) (folderId : ℤ)
  | updateSeen (id : ℤ) (seen : Bool)
  | updateDeleted (id : ℤ) (deleted : Bool)
  | updateFlags (id : ℤ) (flags : Flags)
  /-- The transaction of `moveToFolder`, with the uid that was read before. -/
  | moveToFolder (id folderId newUid : ℤ)
  /-- The transaction of `expunge`, over the messages that were read before. -/
  | expunge (ids : List ℤ)
  | hardDelete (id : ℤ)
  /-- The transaction of `copy`, with the row and the recipients that were read before. -/
  | copy (m : Message) (recipients : List Recipient) (folderId : ℤ)
  | insertFolder (f : Folder)
  | updateFolder (f : Folder)
  | deleteFolder (id : ℤ)
  | incrementNextUID (folderId : ℤ)
  | clearRecentByFolder (folderId : ℤ)
  | setSubscribed (folderId : ℤ) (subscribed : Bool)
  deriving DecidableEq

/-- The recipients of a copy, one `INSERT` after the other. -/
def insertRecipients (messageId : ℤ) : List Recipient → DB → Except Bytes DB
  | [], db => .ok db
  | r :: rs, db =>
    match RecipientDAL.insert db { r with id := none, messageId } with
    | .ok db' => insertRecipients messageId rs db'
    | .error e =>
      .error (lit "copy: failed to copy recipient " ++ [0xE2, 0x80, 0x94] ++ lit " " ++ e)

/-- **What a locked write does**; an error is one that was rolled back. -/
def Write.apply : Write → DB → Except Bytes (DB × Answer)
  | .assignUID m folderId, db =>
    match FolderDAL.findByID db folderId with
    | none => .error (lit "assignUID: folder not found")
    | some folder =>
      match MessageDAL.insert db { m with folderId, uid := folder.nextUid } with
      | .error e => .error e
      | .ok (db', id) => .ok (FolderDAL.incrementNextUID db' folderId, ⟨id, folder.nextUid⟩)
  | .updateSeen id seen, db => .ok (MessageDAL.updateSeen db id seen, {})
  | .updateDeleted id deleted, db => .ok (MessageDAL.updateDeleted db id deleted, {})
  | .updateFlags id flags, db => .ok (MessageDAL.updateFlags db id flags, {})
  | .moveToFolder id folderId newUid, db =>
    match MessageDAL.moveToFolder db id folderId newUid with
    | .error e => .error e
    | .ok db' => .ok (FolderDAL.incrementNextUID db' folderId, {})
  | .expunge ids, db => .ok (ids.foldl MessageDAL.hardDelete db, {})
  | .hardDelete id, db => .ok (MessageDAL.hardDelete db id, {})
  | .copy m recipients folderId, db =>
    match MessageDAL.insert db m with
    | .error e => .error e
    | .ok (db', id) =>
      match insertRecipients id recipients db' with
      | .error e => .error e
      | .ok db'' => .ok (FolderDAL.incrementNextUID db'' folderId, ⟨id, m.uid⟩)
  | .insertFolder f, db =>
    match FolderDAL.insert db f with
    | .error e => .error e
    | .ok (db', id) => .ok (db', { id })
  | .updateFolder f, db =>
    match FolderDAL.update db f with
    | .error e => .error e
    | .ok db' => .ok (db', {})
  | .deleteFolder id, db => .ok (FolderDAL.hardDelete db id, {})
  | .incrementNextUID folderId, db => .ok (FolderDAL.incrementNextUID db folderId, {})
  | .clearRecentByFolder folderId, db => .ok (MessageDAL.clearRecentByFolder db folderId, {})
  | .setSubscribed folderId subscribed, db =>
    .ok (FolderDAL.setSubscribed db folderId subscribed, {})

/-- The rows a copy's recipients become. -/
def recipientRows (messageId : ℤ) (recipients : List Recipient) (t : Table RecipientData) :
    Table RecipientData :=
  recipients.foldl (fun t r => t.insert ⟨messageId, cstr r.address, r.type⟩) t

theorem insertRecipients_ok {messageId : ℤ} :
    ∀ {recipients : List Recipient} {db db' : DB},
      insertRecipients messageId recipients db = .ok db' →
        db' = { db with recipients := recipientRows messageId recipients db.recipients }
  | [], db, db', h => (Except.ok.inj h).symm
  | r :: rs, db, db', h => by
      rw [insertRecipients] at h
      split at h
      · rename_i db₁ h₁
        obtain rfl := RecipientDAL.insert_ok h₁
        exact (insertRecipients_ok h).trans rfl
      · exact absurd h (by simp)

/-- What each write does when it succeeds. -/
inductive Effect (db : DB) : Write → DB → Answer → Prop
  | assignUID {m : Message} {folderId : ℤ} {f : FolderData}
      (hf : db.folders.get? folderId = some f)
      (hfree : MessageDAL.taken db none folderId f.nextUid = false)
      (huser : (db.users.get? m.userId).isSome = true) :
      Effect db (.assignUID m folderId)
        (FolderDAL.incrementNextUID { db with
          messages := db.messages.insert { m with folderId, uid := f.nextUid }.row } folderId)
        ⟨db.messages.seq + 1, f.nextUid⟩
  | updateSeen {id : ℤ} {seen : Bool} :
      Effect db (.updateSeen id seen) (MessageDAL.setFlags db id fun f => { f with seen }) {}
  | updateDeleted {id : ℤ} {deleted : Bool} :
      Effect db (.updateDeleted id deleted)
        (MessageDAL.setFlags db id fun f => { f with deleted }) {}
  | updateFlags {id : ℤ} {flags : Flags} :
      Effect db (.updateFlags id flags) (MessageDAL.setFlags db id fun _ => flags) {}
  | moveToFolder {id folderId newUid : ℤ}
      (hfree : MessageDAL.taken db (some id) folderId newUid = false)
      (hf : (db.folders.get? folderId).isSome = true) :
      Effect db (.moveToFolder id folderId newUid)
        (FolderDAL.incrementNextUID { db with
          messages := db.messages.modify id fun m => { m with folderId, uid := newUid } } folderId)
        {}
  | moveNothing {id folderId newUid : ℤ} (hm : db.messages.get? id = none) :
      Effect db (.moveToFolder id folderId newUid) (FolderDAL.incrementNextUID db folderId) {}
  | expunge {ids : List ℤ} : Effect db (.expunge ids) (ids.foldl MessageDAL.hardDelete db) {}
  | hardDelete {id : ℤ} : Effect db (.hardDelete id) (MessageDAL.hardDelete db id) {}
  | copy {m : Message} {recipients : List Recipient} {folderId : ℤ}
      (hfree : MessageDAL.taken db none m.folderId m.uid = false)
      (huser : (db.users.get? m.userId).isSome = true)
      (hf : (db.folders.get? m.folderId).isSome = true) :
      Effect db (.copy m recipients folderId)
        (FolderDAL.incrementNextUID { db with
          messages := db.messages.insert m.row
          recipients := recipientRows (db.messages.seq + 1) recipients db.recipients } folderId)
        ⟨db.messages.seq + 1, m.uid⟩
  | insertFolder {f : Folder} (hrefs : FolderDAL.refers db f.row = true) :
      Effect db (.insertFolder f) { db with folders := db.folders.insert f.row }
        { id := db.folders.seq + 1 }
  | updateFolder {f : Folder} {id : ℤ} (hid : f.id = some id)
      (hrefs : (db.folders.get? id).isSome = true → FolderDAL.refers db f.row = true) :
      Effect db (.updateFolder f) { db with folders := db.folders.modify id fun _ => f.row } {}
  | deleteFolder {id : ℤ} : Effect db (.deleteFolder id) (FolderDAL.hardDelete db id) {}
  | incrementNextUID {folderId : ℤ} :
      Effect db (.incrementNextUID folderId) (FolderDAL.incrementNextUID db folderId) {}
  | clearRecentByFolder {folderId : ℤ} :
      Effect db (.clearRecentByFolder folderId) (MessageDAL.clearRecentByFolder db folderId) {}
  | setSubscribed {folderId : ℤ} {subscribed : Bool} :
      Effect db (.setSubscribed folderId subscribed)
        (FolderDAL.setSubscribed db folderId subscribed) {}

/-- **A write that succeeds has its effect.** -/
theorem Write.effect {w : Write} {db db' : DB} {a : Answer} (h : w.apply db = .ok (db', a)) :
    Effect db w db' a := by
  cases w with
  | assignUID m folderId =>
    simp only [Write.apply, FolderDAL.findByID, Option.map] at h
    split at h
    · exact absurd h (by simp)
    · rename_i folder hfolder
      split at hfolder
      · rename_i f hf
        obtain rfl := Option.some.inj hfolder
        split at h
        · exact absurd h (by simp)
        · rename_i db₁ id hins
          obtain ⟨hfree, huser, -, rfl, rfl⟩ := MessageDAL.insert_ok hins
          obtain ⟨rfl, rfl⟩ := Prod.mk.inj (Except.ok.inj h)
          exact .assignUID hf hfree huser
      · exact absurd hfolder (by simp)
  | moveToFolder id folderId newUid =>
    simp only [Write.apply] at h
    split at h
    · exact absurd h (by simp)
    · rename_i db₁ hmove
      obtain ⟨rfl, rfl⟩ := Prod.mk.inj (Except.ok.inj h)
      rcases MessageDAL.moveToFolder_ok hmove with ⟨hm, rfl⟩ | ⟨hfree, hf, rfl⟩
      · exact .moveNothing hm
      · exact .moveToFolder hfree hf
  | copy m recipients folderId =>
    simp only [Write.apply] at h
    split at h
    · exact absurd h (by simp)
    · rename_i db₁ id hins
      obtain ⟨hfree, huser, hf, rfl, rfl⟩ := MessageDAL.insert_ok hins
      split at h
      · exact absurd h (by simp)
      · rename_i db₂ hrec
        obtain rfl := insertRecipients_ok hrec
        obtain ⟨rfl, rfl⟩ := Prod.mk.inj (Except.ok.inj h)
        exact .copy hfree huser hf
  | insertFolder f =>
    simp only [Write.apply] at h
    split at h
    · exact absurd h (by simp)
    · rename_i db₁ id hins
      obtain ⟨hrefs, rfl, rfl⟩ := FolderDAL.insert_ok hins
      obtain ⟨rfl, rfl⟩ := Prod.mk.inj (Except.ok.inj h)
      exact .insertFolder hrefs
  | updateFolder f =>
    simp only [Write.apply] at h
    split at h
    · exact absurd h (by simp)
    · rename_i db₁ hupd
      obtain ⟨id, hid, hrefs, rfl⟩ := FolderDAL.update_ok hupd
      obtain ⟨rfl, rfl⟩ := Prod.mk.inj (Except.ok.inj h)
      exact .updateFolder hid hrefs
  | updateSeen | updateDeleted | updateFlags | expunge | hardDelete | deleteFolder
  | incrementNextUID | clearRecentByFolder | setSubscribed =>
    obtain ⟨rfl, rfl⟩ := Prod.mk.inj (Except.ok.inj h)
    constructor

theorem foldl_hardDelete_folders (ids : List ℤ) (db : DB) :
    (ids.foldl MessageDAL.hardDelete db).folders = db.folders := by
  induction ids generalizing db with
  | nil => rfl
  | cons id ids ih => exact ih (MessageDAL.hardDelete db id)

/-- `expunge` deletes the listed messages and no other. -/
theorem foldl_hardDelete_get? (ids : List ℤ) (db : DB) (i : ℤ) :
    (ids.foldl MessageDAL.hardDelete db).messages.get? i =
      if i ∈ ids then none else db.messages.get? i := by
  induction ids generalizing db with
  | nil => simp
  | cons id ids ih =>
    rw [List.foldl_cons, ih, MessageDAL.hardDelete, Table.get?_erase]
    by_cases hi : i = id
    · simp [hi]
    · simp [hi]

/-- The database as a store. -/
def store : SharedStore DB Write Bytes Answer := ⟨Write.apply⟩

/-- A program over the database. -/
abbrev DbM (α : Type) := Prog DB Write Bytes Answer α

/-- `false` or `nullopt`, with the text given to `setError`, if it was called; else the result. -/
abbrev Result (α : Type) := Except (Option Bytes) α

/-- `return setError(msg)`. -/
def setError {α : Type} (msg : String) : DbM (Result α) := pure (.error (some (lit msg)))

/-- A locked write whose failure is `return setError(dal.getLastError())`. -/
def checked (w : Write) : DbM (Result Answer) := do
  return (← locked w).mapError some

/-- A locked write whose result is returned as it is, `m_last_error` untouched. -/
def unchecked (w : Write) : DbM (Result Answer) := do
  return (← locked w).mapError fun _ => none

section Writes

variable {P : Write → Prop} {α γ : Type} {w : Write}

theorem writes_checked (h : P w) : (checked w).Writes P :=
  (writes_locked h).bind fun _ => writes_pure _

theorem writes_unchecked (h : P w) : (unchecked w).Writes P :=
  (writes_locked h).bind fun _ => writes_pure _

/-- A lookup that decides whether to go on. -/
theorem writes_lookup {f : DB → Option α} {k : Option α → DbM γ} (hnone : (k none).Writes P)
    (hsome : ∀ a, (k (some a)).Writes P) : (query f >>= k).Writes P := by
  refine Writes.query_bind fun o => ?_
  cases o with
  | none => exact hnone
  | some a => exact hsome a

end Writes

namespace MessageRepository

/-! ## Reads -/

def findByID (id : ℤ) : DbM (Option Message) := query (MessageDAL.findByID · id)

def findByUID (folderId uid : ℤ) : DbM (Option Message) :=
  query (MessageDAL.findByUID · folderId uid)

/-- The first 50 messages, as every handler asks for them. -/
def findByFolder (folderId : ℤ) : DbM (List Message) :=
  query (MessageDAL.findByFolder · folderId 50 0)

def findFoldersByUser (userId : ℤ) : DbM (List Folder) := query (FolderDAL.findByUser · userId 50 0)

def findFolderByName (userId : ℤ) (name : Bytes) : DbM (Option Folder) :=
  query (FolderDAL.findByName · userId name)

def findRecipientsByMessage (messageId : ℤ) : DbM (List Recipient) :=
  query (RecipientDAL.findByMessage · messageId)

/-! ## Messages -/

def assignUID (m : Message) (folderId : ℤ) : DbM (Result Message) := do
  return (← checked (.assignUID m folderId)).map fun a =>
    { m with id := some a.id, folderId, uid := a.uid }

def append (m : Message) (folderId : ℤ) : DbM (Result Message) := assignUID m folderId

def saveToFolder (m : Message) (folderId : ℤ) : DbM (Result Message) :=
  assignUID { m with flags := { m.flags with seen := true, recent := false } } folderId

def deliver (m : Message) (folderId : ℤ) : DbM (Result Message) := do
  let m' := { m with flags := { m.flags with seen := false, recent := true, draft := false } }
  if folderId ≤ 0 then
    match ← findFolderByName m.userId (lit "INBOX") with
    | none => setError "deliver: INBOX not found for user"
    | some inbox => assignUID m' (inbox.id.getD 0)
  else assignUID m' folderId

def moveToFolder (id folderId : ℤ) : DbM (Result Answer) := do
  match ← query (FolderDAL.findByID · folderId) with
  | none => setError "moveToFolder: folder not found"
  | some folder => checked (.moveToFolder id folderId folder.nextUid)

/-- `INT_MAX`, the limit `expunge` asks with. -/
def intMax : ℕ := 2 ^ 31 - 1

def expunge (folderId : ℤ) : DbM (Result Answer) := do
  let deleted ← query (MessageDAL.findDeleted · folderId intMax 0)
  checked (.expunge (deleted.filterMap (·.id)))

def hardDelete (id : ℤ) : DbM (Result Answer) := do
  match ← findByID id with
  | none => setError "hardDelete: message not found"
  | some _ => unchecked (.hardDelete id)

def copy (id targetFolderId : ℤ) : DbM (Result Message) := do
  match ← findByID id with
  | none => setError "copy: message not found"
  | some msg =>
    match ← query (FolderDAL.findByID · targetFolderId) with
    | none => setError "copy: target folder not found"
    | some folder =>
      let recipients ← findRecipientsByMessage id
      let copy := { msg with id := none, folderId := targetFolderId, uid := folder.nextUid }
      return (← checked (.copy copy recipients targetFolderId)).map fun a =>
        { copy with id := some a.id }

def clearRecentByFolder (folderId : ℤ) : DbM (Result Answer) := do
  match ← query (FolderDAL.findByID · folderId) with
  | none => setError "clearRecentByFolder: folder not found"
  | some _ => checked (.clearRecentByFolder folderId)

/-- `expunge`, then the recent flags. -/
def closeFolder (folderId : ℤ) : DbM (Result Answer) := do
  match ← expunge folderId with
  | .error e => pure (.error e)
  | .ok _ => checked (.clearRecentByFolder folderId)

/-! ## Flags -/

def markSeen (id : ℤ) (seen : Bool) : DbM (Result Answer) := unchecked (.updateSeen id seen)

def markDeleted (id : ℤ) (deleted : Bool) : DbM (Result Answer) :=
  unchecked (.updateDeleted id deleted)

def updateFlags (id : ℤ) (flags : Flags) : DbM (Result Answer) := unchecked (.updateFlags id flags)

/-- The read-modify-write behind `markFlagged`, `markAnswered` and `markDraft`: an unlocked read,
then a locked `updateFlags` of all six columns. -/
def rewriteFlags (name : String) (id : ℤ) (f : Flags → Flags) : DbM (Result Answer) := do
  match ← findByID id with
  | none => setError (name ++ ": message not found")
  | some msg => unchecked (.updateFlags id (f msg.flags))

def markFlagged (id : ℤ) (flagged : Bool) : DbM (Result Answer) :=
  rewriteFlags "markFlagged" id fun f => { f with flagged }

def markAnswered (id : ℤ) (answered : Bool) : DbM (Result Answer) :=
  rewriteFlags "markAnswered" id fun f => { f with answered }

def markDraft (id : ℤ) (draft : Bool) : DbM (Result Answer) :=
  rewriteFlags "markDraft" id fun f => { f with draft }

end MessageRepository

/-- The flags by their column. -/
inductive Flag
  | seen | deleted | draft | answered | flagged | recent
  deriving DecidableEq, Repr

namespace Flags

def get (f : Flags) : Flag → Bool
  | .seen => f.seen
  | .deleted => f.deleted
  | .draft => f.draft
  | .answered => f.answered
  | .flagged => f.flagged
  | .recent => f.recent

def set (f : Flags) (value : Bool) : Flag → Flags
  | .seen => { f with seen := value }
  | .deleted => { f with deleted := value }
  | .draft => { f with draft := value }
  | .answered => { f with answered := value }
  | .flagged => { f with flagged := value }
  | .recent => { f with recent := value }

/-- No flag. -/
def none : Flags := ⟨false, false, false, false, false, false⟩

end Flags

/-- The column a flag's name stands for. -/
def Flag.ofName (name : Bytes) : Option Flag :=
  if name = lit "\\Seen" then some .seen
  else if name = lit "\\Deleted" then some .deleted
  else if name = lit "\\Draft" then some .draft
  else if name = lit "\\Answered" then some .answered
  else if name = lit "\\Flagged" then some .flagged
  else if name = lit "\\Recent" then some .recent
  else none

namespace MessageRepository

/-- A flag argument of `setFlags` starts with `'+'` or `'-'`. -/
def isPrefixed (flag : Bytes) : Bool :=
  flag.head? = some '+'.toUInt8 || flag.head? = some '-'.toUInt8

/-- The value and the name a flag argument stands for. -/
def splitFlag (flag : Bytes) : Bool × Bytes :=
  if flag.head? = some '-'.toUInt8 then (false, flag.drop 1)
  else if flag.head? = some '+'.toUInt8 then (true, flag.drop 1)
  else (true, flag)

/-- The loop of `setFlags`. -/
def applyFlags (f : Flags) : List Bytes → Except Bytes Flags
  | [] => .ok f
  | flag :: flags =>
    match Flag.ofName (splitFlag flag).2 with
    | none => .error (lit "setFlags: unknown flag '" ++ (splitFlag flag).2 ++ lit "'")
    | some c => applyFlags (f.set (splitFlag flag).1 c) flags

/-- The flags `setFlags` writes, from those it read: without a prefix they are replaced. -/
def newFlags (f : Flags) (flags : List Bytes) : Except Bytes Flags :=
  applyFlags (if flags.any isPrefixed then f else .none) flags

def setFlags (id : ℤ) (flags : List Bytes) : DbM (Result Answer) := do
  match ← findByID id with
  | none => setError "setFlags: message not found"
  | some msg =>
    match newFlags msg.flags flags with
    | .error e => pure (.error (some e))
    | .ok f => unchecked (.updateFlags id f)

/-! ## Folders -/

def createFolder (f : Folder) : DbM (Result Answer) := do
  if f.name = [] then setError "createFolder: folder name cannot be empty"
  else match ← findFolderByName f.userId f.name with
    | some _ =>
      pure (.error (some (lit "createFolder: folder '" ++ f.name ++ lit "' already exists")))
    | none => unchecked (.insertFolder f)

def renameFolder (id : ℤ) (newName : Bytes) : DbM (Result Answer) := do
  if newName = [] then setError "renameFolder: new name cannot be empty"
  else match ← query (FolderDAL.findByID · id) with
    | none => setError "renameFolder: folder not found"
    | some folder =>
      let existing ← findFolderByName folder.userId newName
      if existing.any (·.id ≠ folder.id) then
        pure (.error (some (lit "renameFolder: folder '" ++ newName ++ lit "' already exists")))
      else unchecked (.updateFolder { folder with name := newName })

def deleteFolder (id : ℤ) : DbM (Result Answer) := do
  match ← query (FolderDAL.findByID · id) with
  | none => setError "deleteFolder: folder not found"
  | some _ => unchecked (.deleteFolder id)

def incrementNextUID (folderId : ℤ) : DbM (Result Answer) := do
  match ← query (FolderDAL.findByID · folderId) with
  | none => setError "incrementNextUID: folder not found"
  | some _ => checked (.incrementNextUID folderId)

def setSubscribed (folderId : ℤ) (subscribed : Bool) : DbM (Result Answer) := do
  match ← query (FolderDAL.findByID · folderId) with
  | none => setError "setSubscribed: folder not found"
  | some _ => checked (.setSubscribed folderId subscribed)

end MessageRepository

/-! ## Clients of the repository -/

/-- A call of a repository operation that writes. -/
inductive RepoCall
  | append (m : Message) (folderId : ℤ)
  | deliver (m : Message) (folderId : ℤ)
  | saveToFolder (m : Message) (folderId : ℤ)
  | copy (id targetFolderId : ℤ)
  | moveToFolder (id folderId : ℤ)
  | expunge (folderId : ℤ)
  | hardDelete (id : ℤ)
  | markSeen (id : ℤ) (seen : Bool)
  | markDeleted (id : ℤ) (deleted : Bool)
  | markFlagged (id : ℤ) (flagged : Bool)
  | markAnswered (id : ℤ) (answered : Bool)
  | markDraft (id : ℤ) (draft : Bool)
  | updateFlags (id : ℤ) (flags : Flags)
  | setFlags (id : ℤ) (flags : List Bytes)
  | clearRecentByFolder (folderId : ℤ)
  | closeFolder (folderId : ℤ)
  | createFolder (f : Folder)
  | renameFolder (id : ℤ) (newName : Bytes)
  | deleteFolder (id : ℤ)
  | incrementNextUID (folderId : ℤ)
  | setSubscribed (folderId : ℤ) (subscribed : Bool)

/-- Whether an operation reported success. -/
def succeeded {α : Type} (p : DbM (Result α)) : DbM Bool := do return (← p).isOk

open MessageRepository in
/-- The operation a call stands for. -/
def callProg : RepoCall → DbM Bool
  | .append m folderId => succeeded (append m folderId)
  | .deliver m folderId => succeeded (deliver m folderId)
  | .saveToFolder m folderId => succeeded (saveToFolder m folderId)
  | .copy id targetFolderId => succeeded (copy id targetFolderId)
  | .moveToFolder id folderId => succeeded (moveToFolder id folderId)
  | .expunge folderId => succeeded (expunge folderId)
  | .hardDelete id => succeeded (hardDelete id)
  | .markSeen id seen => succeeded (markSeen id seen)
  | .markDeleted id deleted => succeeded (markDeleted id deleted)
  | .markFlagged id flagged => succeeded (markFlagged id flagged)
  | .markAnswered id answered => succeeded (markAnswered id answered)
  | .markDraft id draft => succeeded (markDraft id draft)
  | .updateFlags id flags => succeeded (updateFlags id flags)
  | .setFlags id flags => succeeded (setFlags id flags)
  | .clearRecentByFolder folderId => succeeded (clearRecentByFolder folderId)
  | .closeFolder folderId => succeeded (closeFolder folderId)
  | .createFolder f => succeeded (createFolder f)
  | .renameFolder id newName => succeeded (renameFolder id newName)
  | .deleteFolder id => succeeded (deleteFolder id)
  | .incrementNextUID folderId => succeeded (incrementNextUID folderId)
  | .setSubscribed folderId subscribed => succeeded (setSubscribed folderId subscribed)

/-- Any number of clients that call the repository; no one else touches the database. -/
def clients : System DB Write Bytes Answer Unit RepoCall Bool Empty where
  store := store
  prog _ call := do return ((), ← callProg call)
  env := nofun

end MailStack.Store
