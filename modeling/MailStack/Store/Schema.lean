import Mathlib.Data.List.Sort
import MailStack.Machinery.Bytes
import MailStack.Machinery.Table

/-!
# Store/Schema — the tables, and the SQL statements of the DAL classes

The four tables of `001_init_scheme.sql` and, class by class, the statements the DALs prepare.  A
statement that can violate a constraint returns SQLite's error text; one that succeeds returns the
new database.  Deletes cascade as the foreign keys say.

Text is bound through `c_str()`, so what is stored or compared ends before the first NUL.
-/

open Bytes

namespace MailStack.Store

/-- A text as `sqlite3_bind_text(…, s.c_str(), -1, …)` binds it. -/
def cstr (s : Bytes) : Bytes := s.takeWhile (· ≠ 0)

/-! ## Entities -/

/-- The columns of `users` that the mail servers use. -/
structure UserData where
  username : Bytes
  passwordHash : Bytes
  deriving DecidableEq, Repr

/-- `User`. -/
structure User extends UserData where
  id : Option ℤ := none
  deriving DecidableEq, Repr

/-- The columns of `folders`. -/
structure FolderData where
  userId : ℤ
  parentId : Option ℤ
  name : Bytes
  nextUid : ℤ := 1
  isSubscribed : Bool := false
  deriving DecidableEq, Repr

/-- `Folder`. -/
structure Folder extends FolderData where
  id : Option ℤ := none
  deriving DecidableEq, Repr

/-- The six flag columns of `messages`. -/
structure Flags where
  seen : Bool := false
  deleted : Bool := false
  draft : Bool := false
  answered : Bool := false
  flagged : Bool := false
  recent : Bool := true
  deriving DecidableEq, Repr

/-- The columns of `messages` that no statement changes once the row is there. -/
structure Content where
  rawFilePath : Bytes
  sizeBytes : ℤ := 0
  mimeStructure : Option Bytes := none
  messageIdHeader : Option Bytes := none
  inReplyTo : Option Bytes := none
  referencesHeader : Option Bytes := none
  fromAddress : Bytes
  senderAddress : Option Bytes := none
  subject : Option Bytes := none
  internalDate : Bytes := []
  dateHeader : Option Bytes := none
  deriving DecidableEq, Repr

/-- The columns of `messages`. -/
structure MessageData where
  userId : ℤ
  folderId : ℤ
  uid : ℤ
  content : Content
  flags : Flags := {}
  deriving DecidableEq, Repr

/-- `Message`. -/
structure Message extends MessageData where
  id : Option ℤ := none
  deriving DecidableEq, Repr

/-- `RecipientType`. -/
inductive RecipientType
  | to | cc | bcc | replyTo
  deriving DecidableEq, Repr

/-- The columns of `recipients`. -/
structure RecipientData where
  messageId : ℤ
  address : Bytes
  type : RecipientType := .to
  deriving DecidableEq, Repr

/-- `Recipient`. -/
structure Recipient extends RecipientData where
  id : Option ℤ := none
  deriving DecidableEq, Repr

/-- The database. -/
structure DB where
  users : Table UserData
  folders : Table FolderData
  messages : Table MessageData
  recipients : Table RecipientData

/-- The database the migration creates. -/
def DB.empty : DB := ⟨.empty, .empty, .empty, .empty⟩

/-- The texts as they are bound. -/
def Content.bound (c : Content) : Content where
  rawFilePath := cstr c.rawFilePath
  sizeBytes := c.sizeBytes
  mimeStructure := c.mimeStructure.map cstr
  messageIdHeader := c.messageIdHeader.map cstr
  inReplyTo := c.inReplyTo.map cstr
  referencesHeader := c.referencesHeader.map cstr
  fromAddress := cstr c.fromAddress
  senderAddress := c.senderAddress.map cstr
  subject := c.subject.map cstr
  internalDate := cstr c.internalDate
  dateHeader := c.dateHeader.map cstr

/-- The row an `INSERT` of the message makes. -/
def Message.row (m : Message) : MessageData :=
  { m.toMessageData with content := m.content.bound }

/-- The row an `INSERT` or `UPDATE` of the folder makes. -/
def Folder.row (f : Folder) : FolderData := { f.toFolderData with name := cstr f.name }

def uniqueFailed : Bytes := lit "UNIQUE constraint failed: messages.folder_id, messages.uid"

def foreignKeyFailed : Bytes := lit "FOREIGN KEY constraint failed"

/-! ## `UserDAL` -/

namespace UserDAL

def rowToUser (i : ℤ) (d : UserData) : User := { d with id := some i }

def findByID (db : DB) (id : ℤ) : Option User := (db.users.get? id).map (rowToUser id)

def findByUsername (db : DB) (username : Bytes) : Option User :=
  (db.users.rows.find? fun r => r.2.username = cstr username).map fun r => rowToUser r.1 r.2

end UserDAL

/-! ## `FolderDAL` -/

namespace FolderDAL

def rowToFolder (i : ℤ) (d : FolderData) : Folder := { d with id := some i }

def findByID (db : DB) (id : ℤ) : Option Folder := (db.folders.get? id).map (rowToFolder id)

/-- The user's folders by name, `LIMIT` and `OFFSET` applied. -/
def findByUser (db : DB) (userId : ℤ) (limit offset : ℕ) : List Folder :=
  ((((db.folders.rows.filter fun r => r.2.userId = userId).map fun r =>
    rowToFolder r.1 r.2).insertionSort fun f g => f.name ≤ g.name).drop offset).take limit

def findByName (db : DB) (userId : ℤ) (name : Bytes) : Option Folder :=
  (db.folders.rows.find? fun r => r.2.userId = userId ∧ r.2.name = cstr name).map fun r =>
    rowToFolder r.1 r.2

/-- The user and the parent a folder row refers to exist. -/
def refers (db : DB) (d : FolderData) : Bool :=
  (db.users.get? d.userId).isSome && d.parentId.all fun p => (db.folders.get? p).isSome

/-- The new database and the id of the row. -/
def insert (db : DB) (f : Folder) : Except Bytes (DB × ℤ) :=
  if refers db f.row then
    .ok ({ db with folders := db.folders.insert f.row }, db.folders.seq + 1)
  else .error foreignKeyFailed

def update (db : DB) (f : Folder) : Except Bytes DB :=
  match f.id with
  | none => .error (lit "update() called on a Folder with no id")
  | some id =>
    if (db.folders.get? id).isSome && !refers db f.row then .error foreignKeyFailed
    else .ok { db with folders := db.folders.modify id fun _ => f.row }

def incrementNextUID (db : DB) (id : ℤ) : DB :=
  { db with folders := db.folders.modify id fun d => { d with nextUid := d.nextUid + 1 } }

def setSubscribed (db : DB) (id : ℤ) (subscribed : Bool) : DB :=
  { db with folders := db.folders.modify id fun d => { d with isSubscribed := subscribed } }

section

variable (db : DB) (id : ℤ)

@[simp] theorem incrementNextUID_folders : (incrementNextUID db id).folders =
    db.folders.modify id fun d => { d with nextUid := d.nextUid + 1 } := rfl

@[simp] theorem incrementNextUID_messages : (incrementNextUID db id).messages = db.messages := rfl

@[simp] theorem incrementNextUID_recipients :
    (incrementNextUID db id).recipients = db.recipients := rfl

@[simp] theorem incrementNextUID_users : (incrementNextUID db id).users = db.users := rfl

@[simp] theorem setSubscribed_folders (b : Bool) : (setSubscribed db id b).folders =
    db.folders.modify id fun d => { d with isSubscribed := b } := rfl

@[simp] theorem setSubscribed_messages (b : Bool) :
    (setSubscribed db id b).messages = db.messages := rfl

@[simp] theorem setSubscribed_recipients (b : Bool) :
    (setSubscribed db id b).recipients = db.recipients := rfl

@[simp] theorem setSubscribed_users (b : Bool) : (setSubscribed db id b).users = db.users := rfl

end

/-- A folder that goes in refers to rows that are there. -/
theorem insert_ok {db db' : DB} {f : Folder} {id : ℤ} (h : insert db f = .ok (db', id)) :
    refers db f.row = true ∧ db' = { db with folders := db.folders.insert f.row } ∧
      id = db.folders.seq + 1 := by
  unfold insert at h
  split_ifs at h with hrefs
  obtain ⟨rfl, rfl⟩ := Prod.mk.inj (Except.ok.inj h)
  exact ⟨hrefs, rfl, rfl⟩

/-- A folder row that is written refers to rows that are there. -/
theorem update_ok {db db' : DB} {f : Folder} (h : update db f = .ok db') :
    ∃ id, f.id = some id ∧ ((db.folders.get? id).isSome = true → refers db f.row = true) ∧
      db' = { db with folders := db.folders.modify id fun _ => f.row } := by
  unfold update at h
  split at h
  · exact absurd h (by simp)
  · rename_i id hid
    split_ifs at h with hrefs
    refine ⟨id, hid, fun hsome => ?_, (Except.ok.inj h).symm⟩
    simpa [hsome] using hrefs

/-- The folders below `ids`, followed for `n` generations. -/
def cascade (t : Table FolderData) : ℕ → List ℤ → List ℤ
  | 0, ids => ids
  | n + 1, ids =>
    cascade t n (ids ++ (t.rows.filter fun r => r.1 ∉ ids ∧ ∃ p ∈ r.2.parentId, p ∈ ids).map (·.1))

/-- The folders that go with a folder. -/
def gone (db : DB) (id : ℤ) : List ℤ := cascade db.folders db.folders.rows.length [id]

/-- `ON DELETE CASCADE`: with a folder go the folders below it, their messages and the recipients
of these. -/
def hardDelete (db : DB) (id : ℤ) : DB :=
  { db with
    folders := db.folders.filter fun i _ => i ∉ gone db id
    messages := db.messages.filter fun _ m => m.folderId ∉ gone db id
    recipients := db.recipients.filter fun _ r =>
      ((db.messages.get? r.messageId).all fun m => m.folderId ∉ gone db id) }

section

variable (db : DB) (id : ℤ)

@[simp] theorem hardDelete_folders :
    (hardDelete db id).folders = db.folders.filter fun i _ => i ∉ gone db id := rfl

@[simp] theorem hardDelete_messages :
    (hardDelete db id).messages = db.messages.filter fun _ m => m.folderId ∉ gone db id := rfl

@[simp] theorem hardDelete_users : (hardDelete db id).users = db.users := rfl

end

end FolderDAL

/-! ## `MessageDAL` -/

namespace MessageDAL

def rowToMessage (i : ℤ) (d : MessageData) : Message := { d with id := some i }

def findByID (db : DB) (id : ℤ) : Option Message := (db.messages.get? id).map (rowToMessage id)

def findByUID (db : DB) (folderId uid : ℤ) : Option Message :=
  (db.messages.rows.find? fun r => r.2.folderId = folderId ∧ r.2.uid = uid).map fun r =>
    rowToMessage r.1 r.2

/-- The messages that satisfy `p`, by ascending uid, `LIMIT` and `OFFSET` applied. -/
def select (db : DB) (p : MessageData → Bool) (limit offset : ℕ) : List Message :=
  ((((db.messages.rows.filter fun r => p r.2).map fun r =>
    rowToMessage r.1 r.2).insertionSort fun m m' => m.uid ≤ m'.uid).drop offset).take limit

def findByFolder (db : DB) (folderId : ℤ) (limit offset : ℕ) : List Message :=
  select db (fun m => m.folderId = folderId) limit offset

def findDeleted (db : DB) (folderId : ℤ) (limit offset : ℕ) : List Message :=
  select db (fun m => m.folderId = folderId ∧ m.flags.deleted) limit offset

/-- A row other than `id` has that uid in that folder. -/
def taken (db : DB) (id : Option ℤ) (folderId uid : ℤ) : Bool :=
  db.messages.rows.any fun r => some r.1 ≠ id ∧ r.2.folderId = folderId ∧ r.2.uid = uid

/-- The new database and the id of the row. -/
def insert (db : DB) (m : Message) : Except Bytes (DB × ℤ) :=
  if taken db none m.folderId m.uid then .error uniqueFailed
  else if (db.users.get? m.userId).isSome && (db.folders.get? m.folderId).isSome then
    .ok ({ db with messages := db.messages.insert m.row }, db.messages.seq + 1)
  else .error foreignKeyFailed

/-- A message goes in under a free uid, with its user and its folder there. -/
theorem insert_ok {db db' : DB} {m : Message} {id : ℤ} (h : insert db m = .ok (db', id)) :
    taken db none m.folderId m.uid = false ∧ (db.users.get? m.userId).isSome = true ∧
      (db.folders.get? m.folderId).isSome = true ∧
      db' = { db with messages := db.messages.insert m.row } ∧ id = db.messages.seq + 1 := by
  unfold insert at h
  split_ifs at h with htaken hrefs
  obtain ⟨rfl, rfl⟩ := Prod.mk.inj (Except.ok.inj h)
  obtain ⟨huser, hfolder⟩ := Bool.and_eq_true_iff.mp hrefs
  exact ⟨by simpa using htaken, huser, hfolder, rfl, rfl⟩

def setFlags (db : DB) (id : ℤ) (f : Flags → Flags) : DB :=
  { db with messages := db.messages.modify id fun m => { m with flags := f m.flags } }

def updateSeen (db : DB) (id : ℤ) (seen : Bool) : DB := setFlags db id fun f => { f with seen }

def updateDeleted (db : DB) (id : ℤ) (deleted : Bool) : DB :=
  setFlags db id fun f => { f with deleted }

def updateFlags (db : DB) (id : ℤ) (flags : Flags) : DB := setFlags db id fun _ => flags

def moveToFolder (db : DB) (id folderId newUid : ℤ) : Except Bytes DB :=
  match db.messages.get? id with
  | none => .ok db
  | some _ =>
    if taken db (some id) folderId newUid then .error uniqueFailed
    else if (db.folders.get? folderId).isSome then
      .ok { db with
        messages := db.messages.modify id fun m => { m with folderId, uid := newUid } }
    else .error foreignKeyFailed

/-- A message that moves takes a free uid in the folder it moves to. -/
theorem moveToFolder_ok {db db' : DB} {id folderId newUid : ℤ}
    (h : moveToFolder db id folderId newUid = .ok db') :
    (db.messages.get? id = none ∧ db' = db) ∨
      (taken db (some id) folderId newUid = false ∧ (db.folders.get? folderId).isSome = true ∧
        db' = { db with
          messages := db.messages.modify id fun m => { m with folderId, uid := newUid } }) := by
  unfold moveToFolder at h
  split at h
  · exact .inl ⟨‹_›, (Except.ok.inj h).symm⟩
  · split_ifs at h with htaken hfolder
    exact .inr ⟨by simpa using htaken, hfolder, (Except.ok.inj h).symm⟩

/-- `ON DELETE CASCADE`: with a message go its recipients. -/
def hardDelete (db : DB) (id : ℤ) : DB :=
  { db with
    messages := db.messages.erase id
    recipients := db.recipients.filter fun _ r => r.messageId ≠ id }

def clearRecentByFolder (db : DB) (folderId : ℤ) : DB :=
  { db with
    messages := db.messages.map fun _ m =>
      if m.folderId = folderId then { m with flags := { m.flags with recent := false } } else m }

section

variable (db : DB) (id : ℤ)

@[simp] theorem setFlags_messages (g : Flags → Flags) : (setFlags db id g).messages =
    db.messages.modify id fun m => { m with flags := g m.flags } := rfl

@[simp] theorem setFlags_folders (g : Flags → Flags) :
    (setFlags db id g).folders = db.folders := rfl

@[simp] theorem setFlags_recipients (g : Flags → Flags) :
    (setFlags db id g).recipients = db.recipients := rfl

@[simp] theorem setFlags_users (g : Flags → Flags) : (setFlags db id g).users = db.users := rfl

@[simp] theorem hardDelete_messages :
    (hardDelete db id).messages = db.messages.erase id := rfl

@[simp] theorem hardDelete_folders : (hardDelete db id).folders = db.folders := rfl

@[simp] theorem hardDelete_recipients : (hardDelete db id).recipients =
    db.recipients.filter fun _ r => r.messageId ≠ id := rfl

@[simp] theorem hardDelete_users : (hardDelete db id).users = db.users := rfl

@[simp] theorem clearRecentByFolder_messages : (clearRecentByFolder db id).messages =
    db.messages.map fun _ m =>
      if m.folderId = id then { m with flags := { m.flags with recent := false } } else m := rfl

@[simp] theorem clearRecentByFolder_folders :
    (clearRecentByFolder db id).folders = db.folders := rfl

@[simp] theorem clearRecentByFolder_recipients :
    (clearRecentByFolder db id).recipients = db.recipients := rfl

@[simp] theorem clearRecentByFolder_users : (clearRecentByFolder db id).users = db.users := rfl

end

end MessageDAL

/-! ## `RecipientDAL` -/

namespace RecipientDAL

def rowToRecipient (i : ℤ) (d : RecipientData) : Recipient := { d with id := some i }

def findByMessage (db : DB) (messageId : ℤ) : List Recipient :=
  (db.recipients.rows.filter fun r => r.2.messageId = messageId).map fun r =>
    rowToRecipient r.1 r.2

def insert (db : DB) (r : Recipient) : Except Bytes DB :=
  if (db.messages.get? r.messageId).isSome then
    .ok { db with
      recipients := db.recipients.insert { r.toRecipientData with address := cstr r.address } }
  else .error foreignKeyFailed

theorem insert_ok {db db' : DB} {r : Recipient} (h : insert db r = .ok db') :
    db' = { db with
      recipients := db.recipients.insert
        { r.toRecipientData with address := cstr r.address } } := by
  unfold insert at h
  split_ifs at h
  exact (Except.ok.inj h).symm

end RecipientDAL

end MailStack.Store
