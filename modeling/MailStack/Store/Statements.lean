import MailStack.Machinery.Transaction
import MailStack.Store.Accounts

/-!
# Store/Statements — the operations as the statements they are made of

`Store/Repository` and `Store/Accounts` take what is done under one lock for one step.  Here it is
the statements one after the other, on a connection on which any of them may fail: those of a
transaction are made whole or not at all, and are then the one step (`atomic_…`), and the six
`INSERT`s of `registerUser` are not.
-/

open Bytes Sql

namespace MailStack.Store

/-- An operation of a repository on its connection; it may leave a text in `m_last_error`. -/
abbrev StatementM (α : Type) := SqlM DB Bytes (Option Bytes) α

namespace Statements

/-- A statement whose failure is `return setError(dal.getLastError())`. -/
def perform {β : Type} (f : DB → Except Bytes (DB × β)) : StatementM β := statement some f

/-- `return setError(msg)`. -/
def setError {α : Type} (msg : String) : StatementM α := throw (some (lit msg))

/-! ## `MessageRepository` -/

def incrementNextUID (folderId : ℤ) : StatementM Unit :=
  perform fun db => .ok (FolderDAL.incrementNextUID db folderId, ())

/-- The body of `assignUID`'s transaction. -/
def assignRow (m : Message) (folderId : ℤ) : StatementM Message := do
  match ← lookup (FolderDAL.findByID · folderId) with
  | none => setError "assignUID: folder not found"
  | some folder =>
    let m := { m with folderId, uid := folder.nextUid }
    let id ← perform (MessageDAL.insert · m)
    incrementNextUID folderId
    return { m with id := some id }

def assignUID (m : Message) (folderId : ℤ) : StatementM Message :=
  transaction (some (lit "assignUID: failed to begin transaction"))
    (some (lit "assignUID: commit failed")) (assignRow m folderId)

def append (m : Message) (folderId : ℤ) : StatementM Message := assignUID m folderId

def saveToFolder (m : Message) (folderId : ℤ) : StatementM Message :=
  assignUID { m with flags := { m.flags with seen := true, recent := false } } folderId

def deliver (m : Message) (folderId : ℤ) : StatementM Message := do
  let m' := { m with flags := { m.flags with seen := false, recent := true, draft := false } }
  if folderId ≤ 0 then
    match ← lookup (FolderDAL.findByName · m.userId (lit "INBOX")) with
    | none => setError "deliver: INBOX not found for user"
    | some inbox => assignUID m' (inbox.id.getD 0)
  else assignUID m' folderId

/-- The body of `moveToFolder`'s transaction. -/
def moveRow (id folderId newUid : ℤ) : StatementM Unit := do
  perform fun db => (MessageDAL.moveToFolder db id folderId newUid).map (·, ())
  incrementNextUID folderId

def moveToFolder (id folderId : ℤ) : StatementM Unit := do
  match ← lookup (FolderDAL.findByID · folderId) with
  | none => setError "moveToFolder: folder not found"
  | some folder =>
    transaction (some (lit "moveToFolder: failed to begin transaction"))
      (some (lit "moveToFolder: commit failed")) (moveRow id folderId folder.nextUid)

/-- The loop of `expunge`. -/
def deleteRows : List ℤ → StatementM Unit
  | [] => return ()
  | id :: ids => do
    perform fun db => .ok (MessageDAL.hardDelete db id, ())
    deleteRows ids

/-- `expunge`: a message without an id is passed over. -/
def expunge (folderId : ℤ) : StatementM Unit := do
  let deleted ← select (MessageDAL.findDeleted · folderId MessageRepository.intMax 0)
  transaction (some (lit "expunge: failed to begin transaction"))
    (some (lit "expunge: commit failed")) (deleteRows (deleted.filterMap (·.id)))

/-- The loop of `copy`. -/
def insertRows (messageId : ℤ) : List Recipient → StatementM Unit
  | [] => return ()
  | r :: rs => do
    statement
      (fun e => some (lit "copy: failed to copy recipient " ++ [0xE2, 0x80, 0x94] ++ lit " " ++ e))
      fun db => (RecipientDAL.insert db { r with id := none, messageId }).map (·, ())
    insertRows messageId rs

/-- The body of `copy`'s transaction. -/
def copyRows (copy : Message) (recipients : List Recipient) (folderId : ℤ) : StatementM Message := do
  let id ← perform (MessageDAL.insert · copy)
  insertRows id recipients
  incrementNextUID folderId
  return { copy with id := some id }

def copy (id targetFolderId : ℤ) : StatementM Message := do
  match ← lookup (MessageDAL.findByID · id) with
  | none => setError "copy: message not found"
  | some msg =>
    match ← lookup (FolderDAL.findByID · targetFolderId) with
    | none => setError "copy: target folder not found"
    | some folder =>
      let recipients ← select (RecipientDAL.findByMessage · id)
      transaction (some (lit "copy: failed to begin transaction"))
        (some (lit "copy: commit failed"))
        (copyRows { msg with id := none, folderId := targetFolderId, uid := folder.nextUid }
          recipients targetFolderId)

/-! ## `UserRepository` -/

/-- The loop of `registerUser`. -/
def insertFolders (userId : ℤ) : List Bytes → StatementM Unit
  | [] => return ()
  | name :: names => do
    let _ ← perform (FolderDAL.insert ·
      { userId, parentId := none, name, nextUid := 1, isSubscribed := true })
    insertFolders userId names

def registerUser (P : PasswordHash) (user : User) (password salt : Bytes) : StatementM User := do
  match ← lookup (UserDAL.findByUsername · user.username) with
  | some _ => setError "registerUser: username already exists"
  | none =>
    let user := { user with passwordHash := UserRepository.hashPassword P salt password }
    if user.passwordHash = [] then setError "registerUser: password hashing failed"
    else
      let id ← perform (UserDAL.insert · user)
      insertFolders id UserRepository.folderNames
      return { user with id := some id }

/-! ## What is done under the lock is done whole -/

section Atomic

variable {db : DB}

theorem within_assignRow (m : Message) (folderId : ℤ) :
    Sql.Within db db (assignRow m folderId) fun m' s => ∃ a,
      (Write.assignUID m folderId).apply db = .ok (s, a) ∧
        m' = { m with id := some a.id, folderId, uid := a.uid } := by
  refine Within.lookup_bind .throw fun folder hfolder => ?_
  refine .bind (.statement (Q := fun id s =>
    MessageDAL.insert db { m with folderId, uid := folder.nextUid } = .ok (s, id))
    fun _ _ h => h) fun id s hid => ?_
  refine .bind (.statement (Q := fun _ s' => s' = FolderDAL.incrementNextUID s folderId)
    fun s' _ h => (Prod.mk.inj (Except.ok.inj h)).1.symm) fun _ s' hs' => .pure ?_
  obtain rfl := hs'
  exact ⟨⟨id, folder.nextUid⟩, by simp only [Write.apply, hfolder, hid], rfl⟩

/-- **`assignUID`.** -/
theorem atomic_assignUID (m : Message) (folderId : ℤ) :
    Atomic db (assignUID m folderId) fun m' s => ∃ a,
      (Write.assignUID m folderId).apply db = .ok (s, a) ∧
        m' = { m with id := some a.id, folderId, uid := a.uid } :=
  .transaction (within_assignRow m folderId)

/-- **`deliver`** is `assignUID` on the folder it was given or on the user's inbox. -/
theorem atomic_deliver (m : Message) (folderId : ℤ) :
    Atomic db (deliver m folderId) fun _ s => ∃ m' folderId' a,
      (Write.assignUID m' folderId').apply db = .ok (s, a) := by
  have hassign : ∀ m' folderId', Atomic db (assignUID m' folderId') fun _ s => ∃ m' folderId' a,
      (Write.assignUID m' folderId').apply db = .ok (s, a) := fun m' folderId' =>
    (atomic_assignUID m' folderId').mono fun _ _ ⟨a, h, _⟩ => ⟨m', folderId', a, h⟩
  unfold deliver
  dsimp only
  split_ifs
  · exact Atomic.lookup_bind .throw fun inbox _ => hassign _ _
  · exact hassign _ _

/-- **`moveToFolder`.** -/
theorem atomic_moveToFolder (id folderId : ℤ) :
    Atomic db (moveToFolder id folderId) fun _ s => ∃ folder a,
      FolderDAL.findByID db folderId = some folder ∧
        (Write.moveToFolder id folderId folder.nextUid).apply db = .ok (s, a) := by
  refine Atomic.lookup_bind .throw fun folder hfolder => .transaction ?_
  refine .bind (.statement (Q := fun _ s =>
    MessageDAL.moveToFolder db id folderId folder.nextUid = .ok s) fun s _ h => ?_)
    fun _ s hs => .statement fun s' _ h => ⟨folder, {}, hfolder, ?_⟩
  · obtain ⟨s', hs', heq⟩ := map_ok h
    obtain ⟨rfl, -⟩ := Prod.mk.inj heq
    exact hs'
  · obtain ⟨rfl, -⟩ := Prod.mk.inj (Except.ok.inj h)
    simp only [Write.apply, hs]

theorem within_deleteRows {s : DB} (ids : List ℤ) :
    Sql.Within db s (deleteRows ids) fun _ s' => s' = ids.foldl MessageDAL.hardDelete s := by
  induction ids generalizing s with
  | nil => exact .pure rfl
  | cons id ids ih =>
    refine .bind (.statement (Q := fun _ s' => s' = MessageDAL.hardDelete s id)
      fun s' _ h => (Prod.mk.inj (Except.ok.inj h)).1.symm) fun _ s' hs' => ?_
    obtain rfl := hs'
    exact ih

/-- **`expunge`.** -/
theorem atomic_expunge (folderId : ℤ) :
    Atomic db (expunge folderId) fun _ s => ∃ ids a,
      (Write.expunge ids).apply db = .ok (s, a) := by
  refine Atomic.select_bind fun rows _ => .transaction ((within_deleteRows _).mono ?_)
  rintro _ s rfl
  exact ⟨_, {}, rfl⟩

theorem within_insertRows {s : DB} (messageId : ℤ) (recipients : List Recipient) :
    Sql.Within db s (insertRows messageId recipients) fun _ s' =>
      insertRecipients messageId recipients s = .ok s' := by
  induction recipients generalizing s with
  | nil => exact .pure rfl
  | cons r rs ih =>
    refine .bind (.statement (Q := fun _ s' =>
      RecipientDAL.insert s { r with id := none, messageId } = .ok s') fun s' _ h => ?_)
      fun _ s' hs' => ih.mono fun _ s'' h => ?_
    · obtain ⟨s'', hs'', heq⟩ := map_ok h
      obtain ⟨rfl, -⟩ := Prod.mk.inj heq
      exact hs''
    · rw [insertRecipients, hs']
      exact h

/-- The transaction of `copy`. -/
def copyTransaction (copy : Message) (recipients : List Recipient) (folderId : ℤ) :
    StatementM Message :=
  transaction (some (lit "copy: failed to begin transaction")) (some (lit "copy: commit failed"))
    (copyRows copy recipients folderId)

theorem atomic_copyTransaction (copy : Message) (recipients : List Recipient) (folderId : ℤ) :
    Atomic db (copyTransaction copy recipients folderId) fun m' s => ∃ a,
      (Write.copy copy recipients folderId).apply db = .ok (s, a) ∧
        m' = { copy with id := some a.id } := by
  refine .transaction (.bind (.statement (Q := fun i s => MessageDAL.insert db copy = .ok (s, i))
    fun _ _ h => h) fun i s hi => .bind (within_insertRows i recipients) fun _ s' hs' => ?_)
  refine .bind (.statement (Q := fun _ s'' => s'' = FolderDAL.incrementNextUID s' folderId)
    fun s'' _ h => (Prod.mk.inj (Except.ok.inj h)).1.symm) fun _ s'' hs'' => .pure ?_
  obtain rfl := hs''
  exact ⟨⟨i, copy.uid⟩, by simp only [Write.apply, hi, hs'], rfl⟩

/-- **`copy`** copies the recipients that the query delivered. -/
theorem atomic_copy (id targetFolderId : ℤ) :
    Atomic db (copy id targetFolderId) fun _ s => ∃ msg folder recipients a,
      MessageDAL.findByID db id = some msg ∧ FolderDAL.findByID db targetFolderId = some folder ∧
        recipients <+: RecipientDAL.findByMessage db id ∧
        (Write.copy { msg with id := none, folderId := targetFolderId, uid := folder.nextUid }
          recipients targetFolderId).apply db = .ok (s, a) :=
  Atomic.lookup_bind .throw fun msg hmsg => .lookup_bind .throw fun folder hfolder =>
    .select_bind fun recipients hrecipients => (atomic_copyTransaction _ _ _).mono
      fun _ _ ⟨a, h, _⟩ => ⟨msg, folder, recipients, a, hmsg, hfolder, hrecipients, h⟩

end Atomic

end Statements

end MailStack.Store
