import Mathlib.Data.List.TakeWhile
import MailStack.Machinery.Faults
import MailStack.Store.Repository

/-!
# Store/Accounts — `UserRepository`, and all the operations on the database

The statements of `UserDAL` that change the users, and the operations of both repositories as
programs over one store: the locked writes of `MessageRepository` and those of the user table.

`registerUser` makes its six `INSERT`s one after the other and not in a transaction: what went in
before one that fails stays.  The hash of a password is libsodium's, and salted; `PasswordHash` is
that function with its salt, and its check.
-/

open Bytes Prog

namespace MailStack.Store

/-- The row an `INSERT` or `UPDATE` of the user makes. -/
def User.row (u : User) : UserData := ⟨cstr u.username, cstr u.passwordHash⟩

def usernameTaken : Bytes := lit "UNIQUE constraint failed: users.username"

/-! ## `UserDAL` -/

namespace UserDAL

/-- A row other than `id` has that username. -/
def taken (db : DB) (id : Option ℤ) (username : Bytes) : Bool :=
  db.users.rows.any fun r => some r.1 ≠ id ∧ r.2.username = cstr username

/-- The new database and the id of the row. -/
def insert (db : DB) (u : User) : Except Bytes (DB × ℤ) :=
  if taken db none u.username then .error usernameTaken
  else .ok ({ db with users := db.users.insert u.row }, db.users.seq + 1)

def update (db : DB) (u : User) : Except Bytes DB :=
  match u.id with
  | none => .error (lit "update() called on a User with no id")
  | some id =>
    if (db.users.get? id).isSome && taken db (some id) u.username then .error usernameTaken
    else .ok { db with users := db.users.modify id fun _ => u.row }

def updatePassword (db : DB) (id : ℤ) (newPasswordHash : Bytes) : DB :=
  { db with users := db.users.modify id fun d => { d with passwordHash := cstr newPasswordHash } }

/-- The folders that go with a user: the user's, and what lies below them. -/
def gone (db : DB) (id : ℤ) : List ℤ :=
  FolderDAL.cascade db.folders db.folders.rows.length
    ((db.folders.rows.filter fun r => r.2.userId = id).map (·.1))

/-- The message stays when the user goes. -/
def outlives (db : DB) (id : ℤ) (m : MessageData) : Bool :=
  m.userId ≠ id ∧ m.folderId ∉ gone db id

/-- `ON DELETE CASCADE`: with a user go the folders and messages of the user, what lies below and
in these folders, and the recipients of these messages. -/
def hardDelete (db : DB) (id : ℤ) : DB where
  users := db.users.erase id
  folders := db.folders.filter fun i _ => i ∉ gone db id
  messages := db.messages.filter fun _ m => outlives db id m
  recipients := db.recipients.filter fun _ r => (db.messages.get? r.messageId).all (outlives db id)

theorem insert_ok {db db' : DB} {u : User} {id : ℤ} (h : insert db u = .ok (db', id)) :
    taken db none u.username = false ∧ db' = { db with users := db.users.insert u.row } ∧
      id = db.users.seq + 1 := by
  unfold insert at h
  split_ifs at h with htaken
  obtain ⟨rfl, rfl⟩ := Prod.mk.inj (Except.ok.inj h)
  exact ⟨by simpa using htaken, rfl, rfl⟩

theorem update_ok {db db' : DB} {u : User} (h : update db u = .ok db') :
    ∃ id, u.id = some id ∧
      ((db.users.get? id).isSome = true → taken db (some id) u.username = false) ∧
      db' = { db with users := db.users.modify id fun _ => u.row } := by
  unfold update at h
  split at h
  · exact absurd h (by simp)
  · rename_i id hid
    split_ifs at h with htaken
    refine ⟨id, hid, fun hsome => ?_, (Except.ok.inj h).symm⟩
    simpa [hsome] using htaken

end UserDAL

/-! ## `RecipientDAL`, for one recipient -/

namespace RecipientDAL

def findByID (db : DB) (id : ℤ) : Option Recipient :=
  (db.recipients.get? id).map (rowToRecipient id)

def hardDelete (db : DB) (id : ℤ) : DB := { db with recipients := db.recipients.erase id }

end RecipientDAL

/-! ## The store -/

/-- What is done under a write lock, by either repository. -/
inductive StoreWrite
  | message (w : Write)
  | insertRecipient (r : Recipient)
  | deleteRecipient (id : ℤ)
  | insertUser (u : User)
  | updateUser (u : User)
  | updatePassword (id : ℤ) (newPasswordHash : Bytes)
  /-- `updateProfile` and `updateAvatar`: columns that `UserData` leaves out. -/
  | updateProfile (id : ℤ)
  | deleteUser (id : ℤ)

/-- **What a write does**; an error is one that was rolled back. -/
def StoreWrite.apply : StoreWrite → DB → Except Bytes (DB × Answer)
  | .message w, db => w.apply db
  | .insertRecipient r, db => (RecipientDAL.insert db r).map fun db' => (db', {})
  | .deleteRecipient id, db => .ok (RecipientDAL.hardDelete db id, {})
  | .insertUser u, db => (UserDAL.insert db u).map fun p => (p.1, { id := p.2 })
  | .updateUser u, db => (UserDAL.update db u).map fun db' => (db', {})
  | .updatePassword id newPasswordHash, db =>
    .ok (UserDAL.updatePassword db id newPasswordHash, {})
  | .updateProfile _, db => .ok (db, {})
  | .deleteUser id, db => .ok (UserDAL.hardDelete db id, {})

/-- What each write does when it succeeds. -/
inductive StoreEffect (db : DB) : StoreWrite → DB → Answer → Prop
  | message {w : Write} {db' : DB} {a : Answer} (h : Effect db w db' a) :
      StoreEffect db (.message w) db' a
  | insertRecipient {r : Recipient} (hmessage : (db.messages.get? r.messageId).isSome = true) :
      StoreEffect db (.insertRecipient r)
        { db with
          recipients := db.recipients.insert { r.toRecipientData with address := cstr r.address } }
        {}
  | deleteRecipient {id : ℤ} :
      StoreEffect db (.deleteRecipient id) { db with recipients := db.recipients.erase id } {}
  | insertUser {u : User} (hfree : UserDAL.taken db none u.username = false) :
      StoreEffect db (.insertUser u) { db with users := db.users.insert u.row }
        { id := db.users.seq + 1 }
  | updateUser {u : User} {id : ℤ} (hid : u.id = some id)
      (hfree : (db.users.get? id).isSome = true →
        UserDAL.taken db (some id) u.username = false) :
      StoreEffect db (.updateUser u) { db with users := db.users.modify id fun _ => u.row } {}
  | updatePassword {id : ℤ} {hash : Bytes} :
      StoreEffect db (.updatePassword id hash) (UserDAL.updatePassword db id hash) {}
  | updateProfile {id : ℤ} : StoreEffect db (.updateProfile id) db {}
  | deleteUser {id : ℤ} : StoreEffect db (.deleteUser id) (UserDAL.hardDelete db id) {}

theorem map_ok {α β : Type} {x : Except Bytes α} {f : α → β} {b : β} (h : x.map f = .ok b) :
    ∃ a, x = .ok a ∧ f a = b := by
  cases x with
  | error e => exact absurd h (by simp [Except.map])
  | ok a => exact ⟨a, rfl, Except.ok.inj h⟩

/-- **A write that succeeds has its effect.** -/
theorem StoreWrite.effect {w : StoreWrite} {db db' : DB} {a : Answer}
    (h : w.apply db = .ok (db', a)) : StoreEffect db w db' a := by
  cases w with
  | message w => exact .message (Write.effect h)
  | insertRecipient r =>
    obtain ⟨db₁, hins, heq⟩ := map_ok h
    obtain ⟨rfl, rfl⟩ := Prod.mk.inj heq
    rw [RecipientDAL.insert] at hins
    split_ifs at hins with hmessage
    obtain rfl := Except.ok.inj hins
    exact .insertRecipient hmessage
  | insertUser u =>
    obtain ⟨⟨db₁, id⟩, hins, heq⟩ := map_ok h
    obtain ⟨hfree, rfl, rfl⟩ := UserDAL.insert_ok hins
    obtain ⟨rfl, rfl⟩ := Prod.mk.inj heq
    exact .insertUser hfree
  | updateUser u =>
    obtain ⟨db₁, hupd, heq⟩ := map_ok h
    obtain ⟨id, hid, hfree, rfl⟩ := UserDAL.update_ok hupd
    obtain ⟨rfl, rfl⟩ := Prod.mk.inj heq
    exact .updateUser hid hfree
  | deleteRecipient | updatePassword | updateProfile | deleteUser =>
    obtain ⟨rfl, rfl⟩ := Prod.mk.inj (Except.ok.inj h)
    constructor

/-- The database as a store of both repositories. -/
def mailStore : SharedStore DB StoreWrite Bytes Answer := ⟨StoreWrite.apply⟩

/-- A program over the database. -/
abbrev StoreM (α : Type) := Prog DB StoreWrite Bytes Answer α

/-- An operation of `MessageRepository`. -/
def ofMessages {α : Type} (p : DbM α) : StoreM α := p.mapWrites .message

/-- `return setError(…)`. -/
def fails {α : Type} (msg : Bytes) : StoreM (Result α) := pure (.error (some msg))

/-- A locked write whose failure is `return setError(dal.getLastError())`. -/
def lockedOrError (w : StoreWrite) : StoreM (Result Answer) := do
  return (← locked w).mapError some

namespace MessageRepository

def addRecipient (r : Recipient) : StoreM (Result Answer) := do
  match ← query (MessageDAL.findByID · r.messageId) with
  | none => fails (lit "addRecipient: message not found")
  | some _ =>
    if r.address = [] then fails (lit "addRecipient: address cannot be empty")
    else return (← locked (.insertRecipient r)).mapError fun _ => none

def removeRecipient (id : ℤ) : StoreM (Result Answer) := do
  match ← query (RecipientDAL.findByID · id) with
  | none => fails (lit "removeRecipient: recipient not found")
  | some _ => return (← locked (.deleteRecipient id)).mapError fun _ => none

end MessageRepository

/-! ## `UserRepository` -/

/-- `crypto_pwhash_str`, with the salt it drew, and `crypto_pwhash_str_verify`, hash first. -/
structure PasswordHash where
  hash : (salt password : Bytes) → Option Bytes
  verify : (hash password : Bytes) → Bool

/-- What the code relies on: a hash verifies exactly the password it was made from; it is a C
string; and the empty text, which stands for a failure, verifies nothing. -/
structure PasswordHash.Exact (P : PasswordHash) : Prop where
  verify_iff : ∀ {salt password hash other}, P.hash salt password = some hash →
    (P.verify hash other = true ↔ other = password)
  cstr_hash : ∀ {salt password hash}, P.hash salt password = some hash → cstr hash = hash
  verify_nil : ∀ password, P.verify [] password = false

namespace UserRepository

variable (P : PasswordHash)

/-- `hashPassword`: the empty text where hashing failed. -/
def hashPassword (salt password : Bytes) : Bytes := (P.hash salt password).getD []

/-- The folders of a new user. -/
def folderNames : List Bytes :=
  [lit "INBOX", lit "Sent", lit "Drafts", lit "Trash", lit "Spam"]

/-- The loop of `registerUser` over the folders. -/
def insertFolders (userId : ℤ) : List Bytes → StoreM (Result Unit)
  | [] => return .ok ()
  | name :: names => do
    match ← lockedOrError (.message (.insertFolder
        { userId, parentId := none, name, nextUid := 1, isSubscribed := true })) with
    | .error e => return .error e
    | .ok _ => insertFolders userId names

def registerUser (user : User) (password salt : Bytes) : StoreM (Result User) := do
  match ← query (UserDAL.findByUsername · user.username) with
  | some _ => fails (lit "registerUser: username already exists")
  | none =>
    if hashPassword P salt password = [] then
      fails (lit "registerUser: password hashing failed")
    else
      let user := { user with passwordHash := hashPassword P salt password }
      match ← lockedOrError (.insertUser user) with
      | .error e => return .error e
      | .ok a =>
        match ← insertFolders a.id folderNames with
        | .error e => return .error e
        | .ok () => return .ok { user with id := some a.id }

/-- Whether the password is that of the user. -/
def authorize (username password : Bytes) (db : DB) : Bool :=
  (UserDAL.findByUsername db username).any fun u => P.verify u.passwordHash password

/-- `changePassword`: a hash that failed is stored as the empty text. -/
def changePassword (id : ℤ) (newPassword salt : Bytes) : StoreM (Result Answer) := do
  match ← query (UserDAL.findByID · id) with
  | none => fails (lit "changePassword: user not found")
  | some _ => lockedOrError (.updatePassword id (hashPassword P salt newPassword))

def update (user : User) : StoreM (Result Answer) := lockedOrError (.updateUser user)

def hardDelete (id : ℤ) : StoreM (Result Answer) := do
  match ← query (UserDAL.findByID · id) with
  | none => fails (lit "hardDelete: user not found")
  | some _ => lockedOrError (.deleteUser id)

def updateProfile (id : ℤ) : StoreM (Result Answer) := lockedOrError (.updateProfile id)

end UserRepository

/-! ## What a registration leaves -/

/-- The row of a folder of a new user. -/
def newFolder (userId : ℤ) (name : Bytes) : FolderData :=
  { userId, parentId := none, name, nextUid := 1, isSubscribed := true }

section Registered

variable {P : PasswordHash} {db db' : DB} {ws : List (DB × DB)}

/-- A write that was reported to have succeeded. -/
theorem of_lockedOrError_bind {α : Type} {w : StoreWrite} {k : Result Answer → StoreM α} {c : α}
    (h : Runs mailStore (lockedOrError w >>= k) db ws c db') :
    (∃ db₁ a ws₁, StoreEffect db w db₁ a ∧ Runs mailStore (k (.ok a)) db₁ ws₁ c db') ∨
      ∃ e, Runs mailStore (k (.error e)) db ws c db' := by
  rcases Runs.of_locked_bind h with ⟨db₁, a, ws₁, hw, hk, -⟩ | ⟨e, hk⟩
  · exact .inl ⟨db₁, a, ws₁, StoreWrite.effect hw, hk⟩
  · exact .inr ⟨_, hk⟩

/-- The folders are there, and nothing else has changed. -/
theorem folders_of_insertFolders {userId : ℤ} :
    ∀ {names : List Bytes} {db : DB} {ws : List (DB × DB)},
      Runs mailStore (UserRepository.insertFolders userId names) db ws (.ok ()) db' →
        db'.users = db.users ∧ db'.messages = db.messages ∧ db'.recipients = db.recipients ∧
          (∀ i f, db.folders.get? i = some f → db'.folders.get? i = some f) ∧
          ∀ name ∈ names, ∃ i, db'.folders.get? i = some (newFolder userId (cstr name))
  | [], db, ws, h => by
      obtain ⟨-, rfl, -⟩ := Runs.of_ret h
      exact ⟨rfl, rfl, rfl, fun _ _ hf => hf, fun _ hname => absurd hname List.not_mem_nil⟩
  | name :: names, db, ws, h => by
      rcases of_lockedOrError_bind h with ⟨db₁, a, ws₁, he, hk⟩ | ⟨e, hk⟩
      · obtain ⟨husers, hmessages, hrecipients, hkeep, hnames⟩ := folders_of_insertFolders hk
        cases he with
        | message he =>
          cases he with
          | insertFolder =>
            refine ⟨husers, hmessages, hrecipients, fun i f hf => hkeep i f ?_, ?_⟩
            · have := Table.le_seq_of_get? hf
              rw [Table.get?_insert, if_neg (by omega)]
              exact hf
            · refine List.forall_mem_cons.mpr ⟨⟨db.folders.seq + 1, hkeep _ _ ?_⟩, hnames⟩
              rw [Table.get?_insert, if_pos rfl]
              rfl
      · exact absurd (Runs.of_ret hk).1 (by simp)

/-- **A registration that succeeded** found the name free, hashed the password, and left a user with
the five folders. -/
theorem of_registerUser {user user' : User} {password salt : Bytes}
    (h : Runs mailStore (UserRepository.registerUser P user password salt) db ws (.ok user') db') :
    UserDAL.findByUsername db user.username = none ∧
      UserRepository.hashPassword P salt password ≠ [] ∧
      user' = { user with
        passwordHash := UserRepository.hashPassword P salt password
        id := some (db.users.seq + 1) } ∧
      db'.users = db.users.insert user'.row ∧ db'.messages = db.messages ∧
      db'.recipients = db.recipients ∧
      (∀ i f, db.folders.get? i = some f → db'.folders.get? i = some f) ∧
      ∀ name ∈ UserRepository.folderNames, ∃ i,
        db'.folders.get? i = some (newFolder (db.users.seq + 1) name) := by
  have hfind := Runs.of_query_bind h
  cases hnone : UserDAL.findByUsername db user.username with
  | some u =>
    rw [hnone] at hfind
    exact absurd (Runs.of_ret hfind).1 (by simp)
  | none =>
    rw [hnone] at hfind
    dsimp only at hfind
    split_ifs at hfind with hhash
    · exact absurd (Runs.of_ret hfind).1 (by simp)
    · rcases of_lockedOrError_bind hfind with ⟨db₁, a, ws₁, he, hk⟩ | ⟨e, hk⟩
      · obtain ⟨r, db₂, ws₂, ws₃, hfolders, hret, -⟩ := Runs.of_bind hk
        cases r with
        | error e => exact absurd (Runs.of_ret hret).1 (by simp)
        | ok u =>
          obtain ⟨huser', rfl, -⟩ := Runs.of_ret hret
          obtain ⟨husers, hmessages, hrecipients, hkeep, hnames⟩ :=
            folders_of_insertFolders hfolders
          cases he with
          | insertUser hfree =>
            obtain rfl := Except.ok.inj huser'
            refine ⟨rfl, hhash, rfl, husers, hmessages, hrecipients, hkeep, fun name hname => ?_⟩
            have hcstr : cstr name = name := by
              revert name
              decide
            obtain ⟨i, hi⟩ := hnames name hname
            exact ⟨i, hcstr ▸ hi⟩
      · exact absurd (Runs.of_ret hk).1 (by simp)

end Registered

/-! ## All the operations -/

/-- A call of an operation that writes, of either repository. -/
inductive StoreCall
  | message (call : RepoCall)
  | addRecipient (r : Recipient)
  | removeRecipient (id : ℤ)
  | registerUser (user : User) (password salt : Bytes)
  | changePassword (id : ℤ) (newPassword salt : Bytes)
  | updateUser (user : User)
  | deleteUser (id : ℤ)
  | updateProfile (id : ℤ)

/-- Whether the operation reported success. -/
def done {α : Type} (p : StoreM (Result α)) : StoreM Bool := do return (← p).isOk

/-- The operation a call stands for. -/
def storeProg (P : PasswordHash) : StoreCall → StoreM Bool
  | .message call => ofMessages (callProg call)
  | .addRecipient r => done (MessageRepository.addRecipient r)
  | .removeRecipient id => done (MessageRepository.removeRecipient id)
  | .registerUser user password salt => done (UserRepository.registerUser P user password salt)
  | .changePassword id newPassword salt =>
    done (UserRepository.changePassword P id newPassword salt)
  | .updateUser user => done (UserRepository.update user)
  | .deleteUser id => done (UserRepository.hardDelete id)
  | .updateProfile id => done (UserRepository.updateProfile id)

/-- The calls are made one after the other, any write failing; the list has the databases before
and after each write that succeeded. -/
inductive Session (P : PasswordHash) : DB → List StoreCall → List (DB × DB) → DB → Prop
  | nil (db : DB) : Session P db [] [] db
  | cons {db db₁ db₂ : DB} {call : StoreCall} {calls : List StoreCall} {ws ws' : List (DB × DB)}
      {ok : Bool} (hcall : Runs mailStore (storeProg P call) db ws ok db₁)
      (hcalls : Session P db₁ calls ws' db₂) : Session P db (call :: calls) (ws ++ ws') db₂

/-! ## A user -/

/-- A hash that hides nothing, and no salt. -/
def plainHash : PasswordHash := ⟨fun _ password => some password, fun hash password =>
  hash = password⟩

/-- A hash that marks the password, so that none is empty, and fails on one with a NUL. -/
def markedHash : PasswordHash where
  hash _ password := if 0 ∈ password then none else some ('$'.toUInt8 :: password)
  verify hash password := hash = '$'.toUInt8 :: password

theorem exact_markedHash : markedHash.Exact where
  verify_iff := by
    intro salt password hash other h
    simp only [markedHash, Option.ite_none_left_eq_some, Option.some.injEq] at h
    obtain ⟨-, rfl⟩ := h
    simp [markedHash, eq_comm]
  cstr_hash := by
    intro salt password hash h
    simp only [markedHash, Option.ite_none_left_eq_some, Option.some.injEq] at h
    obtain ⟨hnul, rfl⟩ := h
    refine List.takeWhile_eq_self_iff.mpr fun c hc => ?_
    rcases List.mem_cons.mp hc with rfl | hc
    · decide
    · exact decide_eq_true fun h0 => hnul (h0 ▸ hc)
  verify_nil := by simp [markedHash]

def alice : User := { username := lit "alice", passwordHash := [] }

/-- Alice registers. -/
theorem registers_alice : ∃ ws,
    Runs mailStore (UserRepository.registerUser plainHash alice (lit "secret") []) .empty ws
      (.ok { alice with passwordHash := lit "secret", id := some 1 })
      (run mailStore (UserRepository.registerUser plainHash alice (lit "secret") []) .empty).1 :=
  ⟨_, .read (.write rfl (.write rfl (.write rfl (.write rfl (.write rfl (.write rfl
    (.ret _ _)))))))⟩

end MailStack.Store
