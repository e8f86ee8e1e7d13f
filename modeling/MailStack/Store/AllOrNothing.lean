import MailStack.Store.Statements
import MailStack.Store.Uid

/-!
# Store/AllOrNothing — what an operation leaves, whichever statement fails

What runs in a transaction leaves no trace when it fails, and `registerUser`, which opens none, may
leave a user with some of the folders.  A success says less than it seems to: an `UPDATE` succeeds
on no row at all, so the move of a message that is not there is reported; and the query for the
recipients ends the same way on its last row and on an error, so a copy may lack some of them.
-/

open Bytes Sql

namespace MailStack.Store.Statements

/-! ## What is moved -/

section Move

variable {db : DB} {id folderId : ℤ}

/-- The message `id` has gone to the folder, and nothing else has happened. -/
def Moved (id folderId : ℤ) (db db' : DB) : Prop :=
  ∃ m f, db.messages.get? id = some m ∧ db.folders.get? folderId = some f ∧
    db'.messages.get? id = some { m with folderId, uid := f.nextUid } ∧
    db'.folders.get? folderId = some { f with nextUid := f.nextUid + 1 } ∧
    (∀ i ≠ id, db'.messages.get? i = db.messages.get? i) ∧
    ∀ i ≠ folderId, db'.folders.get? i = db.folders.get? i

theorem get?_of_findByID {folder : Folder} (h : FolderDAL.findByID db folderId = some folder) :
    db.folders.get? folderId = some folder.toFolderData := by
  obtain ⟨f, hf, rfl⟩ := Option.map_eq_some_iff.mp h
  exact hf

/-- A message that is there is moved. -/
theorem moved_of_apply {folder : Folder} {db' : DB} {a : Answer}
    (hm : (db.messages.get? id).isSome) (hf : FolderDAL.findByID db folderId = some folder)
    (h : (Write.moveToFolder id folderId folder.nextUid).apply db = .ok (db', a)) :
    Moved id folderId db db' := by
  obtain ⟨m, hm⟩ := Option.isSome_iff_exists.mp hm
  have hf := get?_of_findByID hf
  cases Write.effect h with
  | moveToFolder =>
    refine ⟨m, folder.toFolderData, hm, hf, ?_, ?_, fun i hi => ?_, fun i hi => ?_⟩
    · rw [FolderDAL.incrementNextUID_messages, Table.get?_modify, if_pos rfl, hm]
      rfl
    · rw [FolderDAL.incrementNextUID_folders, Table.get?_modify, if_pos rfl, hf]
      rfl
    · rw [FolderDAL.incrementNextUID_messages, Table.get?_modify, if_neg hi]
    · rw [FolderDAL.incrementNextUID_folders, Table.get?_modify, if_neg hi]
  | moveNothing hnone => exact absurd (hm.symm.trans hnone) (by simp)

/-- A transaction of `moveToFolder` that goes through. -/
theorem exec_moveToFolder {folder : Folder} {db' : DB} {a : Answer}
    (hf : FolderDAL.findByID db folderId = some folder)
    (h : (Write.moveToFolder id folderId folder.nextUid).apply db = .ok (db', a)) :
    exec (moveToFolder id folderId) { committed := db } = (.ok (), { committed := db' }) := by
  have hfind : exec (lookup (FolderDAL.findByID · folderId))
      ({ committed := db } : Connection DB Bytes) =
        ((.ok (some folder) : Except (Option Bytes) _), { committed := db }) := by
    rw [exec_lookup, hf]
    rfl
  rw [moveToFolder, exec_bind, hfind]
  refine exec_transaction_clean ?_
  simp only [Write.apply] at h
  split at h
  · exact absurd h (by simp)
  · rename_i db₁ hmove
    obtain ⟨rfl, -⟩ := Prod.mk.inj (Except.ok.inj h)
    rw [moveRow, exec_bind, perform, exec_statement_clean (by rw [hmove]; rfl)]
    rfl

/-- **A reported move has happened**, unless there is no such message: the `UPDATE` then changes no
row, and succeeds. -/
theorem moved_iff (db : DB) (id folderId : ℤ) :
    OnSuccess db (moveToFolder id folderId) (fun _ db' => Moved id folderId db db') ↔
      (db.messages.get? id).isSome ∨ db.folders.get? folderId = none := by
  constructor
  · intro hsuccess
    cases hm : db.messages.get? id with
    | some m => exact .inl rfl
    | none =>
      cases hf : db.folders.get? folderId with
      | none => exact .inr rfl
      | some f =>
        have hfind : FolderDAL.findByID db folderId = some (FolderDAL.rowToFolder folderId f) := by
          rw [FolderDAL.findByID, hf]
          rfl
        have happly : (Write.moveToFolder id folderId f.nextUid).apply db =
            .ok (FolderDAL.incrementNextUID db folderId, {}) := by
          simp only [Write.apply, MessageDAL.moveToFolder, hm]
        obtain ⟨m, -, hm', -⟩ := hsuccess { committed := db } rfl rfl ()
          (congrArg Prod.fst (exec_moveToFolder hfind happly))
        exact absurd (hm.symm.trans hm') (by simp)
  · intro h c hdb hw _ hok
    obtain ⟨folder, a, hfind, happly⟩ := (atomic_moveToFolder id folderId).onSuccess c hdb hw _ hok
    rcases h with hm | hf
    · exact moved_of_apply hm hfind happly
    · exact absurd ((get?_of_findByID hfind).symm.trans hf) (by simp)

/-- Alice has no mail, and a message of hers is moved to her inbox. -/
theorem not_moved_noMail :
    ¬ OnSuccess aliceDB (moveToFolder 1 1) fun _ db' => Moved 1 1 aliceDB db' := by
  intro h
  obtain ⟨m, -, hm, -⟩ := h { committed := aliceDB } rfl rfl () rfl
  exact nomatch hm

end Move

/-! ## What is copied -/

section Copy

variable {db : DB} {id folderId : ℤ}

/-- The message has been copied to the folder, and so has each recipient. -/
def Copied (id folderId : ℤ) (db db' : DB) : Prop :=
  ∃ m f, db.messages.get? id = some m ∧ db.folders.get? folderId = some f ∧
    db'.messages = db.messages.insert
      { m with folderId, uid := f.nextUid, content := m.content.bound } ∧
    db'.recipients = recipientRows (db.messages.seq + 1) (RecipientDAL.findByMessage db id)
      db.recipients

/-- The message and the folder are there, and the copy may go where it is to go. -/
def Copyable (db : DB) (id folderId : ℤ) : Prop :=
  ∃ m f, db.messages.get? id = some m ∧ db.folders.get? folderId = some f ∧
    MessageDAL.taken db none folderId f.nextUid = false ∧ (db.users.get? m.userId).isSome

/-- Whatever statement fails, an operation that fails leaves the database as it was; and a copy that
succeeds is a copy of all there is, where the query for the recipients ends as `lost` says. -/
structure LeavesNoTrace (db : DB) (lost : Option (Fault Bytes)) : Prop where
  append : ∀ m folderId, NoTrace db (append m folderId)
  deliver : ∀ m folderId, NoTrace db (deliver m folderId)
  saveToFolder : ∀ m folderId, NoTrace db (saveToFolder m folderId)
  copy : ∀ id folderId, NoTrace db (copy id folderId)
  moveToFolder : ∀ id folderId, NoTrace db (moveToFolder id folderId)
  expunge : ∀ folderId, NoTrace db (expunge folderId)
  copied : ∀ id folderId c, c.committed = db → c.working = none → c.faults 2 = lost →
    ∀ m, (exec (Statements.copy id folderId) c).1 = .ok m →
      Copied id folderId db (exec (Statements.copy id folderId) c).2.committed

theorem length_recipientRows (messageId : ℤ) (recipients : List Recipient)
    (t : Table RecipientData) :
    (recipientRows messageId recipients t).rows.length = t.rows.length + recipients.length := by
  induction recipients generalizing t with
  | nil => rfl
  | cons r rs ih =>
    have hinsert : (t.insert ⟨messageId, cstr r.address, r.type⟩).rows.length =
        t.rows.length + 1 := List.length_append
    refine (ih (t.insert ⟨messageId, cstr r.address, r.type⟩)).trans ?_
    rw [hinsert, List.length_cons]
    omega

/-- The recipients can be added to a message that is there. -/
theorem exists_insertRecipients {messageId : ℤ} :
    ∀ (db : DB) (recipients : List Recipient), (db.messages.get? messageId).isSome →
      ∃ db', insertRecipients messageId recipients db = .ok db'
  | db, [], _ => ⟨db, rfl⟩
  | db, r :: rs, h => by
      rw [insertRecipients, RecipientDAL.insert, if_pos h]
      exact exists_insertRecipients _ rs h

theorem exec_insertRows {messageId : ℤ} :
    ∀ {recipients : List Recipient} {s s' : DB},
      insertRecipients messageId recipients s = .ok s' →
        exec (insertRows messageId recipients) { committed := db, working := some s } =
          (.ok (), { committed := db, working := some s' })
  | [], s, s', h => by
      obtain rfl := Except.ok.inj h
      rfl
  | r :: rs, s, s', h => by
      rw [insertRecipients] at h
      split at h
      · rename_i s₁ hins
        rw [insertRows, exec_bind, exec_statement_clean (by rw [hins]; rfl)]
        exact exec_insertRows h
      · exact absurd h (by simp)

/-- A transaction of `copy` that goes through. -/
theorem exec_copyTransaction {m : Message} {recipients : List Recipient} {db' : DB} {a : Answer}
    (h : (Write.copy m recipients folderId).apply db = .ok (db', a)) :
    exec (copyTransaction m recipients folderId) { committed := db } =
      (.ok { m with id := some a.id }, { committed := db' }) := by
  refine exec_transaction_clean ?_
  simp only [Write.apply] at h
  split at h
  · exact absurd h (by simp)
  · rename_i db₁ i hins
    split at h
    · exact absurd h (by simp)
    · rename_i db₂ hrec
      obtain ⟨rfl, rfl⟩ := Prod.mk.inj (Except.ok.inj h)
      rw [copyRows, exec_bind, perform, exec_statement_clean hins]
      dsimp only
      rw [exec_bind, exec_insertRows hrec]
      rfl

theorem findByID_messages {msg : Message} (h : MessageDAL.findByID db id = some msg) :
    db.messages.get? id = some msg.toMessageData := by
  obtain ⟨m, hm, rfl⟩ := Option.map_eq_some_iff.mp h
  exact hm

/-- **A copy that succeeds** has the recipients that the query delivered. -/
theorem of_copy {c : Connection DB Bytes} {m : Message} (hw : c.working = none)
    (h : (exec (copy id folderId) c).1 = .ok m) :
    ∃ msg folder a, MessageDAL.findByID c.committed id = some msg ∧
      FolderDAL.findByID c.committed folderId = some folder ∧
      (Write.copy { msg with id := none, folderId, uid := folder.nextUid }
        (delivered (RecipientDAL.findByMessage c.committed id) (c.faults 2)) folderId).apply
          c.committed = .ok ((exec (copy id folderId) c).2.committed, a) := by
  obtain ⟨o, ho, hfind⟩ := exec_lookup_cases (δ := Option Bytes) (MessageDAL.findByID · id) c
  obtain ⟨o', ho', hfind'⟩ :=
    exec_lookup_cases (δ := Option Bytes) (FolderDAL.findByID · folderId) c.next
  rw [copy, exec_bind, hfind] at h ⊢
  cases o with
  | none => exact nomatch h
  | some msg =>
    dsimp only at h ⊢
    rw [exec_bind, hfind'] at h ⊢
    cases o' with
    | none => exact nomatch h
    | some folder =>
      dsimp only at h ⊢
      rw [exec_bind, exec_select] at h ⊢
      obtain ⟨a, happly, -⟩ :=
        (atomic_copyTransaction _ _ _).onSuccess c.next.next.next rfl hw m h
      exact ⟨msg, folder, a, (ho.resolve_left nofun).symm, (ho'.resolve_left nofun).symm, happly⟩

/-- What the copy of a message is made of. -/
theorem copied_of_apply {msg : Message} {folder : Folder} {recipients : List Recipient} {db' : DB}
    {a : Answer} (hm : MessageDAL.findByID db id = some msg)
    (hf : FolderDAL.findByID db folderId = some folder)
    (h : (Write.copy { msg with id := none, folderId, uid := folder.nextUid }
      recipients folderId).apply db = .ok (db', a)) :
    Copyable db id folderId ∧
      db'.messages = db.messages.insert { msg.toMessageData with
        folderId, uid := folder.nextUid, content := msg.content.bound } ∧
      db'.recipients = recipientRows (db.messages.seq + 1) recipients db.recipients := by
  cases Write.effect h with
  | copy hfree huser hfolder =>
    exact ⟨⟨_, _, findByID_messages hm, get?_of_findByID hf, hfree, huser⟩, rfl, rfl⟩

/-- A message that may be copied is copied, with whatever recipients. -/
theorem exists_apply_copy {m : Message} (folderId : ℤ) (recipients : List Recipient)
    (hfree : MessageDAL.taken db none m.folderId m.uid = false)
    (huser : (db.users.get? m.userId).isSome) (hf : (db.folders.get? m.folderId).isSome) :
    ∃ db' a, (Write.copy m recipients folderId).apply db = .ok (db', a) := by
  have hins : MessageDAL.insert db m =
      .ok ({ db with messages := db.messages.insert m.row }, db.messages.seq + 1) := by
    rw [MessageDAL.insert, hfree, huser, hf]
    rfl
  have hrow : ((db.messages.insert m.row).get? (db.messages.seq + 1)).isSome := by
    rw [Table.get?_insert, if_pos rfl]
    rfl
  obtain ⟨db₂, hrec⟩ := exists_insertRecipients
    { db with messages := db.messages.insert m.row } recipients hrow
  exact ⟨FolderDAL.incrementNextUID db₂ folderId, ⟨db.messages.seq + 1, m.uid⟩,
    by simp only [Write.apply, hins, hrec]⟩

/-- The third statement of `copy` fails, and no other. -/
def losing (db : DB) (e : Fault Bytes) : Connection DB Bytes where
  committed := db
  faults
    | 2 => some e
    | _ => none

/-- The copy is reported all the same. -/
theorem exec_copy_losing {e : Fault Bytes} (h : Copyable db id folderId) :
    ∃ m, (exec (copy id folderId) (losing db e)).1 = .ok m := by
  obtain ⟨m, f, hm, hf, hfree, huser⟩ := h
  have hmsg : (delivered (MessageDAL.findByID db id).toList ((losing db e).faults 0)).head? =
      some (MessageDAL.rowToMessage id m) := by
    rw [MessageDAL.findByID, hm]
    rfl
  have hfolder : (delivered (FolderDAL.findByID db folderId).toList
      ((losing db e).next.faults 0)).head? = some (FolderDAL.rowToFolder folderId f) := by
    rw [FolderDAL.findByID, hf]
    rfl
  obtain ⟨db', a, happly⟩ := exists_apply_copy
    (m := { MessageDAL.rowToMessage id m with id := none, folderId, uid := f.nextUid })
    folderId ((RecipientDAL.findByMessage db id).take e.rows) hfree huser (by simp [hf])
  refine ⟨_, congrArg Prod.fst ((?_ : exec (copy id folderId) (losing db e) = _).trans
    (exec_copyTransaction happly))⟩
  rw [copy, exec_bind, exec_lookup]
  dsimp only [losing] at hmsg hfolder ⊢
  rw [hmsg]
  dsimp only
  rw [exec_bind, exec_lookup]
  dsimp only [committed_next]
  rw [hfolder]
  dsimp only
  rw [exec_bind, exec_select]
  rfl

/-- **No operation that fails leaves a trace, and no copy lacks a recipient**, unless the query for
the recipients of a message that may be copied ends before it has delivered them all. -/
theorem leavesNoTrace_iff (db : DB) (lost : Option (Fault Bytes)) :
    LeavesNoTrace db lost ↔
      ∀ id folderId, Copyable db id folderId →
        ∀ e ∈ lost, (RecipientDAL.findByMessage db id).length ≤ e.rows := by
  constructor
  · rintro h id folderId hcopyable e rfl
    obtain ⟨m, hok⟩ := exec_copy_losing (e := e) hcopyable
    obtain ⟨-, -, -, -, -, hall⟩ := h.copied id folderId (losing db e) rfl rfl rfl m hok
    obtain ⟨msg, folder, a, hm, hf, happly⟩ := of_copy rfl hok
    have hsome := (copied_of_apply hm hf happly).2.2
    have hlength := congrArg (·.rows.length) (hall.symm.trans hsome)
    rw [length_recipientRows, length_recipientRows] at hlength
    have hdelivered : (delivered (RecipientDAL.findByMessage db id) (some e)).length =
        min e.rows (RecipientDAL.findByMessage db id).length := List.length_take
    change db.recipients.rows.length + (RecipientDAL.findByMessage db id).length =
      db.recipients.rows.length +
        (delivered (RecipientDAL.findByMessage db id) (some e)).length at hlength
    omega
  · intro h
    refine ⟨fun m f => (atomic_assignUID m f).noTrace, fun m f => (atomic_deliver m f).noTrace,
      fun m f => (atomic_assignUID _ f).noTrace, fun i f => (atomic_copy i f).noTrace,
      fun i f => (atomic_moveToFolder i f).noTrace, fun f => (atomic_expunge f).noTrace, ?_⟩
    rintro id folderId c rfl hw hlost m hok
    obtain ⟨msg, folder, a, hm, hf, happly⟩ := of_copy hw hok
    obtain ⟨hcopyable, hmessages, hrecipients⟩ := copied_of_apply hm hf happly
    refine ⟨_, _, findByID_messages hm, get?_of_findByID hf, hmessages, hrecipients.trans ?_⟩
    rw [hlost]
    cases lost with
    | none => rfl
    | some e => rw [delivered, List.take_of_length_le (h id folderId hcopyable e rfl)]

/-- Alice with a message to Bob in her inbox. -/
def withMail : DB :=
  { aliceDB with
    folders := Table.empty.insert { userId := 1, parentId := none, name := lit "INBOX", nextUid := 2 }
    messages := Table.empty.insert { aliceMail.row with folderId := 1, uid := 1 }
    recipients := Table.empty.insert { messageId := 1, address := lit "bob" } }

/-- The query for Bob fails on its first row: the copy has no recipient. -/
theorem not_leavesNoTrace_withMail :
    ¬ LeavesNoTrace withMail (some { error := lit "disk I/O error" }) := by
  intro h
  obtain ⟨m, f, -, -, -, hrecipients⟩ :=
    h.copied 1 1 (losing withMail { error := lit "disk I/O error" }) rfl rfl rfl _ rfl
  exact absurd (congrArg (·.rows.length) hrecipients) (by decide)

end Copy

/-! ## What is registered -/

section Register

variable {db : DB} {userId : ℤ}

/-- A registration that failed has left the users and the folders as they were.  One that succeeded
has made the user, with exactly the five folders. -/
def Whole (db : DB) : Except (Option Bytes) User × Connection DB Bytes → Prop
  | (.error _, c) => c.committed.users = db.users ∧ c.committed.folders = db.folders
  | (.ok user, c) => ∃ id, user.id = some id ∧ c.committed.users.get? id = some user.row ∧
      (c.committed.folders.rows.filter fun r => r.2.userId = id).map (·.2) =
        UserRepository.folderNames.map (newFolder id)

theorem findByUsername_eq_none_iff {username : Bytes} :
    UserDAL.findByUsername db username = none ↔ UserDAL.taken db none username = false := by
  simp [UserDAL.findByUsername, UserDAL.taken]

/-- The folders of a new user are added to the table. -/
def addFolders (userId : ℤ) (names : List Bytes) (t : Table FolderData) : Table FolderData :=
  names.foldl (fun t name => t.insert (newFolder userId (cstr name))) t

/-- The folders are made one by one, as far as no statement fails. -/
theorem exec_insertFolders (userId : ℤ) : ∀ (names : List Bytes) (c : Connection DB Bytes),
    c.working = none → (c.committed.users.get? userId).isSome →
      (exec (insertFolders userId names) c).2.committed.users = c.committed.users ∧
        match (exec (insertFolders userId names) c).1 with
        | .error _ => ∃ n < names.length, c.faults n ≠ none
        | .ok _ => (∀ n < names.length, c.faults n = none) ∧
            (exec (insertFolders userId names) c).2.committed =
              { c.committed with folders := addFolders userId names c.committed.folders }
  | [], c, _, _ => ⟨rfl, fun _ h => absurd h (Nat.not_lt_zero _), rfl⟩
  | name :: names, c, hw, huser => by
      rw [insertFolders, exec_bind]
      cases h0 : c.faults 0 with
      | some e =>
        have hfail : exec (perform (FolderDAL.insert ·
            { userId, parentId := none, name, nextUid := 1, isSubscribed := true })) c =
              (.error (some e.error), c.next) := by
          rw [perform, exec_statement, h0]
        rw [hfail]
        exact ⟨rfl, 0, Nat.succ_pos _, by rw [h0]; simp⟩
      | none =>
        have hins : FolderDAL.insert c.committed
            { userId, parentId := none, name, nextUid := 1, isSubscribed := true } =
              .ok ({ c.committed with
                folders := c.committed.folders.insert (newFolder userId (cstr name)) },
                c.committed.folders.seq + 1) := if_pos (by
          rw [FolderDAL.refers, Bool.and_eq_true_iff]
          exact ⟨huser, rfl⟩)
        rw [perform, exec_statement_of_ok hw h0 hins]
        obtain ⟨husers, hend⟩ := exec_insertFolders userId names
          { c.next with committed := { c.committed with
            folders := c.committed.folders.insert (newFolder userId (cstr name)) } } hw huser
        refine ⟨husers, ?_⟩
        dsimp only
        split at hend
        · obtain ⟨n, hn, hfault⟩ := hend
          rename_i hr
          rw [hr]
          exact ⟨n + 1, Nat.succ_lt_succ hn, hfault⟩
        · obtain ⟨hnone, heq⟩ := hend
          rename_i hr
          rw [hr]
          refine ⟨fun n hn => ?_, heq⟩
          cases n with
          | zero => exact h0
          | succ n => exact hnone n (Nat.lt_of_succ_lt_succ hn)

theorem map_rows_addFolders (names : List Bytes) (t : Table FolderData) :
    (addFolders userId names t).rows.map (·.2) =
      t.rows.map (·.2) ++ names.map fun name => newFolder userId (cstr name) := by
  induction names generalizing t with
  | nil => exact (List.append_nil _).symm
  | cons name names ih =>
    have hinsert : (t.insert (newFolder userId (cstr name))).rows.map (·.2) =
        t.rows.map (·.2) ++ [newFolder userId (cstr name)] := List.map_append
    refine (ih _).trans ?_
    rw [hinsert, List.append_assoc]
    rfl

/-- The user has the five folders and no other, where none referred to the user before. -/
theorem folders_addFolders_iff (userId : ℤ) (t : Table FolderData) :
    (((addFolders userId UserRepository.folderNames t).rows.filter fun r =>
        r.2.userId = userId).map (·.2) = UserRepository.folderNames.map (newFolder userId)) ↔
      ∀ r ∈ t.rows, r.2.userId ≠ userId := by
  have hnames : (UserRepository.folderNames.map fun name => newFolder userId (cstr name)) =
      UserRepository.folderNames.map (newFolder userId) := rfl
  have hall : (UserRepository.folderNames.map (newFolder userId)).filter (·.userId = userId) =
      UserRepository.folderNames.map (newFolder userId) := by
    refine List.filter_eq_self.mpr fun d hd => ?_
    obtain ⟨name, -, rfl⟩ := List.mem_map.mp hd
    exact decide_eq_true rfl
  have hmap : ((addFolders userId UserRepository.folderNames t).rows.filter fun r =>
      r.2.userId = userId).map (·.2) = (t.rows.map (·.2)).filter (·.userId = userId) ++
        UserRepository.folderNames.map (newFolder userId) := by
    rw [← hall, ← hnames, ← List.filter_append, ← map_rows_addFolders, List.filter_map]
    rfl
  rw [hmap, List.append_left_eq_self, List.filter_eq_nil_iff, List.forall_mem_map]
  simp only [decide_eq_true_eq, ne_eq]

section Run

variable {P : PasswordHash} {user : User} {password salt : Bytes} {c : Connection DB Bytes}

/-- The user as it is inserted. -/
def withHash (P : PasswordHash) (user : User) (password salt : Bytes) : User :=
  { user with passwordHash := UserRepository.hashPassword P salt password }

/-- The user is not inserted: the name is taken, or the statement fails. -/
theorem exec_insert_refused (P : PasswordHash) (user : User) (password salt : Bytes) (hw : c.working = none)
    (h : UserDAL.taken c.committed none user.username = true ∨ (c.faults 1).isSome) :
    ∃ e, exec (perform (UserDAL.insert · (withHash P user password salt))) c.next =
      (.error e, c.next.next) := by
  rw [perform, exec_statement, faults_next]
  cases h1 : c.faults 1 with
  | some e => exact ⟨_, rfl⟩
  | none =>
    have htaken : UserDAL.taken c.committed none user.username = true :=
      h.resolve_right (by simp [h1])
    have hcurrent : c.next.current = c.committed := by
      rw [Connection.current, working_next, hw]
      rfl
    have hins : UserDAL.insert c.committed (withHash P user password salt) =
        .error usernameTaken := if_pos htaken
    dsimp only
    rw [hcurrent, hins]
    exact ⟨_, rfl⟩

/-- A registration that ends before the folders has changed nothing. -/
theorem registerUser_refused (hw : c.working = none)
    (h : UserDAL.taken c.committed none user.username = true ∨
      UserRepository.hashPassword P salt password = [] ∨ (c.faults 1).isSome) :
    ∃ e, (exec (registerUser P user password salt) c).1 = .error e ∧
      (exec (registerUser P user password salt) c).2.committed = c.committed := by
  obtain ⟨o, ho, hfind⟩ :=
    exec_lookup_cases (δ := Option Bytes) (UserDAL.findByUsername · user.username) c
  rw [registerUser, exec_bind_ok hfind]
  cases o with
  | some u => exact ⟨_, rfl, rfl⟩
  | none =>
    dsimp only
    split_ifs with hhash
    · exact ⟨_, rfl, rfl⟩
    · obtain ⟨e, hfail⟩ := exec_insert_refused P user password salt hw
        (h.imp_right fun h => h.resolve_left hhash)
      have hrun := exec_bind_error (f := fun id => do
        insertFolders id UserRepository.folderNames
        return { withHash P user password salt with id := some id }) hfail
      exact ⟨e, congrArg Prod.fst hrun, congrArg (·.2.committed) hrun⟩

/-- A registration that makes the user goes on to the folders. -/
theorem registerUser_reaches (hw : c.working = none)
    (hfree : UserDAL.taken c.committed none user.username = false)
    (hhash : UserRepository.hashPassword P salt password ≠ []) (h1 : c.faults 1 = none) :
    exec (registerUser P user password salt) c =
      exec (do
        insertFolders (c.committed.users.seq + 1) UserRepository.folderNames
        return { withHash P user password salt with id := some (c.committed.users.seq + 1) })
      { c.next.next with
        committed := { c.committed with
          users := c.committed.users.insert (withHash P user password salt).row } } := by
  obtain ⟨o, ho, hfind⟩ :=
    exec_lookup_cases (δ := Option Bytes) (UserDAL.findByUsername · user.username) c
  rw [findByUsername_eq_none_iff.mpr hfree, or_self] at ho
  have hins : UserDAL.insert c.committed (withHash P user password salt) =
      .ok ({ c.committed with
        users := c.committed.users.insert (withHash P user password salt).row },
        c.committed.users.seq + 1) := if_neg (by rw [withHash, hfree]; simp)
  have hstep : exec (perform (UserDAL.insert · (withHash P user password salt))) c.next = _ :=
    exec_statement_of_ok hw h1 hins
  rw [registerUser, exec_bind_ok (hfind.trans (by rw [ho]))]
  refine (congrArg (exec · c.next) (if_neg hhash)).trans ?_
  exact exec_bind_ok hstep

/-- Once the user is there, the five `INSERT`s of the folders decide. -/
theorem whole_reached_iff (hw : c.working = none)
    (hfree : UserDAL.taken c.committed none user.username = false)
    (hhash : UserRepository.hashPassword P salt password ≠ []) (h1 : c.faults 1 = none) :
    Whole c.committed (exec (registerUser P user password salt) c) ↔
      (∀ n < 5, c.faults (n + 2) = none) ∧
        ∀ r ∈ c.committed.folders.rows, r.2.userId ≠ c.committed.users.seq + 1 := by
  rw [registerUser_reaches hw hfree hhash h1]
  have hget : (c.committed.users.insert (withHash P user password salt).row).get?
      (c.committed.users.seq + 1) = some (withHash P user password salt).row := by
    rw [Table.get?_insert, if_pos rfl]
  obtain ⟨husers, hend⟩ := exec_insertFolders (c.committed.users.seq + 1)
    UserRepository.folderNames { c.next.next with
      committed := { c.committed with
        users := c.committed.users.insert (withHash P user password salt).row } } hw
    (by dsimp only; rw [hget]; rfl)
  rw [exec_bind]
  generalize exec (insertFolders _ _) _ = r at husers hend ⊢
  obtain ⟨r, c'⟩ := r
  cases r with
  | error e =>
    obtain ⟨n, hn, hfault⟩ := hend
    refine iff_of_false ?_ fun h => hfault (h.1 n hn)
    rintro ⟨hsame, -⟩
    have hseq : c.committed.users.seq + 1 = c.committed.users.seq :=
      congrArg (·.seq) (husers.symm.trans hsame)
    omega
  | ok u =>
    obtain ⟨hnone, heq⟩ := hend
    have hfolders : c'.committed.folders = addFolders (c.committed.users.seq + 1)
        UserRepository.folderNames c.committed.folders := congrArg DB.folders heq
    have husers : c'.committed.users =
        c.committed.users.insert (withHash P user password salt).row := husers
    rw [← husers] at hget
    have hfive := folders_addFolders_iff (c.committed.users.seq + 1) c.committed.folders
    rw [← hfolders] at hfive
    constructor
    · rintro ⟨id, hid, -, h⟩
      obtain rfl := Option.some.inj hid
      exact ⟨hnone, hfive.mp h⟩
    · rintro ⟨-, h⟩
      exact ⟨_, rfl, hget, hfive.mpr h⟩

end Run

/-- **A registration is all or nothing** when it is refused before a row is made, and when the five
folders all go in: a folder that fails leaves the user with those before it.  (No folder refers to a
user to come where the foreign keys hold.) -/
theorem whole_registerUser_iff (P : PasswordHash) (user : User) (password salt : Bytes) (db : DB)
    (faults : ℕ → Option (Fault Bytes)) :
    Whole db (exec (registerUser P user password salt) { committed := db, faults }) ↔
      UserDAL.taken db none user.username = true ∨
        UserRepository.hashPassword P salt password = [] ∨ (faults 1).isSome ∨
        ((∀ n < 5, faults (n + 2) = none) ∧ ∀ r ∈ db.folders.rows, r.2.userId ≠ db.users.seq + 1) := by
  by_cases hrefused : UserDAL.taken db none user.username = true ∨
      UserRepository.hashPassword P salt password = [] ∨ (faults 1).isSome
  · obtain ⟨e, herr, hdb⟩ := registerUser_refused (c := { committed := db, faults }) rfl hrefused
    refine iff_of_true ?_ (hrefused.imp_right (Or.imp_right .inl))
    generalize exec (registerUser P user password salt) _ = r at herr hdb ⊢
    obtain ⟨r, c⟩ := r
    obtain rfl : r = .error e := herr
    exact ⟨congrArg DB.users hdb, congrArg DB.folders hdb⟩
  · simp only [not_or] at hrefused
    obtain ⟨hfree, hhash, h1⟩ := hrefused
    rw [whole_reached_iff (c := { committed := db, faults }) rfl (by simpa using hfree) hhash
      (by simpa using h1)]
    simp [hfree, hhash, h1]

/-- The `INSERT` of Alice's inbox fails: she is there, and can register no more. -/
theorem not_whole_alice :
    ¬ Whole .empty (exec (registerUser plainHash alice (lit "secret") [])
      { committed := .empty
        faults := fun n => if n = 2 then some { error := lit "disk I/O error" } else none }) := by
  rintro ⟨husers, -⟩
  exact absurd (congrArg (·.rows.length) husers) (by decide)

end Register

end MailStack.Store.Statements
