import MailStack.Machinery.Locking
import MailStack.Store.Accounts

/-!
# Store/FolderNames — a user's folder names are unique while no one else makes the name

The schema has no unique index on `(user_id, name)`.  `createFolder` and `renameFolder` look the
name up before they take the write lock, and under the lock they look no more.

`not_uniqueNames_race` — two clients that create the same folder both succeed.
`uniqueNames_of_exec` — the names stay unique in every run where the lookup, made again as the row
is written, would still find the name free; by `write_iff` this is what each single write needs.
`registerUser` needs no such luck: its user is new, and the lock is held from the first `INSERT` to
the last.  Its steps are those of `UserRepository.registerUser` (`forget_registerUserSteps`).
-/

open Bytes LockProg

namespace MailStack.Store

/-! ## The calls -/

/-- A call that changes the folders. -/
inductive FolderCall
  | createFolder (f : Folder)
  | renameFolder (id : ℤ) (newName : Bytes)
  | deleteFolder (id : ℤ)
  | registerUser (user : User) (password salt : Bytes)

/-- A program over the database that opens no transaction. -/
abbrev FolderM (α : Type) := LockProg DB StoreWrite Bytes Answer Empty α

namespace UserRepository

/-- The loop of `registerUser` over the folders, under its lock. -/
def insertFoldersSteps (userId : ℤ) : List Bytes → FolderM (Result Unit)
  | [] => return .ok ()
  | name :: names => do
    match ← statement (.message (.insertFolder
        { userId, parentId := none, name, nextUid := 1, isSubscribed := true })) with
    | .error e => return .error (some e)
    | .ok _ => insertFoldersSteps userId names

/-- `registerUser`: one lock, and every statement commits at once. -/
def registerUserSteps (P : PasswordHash) (user : User) (password salt : Bytes) :
    FolderM (Result User) := do
  match ← LockProg.query (UserDAL.findByUsername · user.username) with
  | some _ => return .error (some (lit "registerUser: username already exists"))
  | none =>
    if hashPassword P salt password = [] then
      return .error (some (lit "registerUser: password hashing failed"))
    else
      let user := { user with passwordHash := hashPassword P salt password }
      acquire
      match ← statement (.insertUser user) with
      | .error e =>
        release
        return .error (some e)
      | .ok a =>
        match ← insertFoldersSteps a.id folderNames with
        | .error e =>
          release
          return .error e
        | .ok () =>
          release
          return .ok { user with id := some a.id }

theorem forget_insertFoldersSteps (userId : ℤ) :
    ∀ names, (insertFoldersSteps userId names).forget = insertFolders userId names
  | [] => rfl
  | _ :: names => by
      refine congrArg (Prog.write _) (funext fun r => ?_)
      cases r with
      | error e => rfl
      | ok a => exact forget_insertFoldersSteps userId names

/-- **Without its lock it is the program of the other chapters.** -/
theorem forget_registerUserSteps (P : PasswordHash) (user : User) (password salt : Bytes) :
    (registerUserSteps P user password salt).forget = registerUser P user password salt := by
  rw [registerUserSteps, registerUser, query_bind]
  refine congrArg Prog.read (funext fun db => ?_)
  change forget (match UserDAL.findByUsername db user.username with
    | some _ => _
    | none => _) = match UserDAL.findByUsername db user.username with
    | some _ => _
    | none => _
  cases UserDAL.findByUsername db user.username with
  | some u => rfl
  | none =>
    by_cases hhash : hashPassword P salt password = []
    · simp only [if_pos hhash]
      rfl
    · simp only [if_neg hhash]
      refine congrArg (Prog.write _) (funext fun r => ?_)
      cases r with
      | error e => rfl
      | ok a =>
        change forget (insertFoldersSteps a.id folderNames >>= _) =
          insertFolders a.id folderNames >>= _
        rw [forget_bind, forget_insertFoldersSteps]
        refine congrArg (insertFolders a.id folderNames >>= ·) (funext fun r => ?_)
        cases r with
        | error e => rfl
        | ok u => rfl

end UserRepository

open MessageRepository UserRepository in
/-- What the call does, and whether it reports success. -/
def FolderCall.prog (P : PasswordHash) : FolderCall → FolderM Bool
  | createFolder f => .ofProg (ofMessages (succeeded (MessageRepository.createFolder f)))
  | renameFolder id newName =>
    .ofProg (ofMessages (succeeded (MessageRepository.renameFolder id newName)))
  | deleteFolder id => .ofProg (ofMessages (succeeded (MessageRepository.deleteFolder id)))
  | registerUser user password salt => do
    return (← registerUserSteps P user password salt).isOk

/-- Any number of clients that call; a client keeps what its calls returned. -/
def folderClients (P : PasswordHash) :
    LockSystem DB StoreWrite Bytes Answer Empty (List Bool) FolderCall where
  store := mailStore
  prog answers call := do return answers ++ [← call.prog P]

/-- The database and the clients. -/
abbrev FolderNet (ι : Type) := LockNet DB StoreWrite Bytes Answer Empty (List Bool) FolderCall ι

/-! ## Unique names -/

/-- No user has two folders of one name. -/
def UniqueNames (db : DB) : Prop :=
  ∀ i j f g, db.folders.get? i = some f → db.folders.get? j = some g → f.userId = g.userId →
    f.name = g.name → i = j

/-- The foreign key from folders to users. -/
def OwnedFolders (db : DB) : Prop :=
  ∀ i f, db.folders.get? i = some f → (db.users.get? f.userId).isSome

/-- What the folders satisfy. -/
structure Named (db : DB) : Prop where
  unique : UniqueNames db
  owned : OwnedFolders db

/-- The lookup that goes before the write, made again as the row is written, finds the name free. -/
def StillFree (db : DB) : StoreWrite → Prop
  | .message (.insertFolder f) =>
    FolderDAL.refers db f.row = true → FolderDAL.findByName db f.userId f.name = none
  | .message (.updateFolder f) =>
    ∀ id, f.id = some id → (db.folders.get? id).isSome →
      ∀ g, FolderDAL.findByName db f.userId f.name = some g → g.id = some id
  | _ => True

/-- A write of `createFolder`, `renameFolder` or `deleteFolder`. -/
def FolderWrite : StoreWrite → Prop
  | .message (.insertFolder _) | .message (.updateFolder _) | .message (.deleteFolder _) => True
  | _ => False

section Names

variable {db : DB} {u : ℤ} {name : Bytes}

theorem findByName_eq_none_iff : FolderDAL.findByName db u name = none ↔
    ∀ i f, db.folders.get? i = some f → f.userId = u → f.name ≠ cstr name := by
  rw [FolderDAL.findByName, Option.map_eq_none_iff, List.find?_eq_none]
  constructor
  · intro h i f hf hu hname
    exact h (i, f) (Table.mem_rows_iff.mpr hf) (decide_eq_true ⟨hu, hname⟩)
  · rintro h ⟨i, f⟩ hmem htrue
    obtain ⟨hu, hname⟩ := of_decide_eq_true htrue
    exact h i f (Table.mem_rows_iff.mp hmem) hu hname

theorem of_findByName {g : Folder} (h : FolderDAL.findByName db u name = some g) :
    ∃ i, g.id = some i ∧ db.folders.get? i = some g.toFolderData ∧ g.userId = u ∧
      g.name = cstr name := by
  rw [FolderDAL.findByName, Option.map_eq_some_iff] at h
  obtain ⟨⟨i, f⟩, hfind, rfl⟩ := h
  have htrue := List.find?_some hfind
  obtain ⟨hu, hname⟩ := of_decide_eq_true htrue
  exact ⟨i, rfl, Table.mem_rows_iff.mp (List.mem_of_find?_eq_some hfind), hu, hname⟩

end Names

namespace Named

variable {db : DB}

/-- A folder under a name that is free. -/
theorem insertFolder (h : Named db) {d : FolderData} (huser : (db.users.get? d.userId).isSome)
    (hfree : ∀ i g, db.folders.get? i = some g → g.userId = d.userId → g.name ≠ d.name) :
    Named { db with folders := db.folders.insert d } where
  unique i j f g hf hg hu hname := by
    rw [Table.get?_insert] at hf hg
    split_ifs at hf hg with hi hj hj
    · exact hi.trans hj.symm
    · obtain rfl := Option.some.inj hf
      exact absurd hname.symm (hfree j g hg hu.symm)
    · obtain rfl := Option.some.inj hg
      exact absurd hname (hfree i f hf hu)
    · exact h.unique i j f g hf hg hu hname
  owned i f hf := by
    rw [Table.get?_insert] at hf
    split_ifs at hf with hi
    · obtain rfl := Option.some.inj hf
      exact huser
    · exact h.owned i f hf

/-- A folder gets a name that no other folder of the user has. -/
theorem updateFolder (h : Named db) {id : ℤ} {d : FolderData}
    (huser : (db.folders.get? id).isSome → (db.users.get? d.userId).isSome)
    (hfree : (db.folders.get? id).isSome →
      ∀ i g, db.folders.get? i = some g → g.userId = d.userId → g.name = d.name → i = id) :
    Named { db with folders := db.folders.modify id fun _ => d } where
  unique i j f g hf hg hu hname := by
    rw [Table.get?_modify] at hf hg
    split_ifs at hf hg with hi hj hj
    · exact hi.trans hj.symm
    · obtain ⟨f₀, hf₀, rfl⟩ := Option.map_eq_some_iff.mp hf
      have hsome : (db.folders.get? id).isSome := hi ▸ Option.isSome_of_eq_some hf₀
      exact absurd (hfree hsome j g hg hu.symm hname.symm) hj
    · obtain ⟨g₀, hg₀, rfl⟩ := Option.map_eq_some_iff.mp hg
      have hsome : (db.folders.get? id).isSome := hj ▸ Option.isSome_of_eq_some hg₀
      exact absurd (hfree hsome i f hf hu hname) hi
    · exact h.unique i j f g hf hg hu hname
  owned i f hf := by
    rw [Table.get?_modify] at hf
    split_ifs at hf with hi
    · obtain ⟨f₀, hf₀, rfl⟩ := Option.map_eq_some_iff.mp hf
      exact huser (hi ▸ Option.isSome_of_eq_some hf₀)
    · exact h.owned i f hf

/-- Folders go. -/
theorem filterFolders (h : Named db) (p : ℤ → FolderData → Bool) {db' : DB}
    (hfolders : db'.folders = db.folders.filter p) (husers : db'.users = db.users) : Named db' where
  unique i j f g hf hg hu hname := by
    rw [hfolders, Table.get?_filter] at hf hg
    exact h.unique i j f g (Option.filter_eq_some_iff.mp hf).1 (Option.filter_eq_some_iff.mp hg).1
      hu hname
  owned i f hf := by
    rw [hfolders, Table.get?_filter] at hf
    rw [husers]
    exact h.owned i f (Option.filter_eq_some_iff.mp hf).1

/-- A user comes. -/
theorem insertUser (h : Named db) (d : UserData) :
    Named { db with users := db.users.insert d } where
  unique := h.unique
  owned i f hf := Table.isSome_get?_insert (h.owned i f hf)

/-- The next user has no folders yet. -/
theorem userId_ne (h : Named db) {i : ℤ} {f : FolderData} (hf : db.folders.get? i = some f) :
    f.userId ≠ db.users.seq + 1 := by
  intro heq
  have := h.owned i f hf
  rw [heq, Table.get?_eq_none_of_seq_lt (Int.lt_succ _)] at this
  exact absurd this (by simp)

/-- A write whose lookup still holds. -/
theorem write (h : Named db) {w : Write} {db' : DB} {a : Answer} (he : Effect db w db' a)
    (hw : FolderWrite (.message w)) (hfree : StillFree db (.message w)) : Named db' := by
  cases he with
  | insertFolder hrefs =>
    exact h.insertFolder (Bool.and_eq_true_iff.mp hrefs).1 (findByName_eq_none_iff.mp (hfree hrefs))
  | @updateFolder f id hid hrefs =>
    refine h.updateFolder (d := f.row) (fun hsome => (Bool.and_eq_true_iff.mp (hrefs hsome)).1)
      fun hsome i g hg hu hname => ?_
    cases hfind : FolderDAL.findByName db f.userId f.name with
    | none => exact absurd hname (findByName_eq_none_iff.mp hfind i g hg hu)
    | some g' =>
      obtain ⟨j, hj, hrow, hu', hname'⟩ := of_findByName hfind
      obtain rfl : j = id := Option.some.inj (hj.symm.trans (hfree id hid hsome g' hfind))
      exact h.unique i j g g'.toFolderData hg hrow (hu.trans hu'.symm) (hname.trans hname'.symm)
  | @deleteFolder id =>
    exact h.filterFolders _ (FolderDAL.hardDelete_folders db id) (FolderDAL.hardDelete_users db id)
  | assignUID | updateSeen | updateDeleted | updateFlags | moveToFolder | moveNothing | expunge
  | hardDelete | copy | incrementNextUID | clearRecentByFolder | setSubscribed => exact hw.elim

/-- **A folder write keeps the names unique if and only if its lookup still holds.** -/
theorem write_iff (h : Named db) {w : Write} {db' : DB} {a : Answer} (he : Effect db w db' a)
    (hw : FolderWrite (.message w)) : UniqueNames db' ↔ StillFree db (.message w) := by
  refine ⟨fun hunique => ?_, fun hfree => (h.write he hw hfree).unique⟩
  cases he with
  | @insertFolder f hrefs =>
    refine fun _ => findByName_eq_none_iff.mpr fun i g hg hu hname => ?_
    have hle := Table.le_seq_of_get? hg
    have heq := hunique i (db.folders.seq + 1) g f.row
      (by rw [Table.get?_insert, if_neg (by omega), hg]) (by rw [Table.get?_insert, if_pos rfl])
      hu hname
    omega
  | @updateFolder f id hid hrefs =>
    intro id' hid' hsome g hg
    obtain rfl : id = id' := Option.some.inj (hid.symm.trans hid')
    obtain ⟨j, hj, hrow, hu, hname⟩ := of_findByName hg
    obtain ⟨f₀, hf₀⟩ := Option.isSome_iff_exists.mp hsome
    by_cases hji : j = id
    · rw [hj, hji]
    · refine absurd (hunique j id g.toFolderData f.row ?_ ?_ hu hname) hji
      · rw [Table.get?_modify, if_neg hji, hrow]
      · rw [Table.get?_modify, if_pos rfl, hf₀]
        rfl
  | deleteFolder => trivial
  | assignUID | updateSeen | updateDeleted | updateFlags | moveToFolder | moveNothing | expunge
  | hardDelete | copy | incrementNextUID | clearRecentByFolder | setSubscribed => exact hw.elim

end Named

/-! ## The calls keep the names unique -/

/-- The discipline of the folder calls.  `createFolder` and `renameFolder` must find the name free
as they write; nothing is asked of `registerUser`. -/
def folderDiscipline : LockDiscipline DB StoreWrite Empty (List Bool) FolderCall where
  inv := Named
  calls _ := True
  allow call db w :=
    match call with
    | .registerUser .. => True
    | _ => StillFree db w
  faulty := True
  writes _ _ := True
  commits e := e.elim
  loc _ _ := True

theorem effect_of_apply {w : StoreWrite} {db db' : DB} {a : Answer}
    (h : mailStore.apply w db = .ok (db', a)) : StoreEffect db w db' a := StoreWrite.effect h

/-- An operation of `MessageRepository` that writes folder rows. -/
theorem ok_ofMessages {p : DbM (Result Answer)} {call : FolderCall} {es : List Empty}
    (hcall : ∀ db w, folderDiscipline.allow call db w → StillFree db w)
    (hp : p.Writes fun w => FolderWrite (.message w)) :
    folderDiscipline.Ok mailStore call (fun _ h _ => h = none)
      (.ofProg (ofMessages (succeeded p))) none es := by
  have hwrites : (ofMessages (succeeded p)).Writes FolderWrite := by
    have hsucceeded : (succeeded p).Writes fun w => FolderWrite (.message w) :=
      hp.bind fun _ => Prog.writes_pure _
    rw [ofMessages, Prog.mapWrites_eq_embed]
    refine hsucceeded.embed ?_
    exact fun _ hw => hw
  refine LockDiscipline.Ok.ofProg (fun w db db' a hw hdb ha happly => ⟨?_, trivial⟩)
    (fun _ => rfl) hwrites
  have he := effect_of_apply happly
  cases he with
  | message he => exact hdb.write he hw (hcall _ _ ha)
  | insertRecipient | deleteRecipient | insertUser | updateUser | updatePassword | updateProfile
  | deleteUser => exact hw.elim

open MessageRepository in
theorem writes_folderCalls :
    (∀ f, (createFolder f).Writes fun w => FolderWrite (.message w)) ∧
      (∀ id newName, (renameFolder id newName).Writes fun w => FolderWrite (.message w)) ∧
      ∀ id, (deleteFolder id).Writes fun w => FolderWrite (.message w) := by
  refine ⟨fun f => ?_, fun id newName => ?_, fun id => ?_⟩
  · rw [createFolder]
    split_ifs with hname
    · exact Prog.writes_pure _
    · exact writes_lookup (writes_unchecked trivial) fun _ => Prog.writes_pure _
  · rw [renameFolder]
    split_ifs with hname
    · exact Prog.writes_pure _
    · refine writes_lookup (Prog.writes_pure _) fun folder => Prog.Writes.query_bind fun existing => ?_
      split_ifs with htaken
      · exact Prog.writes_pure _
      · exact writes_unchecked trivial
  · exact writes_lookup (Prog.writes_pure _) fun _ => writes_unchecked trivial

section Register

variable {user : User} {password salt : Bytes} {userId : ℤ} {es : List Empty}

/-- The lock is held, no transaction is open, and the folders are as they should be. -/
def Locked (h : Option (DB × Option DB)) : Prop := ∃ db, h = some (db, none) ∧ Named db

/-- The folders of a new user go in under one lock: names that differ from each other and from those
that are there. -/
theorem ok_insertFoldersSteps {names : List Bytes} {db : DB} (hdb : Named db)
    (huser : (db.users.get? userId).isSome) (hnames : (names.map cstr).Nodup)
    (hfree : ∀ i f, db.folders.get? i = some f → f.userId = userId → f.name ∉ names.map cstr) :
    folderDiscipline.Ok mailStore (.registerUser user password salt)
      (fun _ h _ => Locked h)
      (UserRepository.insertFoldersSteps userId names) (some (db, none)) es := by
  induction names generalizing db with
  | nil => exact ⟨db, rfl, hdb⟩
  | cons name names ih =>
    rw [UserRepository.insertFoldersSteps, statement_bind]
    obtain ⟨hname, hnames⟩ := List.nodup_cons.mp hnames
    refine ⟨fun e _ => ⟨db, rfl, hdb⟩, fun db' a _ hw => ?_⟩
    have he := effect_of_apply hw
    cases he with
    | message he =>
      cases he with
      | insertFolder hrefs =>
        refine ⟨hdb.insertFolder huser fun i g hg hu hg' => ?_, trivial, ?_⟩
        · exact hfree i g hg hu (hg' ▸ List.mem_cons_self)
        · refine ih (hdb.insertFolder huser fun i g hg hu hg' => ?_) huser hnames
            fun i g hg hu hmem => ?_
          · exact hfree i g hg hu (hg' ▸ List.mem_cons_self)
          · rw [Table.get?_insert] at hg
            split_ifs at hg with hi
            · obtain rfl := Option.some.inj hg
              exact hname hmem
            · exact hfree i g hg hu (List.mem_cons_of_mem _ hmem)

theorem ok_registerUserSteps (P : PasswordHash) :
    folderDiscipline.Ok mailStore (.registerUser user password salt) (fun _ h _ => h = none)
      (UserRepository.registerUserSteps P user password salt) none es := by
  rw [UserRepository.registerUserSteps, query_bind]
  intro db₀ _
  dsimp only
  split
  · rfl
  · split_ifs with hhash
    · rfl
    · rw [acquire_bind]
      intro db hdb
      rw [statement_bind]
      refine ⟨fun e _ => rfl, fun db' a _ hw => ?_⟩
      have he := effect_of_apply hw
      cases he with
      | @insertUser u hfree =>
        refine ⟨hdb.insertUser _, trivial, ?_⟩
        refine LockDiscipline.Ok.bind ?_ (ok_insertFoldersSteps (hdb.insertUser _) ?_ ?_ ?_)
        · rintro r h es ⟨db', rfl, hdb'⟩
          cases r with
          | error e => rfl
          | ok u => rfl
        · rw [Table.get?_insert, if_pos rfl]
          rfl
        · decide
        · exact fun i f hf hu => absurd hu (hdb.userId_ne hf)

end Register

/-- **Every call keeps the discipline.** -/
theorem kept_folderClients (P : PasswordHash) : folderDiscipline.Kept (folderClients P) := by
  intro answers call es _ _
  have hcall : folderDiscipline.Ok mailStore call (fun _ h _ => h = none) (call.prog P) none es := by
    obtain ⟨hcreate, hrename, hdelete⟩ := writes_folderCalls
    cases call with
    | createFolder f => exact ok_ofMessages (fun _ _ h => h) (hcreate f)
    | renameFolder id newName => exact ok_ofMessages (fun _ _ h => h) (hrename id newName)
    | deleteFolder id => exact ok_ofMessages (fun _ _ h => h) (hdelete id)
    | registerUser user password salt =>
      refine LockDiscipline.Ok.bind (fun r h es h => ?_) (ok_registerUserSteps P)
      exact h
  refine LockDiscipline.Ok.bind (fun ok h es hnone => ?_) hcall
  exact ⟨hnone, trivial⟩

/-- Where the step is a write of `createFolder` or `renameFolder`, the name is still free. -/
def NameFree {ι : Type} [DecidableEq ι] (n : FolderNet ι) : LockAct ι FolderCall Bytes → Prop
  | .step i => ∀ answers call w k, n.client i = .busy answers call (.exec w k) →
      (∀ user password salt, call ≠ .registerUser user password salt) → StillFree n.seen w
  | _ => True

/-- **The names stay unique** in every run whose folder writes all find their name still free. -/
theorem uniqueNames_of_exec {ι : Type} [DecidableEq ι] (P : PasswordHash) {db : DB}
    (hu : UniqueNames db) (ho : OwnedFolders db) {as : List (LockAct ι FolderCall Bytes)}
    (hfree : Run.Along (folderClients P).next NameFree (.start db []) as) {n : FolderNet ι}
    (hrun : Run.exec (folderClients P).next (.start db []) as = some n) : UniqueNames n.db := by
  have hstart : folderDiscipline.Holds (folderClients P).store db (.start db [] : FolderNet ι) :=
    LockDiscipline.holds_start ⟨hu, ho⟩ trivial
  refine (hstart.exec (kept_folderClients P) (hfree.mono fun m a ha => ?_) hrun).inv.unique
  cases a with
  | start i call => trivial
  | fail i e => trivial
  | step i =>
    intro answers call w k hc
    have h := ha answers call w k hc
    cases call with
    | registerUser user password salt => trivial
    | createFolder | renameFolder | deleteFolder => exact h (by simp)

/-- A user with an inbox. -/
def withInbox : DB :=
  { DB.empty with
    users := Table.empty.insert ⟨lit "alice", []⟩
    folders := Table.empty.insert { userId := 1, parentId := none, name := lit "INBOX" } }

theorem named_withInbox : Named withInbox where
  unique i j f g hf hg _ _ := by
    have hone : ∀ {i : ℤ} {f : FolderData}, withInbox.folders.get? i = some f → i = 1 := by
      intro i f hf
      rw [withInbox, Table.get?_insert] at hf
      split_ifs at hf with hi
      · exact hi
      · exact absurd hf (by simp)
    exact (hone hf).trans (hone hg).symm
  owned i f hf := by
    rw [withInbox, Table.get?_insert] at hf
    split_ifs at hf with hi
    · obtain rfl := Option.some.inj hf
      rfl
    · exact absurd hf (by simp)

/-- A folder for that user. -/
def work : Folder := { userId := 1, parentId := none, name := lit "Work" }

/-- Both clients look the name up; then one creates the folder, and then the other. -/
def race : List (LockAct Bool FolderCall Bytes) :=
  [.start false (.createFolder work), .start true (.createFolder work), .step false, .step true,
    .step false, .step false, .step false, .step true, .step true, .step true]

theorem not_uniqueNames_race : Named withInbox ∧ ∃ n,
    Run.exec (folderClients plainHash).next (.start withInbox []) race = some n ∧
      ¬ UniqueNames n.db := by
  refine ⟨named_withInbox, _, rfl, fun h => ?_⟩
  exact absurd (h 2 3 work.row work.row rfl rfl rfl rfl) (by decide)

/-- One client creates the folder before the other looks the name up. -/
def inTurn : List (LockAct Bool FolderCall Bytes) :=
  [.start false (.createFolder work), .step false, .step false, .step false, .step false,
    .step false, .start true (.createFolder work), .step true, .step true]

theorem uniqueNames_inTurn : ∃ n,
    Run.exec (folderClients plainHash).next (.start withInbox []) inTurn = some n ∧
      UniqueNames n.db := by
  have hfree : Run.Along (folderClients plainHash).next NameFree (.start withInbox []) inTurn := by
    refine .cons trivial rfl (.cons ?_ rfl (.cons ?_ rfl (.cons ?_ rfl (.cons ?_ rfl
      (.cons ?_ rfl (.cons trivial rfl (.cons ?_ rfl (.cons ?_ rfl trivial))))))))
    · exact fun _ _ _ _ hc => nomatch hc
    · exact fun _ _ _ _ hc => nomatch hc
    · intro answers call w k hc _
      obtain ⟨rfl, rfl, hp⟩ := LockClient.busy.inj hc
      obtain ⟨rfl, -⟩ := LockProg.exec.inj hp
      exact fun _ => rfl
    · exact fun _ _ _ _ hc => nomatch hc
    · exact fun _ _ _ _ hc => nomatch hc
    · exact fun _ _ _ _ hc => nomatch hc
    · exact fun _ _ _ _ hc => nomatch hc
  exact ⟨_, rfl, uniqueNames_of_exec plainHash named_withInbox.unique named_withInbox.owned hfree
    rfl⟩

end MailStack.Store
