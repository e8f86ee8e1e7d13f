import Mathlib.Logic.Relation
import MailStack.Api.Handler
import MailStack.Smtp.Delivery

/-!
# Api/Passwords — who may log in

Accounts are made in two ways: by the API, with a password, and by `SaveMessage` for a recipient
that has none.  Both end in `registerUser`, which overwrites the placeholder hash of the second with
the hash of its empty password.

A `Site` is the server together with what the clients of the API know, the password last set for
each name.  `authorize_of_exec` says that the two agree in every run in which no mail goes to a name
without an account; one that does makes an account with an empty password, `authorize_empty`.
-/

open Bytes Prog MailStack.Store MailStack.Smtp

namespace MailStack.Api

/-! ## What is done to the user table -/

/-- The name was free, and has an account with that hash. -/
def Enrols (name hash : Bytes) (users users' : Table UserData) : Prop :=
  (∀ i d, users.get? i = some d → d.username ≠ name) ∧ users' = users.insert ⟨name, hash⟩

/-- The write leaves the users alone. -/
def KeepsUsers (w : StoreWrite) : Prop :=
  ∀ (db db' : DB) (a : Answer), StoreEffect db w db' a → db'.users = db.users

/-- Deleting messages keeps the users. -/
theorem foldl_hardDelete_users (ids : List ℤ) (db : DB) :
    (ids.foldl MessageDAL.hardDelete db).users = db.users := by
  induction ids generalizing db with
  | nil => rfl
  | cons id ids ih => exact ih (MessageDAL.hardDelete db id)

/-- So does every write of messages. -/
theorem keepsUsers_message (w : Write) : KeepsUsers (.message w) := by
  intro db db' a h
  cases h with
  | message h =>
    cases h with
    | @expunge ids => exact foldl_hardDelete_users ids db
    | assignUID | updateSeen | updateDeleted | updateFlags | moveToFolder | moveNothing
    | hardDelete | copy | insertFolder | updateFolder | deleteFolder | incrementNextUID
    | clearRecentByFolder | setSubscribed => rfl

section Runs

variable {db db' : DB} {ws : List (DB × DB)}

/-- So does a run of such writes. -/
theorem users_of_runs {α : Type} {p : StoreM α} {a : α} (hp : p.Writes KeepsUsers)
    (h : Runs mailStore p db ws a db') : db'.users = db.users :=
  hp.runs (R := fun db db' : DB => db'.users = db.users) (fun _ => rfl)
    (fun {_ _ _} h h' => h'.trans h)
    (fun hw happly => hw _ _ _ (StoreWrite.effect happly)) h

/-- The calls of the message repository are such. -/
theorem writes_ofMessages {α : Type} (p : DbM α) : (ofMessages p).Writes KeepsUsers := by
  rw [ofMessages]
  induction p with
  | ret a => trivial
  | read k ih => exact fun db => ih db
  | write w k ih => exact ⟨keepsUsers_message w, fun r => ih r⟩

/-- So are the default folders. -/
theorem keepsUsers_insertFolders (userId : ℤ) :
    ∀ names, (UserRepository.insertFolders userId names).Writes KeepsUsers
  | [] => writes_pure _
  | _ :: names => by
      refine (writes_lockedOrError (keepsUsers_message _)).bind fun r => ?_
      cases r with
      | error e => exact writes_pure _
      | ok a => exact keepsUsers_insertFolders userId names

/-- No row has a name that is not found. -/
theorem free_of_findByUsername {name : Bytes} (h : UserDAL.findByUsername db name = none) :
    ∀ i d, db.users.get? i = some d → d.username ≠ cstr name := by
  intro i d hd hname
  rw [UserDAL.findByUsername, Option.map_eq_none_iff, List.find?_eq_none] at h
  exact h (i, d) (Table.mem_rows_iff.mpr hd) (by simpa using hname)

/-- **A registration** leaves the users alone, or enrols the name with a hash of the password; one
that is reported to have succeeded does the latter. -/
theorem users_of_registerUser {P : PasswordHash} {user : User} {password salt : Bytes}
    {r : Result User}
    (h : Runs mailStore (UserRepository.registerUser P user password salt) db ws r db') :
    (r.isOk = false ∧ db'.users = db.users) ∨
      ∃ hash, P.hash salt password = some hash ∧
        Enrols (cstr user.username) (cstr hash) db.users db'.users := by
  have hfind := Runs.of_query_bind h
  cases hnone : UserDAL.findByUsername db user.username with
  | some u =>
    rw [hnone] at hfind
    obtain ⟨rfl, rfl, -⟩ := Runs.of_ret hfind
    exact .inl ⟨rfl, rfl⟩
  | none =>
    rw [hnone] at hfind
    dsimp only at hfind
    split_ifs at hfind with hhash
    · obtain ⟨rfl, rfl, -⟩ := Runs.of_ret hfind
      exact .inl ⟨rfl, rfl⟩
    · rcases of_lockedOrError_bind hfind with ⟨db₁, a, ws₁, he, hk⟩ | ⟨e, hk⟩
      · obtain ⟨r₂, db₂, ws₂, ws₃, hfolders, hret, -⟩ := Runs.of_bind hk
        have husers := users_of_runs (keepsUsers_insertFolders _ _) hfolders
        have hsame : db' = db₂ := by
          cases r₂ with
          | error e => exact (Runs.of_ret hret).2.1
          | ok u => exact (Runs.of_ret hret).2.1
        cases hP : P.hash salt password with
        | none => exact absurd (by rw [UserRepository.hashPassword, hP]; rfl) hhash
        | some hash =>
          cases he with
          | insertUser hfree =>
            refine .inr ⟨hash, rfl, free_of_findByUsername hnone, ?_⟩
            rw [hsame, husers, UserRepository.hashPassword, hP]
            rfl
      · obtain ⟨rfl, rfl, -⟩ := Runs.of_ret hk
        exact .inl ⟨rfl, rfl⟩

end Runs

/-- A recipient got an account, with the hash of the empty password. -/
def AutoEnrols (P : PasswordHash) (recipients : List Bytes) (users users' : Table UserData) : Prop :=
  ∃ r ∈ recipients, ∃ salt hash, P.hash salt [] = some hash ∧
    Enrols (cstr (extractUsername r)) (cstr hash) users users'

section Delivery

variable {P : PasswordHash} {s s' : Server} {ws : List (Server × Server)}

/-- And so is a run of the server's over the store. -/
theorem users_of_ofStore {α : Type} {p : StoreM α} {a : α} (hp : p.Writes KeepsUsers)
    (h : Runs serverStore (ofStore p) s ws a s') : s'.db.users = s.db.users := by
  obtain ⟨⟨ws', hrun⟩, -⟩ := of_ofStore h
  exact users_of_runs hp hrun

/-- `findOrRegister` keeps the users or adds one without a password. -/
theorem users_of_findOrRegister {username salt : Bytes} {o : Option User}
    (h : Runs serverStore (findOrRegister P username salt) s ws o s') :
    s'.db.users = s.db.users ∨
      ∃ hash, P.hash salt [] = some hash ∧
        Enrols (cstr username) (cstr hash) s.db.users s'.db.users := by
  obtain ⟨o₁, s₁, ws₁, ws₂, hfind, hk, -⟩ := Runs.of_bind h
  obtain ⟨rfl, -⟩ := of_lookup hfind
  cases o₁ with
  | some user =>
    obtain ⟨-, rfl, -⟩ := Runs.of_ret hk
    exact .inl rfl
  | none =>
    obtain ⟨r, s₂, ws₃, ws₄, hreg, hk, -⟩ := Runs.of_bind hk
    obtain ⟨⟨ws', hreg⟩, -⟩ := of_ofStore hreg
    have hsame : s' = s₂ := by
      cases r with
      | error e => exact (Runs.of_ret hk).2.1
      | ok user => exact (of_lookup hk).1
    subst hsame
    rcases users_of_registerUser hreg with ⟨-, husers⟩ | henrols
    · exact .inl husers
    · exact .inr henrols

/-- **One recipient**: the users stay, or the recipient is enrolled. -/
theorem users_of_saveTo {sender body recipientAddr : Bytes} {parsed : Option Mime.Email} {c : Chance}
    {saved : Bool} (h : Runs serverStore (saveTo P sender body parsed c recipientAddr) s ws saved s') :
    s'.db.users = s.db.users ∨
      ∃ hash, P.hash c.salt [] = some hash ∧
        Enrols (cstr (extractUsername recipientAddr)) (cstr hash) s.db.users s'.db.users := by
  obtain ⟨user, s₁, ws₁, ws₂, hfind, hk₁, -⟩ := Runs.of_bind h
  suffices hrest : s'.db.users = s₁.db.users by
    rw [hrest]
    exact users_of_findOrRegister hfind
  cases huid : user.bind (·.id) with
  | none =>
    rw [huid] at hk₁
    rw [(Runs.of_ret hk₁).2.1]
  | some userId =>
    rw [huid] at hk₁
    obtain ⟨inbox, s₂, ws₃, ws₄, hlook, hk₂, -⟩ := Runs.of_bind hk₁
    obtain ⟨rfl, -⟩ := of_lookup hlook
    cases hiid : inbox.bind (·.id) with
    | none =>
      rw [hiid] at hk₂
      rw [(Runs.of_ret hk₂).2.1]
    | some inboxId =>
      rw [hiid] at hk₂
      obtain ⟨path, s₃, ws₅, ws₆, hwrite, hk₃, -⟩ := Runs.of_bind hk₂
      rw [← (of_writeMailToFile hwrite).1]
      dsimp only at hk₃
      split_ifs at hk₃
      · rw [(Runs.of_ret hk₃).2.1]
      · obtain ⟨r, s₄, ws₇, ws₈, hdeliver, hk₄, -⟩ := Runs.of_bind hk₃
        rw [← users_of_ofStore (writes_ofMessages _) hdeliver]
        cases r with
        | error e => rw [(Runs.of_ret hk₄).2.1]
        | ok delivered =>
          obtain ⟨_, s₅, ws₉, ws₁₀, hadd, hk₅, -⟩ := Runs.of_bind hk₄
          rw [(Runs.of_ret hk₅).2.1, of_addRecipients hadd]

/-- **A delivery enrols recipients**, one after the other, and does nothing else to the users. -/
theorem users_of_saveLoop {sender body : Bytes} {parsed : Option Mime.Email} {all : List Bytes} :
    ∀ {recipients : List Bytes} {chances : ℕ → Chance} {anySaved b : Bool} {s : Server}
      {ws : List (Server × Server)}, recipients ⊆ all →
      Runs serverStore (saveLoop P sender body parsed chances recipients anySaved) s ws b s' →
        Relation.ReflTransGen (AutoEnrols P all) s.db.users s'.db.users
  | [], chances, anySaved, b, s, ws, _, h => by
      rw [(Runs.of_ret h).2.1]
  | r :: rs, chances, anySaved, b, s, ws, hsub, h => by
      obtain ⟨saved, s₁, ws₁, ws₂, hsave, hrest, -⟩ := Runs.of_bind h
      have htail := users_of_saveLoop (fun x hx => hsub (List.mem_cons_of_mem r hx)) hrest
      rcases users_of_saveTo hsave with hsame | ⟨hash, hhash, henrols⟩
      · rwa [hsame] at htail
      · exact .head ⟨r, hsub List.mem_cons_self, _, hash, hhash, henrols⟩ htail

/-- So does `SaveMessage`, for each of its recipients. -/
theorem users_of_saveMessage {logger : Bool} {chances : ℕ → Chance} {sender body : Bytes}
    {recipients : List Bytes} {b : Bool}
    (h : Runs serverStore (saveMessage P logger chances sender recipients body) s ws b s') :
    Relation.ReflTransGen (AutoEnrols P recipients) s.db.users s'.db.users := by
  rw [saveMessage_eq_saveLoop] at h
  exact users_of_saveLoop (List.Subset.refl _) h

end Delivery

section Handlers

variable {P : PasswordHash} {db db' : DB} {ws : List (DB × DB)} {response : Response}

/-- **A registration over the API**: the users stay, or the name is enrolled; an answer `ok` says
the latter. -/
theorem users_of_register {username password salt : Bytes}
    (h : Runs mailStore (register P username password salt) db ws response db') :
    (response.status ≠ .ok ∧ db'.users = db.users) ∨
      ∃ hash, P.hash salt password = some hash ∧
        Enrols (cstr username) (cstr hash) db.users db'.users := by
  obtain ⟨r, db₁, ws₁, ws₂, hreg, hk, -⟩ := Runs.of_bind h
  have husers := users_of_registerUser hreg
  cases r with
  | error e =>
    obtain ⟨rfl, rfl, -⟩ := Runs.of_ret hk
    exact husers.imp (fun h => ⟨by simp [errorResponse], h.2⟩) fun h => h
  | ok user =>
    obtain ⟨rfl, rfl, -⟩ := Runs.of_ret hk
    exact .inr (husers.resolve_left fun h => absurd h.1 (by simp [Except.isOk, Except.toBool]))

/-- **A change of password over the API**: the hash of the account is replaced, and where that is
not so the answer is an error. -/
theorem users_of_changePassword {username oldPassword newPassword salt : Bytes}
    (h : Runs mailStore (changePassword P username oldPassword newPassword salt) db ws response
      db') :
    (response.status ≠ .ok ∧ db'.users = db.users) ∨
      response.status = .ok ∧ ∃ id d, db.users.get? id = some d ∧ d.username = cstr username ∧
        db'.users = db.users.modify id fun d =>
          { d with passwordHash := cstr (UserRepository.hashPassword P salt newPassword) } := by
  have hauth := Runs.of_query_bind h
  split_ifs at hauth
  · have hfind := Runs.of_query_bind hauth
    cases hid : (UserDAL.findByUsername db username).bind (·.id) with
    | none =>
      rw [hid] at hfind
      obtain ⟨rfl, rfl, -⟩ := Runs.of_ret hfind
      exact .inl ⟨by simp [errorResponse], rfl⟩
    | some id =>
      rw [hid] at hfind
      obtain ⟨user, huser, huserId⟩ := Option.bind_eq_some_iff.mp hid
      obtain ⟨i, d, hi, hd, hname⟩ := username_of_findByUsername huser
      obtain rfl : i = id := Option.some.inj (hi.symm.trans huserId)
      obtain ⟨r, db₁, ws₁, ws₂, hchange, hk, -⟩ := Runs.of_bind hfind
      have hlook := Runs.of_query_bind hchange
      have hsome : UserDAL.findByID db i = some (UserDAL.rowToUser i d) := by
        rw [UserDAL.findByID, hd]
        rfl
      rw [hsome] at hlook
      rcases Runs.of_locked_bind hlook with ⟨db₂, a, ws₃, hw, hret, -⟩ | ⟨e, hret⟩
      · obtain ⟨rfl, rfl, -⟩ := Runs.of_ret hret
        obtain ⟨rfl, rfl, -⟩ := Runs.of_ret hk
        obtain ⟨rfl, -⟩ := Prod.mk.inj (Except.ok.inj hw)
        exact .inr ⟨rfl, i, d, hd, hname, rfl⟩
      · obtain ⟨rfl, rfl, -⟩ := Runs.of_ret hret
        obtain ⟨rfl, rfl, -⟩ := Runs.of_ret hk
        exact .inl ⟨by simp [errorResponse], rfl⟩
  · obtain ⟨rfl, rfl, -⟩ := Runs.of_ret hauth
    exact .inl ⟨by simp [errorResponse], rfl⟩

end Handlers

/-! ## The system -/

/-- A request to one of the servers, with what it draws. -/
inductive Event
  | register (body salt : Bytes)
  | changePassword (body salt : Bytes)
  | deliver (logger : Bool) (chances : ℕ → Chance) (sender : Bytes) (recipients : List Bytes)
      (body : Bytes)

/-- A request, and which of its steps fail. -/
structure Request where
  event : Event
  faults : ℕ → Option Bytes

/-- The server, and the password last set over the API for each name that was registered there. -/
structure Site where
  server : Server
  registry : Bytes → Option Bytes

/-- Before the first request. -/
def Site.empty : Site := ⟨⟨.empty, fun _ => none⟩, fun _ => none⟩

/-- A request that was answered `ok` sets the password, the member `k`, of the name it gives. -/
def noteSet (registry : Bytes → Option Bytes) (fields : Except Response (List Bytes)) (k : ℕ)
    (response : Response) : Bytes → Option Bytes :=
  match fields with
  | .error _ => registry
  | .ok fields =>
    if response.status = .ok then
      Function.update registry (fields.getD 0 []) (some (fields.getD k []))
    else registry

section System

variable (P : PasswordHash) (parseJson : Bytes → Option Json)

/-- How an API request ends. -/
def answer (t : Site) (faults : ℕ → Option Bytes) (p : StoreM Response) : DB × Response :=
  let out := runFaults mailStore p (t.server.db, faults)
  (out.1.1, out.2)

/-- **One request.** -/
def step (t : Site) (r : Request) : Option Site :=
  match r.event with
  | .register body salt =>
    let out := answer t r.faults (handleRegister P parseJson body salt)
    some ⟨{ t.server with db := out.1 }, noteSet t.registry (readRegister parseJson body) 1 out.2⟩
  | .changePassword body salt =>
    let out := answer t r.faults (handleChangePassword P parseJson body salt)
    some ⟨{ t.server with db := out.1 },
      noteSet t.registry (readChangePassword parseJson body) 2 out.2⟩
  | .deliver logger chances sender recipients body =>
    let out := runFaults serverStore (saveMessage P logger chances sender recipients body)
      (t.server, r.faults)
    some { t with server := out.1.1 }

end System

/-! ## A registration that is not cut short -/

section Register

variable {P : PasswordHash} {db : DB} {faults : ℕ → Option Bytes}

/-- A locked write that does not fail. -/
theorem runFaults_lockedOrError {w : StoreWrite} {db' : DB} {a : Answer} (hfault : faults 0 = none)
    (hw : w.apply db = .ok (db', a)) :
    runFaults mailStore (lockedOrError w) (db, faults) =
      ((db', fun n => faults (n + 1)), .ok a) := by
  have happly : mailStore.apply w db = .ok (db', a) := hw
  rw [lockedOrError, runFaults_bind, locked, runFaults]
  simp only [hfault, happly]
  rfl

/-- A locked write is made, or it fails. -/
theorem runFaults_lockedOrError_cases (db : DB) (faults : ℕ → Option Bytes) (w : StoreWrite) :
    (∃ db' a, w.apply db = .ok (db', a) ∧ runFaults mailStore (lockedOrError w) (db, faults) =
        ((db', fun n => faults (n + 1)), .ok a)) ∨
      ∃ e, runFaults mailStore (lockedOrError w) (db, faults) =
        ((db, fun n => faults (n + 1)), .error e) := by
  cases hfault : faults 0 with
  | some e =>
    refine .inr ⟨some e, ?_⟩
    rw [lockedOrError, runFaults_bind, locked, runFaults]
    simp only [hfault]
    rfl
  | none =>
    cases hw : w.apply db with
    | ok p => exact .inl ⟨p.1, p.2, rfl, runFaults_lockedOrError hfault hw⟩
    | error e =>
      have happly : mailStore.apply w db = .error e := hw
      refine .inr ⟨some e, ?_⟩
      rw [lockedOrError, runFaults_bind, locked, runFaults]
      simp only [hfault, happly]
      rfl

/-- The folders of a user go in, where no write fails. -/
theorem insertFolders_ok {userId : ℤ} :
    ∀ {names : List Bytes} {db : DB} {faults : ℕ → Option Bytes}, (∀ n, faults n = none) →
      (db.users.get? userId).isSome = true →
      (runFaults mailStore (UserRepository.insertFolders userId names) (db, faults)).2 = .ok ()
  | [], _, _, _, _ => rfl
  | name :: names, db, faults, hfaults, huser => by
      have hrefs : FolderDAL.refers db
          (Folder.row { userId, parentId := none, name, nextUid := 1, isSubscribed := true }) := by
        simpa [FolderDAL.refers, Folder.row] using huser
      rw [UserRepository.insertFolders, runFaults_bind,
        runFaults_lockedOrError (hfaults 0) (by
          rw [StoreWrite.apply, Write.apply, FolderDAL.insert, if_pos hrefs])]
      exact insertFolders_ok (fun n => hfaults (n + 1)) huser

/-- **Where no write after the first fails, a registration that is reported to have failed has
left the users alone.** -/
theorem users_of_failed {user : User} {password salt : Bytes} (hfaults : ∀ n, faults (n + 1) = none)
    (hfailed : (runFaults mailStore (UserRepository.registerUser P user password salt)
      (db, faults)).2.isOk = false) :
    (runFaults mailStore (UserRepository.registerUser P user password salt)
      (db, faults)).1.1.users = db.users := by
  rw [UserRepository.registerUser, runFaults_query_bind] at hfailed ⊢
  cases hfind : UserDAL.findByUsername db user.username with
  | some u =>
    simp only [hfind] at hfailed ⊢
    rfl
  | none =>
    simp only [hfind] at hfailed ⊢
    split_ifs at hfailed ⊢ with hhash
    · rfl
    · rw [runFaults_bind] at hfailed ⊢
      rcases runFaults_lockedOrError_cases db faults (.insertUser { user with
        passwordHash := UserRepository.hashPassword P salt password }) with
        ⟨db₁, a, hw, hrun⟩ | ⟨e, hrun⟩
      · have huser : (db₁.users.get? a.id).isSome = true := by
          cases StoreWrite.effect hw
          simp
        rw [hrun] at hfailed
        dsimp only at hfailed
        rw [runFaults_bind, insertFolders_ok hfaults huser] at hfailed
        exact absurd hfailed (by simp [runFaults, Except.isOk, Except.toBool])
      · rw [hrun]
        rfl

/-- The same over the API. -/
theorem users_of_failed_register {username password salt : Bytes}
    (hfaults : ∀ n, faults (n + 1) = none)
    (hfailed : (runFaults mailStore (register P username password salt) (db, faults)).2.status ≠
      .ok) :
    (runFaults mailStore (register P username password salt) (db, faults)).1.1.users =
      db.users := by
  rw [register, runFaults_bind] at hfailed ⊢
  cases hresult : (runFaults mailStore (UserRepository.registerUser P
      { username, passwordHash := [] } password salt) (db, faults)).2 with
  | error e => exact users_of_failed hfaults (by rw [hresult]; rfl)
  | ok user =>
    simp only [hresult] at hfailed
    exact absurd rfl hfailed

end Register

/-! ## The invariant -/

/-- **Only the password last set over the API is accepted**, by the one account of a name. -/
structure Sound (P : PasswordHash) (users : Table UserData) (registry : Bytes → Option Bytes) :
    Prop where
  unique : ∀ i j d d', users.get? i = some d → users.get? j = some d' →
    d.username = d'.username → i = j
  known : ∀ i d password, users.get? i = some d → P.verify d.passwordHash password = true →
    registry d.username = some password

section Sound

variable {P : PasswordHash} {users users' : Table UserData} {registry : Bytes → Option Bytes}

/-- A name is registered with a password. -/
theorem Sound.enrol (h : Sound P users registry) (hP : P.Exact) {name salt password hash : Bytes}
    (hhash : P.hash salt password = some hash) (henrols : Enrols name (cstr hash) users users') :
    Sound P users' (Function.update registry name (some password)) := by
  obtain ⟨hfree, rfl⟩ := henrols
  constructor
  · intro i j d d' hd hd' hname
    rw [Table.get?_insert] at hd hd'
    split_ifs at hd hd' with hi hj hj
    · rw [hi, hj]
    · obtain rfl := Option.some.inj hd
      exact absurd hname.symm (hfree j d' hd')
    · obtain rfl := Option.some.inj hd'
      exact absurd hname (hfree i d hd)
    · exact h.unique i j d d' hd hd' hname
  · intro i d p hd hverify
    rw [Table.get?_insert] at hd
    split_ifs at hd
    · obtain rfl := Option.some.inj hd
      rw [hP.cstr_hash hhash] at hverify
      rw [(hP.verify_iff hhash).mp hverify]
      exact Function.update_self ..
    · rw [Function.update_of_ne (hfree i d hd)]
      exact h.known i d p hd hverify

/-- The password of an account is changed. -/
theorem Sound.change (h : Sound P users registry) (hP : P.Exact) {id : ℤ} {d : UserData}
    {name salt password : Bytes} (hd : users.get? id = some d) (hname : d.username = name) :
    Sound P (users.modify id fun d =>
        { d with passwordHash := cstr (UserRepository.hashPassword P salt password) })
      (Function.update registry name (some password)) := by
  have hrow : ∀ {i : ℤ} {d' : UserData}, (users.modify id fun d =>
      { d with passwordHash := cstr (UserRepository.hashPassword P salt password) }).get? i =
        some d' → ∃ d₀, users.get? i = some d₀ ∧ d'.username = d₀.username ∧
          d'.passwordHash = if i = id then cstr (UserRepository.hashPassword P salt password)
            else d₀.passwordHash := by
    intro i d' hd'
    rw [Table.get?_modify] at hd'
    split_ifs at hd' ⊢
    · obtain ⟨d₀, hd₀, rfl⟩ := Option.map_eq_some_iff.mp hd'
      exact ⟨d₀, hd₀, rfl, rfl⟩
    · exact ⟨d', hd', rfl, rfl⟩
  constructor
  · intro i j d₁ d₂ hd₁ hd₂ heq
    obtain ⟨d₁', hd₁', hname₁, -⟩ := hrow hd₁
    obtain ⟨d₂', hd₂', hname₂, -⟩ := hrow hd₂
    exact h.unique i j d₁' d₂' hd₁' hd₂' (by rw [← hname₁, ← hname₂, heq])
  · intro i d₁ p hd₁ hverify
    obtain ⟨d₁', hd₁', hname₁, hhash₁⟩ := hrow hd₁
    rw [hname₁]
    split_ifs at hhash₁ with hi
    · subst hi
      obtain rfl := Option.some.inj (hd.symm.trans hd₁')
      rw [hname, Function.update_self]
      rw [hhash₁, UserRepository.hashPassword] at hverify
      cases hhash : P.hash salt password with
      | none =>
        rw [hhash] at hverify
        exact absurd hverify (by simp [cstr, hP.verify_nil])
      | some hash =>
        rw [hhash, Option.getD_some, hP.cstr_hash hhash] at hverify
        rw [(hP.verify_iff hhash).mp hverify]
    · have hne : d₁'.username ≠ name := fun heq =>
        hi (h.unique i id d₁' d hd₁' hd (heq.trans hname.symm))
      rw [Function.update_of_ne hne]
      exact h.known i d₁' p hd₁' (hhash₁ ▸ hverify)

end Sound

section Runs

variable (P : PasswordHash) (parseJson : Bytes → Option Json)

/-- **No account is made without a password**: mail goes only to names that have an account, and of
a registration no write fails after the first. -/
def Proper (t : Site) (r : Request) : Prop :=
  match r.event with
  | .register _ _ => ∀ n, r.faults (n + 1) = none
  | .changePassword _ _ => True
  | .deliver _ _ _ recipients _ =>
    ∀ a ∈ recipients, (UserDAL.findByUsername t.server.db (extractUsername a)).isSome = true

variable {P parseJson}

/-- No one is enrolled where everyone has an account. -/
theorem eq_of_autoEnrols {recipients : List Bytes} {users users' : Table UserData}
    (hall : ∀ a ∈ recipients, ∃ i d, users.get? i = some d ∧ d.username = cstr (extractUsername a))
    (h : Relation.ReflTransGen (AutoEnrols P recipients) users users') : users' = users := by
  induction h using Relation.ReflTransGen.head_induction_on with
  | refl => rfl
  | head hstep _ ih =>
    obtain ⟨a, ha, salt, hash, -, hfree, -⟩ := hstep
    obtain ⟨i, d, hd, hname⟩ := hall a ha
    exact absurd hname (hfree i d hd)

/-- A field that was read is its text up to a zero. -/
theorem cstr_getD_of_readFields {names : List Bytes} {complaints : Complaints} {body : Bytes}
    {fields : List Bytes} (h : readFields parseJson names complaints body = .ok fields) (k : ℕ) :
    cstr (fields.getD k []) = fields.getD k [] := by
  rw [List.getD_eq_getElem?_getD]
  cases hk : fields[k]? with
  | none => rfl
  | some t => exact ((of_readFields h).2 t (List.mem_of_getElem? hk)).2

/-- A registration keeps the invariant. -/
theorem sound_register {t : Site} {faults : ℕ → Option Bytes} (hP : P.Exact)
    (h : Sound P t.server.db.users t.registry) (hfaults : ∀ n, faults (n + 1) = none)
    (body salt : Bytes) :
    let out := answer t faults (handleRegister P parseJson body salt)
    Sound P out.1.users (noteSet t.registry (readRegister parseJson body) 1 out.2) := by
  dsimp only [answer, handleRegister]
  cases hread : readRegister parseJson body with
  | error response => exact h
  | ok fields =>
    dsimp only [noteSet]
    obtain ⟨ws, hrun⟩ := runs_runFaults mailStore
      (register P (fields.getD 0 []) (fields.getD 1 []) salt) (t.server.db, faults)
    split_ifs with hstatus
    · obtain ⟨hash, hhash, henrols⟩ := (users_of_register hrun).resolve_left fun h => h.1 hstatus
      rw [cstr_getD_of_readFields hread] at henrols
      exact h.enrol hP hhash henrols
    · rw [users_of_failed_register hfaults hstatus]
      exact h

/-- A change of password keeps the invariant. -/
theorem sound_changePassword {t : Site} (hP : P.Exact)
    (h : Sound P t.server.db.users t.registry) (faults : ℕ → Option Bytes) (body salt : Bytes) :
    let out := answer t faults (handleChangePassword P parseJson body salt)
    Sound P out.1.users (noteSet t.registry (readChangePassword parseJson body) 2 out.2) := by
  dsimp only [answer, handleChangePassword]
  cases hread : readChangePassword parseJson body with
  | error response => exact h
  | ok fields =>
    dsimp only [noteSet]
    obtain ⟨ws, hrun⟩ := runs_runFaults mailStore (changePassword P (fields.getD 0 [])
      (fields.getD 1 []) (fields.getD 2 []) salt) (t.server.db, faults)
    rcases users_of_changePassword hrun with ⟨hstatus, husers⟩ | ⟨hstatus, id, d, hd, hname, husers⟩
    · rw [if_neg hstatus, husers]
      exact h
    · rw [if_pos hstatus, husers]
      rw [cstr_getD_of_readFields hread] at hname
      exact h.change hP hd hname

/-- **A request that meets the condition keeps the invariant.** -/
theorem sound_step {t t' : Site} {r : Request} (hP : P.Exact)
    (h : Sound P t.server.db.users t.registry) (hproper : Proper t r)
    (hstep : step P parseJson t r = some t') : Sound P t'.server.db.users t'.registry := by
  obtain ⟨event, faults⟩ := r
  cases event with
  | register body salt =>
    obtain rfl := Option.some.inj hstep
    exact sound_register hP h hproper body salt
  | changePassword body salt =>
    obtain rfl := Option.some.inj hstep
    exact sound_changePassword hP h faults body salt
  | deliver logger chances sender recipients body =>
    obtain rfl := Option.some.inj hstep
    obtain ⟨ws, hrun⟩ := runs_runFaults serverStore
      (saveMessage P logger chances sender recipients body) (t.server, faults)
    have hall : ∀ a ∈ recipients, ∃ i d, t.server.db.users.get? i = some d ∧
        d.username = cstr (extractUsername a) := by
      intro a ha
      obtain ⟨user, huser⟩ := Option.isSome_iff_exists.mp (hproper a ha)
      obtain ⟨i, d, -, hd, hname⟩ := username_of_findByUsername huser
      exact ⟨i, d, hd, hname⟩
    have husers := eq_of_autoEnrols hall (users_of_saveMessage hrun)
    dsimp only at husers ⊢
    rw [husers]
    exact h

/-- **No password-less accounts.**  In every run of registrations, changes of passwords and
deliveries from the empty database that makes no account without a password, only the password last
set over the API is accepted for a name, and only for a name that was registered there. -/
theorem authorize_of_exec (hP : P.Exact) {requests : List Request} {t : Site}
    (hproper : Run.Along (step P parseJson) Proper Site.empty requests)
    (hrun : Run.exec (step P parseJson) Site.empty requests = some t) {username password : Bytes}
    (h : UserRepository.authorize P username password t.server.db = true) :
    t.registry (cstr username) = some password := by
  have hsound : Sound P t.server.db.users t.registry :=
    Run.exec_invariant_of_along (I := fun t => Sound P t.server.db.users t.registry)
      (fun _ _ _ hs hC hstep => sound_step hP hs hC hstep)
      ⟨fun i j d d' hd => absurd hd (by simp [Site.empty, DB.empty]),
        fun i d p hd => absurd hd (by simp [Site.empty, DB.empty])⟩ hproper hrun
  rw [UserRepository.authorize, Option.any_eq_true] at h
  obtain ⟨user, huser, hverify⟩ := h
  obtain ⟨r, hr, rfl⟩ := Option.map_eq_some_iff.mp huser
  have hname : r.2.username = cstr username := by simpa using List.find?_some hr
  rw [← hname]
  exact hsound.known r.1 r.2 password (Table.mem_rows_iff.mp (List.mem_of_find?_eq_some hr)) hverify

end Runs

/-! ## Alice registers, and Bob gets mail -/

/-- Every body gives Alice and her password. -/
def aliceJson : Bytes → Option Json := fun _ =>
  some (.object [(lit "username", .string (lit "alice")), (lit "password", .string (lit "secret"))])

/-- A registration in which nothing fails. -/
def aliceRegisters : Request := ⟨.register [] [], fun _ => none⟩

/-- The site once she is registered. -/
def aliceSite : Site := (step markedHash aliceJson Site.empty aliceRegisters).getD Site.empty

/-- The body is a name; the other members are the same for everyone. -/
def accountsJson (body : Bytes) : Option Json :=
  some (.object [(lit "username", .string body), (lit "password", .string (lit "secret")),
    (lit "old_password", .string (lit "secret")), (lit "new_password", .string (lit "changed"))])

/-- Alice and Bob register, both get mail, and Alice changes her password. -/
def twoAccounts : List Request :=
  [⟨.register (lit "alice") [], fun _ => none⟩, ⟨.register (lit "bob") [], fun _ => none⟩,
    ⟨.deliver true (fun _ => noChance) (lit "alice") [lit "bob@localhost", lit "alice"]
      (lit "hello\n"), fun _ => none⟩,
    ⟨.changePassword (lit "alice") [], fun _ => none⟩]

/-- The site after that. -/
def twoAccountsSite : Site :=
  (Run.exec (step markedHash accountsJson) Site.empty twoAccounts).getD Site.empty

theorem proper_twoAccounts :
    Run.Along (step markedHash accountsJson) Proper Site.empty twoAccounts :=
  .cons (fun _ => rfl) rfl <| .cons (fun _ => rfl) rfl <|
    .cons (List.all_eq_true.mp (by decide)) rfl <| .cons trivial rfl trivial

theorem authorize_of_exec_alice :
    twoAccountsSite.server.db.messages.rows.map (·.2.userId) = [2, 1] ∧
      UserRepository.authorize markedHash (lit "alice") (lit "changed")
        twoAccountsSite.server.db = true ∧
      twoAccountsSite.registry (cstr (lit "alice")) = some (lit "changed") ∧
      UserRepository.authorize markedHash (lit "bob") (lit "secret")
        twoAccountsSite.server.db = true ∧
      twoAccountsSite.registry (cstr (lit "bob")) = some (lit "secret") := by
  have hrun : Run.exec (step markedHash accountsJson) Site.empty twoAccounts =
    some twoAccountsSite := rfl
  have halice : UserRepository.authorize markedHash (lit "alice") (lit "changed")
      twoAccountsSite.server.db = true := by decide
  have hbob : UserRepository.authorize markedHash (lit "bob") (lit "secret")
      twoAccountsSite.server.db = true := by decide
  exact ⟨by decide, halice,
    authorize_of_exec exact_markedHash proper_twoAccounts hrun halice, hbob,
    authorize_of_exec exact_markedHash proper_twoAccounts hrun hbob⟩

/-- **An account without a password**: mail to Bob, whom the server does not know, makes one that
the empty password opens, although Bob never registered. -/
theorem authorize_empty :
    markedHash.Exact ∧ ∃ requests t, Run.exec (step markedHash aliceJson) Site.empty requests =
      some t ∧ UserRepository.authorize markedHash (lit "bob") [] t.server.db = true ∧
      t.registry (lit "bob") = none := by
  refine ⟨exact_markedHash, [⟨.deliver true (fun _ => noChance) (lit "alice")
    [lit "bob"] (lit "hello\n"), fun _ => none⟩], _, rfl, by decide +kernel, rfl⟩

end MailStack.Api
