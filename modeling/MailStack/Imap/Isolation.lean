import MailStack.Imap.Handlers
import MailStack.Machinery.Clients

/-!
# Imap/Isolation — a session works on the rows of its user

`isolated_of_exec`: in every run of any number of sessions, with any commands, any interleaving of
their steps and any failures of their writes, next to an environment that keeps the database one of
tenants, every session is in order between its commands, and a command reads and changes rows of its
user only.
-/

open Bytes

namespace MailStack.Imap

open Store Prog

/-! ## Commands -/

section Commands

variable {o : Option ℤ} {s : DB}

/-- The session is in order. -/
abbrev InOrder (o : Option ℤ) (s : DB) (A : Dispatcher → DB → Prop) (h : HandlerM Bytes) : Prop :=
  Handles (tenantContract o) SessionOk A s h SessionOk fun _ _ => True

theorem inOrder_pure {reply : Bytes} : InOrder o s SessionOk (pure reply) :=
  Triple.pure fun _ _ => trivial

theorem quiet_sessionOk : Quiet (tenantContract o) SessionOk SessionOk where
  stable _ _ _ hl h := h.ages hl.1
  lastError _ _ _ h := ⟨h.authenticated, h.selected, h.access⟩
  throws _ _ h := h

/-- `LOGIN` looks at the users only.  It leaves the mailbox of the user before in place, but not
selected. -/
theorem inOrder_handleLogin (S : Services) (cmd : ImapCommand) :
    InOrder o s SessionOk (handleLogin S cmd) := by
  have hfind : ∀ (s : DB) (name : Bytes), Spec store (tenantContract o) s
      (query (UserDAL.findByUsername · name)) fun x _ => ∀ user, x = some user →
        user.id.isSome = true := by
    intro s name
    refine Spec.query (fun s₁ s₂ _ _ hv => ?_) fun s₁ _ user hx => ?_
    · rw [UserDAL.findByUsername, UserDAL.findByUsername, hv.1]
    · obtain ⟨r, -, rfl⟩ := Option.map_eq_some_iff.mp hx
      rfl
  have hauthorize : ∀ (s : DB) (name password : Bytes),
      Spec store (tenantContract o) s (authorize S name password) fun _ _ => True := by
    intro s name password
    refine Spec.query (fun s₁ s₂ _ _ hv => ?_) fun _ _ => trivial
    rw [UserDAL.findByUsername, UserDAL.findByUsername, hv.1]
  refine Triple.ite inOrder_pure ?_
  refine (Handles.arg quiet_sessionOk cmd 0).bind fun name s₁ _ _ => ?_
  refine (Handles.arg quiet_sessionOk cmd 1).bind fun password s₂ _ _ => ?_
  refine (Handles.ask quiet_sessionOk (hauthorize s₂ name password)).bind fun ok s₃ _ _ => ?_
  refine Triple.ite ?_ inOrder_pure
  refine (Handles.arg quiet_sessionOk cmd 0).bind fun name s₄ _ _ => ?_
  refine (Handles.ask quiet_sessionOk (hfind s₄ name)).bind fun x s₅ _ hx => ?_
  cases x with
  | none => exact inOrder_pure
  | some user =>
    obtain ⟨id, hid⟩ := Option.isSome_iff_exists.mp (hx user rfl)
    refine (Handles.arg quiet_sessionOk cmd 0).bind fun name s₆ _ _ => ?_
    refine Triple.bind (B := fun d s' => SessionOk d s' ∧ d.authenticatedUserID = some id)
      (Triple.modify fun d s' _ h => ?_) fun _ s₇ _ _ => ?_
    · exact ⟨⟨fun _ => Option.isSome_of_eq_some hid, fun hsel => (nomatch hsel), h.access⟩, hid⟩
    · have hlog : Handles (tenantContract o) SessionOk
          (fun d s' => SessionOk d s' ∧ d.authenticatedUserID = some id) s₇ userID
          (fun d s' => SessionOk d s' ∧ d.authenticatedUserID = some id) fun _ _ => True :=
        Handles.member fun _ _ h => ⟨id, h.2, trivial⟩
      exact hlog.bind fun _ _ _ _ => inOrder_pure.pre fun _ _ _ h => h.1

/-- The session may give the command, and is the user's it began with. -/
def Admitted (o : Option ℤ) (cmd : ImapCommand) (d : Dispatcher) (db : DB) : Prop :=
  SessionOk d db ∧ d.authenticatedUserID = o ∧
    ¬ (requiresAuth cmd.type = true ∧ d.state = .nonAuthenticated)

/-- A command that requires authentication has a user. -/
theorem inOrder_of_keeps {cmd : ImapCommand} {h : HandlerM Bytes}
    (hauth : requiresAuth cmd.type = true)
    (hh : ∀ u, Keeps u (Held u) s h) : InOrder o s (Admitted o cmd) h := by
  rintro d s' hs ⟨hd, rfl, hadmitted⟩
  obtain ⟨u, hu⟩ := Option.isSome_iff_exists.mp
    (hd.authenticated fun hstate => hadmitted ⟨hauth, hstate⟩)
  rw [hu] at hs ⊢
  refine (hh u d s' hs ⟨hd, hu⟩).mono fun r s₁ hr => ?_
  obtain ⟨r, d₁⟩ := r
  cases r with
  | ok a => exact ⟨hr.1.1, trivial⟩
  | error e => exact hr.1

/-- **Every handler**, by the command it is for. -/
theorem inOrder_dispatch (S : Services) (cmd : ImapCommand) :
    InOrder o s (Admitted o cmd) (dispatch S cmd) := by
  have hfree : ∀ {h : HandlerM Bytes}, InOrder o s SessionOk h → InOrder o s (Admitted o cmd) h :=
    fun h => h.pre fun _ _ _ hd => hd.1
  have huser : ∀ {h : HandlerM Bytes}, requiresAuth cmd.type = true →
      (∀ u, Keeps u (Held u) s h) → InOrder o s (Admitted o cmd) h :=
    inOrder_of_keeps
  obtain ⟨tag, type, args⟩ := cmd
  cases type with
  | login => exact hfree (inOrder_handleLogin S _)
  | logout => exact hfree inOrder_pure
  | capability => exact hfree inOrder_pure
  | noop => exact hfree inOrder_pure
  | startTLS => exact hfree (Triple.ite inOrder_pure inOrder_pure)
  | select => exact huser rfl fun u => keeps_handleSelect _
  | list => exact huser rfl fun u => keeps_handleListing _ _ _ _
  | lsub => exact huser rfl fun u => keeps_handleListing _ _ _ _
  | status => exact huser rfl fun u => keeps_handleStatus _
  | fetch => exact huser rfl fun u => keeps_handleFetch S _
  | store => exact huser rfl fun u => keeps_handleStore _
  | create => exact huser rfl fun u => keeps_handleCreate _
  | delete => exact huser rfl fun u => keeps_handleDelete _
  | rename => exact huser rfl fun u => keeps_handleRename _
  | copy => exact huser rfl fun u => keeps_handleCopy _
  | expunge => exact huser rfl fun u => keeps_handleExpunge _
  | uidFetch => exact huser rfl fun u => keeps_handleUidFetch S _
  | uidStore => exact huser rfl fun u => keeps_handleUidStore _
  | uidCopy => exact huser rfl fun u => keeps_handleUidCopy _
  | subscribe => exact huser rfl fun u => keeps_handleSubscription _ _ _
  | unsubscribe => exact huser rfl fun u => keeps_handleSubscription _ _ _
  | close => exact huser rfl fun u => keeps_handleClose _
  | check => exact huser rfl fun u => keeps_handleCheck _
  | unknown => exact hfree inOrder_pure

/-- **A command leaves the session in order.** -/
theorem inOrder_handleCommand (S : Services) (cmd : ImapCommand) :
    InOrder o s (fun d s' => SessionOk d s' ∧ d.authenticatedUserID = o) (handleCommand S cmd) := by
  refine Triple.ite (inOrder_pure.pre fun _ _ _ h => h.1) ?_
  refine Triple.get_bind fun d => ?_
  rintro d' s' hs ⟨rfl, hd, ho⟩
  split_ifs with hguard
  · exact ⟨hd, trivial⟩
  · refine Handles.catching (inOrder_dispatch S cmd) (fun _ _ _ => inOrder_pure) d' s' hs ?_
    exact ⟨hd, ho, hguard⟩

end Commands

/-! ## Whole runs -/

/-- A session: its dispatcher, and whether it is closed, after `LOGOUT` or undefined behaviour. -/
structure Session where
  dispatcher : Dispatcher := {}
  closed : Bool := false

/-- Any number of sessions.  Whoever else uses the database puts another in its place. -/
def sessions (S : Services) :
    System DB Write Bytes Answer Session ImapCommand (Option Bytes) DB where
  store := store
  prog l cmd := do
    if l.closed then return (l, none)
    else
      let (r, d) ← (handleCommand S cmd).run.run l.dispatcher
      return (⟨d, cmd.type = .logout || !r.isOk⟩, r.toOption)
  env db _ := db

/-- The sessions and their database. -/
abbrev Sessions (ι : Type) :=
  Net DB Write Bytes Answer Session ImapCommand (Option Bytes) ι

/-- **Isolation**, at one moment of a run: the sessions that wait are in order; the next read of a
command does not tell apart databases that agree on the users and on the rows of its user; its next
write changes neither the users nor a row of another user. -/
structure Isolated {ι : Type} (n : Sessions ι) : Prop where
  session : ∀ i l, n.client i = .idle l → SessionOk l.dispatcher n.db
  reads : ∀ i l cmd k db, n.client i = .busy l cmd (.read k) → Ages n.db db → Tenants db →
    db.users = n.db.users →
    (∀ u, l.dispatcher.authenticatedUserID = some u → SameRows u n.db db) → k n.db = k db
  writes : ∀ i l cmd w k db a, n.client i = .busy l cmd (.write w k) →
    w.apply n.db = .ok (db, a) → db.users = n.db.users ∧
      ∀ v, l.dispatcher.authenticatedUserID ≠ some v → SameRows v n.db db

/-- The discipline of the sessions. -/
def sessionDiscipline : Discipline DB Write Session ImapCommand (Option Bytes) where
  inv := Tenants
  rely := Ages
  allow _ _ := True
  faulty := True
  view l := (tenantContract l.dispatcher.authenticatedUserID).view
  guar l := (tenantContract l.dispatcher.authenticatedUserID).guar
  loc l db := SessionOk l.dispatcher db
  post _ _ _ _ := True

theorem kept_sessionDiscipline (S : Services) : sessionDiscipline.Kept (sessions S) where
  refl := Ages.refl
  trans _ _ _ := Ages.trans
  loc_stable _ _ _ hr _ h := h.ages hr
  post_stable _ _ _ _ _ _ _ _ := trivial
  start l cmd db hinv hl := by
    unfold Discipline.Meets sessions
    dsimp only
    split_ifs
    · exact ⟨hl, trivial⟩
    · have hcmd := inOrder_handleCommand S cmd l.dispatcher db (.refl hinv) ⟨hl, rfl⟩
      refine Ok.bind (fun a s₁ ha => ?_) hcmd
      obtain ⟨r, d⟩ := a
      cases r with
      | ok reply => exact ⟨ha.1, trivial⟩
      | error e => exact ⟨ha, trivial⟩

section Runs

variable {ι : Type}

/-- What others do to the database reuses no id, and leaves it one of tenants. -/
def KeepsTenants (n : Sessions ι) : Act ι ImapCommand Bytes DB → Prop
  | .env db => Ages n.db db ∧ Tenants db
  | _ => True

/-- **No command reads or changes a row of another user**, and no session gets into a state without
a user or with a mailbox that is not its user's — for any number of sessions, any commands in any
order, any interleaving of their steps and any failures of their writes. -/
theorem isolated_of_exec [DecidableEq ι] (S : Services) {n n' : Sessions ι}
    {as : List (Act ι ImapCommand Bytes DB)} (hfresh : ∀ i, n.client i = .idle {})
    (htenants : Tenants n.db) (henv : Run.Along (sessions S).next KeepsTenants n as)
    (hrun : Run.exec (sessions S).next n as = some n') : Isolated n' := by
  have hkept := kept_sessionDiscipline S
  have hstart : sessionDiscipline.Holds (sessions S) n := by
    refine ⟨htenants, fun i => ?_⟩
    rw [hfresh]
    exact ⟨fun h => absurd rfl h, fun h => (nomatch h), rfl⟩
  have hallowed : Run.Along (sessions S).next (sessionDiscipline.Allowed (sessions S)) n as := by
    refine henv.mono fun m a ha => ?_
    cases a with
    | start i c => trivial
    | step i => exact fun _ _ _ _ _ => trivial
    | fail i e => trivial
    | env db => exact ha
  have hend := (hstart.exec hkept hallowed hrun).1
  refine ⟨fun i l hi => ?_, fun i l cmd k db hi hages ht husers hsame => ?_,
    fun i l cmd w k db a hi hw => ?_⟩
  · have hi' := hend.2 i
    rw [hi] at hi'
    exact hi'
  · exact hend.view hkept hi hages ht ⟨husers, hsame⟩
  · exact hend.guar hkept hi trivial hw

/-- A write on behalf of one user, made by others, does. -/
theorem keepsTenants_of_mine {n : Sessions ι} (ht : Tenants n.db) {v : ℤ} {w : Write}
    (hw : Mine v n.db w) {db : DB} {a : Answer} (h : w.apply n.db = .ok (db, a)) :
    KeepsTenants n (.env db) :=
  let hwithin := (Write.effect h).within ht hw
  ⟨hwithin.ages, hwithin.tenants⟩

end Runs

/-! ## Two users -/

/-- A message of the user, in the user's mailbox. -/
def mailOf (u : ℤ) (path : String) : MessageData where
  userId := u
  folderId := u
  uid := 1
  content := { rawFilePath := lit path, fromAddress := lit "carol" }

/-- Alice and bob, each with a mailbox and a message in it. -/
def tenantDB : DB where
  users := (Table.empty.insert ⟨lit "alice", lit "$1"⟩).insert ⟨lit "bob", lit "$2"⟩
  folders := (Table.empty.insert
      { userId := 1, parentId := none, name := lit "INBOX", nextUid := 2 }).insert
    { userId := 2, parentId := none, name := lit "INBOX", nextUid := 2 }
  messages := (Table.empty.insert (mailOf 1 "1.eml")).insert (mailOf 2 "2.eml")
  recipients := .empty

theorem tenants_tenantDB : Tenants tenantDB := by
  have hmessages : ∀ r ∈ tenantDB.messages.rows,
      (tenantDB.folders.get? r.2.folderId).map (·.userId) = some r.2.userId := by decide
  have hfolders : ∀ r ∈ tenantDB.folders.rows, r.2.parentId = none := by decide
  refine ⟨fun i m hm => ?_, fun i f p hf hp => ?_, fun i r hr => ?_⟩
  · exact Option.map_eq_some_iff.mp (hmessages (i, m) (Table.mem_rows_iff.mpr hm))
  · have := hfolders (i, f) (Table.mem_rows_iff.mpr hf)
    exact absurd (this.symm.trans hp) (by simp)
  · exact absurd (Table.mem_rows_iff.mpr hr) (by simp [tenantDB, Table.empty])

/-- The passwords of the two, and no files. -/
def twoUsers : Services where
  verify hash password := (hash = lit "$1" && password = lit "one") ||
    (hash = lit "$2" && password = lit "two")
  getBodyContent _ := []
  getParsedEmail _ := .ok none
  getBodySection _ _ := .ok []
  buildBodystructure _ := .ok []
  buildEnvelope _ _ _ := .ok []
  dateToIMAPInternal date := .ok date
  splitHeadersAndBody raw := (raw, [])
  getHeaderValue _ _ := []

/-- Two sessions that have not logged in. -/
def twoSessions : Sessions Bool := ⟨tenantDB, fun _ => .idle {}⟩

def command (type : ImapCommandType) (args : List String) : ImapCommand :=
  { tag := lit "a", type, args := args.map lit }

/-- Bob's mail, as others deliver it. -/
def bobsMail : Write :=
  .assignUID { userId := 2, folderId := 2, uid := 0, content := (mailOf 2 "3.eml").content } 2

/-- The database after it. -/
def deliveredDB : DB :=
  match bobsMail.apply tenantDB with
  | .ok (db, _) => db
  | .error _ => tenantDB

/-- Alice logs in, and selects her mailbox while bob gets mail. -/
def aliceSelects : List (Act Bool ImapCommand Bytes DB) :=
  [.start true (command .login ["alice", "one"]), .step true, .step true, .step true,
    .start true (command .select ["INBOX"]), .step true, .env deliveredDB, .step true, .step true,
    .step true, .step true]

theorem keepsTenants_aliceSelects :
    Run.Along (sessions twoUsers).next KeepsTenants twoSessions aliceSelects := by
  have hdeliver : ∀ n : Sessions Bool, n.db = tenantDB → KeepsTenants n (.env deliveredDB) := by
    rintro ⟨_, client⟩ rfl
    have howns : OwnsFolder 2 tenantDB 2 := ⟨by decide, fun f hf => ?_⟩
    · exact keepsTenants_of_mine (w := bobsMail) (a := ⟨3, 2⟩) tenants_tenantDB ⟨rfl, howns⟩ rfl
    · obtain rfl := Option.some.inj hf
      rfl
  exact .cons trivial rfl <| .cons trivial rfl <| .cons trivial rfl <| .cons trivial rfl <|
    .cons trivial rfl <| .cons trivial rfl <| .cons (hdeliver _ rfl) rfl <| .cons trivial rfl <|
    .cons trivial rfl <| .cons trivial rfl <| .cons trivial rfl trivial

theorem isolated_aliceSelects :
    ∃ n' l, Run.exec (sessions twoUsers).next twoSessions aliceSelects = some n' ∧
      n'.client true = .idle l ∧ l.dispatcher.state = .selected ∧ Isolated n' := by
  refine ⟨_, _, rfl, rfl, rfl, ?_⟩
  exact isolated_of_exec twoUsers (fun _ => rfl) tenants_tenantDB keepsTenants_aliceSelects rfl

end MailStack.Imap
