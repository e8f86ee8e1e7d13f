import MailStack.Imap.Isolation
import MailStack.Imap.Walk
import MailStack.Store.Accounts

/-!
# Imap/Inbox — the INBOX of a user, and the rename that takes it away

`registerUser` gives a user a folder INBOX without a parent.  `DELETE` refuses a folder of that
name, and a delete that cascades does not reach a folder without a parent; no other command but
`RENAME` touches the name of a row.  `RENAME` has no such guard.

`inbox_of_exec`: as long as no step writes another name over an INBOX of the user, the user has one,
whatever the sessions of any users do and however their steps interleave.
-/

open Bytes

namespace MailStack.Imap

open Store Prog

/-- The folder `i` is an INBOX of the user, at the top. -/
def HasInbox (u i : ℤ) (db : DB) : Prop :=
  ∃ f, db.folders.get? i = some f ∧ f.userId = u ∧ f.parentId = none ∧ f.name = lit "INBOX"

/-- The write does not give an INBOX of the user another name. -/
def Spares (u : ℤ) (db : DB) : Write → Prop
  | .updateFolder f => ∀ id g, f.id = some id → db.folders.get? id = some g → g.userId = u →
      g.name = lit "INBOX" → cstr f.name = lit "INBOX"
  | _ => True

/-! ## The writes -/

section Writes

variable {u i : ℤ} {db db' : DB}

theorem HasInbox.findByName (h : HasInbox u i db) :
    (FolderDAL.findByName db u (lit "INBOX")).isSome := by
  obtain ⟨f, hf, huser, -, hname⟩ := h
  rw [FolderDAL.findByName, Option.isSome_map, List.find?_isSome]
  refine ⟨(i, f), Table.mem_rows_iff.mpr hf, decide_eq_true ⟨huser, hname.trans ?_⟩⟩
  decide

/-- The inbox is a matter of the folders. -/
theorem HasInbox.of_eq (h : HasInbox u i db) (heq : db'.folders = db.folders) :
    HasInbox u i db' := by
  rw [HasInbox, heq]
  exact h

/-- A change of a row that leaves its user, its parent and its name. -/
theorem HasInbox.of_modify (h : HasInbox u i db) {id : ℤ} {g : FolderData → FolderData}
    (heq : db'.folders = db.folders.modify id g) (hg : ∀ f, (g f).userId = f.userId ∧
      (g f).parentId = f.parentId ∧ (g f).name = f.name) : HasInbox u i db' := by
  obtain ⟨f, hf, huser, hparent, hname⟩ := h
  rw [HasInbox, heq, Table.get?_modify, hf]
  split_ifs
  · exact ⟨g f, rfl, (hg f).1.trans huser, (hg f).2.1.trans hparent, (hg f).2.2.trans hname⟩
  · exact ⟨f, rfl, huser, hparent, hname⟩

/-- What lies below other folders has a parent. -/
theorem mem_of_mem_cascade {t : Table FolderData} {f : FolderData} (hf : t.get? i = some f)
    (hparent : f.parentId = none) :
    ∀ {n : ℕ} {ids : List ℤ}, i ∈ FolderDAL.cascade t n ids → i ∈ ids
  | 0, _, h => h
  | n + 1, ids, h => by
      rw [FolderDAL.cascade] at h
      rcases List.mem_append.mp (mem_of_mem_cascade hf hparent h) with h | h
      · exact h
      · obtain ⟨⟨j, g⟩, hr, rfl⟩ := List.mem_map.mp h
        obtain ⟨hr, hbelow⟩ := List.mem_filter.mp hr
        obtain ⟨-, p, hp, -⟩ := of_decide_eq_true hbelow
        obtain rfl : g = f := Option.some.inj ((Table.mem_rows_iff.mp hr).symm.trans hf)
        exact absurd (hparent.symm.trans hp) (by simp)

/-- A delete of another folder does not reach the INBOX. -/
theorem HasInbox.hardDelete (h : HasInbox u i db) {id : ℤ} (hne : id ≠ i) :
    HasInbox u i (FolderDAL.hardDelete db id) := by
  obtain ⟨f, hf, huser, hparent, hname⟩ := h
  have hstays : i ∉ FolderDAL.gone db id := by
    intro hgone
    exact hne (List.mem_singleton.mp (mem_of_mem_cascade hf hparent hgone)).symm
  refine ⟨f, ?_, huser, hparent, hname⟩
  rw [FolderDAL.hardDelete_folders, Table.get?_filter, hf, Option.filter_some,
    if_pos (decide_eq_true hstays)]

/-- A write that keeps folder rows keeps the inbox. -/
theorem HasInbox.effect (h : HasInbox u i db) {w : Write} {a : Answer} (he : Effect db w db' a)
    (hw : KeepsRows w) : HasInbox u i db' := by
  cases he with
  | assignUID | moveToFolder | moveNothing | copy | incrementNextUID =>
    exact h.of_modify (FolderDAL.incrementNextUID_folders _ _) fun f => ⟨rfl, rfl, rfl⟩
  | setSubscribed =>
    exact h.of_modify (FolderDAL.setSubscribed_folders _ _ _) fun f => ⟨rfl, rfl, rfl⟩
  | updateSeen | updateDeleted | updateFlags | hardDelete | clearRecentByFolder => exact h.of_eq rfl
  | @expunge ids => exact h.of_eq (foldl_hardDelete_folders ids db)
  | insertFolder =>
    obtain ⟨f, hf, hrest⟩ := h
    refine ⟨f, ?_, hrest⟩
    have := Table.le_seq_of_get? hf
    rw [Table.get?_insert, if_neg (by omega)]
    exact hf
  | updateFolder | deleteFolder => exact hw.elim

end Writes

/-! ## The handlers that leave the folder rows -/

section Handlers

variable {α : Type}

/-- The handler writes back no folder row and deletes none. -/
abbrev KeepsFolders (h : HandlerM α) : Prop := Emits KeepsRows h

/-- What keeps folder rows is composed of parts that do. -/
theorem composes_keepsFolders : Composes KeepsRows fun _ h => KeepsFolders h := composes_emits

theorem keepsFolders_arg (cmd : ImapCommand) (i : ℕ) : KeepsFolders (arg cmd i) := by
  unfold arg
  split
  · exact Emits.pure
  · exact Emits.throw

/-! ## `DELETE` and `RENAME` -/

section Inbox

variable {u i : ℤ} {s : DB}

/-- The contract of a command, next to the INBOX `i` of the user. -/
def inboxContract (u i : ℤ) : Contract DB Write where
  inv := HasInbox u i
  rely _ _ := True
  view := Eq
  allow := Spares u
  faulty := True
  guar _ _ := True

instance : (inboxContract u i).Lawful := ⟨fun _ => trivial, fun _ _ => trivial⟩

/-- The handler keeps the INBOX, whatever its session. -/
abbrev KeepsInbox (u i : ℤ) (s : DB) (h : HandlerM α) (post : α → DB → Prop) : Prop :=
  Handles (inboxContract u i) (fun _ _ => True) (fun _ _ => True) s h (fun _ _ => True) post

/-- What keeps folder rows keeps the inbox. -/
theorem KeepsFolders.keepsInbox {h : HandlerM α} (hh : KeepsFolders h) :
    KeepsInbox u i s h fun _ _ => True := by
  refine Emits.triple hh (fun _ _ hv => hv) fun s w s' a hinv _ hw happly => ?_
  exact ⟨trivial, hinv.effect (Write.effect happly) hw, trivial⟩

theorem keepsInbox_pure {a : α} : KeepsInbox u i s (pure a) fun _ _ => True :=
  Triple.pure fun _ _ => trivial

theorem keepsInbox_value (o : Option α) : KeepsInbox u i s (value o) fun a _ => o = some a := by
  cases o with
  | some a => exact Triple.pure fun _ _ => rfl
  | none => exact fun _ _ _ _ => trivial

/-- A read keeps the inbox. -/
theorem spec_read (f : DB → α) :
    Spec store (inboxContract u i) s (query f) fun _ _ => True :=
  Spec.query (fun _ _ _ _ hv => congrArg f hv) fun _ _ => trivial

/-- What is known of a folder that was found by name: the INBOX has its name. -/
theorem spec_findFolderByName (v : ℤ) (name : Bytes) :
    Spec store (inboxContract u i) s (MessageRepository.findFolderByName v name)
      fun o _ => ∀ f, o = some f → f.id = some i → f.name = lit "INBOX" := by
  refine Spec.query (fun _ _ _ _ hv => by rw [hv]) fun s₁ h₁ f hf hid => ?_
  obtain ⟨g, hg, -, -, hname⟩ := h₁.2
  obtain ⟨⟨j, d⟩, hr, rfl⟩ := Option.map_eq_some_iff.mp hf
  obtain rfl : j = i := Option.some.inj hid
  obtain rfl : d = g := Option.some.inj
    ((Table.mem_rows_iff.mp (List.mem_of_find?_eq_some hr)).symm.trans hg)
  exact hname

/-- The folder a command names, and what is done with it. -/
theorem keepsInbox_named {cmd : ImapCommand} {j : ℕ} {k : Option Folder → HandlerM α}
    (hnone : ∀ s₁, KeepsInbox u i s₁ (k none) fun _ _ => True)
    (hsome : ∀ s₁ f, (f.id = some i → f.name = lit "INBOX") →
      KeepsInbox u i s₁ (k (some f)) fun _ _ => True) :
    KeepsInbox u i s
      (do k (← ask (MessageRepository.findFolderByName (← userID) (← arg cmd j))))
      fun _ _ => True := by
  refine (composes_keepsFolders.userID.keepsInbox).bind fun v s₁ _ _ => ?_
  refine ((keepsFolders_arg cmd j).keepsInbox).bind fun name s₂ _ _ => ?_
  refine (Handles.ask quiet_true (spec_findFolderByName v name)).bind fun o s₃ _ ho => ?_
  cases o with
  | none => exact hnone s₃
  | some f => exact hsome s₃ f (ho f rfl)

/-- A locked write that keeps the INBOX. -/
theorem spec_unchecked {w : Write}
    (h : ∀ s₁ s₂ a, HasInbox u i s₁ → Spares u s₁ w → Effect s₁ w s₂ a → HasInbox u i s₂) :
    Spec store (inboxContract u i) s (unchecked w) fun _ _ => True := by
  have hlocked : Spec store (inboxContract u i) s (locked w) fun _ _ => True :=
    Spec.locked (fun _ _ _ _ => trivial) fun s₁ s₂ a h₁ hspares hw =>
      ⟨trivial, ⟨trivial, h s₁ s₂ a h₁.2 hspares (Write.effect hw)⟩, trivial⟩
  exact hlocked.bind fun _ _ _ _ => Spec.pure fun _ _ => trivial

/-- Deleting another folder keeps the inbox. -/
theorem spec_deleteFolder {id : ℤ} (hne : id ≠ i) :
    Spec store (inboxContract u i) s (MessageRepository.deleteFolder id) fun _ _ => True := by
  refine (spec_read _).bind fun o s₁ _ _ => ?_
  cases o with
  | none => exact Spec.pure fun _ _ => trivial
  | some f =>
    refine spec_unchecked fun s₂ s₃ a h₂ _ he => ?_
    cases he with
    | deleteFolder => exact h₂.hardDelete hne

/-- The row that is written back keeps its user and its parent. -/
theorem spec_renameFolder (id : ℤ) (newName : Bytes) :
    Spec store (inboxContract u i) s (MessageRepository.renameFolder id newName)
      fun _ _ => True := by
  have hfind : ∀ s₀, Spec store (inboxContract u i) s₀ (query (FolderDAL.findByID · id))
      fun o _ => ∀ f, o = some f → f.id = some id ∧
        (id = i → f.userId = u ∧ f.parentId = none) := by
    refine fun s₀ => Spec.query (fun _ _ _ _ hv => by rw [hv]) fun s₁ h₁ f hf => ?_
    obtain ⟨g, hg, huser, hparent, -⟩ := h₁.2
    obtain ⟨d, hd, rfl⟩ := Option.map_eq_some_iff.mp hf
    refine ⟨rfl, ?_⟩
    rintro rfl
    obtain rfl : d = g := Option.some.inj (hd.symm.trans hg)
    exact ⟨huser, hparent⟩
  unfold MessageRepository.renameFolder
  split_ifs
  · exact Spec.pure fun _ _ => trivial
  · refine (hfind s).bind fun o s₁ _ ho => ?_
    cases o with
    | none => exact Spec.pure fun _ _ => trivial
    | some folder =>
      obtain ⟨hid, hrow⟩ := ho folder rfl
      refine (spec_read _).bind fun existing s₂ _ _ => ?_
      split_ifs
      · exact Spec.pure fun _ _ => trivial
      · refine spec_unchecked fun s₃ s₄ a h₃ hspares he => ?_
        obtain ⟨g, hg, huser, hparent, hname⟩ := h₃
        cases he with
        | @updateFolder _ id' hid' _ =>
          obtain rfl : id = id' := Option.some.inj (hid.symm.trans hid')
          rw [HasInbox, Table.get?_modify, hg]
          split_ifs with hi
          · obtain ⟨huser', hparent'⟩ := hrow hi.symm
            refine ⟨_, rfl, huser', hparent', ?_⟩
            exact hspares id g hid (hi ▸ hg) huser hname
          · exact ⟨g, rfl, huser, hparent, hname⟩

/-- A call that keeps it, and what follows. -/
theorem keepsInbox_attempt {β : Type} {p : DbM (Result β)} {k : Option β → HandlerM α}
    (hp : Spec store (inboxContract u i) s p fun _ _ => True)
    (hk : ∀ o, KeepsFolders (k o)) : KeepsInbox u i s (attempt p >>= k) fun _ _ => True :=
  (Handles.attempt quiet_true (fun _ _ _ _ h => h) hp).bind fun o _ _ _ => (hk o).keepsInbox

/-- `DELETE` does not delete a folder of that name. -/
theorem keepsInbox_handleDelete (cmd : ImapCommand) :
    KeepsInbox u i s (handleDelete cmd) fun _ _ => True := by
  refine Triple.ite keepsInbox_pure (keepsInbox_named (fun _ => keepsInbox_pure) fun s₁ f hf => ?_)
  dsimp only
  split_ifs with hname
  · exact keepsInbox_pure
  · refine (keepsInbox_value f.id).bind fun id s₂ _ hid => ?_
    have hne : id ≠ i := by
      rintro rfl
      exact hname (hf hid)
    refine keepsInbox_attempt (spec_deleteFolder hne) fun o => ?_
    cases o with
    | some a => exact Emits.pure
    | none => exact composes_keepsFolders.failure _ _ _

/-- `RENAME` writes back what it read, but for the name. -/
theorem keepsInbox_handleRename (cmd : ImapCommand) :
    KeepsInbox u i s (handleRename cmd) fun _ _ => True := by
  refine Triple.ite keepsInbox_pure (keepsInbox_named (fun _ => keepsInbox_pure) fun s₁ f _ => ?_)
  refine (composes_keepsFolders.value f.id).keepsInbox.bind fun id s₂ _ _ => ?_
  refine (keepsFolders_arg cmd 1).keepsInbox.bind fun newName s₃ _ _ => ?_
  refine keepsInbox_attempt (spec_renameFolder id newName) fun o => ?_
  cases o with
  | some a => exact Emits.pure
  | none => exact composes_keepsFolders.failure _ _ _

/-- **Every command keeps the INBOX**, but for the rename that `Spares` rules out. -/
theorem keepsInbox_handleCommand (S : Services) (cmd : ImapCommand) :
    KeepsInbox u i s (handleCommand S cmd) fun _ _ => True := by
  have hP := composes_keepsFolders
  have hmodify : ∀ g : Dispatcher → Dispatcher, KeepsFolders (modify g) := fun _ => Emits.modify
  refine Triple.ite keepsInbox_pure (Triple.get_bind fun d => Triple.ite ?_ ?_)
  · exact keepsInbox_pure.conseq (fun _ _ _ _ => trivial) (fun _ _ _ _ => trivial)
      fun _ _ _ _ => trivial
  · refine Triple.pre (A := fun _ _ => True) ?_ fun _ _ _ _ => trivial
    refine Handles.catching ?_ fun _ _ _ => keepsInbox_pure
    obtain ⟨tag, type, args⟩ := cmd
    cases type with
    | login => exact (hP.handleLogin hmodify S _).keepsInbox
    | logout | capability | noop | unknown => exact keepsInbox_pure
    | startTLS => exact Triple.ite keepsInbox_pure keepsInbox_pure
    | select => exact (hP.handleSelect hmodify (fun _ => trivial) _).keepsInbox
    | list | lsub => exact (hP.handleListing _ _ _ _).keepsInbox
    | status => exact (hP.handleStatus _).keepsInbox
    | fetch => exact (hP.handleFetch S (keepsFolders_arg _ 2)).keepsInbox
    | store => exact (hP.handleStore Standing.keepsRows _).keepsInbox
    | create => exact (hP.handleCreate Standing.keepsRows _).keepsInbox
    | delete => exact keepsInbox_handleDelete _
    | rename => exact keepsInbox_handleRename _
    | copy => exact (hP.handleCopy hP.attempt_copy _).keepsInbox
    | expunge => exact (hP.handleExpunge Standing.keepsRows _).keepsInbox
    | uidFetch => exact (hP.handleUidFetch S (keepsFolders_arg _ 2)).keepsInbox
    | uidStore => exact (hP.handleUidStore Standing.keepsRows _).keepsInbox
    | uidCopy => exact (hP.handleUidCopy hP.attempt_copy _).keepsInbox
    | subscribe | unsubscribe => exact (hP.handleSubscription Standing.keepsRows _ _ _).keepsInbox
    | close => exact (hP.handleClose hmodify (fun _ => trivial) _).keepsInbox
    | check => exact (hP.whenSelected Emits.pure).keepsInbox

end Inbox

end Handlers

/-! ## Whole runs -/

/-- The discipline of the sessions, next to the INBOX `i` of the user. -/
def inboxDiscipline (u i : ℤ) : Discipline DB Write Session ImapCommand (Option Bytes) where
  inv := HasInbox u i
  rely _ _ := True
  allow := Spares u
  faulty := True
  view _ := Eq
  guar _ _ _ := True
  loc _ _ := True
  post _ _ _ _ := True

/-- Every session keeps the discipline of the inbox. -/
theorem kept_inboxDiscipline (S : Services) (u i : ℤ) :
    (inboxDiscipline u i).Kept (sessions S) where
  refl _ := trivial
  trans _ _ _ _ _ := trivial
  loc_stable _ _ _ _ _ _ := trivial
  post_stable _ _ _ _ _ _ _ _ := trivial
  start l cmd db hinv _ := by
    unfold Discipline.Meets sessions
    dsimp only
    split_ifs
    · exact ⟨trivial, trivial⟩
    · have hcmd := keepsInbox_handleCommand (u := u) (i := i) S cmd l.dispatcher db (.refl hinv)
        trivial
      refine Ok.bind (fun r s₁ _ => ?_) hcmd
      exact ⟨trivial, trivial⟩

section Runs

variable {ι : Type}

/-- The step is one of a session, and does not give an INBOX of the user another name. -/
def SparesInbox (u : ℤ) (n : Sessions ι) : Act ι ImapCommand Bytes DB → Prop
  | .step i => ∀ l cmd w k, n.client i = .busy l cmd (.write w k) → Spares u n.db w
  | .start _ _ | .fail _ _ => True
  | .env _ => False

/-- **A registered user has an INBOX as long as no step renames one** — for any number of sessions
of any users, any commands in any order, any interleaving of their steps and any failures of their
writes. -/
theorem inbox_of_exec [DecidableEq ι] (S : Services) {P : PasswordHash} {user user' : User}
    {password salt : Bytes} {db : DB} {ws : List (DB × DB)} {u : ℤ} {n n' : Sessions ι}
    {as : List (Act ι ImapCommand Bytes DB)}
    (hregister : Runs mailStore (UserRepository.registerUser P user password salt) db ws
      (.ok user') n.db)
    (hu : user'.id = some u) (hidle : ∀ i, ∃ l, n.client i = .idle l)
    (hspares : Run.Along (sessions S).next (SparesInbox u) n as)
    (hrun : Run.exec (sessions S).next n as = some n') :
    (FolderDAL.findByName n'.db u (lit "INBOX")).isSome := by
  obtain ⟨-, -, rfl, -, -, -, -, hfolders⟩ := of_registerUser hregister
  obtain rfl := Option.some.inj hu
  obtain ⟨i, hi⟩ := hfolders (lit "INBOX") List.mem_cons_self
  have hstart : (inboxDiscipline (db.users.seq + 1) i).Holds (sessions S) n := by
    refine ⟨⟨_, hi, rfl, rfl, rfl⟩, fun j => ?_⟩
    obtain ⟨l, hl⟩ := hidle j
    rw [hl]
    trivial
  have hallowed : Run.Along (sessions S).next
      ((inboxDiscipline (db.users.seq + 1) i).Allowed (sessions S)) n as := by
    refine hspares.mono fun m a ha => ?_
    cases a with
    | start => trivial
    | step => exact ha
    | fail => trivial
    | env => exact ha.elim
  exact (hstart.exec (kept_inboxDiscipline S _ i) hallowed hrun).1.1.findByName

end Runs

/-! ## A rename -/

/-- The passwords are their own hashes, and there are no files. -/
def plainServices : Services := { twoUsers with verify := plainHash.verify }

/-- The session of a user just registered. -/
def registered : Sessions Unit :=
  ⟨(run mailStore (UserRepository.registerUser plainHash alice (lit "secret") []) .empty).1,
    fun _ => .idle {}⟩

/-- Alice logs in, renames her Sent folder and fails to delete her INBOX. -/
def renamesSent : List (Act Unit ImapCommand Bytes DB) :=
  [.start () (command .login ["alice", "secret"]), .step (), .step (), .step (),
    .start () (command .rename ["Sent", "Post"]), .step (), .step (), .step (), .step (), .step (),
    .start () (command .delete ["INBOX"]), .step (), .step ()]

/-- The row it writes over is that of the Sent folder. -/
theorem sparesInbox_renamesSent :
    Run.Along (sessions plainServices).next (SparesInbox 1) registered renamesSent := by
  have hread : ∀ {n : Sessions Unit} {l cmd k}, n.client () = .busy l cmd (.read k) →
      SparesInbox 1 n (.step ()) := fun h _ _ _ _ h' => nomatch h.symm.trans h'
  have hret : ∀ {n : Sessions Unit} {l cmd a}, n.client () = .busy l cmd (.ret a) →
      SparesInbox 1 n (.step ()) := fun h _ _ _ _ h' => nomatch h.symm.trans h'
  have hwrite : ∀ {n : Sessions Unit} {l cmd w k}, n.client () = .busy l cmd (.write w k) →
      Spares 1 n.db w → SparesInbox 1 n (.step ()) := by
    intro n l cmd w k h hw l' cmd' w' k' h'
    obtain ⟨-, -, hp⟩ := Client.busy.inj (h.symm.trans h')
    obtain ⟨rfl, -⟩ := Prog.write.inj hp
    exact hw
  refine .cons trivial rfl <| .cons (hread rfl) rfl <| .cons (hread rfl) rfl <|
    .cons (hret rfl) rfl <| .cons trivial rfl <| .cons (hread rfl) rfl <| .cons (hread rfl) rfl <|
    .cons (hread rfl) rfl <| .cons (hwrite rfl ?_) rfl <| .cons (hret rfl) rfl <|
    .cons trivial rfl <| .cons (hread rfl) rfl <| .cons (hret rfl) rfl trivial
  rintro id g hid hg - hname
  obtain rfl := Option.some.inj hid
  obtain rfl := Option.some.inj hg
  exact absurd hname (by decide)

theorem inbox_renamesSent : ∃ n',
    Run.exec (sessions plainServices).next registered renamesSent = some n' ∧
      (FolderDAL.findByName n'.db 1 (lit "INBOX")).isSome := by
  obtain ⟨ws, hregister⟩ := registers_alice
  refine ⟨_, rfl, ?_⟩
  exact inbox_of_exec plainServices (n := registered) hregister rfl (fun _ => ⟨_, rfl⟩)
    sparesInbox_renamesSent rfl

/-- **A user who renames INBOX has none.** -/
theorem inbox_lost :
    ∃ (S : Services) (P : PasswordHash) (user user' : User) (password salt : Bytes) (db : DB)
      (ws : List (DB × DB)) (u : ℤ) (n n' : Sessions Unit)
      (as : List (Act Unit ImapCommand Bytes DB)),
      Runs mailStore (UserRepository.registerUser P user password salt) db ws (.ok user') n.db ∧
      user'.id = some u ∧ (∀ i, ∃ l, n.client i = .idle l) ∧
      Run.exec (sessions S).next n as = some n' ∧
      FolderDAL.findByName n'.db u (lit "INBOX") = none := by
  obtain ⟨ws, hregister⟩ := registers_alice
  exact ⟨plainServices, plainHash, alice, _, _, [], .empty, ws, 1, registered, _,
    [.start () (command .login ["alice", "secret"]), .step (), .step (), .step (),
      .start () (command .rename ["INBOX", "Archive"]), .step (), .step (), .step (), .step ()],
    hregister, rfl, fun _ => ⟨_, rfl⟩, rfl, rfl⟩

end MailStack.Imap
