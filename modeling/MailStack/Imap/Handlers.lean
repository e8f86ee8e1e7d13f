import MailStack.Imap.Tenant

/-!
# Imap/Handlers — every handler keeps the session in order

The handlers share four members of the dispatcher: the state, the user, the selected mailbox and its
id.  A second `LOGIN` leaves the mailbox in place, `DELETE` leaves it selected, `CLOSE` resets it
only when the expunge succeeded.  What holds all the same is `SessionOk`: where there is a state
other than *not authenticated* there is a user, and the id of a selected mailbox was handed out for
a folder of that user.

A handler that is called in such a session calls the repository with ids of the user only, and
leaves the session so, whether it returns or an exception leaves it.
-/

open Bytes

namespace MailStack.Imap

open Store Prog

/-! ## Sessions -/

/-- What holds of a session between two commands: there is a user once it is authenticated, the id
of the selected mailbox is one that was handed out for a folder of the user, and `value()` was never
called on an empty optional. -/
structure SessionOk (d : Dispatcher) (db : DB) : Prop where
  authenticated : d.state ≠ .nonAuthenticated → d.authenticatedUserID.isSome = true
  selected : d.state = .selected → ∃ u id, d.authenticatedUserID = some u ∧
    d.currentMailbox.id = some id ∧ OwnsFolder u db id
  access : d.badAccess = false

/-- The session is in order, and is the user's. -/
def Held (u : ℤ) (d : Dispatcher) (db : DB) : Prop :=
  SessionOk d db ∧ d.authenticatedUserID = some u

/-- What a session relies on survives everything that others do. -/
theorem SessionOk.ages {d : Dispatcher} {db db' : DB} (h : SessionOk d db) (ha : Ages db db') :
    SessionOk d db' := by
  refine ⟨h.authenticated, fun hsel => ?_, h.access⟩
  obtain ⟨u, id, hu, hid, hown⟩ := h.selected hsel
  exact ⟨u, id, hu, hid, hown.ages ha⟩

section Handlers

variable {u : ℤ} {s : DB} {α β : Type}

/-- A part of a handler keeps the assertion `A`; the session is in order when an exception leaves
it. -/
abbrev Keeps (u : ℤ) (A : Dispatcher → DB → Prop) (s : DB) (h : HandlerM α) : Prop :=
  Handles (tenantContract (some u)) (Held u) A s h A fun _ _ => True

/-- A change of the error text alone leaves `Held` as it was. -/
theorem quiet_held : Quiet (tenantContract (some u)) (Held u) (Held u) where
  stable _ _ _ hl h := ⟨h.1.ages hl.1, h.2⟩
  lastError _ _ _ h := ⟨⟨h.1.authenticated, h.1.selected, h.1.access⟩, h.2⟩
  throws _ _ h := h

variable {A : Dispatcher → DB → Prop}

theorem keeps_pure {a : α} : Keeps u A s (pure a) :=
  Triple.pure fun _ _ => trivial

/-- A call that only touches what is the user's own keeps the session's invariant. -/
theorem keeps_attempt {p : DbM (Result α)} (hp : For u s p fun _ _ => True) :
    Keeps u (Held u) s (attempt p) :=
  (Handles.attempt quiet_held (fun _ _ _ _ h => h) hp).post_mono fun _ _ _ _ => trivial

/-- The user a handler reads is the one who logged in. -/
theorem held_userID :
    Handles (tenantContract (some u)) (Held u) (Held u) s userID (Held u) fun x _ => x = u :=
  Handles.member fun _ _ h => ⟨u, h.2, rfl⟩

/-- The selected mailbox is a folder of the user. -/
theorem held_mailboxID :
    Handles (tenantContract (some u)) (Held u) (Selected (Held u)) s mailboxID (Selected (Held u))
      fun id s' => OwnsFolder u s' id := by
  refine Handles.member fun d s' h => ?_
  obtain ⟨u', id, hu', hid, hown⟩ := h.1.1.selected h.2
  obtain rfl : u = u' := Option.some.inj (h.1.2.symm.trans hu')
  exact ⟨id, hid, hown⟩

/-- The messages of the selected mailbox are the user's. -/
theorem lists_held : Lists (tenantContract (some u)) (Held u) (fun id s => OwnsFolder u s id)
    fun m s => OwnMessage u s m where
  quiet := quiet_held
  mailboxID _ := held_mailboxID
  findByFolder _ _ := for_findByFolder
  findByUID _ _ uid hid := for_findByUID hid uid
  stable _ _ _ h hm := hm.ages h.1
  id _ _ hm := by
    obtain ⟨id, hid, -⟩ := hm.id
    exact ⟨id, hid⟩

/-- The folder of the user that a command names, and what is done with it. -/
theorem keeps_named {cmd : ImapCommand} {i : ℕ} {k : Option Folder → HandlerM α}
    {B : Dispatcher → DB → Prop} {post : α → DB → Prop}
    (hA : Quiet (tenantContract (some u)) (Held u) A) (huser : ∀ d s', A d s' → Held u d s')
    (hnone : ∀ s₁, Handles (tenantContract (some u)) (Held u) A s₁ (k none) B post)
    (hsome : ∀ s₁ f, OwnFolder u s₁ f →
      Handles (tenantContract (some u)) (Held u) A s₁ (k (some f)) B post) :
    Handles (tenantContract (some u)) (Held u) A s
      (do k (← ask (MessageRepository.findFolderByName (← userID) (← arg cmd i)))) B post := by
  have hid : Handles (tenantContract (some u)) (Held u) A s userID A fun x _ => x = u :=
    Handles.member fun d s' h => ⟨u, (huser d s' h).2, rfl⟩
  refine hid.bind fun x s₁ _ hx => ?_
  subst hx
  refine (Handles.arg hA cmd i).bind fun name s₂ _ _ => ?_
  refine (Handles.ask hA (for_findFolderByName name)).bind fun o s₃ _ ho => ?_
  cases o with
  | none => exact hnone s₃
  | some f => exact hsome s₃ f (ho f rfl)

/-- A change of the session that leaves the state, the user and the mailbox's id as they are. -/
theorem keeps_modify {g : Dispatcher → Dispatcher} (hstate : ∀ d, (g d).state = d.state)
    (huser : ∀ d, (g d).authenticatedUserID = d.authenticatedUserID)
    (hid : ∀ d, (g d).currentMailbox.id = d.currentMailbox.id)
    (haccess : ∀ d, (g d).badAccess = d.badAccess) :
    Keeps u (Held u) s (modify g) := by
  refine Triple.modify fun d s' _ h => ⟨⟨?_, ?_, ?_⟩, ?_⟩
  · rw [hstate, huser]
    exact h.1.authenticated
  · rw [hstate, huser, hid]
    exact h.1.selected
  · exact (haccess d).trans h.1.access
  · exact (huser d).trans h.2

/-! ### Mailboxes -/

theorem keeps_handleSelect (cmd : ImapCommand) : Keeps u (Held u) s (handleSelect cmd) := by
  refine Triple.ite keeps_pure ?_
  refine keeps_named quiet_held (fun _ _ h => h) (fun _ => keeps_pure) fun s₁ f hf => ?_
  obtain ⟨id, hid, hown⟩ := hf.id
  refine Triple.bind (keeps_modify (fun _ => rfl) (fun _ => rfl) (fun _ => rfl) fun _ => rfl)
    fun _ s₂ h₂ _ => ?_
  refine (Handles.value hid).bind fun x s₃ h₃ hx => ?_
  subst hx
  have h₁₃ := h₂.trans h₃
  refine (Handles.ask quiet_held (for_findByFolder (hown.ages h₁₃.1))).bind
    fun messages s₄ h₄ _ => ?_
  refine Triple.bind (keeps_modify (fun _ => rfl) (fun _ => rfl) (fun _ => rfl) fun _ => rfl)
    fun _ s₅ h₅ _ => ?_
  refine (Handles.value hid).bind fun x s₆ h₆ hx => ?_
  subst hx
  have h₁₆ := ((h₁₃.trans h₄).trans h₅).trans h₆
  refine (keeps_attempt (for_clearRecentByFolder (hown.ages h₁₆.1))).bind
    fun _ s₇ h₇ _ => ?_
  have hselect : Handles (tenantContract (some u)) (Held u) (Held u) s₇
      (modify fun d => { d with currentMailbox := { d.currentMailbox with id := f.id } })
      (fun d s' => Held u d s' ∧ d.currentMailbox.id = f.id) fun _ _ => True := by
    refine Triple.modify fun d s' h h' => ⟨⟨⟨h'.1.authenticated, ?_, h'.1.access⟩, h'.2⟩, rfl⟩
    exact fun _ => ⟨u, _, h'.2, hid, hown.ages ((h₁₆.trans h₇).trans h).1⟩
  refine hselect.bind fun _ s₈ h₈ _ => ?_
  refine (Handles.value hid).bind fun x s₉ h₉ hx => ?_
  have h₁₉ := ((h₁₆.trans h₇).trans h₈).trans h₉
  refine Triple.bind (B := Held u) (Triple.modify fun d s' h h' => ?_) fun _ _ _ _ => keeps_pure
  refine ⟨⟨fun _ => Option.isSome_of_eq_some h'.1.2, fun _ => ?_, h'.1.1.access⟩, h'.1.2⟩
  exact ⟨u, _, h'.1.2, h'.2.trans hid, hown.ages (h₁₉.trans h).1⟩

theorem keeps_handleListing (command done : String) (keep : Folder → Bool) (cmd : ImapCommand) :
    Keeps u (Held u) s (handleListing command done keep cmd) := by
  refine Triple.ite keeps_pure ?_
  refine (Handles.arg quiet_held cmd 1).bind fun pattern s₁ _ _ => Triple.ite keeps_pure ?_
  refine held_userID.bind fun x s₂ _ hx => ?_
  subst hx
  exact (Handles.ask quiet_held for_findFoldersByUser).bind fun _ _ _ _ => keeps_pure

/-- The counts of `STATUS` are read through a folder that the user owns. -/
theorem keeps_statusItem {folder : Folder} {id : ℤ} (hid : folder.id = some id)
    (messages : List Message) (req : Bytes) :
    Keeps u (Held u) s (statusItem folder messages req) :=
  Triple.ite keeps_pure <| Triple.ite keeps_pure <| Triple.ite keeps_pure <|
    Triple.ite ((Handles.value hid).bind fun _ _ _ _ => keeps_pure) <|
    Triple.ite keeps_pure keeps_pure

theorem keeps_handleStatus (cmd : ImapCommand) : Keeps u (Held u) s (handleStatus cmd) := by
  refine Triple.ite keeps_pure ?_
  refine keeps_named quiet_held (fun _ _ h => h) (fun _ => keeps_pure) fun s₁ f hf => ?_
  obtain ⟨id, hid, hown⟩ := hf.id
  refine (Handles.value hid).bind fun x s₂ h₂ hx => ?_
  subst hx
  refine (Handles.ask quiet_held (for_findByFolder (hown.ages h₂.1))).bind
    fun messages s₃ _ _ => ?_
  refine (Handles.arg quiet_held cmd 1).bind fun items s₄ _ _ => ?_
  refine Triple.bind (Triple.mapM fun req _ s₅ _ => keeps_statusItem hid messages req)
    fun found s₅ _ _ => Triple.ite keeps_pure ?_
  exact (Handles.arg quiet_held cmd 0).bind fun _ _ _ _ => keeps_pure

theorem keeps_failure (reply : Bytes → Bytes → Bytes) (cmd : ImapCommand) (text : String) :
    Keeps u (Held u) s (failure reply cmd text) := by
  refine Triple.get_bind fun d => ?_
  rintro d' s' - ⟨-, h⟩
  exact ⟨h, trivial⟩

/-- A write that is answered by `OK`, or by a failure's text. -/
theorem keeps_write {p : DbM (Result α)} (hp : For u s p fun _ _ => True)
    {k : Option α → HandlerM Bytes} (hsome : ∀ a s₁, Keeps u (Held u) s₁ (k (some a)))
    (hnone : ∀ s₁, Keeps u (Held u) s₁ (k none)) :
    Keeps u (Held u) s (attempt p >>= k) := by
  refine (keeps_attempt hp).bind fun o s₁ _ _ => ?_
  cases o with
  | some a => exact hsome a s₁
  | none => exact hnone s₁

/-- The folder that `CREATE` puts in is the user's. -/
theorem keeps_createReply {f : Folder} (hf : Mine u s (.insertFolder f)) (cmd : ImapCommand) :
    Keeps u (Held u) s (createReply cmd f) :=
  keeps_write (for_createFolder hf) (fun _ _ => keeps_pure) fun _ => keeps_failure _ _ _

/-- The parent of a new folder is a folder of the user. -/
theorem held_findParent :
    ∀ {names : List Bytes} {prev : Option Folder} {s : DB}, (∀ f, prev = some f → OwnFolder u s f) →
      Handles (tenantContract (some u)) (Held u) (Held u) s (findParent prev names) (Held u)
        fun r s' => ∀ f, r = .ok (some f) → OwnFolder u s' f
  | [], prev, s, hprev => by
      refine Triple.pure fun s' hs f hf => ?_
      exact (hprev f (Except.ok.inj hf)).ages hs.1
  | name :: names, prev, s, hprev => by
      refine held_userID.bind fun x s₁ _ hx => ?_
      rw [hx]
      refine (Handles.ask quiet_held (for_findFolderByName name)).bind fun o s₂ _ ho => ?_
      cases o with
      | none => exact Triple.pure fun _ _ _ hf => nomatch hf
      | some f =>
        dsimp only
        split_ifs
        · exact held_findParent fun f' hf' => ho f' hf'
        · exact Triple.pure fun _ _ _ hf => nomatch hf

theorem keeps_handleCreate (cmd : ImapCommand) : Keeps u (Held u) s (handleCreate cmd) := by
  refine Triple.ite keeps_pure ?_
  refine (Handles.arg quiet_held cmd 0).bind fun name s₁ _ _ => ?_
  refine Triple.ite keeps_pure (Triple.ite ?_ ?_)
  · refine (held_findParent fun f hf => absurd hf (by simp)).bind fun r s₂ h₂ hr => ?_
    match r with
    | .error missing => exact keeps_pure
    | .ok none => exact keeps_pure
    | .ok (some prev) =>
      obtain ⟨id, hid, hown⟩ := (hr prev rfl).id
      dsimp only [Option.bind_some]
      rw [hid]
      refine held_userID.bind fun x s₃ h₃ hx => ?_
      subst hx
      refine keeps_createReply ?_ cmd
      refine ⟨rfl, fun p hp => ?_⟩
      obtain rfl := Option.some.inj hp
      exact hown.ages h₃.1
  · refine held_userID.bind fun x s₂ _ hx => ?_
    subst hx
    refine keeps_createReply ?_ cmd
    exact ⟨rfl, fun p hp => nomatch hp⟩

theorem keeps_handleDelete (cmd : ImapCommand) : Keeps u (Held u) s (handleDelete cmd) := by
  refine Triple.ite keeps_pure ?_
  refine keeps_named quiet_held (fun _ _ h => h) (fun _ => keeps_pure) fun s₁ f hf => ?_
  obtain ⟨id, hid, hown⟩ := hf.id
  refine Triple.ite keeps_pure ((Handles.value hid).bind fun x s₂ h₂ hx => ?_)
  subst hx
  exact keeps_write (for_deleteFolder (hown.ages h₂.1)) (fun _ _ => keeps_pure)
    fun _ => keeps_failure _ _ _

theorem keeps_handleRename (cmd : ImapCommand) : Keeps u (Held u) s (handleRename cmd) := by
  refine Triple.ite keeps_pure ?_
  refine keeps_named quiet_held (fun _ _ h => h) (fun _ => keeps_pure) fun s₁ f hf => ?_
  obtain ⟨id, hid, hown⟩ := hf.id
  refine (Handles.value hid).bind fun x s₂ h₂ hx => ?_
  subst hx
  refine (Handles.arg quiet_held cmd 1).bind fun newName s₃ h₃ _ => ?_
  exact keeps_write (for_renameFolder (hown.ages (h₂.trans h₃).1) newName)
    (fun _ _ => keeps_pure) fun _ => keeps_failure _ _ _

theorem keeps_handleSubscription (subscribed : Bool) (done : String) (cmd : ImapCommand) :
    Keeps u (Held u) s (handleSubscription subscribed done cmd) := by
  refine Triple.ite keeps_pure ?_
  refine keeps_named quiet_held (fun _ _ h => h) (fun _ => keeps_pure) fun s₁ f hf => ?_
  obtain ⟨id, hid, hown⟩ := hf.id
  dsimp only
  rw [hid]
  exact keeps_write (for_setSubscribed hown subscribed) (fun _ _ => keeps_pure)
    fun _ => keeps_failure _ _ _

theorem keeps_handleClose (cmd : ImapCommand) : Keeps u (Held u) s (handleClose cmd) := by
  refine Lists.guarded ?_
  refine held_mailboxID.bind fun id s₁ _ hid => ?_
  refine (lists_held.attempt (for_expunge hid)).bind fun o s₂ _ _ => ?_
  cases o with
  | none => exact Lists.leave keeps_pure
  | some a =>
    refine Triple.bind (B := Held u) (Triple.modify fun d s' _ h => ⟨⟨?_, ?_, ?_⟩, h.1.2⟩)
      fun _ _ _ _ => keeps_pure
    · exact fun _ => Option.isSome_of_eq_some h.1.2
    · exact fun hsel => nomatch hsel
    · exact h.1.1.access

theorem keeps_handleCheck (cmd : ImapCommand) : Keeps u (Held u) s (handleCheck cmd) :=
  Lists.guarded (Lists.leave keeps_pure)

/-! ### Messages -/

/-- A selection from the user's messages holds messages of the user. -/
theorem ownMessage_of_mem_selectMessages {messages : List Message} {ids : List ℤ}
    (h : ∀ m ∈ messages, OwnMessage u s m) {m : Message} (hm : m ∈ selectMessages messages ids) :
    OwnMessage u s m := by
  obtain ⟨n, -, hn⟩ := List.mem_filterMap.mp hm
  split_ifs at hn
  exact h m (List.mem_of_getElem? hn)

/-- The recipients of a message of the user's may be read. -/
theorem keeps_recipients {m : Message} {k : List Recipient → HandlerM α} (hm : OwnMessage u s m)
    (hk : ∀ s₁ recipients, Keeps u (Selected (Held u)) s₁ (k recipients)) :
    Keeps u (Selected (Held u)) s
      (do k (← ask (MessageRepository.findRecipientsByMessage (← value m.id)))) := by
  obtain ⟨id, hid, hown⟩ := hm.id
  refine (Handles.value hid).bind fun x s₁ h₁ hx => ?_
  subst hx
  exact (Handles.ask quiet_held.selected (for_findRecipientsByMessage (hown.ages h₁.1))).bind
    fun recipients s₂ _ _ => hk s₂ recipients

theorem keeps_orThrow (r : Except Exn α) {k : α → HandlerM β}
    (hk : ∀ a s₁, After u s s₁ → Keeps u (Selected (Held u)) s₁ (k a)) :
    Keeps u (Selected (Held u)) s (orThrow r >>= k) :=
  (Handles.orThrow quiet_held.selected r).bind fun a s₁ h₁ _ => hk a s₁ h₁

/-- A section of a message of the user's file may be read. -/
theorem keeps_rfc822Header (S : Services) {msg : Message} (hmsg : OwnMessage u s msg) :
    Keeps u (Selected (Held u)) s (rfc822Header S msg) := by
  refine keeps_orThrow _ fun o s₁ h₁ => ?_
  cases o with
  | some email => exact keeps_pure
  | none =>
    refine (Handles.ask quiet_held.selected (for_findUser _)).bind fun user s₂ h₂ _ => ?_
    exact keeps_recipients (hmsg.ages (h₁.trans h₂).1) fun _ _ => keeps_pure

theorem held_throw (e : Stop) :
    Handles (tenantContract (some u)) (Held u) (Selected (Held u)) s (throw e : HandlerM α)
      (Selected (Held u)) fun _ _ => False :=
  Triple.throw fun _ _ _ h => h.1

theorem keeps_headerFields (S : Services) (cmd : ImapCommand) (item : Bytes) (msg : Message) :
    Keeps u (Selected (Held u)) s (headerFields S cmd item msg) :=
  Triple.ite ((held_throw _).bind fun _ _ _ h => h.elim)
    ((lists_held.arg cmd 2).bind fun _ _ _ _ => keeps_pure)

theorem keeps_bodySection (S : Services) (start item : Bytes) (msg : Message) :
    Keeps u (Selected (Held u)) s (bodySection S start item msg) := by
  unfold bodySection
  split
  · exact Triple.throw fun _ _ _ h => h.1
  · exact keeps_orThrow _ fun _ _ _ => keeps_pure

theorem keeps_fetchItem (S : Services) (cmd : ImapCommand) {msg : Message}
    (hmsg : OwnMessage u s msg) (item : Bytes) :
    Keeps u (Selected (Held u)) s (fetchItem S cmd msg item) := by
  refine Triple.ite keeps_pure <| Triple.ite (keeps_orThrow _ fun _ _ _ => keeps_pure) <|
    Triple.ite keeps_pure <| Triple.ite ?envelope <| Triple.ite keeps_pure <|
    Triple.ite ((keeps_rfc822Header S hmsg).bind fun _ _ _ _ => keeps_pure) <|
    Triple.ite (keeps_orThrow _ fun _ _ _ => keeps_pure) <|
    Triple.ite (keeps_orThrow _ fun _ _ _ => keeps_pure) <|
    Triple.ite (keeps_headerFields S cmd item msg) <|
    Triple.ite (keeps_bodySection S _ item msg) <| Triple.ite (keeps_bodySection S _ item msg) <|
    Triple.ite keeps_pure ((held_throw _).post_mono fun _ _ _ h => h.elim)
  case envelope =>
    refine keeps_orThrow _ fun email s₁ h₁ => ?_
    refine keeps_recipients (hmsg.ages h₁.1) fun s₂ recipients => ?_
    exact keeps_orThrow _ fun _ _ _ => keeps_pure

theorem keeps_fetchData (S : Services) (cmd : ImapCommand) (start : Bytes) (items : List Bytes)
    {msg : Message} (hmsg : OwnMessage u s msg) :
    Keeps u (Selected (Held u)) s (fetchData S cmd start items msg) :=
  Triple.bind (Triple.mapM fun item _ _ h₁ => keeps_fetchItem S cmd (hmsg.ages h₁.1) item)
    fun _ _ _ _ => keeps_pure

theorem keeps_fetchFailure (cmd : ImapCommand) (e : Exn) :
    Keeps u (Held u) s (fetchFailure cmd e) := by
  cases e <;> exact keeps_pure

theorem keeps_handleFetch (S : Services) (cmd : ImapCommand) :
    Keeps u (Held u) s (handleFetch S cmd) := by
  refine Lists.guarded (Triple.ite (Lists.leave keeps_pure) ?_)
  refine Lists.catching ?_ fun e _ => keeps_fetchFailure cmd e
  refine lists_held.messages fun s₁ messages _ hmessages => ?_
  refine (lists_held.arg cmd 0).bind fun set s₂ h₂ _ => ?_
  refine (lists_held.sequenceSet _ _).bind fun ids s₃ h₃ _ => ?_
  refine (lists_held.arg cmd 1).bind fun items s₄ h₄ _ => ?_
  refine Triple.bind (Triple.mapM fun p hp s₅ h₅ => ?_) fun _ _ _ _ => keeps_pure
  have hmsg := ownMessage_of_mem_selectMessages hmessages (List.of_mem_zip hp).1
  have h₁₅ := ((h₂.trans h₃).trans h₄).trans h₅
  exact (keeps_fetchData S cmd _ _ (hmsg.ages h₁₅.1)).bind fun _ _ _ _ => keeps_pure

theorem keeps_handleUidFetch (S : Services) (cmd : ImapCommand) :
    Keeps u (Held u) s (handleUidFetch S cmd) := by
  refine Lists.guarded (Triple.ite (Lists.leave keeps_pure) ?_)
  refine Lists.catching ?_ fun e _ => keeps_fetchFailure cmd e
  refine (lists_held.arg cmd 0).bind fun set s₁ _ _ => ?_
  refine (lists_held.sequenceSet _ _).bind fun uids s₂ _ _ => ?_
  refine lists_held.messages fun s₃ messages _ _ => ?_
  refine (lists_held.arg cmd 1).bind fun items s₄ _ _ => ?_
  refine Triple.bind (Triple.mapM fun uid _ s₅ _ => ?_) fun _ _ _ _ => keeps_pure
  refine lists_held.message (fun _ _ => keeps_pure) fun s₆ msg _ hmsg => ?_
  exact (keeps_fetchData S cmd _ _ hmsg).bind fun _ _ _ _ => keeps_pure

/-- `copy` of a message of the user into a folder of the user, and what follows it. -/
theorem keeps_copy {msg : Message} {folder : Folder} {k : HandlerM α} (hmsg : OwnMessage u s msg)
    (hfolder : OwnFolder u s folder)
    (hk : ∀ s₁, After u s s₁ → Keeps u (Selected (Held u)) s₁ k) :
    Keeps u (Selected (Held u)) s (do
      let _ ← attempt (MessageRepository.copy (← value msg.id) (← value folder.id))
      k) := by
  obtain ⟨id, hid, hown⟩ := hmsg.id
  obtain ⟨folderId, hfid, hfown⟩ := hfolder.id
  refine (Handles.value hid).bind fun x s₁ h₁ hx => ?_
  subst hx
  refine (Handles.value hfid).bind fun y s₂ h₂ hy => ?_
  subst hy
  have h₀₂ := h₁.trans h₂
  exact (lists_held.attempt (for_copy (hown.ages h₀₂.1) (hfown.ages h₀₂.1))).bind
    fun _ s₃ h₃ _ => hk s₃ (h₀₂.trans h₃)

/-- Messages of the user's are copied into a folder of the user's. -/
theorem keeps_copyAll {folder : Folder} :
    ∀ {msgs : List Message} {s : DB}, (∀ m ∈ msgs, OwnMessage u s m) → OwnFolder u s folder →
      Keeps u (Selected (Held u)) s (copyAll folder.id msgs)
  | [], _, _, _ => keeps_pure
  | msg :: msgs, s, hmsgs, hfolder => by
      obtain ⟨hmsg, hmsgs⟩ := List.forall_mem_cons.mp hmsgs
      refine keeps_copy hmsg hfolder fun s₁ h₁ => ?_
      exact keeps_copyAll (fun m hm => (hmsgs m hm).ages h₁.1) (hfolder.ages h₁.1)

/-- So are those that are found by their uid. -/
theorem keeps_copyUids {folder : Folder} :
    ∀ {uids : List ℤ} {s : DB}, OwnFolder u s folder →
      Keeps u (Selected (Held u)) s (copyUids folder.id uids)
  | [], _, _ => keeps_pure
  | uid :: uids, s, hfolder => by
      refine lists_held.message (fun s₁ h₁ => keeps_copyUids (hfolder.ages h₁.1))
        fun s₁ msg h₁ hmsg => ?_
      have hfolder₁ := hfolder.ages h₁.1
      refine keeps_copy hmsg hfolder₁ fun s₂ h₂ => ?_
      exact (keeps_copyUids (hfolder₁.ages h₂.1)).bind fun _ _ _ _ => keeps_pure

theorem keeps_handleCopy (cmd : ImapCommand) : Keeps u (Held u) s (handleCopy cmd) := by
  refine Triple.map (Lists.guarded <| Triple.ite (Lists.leave keeps_pure) ?_)
    fun _ _ _ _ _ => trivial
  refine keeps_named quiet_held.selected (fun _ _ h => h.1)
    (fun _ => Lists.leave keeps_pure) fun s₁ dest hdest => ?_
  refine Lists.catching ?_ fun _ _ => keeps_pure
  refine lists_held.messages fun s₂ messages h₂ hmessages => ?_
  refine (lists_held.arg cmd 0).bind fun set s₃ h₃ _ => ?_
  refine (lists_held.sequenceSet _ _).bind fun ids s₄ h₄ _ => ?_
  refine Triple.bind (keeps_copyAll (fun m hm => ?_) ?_) fun _ _ _ _ => keeps_pure
  · exact (ownMessage_of_mem_selectMessages hmessages hm).ages (h₃.trans h₄).1
  · exact hdest.ages ((h₂.trans h₃).trans h₄).1

theorem keeps_handleUidCopy (cmd : ImapCommand) : Keeps u (Held u) s (handleUidCopy cmd) := by
  refine Triple.map (Lists.guarded <| Triple.ite (Lists.leave keeps_pure) ?_)
    fun _ _ _ _ _ => trivial
  refine keeps_named quiet_held.selected (fun _ _ h => h.1)
    (fun _ => Lists.leave keeps_pure) fun s₁ dest hdest => ?_
  refine Lists.catching ?_ fun _ _ => keeps_pure
  refine (lists_held.arg cmd 0).bind fun set s₂ h₂ _ => ?_
  refine (lists_held.sequenceSet _ _).bind fun uids s₃ h₃ _ => ?_
  exact (keeps_copyUids (hdest.ages (h₂.trans h₃).1)).bind fun _ _ _ _ => keeps_pure

/-- An id of a message of the user. -/
theorem OwnMessage.owns {m : Message} {id : ℤ} (hm : OwnMessage u s m) (hid : m.id = some id) :
    OwnsMessage u s id := by
  obtain ⟨id', hid', hown⟩ := hm.id
  obtain rfl : id = id' := Option.some.inj (hid.symm.trans hid')
  exact hown

theorem keeps_handleStore (cmd : ImapCommand) : Keeps u (Held u) s (handleStore cmd) :=
  lists_held.handleStore (fun _ _ _ flags hm hid => for_setFlags (hm.owns hid) flags)
    (fun _ _ _ hm hid => (for_findByID (hm.owns hid)).mono fun _ _ _ => trivial) cmd

theorem keeps_handleUidStore (cmd : ImapCommand) : Keeps u (Held u) s (handleUidStore cmd) :=
  lists_held.handleUidStore (fun _ _ _ flags hm hid => for_setFlags (hm.owns hid) flags)
    (fun _ _ _ hm hid => (for_findByID (hm.owns hid)).mono fun _ _ _ => trivial) cmd

theorem keeps_handleExpunge (cmd : ImapCommand) : Keeps u (Held u) s (handleExpunge cmd) :=
  lists_held.handleExpunge (fun _ _ _ hm _ hid => for_hardDelete (hm.owns hid)) cmd

end Handlers

end MailStack.Imap
