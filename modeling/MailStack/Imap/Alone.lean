import MailStack.Imap.Copy

/-!
# Imap/Alone — handlers served with no one else about

`serve h d db` is what becomes of the database and the session, and the outcome, when nothing else
touches the database while the handler runs.  What `STORE`, `EXPUNGE` and a delivery do to the
messages is a relation between the database before and after, which each of their writes keeps.
-/

open Bytes

namespace MailStack.Imap

open Store Prog

/-- The handler's run alone: the database after it, the outcome and the session. -/
def serve {α : Type} (h : HandlerM α) (d : Dispatcher) (db : DB) :
    DB × Except Stop α × Dispatcher :=
  Prog.run store (h.run.run d) db

/-! ## What the steps do to the messages -/

/-- The rows of one message, before and after: only its flags may differ. -/
def SameMail (m m' : MessageData) : Prop :=
  m'.userId = m.userId ∧ m'.folderId = m.folderId ∧ m'.content = m.content

/-- What becomes of the messages when the mailbox `inbox` is worked on: rows keep what they hold,
ids are not reused, and nothing disappears from another folder. -/
structure Evolves (inbox : ℤ) (db db' : DB) : Prop where
  users : db'.users = db.users
  folder : ∀ i, (db.folders.get? i).isSome = true → (db'.folders.get? i).isSome = true
  name : ∀ u name, (FolderDAL.findByName db' u name).bind (·.id) =
    (FolderDAL.findByName db u name).bind (·.id)
  seq : db.messages.seq ≤ db'.messages.seq
  same : ∀ i m', db'.messages.get? i = some m' → i ≤ db.messages.seq →
    ∃ m, db.messages.get? i = some m ∧ SameMail m m'
  stays : ∀ i m, db.messages.get? i = some m → m.folderId ≠ inbox →
    (db'.messages.get? i).isSome = true
  refs : ForeignKeys db → ForeignKeys db'

theorem SameMail.refl (m : MessageData) : SameMail m m := ⟨rfl, rfl, rfl⟩

theorem SameMail.trans {m m' m'' : MessageData} (h : SameMail m m') (h' : SameMail m' m'') :
    SameMail m m'' :=
  ⟨h'.1.trans h.1, h'.2.1.trans h.2.1, h'.2.2.trans h.2.2⟩

namespace Evolves

variable {inbox : ℤ} {db db' db'' : DB}

theorem refl (db : DB) : Evolves inbox db db where
  users := rfl
  folder _ h := h
  name _ _ := rfl
  seq := Int.le_refl _
  same _ m h _ := ⟨m, h, .refl m⟩
  stays _ _ h _ := by simp [h]
  refs h := h

/-- A message of another folder is there afterwards, and holds what it held. -/
theorem kept (h : Evolves inbox db db') {i : ℤ} {m : MessageData}
    (hm : db.messages.get? i = some m) (hf : m.folderId ≠ inbox) :
    ∃ m', db'.messages.get? i = some m' ∧ SameMail m m' := by
  obtain ⟨m', hm'⟩ := Option.isSome_iff_exists.mp (h.stays i m hm hf)
  obtain ⟨m₀, hm₀, hsame⟩ := h.same i m' hm' (Table.le_seq_of_get? hm)
  obtain rfl : m = m₀ := Option.some.inj (hm.symm.trans hm₀)
  exact ⟨m', hm', hsame⟩

theorem trans (h : Evolves inbox db db') (h' : Evolves inbox db' db'') : Evolves inbox db db'' where
  users := h'.users.trans h.users
  folder i hi := h'.folder i (h.folder i hi)
  name u name := (h'.name u name).trans (h.name u name)
  seq := Int.le_trans h.seq h'.seq
  same i m'' hm'' hi := by
    obtain ⟨m', hm', hsame'⟩ := h'.same i m'' hm'' (Int.le_trans hi h.seq)
    obtain ⟨m, hm, hsame⟩ := h.same i m' hm' hi
    exact ⟨m, hm, hsame.trans hsame'⟩
  stays i m hm hf := by
    obtain ⟨m', hm', hsame⟩ := h.kept hm hf
    exact h'.stays i m' hm' (by rw [hsame.2.1]; exact hf)
  refs hfk := h'.refs (h.refs hfk)

/-- Rows are changed in place. -/
theorem of_map {g : ℤ → MessageData → MessageData} (hg : ∀ i m, SameMail m (g i m)) :
    Evolves inbox db { db with messages := db.messages.map g } where
  users := rfl
  folder _ h := h
  name _ _ := rfl
  seq := Int.le_refl _
  same i m' hm' _ := by
    rw [Table.get?_map] at hm'
    obtain ⟨m, hm, rfl⟩ := Option.map_eq_some_iff.mp hm'
    exact ⟨m, hm, hg i m⟩
  stays i m hm _ := by simp [hm]
  refs hfk i m' hm' := by
    rw [Table.get?_map] at hm'
    obtain ⟨m, hm, rfl⟩ := Option.map_eq_some_iff.mp hm'
    rw [(hg i m).1, (hg i m).2.1]
    exact hfk i m hm

theorem setFlags (db : DB) (id : ℤ) (g : Flags → Flags) :
    Evolves inbox db (MessageDAL.setFlags db id g) := by
  refine of_map fun i m => ?_
  split_ifs
  · exact ⟨rfl, rfl, rfl⟩
  · exact .refl m

/-- A row of the mailbox goes. -/
theorem hardDelete {id : ℤ} (h : ∀ m, db.messages.get? id = some m → m.folderId = inbox) :
    Evolves inbox db (MessageDAL.hardDelete db id) where
  users := rfl
  folder _ hi := hi
  name _ _ := rfl
  seq := Int.le_refl _
  same i m' hm' _ := by
    rw [MessageDAL.hardDelete_messages, Table.get?_erase] at hm'
    split_ifs at hm'
    exact ⟨m', hm', .refl m'⟩
  stays i m hm hf := by
    rw [MessageDAL.hardDelete_messages, Table.get?_erase, if_neg, hm]
    · rfl
    · rintro rfl
      exact hf (h m hm)
  refs hfk i m hm := by
    rw [MessageDAL.hardDelete_messages, Table.get?_erase] at hm
    split_ifs at hm
    exact hfk i m hm

/-- A row is added, and its folder's `next_uid` moves on. -/
theorem insert {m : MessageData} {recipients : Table RecipientData} {id : ℤ}
    (hu : (db.users.get? m.userId).isSome = true)
    (hf : (db.folders.get? m.folderId).isSome = true) :
    Evolves inbox db (FolderDAL.incrementNextUID
      { db with messages := db.messages.insert m, recipients := recipients } id) := by
  have hfolder : ∀ i, (db.folders.get? i).isSome = true →
      ((db.folders.modify id fun d => { d with nextUid := d.nextUid + 1 }).get? i).isSome = true :=
    fun i hi => (Table.isSome_get?_modify _ _).trans hi
  refine ⟨rfl, hfolder, findByName_incrementNextUID _ id, Int.le_of_lt (Int.lt_succ _),
    fun i m' hm' hi => ?_, fun i m₀ hm₀ _ => ?_, fun hfk i m' hm' => ?_⟩
  · rw [FolderDAL.incrementNextUID_messages, Table.get?_insert, if_neg (by omega)] at hm'
    exact ⟨m', hm', .refl m'⟩
  · have := Table.le_seq_of_get? hm₀
    rw [FolderDAL.incrementNextUID_messages, Table.get?_insert, if_neg (by omega), hm₀]
    rfl
  · rw [FolderDAL.incrementNextUID_messages, Table.get?_insert] at hm'
    split_ifs at hm'
    · obtain rfl := Option.some.inj hm'
      exact ⟨hu, hfolder _ hf⟩
    · exact ⟨(hfk i m' hm').1, hfolder _ (hfk i m' hm').2⟩

end Evolves

/-- What an `EXPUNGE` of the mailbox does: rows flagged deleted go, and nothing else happens. -/
structure Expunges (inbox : ℤ) (db db' : DB) : Prop extends Evolves inbox db db' where
  row : ∀ i m, db'.messages.get? i = some m → db.messages.get? i = some m
  gone : ∀ i m, db.messages.get? i = some m → db'.messages.get? i = none →
    m.folderId = inbox ∧ m.flags.deleted = true

/-- What a delivery does: rows are added, not flagged deleted. -/
structure Delivers (inbox : ℤ) (db db' : DB) : Prop extends Evolves inbox db db' where
  row : ∀ i m, db'.messages.get? i = some m → db.messages.get? i = some m ∨ m.flags.deleted = false

/-- The contract of a program that runs alone and keeps `R` with each of its writes. -/
def solo (R : DB → DB → Prop) : Contract DB Write where
  inv _ := True
  rely := R
  view := Eq
  allow _ _ := True
  faulty := False
  guar _ _ := True

instance (inbox : ℤ) : (solo (Evolves inbox)).Lawful where
  refl := .refl
  trans := .trans

instance (inbox : ℤ) : (solo (Expunges inbox)).Lawful where
  refl db := ⟨.refl db, fun _ _ h => h, fun i m h hnone => absurd (h.symm.trans hnone) (by simp)⟩
  trans {db₁ db₂ db₃} h h' := by
    refine ⟨h.toEvolves.trans h'.toEvolves, fun i m hm => h.row i m (h'.row i m hm), ?_⟩
    intro i m hm hnone
    cases hm₂ : db₂.messages.get? i with
    | none => exact h.gone i m hm hm₂
    | some m₂ =>
      obtain rfl : m = m₂ := Option.some.inj (hm.symm.trans (h.row i m₂ hm₂))
      exact h'.gone i m hm₂ hnone

instance (inbox : ℤ) : (solo (Delivers inbox)).Lawful where
  refl db := ⟨.refl db, fun _ _ h => .inl h⟩
  trans h h' := by
    refine ⟨h.toEvolves.trans h'.toEvolves, fun i m hm => ?_⟩
    rcases h'.row i m hm with hm | hm
    · exact h.row i m hm
    · exact .inr hm

/-! ## The operations, alone -/

section Operations

variable {R : DB → DB → Prop} {s : DB} {α : Type}

/-- A read of a session that is alone. -/
theorem solo_query [(solo R).Lawful] {f : DB → α} {post : α → DB → Prop}
    (h : ∀ s₁, R s s₁ → post (f s₁) s₁) : Spec store (solo R) s (query f) post :=
  Spec.query (fun _ _ _ _ hv => congrArg f hv) fun s₁ h₁ => h s₁ h₁.1

theorem solo_read [(solo R).Lawful] (f : DB → α) :
    Spec store (solo R) s (query f) fun _ _ => True := solo_query fun _ _ => trivial

/-- A locked write that keeps the relation. -/
theorem solo_locked [(solo R).Lawful] {w : Write}
    (h : ∀ s₁ s₂ a, R s s₁ → Effect s₁ w s₂ a → R s₁ s₂) :
    Spec store (solo R) s (locked w) fun _ _ => True :=
  Spec.locked (fun _ _ _ _ => trivial) fun s₁ s₂ a h₁ _ hw =>
    ⟨trivial, ⟨h s₁ s₂ a h₁.1 (Write.effect hw), trivial⟩, trivial⟩

theorem solo_pure {a : α} : Spec store (solo R) s (pure a) fun _ _ => True :=
  Spec.pure fun _ _ => trivial

/-- Setting flags in the inbox. -/
theorem solo_setFlags (inbox id : ℤ) (flags : List Bytes) :
    Spec store (solo (Evolves inbox)) s (MessageRepository.setFlags id flags) fun _ _ => True := by
  refine (solo_read _).bind fun o s₁ h₁ _ => ?_
  cases o with
  | none => exact solo_pure
  | some msg =>
    dsimp only
    split
    · exact solo_pure
    · refine (solo_locked fun s₂ s₃ a _ he => ?_).bind fun _ _ _ _ => solo_pure
      cases he with
      | updateFlags => exact .setFlags s₂ _ _

/-- Deleting a message of the inbox that is marked deleted. -/
theorem solo_hardDelete {inbox id : ℤ}
    (h : ∀ m, s.messages.get? id = some m → m.folderId = inbox ∧ m.flags.deleted = true) :
    Spec store (solo (Expunges inbox)) s (MessageRepository.hardDelete id) fun _ _ => True := by
  refine (solo_read _).bind fun o s₁ h₁ _ => ?_
  cases o with
  | none => exact solo_pure
  | some msg =>
    refine (solo_locked fun s₂ s₃ a h₂ he => ?_).bind fun _ _ _ _ => solo_pure
    cases he with
    | hardDelete =>
      have hrow : ∀ m, s₂.messages.get? id = some m → m.folderId = inbox ∧ m.flags.deleted = true :=
        fun m hm => h m (h₁.1.row id m (h₂.row id m hm))
      refine ⟨.hardDelete fun m hm => (hrow m hm).1, fun i m hm => ?_, fun i m hm hnone => ?_⟩
      · rw [MessageDAL.hardDelete_messages, Table.get?_erase] at hm
        split_ifs at hm
        exact hm
      · rw [MessageDAL.hardDelete_messages, Table.get?_erase] at hnone
        split_ifs at hnone with hi
        · subst hi
          exact hrow m hm
        · exact absurd (hm.symm.trans hnone) (by simp)

/-- A message not marked deleted gets a uid elsewhere. -/
theorem solo_assignUID (inbox : ℤ) {m : Message} (folderId : ℤ) (hm : m.flags.deleted = false) :
    Spec store (solo (Delivers inbox)) s (MessageRepository.assignUID m folderId)
      fun _ _ => True := by
  refine ((solo_locked fun s₁ s₂ a _ he => ?_).bind fun _ _ _ _ => solo_pure).bind
    fun _ _ _ _ => solo_pure
  cases he with
  | assignUID hf hfree huser =>
    refine ⟨.insert huser (Option.isSome_iff_exists.mpr ⟨_, hf⟩), fun i m' hm' => ?_⟩
    rw [FolderDAL.incrementNextUID_messages, Table.get?_insert] at hm'
    split_ifs at hm'
    · obtain rfl := Option.some.inj hm'
      exact .inr hm
    · exact .inl hm'

/-- A message not marked deleted is added elsewhere. -/
theorem solo_deliver (inbox : ℤ) {m : Message} (folderId : ℤ) (hm : m.flags.deleted = false) :
    Spec store (solo (Delivers inbox)) s (MessageRepository.deliver m folderId)
      fun _ _ => True := by
  unfold MessageRepository.deliver
  split_ifs
  · refine (solo_read _).bind fun o s₁ _ _ => ?_
    cases o with
    | none => exact solo_pure
    | some f => exact solo_assignUID inbox _ hm
  · exact solo_assignUID inbox _ hm

end Operations

/-! ## `STORE` and `EXPUNGE`, alone -/

/-- The session has the mailbox selected. -/
def InMailbox (u inbox : ℤ) (d : Dispatcher) (_ : DB) : Prop :=
  d.state = .selected ∧ d.authenticatedUserID = some u ∧ d.currentMailbox.id = some inbox

section Handlers

variable {R : DB → DB → Prop} {u inbox : ℤ} {s : DB} {α : Type}

/-- Another error text leaves the session in its mailbox. -/
theorem quiet_inMailbox : Quiet (solo R) (InMailbox u inbox) (InMailbox u inbox) :=
  ⟨fun _ _ _ _ h => h, fun _ _ _ h => h, fun _ _ h => h⟩

/-- The triple of a handler that runs alone in the mailbox, and stays there. -/
abbrev Alone (R : DB → DB → Prop) (u inbox : ℤ) (s : DB) (h : HandlerM α)
    (post : α → DB → Prop) : Prop :=
  Handles (solo R) (InMailbox u inbox) (InMailbox u inbox) s h (InMailbox u inbox) post

/-- A handler that runs alone stays in its mailbox and does what it keeps doing. -/
theorem Alone.serve [(solo R).Lawful] {h : HandlerM α} {post : α → DB → Prop}
    (ht : Alone R u inbox s h post) {d : Dispatcher} (hd : InMailbox u inbox d s) :
    R s (serve h d s).1 ∧ InMailbox u inbox (serve h d s).2.2 (serve h d s).1 := by
  obtain ⟨hl, hends⟩ := ht.alone (fun _ _ => trivial) trivial hd
  refine ⟨hl.1, ?_⟩
  unfold Ends at hends
  split at hends
  · exact hends.1
  · exact hends

/-- The mailbox that a handler reads is the inbox. -/
theorem alone_mailboxID (s : DB) :
    Handles (solo R) (InMailbox u inbox) (Selected (InMailbox u inbox)) s mailboxID
      (Selected (InMailbox u inbox)) fun id _ => id = inbox :=
  Handles.member fun _ _ hd => ⟨inbox, hd.1.2.2, rfl⟩

/-- Of the messages a `STORE` goes through it is enough that they have ids. -/
theorem lists_evolves : Lists (solo (Evolves inbox)) (InMailbox u inbox) (fun id _ => id = inbox)
    fun m _ => ∃ id, m.id = some id where
  quiet := quiet_inMailbox
  mailboxID := alone_mailboxID
  findByFolder _ _ _ := solo_query fun _ _ _ hm =>
    let ⟨_, id, hid, _⟩ := of_mem_select hm
    ⟨id, hid⟩
  findByUID _ _ _ _ := solo_query fun _ _ _ hm =>
    let ⟨⟨_, id, hid, _⟩, _⟩ := of_findByUID_eq_some hm
    ⟨id, hid⟩
  stable _ _ _ _ h := h
  id _ _ h := h

/-- `STORE` changes flags of the inbox only. -/
theorem alone_handleStore (cmd : ImapCommand) :
    Alone (Evolves inbox) u inbox s (handleStore cmd) fun _ _ => True :=
  lists_evolves.handleStore (fun _ _ id flags _ _ => solo_setFlags inbox id flags)
    (fun _ _ _ _ _ => solo_read _) cmd

/-- So does `UID STORE`. -/
theorem alone_handleUidStore (cmd : ImapCommand) :
    Alone (Evolves inbox) u inbox s (handleUidStore cmd) fun _ _ => True :=
  lists_evolves.handleUidStore (fun _ _ id flags _ _ => solo_setFlags inbox id flags)
    (fun _ _ _ _ _ => solo_read _) cmd

/-- The message was in the mailbox, and its row, as long as it is there, is as it was read. -/
def AsRead (inbox : ℤ) (m : Message) (db : DB) : Prop :=
  m.folderId = inbox ∧ ∃ id, m.id = some id ∧
    ∀ d, db.messages.get? id = some d → d = m.toMessageData

/-- A row of the inbox is as it was read. -/
theorem asRead_of_isRow {db : DB} {m : Message} (hm : IsRow db m) (hf : m.folderId = inbox) :
    AsRead inbox m db := by
  obtain ⟨id, hid, hrow⟩ := hm
  exact ⟨hf, id, hid, fun d hd => Option.some.inj (hd.symm.trans hrow)⟩

/-- Pages of the inbox are lists of such rows. -/
theorem lists_expunges : Lists (solo (Expunges inbox)) (InMailbox u inbox) (fun id _ => id = inbox)
    (AsRead inbox) where
  quiet := quiet_inMailbox
  mailboxID := alone_mailboxID
  findByFolder _ _ hid := solo_query fun _ _ _ hm =>
    let ⟨hfolder, hrow⟩ := of_mem_select hm
    asRead_of_isRow hrow ((of_decide_eq_true hfolder).trans hid)
  findByUID _ _ _ hid := solo_query fun _ _ _ hm =>
    let ⟨⟨hfolder, hrow⟩, _⟩ := of_findByUID_eq_some hm
    asRead_of_isRow hrow (hfolder.trans hid)
  stable m _ _ h hm := by
    obtain ⟨hf, id, hid, hrow⟩ := hm
    exact ⟨hf, id, hid, fun d hd => hrow d (h.1.row id d hd)⟩
  id _ _ h := by
    obtain ⟨-, id, hid, -⟩ := h
    exact ⟨id, hid⟩

/-- `EXPUNGE` deletes what is marked deleted, and nothing else. -/
theorem alone_handleExpunge (cmd : ImapCommand) :
    Alone (Expunges inbox) u inbox s (handleExpunge cmd) fun _ _ => True := by
  refine lists_expunges.handleExpunge (fun s₁ m id hm hdeleted hid => ?_) cmd
  refine solo_hardDelete fun d hd => ?_
  obtain ⟨hf, id', hid', hrow⟩ := hm
  obtain rfl : id = id' := Option.some.inj (hid.symm.trans hid')
  rw [hrow d hd]
  exact ⟨hf, hdeleted⟩

end Handlers

end MailStack.Imap
