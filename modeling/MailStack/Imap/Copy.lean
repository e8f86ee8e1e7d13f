import MailStack.Imap.Triple
import MailStack.Machinery.Clients
import MailStack.Store.Listing

/-!
# Imap/Copy — what `COPY` answers `OK` to

`copy` reads the `next_uid` of the destination before it takes the lock.  Another copy into the same
folder that commits in between takes that uid; the insert then fails on the unique index, and the
handlers do not look at `copy`'s result.

`copied_of_exec` is about the runs where no copy finds its uid taken; `copied_lost` is a run where
one does, and is answered `OK` all the same.
-/

open Bytes

namespace MailStack.Imap

open Store Prog

/-! ## Sessions that copy -/

/-- A command of a session that copies. -/
inductive CopyCommand
  | copy (cmd : ImapCommand)
  | uidCopy (cmd : ImapCommand)

namespace CopyCommand

def cmd : CopyCommand → ImapCommand
  | copy cmd | uidCopy cmd => cmd

def handler : CopyCommand → HandlerM (Bytes × List Message)
  | copy cmd => handleCopySelected cmd
  | uidCopy cmd => handleUidCopySelected cmd

/-- The reply that says the copies were made. -/
def completed : CopyCommand → Bytes
  | copy cmd => ImapResponse.ok cmd.tag (lit "Copy completed")
  | uidCopy cmd => ImapResponse.ok cmd.tag (lit "Uid Copy completed")

end CopyCommand

/-- What is observed of a command: the largest message id when it began, its reply and the messages
it selected. -/
structure CopyReport where
  start : ℤ
  reply : Bytes
  selected : List Message

/-- Any number of sessions that copy.  The first query is the observer's; a command that an
exception leaves reports nothing. -/
def copySessions :
    System DB Write Bytes Answer Dispatcher CopyCommand (Option CopyReport) Empty where
  store := store
  prog d c := do
    let start ← query (·.messages.seq)
    let (r, d') ← c.handler.run.run d
    return (d', r.toOption.map fun a => ⟨start, a.1, a.2⟩)
  env := nofun

/-- The row `id` is a copy of `m` in the folder `folderId`. -/
def IsCopy (db : DB) (folderId : ℤ) (m : Message) (id : ℤ) : Prop :=
  ∃ d, db.messages.get? id = some d ∧ d.folderId = folderId ∧ d.userId = m.userId ∧
    d.content = m.content.bound ∧ d.flags = m.flags

/-- Each of the messages has a row of its own in the folder, with an id beyond `start`. -/
def HasCopies (db : DB) (folderId start : ℤ) (msgs : List Message) : Prop :=
  ∃ ids, List.Forall₂ (IsCopy db folderId) msgs ids ∧ ids.Pairwise (· < ·) ∧ ∀ id ∈ ids, start < id

/-- The folder a command of the session names as its destination. -/
def destination (db : DB) (d : Dispatcher) (cmd : ImapCommand) : Option ℤ := do
  let folder ← FolderDAL.findByName db (← d.authenticatedUserID) (← cmd.args[1]?)
  folder.id

/-- **What `OK` promises**: each selected message has a new row in the destination folder. -/
def Copied (d : Dispatcher) (c : CopyCommand) (r : CopyReport) (db : DB) : Prop :=
  r.reply = c.completed → ∃ folderId, destination db d c.cmd = some folderId ∧
    HasCopies db folderId r.start r.selected

/-! ## What others may do -/

/-- The user and the folder of every message exist. -/
def ForeignKeys (db : DB) : Prop :=
  ∀ i m, db.messages.get? i = some m →
    (db.users.get? m.userId).isSome = true ∧ (db.folders.get? m.folderId).isSome = true

/-- What copies do to the database: rows are added to the messages, and `next_uid` moves. -/
structure Grows (db db' : DB) : Prop where
  users : db'.users = db.users
  folder : ∀ i, (db.folders.get? i).isSome = true → (db'.folders.get? i).isSome = true
  name : ∀ u name, (FolderDAL.findByName db' u name).bind (·.id) =
    (FolderDAL.findByName db u name).bind (·.id)
  seq : db.messages.seq ≤ db'.messages.seq
  message : ∀ i m, db.messages.get? i = some m → db'.messages.get? i = some m

/-- A copy finds its uid free. -/
def UidFree (db : DB) : Write → Prop
  | .copy m _ _ => MessageDAL.taken db none m.folderId m.uid = false
  | _ => True

/-- The contract of a copying session. -/
def copyContract : Contract DB Write where
  inv := ForeignKeys
  rely := Grows
  view := Eq
  allow := UidFree
  faulty := False
  guar _ _ := True

instance : copyContract.Lawful where
  refl _ := ⟨rfl, fun _ h => h, fun _ _ => rfl, Int.le_refl _, fun _ _ h => h⟩
  trans h h' := ⟨h'.users.trans h.users, fun i hi => h'.folder i (h.folder i hi),
    fun u name => (h'.name u name).trans (h.name u name), Int.le_trans h.seq h'.seq,
    fun i m hm => h'.message i m (h.message i m hm)⟩

namespace Grows

variable {db db' : DB}

/-- A name goes on naming the same folder. -/
theorem destination_eq (h : Grows db db') (d : Dispatcher) (cmd : ImapCommand) :
    destination db' d cmd = destination db d cmd := by
  simp only [destination, Option.bind_eq_bind]
  exact congrArg _ (funext fun u => congrArg _ (funext fun name => h.name u name))

/-- A copy stays one while the database grows. -/
theorem isCopy (h : Grows db db') {folderId id : ℤ} {m : Message} (hm : IsCopy db folderId m id) :
    IsCopy db' folderId m id := by
  obtain ⟨d, hd, hrest⟩ := hm
  exact ⟨d, h.message id d hd, hrest⟩

/-- So do the copies of a list. -/
theorem hasCopies (h : Grows db db') {folderId start : ℤ} {msgs : List Message}
    (hc : HasCopies db folderId start msgs) : HasCopies db' folderId start msgs := by
  obtain ⟨ids, hall, hrest⟩ := hc
  exact ⟨ids, hall.imp fun _ _ => h.isCopy, hrest⟩

end Grows

/-- **A copy only adds.** -/
theorem grows_copy {db db' : DB} {m : Message} {recipients : List Recipient} {folderId : ℤ}
    {a : Answer} (hfk : ForeignKeys db) (h : Effect db (.copy m recipients folderId) db' a) :
    copyContract.Later db db' ∧ db'.messages.get? (db.messages.seq + 1) = some m.row ∧
      db'.messages.seq = db.messages.seq + 1 := by
  cases h with
  | copy hfree huser hf =>
    have hfolder : ∀ i, (db.folders.get? i).isSome = true →
        ((db.folders.modify folderId fun d => { d with nextUid := d.nextUid + 1 }).get? i).isSome =
          true := fun i hi => (Table.isSome_get?_modify _ _).trans hi
    refine ⟨⟨⟨rfl, hfolder, ?_, ?_, ?_⟩, ?_⟩, ?_, rfl⟩
    · exact findByName_incrementNextUID _ folderId
    · exact Int.le_of_lt (Int.lt_succ _)
    · intro i d hd
      have := Table.le_seq_of_get? hd
      simp only [FolderDAL.incrementNextUID_messages, Table.get?_insert]
      rw [if_neg (by omega)]
      exact hd
    · intro i d hd
      simp only [FolderDAL.incrementNextUID_messages, Table.get?_insert] at hd
      split_ifs at hd
      · obtain rfl := Option.some.inj hd
        exact ⟨huser, hfolder _ hf⟩
      · exact ⟨(hfk i d hd).1, hfolder _ (hfk i d hd).2⟩
    · simp

/-- Recipients of a message that is there go in. -/
theorem insertRecipients_isOk {messageId : ℤ} :
    ∀ (recipients : List Recipient) (db : DB), (db.messages.get? messageId).isSome = true →
      ∃ db', insertRecipients messageId recipients db = .ok db'
  | [], db, _ => ⟨db, rfl⟩
  | r :: rs, db, h => by
      rw [insertRecipients, RecipientDAL.insert, if_pos h]
      exact insertRecipients_isOk rs _ h

/-- **A copy whose uid is free succeeds.** -/
theorem apply_copy {db : DB} {m : Message}
    (hfree : MessageDAL.taken db none m.folderId m.uid = false)
    (huser : (db.users.get? m.userId).isSome = true)
    (hf : (db.folders.get? m.folderId).isSome = true) (recipients : List Recipient) (folderId : ℤ) :
    ∃ x, Write.apply (.copy m recipients folderId) db = .ok x := by
  have hnew : ((db.messages.insert m.row).get? (db.messages.seq + 1)).isSome = true := by simp
  obtain ⟨db', hdb'⟩ := insertRecipients_isOk recipients
    { db with messages := db.messages.insert m.row } hnew
  refine ⟨(FolderDAL.incrementNextUID db' folderId, ⟨db.messages.seq + 1, m.uid⟩), ?_⟩
  simp [Write.apply, MessageDAL.insert, hfree, huser, hf, hdb']

/-! ## The copies of a command -/

/-- The message is a row of the database, with its id. -/
def IsRow (db : DB) (m : Message) : Prop :=
  ∃ id, m.id = some id ∧ db.messages.get? id = some m.toMessageData

/-- A row stays a row. -/
theorem IsRow.later {db db' : DB} (h : copyContract.Later db db') {m : Message} (hm : IsRow db m) :
    IsRow db' m := by
  obtain ⟨id, hid, hrow⟩ := hm
  exact ⟨id, hid, h.1.message id _ hrow⟩

/-- What is selected is a row that satisfies the condition. -/
theorem of_mem_select {db : DB} {p : MessageData → Bool} {limit offset : ℕ} {m : Message}
    (h : m ∈ MessageDAL.select db p limit offset) : p m.toMessageData = true ∧ IsRow db m := by
  have hmem := List.mem_of_mem_drop (List.mem_of_mem_take h)
  rw [List.mem_insertionSort] at hmem
  obtain ⟨r, hr, rfl⟩ := List.mem_map.mp hmem
  obtain ⟨hrow, hp⟩ := List.mem_filter.mp hr
  exact ⟨hp, r.1, rfl, Table.mem_rows_iff.mp hrow⟩

section Operations

variable {s : DB} {α : Type}

/-- A read is judged in the state it is made in. -/
theorem copy_query {f : DB → α} {post : α → DB → Prop}
    (h : ∀ s₁, copyContract.Later s s₁ → post (f s₁) s₁) :
    Spec store copyContract s (query f) post :=
  Spec.query (fun _ _ _ _ hv => congrArg f hv) h

/-- The locked write of a copy, from a store where the message's user and the folder exist. With
its uid free and no fault it cannot fail. -/
theorem checked_copy_spec {m : Message} (huser : (s.users.get? m.userId).isSome = true)
    (hf : (s.folders.get? m.folderId).isSome = true) (recipients : List Recipient) (folderId : ℤ) :
    Spec store copyContract s (checked (.copy m recipients folderId)) fun _ s' =>
      ∃ new, s.messages.seq < new ∧ new ≤ s'.messages.seq ∧ IsCopy s' m.folderId m new := by
  have hwrite : Spec store copyContract s (locked (.copy m recipients folderId)) fun _ s' =>
      ∃ new, s.messages.seq < new ∧ new ≤ s'.messages.seq ∧ IsCopy s' m.folderId m new := by
    refine Spec.locked (fun s₁ e h₁ he => ?_) fun s₁ s₂ a h₁ ha hw => ?_
    · obtain ⟨hfree, herr⟩ := he.resolve_left fun h => h
      obtain ⟨x, hx⟩ := apply_copy hfree (by rw [h₁.1.users]; exact huser) (h₁.1.folder _ hf)
        recipients folderId
      have : Except.error e = Except.ok x := herr.symm.trans hx
      exact absurd this (by simp)
    · obtain ⟨hl, hrow, hseq⟩ := grows_copy h₁.2 (Write.effect hw)
      refine ⟨trivial, hl, s₁.messages.seq + 1, ?_, by rw [hseq], m.row, hrow, rfl, rfl, rfl, rfl⟩
      have := h₁.1.seq
      omega
  refine hwrite.bind fun r s₁ h₁ hr => Spec.pure fun s₂ h₂ => ?_
  obtain ⟨new, hlt, hle, hcopy⟩ := hr
  exact ⟨new, hlt, Int.le_trans hle h₂.1.seq, h₂.1.isCopy hcopy⟩

/-- **`copy` of a message that is there, into a folder that is there, makes the copy.** -/
theorem copy_spec {m : Message} {id folderId : ℤ} (hid : m.id = some id)
    (hm : s.messages.get? id = some m.toMessageData)
    (hf : (s.folders.get? folderId).isSome = true) :
    Spec store copyContract s (MessageRepository.copy id folderId) fun _ s' =>
      ∃ new, s.messages.seq < new ∧ new ≤ s'.messages.seq ∧ IsCopy s' folderId m new := by
  have hmsg : Spec store copyContract s (MessageRepository.findByID id) fun o _ => o = some m := by
    refine copy_query fun s₁ h₁ => ?_
    rw [MessageDAL.findByID, h₁.1.message id _ hm, Option.map_some, MessageDAL.rowToMessage, ← hid]
  refine hmsg.bind fun o s₁ h₁ ho => ?_
  subst ho
  have hfolder : Spec store copyContract s₁ (query (FolderDAL.findByID · folderId))
      fun o _ => o.isSome = true := by
    refine copy_query fun s₂ h₂ => ?_
    rw [FolderDAL.findByID, Option.isSome_map]
    exact (h₁.trans h₂).1.folder _ hf
  refine hfolder.bind fun o s₂ h₂ ho => ?_
  obtain ⟨folder, rfl⟩ := Option.isSome_iff_exists.mp ho
  have hrec : Spec store copyContract s₂ (MessageRepository.findRecipientsByMessage id)
      fun _ _ => True := copy_query fun _ _ => trivial
  refine hrec.bind fun recipients s₃ h₃ _ => ?_
  have h₀₃ := (h₁.trans h₂).trans h₃
  have huser : (s₃.users.get? m.userId).isSome = true :=
    (h₃.2 id _ (h₀₃.1.message id _ hm)).1
  refine (checked_copy_spec (m := { m with id := none, folderId, uid := folder.nextUid }) huser
    (h₀₃.1.folder _ hf) recipients folderId).bind fun r s₄ h₄ hr => Spec.pure fun s₅ h₅ => ?_
  obtain ⟨new, hlt, hle, d, hd, hrest⟩ := hr
  have hseq := h₀₃.1.seq
  exact ⟨new, by omega, Int.le_trans hle h₅.1.seq, d, h₅.1.message new d hd, hrest⟩

end Operations

theorem HasCopies.nil (db : DB) (folderId start : ℤ) : HasCopies db folderId start [] :=
  ⟨[], .nil, .nil, by simp⟩

/-- Copies made after a later uid are made after an earlier one. -/
theorem HasCopies.weaken {db : DB} {folderId start start' : ℤ} {msgs : List Message}
    (h : HasCopies db folderId start' msgs) (hle : start ≤ start') :
    HasCopies db folderId start msgs := by
  obtain ⟨ids, hall, hsorted, hbeyond⟩ := h
  exact ⟨ids, hall, hsorted, fun id hid => Int.lt_of_le_of_lt hle (hbeyond id hid)⟩

/-- One copy, and then those made after it. -/
theorem HasCopies.cons {db : DB} {folderId start start' new : ℤ} {m : Message}
    {msgs : List Message} (hm : IsCopy db folderId m new) (hlt : start < new) (hle : new ≤ start')
    (hmsgs : HasCopies db folderId start' msgs) : HasCopies db folderId start (m :: msgs) := by
  obtain ⟨ids, hall, hsorted, hbeyond⟩ := hmsgs
  have hnew : ∀ id ∈ ids, new < id := fun id hid => Int.lt_of_le_of_lt hle (hbeyond id hid)
  refine ⟨new :: ids, .cons hm hall, List.pairwise_cons.mpr ⟨hnew, hsorted⟩, ?_⟩
  exact List.forall_mem_cons.mpr ⟨hlt, fun id hid => Int.lt_trans hlt (hnew id hid)⟩

/-! ## The handlers -/

section Handlers

variable {s : DB} {α : Type}

/-- The triple of a copying handler; of the session nothing has to be known. -/
abbrev Copies (s : DB) (h : HandlerM α) (post : α → DB → Prop) : Prop :=
  Handles copyContract (fun _ _ => True) (fun _ _ => True) s h (fun _ _ => True) post

/-- `copy`, with its result dropped: the copy is there for what follows. -/
theorem copies_copy {m : Message} {folderId : ℤ} {k : HandlerM α} {post : α → DB → Prop}
    (hm : IsRow s m) (hf : (s.folders.get? folderId).isSome = true)
    (hk : ∀ s₁ new, copyContract.Later s s₁ → s.messages.seq < new → new ≤ s₁.messages.seq →
      IsCopy s₁ folderId m new → Copies s₁ k post) :
    Copies s (do
      let _ ← attempt (MessageRepository.copy (← value m.id) (← value (some folderId)))
      k) post := by
  obtain ⟨id, hid, hrow⟩ := hm
  refine (Handles.value hid).bind fun x s₁ h₁ hx => ?_
  subst hx
  refine (Handles.value rfl).bind fun y s₂ h₂ hy => ?_
  subst hy
  have h₀₂ := h₁.trans h₂
  have hcopy := copy_spec hid (h₀₂.1.message _ _ hrow) (h₀₂.1.folder _ hf)
  refine (Handles.attempt quiet_true ?_ hcopy).bind fun o s₃ h₃ ho => ?_
  · rintro r s₃ s₄ h ⟨new, hlt, hle, hc⟩
    exact ⟨new, hlt, Int.le_trans hle h.1.seq, h.1.isCopy hc⟩
  · obtain ⟨r, -, new, hlt, hle, hc⟩ := ho
    exact hk s₃ new (h₀₂.trans h₃) (Int.lt_of_le_of_lt h₀₂.1.seq hlt) hle hc

/-- **`copyAll` copies every message of the list.** -/
theorem copies_copyAll {folderId : ℤ} :
    ∀ {msgs : List Message} {s : DB}, (∀ m ∈ msgs, IsRow s m) →
      (s.folders.get? folderId).isSome = true →
      Copies s (copyAll (some folderId) msgs) fun _ s' =>
        HasCopies s' folderId s.messages.seq msgs
  | [], _, _, _ => Triple.pure fun s' _ => .nil s' _ _
  | m :: msgs, s, hmsgs, hf => by
      obtain ⟨hm, hmsgs⟩ := List.forall_mem_cons.mp hmsgs
      refine copies_copy hm hf fun s₁ new h₁ hlt hle hc => ?_
      have hrest := copies_copyAll (fun m hm => (hmsgs m hm).later h₁) (h₁.1.folder _ hf)
      exact hrest.post_mono fun _ s₂ h₂ hmsgs => .cons (h₂.1.isCopy hc) hlt hle hmsgs

/-- `copyUids` copies every message it finds. -/
theorem copies_copyUids {folderId : ℤ} :
    ∀ {uids : List ℤ} {s : DB}, (s.folders.get? folderId).isSome = true →
      Copies s (copyUids (some folderId) uids) fun msgs s' =>
        HasCopies s' folderId s.messages.seq msgs
  | [], _, _ => Triple.pure fun s' _ => .nil s' _ _
  | uid :: uids, s, hf => by
      refine (Handles.member_or_throw _ fun _ _ _ => trivial).bind fun mailbox s₁ h₁ _ => ?_
      have hfind : Spec store copyContract s₁ (MessageRepository.findByUID mailbox uid)
          fun o s' => ∀ m, o = some m → IsRow s' m :=
        copy_query fun _ _ _ h => (of_findByUID_eq_some h).1.2
      refine (Handles.ask quiet_true hfind).bind fun o s₂ h₂ ho => ?_
      have h₀₂ := h₁.trans h₂
      have hf₂ := h₀₂.1.folder _ hf
      cases o with
      | none =>
        refine (copies_copyUids hf₂).post_mono fun msgs s₃ _ hmsgs => ?_
        exact hmsgs.weaken h₀₂.1.seq
      | some m =>
        refine copies_copy (ho m rfl) hf₂ fun s₃ new h₃ hlt hle hc => ?_
        refine (copies_copyUids (h₃.1.folder _ hf₂)).bind fun msgs s₄ h₄ hmsgs => ?_
        refine Triple.pure fun s₅ h₅ => ?_
        exact .cons ((h₄.trans h₅).1.isCopy hc) (Int.lt_of_le_of_lt h₀₂.1.seq hlt) hle
          (h₅.1.hasCopies hmsgs)

/-- A `BAD` is no `OK`. -/
theorem bad_ne_ok (tag t t' : Bytes) : ImapResponse.bad tag t ≠ ImapResponse.ok tag t' := by
  intro h
  rw [ImapResponse.bad, ImapResponse.ok] at h
  simp only [List.append_assoc] at h
  have hsecond : some 'B'.toUInt8 = some 'O'.toUInt8 :=
    congrArg (fun l => l[1]?) (List.append_cancel_left h)
  exact absurd hsecond (by decide)

/-- A reply that does not say the copies were made promises nothing. -/
theorem copied_bad {d : Dispatcher} {c : CopyCommand} {start : ℤ} {text : Bytes}
    {msgs : List Message} {db : DB} :
    Copied d c ⟨start, ImapResponse.bad c.cmd.tag text, msgs⟩ db := by
  intro h
  cases c with
  | copy cmd => exact absurd h (bad_ne_ok _ _ _)
  | uidCopy cmd => exact absurd h (bad_ne_ok _ _ _)

/-- A refused command promises nothing. -/
theorem copies_bad {A : Dispatcher → DB → Prop} (d : Dispatcher) (c : CopyCommand) (start : ℤ)
    (text : Bytes) :
    Handles copyContract (fun _ _ => True) A s (pure (ImapResponse.bad c.cmd.tag text, []))
      (fun _ _ => True) fun r s' => Copied d c ⟨start, r.1, r.2⟩ s' :=
  fun _ _ _ _ => ⟨trivial, copied_bad⟩

/-- The session is still that of the same user. -/
def SameUser (d : Dispatcher) (d' : Dispatcher) (_ : DB) : Prop :=
  d'.authenticatedUserID = d.authenticatedUserID

/-- The destination of the command, as both handlers look it up. -/
theorem copies_destination {d : Dispatcher} {cmd : ImapCommand} {k : Option Folder → HandlerM α}
    {post : α → DB → Prop} (hnone : ∀ s₁, copyContract.Later s s₁ → Copies s₁ (k none) post)
    (hsome : ∀ s₁ folder folderId, copyContract.Later s s₁ → folder.id = some folderId →
      destination s₁ d cmd = some folderId → (s₁.folders.get? folderId).isSome = true →
      Copies s₁ (k (some folder)) post) :
    Handles copyContract (fun _ _ => True) (SameUser d) s
      (do k (← ask (MessageRepository.findFolderByName (← userID) (← arg cmd 1))))
      (fun _ _ => True) post := by
  refine (Handles.member_or_throw _ fun _ _ _ => trivial).bind fun u s₁ h₁ hu => ?_
  obtain ⟨d', hd', hu⟩ := hu
  have hu : d.authenticatedUserID = some u := hd'.symm.trans hu
  refine Triple.pre (A := fun _ _ => True) ?_ fun _ _ _ _ => trivial
  refine (Handles.arg quiet_true cmd 1).bind fun name s₂ h₂ hname => ?_
  have hfind : Spec store copyContract s₂ (MessageRepository.findFolderByName u name)
      fun o s' => ∀ folder, o = some folder → ∃ folderId, folder.id = some folderId ∧
        destination s' d cmd = some folderId ∧ (s'.folders.get? folderId).isSome = true := by
    refine copy_query fun s₃ h₃ folder hfolder => ?_
    obtain ⟨r, hr, rfl⟩ := Option.map_eq_some_iff.mp hfolder
    refine ⟨r.1, rfl, ?_, ?_⟩
    · simp [destination, hu, hname, hfolder, FolderDAL.rowToFolder]
    · rw [Table.mem_rows_iff.mp (List.mem_of_find?_eq_some hr)]
      rfl
  refine (Handles.ask quiet_true hfind).bind fun o s₃ h₃ ho => ?_
  have h₀₃ := (h₁.trans h₂).trans h₃
  cases o with
  | none => exact hnone s₃ h₀₃
  | some folder =>
    obtain ⟨folderId, hid, hdest, hf⟩ := ho folder rfl
    exact hsome s₃ folder folderId h₀₃ hid hdest hf

/-- The guards of the two handlers, and the lookup of the destination. -/
theorem copies_guarded {d : Dispatcher} {c : CopyCommand} {start : ℤ}
    {k : Folder → HandlerM (Bytes × List Message)}
    (hk : ∀ s₁ folder folderId, copyContract.Later s s₁ → folder.id = some folderId →
      destination s₁ d c.cmd = some folderId → (s₁.folders.get? folderId).isSome = true →
      Copies s₁ (k folder) fun r s' => Copied d c ⟨start, r.1, r.2⟩ s') :
    Handles copyContract (fun _ _ => True) (SameUser d) s (do
      if (← get).state ≠ .selected then
        return (ImapResponse.bad c.cmd.tag (lit "No mailbox selected"), [])
      else if c.cmd.args.length ≠ 2 then
        return (ImapResponse.bad c.cmd.tag (lit "Missing arguments"), [])
      else match ← ask (MessageRepository.findFolderByName (← userID) (← arg c.cmd 1)) with
        | none => return (ImapResponse.bad c.cmd.tag (lit "No such folder"), [])
        | some dest => k dest)
      (fun _ _ => True) fun r s' => Copied d c ⟨start, r.1, r.2⟩ s' := by
  refine Triple.get_bind fun d₁ => ?_
  refine Triple.ite (copies_bad d c start _) (Triple.ite (copies_bad d c start _) ?_)
  exact (copies_destination (d := d) (fun _ _ => copies_bad d c start _) hk).pre fun _ _ _ h => h.2

/-- The destination is what it was when it was looked up. -/
theorem copied_of_hasCopies {d : Dispatcher} {c : CopyCommand} {folderId start : ℤ} {reply : Bytes}
    {msgs : List Message} {db db' : DB} (hg : Grows db db')
    (hdest : destination db d c.cmd = some folderId)
    (hcopies : HasCopies db' folderId start msgs) : Copied d c ⟨start, reply, msgs⟩ db' :=
  fun _ => ⟨folderId, (hg.destination_eq d c.cmd).trans hdest, hcopies⟩

/-- **`COPY` keeps what its `OK` promises.** -/
theorem copies_handleCopySelected (d : Dispatcher) (cmd : ImapCommand) :
    Handles copyContract (fun _ _ => True) (SameUser d) s (handleCopySelected cmd)
      (fun _ _ => True) fun r s' => Copied d (.copy cmd) ⟨s.messages.seq, r.1, r.2⟩ s' := by
  refine copies_guarded (c := .copy cmd) fun s₁ folder folderId h₁ hid hdest hf => ?_
  refine Handles.catching ?_ fun _ s₂ _ => copies_bad d (.copy cmd) _ _
  refine (Handles.member_or_throw _ fun _ _ _ => trivial).bind fun mailbox s₂ h₂ _ => ?_
  have hfind : Spec store copyContract s₂ (MessageRepository.findByFolder mailbox)
      fun l s' => ∀ m ∈ l, IsRow s' m := copy_query fun _ _ _ hm => (of_mem_select hm).2
  refine (Handles.ask quiet_true hfind).bind fun messages s₃ h₃ hmessages => ?_
  refine (Handles.arg quiet_true cmd 0).bind fun set s₄ h₄ _ => ?_
  refine (Handles.sequenceSet quiet_true _ _).bind fun ids s₅ h₅ _ => ?_
  have h₁₅ := ((h₂.trans h₃).trans h₄).trans h₅
  have hselected : ∀ m ∈ selectMessages messages ids, IsRow s₅ m := by
    intro m hm
    obtain ⟨n, -, hn⟩ := List.mem_filterMap.mp hm
    split_ifs at hn
    exact (hmessages m (List.mem_of_getElem? hn)).later (h₄.trans h₅)
  rw [hid]
  refine (copies_copyAll hselected (h₁₅.1.folder _ hf)).bind fun _ s₆ h₆ hcopies => ?_
  refine Triple.pure fun s₇ h₇ => copied_of_hasCopies ((h₁₅.trans h₆).trans h₇).1 hdest ?_
  exact (h₇.1.hasCopies hcopies).weaken (h₁.trans h₁₅).1.seq

/-- **So does `UID COPY`.** -/
theorem copies_handleUidCopySelected (d : Dispatcher) (cmd : ImapCommand) :
    Handles copyContract (fun _ _ => True) (SameUser d) s (handleUidCopySelected cmd)
      (fun _ _ => True) fun r s' => Copied d (.uidCopy cmd) ⟨s.messages.seq, r.1, r.2⟩ s' := by
  refine copies_guarded (c := .uidCopy cmd) fun s₁ folder folderId h₁ hid hdest hf => ?_
  refine Handles.catching ?_ fun _ s₂ _ => copies_bad d (.uidCopy cmd) _ _
  refine (Handles.arg quiet_true cmd 0).bind fun set s₂ h₂ _ => ?_
  refine (Handles.sequenceSet quiet_true _ _).bind fun uids s₃ h₃ _ => ?_
  have h₁₃ := h₂.trans h₃
  rw [hid]
  refine (copies_copyUids (h₁₃.1.folder _ hf)).bind fun msgs s₄ h₄ hcopies => ?_
  refine Triple.pure fun s₅ h₅ => copied_of_hasCopies ((h₁₃.trans h₄).trans h₅).1 hdest ?_
  exact (h₅.1.hasCopies hcopies).weaken (h₁.trans h₁₃).1.seq

end Handlers

/-! ## Whole runs -/

/-- What was copied stays copied. -/
theorem Copied.later {d : Dispatcher} {c : CopyCommand} {r : CopyReport} {db db' : DB}
    (h : Copied d c r db) (hg : Grows db db') : Copied d c r db' := by
  intro hok
  obtain ⟨folderId, hdest, hcopies⟩ := h hok
  exact ⟨folderId, (hg.destination_eq d c.cmd).trans hdest, hg.hasCopies hcopies⟩

/-- The discipline of the copying sessions. -/
def copyDiscipline : Discipline DB Write Dispatcher CopyCommand (Option CopyReport) where
  inv := ForeignKeys
  rely := Grows
  allow := UidFree
  faulty := False
  view _ := Eq
  guar _ _ _ := True
  loc _ _ := True
  post d c a db := ∀ r, a.2 = some r → Copied d c r db

/-- Every command keeps the discipline of copies. -/
theorem kept_copyDiscipline : copyDiscipline.Kept copySessions where
  refl := Contract.Lawful.refl (C := copyContract)
  trans _ _ _ := Contract.Lawful.trans (C := copyContract)
  loc_stable _ _ _ _ _ _ := trivial
  post_stable _ _ _ _ _ hr _ h r ha := (h r ha).later hr
  start d c db hinv _ := by
    have hhandler : ∀ s, Handles copyContract (fun _ _ => True) (SameUser d) s c.handler
        (fun _ _ => True) fun r s' => Copied d c ⟨s.messages.seq, r.1, r.2⟩ s' := by
      intro s
      cases c with
      | copy cmd => exact copies_handleCopySelected d cmd
      | uidCopy cmd => exact copies_handleUidCopySelected d cmd
    have hstart : Spec store copyContract db (query (·.messages.seq))
        fun start s => start = s.messages.seq := copy_query fun _ _ => rfl
    have hprog : Spec store copyContract db (copySessions.prog d c)
        fun a s => True ∧ ∀ r, a.2 = some r → Copied d c r s := by
      refine hstart.bind fun start s₁ h₁ hs => ?_
      subst hs
      intro s₂ h₂
      refine Ok.bind (fun a s₃ ha => ?_) (hhandler s₁ d s₂ h₂ rfl)
      obtain ⟨r, d'⟩ := a
      cases r with
      | error e => exact ⟨trivial, fun r hr => nomatch hr⟩
      | ok x =>
        refine ⟨trivial, fun r hr => ?_⟩
        obtain rfl := Option.some.inj hr
        exact ha.2
    exact hprog db (.refl hinv)

section Runs

variable {ι : Type}

/-- The copying sessions and their database. -/
abbrev CopySessions (ι : Type) :=
  Net DB Write Bytes Answer Dispatcher CopyCommand (Option CopyReport) ι

/-- The step's write, if it makes one, finds its uid free; and no write fails of itself. -/
def CopiesFree (n : CopySessions ι) : Act ι CopyCommand Bytes Empty → Prop
  | .step i =>
    match n.client i with
    | .busy _ _ (.write w _) => UidFree n.db w
    | _ => True
  | .fail _ _ => False
  | _ => True

instance (db : DB) : DecidablePred (UidFree db)
  | .copy .. => inferInstanceAs (Decidable (_ = _))
  | .assignUID .. | .updateSeen .. | .updateDeleted .. | .updateFlags .. | .moveToFolder ..
  | .expunge _ | .hardDelete _ | .insertFolder _ | .updateFolder _ | .deleteFolder _
  | .incrementNextUID _ | .clearRecentByFolder _ | .setSubscribed .. => isTrue trivial

instance (n : CopySessions ι) : DecidablePred (CopiesFree n)
  | .start .. | .env _ => isTrue trivial
  | .fail .. => isFalse id
  | .step i => decidable_of_iff
      (∀ x ∈ n.writeOf (.step i : Act ι CopyCommand Bytes Empty), UidFree n.db x.2.2) <| by
      rw [Net.writeOf, CopiesFree]
      cases n.client i with
      | idle => simp
      | busy d c p => cases p <;> simp

/-- Where uids are free and writes succeed, every action is allowed. -/
theorem allowed_of_copiesFree {n : CopySessions ι} {a : Act ι CopyCommand Bytes Empty}
    (h : CopiesFree n a) : copyDiscipline.Allowed copySessions n a := by
  cases a with
  | start i c => trivial
  | step i =>
    intro d c w k hc
    rw [CopiesFree, hc] at h
    exact h
  | fail i e => exact h
  | env x => exact x.elim

/-- **`OK` means copied, in every run where no copy finds its uid taken** — for any number of
sessions, any database, any commands and sets, and any interleaving of the steps. -/
theorem copied_of_exec [DecidableEq ι] {n n' : CopySessions ι}
    {as : List (Act ι CopyCommand Bytes Empty)} (hidle : ∀ i, ∃ d, n.client i = .idle d)
    (hfk : ForeignKeys n.db) (hfree : Run.Along copySessions.next CopiesFree n as)
    (hrun : Run.exec copySessions.next n as = some n') :
    ∀ i d d' c r, n'.client i = .busy d c (.ret (d', some r)) → Copied d c r n'.db := by
  intro i d d' c r hreply
  have hstart : copyDiscipline.Holds copySessions n := by
    refine ⟨hfk, fun j => ?_⟩
    obtain ⟨d, hd⟩ := hidle j
    rw [hd]
    trivial
  have hend := (hstart.exec kept_copyDiscipline
    (hfree.mono fun _ _ => allowed_of_copiesFree) hrun).1.2 i
  rw [hreply] at hend
  exact hend.2 r rfl

end Runs

/-! ## A copy that finds its uid taken -/

/-- A row of alice's mailbox. -/
def inboxRow (uid : ℤ) (path sender : String) : MessageData where
  userId := 1
  folderId := 1
  uid := uid
  content := { rawFilePath := lit path, fromAddress := lit sender }

/-- Alice's mailbox with two messages, and an empty folder. -/
def copyDB : DB where
  users := Table.empty.insert ⟨lit "alice", []⟩
  folders := (Table.empty.insert
      { userId := 1, parentId := none, name := lit "INBOX", nextUid := 3 }).insert
    { userId := 1, parentId := none, name := lit "Archive" }
  messages := (Table.empty.insert (inboxRow 1 "1.eml" "bob")).insert (inboxRow 2 "2.eml" "carol")
  recipients := .empty

/-- A session of alice that has selected the mailbox. -/
def aliceSession : Dispatcher where
  state := .selected
  authenticatedUserName := lit "alice"
  authenticatedUserID := some 1
  currentMailbox := { name := lit "INBOX", id := some 1 }

/-- Two such sessions. -/
def copyNet : CopySessions Bool := ⟨copyDB, fun _ => .idle aliceSession⟩

/-- `COPY n Archive`. -/
def copyToArchive (n : String) : CopyCommand :=
  .copy { tag := lit "a", type := .copy, args := [lit n, lit "Archive"] }

theorem foreignKeys_copyDB : ForeignKeys copyDB := by
  have hrows : ∀ r ∈ copyDB.messages.rows, (copyDB.users.get? r.2.userId).isSome = true ∧
      (copyDB.folders.get? r.2.folderId).isSome = true := by decide
  exact fun i m hm => hrows (i, m) (Table.mem_rows_iff.mpr hm)

/-- One command alone: the observer's query, the five reads and the write. -/
def oneCopy : List (Act Bool CopyCommand Bytes Empty) :=
  .start false (copyToArchive "1") :: List.replicate 7 (.step false)

/-- The first session begins while the second is copying, and reads `next_uid` after the write. -/
def orderedCopies : List (Act Bool CopyCommand Bytes Empty) :=
  [.start true (copyToArchive "2"), .step true, .start false (copyToArchive "1"), .step true,
    .step false] ++ List.replicate 5 (.step true) ++ List.replicate 6 (.step false)

theorem copied_orderedCopies :
    ∃ n' d₁ r₁ d₂ r₂, Run.exec copySessions.next copyNet orderedCopies = some n' ∧
      n'.client true = .busy aliceSession (copyToArchive "2") (.ret (d₁, some r₁)) ∧
      r₁.reply = (copyToArchive "2").completed ∧
      Copied aliceSession (copyToArchive "2") r₁ n'.db ∧
      n'.client false = .busy aliceSession (copyToArchive "1") (.ret (d₂, some r₂)) ∧
      r₂.reply = (copyToArchive "1").completed ∧
      Copied aliceSession (copyToArchive "1") r₂ n'.db := by
  have hfree : Run.Along copySessions.next CopiesFree copyNet orderedCopies := by decide
  have hcopied := copied_of_exec (fun _ => ⟨_, rfl⟩) foreignKeys_copyDB hfree rfl
  exact ⟨_, _, _, _, _, rfl, rfl, rfl, hcopied true _ _ _ _ rfl, rfl, rfl,
    hcopied false _ _ _ _ rfl⟩

/-- The second session has read `next_uid`; then the first copies; then the second writes. -/
def crossedCopies : List (Act Bool CopyCommand Bytes Empty) :=
  .start true (copyToArchive "2") :: List.replicate 6 (.step true) ++ oneCopy ++ [.step true]

/-- The second session's command ends with `OK`, for the second message; the folder holds the first
session's copy of the first one. -/
theorem exec_crossedCopies :
    ∃ n' d' r, Run.exec copySessions.next copyNet crossedCopies = some n' ∧
      n'.client true = .busy aliceSession (copyToArchive "2") (.ret (d', some r)) ∧
      r.reply = (copyToArchive "2").completed ∧
      r.selected = [MessageDAL.rowToMessage 2 (inboxRow 2 "2.eml" "carol")] ∧
      destination n'.db aliceSession (copyToArchive "2").cmd = some 2 ∧
      n'.db.messages.rows = [(1, inboxRow 1 "1.eml" "bob"), (2, inboxRow 2 "2.eml" "carol"),
        (3, { inboxRow 1 "1.eml" "bob" with folderId := 2 })] :=
  ⟨_, _, _, rfl, rfl, rfl, rfl, rfl, rfl⟩

/-- **A copy whose uid was taken is answered `OK` and is not there.** -/
theorem copied_lost :
    ∃ (n n' : CopySessions Bool) (as : List (Act Bool CopyCommand Bytes Empty)) (d d' : Dispatcher)
      (c : CopyCommand) (r : CopyReport),
      (∀ i, ∃ d, n.client i = .idle d) ∧ ForeignKeys n.db ∧
      Run.exec copySessions.next n as = some n' ∧
      n'.client true = .busy d c (.ret (d', some r)) ∧ ¬ Copied d c r n'.db := by
  obtain ⟨n', d', r, hrun, hreply, hok, hselected, hdest, hrows⟩ := exec_crossedCopies
  refine ⟨copyNet, n', crossedCopies, _, d', _, r, fun _ => ⟨_, rfl⟩, foreignKeys_copyDB, hrun,
    hreply, fun h => ?_⟩
  obtain ⟨folderId, hdest', ids, hall, -, -⟩ := h hok
  obtain rfl : 2 = folderId := Option.some.inj (hdest.symm.trans hdest')
  rw [hselected] at hall
  obtain - | ⟨⟨d, hd, hfolder, -, hcontent, -⟩, -⟩ := hall
  have hrow := Table.mem_rows_iff.mpr hd
  rw [hrows] at hrow
  have hpath : d.content.rawFilePath = lit "2.eml" := congrArg Content.rawFilePath hcontent
  simp only [List.mem_cons, Prod.mk.injEq, List.not_mem_nil, or_false] at hrow
  obtain ⟨-, rfl⟩ | ⟨-, rfl⟩ | ⟨-, rfl⟩ := hrow
  · exact absurd hfolder (by decide)
  · exact absurd hfolder (by decide)
  · exact absurd hpath (by decide)

end MailStack.Imap
