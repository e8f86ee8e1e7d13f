import MailStack.Imap.Copy
import MailStack.Store.Tenant

/-!
# Imap/Tenant — the repository, for one user

The contract of a command that a session runs for its user: what it reads of folders and messages
are rows of that user, and so are the rows it writes.  Each operation of the repository meets it
when the ids it is called with were handed out for rows of the user; and what it finds has such ids
in turn.
-/

open Bytes

namespace MailStack.Imap

open Store Prog

/-- The contract of a command begun for the user `o`, if any: it relies on ids not being used again;
it may look at the users and at the rows of `o`, and it leaves all other rows as they are. -/
def tenantContract (o : Option ℤ) : Contract DB Write where
  inv := Tenants
  rely := Ages
  view db db' := db'.users = db.users ∧ ∀ u, o = some u → SameRows u db db'
  allow _ _ := True
  faulty := True
  guar db db' := db'.users = db.users ∧ ∀ v, o ≠ some v → SameRows v db db'

instance (o : Option ℤ) : (tenantContract o).Lawful where
  refl := .refl
  trans := .trans

/-! ## Rows that were read -/

/-- A folder of the user, as it was read: its id and its parent were handed out for the user. -/
structure OwnFolder (u : ℤ) (db : DB) (f : Folder) : Prop where
  user : f.userId = u
  parent : ∀ p, f.parentId = some p → OwnsFolder u db p
  id : ∃ id, f.id = some id ∧ OwnsFolder u db id

/-- A message of the user, as it was read. -/
structure OwnMessage (u : ℤ) (db : DB) (m : Message) : Prop where
  user : m.userId = u
  id : ∃ id, m.id = some id ∧ OwnsMessage u db id

theorem OwnFolder.ages {u : ℤ} {db db' : DB} {f : Folder} (h : OwnFolder u db f)
    (ha : Ages db db') : OwnFolder u db' f := by
  obtain ⟨id, hid, hown⟩ := h.id
  exact ⟨h.user, fun p hp => (h.parent p hp).ages ha, id, hid, hown.ages ha⟩

theorem OwnMessage.ages {u : ℤ} {db db' : DB} {m : Message} (h : OwnMessage u db m)
    (ha : Ages db db') : OwnMessage u db' m := by
  obtain ⟨id, hid, hown⟩ := h.id
  exact ⟨h.user, id, hid, hown.ages ha⟩

/-- A row of the user's folders, read. -/
theorem ownFolder_of_get? {u : ℤ} {db : DB} (ht : Tenants db) {i : ℤ} {f : FolderData}
    (hf : db.folders.get? i = some f) (hu : f.userId = u) :
    OwnFolder u db (FolderDAL.rowToFolder i f) := by
  refine ⟨hu, fun p hp => ?_, i, rfl, .of_get? hf hu⟩
  obtain ⟨g, hg, hgu⟩ := ht.parent i f p hf hp
  exact .of_get? hg (hgu.trans hu)

section Operations

variable {u : ℤ} {s : DB} {α β : Type}

/-- The specification of a program that runs for the user. -/
abbrev For (u : ℤ) (s : DB) (p : DbM α) (post : α → DB → Prop) : Prop :=
  Spec store (tenantContract (some u)) s p post

/-- A later database, for a command of the user. -/
abbrev After (u : ℤ) (s s' : DB) : Prop := (tenantContract (some u)).Later s s'

/-- A read for the user: it sees rows of the user's only, so others do not change it. -/
theorem for_query {f : DB → α} {post : α → DB → Prop}
    (hview : ∀ s₁ s₂, After u s s₁ → After u s s₂ → s₂.users = s₁.users → SameRows u s₁ s₂ →
      f s₁ = f s₂)
    (hpost : ∀ s₁, After u s s₁ → post (f s₁) s₁) : For u s (query f) post :=
  Spec.query (fun s₁ s₂ h₁ h₂ hv => hview s₁ s₂ h₁ h₂ hv.1 (hv.2 u rfl)) hpost

/-- A program whose result does not matter. -/
theorem for_pure {a : α} : For u s (pure a) fun _ _ => True := Spec.pure fun _ _ => trivial

/-- **A locked write that names the user's ids only.** -/
theorem for_locked {w : Write} (hw : Mine u s w) : For u s (locked w) fun _ _ => True := by
  refine Spec.locked (fun _ _ _ _ => trivial) fun s₁ s₂ a h₁ _ hok => ?_
  have h := (Write.effect hok).within h₁.2 (hw.ages h₁.1)
  refine ⟨⟨h.users, fun v hv => h.same v fun huv => hv (congrArg some huv.symm)⟩,
    ⟨h.ages, h.tenants⟩, trivial⟩

/-- A checked write of what is the user's. -/
theorem for_checked {w : Write} (hw : Mine u s w) : For u s (checked w) fun _ _ => True :=
  (for_locked hw).bind fun _ _ _ _ => for_pure

/-- A write of what is the user's, its answer dropped. -/
theorem for_unchecked {w : Write} (hw : Mine u s w) : For u s (unchecked w) fun _ _ => True :=
  (for_locked hw).bind fun _ _ _ _ => for_pure

/-- A lookup, and what is done with what it found. -/
theorem for_found {p : DbM (Option α)} {P : α → DB → Prop} {k : Option α → DbM β}
    (hp : For u s p fun o s' => ∀ a, o = some a → P a s')
    (hnone : ∀ s₁, For u s₁ (k none) fun _ _ => True)
    (hsome : ∀ a s₁, After u s s₁ → P a s₁ → For u s₁ (k (some a)) fun _ _ => True) :
    For u s (p >>= k) fun _ _ => True := by
  refine hp.bind fun o s₁ h₁ ho => ?_
  cases o with
  | none => exact hnone s₁
  | some a => exact hsome a s₁ h₁ (ho a rfl)

/-! ### Reads -/

/-- A folder found by name among the user's is the user's. -/
theorem for_findFolderByName (name : Bytes) :
    For u s (MessageRepository.findFolderByName u name) fun o s' =>
      ∀ f, o = some f → OwnFolder u s' f := by
  refine for_query (fun _ _ _ _ _ hsame => findByName_congr hsame name) fun s₁ h₁ f hf => ?_
  obtain ⟨r, hr, rfl⟩ := Option.map_eq_some_iff.mp hf
  have huser := List.find?_some hr
  exact ownFolder_of_get? h₁.2 (Table.mem_rows_iff.mp (List.mem_of_find?_eq_some hr))
    (of_decide_eq_true huser).1

theorem for_findFoldersByUser :
    For u s (MessageRepository.findFoldersByUser u) fun _ _ => True :=
  for_query (fun _ _ _ _ _ hsame => findByUser_congr hsame 50 0) fun _ _ => trivial

/-- A folder of the user's that is found is the user's. -/
theorem for_findFolder {id : ℤ} (hid : OwnsFolder u s id) :
    For u s (query (FolderDAL.findByID · id)) fun o s' =>
      ∀ f, o = some f → OwnFolder u s' f ∧ f.id = some id := by
  refine for_query (fun s₁ s₂ h₁ h₂ _ hsame => ?_) fun s₁ h₁ f hf => ?_
  · exact findFolder_congr hsame (hid.ages h₁.1) (hid.ages h₂.1)
  · obtain ⟨d, hd, rfl⟩ := Option.map_eq_some_iff.mp hf
    exact ⟨ownFolder_of_get? h₁.2 hd ((hid.ages h₁.1).owner d hd), rfl⟩

/-- A message of the user's that is found is the user's. -/
theorem for_findByID {id : ℤ} (hid : OwnsMessage u s id) :
    For u s (MessageRepository.findByID id) fun o _ => ∀ m, o = some m → m.userId = u := by
  refine for_query (fun s₁ s₂ h₁ h₂ _ hsame => ?_) fun s₁ h₁ m hm => ?_
  · exact findMessage_congr hsame (hid.ages h₁.1) (hid.ages h₂.1)
  · obtain ⟨d, hd, rfl⟩ := Option.map_eq_some_iff.mp hm
    exact (hid.ages h₁.1).owner d hd

/-- The messages a scan of a folder of the user selects. -/
theorem for_select {id : ℤ} (hid : OwnsFolder u s id) {p : MessageData → Bool}
    (hp : ∀ m, p m = true → m.folderId = id) (limit offset : ℕ) :
    For u s (query (MessageDAL.select · p limit offset)) fun l s' =>
      ∀ m ∈ l, OwnMessage u s' m := by
  refine for_query (fun s₁ s₂ h₁ h₂ _ hsame => ?_) fun s₁ h₁ m hm => ?_
  · exact select_congr h₁.2 h₂.2 hsame (hid.ages h₁.1) (hid.ages h₂.1) hp limit offset
  · obtain ⟨hpm, i, hi, hrow⟩ := of_mem_select hm
    have huser := h₁.2.userId_eq (hid.ages h₁.1) hrow (hp _ hpm)
    exact ⟨huser, i, hi, .of_get? hrow huser⟩

/-- The messages of a folder of the user's are the user's. -/
theorem for_findByFolder {id : ℤ} (hid : OwnsFolder u s id) :
    For u s (MessageRepository.findByFolder id) fun l s' => ∀ m ∈ l, OwnMessage u s' m :=
  for_select hid (fun _ h => of_decide_eq_true h) 50 0

/-- And so is the one with a given uid. -/
theorem for_findByUID {id : ℤ} (hid : OwnsFolder u s id) (uid : ℤ) :
    For u s (MessageRepository.findByUID id uid) fun o s' =>
      ∀ m, o = some m → OwnMessage u s' m := by
  refine for_query (fun s₁ s₂ h₁ h₂ _ hsame => ?_) fun s₁ h₁ m hm => ?_
  · exact findByUID_congr h₁.2 h₂.2 hsame (hid.ages h₁.1) (hid.ages h₂.1) uid
  · obtain ⟨⟨hfolder, i, hi, hrow⟩, -⟩ := of_findByUID_eq_some hm
    have huser := h₁.2.userId_eq (hid.ages h₁.1) hrow hfolder
    exact ⟨huser, i, hi, .of_get? hrow huser⟩

theorem for_findRecipientsByMessage {id : ℤ} (hid : OwnsMessage u s id) :
    For u s (MessageRepository.findRecipientsByMessage id) fun _ _ => True :=
  for_query (fun _ _ h₁ h₂ _ hsame =>
    findByMessage_congr h₁.2 h₂.2 hsame (hid.ages h₁.1) (hid.ages h₂.1)) fun _ _ => trivial

theorem for_findUser (id : ℤ) : For u s (query (UserDAL.findByID · id)) fun _ _ => True := by
  refine for_query (fun _ _ _ _ husers _ => ?_) fun _ _ => trivial
  rw [UserDAL.findByID, UserDAL.findByID, husers]

/-! ### Writes -/

theorem for_expunge {id : ℤ} (hid : OwnsFolder u s id) :
    For u s (MessageRepository.expunge id) fun _ _ => True := by
  have hdeleted : For u s (query (MessageDAL.findDeleted · id MessageRepository.intMax 0))
      fun l s' => ∀ m ∈ l, OwnMessage u s' m :=
    for_select hid (fun _ h => (of_decide_eq_true h).1) _ 0
  refine hdeleted.bind fun l s₁ _ hl => for_checked fun i hi => ?_
  obtain ⟨m, hm, hmi⟩ := List.mem_filterMap.mp hi
  obtain ⟨id, hid, hown⟩ := (hl m hm).id
  obtain rfl : id = i := Option.some.inj (hid.symm.trans hmi)
  exact hown

theorem for_hardDelete {id : ℤ} (hid : OwnsMessage u s id) :
    For u s (MessageRepository.hardDelete id) fun _ _ => True :=
  for_found (for_findByID hid) (fun _ => for_pure) fun _ _ h₁ _ => for_unchecked (hid.ages h₁.1)

/-- The user's message is copied into the user's folder. -/
theorem for_copy {id folderId : ℤ} (hid : OwnsMessage u s id) (hf : OwnsFolder u s folderId) :
    For u s (MessageRepository.copy id folderId) fun _ _ => True := by
  refine for_found (for_findByID hid) (fun _ => for_pure) fun m s₁ h₁ hm => ?_
  refine for_found (for_findFolder (hf.ages h₁.1)) (fun _ => for_pure) fun folder s₂ h₂ _ => ?_
  have h₀₂ := h₁.trans h₂
  refine (for_findRecipientsByMessage (hid.ages h₀₂.1)).bind fun recipients s₃ h₃ _ => ?_
  have hf₃ := hf.ages (h₀₂.trans h₃).1
  refine Spec.bind (for_checked ?_) fun _ _ _ _ => for_pure
  exact ⟨hm, hf₃, hf₃⟩

theorem for_clearRecentByFolder {id : ℤ} (hid : OwnsFolder u s id) :
    For u s (MessageRepository.clearRecentByFolder id) fun _ _ => True :=
  for_found (for_findFolder hid) (fun _ => for_pure) fun _ _ h₁ _ => for_checked (hid.ages h₁.1)

theorem for_setFlags {id : ℤ} (hid : OwnsMessage u s id) (flags : List Bytes) :
    For u s (MessageRepository.setFlags id flags) fun _ _ => True := by
  refine for_found (for_findByID hid) (fun _ => for_pure) fun m s₁ h₁ _ => ?_
  dsimp only
  split
  · exact for_pure
  · exact for_unchecked (hid.ages h₁.1)

/-- A folder is created for the user. -/
theorem for_createFolder {f : Folder} (hf : Mine u s (.insertFolder f)) :
    For u s (MessageRepository.createFolder f) fun _ _ => True := by
  obtain rfl := hf.1
  unfold MessageRepository.createFolder
  split_ifs
  · exact for_pure
  · refine (for_findFolderByName f.name).bind fun o s₁ h₁ _ => ?_
    cases o with
    | some _ => exact for_pure
    | none => exact for_unchecked (hf.ages h₁.1)

/-- The row that is written back was read: its user and its parent are the user's. -/
theorem for_renameFolder {id : ℤ} (hid : OwnsFolder u s id) (newName : Bytes) :
    For u s (MessageRepository.renameFolder id newName) fun _ _ => True := by
  unfold MessageRepository.renameFolder
  split_ifs
  · exact for_pure
  · refine for_found (for_findFolder hid) (fun _ => for_pure) fun folder s₁ h₁ hfolder => ?_
    obtain ⟨hown, hfid⟩ := hfolder
    obtain rfl := hown.user
    refine (for_findFolderByName newName).bind fun o s₂ h₂ _ => ?_
    split_ifs
    · exact for_pure
    · have hown₂ := hown.ages h₂.1
      refine for_unchecked ⟨⟨rfl, hown₂.parent⟩, fun i hi => ?_⟩
      obtain rfl : id = i := Option.some.inj (hfid.symm.trans hi)
      exact hid.ages (h₁.trans h₂).1

/-- A folder of the user's is deleted. -/
theorem for_deleteFolder {id : ℤ} (hid : OwnsFolder u s id) :
    For u s (MessageRepository.deleteFolder id) fun _ _ => True :=
  for_found (for_findFolder hid) (fun _ => for_pure) fun _ _ h₁ _ => for_unchecked (hid.ages h₁.1)

theorem for_setSubscribed {id : ℤ} (hid : OwnsFolder u s id) (subscribed : Bool) :
    For u s (MessageRepository.setSubscribed id subscribed) fun _ _ => True :=
  for_found (for_findFolder hid) (fun _ => for_pure) fun _ _ h₁ _ => for_checked (hid.ages h₁.1)

end Operations

end MailStack.Imap
