import MailStack.Machinery.Owner
import MailStack.Store.Repository

/-!
# Store/Tenant — whose rows a write touches

Folders and messages carry the id of the user they belong to.  In a database of tenants every
message lies in a folder of its user, and so does every folder whose parent is one.

A write is `Mine` for a user when the ids it names were handed out for that user's rows.  Such a
write leaves every row of every other user as it is (`Effect.within`) — a delete that cascades
included: what lies below a folder of the user is the user's.
-/

namespace MailStack.Store

/-! ## Databases of tenants -/

/-- There is a folder of `u` under the id. -/
def HasFolder (u : ℤ) (db : DB) (id : ℤ) : Prop :=
  ∃ f, db.folders.get? id = some f ∧ f.userId = u

/-- There is a message of `u` under the id. -/
def HasMessage (u : ℤ) (db : DB) (id : ℤ) : Prop :=
  ∃ m, db.messages.get? id = some m ∧ m.userId = u

/-- Every message lies in a folder of its user, every folder that has a parent in one of its user,
and a recipient belongs to a message. -/
structure Tenants (db : DB) : Prop where
  message : ∀ i m, db.messages.get? i = some m → HasFolder m.userId db m.folderId
  parent : ∀ i f p, db.folders.get? i = some f → f.parentId = some p → HasFolder f.userId db p
  recipient : ∀ i r, db.recipients.get? i = some r → (db.messages.get? r.messageId).isSome = true

/-- What becomes of a database: ids are not used again, and a row keeps its user. -/
structure Ages (db db' : DB) : Prop where
  folders : db.folders.Ages (·.userId) db'.folders
  messages : db.messages.Ages (·.userId) db'.messages

/-- The id was handed out for a folder of `u`. -/
def OwnsFolder (u : ℤ) (db : DB) (id : ℤ) : Prop := db.folders.Owned (·.userId) u id

/-- The id was handed out for a message of `u`. -/
def OwnsMessage (u : ℤ) (db : DB) (id : ℤ) : Prop := db.messages.Owned (·.userId) u id

/-- The folders and messages of `u`, with their recipients, are the same in both databases. -/
structure SameRows (u : ℤ) (db db' : DB) : Prop where
  folders : db.folders.Agree (·.userId = u) db'.folders
  messages : db.messages.Agree (·.userId = u) db'.messages
  recipients : db.recipients.Agree (fun r => HasMessage u db r.messageId) db'.recipients

/-- What a write on behalf of `u` does: no row of another user changes. -/
structure Within (u : ℤ) (db db' : DB) : Prop where
  tenants : Tenants db'
  users : db'.users = db.users
  ages : Ages db db'
  same : ∀ v, v ≠ u → SameRows v db db'

section

variable {u : ℤ} {db db' db'' : DB} {id : ℤ}

theorem Ages.refl (db : DB) : Ages db db := ⟨.refl _, .refl _⟩

theorem Ages.trans (h : Ages db db') (h' : Ages db' db'') : Ages db db'' :=
  ⟨h.folders.trans h'.folders, h.messages.trans h'.messages⟩

/-- Owning a folder outlives what others do. -/
theorem OwnsFolder.ages (h : OwnsFolder u db id) (ha : Ages db db') : OwnsFolder u db' id :=
  Table.Owned.ages h ha.folders

/-- So does owning a message. -/
theorem OwnsMessage.ages (h : OwnsMessage u db id) (ha : Ages db db') : OwnsMessage u db' id :=
  Table.Owned.ages h ha.messages

/-- What lies in a folder of `u` is `u`'s. -/
theorem Tenants.userId_eq (h : Tenants db) (hf : OwnsFolder u db id) {i : ℤ} {m : MessageData}
    (hm : db.messages.get? i = some m) (hid : m.folderId = id) : m.userId = u := by
  obtain ⟨f, hf', huser⟩ := h.message i m hm
  exact huser.symm.trans (hf.owner f (hid ▸ hf'))

theorem SameRows.refl (db : DB) : SameRows u db db := ⟨.refl _, .refl _, .refl _⟩

/-- The same rows hold the same messages. -/
theorem SameRows.hasMessage (h : SameRows u db db') : HasMessage u db id → HasMessage u db' id := by
  rintro ⟨m, hm, huser⟩
  exact ⟨m, (h.messages id m huser).mp hm, huser⟩

theorem SameRows.trans (h : SameRows u db db') (h' : SameRows u db' db'') : SameRows u db db'' where
  folders := h.folders.trans h'.folders
  messages := h.messages.trans h'.messages
  recipients i r hr := (h.recipients i r hr).trans (h'.recipients i r (h.hasMessage hr))

theorem Within.refl (h : Tenants db) : Within u db db :=
  ⟨h, rfl, .refl db, fun _ _ => .refl db⟩

theorem Within.trans (h : Within u db db') (h' : Within u db' db'') : Within u db db'' :=
  ⟨h'.tenants, h'.users.trans h.users, h.ages.trans h'.ages,
    fun v hv => (h.same v hv).trans (h'.same v hv)⟩

end

/-! ## What the statements do -/

section

variable {u : ℤ} {db : DB}

/-- Rows of `u`'s messages change, and stay in folders of `u`. -/
theorem within_mapMessages (ht : Tenants db) {g : ℤ → MessageData → MessageData}
    (hg : ∀ i m, db.messages.get? i = some m →
      g i m = m ∨ (m.userId = u ∧ (g i m).userId = u ∧ HasFolder u db (g i m).folderId)) :
    Within u db { db with messages := db.messages.map g } := by
  refine ⟨⟨fun i m' hm' => ?_, ht.parent, fun i r hr => ?_⟩, rfl, ⟨.refl _, .map ?_⟩,
    fun v hv => ⟨.refl _, .map fun i m hm => ?_, .refl _⟩⟩
  · rw [Table.get?_map] at hm'
    obtain ⟨m, hm, rfl⟩ := Option.map_eq_some_iff.mp hm'
    rcases hg i m hm with heq | ⟨-, huser, f, hf, hfuser⟩
    · rw [heq]
      exact ht.message i m hm
    · exact ⟨f, hf, hfuser.trans huser.symm⟩
  · rw [Table.get?_map, Option.isSome_map]
    exact ht.recipient i r hr
  · intro i m hm
    rcases hg i m hm with heq | ⟨huser, huser', -⟩
    · rw [heq]
    · exact huser'.trans huser.symm
  · refine (hg i m hm).imp_right fun h => ⟨?_, ?_⟩
    · exact fun hmv => hv (hmv.symm.trans h.1)
    · exact fun hmv => hv (hmv.symm.trans h.2.1)

/-- Rows of `u`'s folders change, and stay below folders of `u`. -/
theorem within_mapFolders (ht : Tenants db) {g : ℤ → FolderData → FolderData}
    (hg : ∀ i f, db.folders.get? i = some f → g i f = f ∨
      (f.userId = u ∧ (g i f).userId = u ∧ ∀ p, (g i f).parentId = some p → HasFolder u db p)) :
    Within u db { db with folders := db.folders.map g } := by
  have huser : ∀ i f, db.folders.get? i = some f → (g i f).userId = f.userId := by
    intro i f hf
    rcases hg i f hf with heq | ⟨hu, hu', -⟩
    · rw [heq]
    · exact hu'.trans hu.symm
  have hhas : ∀ v i, HasFolder v db i →
      HasFolder v { db with folders := db.folders.map g } i := by
    rintro v i ⟨f, hf, hv⟩
    refine ⟨g i f, ?_, (huser i f hf).trans hv⟩
    rw [Table.get?_map, hf]
    rfl
  refine ⟨⟨fun i m hm => ?_, fun i f' p hf' hp => ?_, ht.recipient⟩, rfl, ⟨.map huser, .refl _⟩,
    fun v hv => ⟨.map fun i f hf => ?_, .refl _, .refl _⟩⟩
  · exact hhas _ _ (ht.message i m hm)
  · rw [Table.get?_map] at hf'
    obtain ⟨f, hf, rfl⟩ := Option.map_eq_some_iff.mp hf'
    rcases hg i f hf with heq | ⟨-, hu', hparent⟩
    · rw [heq] at hp ⊢
      exact hhas _ _ (ht.parent i f p hf hp)
    · rw [hu']
      exact hhas _ _ (hparent p hp)
  · refine (hg i f hf).imp_right fun h => ⟨?_, ?_⟩
    · exact fun hfv => hv (hfv.symm.trans h.1)
    · exact fun hfv => hv (hfv.symm.trans h.2.1)

/-- The recipients of a copy are of the copy. -/
theorem of_recipientRows {messageId i : ℤ} {r : RecipientData} :
    ∀ (recipients : List Recipient) {t : Table RecipientData},
      (recipientRows messageId recipients t).get? i = some r →
        t.get? i = some r ∨ r.messageId = messageId
  | [], _, h => .inl h
  | r' :: recipients, t, h => by
      rcases of_recipientRows recipients h with h | h
      · rw [Table.get?_insert] at h
        split_ifs at h
        · obtain rfl := Option.some.inj h
          exact .inr rfl
        · exact .inl h
      · exact .inr h

/-- New recipients of another message are not seen. -/
theorem agree_recipientRows {messageId : ℤ} {p : RecipientData → Prop}
    (hp : ∀ r, r.messageId = messageId → ¬ p r) :
    ∀ (recipients : List Recipient) (t : Table RecipientData),
      t.Agree p (recipientRows messageId recipients t)
  | [], t => .refl t
  | _ :: recipients, _ =>
      (Table.Agree.insert (hp _ rfl)).trans (agree_recipientRows hp recipients _)

/-- A row of `u` is added to the messages, with its recipients. -/
theorem within_insertMessage (ht : Tenants db) {m : MessageData} (hu : m.userId = u)
    (hf : HasFolder u db m.folderId) (recipients : List Recipient) :
    Within u db { db with
      messages := db.messages.insert m
      recipients := recipientRows (db.messages.seq + 1) recipients db.recipients } := by
  refine ⟨⟨fun i m' hm' => ?_, ht.parent, fun i r hr => ?_⟩, rfl, ⟨.refl _, .insert m⟩,
    fun v hv => ⟨.refl _, .insert fun hmv => hv (hmv.symm.trans hu), ?_⟩⟩
  · rw [Table.get?_insert] at hm'
    split_ifs at hm'
    · obtain rfl := Option.some.inj hm'
      obtain ⟨f, hf, hfuser⟩ := hf
      exact ⟨f, hf, hfuser.trans hu.symm⟩
    · exact ht.message i m' hm'
  · rw [Table.get?_insert]
    split_ifs with hid
    · rfl
    · exact ht.recipient i r ((of_recipientRows _ hr).resolve_right hid)
  · refine agree_recipientRows (fun r hr => ?_) _ _
    rintro ⟨m', hm', -⟩
    have := Table.le_seq_of_get? hm'
    omega

/-- A folder of `u` is added, below one of `u`. -/
theorem within_insertFolder (ht : Tenants db) {f : FolderData} (hu : f.userId = u)
    (hp : ∀ p, f.parentId = some p → HasFolder u db p) :
    Within u db { db with folders := db.folders.insert f } := by
  have hhas : ∀ v i, HasFolder v db i →
      HasFolder v { db with folders := db.folders.insert f } i := by
    rintro v i ⟨g, hg, hv⟩
    have := Table.le_seq_of_get? hg
    refine ⟨g, ?_, hv⟩
    rw [Table.get?_insert, if_neg (by omega)]
    exact hg
  refine ⟨⟨fun i m hm => hhas _ _ (ht.message i m hm), fun i f' p hf' hp' => ?_, ht.recipient⟩, rfl,
    ⟨.insert f, .refl _⟩, fun v hv => ⟨.insert fun hfv => hv (hfv.symm.trans hu), .refl _, .refl _⟩⟩
  rw [Table.get?_insert] at hf'
  split_ifs at hf'
  · obtain rfl := Option.some.inj hf'
    rw [hu]
    exact hhas _ _ (hp p hp')
  · exact hhas _ _ (ht.parent i f' p hf' hp')

/-- Rows of `u` go; with a folder go the folders and messages in it, with a message its
recipients. -/
theorem within_filter (ht : Tenants db) (keepFolder : ℤ → FolderData → Bool)
    (keepMessage : ℤ → MessageData → Bool) (keepRecipient : ℤ → RecipientData → Bool)
    (hfolder : ∀ i f, db.folders.get? i = some f → f.userId = u ∨ keepFolder i f = true)
    (hmessage : ∀ i m, db.messages.get? i = some m → m.userId = u ∨ keepMessage i m = true)
    (hrecipient : ∀ i r, db.recipients.get? i = some r →
      HasMessage u db r.messageId ∨ keepRecipient i r = true)
    (hparent : ∀ i f p g, db.folders.get? i = some f → f.parentId = some p →
      db.folders.get? p = some g → keepFolder i f = true → keepFolder p g = true)
    (hin : ∀ i m f, db.messages.get? i = some m → db.folders.get? m.folderId = some f →
      keepMessage i m = true → keepFolder m.folderId f = true)
    (hof : ∀ i r m, db.recipients.get? i = some r → db.messages.get? r.messageId = some m →
      keepRecipient i r = true → keepMessage r.messageId m = true) :
    Within u db { db with
      folders := db.folders.filter keepFolder
      messages := db.messages.filter keepMessage
      recipients := db.recipients.filter keepRecipient } := by
  refine ⟨⟨fun i m hm => ?_, fun i f p hf hp => ?_, fun i r hr => ?_⟩, rfl,
    ⟨.filter _, .filter _⟩, fun v hv => ⟨.filter fun i f hf hfv => ?_, .filter fun i m hm hmv => ?_,
      .filter fun i r hr hrv => ?_⟩⟩
  · rw [Table.get?_filter, Option.filter_eq_some_iff] at hm
    obtain ⟨f, hf, hu⟩ := ht.message i m hm.1
    refine ⟨f, ?_, hu⟩
    rw [Table.get?_filter, Option.filter_eq_some_iff]
    exact ⟨hf, hin i m f hm.1 hf hm.2⟩
  · rw [Table.get?_filter, Option.filter_eq_some_iff] at hf
    obtain ⟨g, hg, hu⟩ := ht.parent i f p hf.1 hp
    refine ⟨g, ?_, hu⟩
    rw [Table.get?_filter, Option.filter_eq_some_iff]
    exact ⟨hg, hparent i f p g hf.1 hp hg hf.2⟩
  · rw [Table.get?_filter, Option.filter_eq_some_iff] at hr
    obtain ⟨m, hm⟩ := Option.isSome_iff_exists.mp (ht.recipient i r hr.1)
    rw [Table.get?_filter, Option.isSome_iff_exists]
    exact ⟨m, Option.filter_eq_some_iff.mpr ⟨hm, hof i r m hr.1 hm hr.2⟩⟩
  · exact (hfolder i f hf).resolve_left fun hu => hv (hfv.symm.trans hu)
  · exact (hmessage i m hm).resolve_left fun hu => hv (hmv.symm.trans hu)
  · refine (hrecipient i r hr).resolve_left ?_
    rintro ⟨m', hm', hu⟩
    obtain ⟨m, hm, hmv⟩ := hrv
    obtain rfl := Option.some.inj (hm.symm.trans hm')
    exact hv (hmv.symm.trans hu)

end

/-! ## Deletes that cascade -/

section Cascade

open FolderDAL

/-- With a folder, `ids` holds the folders right below it. -/
def Closed (t : Table FolderData) (ids : List ℤ) : Prop :=
  ∀ i f p, t.get? i = some f → f.parentId = some p → p ∈ ids → i ∈ ids

/-- The next generation: the rows right below `ids` that are not among them. -/
theorem mem_below {t : Table FolderData} {ids : List ℤ} {r : ℤ × FolderData} :
    r ∈ (t.rows.filter fun r => r.1 ∉ ids ∧ ∃ p ∈ r.2.parentId, p ∈ ids) ↔
      t.get? r.1 = some r.2 ∧ r.1 ∉ ids ∧ ∃ p, r.2.parentId = some p ∧ p ∈ ids := by
  rw [List.mem_filter, Table.mem_rows_iff]
  simp

/-- A closed set of folders has no more below it. -/
theorem cascade_of_closed {t : Table FolderData} {ids : List ℤ} (h : Closed t ids) :
    ∀ n, cascade t n ids = ids
  | 0 => rfl
  | n + 1 => by
      have hnone : (t.rows.filter fun r => r.1 ∉ ids ∧ ∃ p ∈ r.2.parentId, p ∈ ids) = [] := by
        refine List.eq_nil_iff_forall_not_mem.mpr fun r hr => ?_
        obtain ⟨hrow, hout, p, hp, hin⟩ := mem_below.mp hr
        exact hout (h _ _ p hrow hp hin)
      rw [cascade, hnone, List.map_nil, List.append_nil]
      exact cascade_of_closed h n

/-- A generation that is not the last takes in a row. -/
theorem length_outside_lt {t : Table FolderData} {ids : List ℤ} (h : ¬ Closed t ids) :
    (t.rows.filter fun r => r.1 ∉ ids ++ (t.rows.filter fun r =>
      r.1 ∉ ids ∧ ∃ p ∈ r.2.parentId, p ∈ ids).map (·.1)).length <
      (t.rows.filter fun r => r.1 ∉ ids).length := by
  generalize hbelow : (t.rows.filter fun r => r.1 ∉ ids ∧ ∃ p ∈ r.2.parentId, p ∈ ids) = below
  have hsplit : (t.rows.filter fun r => r.1 ∉ ids ++ below.map (·.1)) =
      (t.rows.filter fun r => r.1 ∉ ids).filter fun r => r.1 ∉ below.map (·.1) := by
    rw [List.filter_filter]
    congr 1
    ext r
    rw [← Bool.decide_and, decide_eq_decide, List.mem_append, not_or, and_comm]
  simp only [Closed, not_forall] at h
  obtain ⟨i, f, p, hf, hp, hin, hi⟩ := h
  have hmem : (i, f) ∈ below := by
    rw [← hbelow, mem_below]
    exact ⟨hf, hi, p, hp, hin⟩
  rw [hsplit]
  refine List.length_filter_lt_length_iff_exists.mpr ⟨(i, f), ?_, ?_⟩
  · exact List.mem_filter.mpr ⟨Table.mem_rows_iff.mpr hf, by simpa using hi⟩
  · simpa using ⟨f, hmem⟩

/-- After as many generations as there are rows, nothing is left below. -/
theorem closed_cascade {t : Table FolderData} :
    ∀ (n : ℕ) (ids : List ℤ), (t.rows.filter fun r => r.1 ∉ ids).length ≤ n →
      Closed t (cascade t n ids)
  | 0, ids, h => by
      intro i f p hf _ _
      have hnil := List.length_eq_zero_iff.mp (Nat.le_zero.mp h)
      by_contra hi
      have hmem : (i, f) ∈ t.rows.filter fun r => r.1 ∉ ids :=
        List.mem_filter.mpr ⟨Table.mem_rows_iff.mpr hf, by simpa [cascade] using hi⟩
      rw [hnil] at hmem
      exact absurd hmem (by simp)
  | n + 1, ids, h => by
      by_cases hclosed : Closed t ids
      · rw [cascade_of_closed hclosed]
        exact hclosed
      · have hlt := length_outside_lt hclosed
        rw [cascade]
        exact closed_cascade n _ (by omega)

/-- **What lies below folders of `u` is `u`'s.** -/
theorem owner_of_mem_cascade {db : DB} (ht : Tenants db) {u : ℤ} :
    ∀ (n : ℕ) (ids : List ℤ), (∀ i ∈ ids, ∀ f, db.folders.get? i = some f → f.userId = u) →
      ∀ i ∈ cascade db.folders n ids, ∀ f, db.folders.get? i = some f → f.userId = u
  | 0, _, h => h
  | n + 1, ids, h => by
      refine owner_of_mem_cascade ht n _ fun i hi f hf => ?_
      rcases List.mem_append.mp hi with hi | hi
      · exact h i hi f hf
      · obtain ⟨r, hr, rfl⟩ := List.mem_map.mp hi
        obtain ⟨hrow, -, p, hp, hin⟩ := mem_below.mp hr
        obtain ⟨g, hg, huser⟩ := ht.parent _ _ p hrow hp
        obtain rfl := Option.some.inj (hrow.symm.trans hf)
        exact huser.symm.trans (h p hin g hg)

/-- A folder of `u` goes, with all that is below and in it. -/
theorem within_deleteFolder {db : DB} (ht : Tenants db) {u id : ℤ} (hid : OwnsFolder u db id) :
    Within u db (hardDelete db id) := by
  have hclosed : Closed db.folders (gone db id) :=
    closed_cascade _ _ (List.length_filter_le _ _)
  have howner : ∀ i ∈ gone db id, ∀ f, db.folders.get? i = some f → f.userId = u :=
    owner_of_mem_cascade ht _ _ fun i hi => by
      obtain rfl := List.mem_singleton.mp hi
      exact hid.owner
  have hmail : ∀ i m, db.messages.get? i = some m → m.folderId ∈ gone db id → m.userId = u := by
    intro i m hm hgone
    obtain ⟨f, hf, hu⟩ := ht.message i m hm
    exact hu.symm.trans (howner _ hgone f hf)
  refine within_filter ht _ _ _ (fun i f hf => ?_) (fun i m hm => ?_) (fun i r hr => ?_)
    (fun i f p g hf hp hg hkeep => ?_) (fun i m f hm hf hkeep => hkeep) fun i r m hr hm hkeep => ?_
  · rw [decide_eq_true_eq, ← imp_iff_or_not]
    exact fun hgone => howner i hgone f hf
  · rw [decide_eq_true_eq, ← imp_iff_or_not]
    exact hmail i m hm
  · obtain ⟨m, hm⟩ := Option.isSome_iff_exists.mp (ht.recipient i r hr)
    rw [hm, Option.all_some, decide_eq_true_eq, ← imp_iff_or_not]
    exact fun hgone => ⟨m, hm, hmail _ m hm hgone⟩
  · rw [decide_eq_true_eq] at hkeep ⊢
    exact fun hgone => hkeep (hclosed i f p hf hp hgone)
  · rw [hm] at hkeep
    exact hkeep

/-- A message of `u` goes, with its recipients. -/
theorem within_hardDelete {db : DB} (ht : Tenants db) {u id : ℤ} (hid : OwnsMessage u db id) :
    Within u db (MessageDAL.hardDelete db id) := by
  have hall : db.folders.filter (fun _ _ => true) = db.folders := Table.ext (List.filter_true _) rfl
  have hwithin := within_filter (u := u) ht (fun _ _ => true) (fun i _ => i ≠ id)
    (fun _ r => r.messageId ≠ id) (fun _ _ _ => .inr rfl) (fun i m hm => ?_) (fun i r hr => ?_)
    (fun _ _ _ _ _ _ _ _ => rfl) (fun _ _ _ _ _ _ => rfl) fun _ _ _ _ _ hkeep => hkeep
  · rw [hall] at hwithin
    exact hwithin
  · rw [decide_eq_true_eq, ← imp_iff_or_not]
    rintro rfl
    exact hid.owner m hm
  · rw [decide_eq_true_eq, ← imp_iff_or_not]
    rintro rfl
    obtain ⟨m, hm⟩ := Option.isSome_iff_exists.mp (ht.recipient i r hr)
    exact ⟨m, hm, hid.owner m hm⟩

end Cascade

/-! ## The writes -/

/-- The write names ids of `u` only, and what it inserts is `u`'s. -/
def Mine (u : ℤ) (db : DB) : Write → Prop
  | .assignUID m folderId => m.userId = u ∧ OwnsFolder u db folderId
  | .updateSeen id _ | .updateDeleted id _ | .updateFlags id _ | .hardDelete id =>
    OwnsMessage u db id
  | .moveToFolder id folderId _ => OwnsMessage u db id ∧ OwnsFolder u db folderId
  | .expunge ids => ∀ id ∈ ids, OwnsMessage u db id
  | .copy m _ folderId => m.userId = u ∧ OwnsFolder u db m.folderId ∧ OwnsFolder u db folderId
  | .insertFolder f => f.userId = u ∧ ∀ p, f.parentId = some p → OwnsFolder u db p
  | .updateFolder f => (f.userId = u ∧ ∀ p, f.parentId = some p → OwnsFolder u db p) ∧
      ∀ id, f.id = some id → OwnsFolder u db id
  | .deleteFolder id | .incrementNextUID id | .clearRecentByFolder id | .setSubscribed id _ =>
    OwnsFolder u db id

section

variable {u : ℤ} {db : DB} {id : ℤ}

/-- Owning a folder that is there is having it. -/
theorem OwnsFolder.hasFolder (h : OwnsFolder u db id) (hsome : (db.folders.get? id).isSome = true) :
    HasFolder u db id := by
  obtain ⟨f, hf⟩ := Option.isSome_iff_exists.mp hsome
  exact ⟨f, hf, h.owner f hf⟩

/-- The parent of a row that refers to what is there. -/
theorem hasFolder_of_refers {f : FolderData} (hrefs : FolderDAL.refers db f = true)
    (hp : ∀ p, f.parentId = some p → OwnsFolder u db p) :
    ∀ p, f.parentId = some p → HasFolder u db p := by
  intro p hparent
  rw [FolderDAL.refers, Bool.and_eq_true, hparent] at hrefs
  exact (hp p hparent).hasFolder hrefs.2

/-- An update of a folder of `u` that leaves its user and its parent alone. -/
theorem within_modifyFolder (ht : Tenants db) (hid : OwnsFolder u db id)
    {g : FolderData → FolderData} (huser : ∀ f, (g f).userId = f.userId)
    (hparent : ∀ f, (g f).parentId = f.parentId) :
    Within u db { db with folders := db.folders.modify id g } := by
  refine within_mapFolders ht fun i f hf => ?_
  split_ifs with hi
  · subst hi
    have hu := hid.owner f hf
    refine .inr ⟨hu, (huser f).trans hu, fun p hp => ?_⟩
    rw [hparent] at hp
    exact hu ▸ ht.parent i f p hf hp
  · exact .inl rfl

/-- Flags of the user's own message. -/
theorem within_setFlags (ht : Tenants db) (hid : OwnsMessage u db id) (g : Flags → Flags) :
    Within u db (MessageDAL.setFlags db id g) := by
  refine within_mapMessages ht fun i m hm => ?_
  split_ifs with hi
  · subst hi
    have hu := hid.owner m hm
    exact .inr ⟨hu, hu, hu ▸ ht.message i m hm⟩
  · exact .inl rfl

/-- A uid of the user's own folder. -/
theorem within_incrementNextUID (ht : Tenants db) (hid : OwnsFolder u db id) :
    Within u db (FolderDAL.incrementNextUID db id) :=
  within_modifyFolder ht hid (fun _ => rfl) fun _ => rfl

theorem within_clearRecentByFolder (ht : Tenants db) (hid : OwnsFolder u db id) :
    Within u db (MessageDAL.clearRecentByFolder db id) := by
  refine within_mapMessages ht fun i m hm => ?_
  split_ifs with hi
  · have hu := ht.userId_eq hid hm hi
    exact .inr ⟨hu, hu, hu ▸ ht.message i m hm⟩
  · exact .inl rfl

/-- Expunging messages of the user's own. -/
theorem within_expunge :
    ∀ {ids : List ℤ} {db : DB}, Tenants db → (∀ id ∈ ids, OwnsMessage u db id) →
      Within u db (ids.foldl MessageDAL.hardDelete db)
  | [], _, ht, _ => .refl ht
  | id :: ids, db, ht, h => by
      obtain ⟨hid, hids⟩ := List.forall_mem_cons.mp h
      have hstep := within_hardDelete ht hid
      exact hstep.trans (within_expunge hstep.tenants fun i hi => (hids i hi).ages hstep.ages)

/-- A message of `u` comes to a folder of `u`, and `next_uid` moves. -/
theorem within_deliver (ht : Tenants db) {m : MessageData} (hu : m.userId = u)
    (hm : HasFolder u db m.folderId) (recipients : List Recipient) (hid : OwnsFolder u db id) :
    Within u db (FolderDAL.incrementNextUID { db with
      messages := db.messages.insert m
      recipients := recipientRows (db.messages.seq + 1) recipients db.recipients } id) := by
  have hstep := within_insertMessage ht hu hm recipients
  exact hstep.trans (within_incrementNextUID hstep.tenants (hid.ages hstep.ages))

/-- **A write on behalf of `u` changes no row of another user.** -/
theorem Effect.within {w : Write} {db' : DB} {a : Answer} (ht : Tenants db) (hw : Mine u db w)
    (h : Effect db w db' a) : Within u db db' := by
  cases h with
  | @assignUID m folderId f hf hfree huser =>
    have hm : HasFolder u db folderId := ⟨f, hf, hw.2.owner f hf⟩
    exact within_deliver (m := { m with folderId, uid := f.nextUid }.row) ht hw.1 hm [] hw.2
  | updateSeen => exact within_setFlags ht hw _
  | updateDeleted => exact within_setFlags ht hw _
  | updateFlags => exact within_setFlags ht hw _
  | @moveToFolder id folderId newUid hfree hf =>
    have hstep : Within u db { db with
        messages := db.messages.modify id fun m => { m with folderId, uid := newUid } } := by
      refine within_mapMessages ht fun i m hm => ?_
      split_ifs with hi
      · subst hi
        have hu := hw.1.owner m hm
        exact .inr ⟨hu, hu, hw.2.hasFolder hf⟩
      · exact .inl rfl
    exact hstep.trans (within_incrementNextUID hstep.tenants (hw.2.ages hstep.ages))
  | moveNothing hm => exact within_incrementNextUID ht hw.2
  | expunge => exact within_expunge ht hw
  | hardDelete => exact within_hardDelete ht hw
  | copy hfree huser hf =>
    exact within_deliver (m := Message.row _) ht hw.1 (hw.2.1.hasFolder hf) _ hw.2.2
  | insertFolder hrefs => exact within_insertFolder ht hw.1 (hasFolder_of_refers hrefs hw.2)
  | @updateFolder f id hid hrefs =>
    refine within_mapFolders ht fun i f' hf' => ?_
    split_ifs with hi
    · subst hi
      refine .inr ⟨(hw.2 i hid).owner f' hf', hw.1.1, ?_⟩
      exact hasFolder_of_refers (hrefs (Option.isSome_of_eq_some hf')) hw.1.2
    · exact .inl rfl
  | deleteFolder => exact within_deleteFolder ht hw
  | incrementNextUID => exact within_incrementNextUID ht hw
  | clearRecentByFolder => exact within_clearRecentByFolder ht hw
  | setSubscribed => exact within_modifyFolder ht hw (fun _ => rfl) fun _ => rfl

/-- What is `u`'s stays `u`'s until the write is made. -/
theorem Mine.ages {w : Write} {db' : DB} (h : Mine u db w) (ha : Ages db db') : Mine u db' w := by
  cases w with
  | assignUID => exact ⟨h.1, h.2.ages ha⟩
  | updateSeen | updateDeleted | updateFlags | hardDelete => exact OwnsMessage.ages h ha
  | moveToFolder => exact ⟨h.1.ages ha, h.2.ages ha⟩
  | expunge => exact fun id hid => (h id hid).ages ha
  | copy => exact ⟨h.1, h.2.1.ages ha, h.2.2.ages ha⟩
  | insertFolder => exact ⟨h.1, fun p hp => (h.2 p hp).ages ha⟩
  | updateFolder =>
    exact ⟨⟨h.1.1, fun p hp => (h.1.2 p hp).ages ha⟩, fun id hid => (h.2 id hid).ages ha⟩
  | deleteFolder | incrementNextUID | clearRecentByFolder | setSubscribed =>
    exact OwnsFolder.ages h ha

end

/-! ## The queries

What a query on behalf of `u` answers is decided by the rows of `u`. -/

section Queries

variable {u : ℤ} {db db' : DB} {id : ℤ}

/-- The same rows give the same folder by its name. -/
theorem findByName_congr (h : SameRows u db db') (name : Bytes) :
    FolderDAL.findByName db u name = FolderDAL.findByName db' u name := by
  rw [FolderDAL.findByName, h.folders.find?_rows, FolderDAL.findByName]
  · exact fun i f _ hq => (of_decide_eq_true hq).1
  · exact fun i f _ hq => (of_decide_eq_true hq).1

/-- And the same list of folders. -/
theorem findByUser_congr (h : SameRows u db db') (limit offset : ℕ) :
    FolderDAL.findByUser db u limit offset = FolderDAL.findByUser db' u limit offset := by
  rw [FolderDAL.findByUser, h.folders.filter_rows, FolderDAL.findByUser]
  · exact fun i f _ hq => of_decide_eq_true hq
  · exact fun i f _ hq => of_decide_eq_true hq

/-- And the same folder by its id. -/
theorem findFolder_congr (h : SameRows u db db') (hid : OwnsFolder u db id)
    (hid' : OwnsFolder u db' id) : FolderDAL.findByID db id = FolderDAL.findByID db' id := by
  rw [FolderDAL.findByID, h.folders.get?_eq hid.owner hid'.owner, FolderDAL.findByID]

/-- And the same message by its id. -/
theorem findMessage_congr (h : SameRows u db db') (hid : OwnsMessage u db id)
    (hid' : OwnsMessage u db' id) : MessageDAL.findByID db id = MessageDAL.findByID db' id := by
  rw [MessageDAL.findByID, h.messages.get?_eq hid.owner hid'.owner, MessageDAL.findByID]

variable (ht : Tenants db) (ht' : Tenants db')

include ht ht'

/-- A selection of messages in a folder of `u`. -/
theorem select_congr (h : SameRows u db db') (hid : OwnsFolder u db id)
    (hid' : OwnsFolder u db' id) {p : MessageData → Bool} (hp : ∀ m, p m = true → m.folderId = id)
    (limit offset : ℕ) :
    MessageDAL.select db p limit offset = MessageDAL.select db' p limit offset := by
  rw [MessageDAL.select, h.messages.filter_rows, MessageDAL.select]
  · exact fun i m hm hq => ht.userId_eq hid hm (hp m hq)
  · exact fun i m hm hq => ht'.userId_eq hid' hm (hp m hq)

/-- And the same message by its uid. -/
theorem findByUID_congr (h : SameRows u db db') (hid : OwnsFolder u db id)
    (hid' : OwnsFolder u db' id) (uid : ℤ) :
    MessageDAL.findByUID db id uid = MessageDAL.findByUID db' id uid := by
  rw [MessageDAL.findByUID, h.messages.find?_rows, MessageDAL.findByUID]
  · exact fun i m hm hq => ht.userId_eq hid hm (of_decide_eq_true hq).1
  · exact fun i m hm hq => ht'.userId_eq hid' hm (of_decide_eq_true hq).1

/-- The recipients of a message of `u`; of one that is gone there are none. -/
theorem findByMessage_congr (h : SameRows u db db') (hid : OwnsMessage u db id)
    (hid' : OwnsMessage u db' id) :
    RecipientDAL.findByMessage db id = RecipientDAL.findByMessage db' id := by
  rw [RecipientDAL.findByMessage, h.recipients.filter_rows, RecipientDAL.findByMessage]
  · intro i r hr hq
    obtain ⟨m, hm⟩ := Option.isSome_iff_exists.mp (ht.recipient i r hr)
    have hmid : r.messageId = id := of_decide_eq_true hq
    exact ⟨m, hm, hid.owner m (hmid ▸ hm)⟩
  · intro i r hr hq
    obtain ⟨m, hm⟩ := Option.isSome_iff_exists.mp (ht'.recipient i r hr)
    have hmid : r.messageId = id := of_decide_eq_true hq
    have hu := hid'.owner m (hmid ▸ hm)
    exact ⟨m, (h.messages _ m hu).mpr hm, hu⟩

end Queries

end MailStack.Store
