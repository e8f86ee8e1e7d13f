import MailStack.Store.Accounts
import MailStack.Store.Tenant
import MailStack.Store.Uid

/-!
# Store/Ledger — the uids of a folder, over the whole life of the database

The operations run one at a time, and any write of theirs may fail.  The foreign keys hold at every
moment (`Keyed`), and the ledger of a run — every place a message was ever given, in order — has
the uids of a folder in strictly ascending order, whatever has become of the messages since.

What `copy`, `moveToFolder` and `renameFolder` read before they take the lock is still so when they
have it, no one else being there: their writes are `Timely`.
-/

open Prog

namespace MailStack.Store

/-- The foreign keys of messages and recipients. -/
structure Keyed (db : DB) : Prop where
  user : ∀ i m, db.messages.get? i = some m → (db.users.get? m.userId).isSome
  folder : InFolders db
  recipient : ∀ i r, db.recipients.get? i = some r → (db.messages.get? r.messageId).isSome

/-- **What holds of the tables at any moment.** -/
structure Consistent (db : DB) : Prop extends Keyed db where
  one_le : ∀ i m, db.messages.get? i = some m → 1 ≤ m.uid
  below : UidBelow db
  distinct : ∀ i j m m', db.messages.get? i = some m → db.messages.get? j = some m' →
    m.folderId = m'.folderId → m.uid = m'.uid → i = j

/-! ## The foreign keys -/

theorem keyed_empty : Keyed .empty := by
  constructor <;> simp [InFolders, DB.empty]

section Keys

variable {db db' : DB}

/-- No user, folder or message goes, and every new reference is good. -/
theorem Keyed.grow (h : Keyed db)
    (husers : ∀ i, (db.users.get? i).isSome → (db'.users.get? i).isSome)
    (hfolders : ∀ i, (db.folders.get? i).isSome → (db'.folders.get? i).isSome)
    (hmessages : ∀ i, (db.messages.get? i).isSome → (db'.messages.get? i).isSome)
    (hnew : ∀ i m', db'.messages.get? i = some m' →
      (db.users.get? m'.userId).isSome ∧ (db.folders.get? m'.folderId).isSome)
    (hrecipients : ∀ i r, db'.recipients.get? i = some r →
      db.recipients.get? i = some r ∨ (db'.messages.get? r.messageId).isSome) : Keyed db' where
  user i m' hm' := husers _ (hnew i m' hm').1
  folder i m' hm' := hfolders _ (hnew i m' hm').2
  recipient i r hr := by
    rcases hrecipients i r hr with hold | hnew
    · exact hmessages _ (h.recipient i r hold)
    · exact hnew

/-- The references a message of the database makes. -/
theorem Keyed.refs (h : Keyed db) {i : ℤ} {m : MessageData} (hm : db.messages.get? i = some m) :
    (db.users.get? m.userId).isSome ∧ (db.folders.get? m.folderId).isSome :=
  ⟨h.user i m hm, h.folder i m hm⟩

/-- A change of folders that drops no row. -/
theorem Keyed.of_folders (h : Keyed db) {t : Table FolderData}
    (ht : ∀ i, (db.folders.get? i).isSome → (t.get? i).isSome) : Keyed { db with folders := t } :=
  h.grow (fun _ hi => hi) ht (fun _ hi => hi) (fun _ _ hm => h.refs hm) fun _ _ hr => .inl hr

/-- A change of users that drops no row. -/
theorem Keyed.of_users (h : Keyed db) {t : Table UserData}
    (ht : ∀ i, (db.users.get? i).isSome → (t.get? i).isSome) : Keyed { db with users := t } :=
  h.grow ht (fun _ hi => hi) (fun _ hi => hi) (fun _ _ hm => h.refs hm) fun _ _ hr => .inl hr

/-- New recipients belong to a message that is there. -/
theorem Keyed.of_recipients (h : Keyed db) {t : Table RecipientData}
    (ht : ∀ i r, t.get? i = some r →
      db.recipients.get? i = some r ∨ (db.messages.get? r.messageId).isSome) :
    Keyed { db with recipients := t } :=
  h.grow (fun _ hi => hi) (fun _ hi => hi) (fun _ hi => hi) (fun _ _ hm => h.refs hm) ht

/-- An update that keeps the references of every message good. -/
theorem Keyed.of_map (h : Keyed db) {g : ℤ → MessageData → MessageData}
    (hg : ∀ i m, db.messages.get? i = some m →
      (g i m).userId = m.userId ∧ (db.folders.get? (g i m).folderId).isSome) :
    Keyed { db with messages := db.messages.map g } := by
  refine h.grow (fun _ hi => hi) (fun _ hi => hi) (fun i hi => ?_) (fun i m' hm' => ?_)
    fun _ _ hr => .inl hr
  · rw [Table.get?_map, Option.isSome_map]
    exact hi
  · rw [Table.get?_map] at hm'
    obtain ⟨m, hm, rfl⟩ := Option.map_eq_some_iff.mp hm'
    obtain ⟨huser, hfolder⟩ := hg i m hm
    exact ⟨huser ▸ h.user i m hm, hfolder⟩

theorem Keyed.setFlags (h : Keyed db) (id : ℤ) (g : Flags → Flags) :
    Keyed (MessageDAL.setFlags db id g) := by
  refine h.of_map fun i m hm => ?_
  split_ifs <;> exact ⟨rfl, h.folder i m hm⟩

theorem Keyed.incrementNextUID (h : Keyed db) (id : ℤ) :
    Keyed (FolderDAL.incrementNextUID db id) :=
  h.of_folders fun i hi => by rwa [Table.isSome_get?_modify]

/-- A message comes, with its recipients. -/
theorem Keyed.insert (h : Keyed db) {m : MessageData} (huser : (db.users.get? m.userId).isSome)
    (hfolder : (db.folders.get? m.folderId).isSome) (recipients : List Recipient) :
    Keyed { db with
      messages := db.messages.insert m
      recipients := recipientRows (db.messages.seq + 1) recipients db.recipients } := by
  refine h.grow (fun _ hi => hi) (fun _ hi => hi) (fun i hi => ?_) (fun i m' hm' => ?_)
    fun i r hr => ?_
  · exact Table.isSome_get?_insert hi
  · rw [Table.get?_insert] at hm'
    split_ifs at hm'
    · obtain rfl := Option.some.inj hm'
      exact ⟨huser, hfolder⟩
    · exact h.refs hm'
  · refine (of_recipientRows recipients hr).imp_right fun hid => ?_
    rw [Table.get?_insert, if_pos hid]
    rfl

/-- With a message go its recipients. -/
theorem Keyed.hardDelete (h : Keyed db) (id : ℤ) : Keyed (MessageDAL.hardDelete db id) where
  user i m hm := by
    rw [MessageDAL.hardDelete_messages, Table.get?_erase] at hm
    split_ifs at hm
    exact h.user i m hm
  folder i m hm := by
    rw [MessageDAL.hardDelete_messages, Table.get?_erase] at hm
    split_ifs at hm
    exact h.folder i m hm
  recipient i r hr := by
    rw [MessageDAL.hardDelete_recipients, Table.get?_filter, Option.filter_eq_some_iff] at hr
    obtain ⟨hr, hne⟩ := hr
    rw [MessageDAL.hardDelete_messages, Table.get?_erase, if_neg (by simpa using hne)]
    exact h.recipient i r hr

/-- Expunged messages take their recipients with them. -/
theorem Keyed.expunge : ∀ {db : DB} (ids : List ℤ), Keyed db →
    Keyed (ids.foldl MessageDAL.hardDelete db)
  | _, [], h => h
  | _, id :: ids, h => Keyed.expunge ids (h.hardDelete id)

/-- Rows go, but none that another refers to: what a `DELETE` that cascades does. -/
theorem Keyed.cascade (h : Keyed db) {u : Table UserData} {stays : MessageData → Bool}
    {kept : ℤ → FolderData → Bool}
    (huser : ∀ m, stays m → (db.users.get? m.userId).isSome → (u.get? m.userId).isSome)
    (hfolder : ∀ m f, stays m → db.folders.get? m.folderId = some f → kept m.folderId f) :
    Keyed {
      users := u
      folders := db.folders.filter kept
      messages := db.messages.filter fun _ m => stays m
      recipients := db.recipients.filter fun _ r => (db.messages.get? r.messageId).all stays } where
  user i m hm := by
    rw [Table.get?_filter, Option.filter_eq_some_iff] at hm
    exact huser m hm.2 (h.user i m hm.1)
  folder i m hm := by
    rw [Table.get?_filter, Option.filter_eq_some_iff] at hm
    obtain ⟨f, hf⟩ := Option.isSome_iff_exists.mp (h.folder i m hm.1)
    rw [Table.get?_filter, hf, Option.filter_some, if_pos (hfolder m f hm.2 hf)]
    rfl
  recipient i r hr := by
    rw [Table.get?_filter, Option.filter_eq_some_iff] at hr
    obtain ⟨hr, hstays⟩ := hr
    obtain ⟨m, hm⟩ := Option.isSome_iff_exists.mp (h.recipient i r hr)
    rw [hm, Option.all_some] at hstays
    rw [Table.get?_filter, hm, Option.filter_some, if_pos hstays]
    rfl

/-- A deleted folder takes its messages along, by the cascade. -/
theorem Keyed.deleteFolder (h : Keyed db) (id : ℤ) : Keyed (FolderDAL.hardDelete db id) :=
  h.cascade (u := db.users) (fun _ _ hu => hu) fun _ _ hm _ => hm

/-- A deleted user takes everything along, by the cascade. -/
theorem Keyed.deleteUser (h : Keyed db) (id : ℤ) : Keyed (UserDAL.hardDelete db id) := by
  refine h.cascade (fun m hm hu => ?_) fun m _ hm _ => ?_
  · have hne : m.userId ≠ id := (of_decide_eq_true hm).1
    rwa [Table.get?_erase, if_neg hne]
  · exact decide_eq_true (of_decide_eq_true hm).2

end Keys

/-- **The foreign keys survive every write.** -/
theorem Effect.keyed {db db' : DB} {w : Write} {a : Answer} (h : Effect db w db' a)
    (hk : Keyed db) : Keyed db' := by
  cases h with
  | @assignUID m folderId f hf hfree huser =>
    have hrow := hk.insert (m := { m with folderId, uid := f.nextUid : Message }.row) huser
      (Option.isSome_iff_exists.mpr ⟨f, hf⟩) []
    exact hrow.incrementNextUID folderId
  | @copy m recipients folderId hfree huser hf =>
    exact (hk.insert (m := m.row) huser hf recipients).incrementNextUID folderId
  | @moveToFolder id folderId newUid hfree hf =>
    refine Keyed.incrementNextUID (hk.of_map fun i m hm => ?_) folderId
    split_ifs
    · exact ⟨rfl, hf⟩
    · exact ⟨rfl, hk.folder i m hm⟩
  | moveNothing => exact hk.incrementNextUID _
  | updateSeen | updateDeleted | updateFlags => exact hk.setFlags _ _
  | @expunge ids => exact hk.expunge ids
  | hardDelete => exact hk.hardDelete _
  | insertFolder => exact hk.of_folders fun i hi => Table.isSome_get?_insert hi
  | updateFolder | setSubscribed =>
    exact hk.of_folders fun i hi => by rwa [Table.isSome_get?_modify]
  | deleteFolder => exact hk.deleteFolder _
  | incrementNextUID => exact hk.incrementNextUID _
  | clearRecentByFolder =>
    refine hk.of_map fun i m hm => ?_
    split_ifs <;> exact ⟨rfl, hk.folder i m hm⟩

/-- No write leaves a row that refers to nothing. -/
theorem StoreEffect.keyed {db db' : DB} {w : StoreWrite} {a : Answer} (h : StoreEffect db w db' a)
    (hk : Keyed db) : Keyed db' := by
  cases h with
  | message h => exact h.keyed hk
  | insertRecipient hmessage =>
    refine hk.of_recipients fun i r' hr' => ?_
    rw [Table.get?_insert] at hr'
    split_ifs at hr'
    · obtain rfl := Option.some.inj hr'
      exact .inr hmessage
    · exact .inl hr'
  | deleteRecipient =>
    refine hk.of_recipients fun i r' hr' => .inl ?_
    rw [Table.get?_erase] at hr'
    split_ifs at hr'
    exact hr'
  | insertUser => exact hk.of_users fun i hi => Table.isSome_get?_insert hi
  | updateUser | updatePassword =>
    exact hk.of_users fun i hi => by rwa [Table.isSome_get?_modify]
  | updateProfile => exact hk
  | deleteUser => exact hk.deleteUser _

/-! ## Places -/

/-- A message was given that uid in that folder. -/
structure Placement where
  id : ℤ
  folderId : ℤ
  uid : ℤ
  deriving DecidableEq

/-- Where a row is. -/
def place (r : ℤ × MessageData) : Placement := ⟨r.1, r.2.folderId, r.2.uid⟩

/-- What a write handed out: where the messages are now that were not there before. -/
def placements (db db' : DB) : List Placement :=
  (db'.messages.rows.map place).filter fun p =>
    (db.messages.get? p.id).all fun m => place (p.id, m) ≠ p

/-- What a run handed out, in order. -/
def handedOut (ws : List (DB × DB)) : List Placement := ws.flatMap fun w => placements w.1 w.2

/-- A placement of a step is a place that a message did not have before it. -/
theorem mem_placements {db db' : DB} {p : Placement} :
    p ∈ placements db db' ↔ ∃ m', db'.messages.get? p.id = some m' ∧ place (p.id, m') = p ∧
      ∀ m, db.messages.get? p.id = some m → place (p.id, m) ≠ p := by
  rw [placements, List.mem_filter, List.mem_map]
  constructor
  · rintro ⟨⟨⟨i, m'⟩, hm', rfl⟩, hnew⟩
    refine ⟨m', Table.mem_rows_iff.mp hm', rfl, fun m hm => ?_⟩
    rw [hm, Option.all_some] at hnew
    exact of_decide_eq_true hnew
  · rintro ⟨m', hm', hp, hnew⟩
    refine ⟨⟨(p.id, m'), Table.mem_rows_iff.mpr hm', hp⟩, ?_⟩
    simpa [Option.all_eq_true] using hnew

/-- A step places a message once. -/
theorem pairwise_id_placements (db db' : DB) : (placements db db').Pairwise (·.id < ·.id) :=
  List.Pairwise.filter _ (List.pairwise_map.mpr db'.messages.sorted)

/-- What a write does to places: `next_uid` does not decrease, new folders count from one or more,
and at most one message gets a place — the folder's `next_uid`, which grows. -/
structure Placing (db db' : DB) : Prop where
  later : Later db db'
  fresh : ∀ i f', db'.folders.get? i = some f' → db.folders.seq < i → 1 ≤ f'.nextUid
  unique : ∀ p ∈ placements db db', ∀ q ∈ placements db db', p.id = q.id
  next : ∀ p ∈ placements db db', ∃ f, db.folders.get? p.folderId = some f ∧ p.uid = f.nextUid ∧
    ∀ f', db'.folders.get? p.folderId = some f' → p.uid < f'.nextUid

/-- No message gets a place. -/
theorem Placing.of_stays {db db' : DB} (hl : Later db db') (hs : Stays db db')
    (hfresh : ∀ i f', db'.folders.get? i = some f' → db.folders.seq < i → 1 ≤ f'.nextUid) :
    Placing db db' := by
  have hnone : ∀ p, p ∉ placements db db' := by
    intro p hp
    obtain ⟨m', hm', hplace, hnew⟩ := mem_placements.mp hp
    obtain ⟨m, hm, hfolder, huid⟩ := hs p.id m' hm'
    refine hnew m hm ?_
    rw [place] at hplace ⊢
    rwa [← hfolder, ← huid]
  exact ⟨hl, hfresh, fun p hp => absurd hp (hnone p), fun p hp => absurd hp (hnone p)⟩

/-- A write that moves nothing places nothing. -/
theorem Placing.of_stays_of_seq {db db' : DB} (hl : Later db db') (hs : Stays db db')
    (hseq : db'.folders.seq = db.folders.seq) : Placing db db' := by
  refine .of_stays hl hs fun i f' hf' hi => ?_
  have := Table.le_seq_of_get? hf'
  omega

/-- One message gets the folder's `next_uid`. -/
theorem Placing.of_place {db db' : DB} (id : ℤ) {folderId : ℤ} {f : FolderData}
    (hf : db.folders.get? folderId = some f)
    (hfolders : db'.folders =
      db.folders.modify folderId fun d => { d with nextUid := d.nextUid + 1 })
    (hm : ∀ i m', db'.messages.get? i = some m' →
      db.messages.get? i = some m' ∨ (i = id ∧ m'.folderId = folderId ∧ m'.uid = f.nextUid)) :
    Placing db db' := by
  have hone : ∀ p ∈ placements db db', p = ⟨id, folderId, f.nextUid⟩ := by
    intro p hp
    obtain ⟨m', hm', hplace, hnew⟩ := mem_placements.mp hp
    rcases hm p.id m' hm' with hold | ⟨hid, hfolder, huid⟩
    · exact absurd hplace (hnew m' hold)
    · rw [← hplace, place, hid, hfolder, huid]
  refine ⟨?_, fun i f' hf' hi => ?_, fun p hp q hq => ?_, fun p hp => ?_⟩
  · exact Later.of_modify hfolders fun f _ => Int.le_of_lt (Int.lt_succ f.nextUid)
  · have := Table.le_seq_of_get? hf'
    rw [hfolders, Table.seq_modify] at this
    omega
  · rw [hone p hp, hone q hq]
  · rw [hone p hp]
    refine ⟨f, hf, rfl, fun f' hf' => ?_⟩
    rw [hfolders, Table.get?_modify, if_pos rfl, hf] at hf'
    obtain rfl := Option.some.inj hf'
    exact Int.lt_succ _

/-! ## The writes -/

/-- What was read for the write is still so: the uid is `next_uid`, and the folder row has the
present one.  A new folder counts from one or more. -/
def Timely (db : DB) : StoreWrite → Prop
  | .message (.copy m _ folderId) =>
    m.folderId = folderId ∧ ∀ f, db.folders.get? folderId = some f → m.uid = f.nextUid
  | .message (.moveToFolder _ folderId newUid) =>
    ∀ f, db.folders.get? folderId = some f → newUid = f.nextUid
  | .message (.insertFolder f) => 1 ≤ f.nextUid
  | .message (.updateFolder f) =>
    ∀ id f', f.id = some id → db.folders.get? id = some f' → f.nextUid = f'.nextUid
  | _ => True

/-- **A write whose facts still hold places as it should.** -/
theorem Effect.placing {db db' : DB} {w : Write} {a : Answer} (h : Effect db w db' a)
    (hw : Timely db (.message w)) : Placing db db' := by
  cases h with
  | @assignUID m folderId f hf hfree huser =>
    refine Placing.of_place (db.messages.seq + 1) hf rfl fun i m' hm' => ?_
    simp only [FolderDAL.incrementNextUID, Table.get?_insert] at hm'
    split_ifs at hm' with hi
    · obtain rfl := Option.some.inj hm'
      exact .inr ⟨hi, rfl, rfl⟩
    · exact .inl hm'
  | @copy m recipients folderId hfree huser hf =>
    obtain ⟨hfolder, huid⟩ := hw
    subst hfolder
    obtain ⟨f, hf⟩ := Option.isSome_iff_exists.mp hf
    refine Placing.of_place (db.messages.seq + 1) hf rfl fun i m' hm' => ?_
    simp only [FolderDAL.incrementNextUID, Table.get?_insert] at hm'
    split_ifs at hm' with hi
    · obtain rfl := Option.some.inj hm'
      exact .inr ⟨hi, rfl, huid f hf⟩
    · exact .inl hm'
  | @moveToFolder id folderId newUid hfree hf =>
    obtain ⟨f, hf⟩ := Option.isSome_iff_exists.mp hf
    refine Placing.of_place id hf rfl fun i m' hm' => ?_
    simp only [FolderDAL.incrementNextUID, Table.get?_modify] at hm'
    split_ifs at hm' with hi
    · obtain ⟨m, -, rfl⟩ := Option.map_eq_some_iff.mp hm'
      exact .inr ⟨hi, rfl, hw f hf⟩
    · exact .inl hm'
  | moveNothing | incrementNextUID =>
    exact .of_stays_of_seq (later_incrementNextUID db _) (Stays.of_eq rfl) rfl
  | updateSeen | updateDeleted | updateFlags =>
    exact .of_stays_of_seq (Later.of_eq rfl) (stays_setFlags db _ _) rfl
  | @expunge ids =>
    have hfolders := foldl_hardDelete_folders ids db
    refine .of_stays_of_seq (Later.of_eq hfolders) (stays_expunge ids db) (by rw [hfolders])
  | @hardDelete id =>
    exact .of_stays_of_seq (Later.of_eq rfl)
      (Stays.of_filter (MessageDAL.hardDelete_messages db id)) rfl
  | @insertFolder f =>
    refine .of_stays (later_insertFolder db f.row) (Stays.of_eq rfl) fun i f' hf' hi => ?_
    rw [Table.get?_insert] at hf'
    split_ifs at hf'
    · obtain rfl := Option.some.inj hf'
      exact hw
    · rw [Table.get?_eq_none_of_seq_lt hi] at hf'
      exact absurd hf' (by simp)
  | @updateFolder f id hid =>
    exact .of_stays_of_seq (Later.of_modify (g := fun _ => f.row) rfl fun f' hf' =>
      (hw id f' hid hf').ge) (Stays.of_eq rfl) rfl
  | @deleteFolder id =>
    exact .of_stays_of_seq (Later.of_filter (FolderDAL.hardDelete_folders db id))
      (Stays.of_filter (FolderDAL.hardDelete_messages db id)) rfl
  | @clearRecentByFolder id =>
    exact .of_stays_of_seq (Later.of_eq rfl) (stays_clearRecentByFolder db id) rfl
  | @setSubscribed id b =>
    exact .of_stays_of_seq (Later.of_modify (FolderDAL.setSubscribed_folders db id b)
      fun f _ => Int.le_refl _) (Stays.of_eq rfl) rfl

theorem StoreEffect.placing {db db' : DB} {w : StoreWrite} {a : Answer}
    (h : StoreEffect db w db' a) (hw : Timely db w) : Placing db db' := by
  cases h with
  | message h => exact h.placing hw
  | @deleteUser id =>
    exact .of_stays_of_seq (Later.of_filter (p := fun i _ => i ∉ UserDAL.gone db id) rfl)
      (Stays.of_filter (p := fun _ m => UserDAL.outlives db id m) rfl) rfl
  | insertRecipient | deleteRecipient | insertUser | updateUser | updatePassword | updateProfile =>
    exact .of_stays_of_seq (Later.of_eq rfl) (Stays.of_eq rfl) rfl

/-! ## The ledger -/

/-- **The invariant of a run**: `h` is what has been handed out so far. -/
structure Ledger (h : List Placement) (db : DB) : Prop where
  keyed : Keyed db
  next : ∀ i f, db.folders.get? i = some f → 1 ≤ f.nextUid
  live : ∀ i m, db.messages.get? i = some m → place (i, m) ∈ h
  past : ∀ p ∈ h, 1 ≤ p.uid ∧ p.folderId ≤ db.folders.seq ∧
    ∀ f, db.folders.get? p.folderId = some f → p.uid < f.nextUid
  ordered : h.Pairwise fun p q => p.folderId = q.folderId → p.uid < q.uid

/-- An empty database has handed out nothing. -/
theorem ledger_empty : Ledger [] .empty where
  keyed := keyed_empty
  next := by simp [DB.empty]
  live := by simp [DB.empty]
  past := by simp
  ordered := List.Pairwise.nil

/-- A step of the ledger. -/
theorem Ledger.step {h : List Placement} {db db' : DB} (hl : Ledger h db) (hk : Keyed db')
    (hp : Placing db db') : Ledger (h ++ placements db db') db' where
  keyed := hk
  next i f' hf' := by
    rcases Int.lt_or_le db.folders.seq i with hi | hi
    · exact hp.fresh i f' hf' hi
    · obtain ⟨f, hf, hle⟩ := hp.later.2 i f' hf' hi
      exact Int.le_trans (hl.next i f hf) hle
  live i m' hm' := by
    by_cases hstay : ∃ m, db.messages.get? i = some m ∧ place (i, m) = place (i, m')
    · obtain ⟨m, hm, heq⟩ := hstay
      exact List.mem_append_left _ (heq ▸ hl.live i m hm)
    · refine List.mem_append_right _ (mem_placements.mpr ⟨m', hm', rfl, fun m hm heq => ?_⟩)
      exact hstay ⟨m, hm, heq⟩
  past p hmem := by
    rcases List.mem_append.mp hmem with hold | hnew
    · obtain ⟨hone, hle, hlt⟩ := hl.past p hold
      refine ⟨hone, Int.le_trans hle hp.later.1, fun f' hf' => ?_⟩
      obtain ⟨f, hf, hgrow⟩ := hp.later.2 _ f' hf' hle
      exact Int.lt_of_lt_of_le (hlt f hf) hgrow
    · obtain ⟨f, hf, huid, hlt⟩ := hp.next p hnew
      refine ⟨huid ▸ hl.next _ f hf, Int.le_trans (Table.le_seq_of_get? hf) hp.later.1, hlt⟩
  ordered := by
    refine List.pairwise_append.mpr ⟨hl.ordered, ?_, fun p hold q hnew hfolder => ?_⟩
    · refine (pairwise_id_placements db db').imp_of_mem fun {p q} hmem hmem' hlt => ?_
      exact absurd (hp.unique p hmem q hmem') (Int.ne_of_lt hlt)
    · obtain ⟨f, hf, huid, -⟩ := hp.next q hnew
      rw [huid]
      exact (hl.past p hold).2.2 f (hfolder ▸ hf)

/-- Two places of one folder with the same uid are the same. -/
theorem Ledger.eq_of_uid {h : List Placement} {db : DB} (hl : Ledger h db) {p q : Placement}
    (hp : p ∈ h) (hq : q ∈ h) (hfolder : p.folderId = q.folderId) (huid : p.uid = q.uid) :
    p = q := by
  have hpair : h.Pairwise fun p q => p.folderId = q.folderId → p.uid = q.uid → p = q :=
    hl.ordered.imp fun hlt hfolder huid => absurd huid (Int.ne_of_lt (hlt hfolder))
  have hflip : h.Pairwise (flip fun p q => p.folderId = q.folderId → p.uid = q.uid → p = q) :=
    hpair.imp fun hpq hfolder huid => (hpq hfolder.symm huid.symm).symm
  exact hpair.forall_of_forall_of_flip (fun _ _ _ _ => rfl) hflip hp hq hfolder huid

/-- A database with a ledger is consistent. -/
theorem Ledger.consistent {h : List Placement} {db : DB} (hl : Ledger h db) : Consistent db where
  toKeyed := hl.keyed
  one_le i m hm := (hl.past _ (hl.live i m hm)).1
  below i m f hm hf := (hl.past _ (hl.live i m hm)).2.2 f hf
  distinct i j m m' hm hm' hfolder huid :=
    congrArg Placement.id (hl.eq_of_uid (hl.live i m hm) (hl.live j m' hm') hfolder huid)

/-- Where the listed messages are. -/
def listed (ms : List Message) : List Placement :=
  ms.map fun m => ⟨m.id.getD 0, m.folderId, m.uid⟩

/-- The places in a folder, by uid. -/
def placesByUid (db : DB) (folderId : ℤ) : List Placement :=
  ((db.messages.rows.filter fun r => r.2.folderId = folderId).map place).insertionSort
    fun p q => p.uid ≤ q.uid

/-- The page of a folder is a part of its messages in the order of uids. -/
theorem listed_findByFolder (db : DB) (folderId : ℤ) (limit offset : ℕ) :
    listed (MessageDAL.findByFolder db folderId limit offset) =
      ((placesByUid db folderId).drop offset).take limit := by
  have hsort := List.map_insertionSort (fun m m' : Message => m.uid ≤ m'.uid)
    (fun p q : Placement => p.uid ≤ q.uid) (fun m => ⟨m.id.getD 0, m.folderId, m.uid⟩)
    ((db.messages.rows.filter fun r => r.2.folderId = folderId).map fun r =>
      MessageDAL.rowToMessage r.1 r.2) fun _ _ _ _ => Iff.rfl
  rw [List.map_map] at hsort
  rw [listed, MessageDAL.findByFolder, MessageDAL.select, List.map_take, List.map_drop]
  exact congrArg (fun ps => (ps.drop offset).take limit) hsort

/-- **The messages of a folder are listed as they came.** Both lists ascend by uid. -/
theorem Ledger.listed_sublist {h : List Placement} {db : DB} (hl : Ledger h db) (folderId : ℤ)
    (limit offset : ℕ) :
    (listed (MessageDAL.findByFolder db folderId limit offset)).Sublist
      (h.filter (·.folderId = folderId)) := by
  rw [listed_findByFolder]
  refine ((List.take_sublist _ _).trans (List.drop_sublist _ _)).trans ?_
  have hperm : (placesByUid db folderId).Perm _ := List.perm_insertionSort _ _
  have hmem : ∀ p ∈ placesByUid db folderId, p ∈ h.filter (·.folderId = folderId) := by
    intro p hp
    obtain ⟨⟨i, m⟩, hr, rfl⟩ := List.mem_map.mp (hperm.mem_iff.mp hp)
    obtain ⟨hr, hfolder⟩ := List.mem_filter.mp hr
    exact List.mem_filter.mpr ⟨hl.live i m (Table.mem_rows_iff.mp hr), hfolder⟩
  have hnodup : (placesByUid db folderId).Nodup := by
    refine hperm.nodup_iff.mpr (List.pairwise_map.mpr ((db.messages.sorted.filter _).imp ?_))
    exact fun hlt heq => absurd (congrArg Placement.id heq) (Int.ne_of_lt hlt)
  have hfolder : ∀ {p}, p ∈ h.filter (·.folderId = folderId) → p.folderId = folderId :=
    fun hp => of_decide_eq_true (List.mem_filter.mp hp).2
  have hanti : Std.Antisymm fun p q : Placement => p.uid < q.uid :=
    ⟨fun _ _ hpq hqp => absurd hpq (Int.lt_asymm hqp)⟩
  refine List.sublist_of_subperm_of_pairwise (r := fun p q => p.uid < q.uid)
    (List.subperm_of_subset hnodup hmem) ?_ ?_
  · have hsorted := List.pairwise_insertionSort (fun p q : Placement => p.uid ≤ q.uid)
      ((db.messages.rows.filter fun r => r.2.folderId = folderId).map place)
    refine (hsorted.and hnodup).imp_of_mem fun {p q} hp hq hpq => ?_
    refine lt_of_le_of_ne hpq.1 fun huid => hpq.2 ?_
    exact hl.eq_of_uid (List.mem_of_mem_filter (hmem p hp)) (List.mem_of_mem_filter (hmem q hq))
      ((hfolder (hmem p hp)).trans (hfolder (hmem q hq)).symm) huid
  · refine (hl.ordered.filter _).imp_of_mem fun {p q} hp hq hpq => ?_
    exact hpq ((hfolder hp).trans (hfolder hq).symm)

/-! ## The operations make timely writes -/

section Operations

open MessageRepository

variable {db : DB}

/-- A folder an operation creates counts from one or more. -/
def Proper : StoreCall → Prop
  | .message (.createFolder f) => 1 ≤ f.nextUid
  | _ => True

/-- The program makes timely writes, from the database on. -/
abbrev MakesTimely {α : Type} (p : DbM α) (db : DB) : Prop :=
  Makes store (fun db w => Timely db (.message w)) p db

theorem makesTimely_checked {w : Write} (h : Timely db (.message w)) : MakesTimely (checked w) db :=
  Makes.bind_pure (makes_locked h)

theorem makesTimely_unchecked {w : Write} (h : Timely db (.message w)) :
    MakesTimely (unchecked w) db :=
  Makes.bind_pure (makes_locked h)

/-- A lookup that decides whether to go on. -/
theorem MakesTimely.lookup {α γ : Type} {f : DB → Option α} {k : Option α → DbM γ}
    (hnone : MakesTimely (k none) db) (hsome : ∀ a, f db = some a → MakesTimely (k (some a)) db) :
    MakesTimely (query f >>= k) db := by
  refine makes_query_bind ?_
  cases hf : f db with
  | none => exact hnone
  | some a => exact hsome a hf

/-- `assignUID` gives the uid it has read after incrementing it. -/
theorem makesTimely_assignUID (m : Message) (folderId : ℤ) :
    MakesTimely (assignUID m folderId) db :=
  Makes.bind_pure (makesTimely_checked trivial)

theorem makesTimely_deliver (m : Message) (folderId : ℤ) : MakesTimely (deliver m folderId) db := by
  unfold deliver
  split_ifs
  · exact MakesTimely.lookup trivial fun _ _ => makesTimely_assignUID _ _
  · exact makesTimely_assignUID _ _

/-- The folder found under an id. -/
theorem nextUid_of_findByID {id : ℤ} {folder : Folder}
    (h : FolderDAL.findByID db id = some folder) :
    folder.id = some id ∧ ∀ f, db.folders.get? id = some f → folder.nextUid = f.nextUid := by
  obtain ⟨f, hf, rfl⟩ := Option.map_eq_some_iff.mp h
  refine ⟨rfl, fun f' hf' => ?_⟩
  rw [hf] at hf'
  obtain rfl := Option.some.inj hf'
  rfl

theorem makesTimely_moveToFolder (id folderId : ℤ) : MakesTimely (moveToFolder id folderId) db :=
  MakesTimely.lookup trivial fun _ hfolder =>
    makesTimely_checked (nextUid_of_findByID hfolder).2

theorem makesTimely_copy (id targetFolderId : ℤ) : MakesTimely (copy id targetFolderId) db := by
  refine MakesTimely.lookup trivial fun msg _ => MakesTimely.lookup trivial fun folder hfolder => ?_
  refine makes_query_bind (Makes.bind_pure (makesTimely_checked ?_))
  exact ⟨rfl, (nextUid_of_findByID hfolder).2⟩

theorem makesTimely_expunge (folderId : ℤ) : MakesTimely (expunge folderId) db :=
  makes_query_bind (makesTimely_checked trivial)

theorem makesTimely_closeFolder (folderId : ℤ) : MakesTimely (closeFolder folderId) db := by
  refine Makes.bind (fun r db => ?_) (makesTimely_expunge folderId)
  cases r with
  | error e => trivial
  | ok a => exact makesTimely_checked trivial

theorem makesTimely_setFlags (id : ℤ) (flags : List Bytes) :
    MakesTimely (MessageRepository.setFlags id flags) db := by
  refine MakesTimely.lookup trivial fun msg _ => ?_
  dsimp only
  split
  · trivial
  · exact makesTimely_unchecked trivial

theorem makesTimely_createFolder {f : Folder} (h : 1 ≤ f.nextUid) :
    MakesTimely (createFolder f) db := by
  unfold createFolder
  split_ifs
  · trivial
  · exact MakesTimely.lookup (makesTimely_unchecked h) fun _ _ => trivial

/-- A session of its own renames on the row it has just read. -/
theorem makesTimely_renameFolder (id : ℤ) (newName : Bytes) :
    MakesTimely (renameFolder id newName) db := by
  unfold renameFolder
  split_ifs
  · trivial
  · refine MakesTimely.lookup trivial fun folder hfolder => makes_query_bind ?_
    obtain ⟨hid, hnext⟩ := nextUid_of_findByID hfolder
    split_ifs
    · trivial
    · refine makesTimely_unchecked fun id' f' hid' hf' => ?_
      obtain rfl := Option.some.inj (hid.symm.trans hid')
      exact hnext f' hf'

/-- Every proper call of the repository makes timely writes when it runs alone. -/
theorem makesTimely_callProg {call : RepoCall} (h : Proper (.message call)) :
    MakesTimely (callProg call) db := by
  have done : ∀ {α : Type} {p : DbM (Result α)}, MakesTimely p db → MakesTimely (succeeded p) db :=
    fun hp => Makes.bind_pure hp
  cases call with
  | append | saveToFolder => exact done (makesTimely_assignUID _ _)
  | deliver => exact done (makesTimely_deliver _ _)
  | copy => exact done (makesTimely_copy _ _)
  | moveToFolder => exact done (makesTimely_moveToFolder _ _)
  | expunge => exact done (makesTimely_expunge _)
  | markSeen | markDeleted | updateFlags => exact done (makesTimely_unchecked trivial)
  | markFlagged | markAnswered | markDraft | hardDelete | deleteFolder =>
    exact done (MakesTimely.lookup trivial fun _ _ => makesTimely_unchecked trivial)
  | setFlags => exact done (makesTimely_setFlags _ _)
  | closeFolder => exact done (makesTimely_closeFolder _)
  | createFolder => exact done (makesTimely_createFolder h)
  | renameFolder => exact done (makesTimely_renameFolder _ _)
  | clearRecentByFolder | incrementNextUID | setSubscribed =>
    exact done (MakesTimely.lookup trivial fun _ _ => makesTimely_checked trivial)

variable {P : PasswordHash}

theorem makes_lockedOrError {w : StoreWrite} (h : Timely db w) :
    Makes mailStore Timely (lockedOrError w) db :=
  Makes.bind_pure (makes_locked h)

/-- The default folders of a new user start with their own `next_uid`. -/
theorem makes_insertFolders (userId : ℤ) : ∀ (names : List Bytes) (db : DB),
    Makes mailStore Timely (UserRepository.insertFolders userId names) db
  | [], _ => trivial
  | name :: names, db => by
      refine Makes.bind (fun r db' => ?_) (makes_lockedOrError (Int.le_refl 1))
      cases r with
      | error e => trivial
      | ok a => exact makes_insertFolders userId names db'

theorem makes_registerUser (user : User) (password salt : Bytes) :
    Makes mailStore Timely (UserRepository.registerUser P user password salt) db := by
  refine makes_query_bind ?_
  split
  · trivial
  · split_ifs
    · trivial
    · refine Makes.bind (fun r db => ?_) (makes_lockedOrError trivial)
      cases r with
      | error e => trivial
      | ok a =>
        refine Makes.bind (fun r db => ?_) (makes_insertFolders a.id _ db)
        cases r with
        | error e => trivial
        | ok u => trivial

/-- **Every operation makes timely writes.** -/
theorem makes_storeProg {call : StoreCall} (h : Proper call) (db : DB) :
    Makes mailStore Timely (storeProg P call) db := by
  have hdone : ∀ {α : Type} {p : StoreM (Result α)}, Makes mailStore Timely p db →
      Makes mailStore Timely (done p) db := fun hp => Makes.bind_pure hp
  have hlookup : ∀ {α γ : Type} {f : DB → Option α} {k : Option α → StoreM γ},
      Makes mailStore Timely (k none) db → (∀ a, Makes mailStore Timely (k (some a)) db) →
        Makes mailStore Timely (query f >>= k) db := by
    intro α γ f k hnone hsome
    refine makes_query_bind ?_
    cases f db with
    | none => exact hnone
    | some a => exact hsome a
  have hlocked : ∀ {w : StoreWrite}, Timely db w → Makes mailStore Timely (locked w) db :=
    makes_locked
  cases call with
  | message call =>
    exact Makes.mapWrites (S := store) (g := StoreWrite.message) (fun _ _ => rfl) (fun _ _ hw => hw)
      (makesTimely_callProg h)
  | addRecipient r =>
    refine hdone (hlookup trivial fun _ => ?_)
    dsimp only
    split_ifs
    · trivial
    · exact Makes.bind_pure (hlocked trivial)
  | removeRecipient id =>
    exact hdone (hlookup trivial fun _ => Makes.bind_pure (hlocked trivial))
  | registerUser user password salt => exact hdone (makes_registerUser user password salt)
  | changePassword | deleteUser =>
    exact hdone (hlookup trivial fun _ => makes_lockedOrError trivial)
  | updateUser | updateProfile => exact hdone (makes_lockedOrError trivial)

end Operations

/-! ## Whole runs -/

/-- A write continues the ledger. -/
theorem Ledger.write {h : List Placement} {db db' : DB} {w : StoreWrite} {a : Answer}
    (hl : Ledger h db) (hw : Timely db w) (happly : mailStore.apply w db = .ok (db', a)) :
    Ledger (h ++ placements db db') db' :=
  hl.step ((StoreWrite.effect happly).keyed hl.keyed) ((StoreWrite.effect happly).placing hw)

/-- So does a run. -/
theorem Ledger.session {P : PasswordHash} {db db' : DB} {calls : List StoreCall}
    {ws : List (DB × DB)} (hrun : Session P db calls ws db')
    (hproper : ∀ call ∈ calls, Proper call) : ∀ {ws₀ : List (DB × DB)},
      Ledger (handedOut ws₀) db → (∀ w ∈ ws₀, Consistent w.2) →
      Ledger (handedOut (ws₀ ++ ws)) db' ∧ ∀ w ∈ ws₀ ++ ws, Consistent w.2 := by
  induction hrun with
  | nil db =>
    intro ws₀ hl hws
    rw [List.append_nil]
    exact ⟨hl, hws⟩
  | @cons db db₁ db₂ call calls ws ws' ok hcall hcalls ih =>
    intro ws₀ hl hws
    obtain ⟨hl₁, hws₁⟩ : Ledger (handedOut (ws₀ ++ ws)) db₁ ∧ ∀ w ∈ ws₀ ++ ws, Consistent w.2 := by
      refine Makes.runs (I := fun ws db => Ledger (handedOut ws) db ∧ ∀ w ∈ ws, Consistent w.2)
        (fun ws db w db' a hi hw happly => ?_) hcall
        (makes_storeProg (hproper call List.mem_cons_self) db) ⟨hl, hws⟩
      have hl' := hi.1.write hw happly
      refine ⟨by simpa [handedOut] using hl', fun w hw => ?_⟩
      rcases List.mem_append.mp hw with hw | hw
      · exact hi.2 w hw
      · obtain rfl := List.mem_singleton.mp hw
        exact hl'.consistent
    rw [← List.append_assoc]
    exact ih (fun call hmem => hproper call (List.mem_cons_of_mem _ hmem)) hl₁ hws₁

/-- **The mail store keeps its invariant, and a uid is handed out once** — for any calls of the two
repositories one after the other, with any writes failing.  The messages of a folder are listed in
the order in which they were given their places in it. -/
theorem consistent_of_session {P : PasswordHash} {db : DB} {calls : List StoreCall}
    {ws : List (DB × DB)} (hproper : ∀ call ∈ calls, Proper call)
    (hrun : Session P .empty calls ws db) :
    (Consistent db ∧ ∀ w ∈ ws, Consistent w.2) ∧
      (∀ folderId,
        (((handedOut ws).filter (·.folderId = folderId)).map (·.uid)).Pairwise (· < ·)) ∧
      (∀ p ∈ handedOut ws, ∀ q ∈ handedOut ws, p.folderId = q.folderId → p.uid = q.uid →
        p.id = q.id) ∧
      ∀ folderId limit offset, (listed (MessageDAL.findByFolder db folderId limit offset)).Sublist
        ((handedOut ws).filter (·.folderId = folderId)) := by
  have hstart : Ledger (handedOut []) .empty := ledger_empty
  obtain ⟨hl, hws⟩ := Ledger.session hrun hproper hstart (by simp)
  rw [List.nil_append] at hl hws
  refine ⟨⟨hl.consistent, hws⟩, fun folderId => ?_, fun p hp q hq hfolder huid => ?_,
    hl.listed_sublist⟩
  · refine List.pairwise_map.mpr ((hl.ordered.filter _).imp_of_mem fun {p q} hp hq hpq => hpq ?_)
    have hp' := of_decide_eq_true (List.mem_filter.mp hp).2
    exact hp'.trans (of_decide_eq_true (List.mem_filter.mp hq).2).symm
  · exact congrArg Placement.id (hl.eq_of_uid hp hq hfolder huid)

/-- Alice registers, gets two messages and files the first. -/
def aliceCalls : List StoreCall :=
  [.registerUser alice (Bytes.lit "secret") [],
    .message (.deliver aliceMail 0), .message (.deliver aliceMail 0), .message (.moveToFolder 1 2)]

theorem consistent_aliceCalls : ∃ ws db, Session plainHash .empty aliceCalls ws db ∧
    Consistent db ∧ (handedOut ws).map (·.uid) = [1, 2, 1] := by
  have hrun : Session plainHash .empty aliceCalls _ _ :=
    .cons (.read (.write rfl (.write rfl (.write rfl (.write rfl (.write rfl (.write rfl
      (.ret _ _))))))))
      (.cons (.read (.write rfl (.ret _ _))) (.cons (.read (.write rfl (.ret _ _)))
        (.cons (.read (.write rfl (.ret _ _))) (.nil _))))
  refine ⟨_, _, hrun, (consistent_of_session ?_ hrun).1.1, rfl⟩
  simp [aliceCalls, Proper]

end MailStack.Store
