import MailStack.Machinery.Rank
import MailStack.Store.Schema

/-!
# Store/Listing — the messages of a folder, by uid and by number

`UNIQUE(folder_id, uid)` makes the uid a key: `findByUID` finds the one message that has it, and
`findByFolder` lists each message behind those with a smaller uid — as far as its limit goes.
-/

namespace MailStack.Store

/-- The index `UNIQUE(folder_id, uid)`. -/
def UniqueUids (db : DB) : Prop :=
  ∀ i j m m', db.messages.get? i = some m → db.messages.get? j = some m' →
    m.folderId = m'.folderId → m.uid = m'.uid → i = j

/-- A message as it is in the folder. -/
def InFolder (db : DB) (folderId : ℤ) (m : Message) : Prop :=
  m.folderId = folderId ∧ ∃ id, m.id = some id ∧ db.messages.get? id = some m.toMessageData

/-- The messages of a folder by ascending uid, all of them. -/
def byUid (db : DB) (folderId : ℤ) : List Message :=
  ((db.messages.rows.filter fun r => r.2.folderId = folderId).map fun r =>
    MessageDAL.rowToMessage r.1 r.2).insertionSort fun m m' => m.uid ≤ m'.uid

/-- The number of a message: it stands behind the messages of its folder with a smaller uid. -/
def position (db : DB) (m : Message) : ℕ :=
  (db.messages.rows.countP fun r => r.2.folderId = m.folderId ∧ r.2.uid < m.uid) + 1

/-- The names of the folders do not depend on their `next_uid`. -/
theorem findByName_incrementNextUID (db : DB) (id u : ℤ) (name : Bytes) :
    (FolderDAL.findByName (FolderDAL.incrementNextUID db id) u name).bind (·.id) =
      (FolderDAL.findByName db u name).bind (·.id) := by
  rw [FolderDAL.findByName, FolderDAL.incrementNextUID_folders,
    Table.find?_modify (f := fun f : FolderData => { f with nextUid := f.nextUid + 1 })
      fun _ _ => rfl, FolderDAL.findByName]
  cases db.folders.rows.find? fun r => decide (r.2.userId = u ∧ r.2.name = cstr name) with
  | none => rfl
  | some r => rfl

section

variable {db : DB} {folderId uid : ℤ} {m : Message}

theorem findByFolder_eq_take (db : DB) (folderId : ℤ) (limit : ℕ) :
    MessageDAL.findByFolder db folderId limit 0 = (byUid db folderId).take limit := rfl

theorem rowToMessage_eq_iff {i : ℤ} {d : MessageData} :
    MessageDAL.rowToMessage i d = m ↔ m.id = some i ∧ d = m.toMessageData := by
  constructor
  · rintro rfl
    exact ⟨rfl, rfl⟩
  · rintro ⟨hid, rfl⟩
    rw [MessageDAL.rowToMessage, ← hid]

theorem mem_byUid : m ∈ byUid db folderId ↔ InFolder db folderId m := by
  simp only [byUid, List.mem_insertionSort, List.mem_map, List.mem_filter, decide_eq_true_eq,
    rowToMessage_eq_iff]
  constructor
  · rintro ⟨⟨i, d⟩, ⟨hrow, hfolder⟩, hid, rfl⟩
    exact ⟨hfolder, i, hid, Table.mem_rows_iff.mp hrow⟩
  · rintro ⟨hfolder, i, hid, hrow⟩
    exact ⟨(i, m.toMessageData), ⟨Table.mem_rows_iff.mpr hrow, hfolder⟩, hid, rfl⟩

/-- In a folder no two messages have the same uid. -/
theorem InFolder.eq_of_uid (hu : UniqueUids db) {m' : Message} (h : InFolder db folderId m)
    (h' : InFolder db folderId m') (huid : m.uid = m'.uid) : m = m' := by
  obtain ⟨hfolder, i, hid, hrow⟩ := h
  obtain ⟨hfolder', j, hid', hrow'⟩ := h'
  obtain rfl := hu i j _ _ hrow hrow' (hfolder.trans hfolder'.symm) huid
  have hdata := Option.some.inj (hrow.symm.trans hrow')
  rw [← rowToMessage_eq_iff.mpr ⟨hid, rfl⟩, hdata]
  exact rowToMessage_eq_iff.mpr ⟨hid', rfl⟩

theorem of_findByUID_eq_some (h : MessageDAL.findByUID db folderId uid = some m) :
    InFolder db folderId m ∧ m.uid = uid := by
  obtain ⟨⟨i, d⟩, hr, rfl⟩ := Option.map_eq_some_iff.mp h
  have hkey := List.find?_some hr
  obtain ⟨hfolder, huid⟩ := of_decide_eq_true hkey
  exact ⟨⟨hfolder, i, rfl, Table.mem_rows_iff.mp (List.mem_of_find?_eq_some hr)⟩, huid⟩

/-- **`findByUID` finds the message of the folder that has the uid.** -/
theorem findByUID_eq_some_iff (hu : UniqueUids db) :
    MessageDAL.findByUID db folderId uid = some m ↔ InFolder db folderId m ∧ m.uid = uid := by
  refine ⟨of_findByUID_eq_some, fun ⟨hm, huid⟩ => ?_⟩
  cases hfind : MessageDAL.findByUID db folderId uid with
  | none =>
    obtain ⟨hfolder, i, -, hrow⟩ := hm
    have hnone := List.find?_eq_none.mp (Option.map_eq_none_iff.mp hfind) _
      (Table.mem_rows_iff.mpr hrow)
    exact absurd (decide_eq_true ⟨hfolder, huid⟩) hnone
  | some m' =>
    obtain ⟨hm', huid'⟩ := of_findByUID_eq_some hfind
    rw [hm'.eq_of_uid hu hm (huid'.trans huid.symm)]

/-- A uid is looked up alike where the same messages of the folder have it. -/
theorem findByUID_eq_of_same {db' : DB} (hu : UniqueUids db) (hu' : UniqueUids db')
    (h : ∀ m, m.uid = uid → (InFolder db' folderId m ↔ InFolder db folderId m)) :
    MessageDAL.findByUID db' folderId uid = MessageDAL.findByUID db folderId uid := by
  ext m
  rw [findByUID_eq_some_iff hu, findByUID_eq_some_iff hu']
  exact and_congr_left fun huid => h m huid

/-- The list is strictly ascending. -/
theorem pairwise_byUid (hu : UniqueUids db) (folderId : ℤ) :
    (byUid db folderId).Pairwise fun m m' => m.uid < m'.uid := by
  refine Rank.pairwise_insertionSort ?_
  rw [List.pairwise_map]
  refine (db.messages.sorted.filter _).imp_of_mem fun {r r'} hr hr' hlt huid => ?_
  obtain ⟨hrow, hfolder⟩ := List.mem_filter.mp hr
  obtain ⟨hrow', hfolder'⟩ := List.mem_filter.mp hr'
  have heq := hu r.1 r'.1 r.2 r'.2 (Table.mem_rows_iff.mp hrow) (Table.mem_rows_iff.mp hrow')
    ((of_decide_eq_true hfolder).trans (of_decide_eq_true hfolder').symm) huid
  exact absurd heq hlt.ne

theorem rank_byUid (hm : m.folderId = folderId) :
    Rank.rank (fun m : Message => m.uid) (byUid db folderId) m + 1 = position db m := by
  rw [byUid, Rank.rank_perm (List.perm_insertionSort _ _), Rank.rank_map, List.countP_filter,
    position]
  congr 2
  ext r
  rw [Bool.eq_iff_iff, Bool.and_eq_true, decide_eq_true_iff, decide_eq_true_iff, decide_eq_true_iff,
    hm]
  exact and_comm

/-- **A message stands at its position.** -/
theorem byUid_getElem?_position (hu : UniqueUids db) (hm : InFolder db folderId m) :
    (byUid db folderId)[position db m - 1]? = some m := by
  rw [← rank_byUid hm.1, Nat.add_sub_cancel]
  exact Rank.getElem?_rank (pairwise_byUid hu folderId) (mem_byUid.mpr hm)

/-- Searched for by its uid in one page, it is found at its position, if the page goes that far. -/
theorem findIdx?_findByFolder (hu : UniqueUids db) (hm : InFolder db folderId m) (limit : ℕ) :
    (MessageDAL.findByFolder db folderId limit 0).findIdx? (·.uid = m.uid) =
      if position db m ≤ limit then some (position db m - 1) else none := by
  rw [findByFolder_eq_take, Rank.findIdx?_take (pairwise_byUid hu folderId) (mem_byUid.mpr hm),
    ← rank_byUid hm.1, Nat.add_sub_cancel]
  rfl

end

end MailStack.Store
