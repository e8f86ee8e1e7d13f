import MailStack.Store.Repository

/-!
# Store/Uid — uids stay below `next_uid`, unless a rename goes back in time

`assignUID` reads the folder inside its transaction; `copy` and `moveToFolder` read `next_uid`
before they take the lock, and `renameFolder` reads a whole row and later writes it back.  A uid
that was read too early does no harm: `next_uid` has only grown since.  A row that was read too
early does: writing it back takes `next_uid` down again.

`uidBelow_of_exec` is the first half — no run without such a write breaks the numbering — and
`uidBelow_lost` is a run with one.
-/

open Prog

namespace MailStack.Store

/-- Every message has a uid below its folder's `next_uid`. -/
def UidBelow (db : DB) : Prop :=
  ∀ i m f, db.messages.get? i = some m → db.folders.get? m.folderId = some f → m.uid < f.nextUid

/-- The foreign key from messages to folders. -/
def InFolders (db : DB) : Prop :=
  ∀ i m, db.messages.get? i = some m → (db.folders.get? m.folderId).isSome

/-- A folder that is there in both states has not gone back: `next_uid` did not decrease. -/
def NextUidGrows (db db' : DB) : Prop :=
  ∀ i f f', db.folders.get? i = some f → db'.folders.get? i = some f' → f.nextUid ≤ f'.nextUid

/-- A write of a whole folder row is not stale: it does not take `next_uid` back. -/
def NotStale (db : DB) : Write → Prop
  | .updateFolder f =>
    ∀ id f', f.id = some id → db.folders.get? id = some f' → f'.nextUid ≤ f.nextUid
  | _ => True

/-! ## What holds between the states of a run -/

/-- What a later database can look like: a folder that is there under an id already handed out was
there before, with a `next_uid` no larger. -/
def Later (db db' : DB) : Prop :=
  db.folders.seq ≤ db'.folders.seq ∧
    ∀ i f', db'.folders.get? i = some f' → i ≤ db.folders.seq →
      ∃ f, db.folders.get? i = some f ∧ f.nextUid ≤ f'.nextUid

/-- `UidBelow`, and no message in a folder yet to be created. -/
def Numbered (db : DB) : Prop :=
  ∀ i m, db.messages.get? i = some m →
    m.folderId ≤ db.folders.seq ∧ ∀ f, db.folders.get? m.folderId = some f → m.uid < f.nextUid

theorem Later.refl (db : DB) : Later db db :=
  ⟨Int.le_refl _, fun _ f' h _ => ⟨f', h, Int.le_refl _⟩⟩

theorem Later.trans {db₁ db₂ db₃ : DB} (h : Later db₁ db₂) (h' : Later db₂ db₃) :
    Later db₁ db₃ := by
  refine ⟨Int.le_trans h.1 h'.1, fun i f₃ h₃ hi => ?_⟩
  obtain ⟨f₂, h₂, hle₂⟩ := h'.2 i f₃ h₃ (Int.le_trans hi h.1)
  obtain ⟨f₁, h₁, hle₁⟩ := h.2 i f₂ h₂ hi
  exact ⟨f₁, h₁, Int.le_trans hle₁ hle₂⟩

/-- A later database has no folder with a smaller `next_uid`. -/
theorem Later.nextUidGrows {db db' : DB} (h : Later db db') : NextUidGrows db db' := by
  intro i f f' hf hf'
  obtain ⟨f₀, hf₀, hle⟩ := h.2 i f' hf' (Table.le_seq_of_get? hf)
  rw [hf] at hf₀
  obtain rfl := Option.some.inj hf₀
  exact hle

/-- In a numbered database every uid is below the `next_uid` of its folder. -/
theorem Numbered.uidBelow {db : DB} (h : Numbered db) : UidBelow db :=
  fun i m f hm hf => (h i m hm).2 f hf

/-- Where every message is in a folder that exists, there is no other to keep apart. -/
theorem numbered_of_inFolders {db : DB} (hfk : InFolders db) (h : UidBelow db) : Numbered db := by
  intro i m hm
  obtain ⟨f, hf⟩ := Option.isSome_iff_exists.mp (hfk i m hm)
  exact ⟨Table.le_seq_of_get? hf, fun f hf => h i m f hm hf⟩

/-! ## What each write does to it -/

theorem Later.of_eq {db db' : DB} (h : db'.folders = db.folders) : Later db db' := by
  refine ⟨by rw [h], fun i f' hf' _ => ?_⟩
  rw [h] at hf'
  exact ⟨f', hf', Int.le_refl _⟩

/-- A change of one folder's row that does not take `next_uid` back. -/
theorem Later.of_modify {db db' : DB} {id : ℤ} {g : FolderData → FolderData}
    (h : db'.folders = db.folders.modify id g)
    (hg : ∀ f, db.folders.get? id = some f → f.nextUid ≤ (g f).nextUid) : Later db db' := by
  refine ⟨by simp [h], fun i f' hf' _ => ?_⟩
  rw [h, Table.get?_modify] at hf'
  split_ifs at hf' with hi
  · subst hi
    obtain ⟨f, hf, rfl⟩ := Option.map_eq_some_iff.mp hf'
    exact ⟨f, hf, hg f hf⟩
  · exact ⟨f', hf', Int.le_refl _⟩

/-- `incrementNextUID` only takes `next_uid` forward. -/
theorem later_incrementNextUID (db : DB) (id : ℤ) : Later db (FolderDAL.incrementNextUID db id) :=
  Later.of_modify (FolderDAL.incrementNextUID_folders db id) fun f _ =>
    Int.le_of_lt (Int.lt_succ f.nextUid)

/-- Deleting folders takes no `next_uid` back: their ids are not used again. -/
theorem Later.of_filter {db db' : DB} {p : ℤ → FolderData → Bool}
    (h : db'.folders = db.folders.filter p) : Later db db' := by
  refine ⟨by rw [h, Table.seq_filter], fun i f' hf' _ => ?_⟩
  rw [h, Table.get?_filter] at hf'
  exact ⟨f', (Option.filter_eq_some_iff.mp hf').1, Int.le_refl _⟩

/-- A new folder gets an id beyond all that were given out. -/
theorem later_insertFolder (db : DB) (f : FolderData) :
    Later db { db with folders := db.folders.insert f } := by
  refine ⟨Int.le_of_lt (Int.lt_succ _), fun i f' hf' hi => ?_⟩
  rw [Table.get?_insert, if_neg (by omega)] at hf'
  exact ⟨f', hf', Int.le_refl _⟩

/-- Messages disappear or stay in their place. -/
def Stays (db db' : DB) : Prop :=
  ∀ i m', db'.messages.get? i = some m' →
    ∃ m, db.messages.get? i = some m ∧ m'.folderId = m.folderId ∧ m'.uid = m.uid

theorem Stays.of_eq {db db' : DB} (h : db'.messages = db.messages) : Stays db db' := by
  intro i m' hm'
  rw [h] at hm'
  exact ⟨m', hm', rfl, rfl⟩

/-- Messages that are rewritten in place keep their folder and their uid. -/
theorem Stays.of_map {db db' : DB} {g : ℤ → MessageData → MessageData}
    (h : db'.messages = db.messages.map g)
    (hg : ∀ i m, (g i m).folderId = m.folderId ∧ (g i m).uid = m.uid) : Stays db db' := by
  intro i m' hm'
  rw [h, Table.get?_map] at hm'
  obtain ⟨m, hm, rfl⟩ := Option.map_eq_some_iff.mp hm'
  exact ⟨m, hm, hg i m⟩

/-- Messages that are deleted go, the others stay where they are. -/
theorem Stays.of_filter {db db' : DB} {p : ℤ → MessageData → Bool}
    (h : db'.messages = db.messages.filter p) : Stays db db' := by
  intro i m' hm'
  rw [h, Table.get?_filter] at hm'
  exact ⟨m', (Option.filter_eq_some_iff.mp hm').1, rfl, rfl⟩

theorem stays_setFlags (db : DB) (id : ℤ) (g : Flags → Flags) :
    Stays db (MessageDAL.setFlags db id g) := by
  refine Stays.of_map (MessageDAL.setFlags_messages db id g) fun i m => ?_
  split_ifs <;> exact ⟨rfl, rfl⟩

/-- Expunging a list of ids moves nothing. -/
theorem stays_expunge (ids : List ℤ) (db : DB) : Stays db (ids.foldl MessageDAL.hardDelete db) := by
  intro i m' hm'
  rw [foldl_hardDelete_get?] at hm'
  split_ifs at hm'
  exact ⟨m', hm', rfl, rfl⟩

theorem stays_clearRecentByFolder (db : DB) (id : ℤ) :
    Stays db (MessageDAL.clearRecentByFolder db id) := by
  refine Stays.of_map (MessageDAL.clearRecentByFolder_messages db id) fun i m => ?_
  split_ifs <;> exact ⟨rfl, rfl⟩

/-- As long as messages stay in their place, the numbering follows `next_uid`. -/
theorem Numbered.of_stays {db db' : DB} (hn : Numbered db) (hl : Later db db')
    (hs : Stays db db') : Numbered db' := by
  intro i m' hm'
  obtain ⟨m, hm, hfolder, huid⟩ := hs i m' hm'
  obtain ⟨hle, hlt⟩ := hn i m hm
  rw [hfolder, huid]
  refine ⟨Int.le_trans hle hl.1, fun f' hf' => ?_⟩
  obtain ⟨f, hf, hgrow⟩ := hl.2 _ f' hf' hle
  have := hlt f hf
  omega

/-- A message that comes to a folder under a uid up to `next_uid`, as `next_uid` is incremented. -/
theorem Numbered.place {db db' : DB} (hn : Numbered db) {folderId : ℤ} {f : FolderData}
    (hf : db.folders.get? folderId = some f)
    (hfolders : db'.folders =
      db.folders.modify folderId fun d => { d with nextUid := d.nextUid + 1 })
    (hm : ∀ i m', db'.messages.get? i = some m' →
      db.messages.get? i = some m' ∨ (m'.folderId = folderId ∧ m'.uid ≤ f.nextUid)) :
    Later db db' ∧ Numbered db' := by
  have hl : Later db db' := Later.of_modify hfolders fun f _ =>
    Int.le_of_lt (Int.lt_succ f.nextUid)
  refine ⟨hl, fun i m' hm' => ?_⟩
  rcases hm i m' hm' with hold | ⟨hfolder, huid⟩
  · obtain ⟨hle, hlt⟩ := hn i m' hold
    refine ⟨Int.le_trans hle hl.1, fun f' hf' => ?_⟩
    obtain ⟨f₀, hf₀, hgrow⟩ := hl.2 _ f' hf' hle
    have := hlt f₀ hf₀
    omega
  · rw [hfolder, hfolders, Table.seq_modify]
    refine ⟨Table.le_seq_of_get? hf, fun f' hf' => ?_⟩
    rw [Table.get?_modify, if_pos rfl, hf] at hf'
    obtain rfl := Option.some.inj hf'
    simp only
    omega

/-- What makes a write safe: a uid read before the lock is not beyond `next_uid`, and a folder row
is not stale. -/
def UidOk (db : DB) : Write → Prop
  | .copy m _ folderId =>
    m.folderId = folderId ∧ ∀ f, db.folders.get? folderId = some f → m.uid ≤ f.nextUid
  | .moveToFolder _ folderId newUid =>
    ∀ f, db.folders.get? folderId = some f → newUid ≤ f.nextUid
  | w => NotStale db w

/-- **A safe write keeps the numbering and takes no `next_uid` back.** -/
theorem Effect.numbered {db db' : DB} {w : Write} {a : Answer} (h : Effect db w db' a)
    (hn : Numbered db) (hw : UidOk db w) : Later db db' ∧ Numbered db' := by
  have keep : Later db db' → Stays db db' → Later db db' ∧ Numbered db' :=
    fun hl hs => ⟨hl, hn.of_stays hl hs⟩
  cases h with
  | @assignUID m folderId f hf hfree huser =>
    refine hn.place hf rfl fun i m' hm' => ?_
    simp only [FolderDAL.incrementNextUID, Table.get?_insert] at hm'
    split_ifs at hm'
    · obtain rfl := Option.some.inj hm'
      exact .inr ⟨rfl, Int.le_refl _⟩
    · exact .inl hm'
  | @copy m recipients folderId hfree huser hf =>
    obtain ⟨hfolder, huid⟩ := hw
    subst hfolder
    obtain ⟨f, hf⟩ := Option.isSome_iff_exists.mp hf
    refine hn.place hf rfl fun i m' hm' => ?_
    simp only [FolderDAL.incrementNextUID, Table.get?_insert] at hm'
    split_ifs at hm'
    · obtain rfl := Option.some.inj hm'
      exact .inr ⟨rfl, huid f hf⟩
    · exact .inl hm'
  | @moveToFolder id folderId newUid hfree hf =>
    obtain ⟨f, hf⟩ := Option.isSome_iff_exists.mp hf
    refine hn.place hf rfl fun i m' hm' => ?_
    simp only [FolderDAL.incrementNextUID, Table.get?_modify] at hm'
    split_ifs at hm'
    · obtain ⟨m, -, rfl⟩ := Option.map_eq_some_iff.mp hm'
      exact .inr ⟨rfl, hw f hf⟩
    · exact .inl hm'
  | moveNothing => exact keep (later_incrementNextUID db _) (Stays.of_eq rfl)
  | updateSeen => exact keep (Later.of_eq rfl) (stays_setFlags db _ _)
  | updateDeleted => exact keep (Later.of_eq rfl) (stays_setFlags db _ _)
  | updateFlags => exact keep (Later.of_eq rfl) (stays_setFlags db _ _)
  | @expunge ids =>
    exact keep (Later.of_eq (foldl_hardDelete_folders ids db)) (stays_expunge ids db)
  | @hardDelete id =>
    exact keep (Later.of_eq rfl) (Stays.of_filter (MessageDAL.hardDelete_messages db id))
  | @insertFolder f => exact keep (later_insertFolder db f.row) (Stays.of_eq rfl)
  | @updateFolder f id hid =>
    exact keep (Later.of_modify (g := fun _ => f.row) rfl fun f' hf' => hw id f' hid hf')
      (Stays.of_eq rfl)
  | @deleteFolder id =>
    exact keep (Later.of_filter (FolderDAL.hardDelete_folders db id))
      (Stays.of_filter (FolderDAL.hardDelete_messages db id))
  | incrementNextUID => exact keep (later_incrementNextUID db _) (Stays.of_eq rfl)
  | @clearRecentByFolder id => exact keep (Later.of_eq rfl) (stays_clearRecentByFolder db id)
  | @setSubscribed id b =>
    exact keep (Later.of_modify (FolderDAL.setSubscribed_folders db id b) fun f _ => Int.le_refl _)
      (Stays.of_eq rfl)

/-! ## The operations make safe writes -/

/-- The discipline of the clients: between two steps of one, the others may do what is `Later`. -/
def uidDiscipline : Discipline DB Write Unit RepoCall Bool where
  inv := Numbered
  rely := Later
  allow := NotStale
  faulty := True
  view _ := Eq
  guar _ _ _ := True
  loc _ _ := True
  post _ _ _ _ := True

/-- The program keeps the discipline, from any database on. -/
def KeepsUids {α : Type} (p : DbM α) : Prop :=
  ∀ db, Ok store (uidDiscipline.contract ()) (fun _ _ => True) p db

section Keeps

variable {α γ : Type}

theorem keepsUids_pure (a : α) : KeepsUids (pure a : DbM α) := fun _ => trivial

/-- The discipline of uids composes: each part is held to it in every state. -/
theorem KeepsUids.bind {p : DbM α} {f : α → DbM γ} (hp : KeepsUids p)
    (hf : ∀ a, KeepsUids (f a)) : KeepsUids (p >>= f) :=
  fun db => Ok.bind (fun a db _ => hf a db) (hp db)

/-- A read is judged in the state it is made in, which is any the others leave. -/
theorem ok_query {f : DB → α} {post : α → DB → Prop} {db : DB} (h : ∀ db', post (f db') db') :
    Ok store (uidDiscipline.contract ()) post (query f) db :=
  Ok.query (fun _ _ _ _ _ _ hv => congrArg f hv) fun db' _ _ => h db'

theorem keepsUids_query (f : DB → α) : KeepsUids (query f) := fun _ => ok_query fun _ => trivial

/-- A write that is safe whenever it is made. -/
theorem ok_locked {w : Write} {db : DB}
    (h : ∀ db', Later db db' → NotStale db' w → UidOk db' w) :
    Ok store (uidDiscipline.contract ()) (fun _ _ => True) (locked w) db := by
  refine Ok.locked (fun _ _ _ _ _ => trivial) fun db₁ db₂ a hr hn ha hw => ?_
  obtain ⟨hl, hn₂⟩ := (Write.effect hw).numbered hn (h db₁ hr ha)
  exact ⟨trivial, hn₂, hl, trivial⟩

/-- A checked write is judged in the state it is made in. -/
theorem ok_checked {w : Write} {db : DB}
    (h : ∀ db', Later db db' → NotStale db' w → UidOk db' w) :
    Ok store (uidDiscipline.contract ()) (fun _ _ => True) (checked w) db := by
  refine Ok.bind ?_ (ok_locked h)
  exact fun _ _ _ => trivial

theorem keepsUids_checked {w : Write} (h : ∀ db, NotStale db w → UidOk db w) :
    KeepsUids (checked w) := fun _ => ok_checked fun db' _ => h db'

theorem keepsUids_unchecked {w : Write} (h : ∀ db, NotStale db w → UidOk db w) :
    KeepsUids (unchecked w) := by
  intro db
  refine Ok.bind ?_ (ok_locked fun db' _ => h db')
  exact fun _ _ _ => trivial

/-- A lookup that decides whether to go on. -/
theorem KeepsUids.lookup {f : DB → Option α} {k : Option α → DbM γ} (hnone : KeepsUids (k none))
    (hsome : ∀ a, KeepsUids (k (some a))) : KeepsUids (query f >>= k) := by
  refine (keepsUids_query f).bind fun o => ?_
  cases o with
  | none => exact hnone
  | some a => exact hsome a

end Keeps

/-- `uid` was a `next_uid` of the folder: it is not beyond the present one. -/
def Reached (db : DB) (folderId uid : ℤ) : Prop :=
  folderId ≤ db.folders.seq ∧ ∀ f, db.folders.get? folderId = some f → uid ≤ f.nextUid

/-- A uid that `next_uid` has reached stays reached. -/
theorem Reached.later {db db' : DB} {folderId uid : ℤ} (h : Reached db folderId uid)
    (hl : Later db db') : Reached db' folderId uid := by
  refine ⟨Int.le_trans h.1 hl.1, fun f' hf' => ?_⟩
  obtain ⟨f, hf, hle⟩ := hl.2 folderId f' hf' h.1
  exact Int.le_trans (h.2 f hf) hle

/-- A folder row that was read tells how far `next_uid` had come. -/
theorem reached_of_findByID {db : DB} {folderId : ℤ} {folder : Folder}
    (h : FolderDAL.findByID db folderId = some folder) : Reached db folderId folder.nextUid := by
  obtain ⟨f, hf, rfl⟩ := Option.map_eq_some_iff.mp h
  refine ⟨Table.le_seq_of_get? hf, fun f' hf' => ?_⟩
  rw [hf] at hf'
  obtain rfl := Option.some.inj hf'
  exact Int.le_refl _

section Operations

open MessageRepository

/-- `assignUID` writes the uid it read, after `next_uid` has gone past it. -/
theorem keepsUids_assignUID (m : Message) (folderId : ℤ) : KeepsUids (assignUID m folderId) :=
  (keepsUids_checked (by exact fun _ h => h)).bind fun _ => keepsUids_pure _

/-- `deliver` takes the uid inside the write, under the lock. -/
theorem keepsUids_deliver (m : Message) (folderId : ℤ) : KeepsUids (deliver m folderId) := by
  unfold deliver
  split_ifs
  · exact KeepsUids.lookup (keepsUids_pure _) fun _ => keepsUids_assignUID _ _
  · exact keepsUids_assignUID _ _

/-- The uid `moveToFolder` read is no more than the `next_uid` it finds when it has the lock. -/
theorem keepsUids_moveToFolder (id folderId : ℤ) : KeepsUids (moveToFolder id folderId) := by
  intro db
  have hread : Ok store (uidDiscipline.contract ())
      (fun o db => ∀ folder, o = some folder → Reached db folderId folder.nextUid)
      (query (FolderDAL.findByID · folderId)) db := ok_query fun _ _ h => reached_of_findByID h
  refine Ok.bind (fun o db' hfolder => ?_) hread
  cases o with
  | none => trivial
  | some folder =>
    exact ok_checked fun db₁ hl _ => ((hfolder folder rfl).later hl).2

/-- Nor is the uid that `copy` read. -/
theorem keepsUids_copy (id targetFolderId : ℤ) : KeepsUids (copy id targetFolderId) := by
  refine KeepsUids.lookup (keepsUids_pure _) fun msg => ?_
  intro db
  have hfind : Ok store (uidDiscipline.contract ())
      (fun o db => ∀ folder, o = some folder → Reached db targetFolderId folder.nextUid)
      (query (FolderDAL.findByID · targetFolderId)) db :=
    ok_query fun _ _ h => reached_of_findByID h
  refine Ok.bind (fun o db' hfolder => ?_) hfind
  cases o with
  | none => trivial
  | some folder =>
    have hread : Ok store (uidDiscipline.contract ())
        (fun _ db => Reached db targetFolderId folder.nextUid) (findRecipientsByMessage id) db' :=
      Ok.query (fun _ _ _ _ _ _ hv => congrArg (RecipientDAL.findByMessage · id) hv) fun db₁ hl _ =>
        (hfolder folder rfl).later hl
    refine Ok.bind (fun recipients db₁ hreached => ?_) hread
    refine Ok.bind ?_ (ok_checked fun db₂ hl _ => ⟨rfl, (hreached.later hl).2⟩)
    exact fun _ _ _ => trivial

theorem keepsUids_expunge (folderId : ℤ) : KeepsUids (expunge folderId) :=
  (keepsUids_query _).bind fun _ => keepsUids_checked (by exact fun _ h => h)

theorem keepsUids_rewriteFlags (name : String) (id : ℤ) (f : Flags → Flags) :
    KeepsUids (rewriteFlags name id f) :=
  KeepsUids.lookup (keepsUids_pure _) fun _ => keepsUids_unchecked (by exact fun _ h => h)

theorem keepsUids_setFlags (id : ℤ) (flags : List Bytes) : KeepsUids (setFlags id flags) := by
  refine KeepsUids.lookup (keepsUids_pure _) fun msg => ?_
  dsimp only
  split
  · exact keepsUids_pure _
  · refine keepsUids_unchecked ?_
    exact fun _ h => h

theorem keepsUids_closeFolder (folderId : ℤ) : KeepsUids (closeFolder folderId) := by
  refine (keepsUids_expunge folderId).bind fun r => ?_
  cases r with
  | error e => exact keepsUids_pure _
  | ok a => exact keepsUids_checked (by exact fun _ h => h)

/-- A new folder starts with a `next_uid` of its own and no messages. -/
theorem keepsUids_createFolder (f : Folder) : KeepsUids (createFolder f) := by
  unfold createFolder
  split_ifs
  · exact keepsUids_pure _
  · refine (keepsUids_query _).bind fun o => ?_
    cases o with
    | none => exact keepsUids_unchecked (by exact fun _ h => h)
    | some f' => exact keepsUids_pure _

/-- `renameFolder` writes back the row it read: it is for the contract that it is not stale. -/
theorem keepsUids_renameFolder (id : ℤ) (newName : Bytes) :
    KeepsUids (renameFolder id newName) := by
  unfold renameFolder
  split_ifs
  · exact keepsUids_pure _
  · refine KeepsUids.lookup (keepsUids_pure _) fun folder => ?_
    refine (keepsUids_query _).bind fun existing => ?_
    split_ifs
    · exact keepsUids_pure _
    · exact keepsUids_unchecked (by exact fun _ h => h)

/-- **Every operation keeps the discipline.** -/
theorem keepsUids_callProg (call : RepoCall) : KeepsUids (callProg call) := by
  have done : ∀ {α : Type} {p : DbM (Result α)}, KeepsUids p → KeepsUids (succeeded p) :=
    fun h => h.bind fun _ => keepsUids_pure _
  cases call with
  | append | saveToFolder => exact done (keepsUids_assignUID _ _)
  | deliver => exact done (keepsUids_deliver _ _)
  | copy => exact done (keepsUids_copy _ _)
  | moveToFolder => exact done (keepsUids_moveToFolder _ _)
  | expunge => exact done (keepsUids_expunge _)
  | markSeen | markDeleted | updateFlags => exact done (keepsUids_unchecked (by exact fun _ h => h))
  | markFlagged | markAnswered | markDraft => exact done (keepsUids_rewriteFlags _ _ _)
  | setFlags => exact done (keepsUids_setFlags _ _)
  | closeFolder => exact done (keepsUids_closeFolder _)
  | createFolder => exact done (keepsUids_createFolder _)
  | renameFolder => exact done (keepsUids_renameFolder _ _)
  | hardDelete | deleteFolder =>
    exact done (KeepsUids.lookup (keepsUids_pure _) fun _ =>
      keepsUids_unchecked (by exact fun _ h => h))
  | clearRecentByFolder | incrementNextUID | setSubscribed =>
    exact done (KeepsUids.lookup (keepsUids_pure _) fun _ =>
      keepsUids_checked (by exact fun _ h => h))

end Operations

/-! ## Whole runs -/

section Runs

variable {ι : Type}

/-- The clients of the repository and their database. -/
abbrev Clients (ι : Type) := Net DB Write Bytes Answer Unit RepoCall Bool ι

/-- The step does not write back a stale folder row. -/
def RenamesFresh (n : Clients ι) (a : Act ι RepoCall Bytes Empty) : Prop :=
  ∀ i call w k, a = .step i → n.client i = .busy () call (.write w k) → NotStale n.db w

instance (db : DB) : DecidablePred (NotStale db)
  | .updateFolder f =>
    decidable_of_iff (∀ id ∈ f.id, ∀ f' ∈ db.folders.get? id, f'.nextUid ≤ f.nextUid)
      ⟨fun h id f' hid hf' => h id hid f' hf', fun h id hid f' hf' => h id f' hid hf'⟩
  | .assignUID .. | .updateSeen .. | .updateDeleted .. | .updateFlags .. | .moveToFolder ..
  | .expunge _ | .hardDelete _ | .copy .. | .insertFolder _ | .deleteFolder _
  | .incrementNextUID _ | .clearRecentByFolder _ | .setSubscribed .. => isTrue trivial

instance (n : Clients ι) : DecidablePred (RenamesFresh n) := fun a =>
  decidable_of_iff (∀ x ∈ n.writeOf a, NotStale n.db x.2.2)
    ⟨fun h i call w k ha hc => h ((), call, w) (Net.writeOf_eq_some_iff.mpr ⟨i, k, ha, hc⟩),
      fun h x hx =>
        let ⟨i, k, ha, hc⟩ := Net.writeOf_eq_some_iff.mp hx
        h i x.2.1 x.2.2 k ha hc⟩

/-- Every call of the repository keeps the discipline. -/
theorem kept_uidDiscipline : uidDiscipline.Kept clients where
  refl := Later.refl
  trans _ _ _ := Later.trans
  loc_stable _ _ _ _ _ _ := trivial
  post_stable _ _ _ _ _ _ _ _ := trivial
  start _ call db _ _ := by
    refine Ok.bind ?_ (keepsUids_callProg call db)
    exact fun _ _ _ => ⟨trivial, trivial⟩

/-- Where renames are fresh, every action is one the discipline allows. -/
theorem allowed_of_renamesFresh {n : Clients ι} {a : Act ι RepoCall Bytes Empty}
    (h : RenamesFresh n a) : uidDiscipline.Allowed clients n a := by
  cases a with
  | start i c => trivial
  | step i => exact fun _ call w k hc => h i call w k rfl hc
  | fail i e => trivial
  | env x => exact x.elim

/-- **Uids stay below `next_uid`, and `next_uid` never decreases, as long as no stale folder row is
written back** — for any number of clients, any calls and any interleaving of their steps, with any
writes failing. -/
theorem uidBelow_of_exec [DecidableEq ι] {n n' : Clients ι} {as : List (Act ι RepoCall Bytes Empty)}
    (hidle : ∀ i, n.client i = .idle ()) (hfk : InFolders n.db) (huid : UidBelow n.db)
    (hfresh : Run.Along clients.next RenamesFresh n as)
    (hrun : Run.exec clients.next n as = some n') :
    UidBelow n'.db ∧
      ∀ a n'', RenamesFresh n' a → clients.next n' a = some n'' → NextUidGrows n'.db n''.db := by
  have hstart : uidDiscipline.Holds clients n := by
    refine ⟨numbered_of_inFolders hfk huid, fun i => ?_⟩
    rw [hidle i]
    trivial
  have hend := (hstart.exec kept_uidDiscipline
    (hfresh.mono fun _ _ => allowed_of_renamesFresh) hrun).1
  refine ⟨hend.1.uidBelow, fun a n'' ha hn => ?_⟩
  exact (hend.next kept_uidDiscipline (allowed_of_renamesFresh ha) hn).2.nextUidGrows

end Runs

/-! ## A stale rename -/

/-- One user with one folder, and no mail. -/
def aliceDB : DB where
  users := Table.empty.insert ⟨Bytes.lit "alice", []⟩
  folders := Table.empty.insert { userId := 1, parentId := none, name := Bytes.lit "INBOX" }
  messages := .empty
  recipients := .empty

/-- Two clients that have called nothing yet. -/
def aliceClients : Clients Bool := ⟨aliceDB, fun _ => .idle ()⟩

/-- A message for that user. -/
def aliceMail : Message where
  userId := 1
  folderId := 0
  uid := 0
  content := { rawFilePath := Bytes.lit "mailstore/alice/1.eml", fromAddress := Bytes.lit "bob" }

theorem inFolders_aliceDB : InFolders aliceDB := fun _ _ h => nomatch h

theorem uidBelow_aliceDB : UidBelow aliceDB := fun _ _ _ h => nomatch h

/-- The first client renames the folder; the other delivers before it reads the row, and once more
when it has written it back. -/
def deliveriesAndRename : List (Act Bool RepoCall Bytes Empty) :=
  [.start false (.renameFolder 1 (Bytes.lit "Archive")), .start true (.append aliceMail 1),
    .step true, .step true, .step false, .step false, .start true (.deliver aliceMail 1),
    .step false, .step false, .step true, .step true]

theorem uidBelow_delivered :
    UidBelow aliceDB ∧ ∃ n',
      Run.exec clients.next aliceClients deliveriesAndRename = some n' ∧ UidBelow n'.db ∧
      n'.db.folders.rows.map (fun r => (r.2.name, r.2.nextUid)) = [(Bytes.lit "Archive", 3)] ∧
      n'.db.messages.rows.map (·.2.uid) = [1, 2] := by
  refine ⟨uidBelow_aliceDB, _, rfl, ?_, rfl, rfl⟩
  exact (uidBelow_of_exec (fun _ => rfl) inFolders_aliceDB uidBelow_aliceDB
    (by decide : Run.Along clients.next RenamesFresh aliceClients deliveriesAndRename)
    rfl).1

/-- **A rename that read the folder before a delivery and writes it back after takes `next_uid`
below the uid of the delivered message.** -/
theorem uidBelow_lost :
    ∃ (n n₁ n₂ : Clients Bool) (as : List (Act Bool RepoCall Bytes Empty))
      (a : Act Bool RepoCall Bytes Empty),
      (∀ i, n.client i = .idle ()) ∧ InFolders n.db ∧ UidBelow n.db ∧
      Run.exec clients.next n as = some n₁ ∧ clients.next n₁ a = some n₂ ∧
      ¬ NextUidGrows n₁.db n₂.db ∧ ¬ UidBelow n₂.db := by
  refine ⟨aliceClients, _, _, [.start false (.renameFolder 1 (Bytes.lit "Archive")), .step false,
    .step false, .start true (.append aliceMail 1), .step true], .step false, fun _ => rfl,
    inFolders_aliceDB, uidBelow_aliceDB, rfl, rfl, ?_, ?_⟩
  · exact fun h => absurd (h 1 _ _ rfl rfl) (by decide)
  · exact fun h => absurd (h 1 _ _ rfl rfl) (by decide)

end MailStack.Store
