import MailStack.Store.Ledger
import MailStack.Store.Listing
import Mathlib.Data.List.Nodup
import Mathlib.Logic.Relation

/-!
# Store/Lasting — the number of a message, while none is removed

A client addresses a message by its number in the folder.  Where no write moves a message or renames a
folder, a message that stays is at its place, and what comes to a folder comes behind everything in
it (`Lasts`).  So the number of a message falls by as many as went before it, and by nothing else:
`Lasts.position_add`.
-/

namespace Table
variable {α : Type*} {t t' : Table α} {i : ℤ} {a : α}

/-- The first row with a property is the one with the smallest id. -/
theorem find?_rows_eq_some_iff {p : ℤ × α → Bool} : t.rows.find? p = some (i, a) ↔
    t.get? i = some a ∧ p (i, a) = true ∧ ∀ j b, t.get? j = some b → p (j, b) = true → i ≤ j := by
  have hfirst : ∀ {r : ℤ × α}, t.rows.find? p = some r → ∀ j b, t.get? j = some b →
      p (j, b) = true → r.1 ≤ j := by
    intro r hr j b hb hp
    obtain ⟨-, as, bs, hrows, has⟩ := List.find?_eq_some_iff_append.mp hr
    have hsorted := t.sorted
    rw [hrows] at hsorted
    have hmem : (j, b) ∈ as ++ r :: bs := hrows ▸ mem_rows_iff.mpr hb
    rcases List.mem_append.mp hmem with hmem | hmem
    · exact absurd hp (by simpa using has _ hmem)
    · rcases List.mem_cons.mp hmem with rfl | hmem
      · exact Int.le_refl _
      · exact ((List.pairwise_cons.mp (List.pairwise_append.mp hsorted).2.1).1 _ hmem).le
  constructor
  · intro h
    exact ⟨mem_rows_iff.mp (List.mem_of_find?_eq_some h), List.find?_some h, hfirst h⟩
  · rintro ⟨ha, hp, hleast⟩
    obtain ⟨⟨j, b⟩, hr⟩ := Option.isSome_iff_exists.mp
      (List.find?_isSome.mpr ⟨(i, a), mem_rows_iff.mpr ha, hp⟩)
    have hb := mem_rows_iff.mp (List.mem_of_find?_eq_some hr)
    obtain rfl : j = i :=
      Int.le_antisymm (hfirst hr i a ha hp) (hleast j b hb (List.find?_some hr))
    rw [hr, Option.some.inj (ha.symm.trans hb)]

/-- As many rows have a property where the same ids have it. -/
theorem countP_rows_congr {p p' : ℤ × α → Bool}
    (h : ∀ j, (∃ a, t.get? j = some a ∧ p (j, a) = true) ↔
      ∃ a, t'.get? j = some a ∧ p' (j, a) = true) : t.rows.countP p = t'.rows.countP p' := by
  have hnodup : ∀ (t : Table α) (p : ℤ × α → Bool), ((t.rows.filter p).map (·.1)).Nodup := by
    intro t p
    refine List.Pairwise.imp (fun hlt => Int.ne_of_lt hlt) ?_
    exact List.pairwise_map.mpr (t.sorted.filter _)
  have hmem : ∀ (t : Table α) (p : ℤ × α → Bool) (j : ℤ), j ∈ (t.rows.filter p).map (·.1) ↔
      ∃ a, t.get? j = some a ∧ p (j, a) = true := by
    intro t p j
    simp only [List.mem_map, List.mem_filter, Prod.exists, mem_rows_iff]
    constructor
    · rintro ⟨_, a, ⟨ha, hp⟩, rfl⟩
      exact ⟨a, ha, hp⟩
    · rintro ⟨a, ha, hp⟩
      exact ⟨j, a, ⟨ha, hp⟩, rfl⟩
  have hperm := (List.perm_ext_iff_of_nodup (hnodup t p) (hnodup t' p')).mpr fun j => by
    rw [hmem, hmem, h]
  simpa only [List.length_map, ← List.countP_eq_length_filter] using hperm.length_eq

end Table

namespace MailStack.Store

/-- The write neither moves a message nor writes back the row of a folder. -/
def InPlace : StoreWrite → Prop
  | .message (.moveToFolder ..) | .message (.updateFolder _) => False
  | _ => True

/-- Every message that is left is in its place, every folder that is left has its name, and what is
new came to a new folder or behind the `next_uid` of an old one. -/
structure Lasts (db db' : DB) : Prop where
  later : Later db db'
  named : ∀ i f', db'.folders.get? i = some f' → i ≤ db.folders.seq →
    ∃ f, db.folders.get? i = some f ∧ f'.userId = f.userId ∧ f'.name = f.name
  seq : db.messages.seq ≤ db'.messages.seq
  old : ∀ i m', db'.messages.get? i = some m' → i ≤ db.messages.seq →
    ∃ m, db.messages.get? i = some m ∧ m'.folderId = m.folderId ∧ m'.uid = m.uid
  fresh : ∀ i m', db'.messages.get? i = some m' → db.messages.seq < i →
    db.folders.seq < m'.folderId ∨
      ∃ f, db.folders.get? m'.folderId = some f ∧ f.nextUid ≤ m'.uid

namespace Lasts

variable {db db' db'' : DB}

theorem refl (db : DB) : Lasts db db where
  later := .refl db
  named _ f hf _ := ⟨f, hf, rfl, rfl⟩
  seq := Int.le_refl _
  old _ m hm _ := ⟨m, hm, rfl, rfl⟩
  fresh i m hm hi := by
    have := Table.le_seq_of_get? hm
    omega

theorem trans (h : Lasts db db') (h' : Lasts db' db'') : Lasts db db'' where
  later := h.later.trans h'.later
  named i f'' hf'' hi := by
    obtain ⟨f', hf', huser', hname'⟩ := h'.named i f'' hf'' (Int.le_trans hi h.later.1)
    obtain ⟨f, hf, huser, hname⟩ := h.named i f' hf' hi
    exact ⟨f, hf, huser'.trans huser, hname'.trans hname⟩
  seq := Int.le_trans h.seq h'.seq
  old i m'' hm'' hi := by
    obtain ⟨m', hm', hfolder', huid'⟩ := h'.old i m'' hm'' (Int.le_trans hi h.seq)
    obtain ⟨m, hm, hfolder, huid⟩ := h.old i m' hm' hi
    exact ⟨m, hm, hfolder'.trans hfolder, huid'.trans huid⟩
  fresh i m'' hm'' hi := by
    rcases Int.lt_or_le db'.messages.seq i with hnew | hold
    · rcases h'.fresh i m'' hm'' hnew with hfolder | ⟨f', hf', hle'⟩
      · exact .inl (Int.lt_of_le_of_lt h.later.1 hfolder)
      · rcases Int.lt_or_le db.folders.seq m''.folderId with hfolder | hfolder
        · exact .inl hfolder
        · obtain ⟨f, hf, hle⟩ := h.later.2 _ f' hf' hfolder
          exact .inr ⟨f, hf, Int.le_trans hle hle'⟩
    · obtain ⟨m', hm', hfolder, huid⟩ := h'.old i m'' hm'' hold
      rw [hfolder, huid]
      exact h.fresh i m' hm' hi

/-- What stays where it is, and a write that places as it should. -/
theorem of_placing (hp : Placing db db') (hseq : db.messages.seq ≤ db'.messages.seq)
    (hold : ∀ i m', db'.messages.get? i = some m' → i ≤ db.messages.seq →
      ∃ m, db.messages.get? i = some m ∧ m'.folderId = m.folderId ∧ m'.uid = m.uid)
    (hnamed : ∀ i f', db'.folders.get? i = some f' → i ≤ db.folders.seq →
      ∃ f, db.folders.get? i = some f ∧ f'.userId = f.userId ∧ f'.name = f.name) :
    Lasts db db' where
  later := hp.later
  named := hnamed
  seq := hseq
  old := hold
  fresh i m' hm' hi := by
    have hplaced : place (i, m') ∈ placements db db' := by
      refine mem_placements.mpr ⟨m', hm', rfl, fun m hm _ => ?_⟩
      exact absurd (Table.le_seq_of_get? hm) (Int.not_le.mpr hi)
    obtain ⟨f, hf, huid, -⟩ := hp.next _ hplaced
    exact .inr ⟨f, hf, huid.ge⟩

/-- A message that is added. -/
theorem old_insert {m : MessageData} (h : db'.messages = db.messages.insert m) (i : ℤ)
    (m' : MessageData) (hm' : db'.messages.get? i = some m') (hi : i ≤ db.messages.seq) :
    ∃ m, db.messages.get? i = some m ∧ m'.folderId = m.folderId ∧ m'.uid = m.uid := by
  rw [h, Table.get?_insert, if_neg (by omega)] at hm'
  exact ⟨m', hm', rfl, rfl⟩

theorem named_of_eq (h : db'.folders = db.folders) (i : ℤ) (f' : FolderData)
    (hf' : db'.folders.get? i = some f') (_ : i ≤ db.folders.seq) :
    ∃ f, db.folders.get? i = some f ∧ f'.userId = f.userId ∧ f'.name = f.name := by
  rw [h] at hf'
  exact ⟨f', hf', rfl, rfl⟩

theorem named_of_modify {id : ℤ} {g : FolderData → FolderData}
    (h : db'.folders = db.folders.modify id g)
    (hg : ∀ f, (g f).userId = f.userId ∧ (g f).name = f.name) (i : ℤ) (f' : FolderData)
    (hf' : db'.folders.get? i = some f') (_ : i ≤ db.folders.seq) :
    ∃ f, db.folders.get? i = some f ∧ f'.userId = f.userId ∧ f'.name = f.name := by
  rw [h, Table.get?_modify] at hf'
  split_ifs at hf'
  · obtain ⟨f, hf, rfl⟩ := Option.map_eq_some_iff.mp hf'
    exact ⟨f, hf, hg f⟩
  · exact ⟨f', hf', rfl, rfl⟩

theorem named_of_filter {p : ℤ → FolderData → Bool} (h : db'.folders = db.folders.filter p) (i : ℤ)
    (f' : FolderData) (hf' : db'.folders.get? i = some f') (_ : i ≤ db.folders.seq) :
    ∃ f, db.folders.get? i = some f ∧ f'.userId = f.userId ∧ f'.name = f.name := by
  rw [h, Table.get?_filter] at hf'
  exact ⟨f', (Option.filter_eq_some_iff.mp hf').1, rfl, rfl⟩

end Lasts

/-! ## The writes -/

section Writes

variable {db db' : DB} {a : Answer}

/-- A write that only takes messages away, or leaves them where they are. -/
theorem Lasts.of_stays (hp : Placing db db') (hs : Stays db db')
    (hseq : db'.messages.seq = db.messages.seq)
    (hnamed : ∀ i f', db'.folders.get? i = some f' → i ≤ db.folders.seq →
      ∃ f, db.folders.get? i = some f ∧ f'.userId = f.userId ∧ f'.name = f.name) : Lasts db db' :=
  .of_placing hp hseq.ge (fun i m' hm' _ => hs i m' hm') hnamed

theorem foldl_hardDelete_seq :
    ∀ (ids : List ℤ) (db : DB), (ids.foldl MessageDAL.hardDelete db).messages.seq = db.messages.seq
  | [], _ => rfl
  | id :: ids, db => foldl_hardDelete_seq ids (MessageDAL.hardDelete db id)

theorem Effect.lasts {w : Write} (h : Effect db w db' a) (hw : Timely db (.message w))
    (hin : InPlace (.message w)) : Lasts db db' := by
  have hp := h.placing hw
  cases h with
  | assignUID =>
    refine .of_placing hp (Int.le_of_lt (Int.lt_succ _)) (Lasts.old_insert rfl) ?_
    exact Lasts.named_of_modify (FolderDAL.incrementNextUID_folders _ _) fun f => ⟨rfl, rfl⟩
  | copy =>
    refine .of_placing hp (Int.le_of_lt (Int.lt_succ _)) (Lasts.old_insert rfl) ?_
    exact Lasts.named_of_modify (FolderDAL.incrementNextUID_folders _ _) fun f => ⟨rfl, rfl⟩
  | incrementNextUID =>
    exact .of_stays hp (Stays.of_eq rfl) rfl
      (Lasts.named_of_modify (FolderDAL.incrementNextUID_folders _ _) fun f => ⟨rfl, rfl⟩)
  | updateSeen | updateDeleted | updateFlags =>
    exact .of_stays hp (stays_setFlags db _ _) rfl (Lasts.named_of_eq rfl)
  | clearRecentByFolder =>
    exact .of_stays hp (stays_clearRecentByFolder db _) rfl (Lasts.named_of_eq rfl)
  | @expunge ids =>
    exact .of_stays hp (stays_expunge ids db) (foldl_hardDelete_seq ids db)
      (Lasts.named_of_eq (foldl_hardDelete_folders ids db))
  | @hardDelete id =>
    exact .of_stays hp (Stays.of_filter (MessageDAL.hardDelete_messages db id)) rfl
      (Lasts.named_of_eq rfl)
  | @insertFolder f =>
    refine .of_stays hp (Stays.of_eq rfl) rfl fun i f' hf' hi => ?_
    rw [Table.get?_insert, if_neg (by omega)] at hf'
    exact ⟨f', hf', rfl, rfl⟩
  | @deleteFolder id =>
    exact .of_stays hp (Stays.of_filter (FolderDAL.hardDelete_messages db id)) rfl
      (Lasts.named_of_filter (FolderDAL.hardDelete_folders db id))
  | @setSubscribed id b =>
    exact .of_stays hp (Stays.of_eq rfl) rfl
      (Lasts.named_of_modify (FolderDAL.setSubscribed_folders db id b) fun f => ⟨rfl, rfl⟩)
  | moveToFolder | moveNothing | updateFolder => exact hin.elim

theorem StoreEffect.lasts {w : StoreWrite} (h : StoreEffect db w db' a) (hw : Timely db w)
    (hin : InPlace w) : Lasts db db' := by
  have hp := h.placing hw
  cases h with
  | message h => exact h.lasts hw hin
  | @deleteUser id =>
    exact .of_stays hp (Stays.of_filter (p := fun _ m => UserDAL.outlives db id m) rfl) rfl
      (Lasts.named_of_filter (p := fun i _ => i ∉ UserDAL.gone db id) rfl)
  | insertRecipient | deleteRecipient | insertUser | updateUser | updatePassword | updateProfile =>
    exact .of_stays hp (Stays.of_eq rfl) rfl (Lasts.named_of_eq rfl)

end Writes

/-! ## What is looked up -/

section Lookup

variable {db db' : DB}

/-- **A name stands for the same folder** as long as that folder is there. A new folder has a
later id. -/
theorem Lasts.findByName (h : Lasts db db') {u i : ℤ} {name : Bytes}
    (hfind : (FolderDAL.findByName db u name).bind (·.id) = some i)
    (hstays : (db'.folders.get? i).isSome = true) :
    (FolderDAL.findByName db' u name).bind (·.id) = some i := by
  obtain ⟨f, hf, hid⟩ := Option.bind_eq_some_iff.mp hfind
  obtain ⟨⟨j, g⟩, hrow, rfl⟩ := Option.map_eq_some_iff.mp hf
  obtain rfl : j = i := Option.some.inj hid
  obtain ⟨hg, hnamed, hfirst⟩ := Table.find?_rows_eq_some_iff.mp hrow
  have hle := Table.le_seq_of_get? hg
  obtain ⟨g', hg'⟩ := Option.isSome_iff_exists.mp hstays
  obtain ⟨g₀, hg₀, huser, hname⟩ := h.named j g' hg' hle
  obtain rfl : g = g₀ := Option.some.inj (hg.symm.trans hg₀)
  have hrow' : db'.folders.rows.find? (fun r => decide (r.2.userId = u ∧ r.2.name = cstr name)) =
      some (j, g') := by
    refine Table.find?_rows_eq_some_iff.mpr ⟨hg', ?_, fun k e he hk => ?_⟩
    · rw [decide_eq_true_eq] at hnamed ⊢
      exact ⟨huser.trans hnamed.1, hname.trans hnamed.2⟩
    · rcases Int.lt_or_le db.folders.seq k with hnew | hold
      · exact hle.trans hnew.le
      · obtain ⟨e₀, he₀, huser₀, hname₀⟩ := h.named k e he hold
        refine hfirst k e₀ he₀ ?_
        rw [decide_eq_true_eq] at hk ⊢
        exact ⟨huser₀.symm.trans hk.1, hname₀.symm.trans hk.2⟩
  rw [FolderDAL.findByName, hrow']
  rfl

/-- How many messages that stood before the message in its folder are gone. -/
def goneBefore (db db' : DB) (m : MessageData) : ℕ :=
  db.messages.rows.countP fun r =>
    (r.2.folderId = m.folderId ∧ r.2.uid < m.uid) ∧ (db'.messages.get? r.1).isNone = true

/-- A message that was there has the folder and the uid it had. -/
theorem Lasts.same (h : Lasts db db') {i : ℤ} {m m' : MessageData}
    (hm : db.messages.get? i = some m) (hm' : db'.messages.get? i = some m') :
    m'.folderId = m.folderId ∧ m'.uid = m.uid := by
  obtain ⟨m₀, hm₀, hsame⟩ := h.old i m' hm' (Table.le_seq_of_get? hm)
  obtain rfl : m = m₀ := Option.some.inj (hm.symm.trans hm₀)
  exact hsame

/-- **What is new stands behind what was there.** -/
theorem Lasts.behind (h : Lasts db db') (hc : Consistent db) {i j : ℤ} {m n' : MessageData}
    (hm : db.messages.get? i = some m) (hnew : db.messages.get? j = none)
    (hn' : db'.messages.get? j = some n') (hfolder : n'.folderId = m.folderId) : m.uid < n'.uid := by
  have hlt : db.messages.seq < j := by
    by_contra hle
    obtain ⟨n, hn, -⟩ := h.old j n' hn' (Int.not_lt.mp hle)
    rw [hnew] at hn
    cases hn
  obtain ⟨f, hf⟩ := Option.isSome_iff_exists.mp (hc.folder i m hm)
  rcases h.fresh j n' hn' hlt with hseq | ⟨f', hf', hnext⟩
  · exact absurd (Table.le_seq_of_get? hf) (Int.not_le.mpr (hfolder ▸ hseq))
  · exact Int.lt_of_lt_of_le (hc.below i m f' hm (hfolder ▸ hf')) hnext

/-- **The number of a message falls by as many as went before it.** -/
theorem Lasts.position_add (h : Lasts db db') (hc : Consistent db) {i : ℤ} {m m' : MessageData}
    (hm : db.messages.get? i = some m) (hm' : db'.messages.get? i = some m') :
    position db' (MessageDAL.rowToMessage i m') + goneBefore db db' m =
      position db (MessageDAL.rowToMessage i m) := by
  obtain ⟨hfolder, huid⟩ := h.same hm hm'
  have hbefore : ∀ j, (∃ n', db'.messages.get? j = some n' ∧
      n'.folderId = m'.folderId ∧ n'.uid < m'.uid) ↔
      ∃ n, db.messages.get? j = some n ∧ (n.folderId = m.folderId ∧ n.uid < m.uid) ∧
        ¬ (db'.messages.get? j).isNone = true := by
    intro j
    rw [hfolder, huid]
    constructor
    · rintro ⟨n', hn', hfolder', hlt⟩
      cases hn : db.messages.get? j with
      | none => exact absurd hlt (Int.lt_asymm (h.behind hc hm hn hn' hfolder'))
      | some n =>
        obtain ⟨hfolder₀, huid₀⟩ := h.same hn hn'
        refine ⟨n, rfl, ⟨hfolder₀.symm.trans hfolder', huid₀ ▸ hlt⟩, ?_⟩
        simp [hn']
    · rintro ⟨n, hn, ⟨hfolder', hlt⟩, hleft⟩
      obtain ⟨n', hn'⟩ := Option.ne_none_iff_exists'.mp (mt Option.isNone_iff_eq_none.mpr hleft)
      obtain ⟨hfolder₀, huid₀⟩ := h.same hn hn'
      exact ⟨n', hn', hfolder₀.trans hfolder', huid₀ ▸ hlt⟩
  have hleft : db'.messages.rows.countP (fun r => r.2.folderId = m'.folderId ∧ r.2.uid < m'.uid) =
      db.messages.rows.countP fun r => (r.2.folderId = m.folderId ∧ r.2.uid < m.uid) ∧
        ¬ (db'.messages.get? r.1).isNone = true := by
    refine Table.countP_rows_congr fun j => ?_
    simpa only [decide_eq_true_eq] using hbefore j
  have hsplit := List.countP_eq_countP_filter_add db.messages.rows
    (fun r => decide (r.2.folderId = m.folderId ∧ r.2.uid < m.uid))
    fun r => (db'.messages.get? r.1).isNone
  simp only [List.countP_filter] at hsplit
  change db'.messages.rows.countP (fun r => r.2.folderId = m'.folderId ∧ r.2.uid < m'.uid) + 1 + _ =
    db.messages.rows.countP (fun r => r.2.folderId = m.folderId ∧ r.2.uid < m.uid) + 1
  rw [hleft, hsplit, goneBefore]
  simp only [Bool.decide_and, Bool.decide_eq_true, decide_not]
  ac_rfl

end Lookup

/-! ## Databases that come after one another -/

/-- One write, of something that was still so when it was made. -/
def Follows (db db' : DB) : Prop :=
  ∃ w a, StoreEffect db w db' a ∧ Timely db w ∧ InPlace w

/-- Any number of them. -/
abbrev FollowsOn : DB → DB → Prop := Relation.ReflTransGen Follows

theorem FollowsOn.lasts {db db' : DB} (h : FollowsOn db db') : Lasts db db' := by
  induction h with
  | refl => exact .refl db
  | tail _ hlast ih =>
    obtain ⟨w, a, heffect, hw, hin⟩ := hlast
    exact ih.trans (heffect.lasts hw hin)

/-- The uids handed out go on. -/
theorem FollowsOn.ledger {db db' : DB} (h : FollowsOn db db') {l : List Placement}
    (hl : Ledger l db) : ∃ l', Ledger l' db' := by
  induction h with
  | refl => exact ⟨l, hl⟩
  | tail _ hlast ih =>
    obtain ⟨w, a, heffect, hw, -⟩ := hlast
    obtain ⟨l', hl'⟩ := ih
    exact ⟨_, hl'.step (heffect.keyed hl'.keyed) (heffect.placing hw)⟩

end MailStack.Store
