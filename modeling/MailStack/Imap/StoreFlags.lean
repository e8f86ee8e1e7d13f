import MailStack.Imap.Expunge
import MailStack.Store.FlagAlgebra

/-!
# Imap/StoreFlags — `STORE` as an operation on sets of flags

The item of a `STORE` becomes a prefix of each flag, and `setFlags` reads the operation off the
prefixes again.  `leaves_handleStore_known` and `leaves_handleUidStore_known` say what this comes to
for every list of known flags: the flags of the selected messages change, and nothing else does.
An empty list has no prefix: `stores_iff`.
-/

open Bytes

namespace MailStack.Imap

open Store Prog ImapResponse

/-! ## The operation -/

/-- The operation an item stands for: its first character says. -/
def storeOp (item : Bytes) : FlagOp :=
  if item.head? = some '+'.toUInt8 then .add
  else if item.head? = some '-'.toUInt8 then .remove
  else .replace

/-- The items that stand for an operation. -/
def storeItems : FlagOp → List Bytes
  | .add => [lit "+FLAGS", lit "+FLAGS.SILENT"]
  | .remove => [lit "-FLAGS", lit "-FLAGS.SILENT"]
  | .replace => [lit "FLAGS", lit "FLAGS.SILENT"]

theorem storeOp_of_mem {op : FlagOp} {item : Bytes} (h : item ∈ storeItems op) :
    storeOp item = op := by
  have hall : ∀ op : FlagOp, ∀ item ∈ storeItems op, storeOp item = op := by
    intro op
    cases op <;> decide
  exact hall op item h

theorem flagsToSend_known (item : Bytes) (L : List Flag) :
    flagsToSend item (L.map Flag.name) = L.map fun c => (storeOp item).mark ++ c.name := by
  unfold flagsToSend storeOp
  cases item.head? with
  | none => rfl
  | some x =>
    by_cases hplus : x = '+'.toUInt8
    · subst hplus
      dsimp only
      rw [if_pos (.inl rfl), if_pos rfl, List.map_map]
      rfl
    · by_cases hminus : x = '-'.toUInt8
      · subst hminus
        dsimp only
        rw [if_pos (.inr rfl), if_neg (by decide), if_pos rfl, List.map_map]
        rfl
      · simp [hplus, hminus, FlagOp.mark]

theorem mem_validSystemFlags {name : Bytes} :
    name ∈ validSystemFlags ↔ ∃ c : Flag, name = c.name := by
  constructor
  · intro h
    have hknown : ∀ name ∈ validSystemFlags, (Flag.ofName name).isSome = true := by decide
    obtain ⟨c, hc⟩ := Option.isSome_iff_exists.mp (hknown name h)
    exact ⟨c, Flag.name_eq_of_ofName hc⟩
  · rintro ⟨c, rfl⟩
    cases c <;> decide

/-- `STORE` knows the names of the columns, and no others. -/
theorem unknownFlag_eq_none_iff {raw : List Bytes} :
    unknownFlag raw = none ↔ ∃ L : List Flag, raw = L.map Flag.name := by
  rw [unknownFlag, List.find?_eq_none]
  constructor
  · intro h
    induction raw with
    | nil => exact ⟨[], rfl⟩
    | cons name raw ih =>
      obtain ⟨c, rfl⟩ := mem_validSystemFlags.mp (by simpa using h name (List.mem_cons_self ..))
      obtain ⟨L, rfl⟩ := ih fun name hname => h name (List.mem_cons_of_mem _ hname)
      exact ⟨c :: L, rfl⟩
  · rintro ⟨L, rfl⟩ name hname
    obtain ⟨c, -, rfl⟩ := List.mem_map.mp hname
    simpa using mem_validSystemFlags.mpr ⟨c, rfl⟩

/-! ## One message after the other -/

section Alone

variable {d : Dispatcher} {db : DB} {inbox : ℤ} {cmd : ImapCommand} {set item text : Bytes}
  {L : List Flag} {ids : List ℤ}

theorem mem_page_of_nthMessage {m : Message} {n : ℤ} (h : nthMessage db inbox n = some m) :
    m ∈ page db inbox := by
  rw [nthMessage] at h
  split_ifs at h
  exact List.mem_of_getElem? h

/-- The flags sent for known flags are written. -/
theorem setRows_known (db : DB) (item : Bytes) (L : List Flag) (ids : List ℤ) :
    setRows db (flagsToSend item (L.map Flag.name)) ids =
      MessageDAL.flagRows db ids ((storeOp item).written L) := by
  rw [setRows, flagsToSend_known, ← MessageDAL.foldl_setFlags fun f => FlagOp.written_idem]
  simp only [MessageDAL.run_setFlags_eq (FlagOp.newFlags_map (storeOp item) L)]

/-- A message is found under its uid after an update of flags. -/
theorem id_findByUID_setFlags (db : DB) (id : ℤ) (g : Flags → Flags) (folderId uid : ℤ) :
    (MessageDAL.findByUID (MessageDAL.setFlags db id g) folderId uid).bind (·.id) =
      (MessageDAL.findByUID db folderId uid).bind (·.id) := by
  rw [MessageDAL.findByUID, MessageDAL.setFlags_messages,
    Table.find?_modify (f := fun m : MessageData => { m with flags := g m.flags })
      fun _ _ => rfl, MessageDAL.findByUID]
  cases db.messages.rows.find? fun r => decide (r.2.folderId = folderId ∧ r.2.uid = uid) with
  | none => rfl
  | some r => rfl

/-- **`UID STORE`** updates the messages that have the uids. They are looked up one by one, each
after the updates before it. -/
theorem leaves_handleUidStore (hd : Opened d inbox) (hargs : cmd.args = [set, item, text])
    (hknown : unknownFlag (splitArgs (trimParentheses text)) = none)
    (hset : parseSequenceSet set int64Max = .ok ids) :
    Leaves (handleUidStore cmd) d db (setRows db
      (flagsToSend item (splitArgs (trimParentheses text)))
      ((ids.filterMap (MessageDAL.findByUID db inbox)).filterMap (·.id))) := by
  refine .get_bind ?_
  rw [if_neg (not_not_intro hd.state), if_neg (by simp [hargs])]
  refine .catching (.bind (.arg (by rw [hargs]; rfl)) ?_)
  simp only [hknown]
  refine .bind (.arg (by rw [hargs]; rfl)) (.bind (.arg (by rw [hargs]; rfl)) ?_)
  refine .bind (.sequenceSet hset) (Leaves.then_pure ?_)
  have hrows : (ids.filterMap (MessageDAL.findByUID db inbox)).filterMap (·.id) =
      ids.zipIdx.filterMap fun p => (MessageDAL.findByUID db inbox p.1).bind (·.id) := by
    conv_lhs => rw [List.filterMap_filterMap, ← List.zipIdx_map_fst 0 ids, List.filterMap_map]
    rfl
  rw [setRows, hrows]
  refine leaves_each
    (A := fun db' => ∀ uid, (MessageDAL.findByUID db' inbox uid).bind (·.id) =
      (MessageDAL.findByUID db inbox uid).bind (·.id))
    (fun db' id h uid => ?_) (fun p e db' h => ?_) ids.zipIdx d.lastError db fun _ => rfl
  · rcases run_setFlags db' id (flagsToSend item (splitArgs (trimParentheses text))) with
      hrun | ⟨f, hrun⟩
    · rw [hrun, h]
    · rw [hrun, id_findByUID_setFlags, h]
  · refine .bind (.get_bind (.value hd.mailbox)) (.bind (serves_findByUID inbox p.1) ?_)
    rw [← h p.1]
    cases hfind : MessageDAL.findByUID db' inbox p.1 with
    | none => exact .pure _
    | some m =>
      obtain ⟨-, id, hid, -⟩ := (of_findByUID_eq_some hfind).1
      rw [Option.bind_some, hid]
      exact leaves_storeOne hid

/-- **`STORE` of known flags**: the messages that the numbers select are updated. -/
theorem leaves_handleStore_known (hd : Opened d inbox) (hargs : cmd.args = [set, item, text])
    (hflags : splitArgs (trimParentheses text) = L.map Flag.name)
    (hset : parseSequenceSet set (page db inbox).length = .ok ids) :
    Leaves (handleStore cmd) d db
      (MessageDAL.flagRows db ((selectMessages (page db inbox) ids).filterMap (·.id))
        ((storeOp item).written L)) := by
  rw [← setRows_known, ← hflags]
  exact leaves_handleStore hd hargs (unknownFlag_eq_none_iff.mpr ⟨L, hflags⟩) hset

/-- **`UID STORE` of known flags**: the messages that have the uids are updated. -/
theorem leaves_handleUidStore_known (hd : Opened d inbox) (hargs : cmd.args = [set, item, text])
    (hflags : splitArgs (trimParentheses text) = L.map Flag.name)
    (hset : parseSequenceSet set int64Max = .ok ids) :
    Leaves (handleUidStore cmd) d db
      (MessageDAL.flagRows db ((ids.filterMap (MessageDAL.findByUID db inbox)).filterMap (·.id))
        ((storeOp item).written L)) := by
  rw [← setRows_known, ← hflags]
  exact leaves_handleUidStore hd hargs (unknownFlag_eq_none_iff.mpr ⟨L, hflags⟩) hset

/-- A list with an unknown flag is refused. -/
theorem serves_handleStore_unknown (hd : Opened d inbox) (hargs : cmd.args = [set, item, text])
    {f : Bytes} (hflags : unknownFlag (splitArgs (trimParentheses text)) = some f) :
    Serves (handleStore cmd) d db (bad cmd.tag (lit "Unknown flag: " ++ f)) d db := by
  refine .get_bind ?_
  rw [if_neg (not_not_intro hd.state), if_neg (by simp [hargs])]
  refine .catching (.bind (.arg (by rw [hargs]; rfl)) ?_)
  simp only [hflags]
  exact .pure _

theorem serves_handleUidStore_unknown (hd : Opened d inbox) (hargs : cmd.args = [set, item, text])
    {f : Bytes} (hflags : unknownFlag (splitArgs (trimParentheses text)) = some f) :
    Serves (handleUidStore cmd) d db (bad cmd.tag (lit "Unknown flag: " ++ f)) d db := by
  refine .get_bind ?_
  rw [if_neg (not_not_intro hd.state), if_neg (by simp [hargs])]
  refine .catching (.bind (.arg (by rw [hargs]; rfl)) ?_)
  simp only [hflags]
  exact .pure _

theorem Leaves.db_eq {α : Type} {h : HandlerM α} {db' : DB} (hs : Leaves h d db db') :
    (serve h d db).1 = db' := by
  obtain ⟨a, e, hs⟩ := hs
  rw [hs]

/-! ## The law of the three operations -/

/-- A `STORE` of `m`: known flags become the set that the operation makes, everything else stays;
an unknown one is refused, and nothing changes. -/
structure StoresFlags (h : HandlerM Bytes) (tag : Bytes) (d : Dispatcher) (db : DB) (op : FlagOp)
    (raw : List Bytes) (m : Message) : Prop where
  known : ∀ L : List Flag, raw = L.map Flag.name →
    ∃ f : Flags, f.toSet = op.onSet {c | c ∈ L} m.flags.toSet ∧
      (serve h d db).1 = MessageDAL.flagRows db m.id.toList fun _ => f
  unknown : (∃ name ∈ raw, Flag.ofName name = none) →
    ∃ text, Serves h d db (bad tag text) d db

variable {m : Message} {op : FlagOp}

theorem storesFlags_known_iff {h : HandlerM Bytes} {id : ℤ} (hid : m.id = some id)
    (hrow : db.messages.get? id = some m.toMessageData) :
    (∃ f : Flags, f.toSet = op.onSet {c | c ∈ L} m.flags.toSet ∧
        (serve h d db).1 = MessageDAL.flagRows db m.id.toList fun _ => f) ↔
      (serve h d db).1 = MessageDAL.flagRows db [id] (op.onFlags L) := by
  have hconst : MessageDAL.flagRows db m.id.toList (fun _ => op.onFlags L m.flags) =
      MessageDAL.flagRows db [id] (op.onFlags L) := by
    rw [hid]
    exact (MessageDAL.flagRows_singleton_iff hrow).mpr rfl
  rw [← hconst]
  constructor
  · rintro ⟨f, hset, hdb⟩
    rw [hdb, Flags.toSet_injective (hset.trans FlagOp.toSet_onFlags.symm)]
  · exact fun hdb => ⟨_, FlagOp.toSet_onFlags, hdb⟩

/-- An unknown flag is found. -/
theorem exists_unknownFlag {raw : List Bytes} (h : ∃ name ∈ raw, Flag.ofName name = none) :
    ∃ f, unknownFlag raw = some f := by
  refine Option.ne_none_iff_exists'.mp fun hnone => ?_
  obtain ⟨L, rfl⟩ := unknownFlag_eq_none_iff.mp hnone
  obtain ⟨name, hname, hunknown⟩ := h
  obtain ⟨c, -, rfl⟩ := List.mem_map.mp hname
  exact nomatch (Flag.ofName_name c).symm.trans hunknown

/-- A message behind the page is not on it. -/
theorem notMem_page_of_lt_position (hu : UniqueUids db) (hm : InFolder db inbox m)
    (hbehind : ¬ position db m ≤ 50) : m ∉ page db inbox := by
  intro hmem
  have hnone : (page db inbox).findIdx? (·.uid = m.uid) = none := by
    rw [page, findIdx?_findByFolder hu hm, if_neg hbehind]
  simpa using List.findIdx?_eq_none_iff.mp hnone m hmem

/-- **`STORE` and `UID STORE` obey the law if and only if the list is not empty, or replaces, or the
message has no flag** — and for `STORE`, where it is on the page. -/
theorem stores_iff {store uidStore : ImapCommand} {uidSet : Bytes} (hd : Opened d inbox)
    (hu : UniqueUids db) (hm : InFolder db inbox m) (hitem : item ∈ storeItems op)
    (hstore : store.args = [set, item, text]) (huid : uidStore.args = [uidSet, item, text])
    (hset : parseSequenceSet set (page db inbox).length = .ok [(position db m : ℤ)])
    (huidSet : parseSequenceSet uidSet int64Max = .ok [m.uid]) :
    (StoresFlags (handleStore store) store.tag d db op (splitArgs (trimParentheses text)) m ↔
      ∀ L : List Flag, splitArgs (trimParentheses text) = L.map Flag.name →
        if position db m ≤ 50 then L = [] → op ≠ .replace → m.flags = .none
        else op.onFlags L m.flags = m.flags ∧
          ∀ m', nthMessage db inbox (position db m) = some m' →
            op.written L m'.flags = m'.flags) ∧
    (StoresFlags (handleUidStore uidStore) uidStore.tag d db op
        (splitArgs (trimParentheses text)) m ↔
      ∀ L : List Flag, splitArgs (trimParentheses text) = L.map Flag.name →
        L = [] → op ≠ .replace → m.flags = .none) := by
  obtain rfl := storeOp_of_mem hitem
  obtain ⟨-, id, hid, hrow⟩ := id hm
  have hiff : ∀ {h : HandlerM Bytes} {tag : Bytes} {fits : List Flag → Prop},
      (∀ f, unknownFlag (splitArgs (trimParentheses text)) = some f →
        Serves h d db (bad tag (lit "Unknown flag: " ++ f)) d db) →
      (∀ L : List Flag, splitArgs (trimParentheses text) = L.map Flag.name →
        ((serve h d db).1 = MessageDAL.flagRows db [id] ((storeOp item).onFlags L) ↔ fits L)) →
      (StoresFlags h tag d db (storeOp item) (splitArgs (trimParentheses text)) m ↔
        ∀ L : List Flag, splitArgs (trimParentheses text) = L.map Flag.name → fits L) := by
    intro h tag fits hrefused hfits
    constructor
    · intro hs L hL
      exact (hfits L hL).mp ((storesFlags_known_iff hid hrow).mp (hs.known L hL))
    · intro hall
      refine ⟨fun L hL => (storesFlags_known_iff hid hrow).mpr ((hfits L hL).mpr (hall L hL)), ?_⟩
      intro hunknown
      obtain ⟨f, hf⟩ := exists_unknownFlag hunknown
      exact ⟨_, hrefused f hf⟩
  have hpage : (page db inbox) = MessageDAL.findByFolder db inbox 50 0 := rfl
  constructor
  · refine hiff (fun f => serves_handleStore_unknown hd hstore) fun L hL => ?_
    rw [(leaves_handleStore_known hd hstore hL hset).db_eq, hpage, selectMessages_singleton]
    split_ifs with hle
    · rw [nthMessage_position hu hm hle, Option.toList_some, List.filterMap_cons_some hid,
        List.filterMap_nil, MessageDAL.flagRows_singleton_iff hrow]
      exact FlagOp.written_eq_iff
    · have hother : ∀ m', nthMessage db inbox (position db m) = some m' → m'.id ≠ m.id := by
        intro m' hm' hsame
        obtain ⟨i, hi, hrow'⟩ := (isRow_nthMessage hm').2
        obtain rfl : id = i := Option.some.inj (hid.symm.trans (hsame.symm.trans hi))
        have hmem : m' ∈ page db inbox := mem_page_of_nthMessage hm'
        rw [← rowToMessage_eq_iff.mpr ⟨hi, rfl⟩, Option.some.inj (hrow'.symm.trans hrow),
          rowToMessage_eq_iff.mpr ⟨hid, rfl⟩] at hmem
        exact notMem_page_of_lt_position hu hm hle hmem
      cases hn : nthMessage db inbox (position db m) with
      | none =>
        rw [Option.toList_none, List.filterMap_nil,
          MessageDAL.flagRows_eq_iff_of_notMem hrow List.not_mem_nil]
        simp
      | some m' =>
        obtain ⟨-, i, hi, hrow'⟩ := isRow_nthMessage hn
        have hne : id ∉ [i] := by
          intro hmem
          rw [List.mem_singleton] at hmem
          exact hother m' hn (by rw [hi, hid, hmem])
        rw [Option.toList_some, List.filterMap_cons_some hi, List.filterMap_nil,
          MessageDAL.flagRows_eq_iff_of_notMem hrow hne]
        simp [hrow']
  · refine hiff (fun f => serves_handleUidStore_unknown hd huid) fun L hL => ?_
    have hfind : MessageDAL.findByUID db inbox m.uid = some m :=
      (findByUID_eq_some_iff hu).mpr ⟨hm, rfl⟩
    rw [(leaves_handleUidStore_known hd huid hL huidSet).db_eq, List.filterMap_cons_some hfind,
      List.filterMap_nil, List.filterMap_cons_some hid, List.filterMap_nil,
      MessageDAL.flagRows_singleton_iff hrow]
    exact FlagOp.written_eq_iff

end Alone

/-! ## One message -/

/-- `STORE 1` and `UID STORE 1`. -/
def storeOf (type : ImapCommandType) (item text : String) : ImapCommand :=
  { tag := lit "a", type, args := [lit "1", lit item, lit text] }

theorem stores_iff_one :
    (StoresFlags (handleStore (storeOf .store "+FLAGS" "(\\Seen \\Seen)")) (lit "a") pageSession
        (pageDB 1) .add (splitArgs (trimParentheses (lit "(\\Seen \\Seen)"))) (lastMessage 1) ↔
      ∀ L : List Flag, splitArgs (trimParentheses (lit "(\\Seen \\Seen)")) = L.map Flag.name →
        if position (pageDB 1) (lastMessage 1) ≤ 50 then
          L = [] → FlagOp.add ≠ .replace → (lastMessage 1).flags = .none
        else FlagOp.add.onFlags L (lastMessage 1).flags = (lastMessage 1).flags ∧
          ∀ m', nthMessage (pageDB 1) 1 (position (pageDB 1) (lastMessage 1)) = some m' →
            FlagOp.add.written L m'.flags = m'.flags) ∧
    (StoresFlags (handleUidStore (storeOf .uidStore "+FLAGS" "(\\Seen \\Seen)")) (lit "a")
        pageSession (pageDB 1) .add (splitArgs (trimParentheses (lit "(\\Seen \\Seen)")))
        (lastMessage 1) ↔
      ∀ L : List Flag, splitArgs (trimParentheses (lit "(\\Seen \\Seen)")) = L.map Flag.name →
        L = [] → FlagOp.add ≠ .replace → (lastMessage 1).flags = .none) := by
  have hstore : (storeOf .store "+FLAGS" "(\\Seen \\Seen)").args =
      [lit "1", lit "+FLAGS", lit "(\\Seen \\Seen)"] := rfl
  have hset : parseSequenceSet (lit "1") (page (pageDB 1) 1).length =
      .ok [(position (pageDB 1) (lastMessage 1) : ℤ)] := by decide +kernel
  exact stores_iff opened_pageSession (uniqueUids_pageDB 1) inFolder_lastMessage_one
    (List.mem_cons_self ..) hstore hstore hset (by decide +kernel)

/-- **`+FLAGS ()` takes the only flag away.** -/
theorem not_stores_empty :
    Opened pageSession 1 ∧ UniqueUids (pageDB 1) ∧ InFolder (pageDB 1) 1 (lastMessage 1) ∧
      parseSequenceSet (lit "1") (page (pageDB 1) 1).length =
        .ok [(position (pageDB 1) (lastMessage 1) : ℤ)] ∧
      parseSequenceSet (lit "1") int64Max = .ok [(lastMessage 1).uid] ∧
      ¬ StoresFlags (handleStore (storeOf .store "+FLAGS" "()")) (lit "a") pageSession
        (pageDB 1) .add (splitArgs (trimParentheses (lit "()"))) (lastMessage 1) ∧
      ¬ StoresFlags (handleUidStore (storeOf .uidStore "+FLAGS" "()")) (lit "a") pageSession
        (pageDB 1) .add (splitArgs (trimParentheses (lit "()"))) (lastMessage 1) := by
  have hflag : ∀ {h : HandlerM Bytes},
      (serve h pageSession (pageDB 1)).1.messages.get? 1 =
        some { pageRow 1 with flags := .none } →
      ¬ StoresFlags h (lit "a") pageSession (pageDB 1) .add
        (splitArgs (trimParentheses (lit "()"))) (lastMessage 1) := by
    intro h hcleared hs
    obtain ⟨f, hset, hdb⟩ := hs.known [] (by decide)
    have hrecent : Flag.recent ∈ f.toSet := by
      rw [hset]
      exact .inl rfl
    rw [hdb] at hcleared
    have hflags : f = Flags.none := congrArg MessageData.flags (Option.some.inj hcleared)
    rw [hflags] at hrecent
    exact Bool.false_ne_true hrecent
  exact ⟨opened_pageSession, uniqueUids_pageDB 1, inFolder_lastMessage_one, by decide +kernel,
    by decide +kernel, hflag (by decide +kernel), hflag (by decide +kernel)⟩

end MailStack.Imap
