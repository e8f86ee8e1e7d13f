import Mathlib.Data.Finset.Max
import MailStack.Imap.FetchLine
import MailStack.Imap.SeqSet
import MailStack.Store.Uid

/-!
# Imap/UidSets — which messages `UID FETCH`, `UID STORE` and `UID COPY` act on

The three handlers expand the set through `ParseSequenceSet`, with `INT64_MAX` in the place of
`*`, and look up each uid of the result.  `uid_commands_iff` says when the messages they come to
act on are those the set denotes.

`handleUidFetchSelected` and `handleUidStoreSelected` are the handlers with these messages beside
the reply (`handleUidFetch_eq_map`, `handleUidStore_eq_map`), as `handleUidCopySelected` is for
`UID COPY`.
-/

open Bytes

namespace MailStack.Imap

open Store ImapResponse

/-! ## The handlers, with the messages they act on -/

section Found

variable {α γ δ : Type}

/-- What is done to the message with this uid, if there is one, and the message. -/
def onFound (uid : ℤ) (act : Message → HandlerM Bytes) : HandlerM (Bytes × List Message) := do
  match ← ask (MessageRepository.findByUID (← mailboxID) uid) with
  | none => return ([], [])
  | some msg => return (← act msg, [msg])

/-- The lines of a `UID FETCH`, each with its message. -/
def uidFetchFound (S : Services) (cmd : ImapCommand) :
    HandlerM (List (Bytes × List Message)) := do
  let uids ← sequenceSet (← arg cmd 0) int64Max
  let messages ← ask (MessageRepository.findByFolder (← mailboxID))
  let items := fetchItems (← arg cmd 1)
  uids.mapM fun uid => onFound uid fun msg => do
    let seqNum : ℕ := ((messages.findIdx? (·.uid = uid)).map (· + 1)).getD 0
    return fetch seqNum (← fetchData S cmd (lit "(UID " ++ decimal msg.uid ++ lit " ") items msg)

/-- The reply, and the messages it is about. -/
def completed (cmd : ImapCommand) (text : String) (found : List (Bytes × List Message)) :
    Bytes × List Message :=
  ((found.map (·.1)).flatten ++ ok cmd.tag (lit text), found.flatMap (·.2))

/-- `HandleUidFetch`, with the messages it found when it answers `OK`. -/
def handleUidFetchSelected (S : Services) (cmd : ImapCommand) :
    HandlerM (Bytes × List Message) := do
  if (← get).state ≠ .selected then return (bad cmd.tag (lit "No mailbox selected"), [])
  else if cmd.args.length < 2 then return (bad cmd.tag (lit "Missing arguments"), [])
  else catching (completed cmd "Uid Fetch completed" <$> uidFetchFound S cmd) fun e => do
    return (← fetchFailure cmd e, [])

/-- The lines of a `UID STORE`, each with its message. -/
def uidStoreFound (cmd : ImapCommand) (rawFlags : List Bytes) :
    HandlerM (List (Bytes × List Message)) := do
  let item ← arg cmd 1
  let uids ← sequenceSet (← arg cmd 0) int64Max
  uids.zipIdx.mapM fun p => onFound p.1 (storeOne item rawFlags fun m => fetch (p.2 + 1)
    (lit "(UID " ++ decimal m.uid ++ lit " " ++ formatFlagsResponse m ++ lit ")"))

/-- `HandleUidStore`, with the messages it found when it answers `OK`. -/
def handleUidStoreSelected (cmd : ImapCommand) : HandlerM (Bytes × List Message) := do
  if (← get).state ≠ .selected then return (bad cmd.tag (lit "No mailbox selected"), [])
  else if cmd.args.length ≠ 3 then return (bad cmd.tag (lit "Missing arguments"), [])
  else
    catching
      (do
        let rawFlags := splitArgs (trimParentheses (← arg cmd 2))
        match unknownFlag rawFlags with
        | some f => return (bad cmd.tag (lit "Unknown flag: " ++ f), [])
        | none => completed cmd "Uid Store completed" <$> uidStoreFound cmd rawFlags)
      fun _ => return (bad cmd.tag (lit "Invalid message sequence"), [])

/-- What a caught body comes to. -/
theorem run_catching (h : HandlerM α) (c : Exn → HandlerM α) :
    (catching h c).run = h.run >>= fun r =>
      match r with
      | .ok a => pure (.ok a)
      | .error (.throw e) => (c e).run
      | .error e => pure (.error e) := by
  rw [catching, ExceptT.run_tryCatch]
  refine bind_congr fun r => ?_
  match r with
  | .ok a => rfl
  | .error (.throw e) => rfl
  | .error .undefined => rfl
  | .error (.missing i) => rfl

/-- A function of the answer goes through the catching of exceptions. -/
theorem map_catching (f : α → γ) (h : HandlerM α) (c : Exn → HandlerM α) :
    f <$> catching h c = catching (f <$> h) fun e => f <$> c e := by
  refine ExceptT.ext ?_
  rw [run_catching, ExceptT.run_map, run_catching, ExceptT.run_map, map_bind, bind_map_left]
  refine bind_congr fun r => ?_
  match r with
  | .ok a => simp [Except.map]
  | .error (.throw e) => simp [Except.map]
  | .error .undefined => simp [Except.map]
  | .error (.missing i) => simp [Except.map]

theorem map_mapM (f : α → γ) (g : δ → HandlerM α) (l : List δ) :
    List.map f <$> l.mapM g = l.mapM fun x => f <$> g x := by
  induction l with
  | nil => simp
  | cons x l ih =>
    simp only [List.mapM_cons, map_bind, bind_map_left, map_pure, ← ih, List.map_cons]

/-- The reply text of the model with its trace is the handler's. -/
theorem fst_onFound (id : ℤ) (act : Message → HandlerM Bytes) :
    Prod.fst <$> onFound id act = (do
      match ← ask (MessageRepository.findByUID (← mailboxID) id) with
      | none => return []
      | some msg => act msg) := by
  rw [onFound, map_bind]
  refine bind_congr fun i => ?_
  rw [map_bind]
  refine bind_congr fun o => ?_
  cases o with
  | none => simp
  | some msg => simp

/-- So are the lines of `UID FETCH`. -/
theorem fst_uidFetchFound (S : Services) (cmd : ImapCommand) :
    List.map Prod.fst <$> uidFetchFound S cmd = uidFetchLines S cmd := by
  rw [uidFetchFound, uidFetchLines, map_bind]
  refine bind_congr fun a₀ => ?_
  rw [map_bind]
  refine bind_congr fun uids => ?_
  rw [map_bind]
  refine bind_congr fun id => ?_
  rw [map_bind]
  refine bind_congr fun messages => ?_
  rw [map_bind]
  refine bind_congr fun a₁ => ?_
  rw [map_mapM]
  exact congrArg (List.mapM · uids) (funext fun uid => fst_onFound uid _)

/-- And the tagged line at their end. -/
theorem fst_completed (cmd : ImapCommand) (text : String)
    (h : HandlerM (List (Bytes × List Message))) :
    Prod.fst <$> completed cmd text <$> h =
      (do return (← List.map Prod.fst <$> h).flatten ++ ok cmd.tag (lit text)) := by
  rw [Functor.map_map, bind_map_left, map_eq_pure_bind]
  rfl

/-- **The handler's reply is the first component.** -/
theorem handleUidFetch_eq_map (S : Services) (cmd : ImapCommand) :
    handleUidFetch S cmd = Prod.fst <$> handleUidFetchSelected S cmd := by
  rw [handleUidFetch_eq, handleUidFetchSelected, whenSelected, map_bind]
  refine bind_congr fun d => ?_
  rw [apply_ite (Prod.fst <$> ·), apply_ite (Prod.fst <$> ·), map_catching, fst_completed,
    fst_uidFetchFound]
  simp only [map_bind, map_pure, bind_pure]

/-- `handleUidStoreSelected` answers as `handleUidStore` and says whom it acted on. -/
theorem handleUidStore_eq_map (cmd : ImapCommand) :
    handleUidStore cmd = Prod.fst <$> handleUidStoreSelected cmd := by
  rw [handleUidStore, handleUidStoreSelected, whenSelected, map_bind]
  refine bind_congr fun d => ?_
  rw [apply_ite (Prod.fst <$> ·), apply_ite (Prod.fst <$> ·), map_catching, map_bind]
  simp only [map_pure]
  congr 3
  refine bind_congr fun a => ?_
  cases unknownFlag (splitArgs (trimParentheses a)) with
  | some f => rfl
  | none =>
    dsimp only
    rw [fst_completed, uidStoreFound, map_bind, bind_assoc]
    refine bind_congr fun item => ?_
    rw [map_bind, bind_assoc]
    refine bind_congr fun set => ?_
    rw [map_bind, bind_assoc]
    refine bind_congr fun uids => ?_
    rw [map_mapM]
    exact congrArg (fun g => List.mapM g uids.zipIdx >>= _)
      (funext fun p => (fst_onFound p.1 _).symm)

end Found

/-! ## The loops -/

section Loops

variable {d : Dispatcher} {db db' : DB} {u inbox : ℤ} {m : Message}

/-- Each uid is looked up once, and what is done to a message changes no other lookup: the messages
found are those that were there at the start. -/
theorem serves_mapM_onFound {δ : Type} {key : δ → ℤ} {act : δ → Message → HandlerM Bytes}
    {I : Dispatcher → DB → Prop} (hI : ∀ d db, I d db → InMailbox u inbox d db)
    (hact : ∀ x m d db, I d db → InFolder db inbox m → m.uid = key x →
      ∃ t d' db', Serves (act x m) d db t d' db' ∧ I d' db' ∧
        ∀ k, k ≠ key x → MessageDAL.findByUID db' inbox k = MessageDAL.findByUID db inbox k) :
    ∀ (l : List δ), (l.map key).Nodup → ∀ d db, I d db →
      ∃ found d' db', Serves (l.mapM fun x => onFound (key x) (act x)) d db found d' db' ∧
        found.flatMap (·.2) = l.filterMap fun x => MessageDAL.findByUID db inbox (key x)
  | [], _, d, db, _ => by
      rw [List.mapM_nil]
      exact ⟨[], d, db, .pure _, rfl⟩
  | x :: l, hl, d, db, hd => by
      obtain ⟨hx, hl⟩ := List.nodup_cons.mp hl
      have hlookup : Serves (do ask (MessageRepository.findByUID (← mailboxID) (key x))) d db
          (MessageDAL.findByUID db inbox (key x)) d db :=
        .bind (serves_mailboxID (hI d db hd)) (serves_findByUID inbox (key x))
      rw [List.mapM_cons]
      cases hfind : MessageDAL.findByUID db inbox (key x) with
      | none =>
        rw [hfind] at hlookup
        obtain ⟨found, d', db', hs, hfound⟩ := serves_mapM_onFound hI hact l hl d db hd
        refine ⟨([], []) :: found, d', db', .bind (a := ([], [])) ?_ (.bind hs (.pure _)), ?_⟩
        · rw [onFound, ← bind_assoc]
          exact .bind hlookup (.pure _)
        · rw [List.flatMap_cons, hfound, List.filterMap_cons, hfind]
          rfl
      | some m =>
        rw [hfind] at hlookup
        obtain ⟨hm, huid⟩ := of_findByUID_eq_some hfind
        obtain ⟨t, d₁, db₁, ht, hd₁, hsame⟩ := hact x m d db hd hm huid
        obtain ⟨found, d', db', hs, hfound⟩ := serves_mapM_onFound hI hact l hl d₁ db₁ hd₁
        refine ⟨(t, [m]) :: found, d', db', .bind (a := (t, [m])) ?_ (.bind hs (.pure _)), ?_⟩
        · rw [onFound, ← bind_assoc]
          exact .bind hlookup (.bind ht (.pure _))
        · rw [List.flatMap_cons, hfound, List.filterMap_cons, hfind]
          refine congrArg (m :: ·) (List.filterMap_congr fun y hy => hsame (key y) fun h => ?_)
          exact hx (h ▸ List.mem_map_of_mem hy)

/-! ## `STORE` -/

/-- Setting flags leaves the uids as they are. -/
theorem uniqueUids_setFlags (hu : UniqueUids db) (id : ℤ) (g : Flags → Flags) :
    UniqueUids (MessageDAL.setFlags db id g) := by
  have hrow : ∀ i m', (MessageDAL.setFlags db id g).messages.get? i = some m' →
      ∃ m, db.messages.get? i = some m ∧ m.folderId = m'.folderId ∧ m.uid = m'.uid := by
    intro i m' hm'
    rw [MessageDAL.setFlags_messages, Table.get?_modify] at hm'
    split_ifs at hm' with hi
    · obtain ⟨m, hm, rfl⟩ := Option.map_eq_some_iff.mp hm'
      exact ⟨m, hm, rfl, rfl⟩
    · exact ⟨m', hm', rfl, rfl⟩
  intro i j m m' hm hm' hfolder huid
  obtain ⟨m₁, hm₁, hf₁, hu₁⟩ := hrow i m hm
  obtain ⟨m₂, hm₂, hf₂, hu₂⟩ := hrow j m' hm'
  exact hu i j m₁ m₂ hm₁ hm₂ (by rw [hf₁, hf₂, hfolder]) (by rw [hu₁, hu₂, huid])

/-- The messages with other uids are as they were. -/
theorem inFolder_setFlags {id : ℤ} {m₀ : Message} (hid : m₀.id = some id)
    (hm₀ : InFolder db inbox m₀) (g : Flags → Flags) (hne : m.uid ≠ m₀.uid) :
    InFolder (MessageDAL.setFlags db id g) inbox m ↔ InFolder db inbox m := by
  obtain ⟨-, i, hi, hrow₀⟩ := hm₀
  obtain rfl : id = i := Option.some.inj (hid.symm.trans hi)
  refine and_congr_right fun _ => exists_congr fun j => and_congr_right fun _ => ?_
  rw [MessageDAL.setFlags_messages, Table.get?_modify]
  split_ifs with hj
  · subst hj
    rw [hrow₀]
    constructor
    · intro h
      exact absurd (congrArg MessageData.uid (Option.some.inj h)).symm hne
    · intro h
      exact absurd (congrArg MessageData.uid (Option.some.inj h)).symm hne
  · rfl

/-- One message of a `UID STORE` is served, and stays where it is. -/
theorem serves_storeOne (hd : InMailbox u inbox d db) (hu : UniqueUids db)
    (hm : InFolder db inbox m) (item : Bytes) (rawFlags : List Bytes) (report : Message → Bytes) :
    ∃ t d' db', Serves (storeOne item rawFlags report m) d db t d' db' ∧
      (InMailbox u inbox d' db' ∧ UniqueUids db') ∧ ∀ k, k ≠ m.uid →
        MessageDAL.findByUID db' inbox k = MessageDAL.findByUID db inbox k := by
  obtain ⟨-, id, hid, -⟩ := id hm
  have hleaves : Leaves (storeOne item rawFlags report m) d db _ := leaves_storeOne hid
  obtain ⟨t, e, hs⟩ := hleaves
  refine ⟨t, _, _, hs, ⟨hd, ?_⟩, ?_⟩
  · rcases run_setFlags db id (flagsToSend item rawFlags) with h | ⟨f, h⟩
    · rw [h]
      exact hu
    · rw [h]
      exact uniqueUids_setFlags hu id _
  · intro k hk
    rcases run_setFlags db id (flagsToSend item rawFlags) with h | ⟨f, h⟩
    · rw [h]
    · rw [h]
      refine findByUID_eq_of_same hu (uniqueUids_setFlags hu id _) fun m' huid => ?_
      exact inFolder_setFlags hid hm _ (by rw [huid]; exact hk)

/-! ## `COPY` -/

/-- What the tables are like between commands: their foreign keys are good, the uids of a folder are
below its `next_uid`, and no two messages of it have the same. -/
structure Sound (db : DB) : Prop where
  refs : ForeignKeys db
  below : UidBelow db
  unique : UniqueUids db

/-- A copy was made in the folder `dest`, under the uid `f.nextUid`. -/
structure CopiedTo (inbox dest : ℤ) (f : FolderData) (db db' : DB) : Prop where
  sound : Sound db'
  next : db'.folders.get? dest = some { f with nextUid := f.nextUid + 1 }
  stays : ∀ m, InFolder db inbox m → InFolder db' inbox m
  comes : ∀ m, InFolder db' inbox m → InFolder db inbox m ∨ (dest = inbox ∧ m.uid = f.nextUid)
  copy : dest = inbox → ∃ m, InFolder db' inbox m ∧ m.uid = f.nextUid

/-- A copy adds one row to the destination and touches nothing else. -/
theorem copiedTo_run {dest id : ℤ} {f : FolderData} (hs : Sound db) (hid : m.id = some id)
    (hm : db.messages.get? id = some m.toMessageData) (hf : db.folders.get? dest = some f) :
    CopiedTo inbox dest f db (Prog.run store (MessageRepository.copy id dest) db).1 := by
  have hfree : MessageDAL.taken db none dest f.nextUid = false := by
    rw [MessageDAL.taken, List.any_eq_false]
    rintro ⟨i, d⟩ hd
    simp only [decide_eq_true_eq, not_and]
    intro _ hfolder huid
    have hlt := hs.below i d f (Table.mem_rows_iff.mp hd) (by rw [hfolder]; exact hf)
    rw [huid] at hlt
    exact absurd hlt (lt_irrefl _)
  obtain ⟨recipients, a, heffect⟩ := run_copy hs.refs hid hm hf hfree
  generalize (Prog.run store (MessageRepository.copy id dest) db).1 = db' at heffect ⊢
  cases heffect with
  | copy _ huser hfolder =>
    generalize hrow : Message.row { m with id := none, folderId := dest, uid := f.nextUid } = row
    have hrowFolder : row.folderId = dest := by rw [← hrow]; rfl
    have hrowUid : row.uid = f.nextUid := by rw [← hrow]; rfl
    have hbelow : ∀ i m', db.messages.get? i = some m' → m'.folderId = dest →
        m'.uid < f.nextUid := fun i m' hm' hdest => hs.below i m' f hm' (by rw [hdest]; exact hf)
    have hnew : ∀ {i m'}, (db.messages.insert row).get? i = some m' →
        (i = db.messages.seq + 1 ∧ m' = row) ∨ db.messages.get? i = some m' := by
      intro i m' hm'
      rw [Table.get?_insert] at hm'
      split_ifs at hm' with hi
      · exact .inl ⟨hi, (Option.some.inj hm').symm⟩
      · exact .inr hm'
    refine ⟨⟨?_, ?_, ?_⟩, ?_, ?_, ?_, ?_⟩
    · have huser' : (db.users.get? row.userId).isSome = true := by
        rw [← hrow]
        exact huser
      have hfolder' : (db.folders.get? row.folderId).isSome = true := by
        rw [← hrow]
        exact hfolder
      have hevolves : Evolves inbox db (FolderDAL.incrementNextUID { db with
          messages := db.messages.insert row
          recipients := recipientRows (db.messages.seq + 1) recipients db.recipients } dest) :=
        .insert huser' hfolder'
      exact hevolves.refs hs.refs
    · intro i m' f' hm' hf'
      rw [FolderDAL.incrementNextUID_folders, Table.get?_modify] at hf'
      rcases hnew hm' with ⟨-, rfl⟩ | hm'
      · rw [hrowFolder, if_pos rfl, hf] at hf'
        obtain rfl := Option.some.inj hf'
        rw [hrowUid]
        exact Int.lt_succ _
      · split_ifs at hf' with hdest
        · rw [hdest, hf] at hf'
          obtain rfl := Option.some.inj hf'
          exact (hbelow i m' hm' hdest).trans (Int.lt_succ _)
        · exact hs.below i m' f' hm' hf'
    · intro i j m₁ m₂ hm₁ hm₂ hfolders huids
      rcases hnew hm₁ with ⟨hi, heq₁⟩ | hold₁
      · rcases hnew hm₂ with ⟨hj, -⟩ | hold₂
        · rw [hi, hj]
        · rw [heq₁] at hfolders huids
          have hlt := hbelow j m₂ hold₂ (hfolders.symm.trans hrowFolder)
          exact absurd (huids.symm.trans hrowUid) hlt.ne
      · rcases hnew hm₂ with ⟨-, heq₂⟩ | hold₂
        · rw [heq₂] at hfolders huids
          have hlt := hbelow i m₁ hold₁ (hfolders.trans hrowFolder)
          exact absurd (huids.trans hrowUid) hlt.ne
        · exact hs.unique i j m₁ m₂ hold₁ hold₂ hfolders huids
    · rw [FolderDAL.incrementNextUID_folders, Table.get?_modify, if_pos rfl, hf]
      rfl
    · rintro m' ⟨hfolder', i, hid', hm'⟩
      refine ⟨hfolder', i, hid', ?_⟩
      have hle := Table.le_seq_of_get? hm'
      rw [FolderDAL.incrementNextUID_messages, Table.get?_insert, if_neg (by omega)]
      exact hm'
    · rintro m' ⟨hfolder', i, hid', hm'⟩
      rcases hnew hm' with ⟨-, hm'⟩ | hm'
      · refine .inr ⟨?_, ?_⟩
        · rw [← hfolder', hm', hrowFolder]
        · rw [hm', hrowUid]
      · exact .inl ⟨hfolder', i, hid', hm'⟩
    · rintro rfl
      refine ⟨MessageDAL.rowToMessage (db.messages.seq + 1) row, ⟨hrowFolder, _, rfl, ?_⟩, hrowUid⟩
      rw [FolderDAL.incrementNextUID_messages, Table.get?_insert, if_pos rfl]
      rfl

/-- A copy changes no lookup but that of its own uid. -/
theorem CopiedTo.findByUID_eq {dest : ℤ} {f : FolderData} (h : CopiedTo inbox dest f db db')
    (hu : UniqueUids db) {k : ℤ} (hk : dest = inbox → k ≠ f.nextUid) :
    MessageDAL.findByUID db' inbox k = MessageDAL.findByUID db inbox k := by
  refine findByUID_eq_of_same hu h.sound.unique fun m huid => ⟨fun hm => ?_, h.stays m⟩
  rcases h.comes m hm with hm | ⟨hdest, hnext⟩
  · exact hm
  · exact absurd (huid.symm.trans hnext) (hk hdest)

/-- The messages with these uids, as they are looked up. -/
abbrev foundIn (db : DB) (inbox : ℤ) (uids : List ℤ) : List Message :=
  uids.filterMap (MessageDAL.findByUID db inbox)

/-- One step of the loop over a uid that is there. -/
theorem serves_copyUids_cons {dest id uid : ℤ} {uids : List ℤ} {sel : List Message}
    {d₁ : Dispatcher} {e : Bytes} (hd : InMailbox u inbox d db) (hid : m.id = some id)
    (hfind : MessageDAL.findByUID db inbox uid = some m)
    (hcopy : Serves (attempt (MessageRepository.copy id dest)) d db
      (Prog.run store (MessageRepository.copy id dest) db).2.toOption { d with lastError := e } db')
    {db₁ : DB} (hs : Serves (copyUids (some dest) uids) { d with lastError := e } db' sel d₁ db₁) :
    Serves (copyUids (some dest) (uid :: uids)) d db (m :: sel) d₁ db₁ := by
  rw [copyUids]
  refine .bind (serves_mailboxID hd) (.bind (serves_findByUID inbox uid) ?_)
  rw [hfind]
  exact .bind (.value hid) (.bind (.value rfl) (.bind hcopy (.bind hs (.pure _))))

/-- A uid that is not there is passed over. -/
theorem serves_copyUids_none {dest uid : ℤ} {uids : List ℤ} {sel : List Message} {d₁ : Dispatcher}
    {db₁ : DB} (hd : InMailbox u inbox d db) (hfind : MessageDAL.findByUID db inbox uid = none)
    (hs : Serves (copyUids (some dest) uids) d db sel d₁ db₁) :
    Serves (copyUids (some dest) (uid :: uids)) d db sel d₁ db₁ := by
  rw [copyUids]
  refine .bind (serves_mailboxID hd) (.bind (serves_findByUID inbox uid) ?_)
  rw [hfind]
  exact hs

/-- The loop returns, with at least the messages that were there at the start. -/
theorem serves_copyUids {dest : ℤ} : ∀ (uids : List ℤ) (d : Dispatcher) (db : DB) (f : FolderData),
    InMailbox u inbox d db → Sound db → db.folders.get? dest = some f →
      ∃ sel d' db', Serves (copyUids (some dest) uids) d db sel d' db' ∧
        ∀ m ∈ foundIn db inbox uids, m ∈ sel
  | [], d, db, f, _, _, _ => ⟨[], d, db, .pure _, fun m hm => hm⟩
  | uid :: uids, d, db, f, hd, hs, hf => by
      cases hfind : MessageDAL.findByUID db inbox uid with
      | none =>
        obtain ⟨sel, d', db', hserve, hsub⟩ := serves_copyUids uids d db f hd hs hf
        refine ⟨sel, d', db', serves_copyUids_none hd hfind hserve, fun m hm => ?_⟩
        rw [foundIn, List.filterMap_cons_none hfind] at hm
        exact hsub m hm
      | some m =>
        obtain ⟨⟨-, id, hid, hrow⟩, -⟩ := of_findByUID_eq_some hfind
        have hstep : CopiedTo inbox dest f db _ := copiedTo_run hs hid hrow hf
        obtain ⟨e, hcopy⟩ := Serves.attempt (MessageRepository.copy id dest) d db
        obtain ⟨sel, d', db', hserve, hsub⟩ :=
          serves_copyUids uids { d with lastError := e } _ _ hd hstep.sound hstep.next
        refine ⟨m :: sel, d', db', serves_copyUids_cons hd hid hfind hcopy hserve, fun m' hm' => ?_⟩
        rw [foundIn, List.filterMap_cons_some hfind] at hm'
        rcases List.mem_cons.mp hm' with rfl | hm'
        · exact List.mem_cons_self
        · obtain ⟨k, hk, hfindk⟩ := List.mem_filterMap.mp hm'
          obtain ⟨hin, huid⟩ := of_findByUID_eq_some hfindk
          refine List.mem_cons_of_mem _ (hsub m' (List.mem_filterMap.mpr ⟨k, hk, ?_⟩))
          exact (findByUID_eq_some_iff hstep.sound.unique).mpr ⟨hstep.stays m' hin, huid⟩

/-- **Where no copy comes under one of the uids, the loop acts on the messages that were there.** -/
theorem serves_copyUids_exact {dest : ℤ} : ∀ (uids : List ℤ) (d : Dispatcher) (db : DB)
    (f : FolderData), InMailbox u inbox d db → Sound db → db.folders.get? dest = some f →
      (dest = inbox → ∀ j < (foundIn db inbox uids).length, f.nextUid + j ∉ uids) →
      ∃ d' db', Serves (copyUids (some dest) uids) d db (foundIn db inbox uids) d' db'
  | [], d, db, f, _, _, _, _ => ⟨d, db, .pure _⟩
  | uid :: uids, d, db, f, hd, hs, hf, hnot => by
      cases hfind : MessageDAL.findByUID db inbox uid with
      | none =>
        rw [foundIn, List.filterMap_cons_none hfind] at hnot ⊢
        obtain ⟨d', db', hserve⟩ := serves_copyUids_exact uids d db f hd hs hf
          fun hdest j hj => List.not_mem_of_not_mem_cons (hnot hdest j hj)
        exact ⟨d', db', serves_copyUids_none hd hfind hserve⟩
      | some m =>
        obtain ⟨⟨-, id, hid, hrow⟩, -⟩ := of_findByUID_eq_some hfind
        have hstep : CopiedTo inbox dest f db _ := copiedTo_run hs hid hrow hf
        obtain ⟨e, hcopy⟩ := Serves.attempt (MessageRepository.copy id dest) d db
        rw [foundIn, List.filterMap_cons_some hfind] at hnot ⊢
        have hsame : foundIn _ inbox uids = foundIn db inbox uids :=
          List.filterMap_congr fun k hk => hstep.findByUID_eq hs.unique fun hdest hnext => by
            have hmem : f.nextUid + (0 : ℕ) ∈ uid :: uids := by
              rw [Int.natCast_zero, Int.add_zero, ← hnext]
              exact List.mem_cons_of_mem _ hk
            exact hnot hdest 0 (Nat.succ_pos _) hmem
        obtain ⟨d', db', hserve⟩ := serves_copyUids_exact uids { d with lastError := e } _ _ hd
          hstep.sound hstep.next fun hdest j hj hmem => by
            rw [hsame] at hj
            refine hnot hdest (j + 1) (Nat.succ_lt_succ hj) (List.mem_cons_of_mem _ ?_)
            have hnext : f.nextUid + ((j + 1 : ℕ) : ℤ) = f.nextUid + 1 + j := by
              push_cast
              omega
            rw [hnext]
            exact hmem
        rw [hsame] at hserve
        exact ⟨d', db', serves_copyUids_cons hd hid hfind hcopy hserve⟩

/-- What was found before a copy is found after it. -/
theorem CopiedTo.foundIn_sublist {dest : ℤ} {f : FolderData} (h : CopiedTo inbox dest f db db') :
    ∀ uids : List ℤ, (foundIn db inbox uids).Sublist (foundIn db' inbox uids)
  | [] => .slnil
  | uid :: uids => by
      have ih := h.foundIn_sublist uids
      cases hfind : MessageDAL.findByUID db inbox uid with
      | none =>
        rw [foundIn, List.filterMap_cons_none hfind, foundIn, List.filterMap_cons]
        cases MessageDAL.findByUID db' inbox uid with
        | none => exact ih
        | some m => exact ih.cons m
      | some m =>
        obtain ⟨hin, huid⟩ := of_findByUID_eq_some hfind
        have hfind' : MessageDAL.findByUID db' inbox uid = some m :=
          (findByUID_eq_some_iff h.sound.unique).mpr ⟨h.stays m hin, huid⟩
        rw [foundIn, List.filterMap_cons_some hfind, foundIn, List.filterMap_cons_some hfind']
        exact ih.cons_cons m

/-- **Where one does, the loop acts on a message that was not there.** -/
theorem serves_copyUids_more : ∀ (uids : List ℤ) (d : Dispatcher) (db : DB) (f : FolderData),
    uids.Pairwise (· < ·) → InMailbox u inbox d db → Sound db → db.folders.get? inbox = some f →
      ∀ j < (foundIn db inbox uids).length, f.nextUid + j ∈ uids →
      ∃ sel d' db', Serves (copyUids (some inbox) uids) d db sel d' db' ∧
        ∃ m ∈ sel, ¬ InFolder db inbox m
  | [], d, db, f, _, _, _, _, j, hj, _ => absurd hj (Nat.not_lt_zero j)
  | uid :: uids, d, db, f, hasc, hd, hs, hf, j, hj, hmem => by
      obtain ⟨hlt, hasc⟩ := List.pairwise_cons.mp hasc
      have hbelow : ∀ m, InFolder db inbox m → m.uid < f.nextUid := fun m hm => by
        obtain ⟨hfolder, i, -, hrow⟩ := hm
        exact hs.below i _ f hrow (by rw [hfolder]; exact hf)
      cases hfind : MessageDAL.findByUID db inbox uid with
      | none =>
        rw [foundIn, List.filterMap_cons_none hfind] at hj
        rcases List.mem_cons.mp hmem with hhead | hmem
        · obtain ⟨m, hm⟩ := List.exists_mem_of_length_pos (Nat.zero_lt_of_lt hj)
          obtain ⟨k, hk, hfindk⟩ := List.mem_filterMap.mp hm
          obtain ⟨hin, huid⟩ := of_findByUID_eq_some hfindk
          have hm := hbelow m hin
          have hk := hlt k hk
          omega
        · obtain ⟨sel, d', db', hserve, hnew⟩ :=
            serves_copyUids_more uids d db f hasc hd hs hf j hj hmem
          exact ⟨sel, d', db', serves_copyUids_none hd hfind hserve, hnew⟩
      | some m =>
        obtain ⟨hin, huid⟩ := of_findByUID_eq_some hfind
        obtain ⟨-, id, hid, hrow⟩ := id hin
        have hstep : CopiedTo inbox inbox f db _ := copiedTo_run hs hid hrow hf
        obtain ⟨e, hcopy⟩ := Serves.attempt (MessageRepository.copy id inbox) d db
        have huids : f.nextUid + j ∈ uids := by
          have hm := hbelow m hin
          rcases List.mem_cons.mp hmem with hhead | hmem
          · omega
          · exact hmem
        cases j with
        | zero =>
          obtain ⟨c, hc, hnext⟩ := hstep.copy rfl
          obtain ⟨sel, d', db', hserve, hsub⟩ :=
            serves_copyUids uids { d with lastError := e } _ _ hd hstep.sound hstep.next
          refine ⟨m :: sel, d', db', serves_copyUids_cons hd hid hfind hcopy hserve, c,
            List.mem_cons_of_mem _ (hsub c (List.mem_filterMap.mpr ⟨_, huids, ?_⟩)), fun hcin => ?_⟩
          · refine (findByUID_eq_some_iff hstep.sound.unique).mpr ⟨hc, ?_⟩
            rw [hnext]
            simp
          · exact absurd (hbelow c hcin) (by rw [hnext]; exact lt_irrefl _)
        | succ j =>
          rw [foundIn, List.filterMap_cons_some hfind] at hj
          have hlonger := (hstep.foundIn_sublist uids).length_le
          have hj' : j < (foundIn db inbox uids).length := Nat.lt_of_succ_lt_succ hj
          have hnext : f.nextUid + ((j + 1 : ℕ) : ℤ) = f.nextUid + 1 + j := by
            push_cast
            omega
          rw [hnext] at huids
          obtain ⟨sel, d', db', hserve, c, hc, hnot⟩ :=
            serves_copyUids_more uids { d with lastError := e } _ _ hasc hd hstep.sound hstep.next j
              (hj'.trans_le hlonger) huids
          exact ⟨m :: sel, d', db', serves_copyUids_cons hd hid hfind hcopy hserve, c,
            List.mem_cons_of_mem _ hc, fun hcin => hnot (hstep.stays c hcin)⟩

end Loops

/-! ## The denoted messages -/

/-- The largest uid in the folder. -/
def IsLargest (db : DB) (inbox top : ℤ) : Prop :=
  (∃ m, InFolder db inbox m ∧ m.uid = top) ∧ ∀ m, InFolder db inbox m → m.uid ≤ top

/-- The message is one of those the set denotes in the folder. -/
def Denoted (db : DB) (inbox : ℤ) (s : SeqSet) (m : Message) : Prop :=
  InFolder db inbox m ∧ ∃ top, IsLargest db inbox top ∧ s.denotes top m.uid = true

/-- The handler comes to its end, and acts on the denoted messages, once on each, and on no other. -/
def ActsOnDenoted (h : HandlerM (Bytes × List Message)) (d : Dispatcher) (db : DB) (inbox : ℤ)
    (s : SeqSet) : Prop :=
  ∃ reply selected, Returns h d db (reply, selected) ∧ selected.Nodup ∧
    ∀ m, m ∈ selected ↔ Denoted db inbox s m

/-- No part of the set stops the parser, and where `*` stands alone, the largest uid of the folder is
`INT64_MAX` or another part has it too; or the parser stops by throwing, and the set denotes no
message. -/
def ReadsRight (db : DB) (inbox : ℤ) (s : SeqSet) : Prop :=
  match s.stop int64Max with
  | none => (∃ p ∈ s.parts, p.isStar = true) → ∀ top, IsLargest db inbox top →
      top = int64Max ∨ ∃ p ∈ s.parts, p.isStar = false ∧ p.denotes top top = true
  | some (.throw _) => ∀ m, ¬ Denoted db inbox s m
  | some _ => False

/-- One of the copies that are made of the denoted messages in the folder itself comes to have a
uid that is looked up. -/
def Recopies (db : DB) (inbox : ℤ) (s : SeqSet) (nextUid : ℤ) : Prop :=
  ∃ top, IsLargest db inbox top ∧
    ∃ j < ((byUid db inbox).filter fun m => s.denotes top m.uid).length,
      s.denotes int64Max (nextUid + j) = true

section Denoted

variable {d : Dispatcher} {db : DB} {u inbox : ℤ} {m : Message} {s : SeqSet}

/-- There is one largest uid. -/
theorem isLargest_unique {top top' : ℤ} (h : IsLargest db inbox top)
    (h' : IsLargest db inbox top') : top = top' := by
  obtain ⟨⟨m, hm, rfl⟩, hle⟩ := h
  obtain ⟨⟨m', hm', rfl⟩, hle'⟩ := h'
  exact le_antisymm (hle' m hm) (hle m' hm')

/-- A folder with a message has a largest uid. -/
theorem exists_isLargest (hm : InFolder db inbox m) : ∃ top, IsLargest db inbox top := by
  obtain ⟨m₀, hm₀, hle⟩ := (byUid db inbox).toFinset.exists_max_image (fun m => m.uid)
    ⟨m, List.mem_toFinset.mpr (mem_byUid.mpr hm)⟩
  exact ⟨m₀.uid, ⟨m₀, mem_byUid.mp (List.mem_toFinset.mp hm₀), rfl⟩, fun m' hm' =>
    hle m' (List.mem_toFinset.mpr (mem_byUid.mpr hm'))⟩

/-- The messages found are those whose uid was asked for. -/
theorem mem_foundIn (hu : UniqueUids db) {uids : List ℤ} :
    m ∈ foundIn db inbox uids ↔ InFolder db inbox m ∧ m.uid ∈ uids := by
  rw [foundIn, List.mem_filterMap]
  constructor
  · rintro ⟨k, hk, hfind⟩
    obtain ⟨hm, rfl⟩ := of_findByUID_eq_some hfind
    exact ⟨hm, hk⟩
  · rintro ⟨hm, hk⟩
    exact ⟨m.uid, hk, (findByUID_eq_some_iff hu).mpr ⟨hm, rfl⟩⟩

/-- A message is found once. -/
theorem nodup_foundIn {uids : List ℤ} (h : uids.Nodup) : (foundIn db inbox uids).Nodup := by
  refine h.filterMap fun a b m ha hb => ?_
  rw [← (of_findByUID_eq_some ha).2, (of_findByUID_eq_some hb).2]

/-- **A set without an offending part is read right where `*` alone does no harm.** -/
theorem readsRight_iff (hmax : ∀ m, InFolder db inbox m → m.uid ≤ int64Max)
    (h : s.stop int64Max = none) :
    ReadsRight db inbox s ↔ ∀ m, InFolder db inbox m →
      (s.denotes int64Max m.uid = true ↔ Denoted db inbox s m) := by
  have hother : ∀ top, (∃ p ∈ s.parts, p.isStar = false ∧ p.denotes top top = true) ↔
      ∃ p ∈ s.parts, p.isStar = false ∧ p.denotes int64Max top = true := by
    refine fun top => exists_congr fun p => and_congr_right fun hp => and_congr_right fun hstar => ?_
    rw [SeqPart.denotes_iff ((SeqSet.stop_eq_none_iff.mp h).1 p hp) top top]
    simp [hstar]
  simp only [ReadsRight, h]
  constructor
  · intro hright m hm
    obtain ⟨top, htop⟩ := exists_isLargest hm
    rw [SeqSet.denotes_iff h]
    constructor
    · rintro (hn | ⟨hstar, hn⟩)
      · exact ⟨hm, top, htop, (SeqSet.denotes_iff h top m.uid).mpr (.inl hn)⟩
      · obtain ⟨m₀, hm₀, rfl⟩ := htop.1
        have hle := hmax m₀ hm₀
        have hge := htop.2 m hm
        exact ⟨hm, m₀.uid, htop, (SeqSet.denotes_iff h _ m.uid).mpr (.inr ⟨hstar, by omega⟩)⟩
    · rintro ⟨-, top', htop', hn⟩
      obtain rfl := isLargest_unique htop htop'
      rcases (SeqSet.denotes_iff h top m.uid).mp hn with hn | ⟨hstar, hn⟩
      · exact .inl hn
      · rcases hright hstar top htop with hmaxtop | hothers
        · exact .inr ⟨hstar, hn.trans hmaxtop⟩
        · rw [hn]
          exact .inl ((hother top).mp hothers)
  · intro hright hstar top htop
    obtain ⟨⟨m, hm, rfl⟩, -⟩ := id htop
    have hden : Denoted db inbox s m :=
      ⟨hm, m.uid, htop, (SeqSet.denotes_iff h _ _).mpr (.inr ⟨hstar, rfl⟩)⟩
    rcases (SeqSet.denotes_iff h _ _).mp ((hright m hm).mpr hden) with hn | ⟨-, hn⟩
    · exact .inr ((hother _).mpr hn)
    · exact .inl hn

/-- What a handler does where the parser stops. -/
structure StopsWithParser (h : HandlerM (Bytes × List Message)) (d : Dispatcher) (db : DB)
    (s : SeqSet) : Prop where
  throw : ∀ x, parseSequenceSet s.text int64Max = .error (.throw x) →
    ∃ reply, Returns h d db (reply, [])
  undefined : parseSequenceSet s.text int64Max = .error .undefined → ∀ r, ¬ Returns h d db r

/-- A handler that parses the set in a `try` block and replies in the `catch` clause. -/
theorem StopsWithParser.of_catching {h body : HandlerM (Bytes × List Message)}
    {c : Exn → HandlerM (Bytes × List Message)} (hserve : serve h d db = serve (catching body c) d db)
    (hstop : ∀ e, parseSequenceSet s.text int64Max = .error e → Stops body d db e d db)
    (hc : ∀ x, ∃ reply, Serves (c x) d db (reply, []) d db) : StopsWithParser h d db s where
  throw x hx := by
    obtain ⟨reply, hreply⟩ := hc x
    exact ⟨reply, d, db, hserve.trans ((hstop _ hx).catching hreply)⟩
  undefined hx r := by
    rintro ⟨d', db', hs⟩
    exact ((hstop _ hx).uncaught nofun).not_serves (hserve.symm.trans hs)

/-- What a handler does that looks up each uid of the set once. -/
structure Runs (h : HandlerM (Bytes × List Message)) (d : Dispatcher) (db : DB) (inbox : ℤ)
    (s : SeqSet) : Prop extends StopsWithParser h d db s where
  ok : ∀ l, parseSequenceSet s.text int64Max = .ok l → l.Pairwise (· < ·) →
    ∃ reply, Returns h d db (reply, foundIn db inbox l)

/-- A set that is parsed in full acts on what it finds. -/
theorem actsOnDenoted_of_foundIn (hu : UniqueUids db)
    (hmax : ∀ m, InFolder db inbox m → m.uid ≤ int64Max)
    (hnone : s.stop int64Max = none) {l : List ℤ} (hl : l.Pairwise (· < ·))
    (hmem : ∀ n, n ∈ l ↔ s.denotes int64Max n = true) {h : HandlerM (Bytes × List Message)}
    {reply : Bytes} (hret : Returns h d db (reply, foundIn db inbox l)) :
    ActsOnDenoted h d db inbox s ↔ ReadsRight db inbox s := by
  rw [readsRight_iff hmax hnone]
  have hiff : (∀ m, m ∈ foundIn db inbox l ↔ Denoted db inbox s m) ↔ ∀ m, InFolder db inbox m →
      (s.denotes int64Max m.uid = true ↔ Denoted db inbox s m) := by
    refine forall_congr' fun m => ?_
    rw [mem_foundIn hu, hmem]
    constructor
    · intro hm hin
      rw [← hm]
      exact ⟨fun hn => ⟨hin, hn⟩, fun hn => hn.2⟩
    · intro hm
      exact ⟨fun hn => (hm hn.1).mp hn.2, fun hn => ⟨hn.1, (hm hn.1).mpr hn⟩⟩
  rw [← hiff]
  constructor
  · rintro ⟨reply', selected, hret', -, hsel⟩
    obtain ⟨-, rfl⟩ := Prod.mk.inj (hret'.unique hret)
    exact hsel
  · intro hsel
    exact ⟨reply, _, hret, nodup_foundIn (hl.imp fun hab => hab.ne), hsel⟩

/-- A set that is not parsed acts on nothing: right only where it denotes nothing. -/
theorem StopsWithParser.actsOnDenoted_iff {h : HandlerM (Bytes × List Message)}
    (hstops : StopsWithParser h d db s) {e : Stop} (hfind : s.stop int64Max = some e) :
    ActsOnDenoted h d db inbox s ↔ ReadsRight db inbox s := by
  have hparse := parse_text_stop hfind
  simp only [ReadsRight, hfind]
  cases e with
  | undefined =>
    refine iff_of_false ?_ id
    rintro ⟨reply, selected, hret, -⟩
    exact hstops.undefined hparse _ hret
  | missing i => exact absurd hparse (parseSequenceSet_ne_missing _ _ i)
  | throw x =>
    obtain ⟨reply, hret⟩ := hstops.throw x hparse
    constructor
    · rintro ⟨reply', selected, hret', -, hsel⟩
      obtain ⟨-, rfl⟩ := Prod.mk.inj (hret'.unique hret)
      exact fun m hm => absurd ((hsel m).mpr hm) List.not_mem_nil
    · intro hnot
      exact ⟨reply, [], hret, List.nodup_nil, fun m => iff_of_false List.not_mem_nil (hnot m)⟩

/-- Nothing is denoted where the parser stops and the set is read right. -/
theorem ReadsRight.not_denoted {e : Stop} (h : ReadsRight db inbox s)
    (hstop : s.stop int64Max = some e) (m : Message) : ¬ Denoted db inbox s m := by
  simp only [ReadsRight, hstop] at h
  cases e with
  | undefined => exact h.elim
  | missing i => exact h.elim
  | throw x => exact h m

/-- **Such a handler acts on the denoted messages exactly when it reads the set right.** -/
theorem Runs.actsOnDenoted_iff {h : HandlerM (Bytes × List Message)} (hruns : Runs h d db inbox s)
    (hu : UniqueUids db) (hmax : ∀ m, InFolder db inbox m → m.uid ≤ int64Max) :
    ActsOnDenoted h d db inbox s ↔ ReadsRight db inbox s := by
  cases hfind : s.stop int64Max with
  | none =>
    obtain ⟨l, hl, hasc, hmem⟩ := parse_text hfind
    obtain ⟨reply, hret⟩ := hruns.ok l hl hasc
    exact actsOnDenoted_of_foundIn hu hmax hfind hasc hmem hret
  | some e => exact hruns.toStopsWithParser.actsOnDenoted_iff hfind

end Denoted

/-! ## The three handlers -/

section Commands

variable {S : Services} {cmd : ImapCommand} {d : Dispatcher} {db : DB} {u inbox : ℤ} {m : Message}
  {s : SeqSet} {list item flags name : Bytes} {rest : List Bytes}

/-- The data items can be printed of every message of the folder. -/
def Printable (S : Services) (cmd : ImapCommand) (d : Dispatcher) (db : DB) (inbox : ℤ)
    (list : Bytes) : Prop :=
  ∀ m, InFolder db inbox m → ∃ data,
    Serves (fetchData S cmd (lit "(UID " ++ decimal m.uid ++ lit " ") (fetchItems list) m) d db
      data d db

/-- The answer to an exception is always given. -/
theorem serves_fetchFailure (d : Dispatcher) (db : DB) (cmd : ImapCommand) (x : Exn) :
    ∃ reply, Serves (fetchFailure cmd x) d db reply d db := by
  cases x <;> exact ⟨_, .pure _⟩

/-- `UID FETCH` acts on the messages that its set finds. -/
theorem runs_uidFetch (hd : InMailbox u inbox d db) (hitems : Printable S cmd d db inbox list)
    (hargs : cmd.args = s.text :: list :: rest) :
    Runs (handleUidFetchSelected S cmd) d db inbox s := by
  have harg₀ : cmd.args[0]? = some s.text := by rw [hargs]; rfl
  have harg₁ : cmd.args[1]? = some list := by rw [hargs]; rfl
  have hserve : serve (handleUidFetchSelected S cmd) d db =
      serve (catching (completed cmd "Uid Fetch completed" <$> uidFetchFound S cmd) fun e => do
        return (← fetchFailure cmd e, [])) d db := by
    have hlength : ¬ cmd.args.length < 2 := by simp [hargs]
    rw [handleUidFetchSelected, Serves.serve_get_bind, if_neg (not_not_intro hd.1),
      if_neg hlength]
  refine ⟨.of_catching hserve (fun e he => ?_) fun x => ?_, fun l hl hasc => ?_⟩
  · rw [map_eq_pure_bind]
    exact .bind (.of_bind (.arg harg₀) ((Stops.sequenceSet he).bind _)) _
  · obtain ⟨reply, hreply⟩ := serves_fetchFailure d db cmd x
    exact ⟨reply, .bind hreply (.pure _)⟩
  · have hact : ∀ (uid : ℤ) (msg : Message) (d' : Dispatcher) (db' : DB), d' = d ∧ db' = db →
        InFolder db' inbox msg → msg.uid = uid → ∃ t d'' db'',
          Serves (do
            let seqNum : ℕ := (((MessageDAL.findByFolder db inbox 50 0).findIdx?
              (·.uid = uid)).map (· + 1)).getD 0
            return fetch seqNum (← fetchData S cmd (lit "(UID " ++ decimal msg.uid ++ lit " ")
              (fetchItems list) msg)) d' db' t d'' db'' ∧ (d'' = d ∧ db'' = db) ∧
            ∀ k, k ≠ uid → MessageDAL.findByUID db'' inbox k = MessageDAL.findByUID db' inbox k := by
      rintro uid msg _ _ ⟨rfl, rfl⟩ hin -
      obtain ⟨data, hdata⟩ := hitems msg hin
      exact ⟨_, _, _, .bind hdata (.pure _), ⟨rfl, rfl⟩, fun _ _ => rfl⟩
    have hI : ∀ d' db', d' = d ∧ db' = db → InMailbox u inbox d' db' := by
      rintro _ _ ⟨rfl, rfl⟩
      exact hd
    obtain ⟨found, d', db', hfetch, hfound⟩ := serves_mapM_onFound hI hact l
      (by rw [List.map_id']; exact hasc.imp fun hab => hab.ne) d db ⟨rfl, rfl⟩
    have hbody : Serves (uidFetchFound S cmd) d db found d' db' := by
      refine .bind (.arg harg₀) (.bind (.sequenceSet hl) ?_)
      refine .bind (serves_mailboxID hd) (.bind (serves_findByFolder inbox) ?_)
      exact .bind (.arg harg₁) hfetch
    refine ⟨(completed cmd "Uid Fetch completed" found).1, d', db', hserve.trans ?_⟩
    rw [foundIn, ← hfound]
    exact Serves.catching (.map hbody)

/-- So does `UID STORE`. -/
theorem runs_uidStore (hd : InMailbox u inbox d db) (hu : UniqueUids db)
    (hflags : unknownFlag (splitArgs (trimParentheses flags)) = none)
    (hargs : cmd.args = [s.text, item, flags]) :
    Runs (handleUidStoreSelected cmd) d db inbox s := by
  have harg₀ : cmd.args[0]? = some s.text := by rw [hargs]; rfl
  have harg₁ : cmd.args[1]? = some item := by rw [hargs]; rfl
  have harg₂ : cmd.args[2]? = some flags := by rw [hargs]; rfl
  have hserve : serve (handleUidStoreSelected cmd) d db =
      serve (catching (completed cmd "Uid Store completed" <$>
        uidStoreFound cmd (splitArgs (trimParentheses flags))) fun _ =>
          return (bad cmd.tag (lit "Invalid message sequence"), [])) d db := by
    have hlength : ¬ cmd.args.length ≠ 3 := by simp [hargs]
    have harg : arg cmd 2 = pure flags := by rw [arg, harg₂]
    rw [handleUidStoreSelected, Serves.serve_get_bind, if_neg (not_not_intro hd.1), if_neg hlength,
      harg]
    simp only [pure_bind, hflags]
  refine ⟨.of_catching hserve (fun e he => ?_) fun x => ⟨_, .pure _⟩, fun l hl hasc => ?_⟩
  · rw [map_eq_pure_bind]
    exact .bind (.of_bind (.arg harg₁) (.of_bind (.arg harg₀) ((Stops.sequenceSet he).bind _))) _
  · have hkeys : (l.zipIdx.map Prod.fst).Nodup := by
      rw [List.zipIdx_map_fst]
      exact hasc.imp fun hab => hab.ne
    obtain ⟨found, d', db', hstore, hfound⟩ := serves_mapM_onFound (u := u)
      (I := fun d db => InMailbox u inbox d db ∧ UniqueUids db) (fun d db h => h.1)
      (fun p m d db h hm huid => by
        rw [← huid]
        exact serves_storeOne h.1 h.2 hm item (splitArgs (trimParentheses flags)) fun m =>
          fetch (p.2 + 1)
            (lit "(UID " ++ decimal m.uid ++ lit " " ++ formatFlagsResponse m ++ lit ")"))
      l.zipIdx hkeys d db ⟨hd, hu⟩
    have hbody : Serves (uidStoreFound cmd (splitArgs (trimParentheses flags))) d db found d' db' :=
      .bind (.arg harg₁) (.bind (.arg harg₀) (.bind (.sequenceSet hl) hstore))
    have hsel : found.flatMap (·.2) = foundIn db inbox l := by
      have hmap : foundIn db inbox (l.zipIdx.map Prod.fst) = found.flatMap (·.2) := by
        rw [hfound, foundIn, List.filterMap_map]
        rfl
      rw [← hmap, List.zipIdx_map_fst]
    refine ⟨(completed cmd "Uid Store completed" found).1, d', db', hserve.trans ?_⟩
    rw [← hsel]
    exact Serves.catching (.map hbody)

/-- `UID COPY` comes to the loop with the destination at hand. -/
theorem serve_handleUidCopySelected {dest : ℤ} (hd : InMailbox u inbox d db)
    (hargs : cmd.args = [s.text, name]) (hdest : destination db d cmd = some dest) :
    serve (handleUidCopySelected cmd) d db = serve (catching (do
      let selected ← copyUids (some dest) (← sequenceSet s.text int64Max)
      return (ok cmd.tag (lit "Uid Copy completed"), selected)) fun _ =>
        return (bad cmd.tag (lit "Invalid message sequence"), [])) d db := by
  have hlength : ¬ cmd.args.length ≠ 2 := by simp [hargs]
  have harg₀ : arg cmd 0 = pure s.text := by rw [arg, hargs]; rfl
  have harg₁ : arg cmd 1 = pure name := by rw [arg, hargs]; rfl
  obtain ⟨folder, hfolder, hid⟩ : ∃ folder, FolderDAL.findByName db u name = some folder ∧
      folder.id = some dest := by
    rw [destination, hd.2.1, hargs] at hdest
    exact Option.bind_eq_some_iff.mp hdest
  have hfind : Serves (ask (MessageRepository.findFolderByName u name)) d db (some folder) d db := by
    rw [← hfolder]
    exact .ask _
  have huser : Serves userID d db u d db := .get_bind (.value hd.2.1)
  rw [handleUidCopySelected, Serves.serve_get_bind, if_neg (not_not_intro hd.1), if_neg hlength,
    huser.serve_bind, harg₁, pure_bind, hfind.serve_bind, harg₀]
  simp only [pure_bind, hid]

/-- `UID COPY` ends where its set cannot be parsed. -/
theorem stops_uidCopy {dest : ℤ} (hd : InMailbox u inbox d db)
    (hargs : cmd.args = [s.text, name]) (hdest : destination db d cmd = some dest) :
    StopsWithParser (handleUidCopySelected cmd) d db s :=
  .of_catching (serve_handleUidCopySelected hd hargs hdest)
    (fun _ he => (Stops.sequenceSet he).bind _) fun _ => ⟨_, .pure _⟩

/-- Where the set is read right, the messages found are as many as are denoted. -/
theorem length_denoted (hu : UniqueUids db) (hmax : ∀ m, InFolder db inbox m → m.uid ≤ int64Max)
    (hnone : s.stop int64Max = none) (hright : ReadsRight db inbox s) {l : List ℤ}
    (hl : l.Pairwise (· < ·)) (hmem : ∀ n, n ∈ l ↔ s.denotes int64Max n = true) {top : ℤ}
    (htop : IsLargest db inbox top) :
    ((byUid db inbox).filter fun m => s.denotes top m.uid).length =
      (foundIn db inbox l).length := by
  refine List.Perm.length_eq ((List.perm_ext_iff_of_nodup ?_ (nodup_foundIn ?_)).mpr fun m => ?_)
  · exact ((pairwise_byUid hu inbox).imp fun h heq => by rw [heq] at h; exact lt_irrefl _ h).filter _
  · exact hl.imp fun hab => hab.ne
  · rw [List.mem_filter, mem_byUid, mem_foundIn hu, hmem]
    refine and_congr_right fun hm => ?_
    rw [(readsRight_iff hmax hnone).mp hright m hm]
    constructor
    · exact fun hn => ⟨hm, top, htop, hn⟩
    · rintro ⟨-, top', htop', hn⟩
      rw [isLargest_unique htop htop']
      exact hn

/-- **`UID COPY`** acts on the denoted messages when it reads the set right, and looks up none of
the copies it makes. -/
theorem actsOnDenoted_uidCopy {dest : ℤ} {f : FolderData} (hd : InMailbox u inbox d db)
    (hs : Sound db) (hmax : ∀ m, InFolder db inbox m → m.uid ≤ int64Max)
    (hargs : cmd.args = [s.text, name]) (hdest : destination db d cmd = some dest)
    (hf : db.folders.get? dest = some f) :
    ActsOnDenoted (handleUidCopySelected cmd) d db inbox s ↔
      ReadsRight db inbox s ∧ (dest = inbox → ¬ Recopies db inbox s f.nextUid) := by
  cases hfind : s.stop int64Max with
  | some e =>
    rw [(stops_uidCopy hd hargs hdest).actsOnDenoted_iff hfind]
    refine (and_iff_left_of_imp fun hright _ => ?_).symm
    rintro ⟨top, htop, j, hj, -⟩
    obtain ⟨m, hm⟩ := List.exists_mem_of_length_pos (Nat.zero_lt_of_lt hj)
    obtain ⟨hin, hn⟩ := List.mem_filter.mp hm
    exact hright.not_denoted hfind m ⟨mem_byUid.mp hin, top, htop, hn⟩
  | none =>
    obtain ⟨l, hl, hasc, hmem⟩ := parse_text hfind
    have hserve := serve_handleUidCopySelected hd hargs hdest
    by_cases hmore : dest = inbox ∧ ∃ j < (foundIn db inbox l).length, f.nextUid + j ∈ l
    · obtain ⟨rfl, j, hj, hjl⟩ := hmore
      obtain ⟨sel, d', db', hcopy, m, hm, hnot⟩ :=
        serves_copyUids_more l d db f hasc hd hs hf j hj hjl
      have hret : Returns (handleUidCopySelected cmd) d db
          (ok cmd.tag (lit "Uid Copy completed"), sel) :=
        ⟨d', db', hserve.trans
          (Serves.catching (.bind (.sequenceSet hl) (.bind hcopy (.pure _))))⟩
      refine iff_of_false ?_ ?_
      · rintro ⟨reply, selected, hret', -, hsel⟩
        obtain ⟨-, rfl⟩ := Prod.mk.inj (hret'.unique hret)
        exact hnot ((hsel m).mp hm).1
      · rintro ⟨hright, hrecopies⟩
        obtain ⟨m₀, hm₀⟩ := List.exists_mem_of_length_pos (Nat.zero_lt_of_lt hj)
        obtain ⟨top, htop⟩ := exists_isLargest ((mem_foundIn hs.unique).mp hm₀).1
        refine hrecopies rfl ⟨top, htop, j, ?_, (hmem _).mp hjl⟩
        rw [length_denoted hs.unique hmax hfind hright hasc hmem htop]
        exact hj
    · have hexact : dest = inbox → ∀ j < (foundIn db inbox l).length, f.nextUid + j ∉ l :=
        fun heq j hj hjl => hmore ⟨heq, j, hj, hjl⟩
      obtain ⟨d', db', hcopy⟩ := serves_copyUids_exact l d db f hd hs hf hexact
      have hret : Returns (handleUidCopySelected cmd) d db
          (ok cmd.tag (lit "Uid Copy completed"), foundIn db inbox l) :=
        ⟨d', db', hserve.trans
          (Serves.catching (.bind (.sequenceSet hl) (.bind hcopy (.pure _))))⟩
      rw [actsOnDenoted_of_foundIn hs.unique hmax hfind hasc hmem hret]
      refine (and_iff_left_of_imp fun hright heq => ?_).symm
      rintro ⟨top, htop, j, hj, hjn⟩
      rw [length_denoted hs.unique hmax hfind hright hasc hmem htop] at hj
      exact hexact heq j hj ((hmem _).mpr hjn)

/-- **The `UID` commands act on the denoted messages exactly when they read the set right** — and
`UID COPY` into the selected folder itself when moreover it does not come upon its own copies. -/
theorem uid_commands_iff {store copy : ImapCommand} {dest : ℤ} {f : FolderData}
    (hd : InMailbox u inbox d db) (hs : Sound db)
    (hmax : ∀ m, InFolder db inbox m → m.uid ≤ int64Max)
    (hfetch : cmd.args = s.text :: list :: rest) (hitems : Printable S cmd d db inbox list)
    (hstore : store.args = [s.text, item, flags])
    (hflags : unknownFlag (splitArgs (trimParentheses flags)) = none)
    (hcopy : copy.args = [s.text, name]) (hdest : destination db d copy = some dest)
    (hf : db.folders.get? dest = some f) :
    (ActsOnDenoted (handleUidFetchSelected S cmd) d db inbox s ↔ ReadsRight db inbox s) ∧
    (ActsOnDenoted (handleUidStoreSelected store) d db inbox s ↔ ReadsRight db inbox s) ∧
    (ActsOnDenoted (handleUidCopySelected copy) d db inbox s ↔
      ReadsRight db inbox s ∧ (dest = inbox → ¬ Recopies db inbox s f.nextUid)) :=
  ⟨(runs_uidFetch hd hitems hfetch).actsOnDenoted_iff hs.unique hmax,
    (runs_uidStore hd hs.unique hflags hstore).actsOnDenoted_iff hs.unique hmax,
    actsOnDenoted_uidCopy hd hs hmax hcopy hdest hf⟩

end Commands

/-! ## A mailbox of a few messages -/

/-- The number of one digit. -/
def digit (c : UInt8) (hc : isDigit c = true) : SeqNum :=
  .num ⟨[c], List.cons_ne_nil _ _, List.forall_mem_singleton.mpr hc⟩

/-- A `UID` command of a session that has the mailbox selected. -/
def uidCommand (type : ImapCommandType) (s : SeqSet) (rest : List Bytes) : ImapCommand :=
  { tag := lit "a", type, args := s.text :: rest }

/-- The database of one page is sound. -/
theorem sound_pageDB (n : ℕ) : Sound (pageDB n) := by
  refine ⟨fun i m hm => ?_, fun i m f hm hf => ?_, uniqueUids_pageDB n⟩
  · obtain ⟨k, -, -, rfl⟩ := of_get?_pageDB hm
    exact ⟨rfl, rfl⟩
  · obtain ⟨k, hk, -, rfl⟩ := of_get?_pageDB hm
    obtain rfl := Option.some.inj hf
    exact Int.ofNat_lt.mpr (Nat.succ_lt_succ hk)

/-- The flags can be printed of every message. -/
theorem printable_noFiles (cmd : ImapCommand) (d : Dispatcher) (db : DB) (inbox : ℤ) :
    Printable noFiles cmd d db inbox (lit "FLAGS") := by
  have hitems : fetchItems (lit "FLAGS") = [lit "FLAGS"] := by decide
  intro m _
  rw [hitems]
  exact ⟨_, rfl⟩

theorem uid_le_of_inFolder_pageDB {n : ℕ} {m : Message} (hm : InFolder (pageDB n) 1 m) : m.uid ≤ n := by
  obtain ⟨hfolder, i, -, hrow⟩ := hm
  exact Int.lt_add_one_iff.mp ((sound_pageDB n).below i _ _ hrow (by rw [hfolder]; rfl))

/-- The largest uid of four messages. -/
theorem isLargest_pageDB_four : IsLargest (pageDB 4) 1 4 :=
  ⟨⟨lastMessage 4, ⟨rfl, 4, rfl, rfl⟩, rfl⟩, fun _ => uid_le_of_inFolder_pageDB⟩

/-- The set `2:1,4:3,*`. -/
def rangesSet : SeqSet :=
  ⟨.range (digit '2'.toUInt8 (by decide)) (digit '1'.toUInt8 (by decide)),
    [.range (digit '4'.toUInt8 (by decide)) (digit '3'.toUInt8 (by decide)), .single .star]⟩

/-- The set of two ranges and a number is read as it is meant. -/
theorem readsRight_rangesSet : ReadsRight (pageDB 4) 1 rangesSet := by
  have hstop : rangesSet.stop int64Max = none := by decide
  simp only [ReadsRight, hstop]
  intro _ top htop
  obtain rfl := isLargest_unique htop isLargest_pageDB_four
  exact .inr ⟨_, List.mem_cons_of_mem _ List.mem_cons_self, rfl, by decide⟩

/-- The copies come under 5 to 8. -/
theorem uid_commands_ranges :
    ActsOnDenoted (handleUidFetchSelected noFiles (uidCommand .uidFetch rangesSet [lit "FLAGS"]))
      pageSession (pageDB 4) 1 rangesSet ∧
    ActsOnDenoted (handleUidStoreSelected
      (uidCommand .uidStore rangesSet [lit "+FLAGS", lit "(\\Seen)"])) pageSession (pageDB 4) 1
      rangesSet ∧
    ActsOnDenoted (handleUidCopySelected (uidCommand .uidCopy rangesSet [lit "INBOX"])) pageSession
      (pageDB 4) 1 rangesSet := by
  have hargsFetch : (uidCommand .uidFetch rangesSet [lit "FLAGS"]).args =
      rangesSet.text :: lit "FLAGS" :: [] := rfl
  have hargsStore : (uidCommand .uidStore rangesSet [lit "+FLAGS", lit "(\\Seen)"]).args =
      [rangesSet.text, lit "+FLAGS", lit "(\\Seen)"] := rfl
  have hargsCopy : (uidCommand .uidCopy rangesSet [lit "INBOX"]).args =
      [rangesSet.text, lit "INBOX"] := rfl
  have hmailbox : InMailbox 1 1 pageSession (pageDB 4) := ⟨rfl, rfl, rfl⟩
  obtain ⟨hfetch, hstore, hcopy⟩ := uid_commands_iff hmailbox
    (sound_pageDB 4) (fun m hm => (uid_le_of_inFolder_pageDB hm).trans (by decide)) hargsFetch
    (printable_noFiles _ _ _ _) hargsStore (by decide) hargsCopy rfl rfl
  refine ⟨hfetch.mpr readsRight_rangesSet, hstore.mpr readsRight_rangesSet,
    hcopy.mpr ⟨readsRight_rangesSet, fun _ => ?_⟩⟩
  rintro ⟨top, htop, j, hj, hdenotes⟩
  obtain rfl := isLargest_unique htop isLargest_pageDB_four
  have hnone : ∀ j < ((byUid (pageDB 4) 1).filter fun m => rangesSet.denotes 4 m.uid).length,
      rangesSet.denotes int64Max (5 + j) = false := by decide
  exact Bool.false_ne_true ((hnone j hj).symm.trans hdenotes)

/-- The sets `1:*` and `*`. -/
def fromOne : SeqSet := ⟨.range (digit '1'.toUInt8 (by decide)) .star, []⟩

def starSet : SeqSet := ⟨.single .star, []⟩

/-- **`1:*` and `*`**: in a mailbox whose only message has the uid 1, the first are more numbers than
a vector can hold, and the second finds nothing. -/
theorem not_actsOnDenoted_star :
    ¬ ActsOnDenoted (handleUidFetchSelected noFiles (uidCommand .uidFetch fromOne [lit "FLAGS"]))
      pageSession (pageDB 1) 1 fromOne ∧
    ¬ ActsOnDenoted (handleUidFetchSelected noFiles (uidCommand .uidFetch starSet [lit "FLAGS"]))
      pageSession (pageDB 1) 1 starSet := by
  have hmailbox : InMailbox 1 1 pageSession (pageDB 1) := ⟨rfl, rfl, rfl⟩
  have hright : ∀ s : SeqSet, ActsOnDenoted (handleUidFetchSelected noFiles
      (uidCommand .uidFetch s [lit "FLAGS"])) pageSession (pageDB 1) 1 s → ReadsRight (pageDB 1) 1 s :=
    fun s => (runs_uidFetch hmailbox (printable_noFiles _ _ _ _)
      (show (uidCommand .uidFetch s [lit "FLAGS"]).args = s.text :: lit "FLAGS" :: [] from
        rfl)).actsOnDenoted_iff (uniqueUids_pageDB 1)
          (fun m hm => (uid_le_of_inFolder_pageDB hm).trans (by decide)) |>.mp
  have hlargest : IsLargest (pageDB 1) 1 1 :=
    ⟨⟨lastMessage 1, inFolder_lastMessage_one, rfl⟩, fun _ => uid_le_of_inFolder_pageDB⟩
  refine ⟨fun h => ?_, fun h => ?_⟩
  · have hstop : fromOne.stop int64Max = some (.throw .lengthError) := by decide
    exact (hright fromOne h).not_denoted hstop (lastMessage 1)
      ⟨inFolder_lastMessage_one, 1, hlargest, by decide⟩
  · rcases hright starSet h ⟨.single .star, List.mem_singleton.mpr rfl, rfl⟩ 1 hlargest with
      hmax | ⟨p, hp, hstar, -⟩
    · exact absurd hmax (by decide)
    · obtain rfl := List.mem_singleton.mp hp
      exact absurd hstar (by decide)

end MailStack.Imap
