import MailStack.Imap.Addressed
import MailStack.Imap.UidSets

/-!
# Imap/UidReport — what `UID STORE` reports of the messages it updates

`UID STORE` writes its own lines: the number is a place in the requested set, and the flags come
from `FormatFlagsResponse`, which brings parentheses of its own.  The flags it reports are those the
message is left with (`serves_storeLoop`), but no line is the one of `UID FETCH`:
`reports_as_fetch_iff`.  `handleUidStoreReported` is the handler with its lines beside the reply
(`handleUidStore_eq_reported`).
-/

open Bytes

namespace MailStack.Imap

open Store Prog ImapResponse

/-! ## The two lines -/

/-- The line of a message in `UID STORE`. -/
def storeLine (number : ℕ) (m : Message) : Bytes :=
  fetch number (lit "(UID " ++ decimal m.uid ++ lit " " ++ formatFlagsResponse m ++ lit ")")

/-- What `FLAGS` prints, less the space behind it. -/
def flagsItem (m : Message) : Bytes := popSpace (lit "FLAGS (" ++ flagNames m.flags) ++ lit ")"

/-- The line of a message in `UID FETCH <uid> (FLAGS)`. -/
def flagsLine (number : ℕ) (m : Message) : Bytes :=
  fetch number (lit "(UID " ++ decimal m.uid ++ lit " " ++ flagsItem m ++ lit ")")

theorem formatFlagsResponse_eq (m : Message) :
    formatFlagsResponse m = lit "(" ++ flagsItem m ++ lit ")" := by
  have hstart : lit "(FLAGS (" = lit "(" ++ lit "FLAGS (" := rfl
  have hend : lit "))" = lit ")" ++ lit ")" := rfl
  have hne : lit "FLAGS (" ++ flagNames m.flags ≠ [] := fun h => nomatch h
  rw [formatFlagsResponse, flagsItem, hstart, List.append_assoc, popSpace_append hne, hend]
  simp only [List.append_assoc]

theorem head?_flagsItem (m : Message) (t : Bytes) :
    (flagsItem m ++ t).head? = some 'F'.toUInt8 := by
  have hstart : lit "FLAGS (" = lit "F" ++ lit "LAGS (" := rfl
  have hne : lit "LAGS (" ++ flagNames m.flags ≠ [] := fun h => nomatch h
  rw [flagsItem, hstart, List.append_assoc (lit "F"), popSpace_append hne]
  rfl

/-- **The two lines of a message differ**, whatever they number it and whatever its flags are. -/
theorem storeLine_ne_flagsLine {k l : ℕ} {m m' : Message} (huid : m.uid = m'.uid) :
    storeLine k m ≠ flagsLine l m' := by
  intro h
  have hdata := (fetch_inj h).2
  rw [huid, formatFlagsResponse_eq] at hdata
  simp only [List.append_assoc, List.append_cancel_left_eq] at hdata
  have hhead := congrArg List.head? hdata
  rw [head?_flagsItem] at hhead
  exact absurd (Option.some.inj hhead) (by decide)

theorem fetch_ne_nil (k : ℕ) (data : Bytes) : fetch k data ≠ [] := fun h => nomatch h

/-! ## One message -/

section Lines

variable {S : Services} {cmd : ImapCommand} {d : Dispatcher} {db : DB} {inbox uid : ℤ}
  {set item text : Bytes} {L : List Flag} {m : Message}

/-- The number `UID FETCH` gives to the message with this uid. -/
def numberOf (db : DB) (inbox uid : ℤ) : ℕ :=
  (((page db inbox).findIdx? (·.uid = uid)).map (· + 1)).getD 0

/-- The flags of a message, as `FETCH` prints them. -/
theorem serves_fetchData_flags :
    Serves (fetchData S cmd (lit "(UID " ++ decimal m.uid ++ lit " ") [lit "FLAGS"] m) d db
      (lit "(UID " ++ decimal m.uid ++ lit " " ++ flagsItem m ++ lit ")") d db := by
  have hitem : Serves ([lit "FLAGS"].mapM (fetchItem S cmd m)) d db
      [flagsItem m ++ lit " "] d db := by
    have hend : lit ") " = lit ")" ++ lit " " := rfl
    rw [flagsItem, List.append_assoc, ← hend]
    rfl
  have hspace : popSpace (lit " ") = [] := rfl
  have hdata : popSpace (lit "(UID " ++ decimal m.uid ++ lit " " ++
      [flagsItem m ++ lit " "].flatten) = lit "(UID " ++ decimal m.uid ++ lit " " ++ flagsItem m := by
    rw [List.flatten_singleton, ← List.append_assoc, popSpace_append (by decide), hspace,
      List.append_nil]
  rw [← hdata]
  exact .bind hitem (.pure _)

/-- `UID FETCH <uid> (FLAGS)`. -/
def fetchFlags (tag : Bytes) (uid : ℤ) : ImapCommand :=
  { tag, type := .uidFetch, args := [decimal uid, lit "(FLAGS)"] }

/-- **What it replies** for a message of the folder. -/
theorem serves_fetchFlags (hd : Opened d inbox) (huid : InInt64 uid)
    (hfind : MessageDAL.findByUID db inbox uid = some m) (tag : Bytes) :
    Serves (handleUidFetch S (fetchFlags tag uid)) d db
      (flagsLine (numberOf db inbox uid) m ++ ok tag (lit "Uid Fetch completed")) d db := by
  have hitems : fetchItems (lit "(FLAGS)") = [lit "FLAGS"] := by decide
  have hmailbox : Serves mailboxID d db inbox d db := .get_bind (.value hd.mailbox)
  have hlines : Serves (uidFetchLines S (fetchFlags tag uid)) d db
      [flagsLine (numberOf db inbox uid) m] d db := by
    refine .bind (.arg rfl) (.bind (.sequenceSet (parseSequenceSet_decimal huid.1 huid.2 _)) ?_)
    refine .bind hmailbox (.bind (serves_findByFolder inbox) (.bind (.arg rfl) ?_))
    have hfound : Serves (ask (MessageRepository.findByUID inbox uid)) d db (some m) d db := by
      rw [← hfind]
      exact serves_findByUID inbox uid
    rw [List.mapM_cons, List.mapM_nil, hitems]
    refine .bind (.bind hmailbox (.bind hfound ?_)) (.bind (.pure _) (.pure _))
    exact .bind serves_fetchData_flags (.pure _)
  rw [handleUidFetch_eq]
  refine .get_bind ?_
  have hlength : ¬ (fetchFlags tag uid).args.length < 2 := by simp [fetchFlags]
  rw [if_neg (not_not_intro hd.state), if_neg hlength]
  refine .catching (.bind hlines ?_)
  rw [List.flatten_singleton]
  exact .pure _

/-! ## One update after the other -/

section Paired

variable {α γ : Type} {R : α → γ → Prop} {l : List α} {l' : List γ}

/-- What is on the left is matched on the right. -/
theorem exists_of_mem_left (h : List.Forall₂ R l l') {a : α} (ha : a ∈ l) : ∃ b ∈ l', R a b := by
  induction h with
  | nil => exact absurd ha List.not_mem_nil
  | cons hab _ ih =>
    rcases List.mem_cons.mp ha with rfl | ha
    · exact ⟨_, List.mem_cons_self .., hab⟩
    · obtain ⟨b, hb, hrel⟩ := ih ha
      exact ⟨b, List.mem_cons_of_mem _ hb, hrel⟩

/-- What is on the right is matched on the left. -/
theorem exists_of_mem_right (h : List.Forall₂ R l l') {b : γ} (hb : b ∈ l') : ∃ a ∈ l, R a b :=
  exists_of_mem_left (List.Forall₂.flip h) hb

end Paired

/-- A message that is found under another uid stays as it is. -/
theorem findByUID_setFlags_ne {id : ℤ} {g : Flags → Flags} {k : ℤ}
    (hfind : MessageDAL.findByUID db inbox uid = some m) (hid : m.id = some id) (hk : k ≠ uid) :
    MessageDAL.findByUID (MessageDAL.setFlags db id g) inbox k =
      MessageDAL.findByUID db inbox k := by
  obtain ⟨⟨-, i, hi, hrow⟩, huid⟩ := of_findByUID_eq_some hfind
  obtain rfl : id = i := Option.some.inj (hid.symm.trans hi)
  rw [MessageDAL.findByUID, MessageDAL.setFlags_messages,
    Table.find?_modify (f := fun m : MessageData => { m with flags := g m.flags })
      fun _ _ => rfl, MessageDAL.findByUID]
  cases hr : db.messages.rows.find? fun r => decide (r.2.folderId = inbox ∧ r.2.uid = k) with
  | none => rfl
  | some r =>
    have hkey : r.2.uid = k := by
      have hfound := List.find?_some hr
      rw [decide_eq_true_eq] at hfound
      exact hfound.2
    have hne : r.1 ≠ id := by
      intro heq
      have hget := Table.mem_rows_iff.mp (List.mem_of_find?_eq_some hr)
      rw [heq, hrow] at hget
      rw [← Option.some.inj hget] at hkey
      exact hk (hkey.symm.trans huid)
    rw [Option.map_some, Option.map_some, Option.map_some, if_neg hne]

/-- The updated message is found under its uid. -/
theorem findByUID_setFlags_self {id : ℤ} {g : Flags → Flags}
    (hfind : MessageDAL.findByUID db inbox uid = some m) (hid : m.id = some id) :
    MessageDAL.findByUID (MessageDAL.setFlags db id g) inbox uid =
      some { m with flags := g m.flags } := by
  rw [MessageDAL.findByUID] at hfind
  obtain ⟨r, hr, rfl⟩ := Option.map_eq_some_iff.mp hfind
  obtain rfl : r.1 = id := Option.some.inj hid
  rw [MessageDAL.findByUID, MessageDAL.setFlags_messages,
    Table.find?_modify (f := fun m : MessageData => { m with flags := g m.flags })
      fun _ _ => rfl, hr, Option.map_some, Option.map_some, if_pos rfl]
  rfl

/-- Known flags are applied to the row. -/
theorem run_setFlags_known (item : Bytes) (L : List Flag) {id : ℤ}
    (hrow : db.messages.get? id = some m.toMessageData) :
    ∃ a, run store (MessageRepository.setFlags id (flagsToSend item (L.map Flag.name))) db =
      (MessageDAL.setFlags db id fun _ => (storeOp item).written L m.flags, .ok a) := by
  have hfind : MessageDAL.findByID db id = some (MessageDAL.rowToMessage id m.toMessageData) := by
    rw [MessageDAL.findByID, hrow]
    rfl
  have hnew : MessageRepository.newFlags (MessageDAL.rowToMessage id m.toMessageData).flags
      (flagsToSend item (L.map Flag.name)) = .ok ((storeOp item).written L m.flags) := by
    rw [flagsToSend_known]
    exact FlagOp.newFlags_map (storeOp item) L m.flags
  rw [MessageRepository.setFlags, MessageRepository.findByID, run_query_bind, hfind]
  dsimp only
  rw [hnew]
  exact ⟨_, rfl⟩

/-- **An update is reported with the flags it leaves.** -/
theorem serves_storeOne_loud (hloud : hasSubstring (lit ".SILENT") item = false) {id : ℤ}
    (hid : m.id = some id) (hrow : db.messages.get? id = some m.toMessageData)
    (report : Message → Bytes) (d : Dispatcher) :
    ∃ e, Serves (storeOne item (L.map Flag.name) report m) d db
      (report { m with flags := (storeOp item).written L m.flags }) { d with lastError := e }
      (MessageDAL.setFlags db id fun _ => (storeOp item).written L m.flags) := by
  obtain ⟨a, hrun⟩ := run_setFlags_known item L hrow
  obtain ⟨e, he⟩ := Serves.attempt
    (MessageRepository.setFlags id (flagsToSend item (L.map Flag.name))) d db
  rw [hrun] at he
  have hupdated : MessageDAL.findByID
      (MessageDAL.setFlags db id fun _ => (storeOp item).written L m.flags) id =
        some { m with flags := (storeOp item).written L m.flags } := by
    rw [MessageDAL.findByID, MessageDAL.setFlags_messages, Table.get?_modify, if_pos rfl, hrow]
    exact congrArg some (rowToMessage_eq_iff.mpr ⟨hid, rfl⟩)
  refine ⟨e, .bind (.value hid) (.bind he ?_)⟩
  change Serves (if hasSubstring (lit ".SILENT") item = true then _ else _) _ _ _ _ _
  rw [hloud, if_neg Bool.false_ne_true]
  refine .bind (.value hid) (.bind (.ask _) ?_)
  rw [show run store (MessageRepository.findByID id) _ = (_, MessageDAL.findByID _ id) from rfl,
    hupdated]
  exact .pure _

/-- What the loop has for one uid: nothing, where it is not found, and the line of the message as
it is in the end. -/
def Reported (db db' : DB) (inbox : ℤ) (item : Bytes) (L : List Flag) (p : ℤ × ℕ)
    (q : Bytes × List Message) : Prop :=
  match MessageDAL.findByUID db inbox p.1 with
  | none => q = ([], [])
  | some m =>
    let m' := { m with flags := (storeOp item).written L m.flags }
    MessageDAL.findByUID db' inbox p.1 = some m' ∧ q = (storeLine (p.2 + 1) m', [m])

/-- A report rests on the row of its message. -/
theorem Reported.congr {db₀ db' : DB} {p : ℤ × ℕ} {q : Bytes × List Message}
    (hsame : MessageDAL.findByUID db inbox p.1 = MessageDAL.findByUID db₀ inbox p.1)
    (h : Reported db db' inbox item L p q) : Reported db₀ db' inbox item L p q := by
  rwa [Reported, hsame] at h

/-- **The loop of `UID STORE` reports each message it finds.** -/
theorem serves_storeLoop (hloud : hasSubstring (lit ".SILENT") item = false) :
    ∀ (l : List (ℤ × ℕ)), (l.map Prod.fst).Nodup → ∀ (d : Dispatcher) (db : DB), Opened d inbox →
      ∃ found e db', Serves (l.mapM fun p => onFound p.1
          (storeOne item (L.map Flag.name) (storeLine (p.2 + 1)))) d db found
          { d with lastError := e } db' ∧
        List.Forall₂ (Reported db db' inbox item L) l found ∧
        ∀ k, k ∉ l.map Prod.fst →
          MessageDAL.findByUID db' inbox k = MessageDAL.findByUID db inbox k
  | [], _, d, db, _ => by
      rw [List.mapM_nil]
      exact ⟨[], d.lastError, db, .pure _, .nil, fun _ _ => rfl⟩
  | p :: l, hl, d, db, hd => by
      obtain ⟨hp, hl⟩ := List.nodup_cons.mp hl
      have hmailbox : Serves mailboxID d db inbox d db := .get_bind (.value hd.mailbox)
      have hlookup : Serves (ask (MessageRepository.findByUID inbox p.1)) d db _ d db :=
        serves_findByUID inbox p.1
      rw [List.mapM_cons]
      cases hfind : MessageDAL.findByUID db inbox p.1 with
      | none =>
        rw [hfind] at hlookup
        obtain ⟨found, e, db', hs, hfound, hrest⟩ := serves_storeLoop hloud l hl d db hd
        refine ⟨([], []) :: found, e, db', .bind (a := ([], [])) ?_ (.bind hs (.pure _)),
          .cons ?_ hfound, fun k hk => hrest k fun h => hk (List.mem_cons_of_mem _ h)⟩
        · exact .bind hmailbox (.bind hlookup (.pure _))
        · rw [Reported, hfind]
      | some m =>
        rw [hfind] at hlookup
        obtain ⟨-, id, hid, hrow⟩ := (of_findByUID_eq_some hfind).1
        obtain ⟨e₁, hone⟩ := serves_storeOne_loud (L := L) hloud hid hrow (storeLine (p.2 + 1)) d
        obtain ⟨found, e, db', hs, hfound, hrest⟩ := serves_storeLoop hloud l hl
          { d with lastError := e₁ } _ ⟨hd.state, hd.mailbox⟩
        have hother : ∀ k, k ≠ p.1 → MessageDAL.findByUID (MessageDAL.setFlags db id fun _ =>
            (storeOp item).written L m.flags) inbox k = MessageDAL.findByUID db inbox k :=
          fun k hk => findByUID_setFlags_ne hfind hid hk
        refine ⟨(storeLine (p.2 + 1) { m with flags := (storeOp item).written L m.flags }, [m]) ::
          found, e, db', .bind ?_ (.bind hs (.pure _)), .cons ?_ ?_, fun k hk => ?_⟩
        · exact .bind hmailbox (.bind hlookup (.bind hone (.pure _)))
        · rw [Reported, hfind]
          exact ⟨(hrest p.1 hp).trans (findByUID_setFlags_self hfind hid), rfl⟩
        · obtain ⟨hlength, hall⟩ := List.forall₂_iff_zip.mp hfound
          refine List.forall₂_iff_zip.mpr ⟨hlength, fun {q t} hq => ?_⟩
          exact (hall hq).congr (hother q.1 fun h =>
            hp (h ▸ List.mem_map_of_mem (List.of_mem_zip hq).1))
        · obtain ⟨hne, hk⟩ := List.ne_and_not_mem_of_not_mem_cons hk
          exact (hrest k hk).trans (hother k hne)

end Lines

/-! ## The report -/

/-- `HandleUidStore`, with the line of each uid beside the message found for it. -/
def handleUidStoreReported (cmd : ImapCommand) :
    HandlerM (Bytes × List (Bytes × List Message)) := do
  if (← get).state ≠ .selected then return (bad cmd.tag (lit "No mailbox selected"), [])
  else if cmd.args.length ≠ 3 then return (bad cmd.tag (lit "Missing arguments"), [])
  else
    catching
      (do
        let rawFlags := splitArgs (trimParentheses (← arg cmd 2))
        match unknownFlag rawFlags with
        | some f => return (bad cmd.tag (lit "Unknown flag: " ++ f), [])
        | none =>
          let found ← uidStoreFound cmd rawFlags
          return ((found.map (·.1)).flatten ++ ok cmd.tag (lit "Uid Store completed"), found))
      fun _ => return (bad cmd.tag (lit "Invalid message sequence"), [])

/-- **The lines are those of the reply.** -/
theorem handleUidStore_eq_reported (cmd : ImapCommand) :
    handleUidStore cmd = Prod.fst <$> handleUidStoreReported cmd := by
  rw [handleUidStore_eq_map, handleUidStoreSelected, handleUidStoreReported, map_bind, map_bind]
  refine bind_congr fun d => ?_
  rw [apply_ite (Prod.fst <$> ·), apply_ite (Prod.fst <$> ·), apply_ite (Prod.fst <$> ·),
    apply_ite (Prod.fst <$> ·), map_catching, map_catching, map_bind, map_bind]
  simp only [map_pure]
  congr 3
  refine bind_congr fun a => ?_
  cases unknownFlag (splitArgs (trimParentheses a)) with
  | some f => rfl
  | none => simp only [completed, Functor.map_map, bind_pure_comp]

/-- Each line that `UID STORE` emits for a message is the one that `UID FETCH <uid> (FLAGS)` emits
for it afterwards. -/
def ReportsAsFetch (S : Services) (cmd : ImapCommand) (d : Dispatcher) (db : DB) : Prop :=
  ∀ reply found d' db', Serves (handleUidStoreReported cmd) d db (reply, found) d' db' →
    ∀ p ∈ found, p.1 ≠ [] → ∀ m ∈ p.2, ∀ tag, Returns (handleUidFetch S (fetchFlags tag m.uid))
      d' db' (p.1 ++ ok tag (lit "Uid Fetch completed"))

section Report

variable {S : Services} {cmd : ImapCommand} {d : Dispatcher} {db : DB} {inbox : ℤ}
  {set item text : Bytes} {L : List Flag} {ids : List ℤ}

/-- The handler comes to what the `try` block holds. -/
theorem serve_handleUidStoreReported (db : DB) (hd : Opened d inbox)
    (hargs : cmd.args = [set, item, text]) :
    serve (handleUidStoreReported cmd) d db = serve (catching
      (match unknownFlag (splitArgs (trimParentheses text)) with
      | some f => return (bad cmd.tag (lit "Unknown flag: " ++ f), [])
      | none => do
        let found ← uidStoreFound cmd (splitArgs (trimParentheses text))
        return ((found.map (·.1)).flatten ++ ok cmd.tag (lit "Uid Store completed"), found))
      fun _ => return (bad cmd.tag (lit "Invalid message sequence"), [])) d db := by
  have harg : arg cmd 2 = pure text := by rw [arg, hargs]; rfl
  rw [handleUidStoreReported, Serves.serve_get_bind, if_neg (not_not_intro hd.state),
    if_neg (by simp [hargs]), harg]
  simp only [pure_bind]

/-- A set that is not parsed ends the command. -/
theorem stops_uidStoreFound {raw : List Bytes} {e : Stop} (hargs : cmd.args = [set, item, text])
    (hset : parseSequenceSet set int64Max = .error e) :
    Stops (uidStoreFound cmd raw) d db e d db :=
  .of_bind (.arg (by rw [hargs]; rfl))
    (.of_bind (.arg (by rw [hargs]; rfl)) ((Stops.sequenceSet hset).bind _))

/-- **The lines of `UID STORE`.** -/
theorem serves_handleUidStoreReported (db : DB) (hd : Opened d inbox)
    (hargs : cmd.args = [set, item, text])
    (hloud : hasSubstring (lit ".SILENT") item = false)
    (hflags : splitArgs (trimParentheses text) = L.map Flag.name)
    (hset : parseSequenceSet set int64Max = .ok ids) :
    ∃ found e db', Serves (handleUidStoreReported cmd) d db
        ((found.map (·.1)).flatten ++ ok cmd.tag (lit "Uid Store completed"), found)
        { d with lastError := e } db' ∧
      List.Forall₂ (Reported db db' inbox item L) ids.zipIdx found := by
  have hnodup : (ids.zipIdx.map Prod.fst).Nodup := by
    rw [List.zipIdx_map_fst]
    exact (pairwise_parseSequenceSet hset).imp fun hab => hab.ne
  obtain ⟨found, e, db', hloop, hfound, -⟩ :=
    serves_storeLoop (L := L) hloud ids.zipIdx hnodup d db hd
  have hlines : Serves (uidStoreFound cmd (splitArgs (trimParentheses text))) d db found
      { d with lastError := e } db' := by
    rw [hflags]
    exact .bind (.arg (by rw [hargs]; rfl)) (.bind (.arg (by rw [hargs]; rfl))
      (.bind (.sequenceSet hset) hloop))
  refine ⟨found, e, db', (serve_handleUidStoreReported db hd hargs).trans ?_, hfound⟩
  simp only [unknownFlag_eq_none_iff.mpr ⟨L, hflags⟩]
  exact Serves.catching (.bind hlines (.pure _))

/-- Where a uid of the set is in the folder, the line of the message is not that of `UID FETCH`. -/
theorem absent_of_reportsAsFetch (hd : Opened d inbox) (hargs : cmd.args = [set, item, text])
    (hloud : hasSubstring (lit ".SILENT") item = false)
    (hknown : unknownFlag (splitArgs (trimParentheses text)) = none)
    (hset : parseSequenceSet set int64Max = .ok ids) (h : ReportsAsFetch S cmd d db) :
    ∀ uid ∈ ids, MessageDAL.findByUID db inbox uid = none := by
  intro uid huid
  obtain ⟨L, hflags⟩ := unknownFlag_eq_none_iff.mp hknown
  obtain ⟨found, e, db', hs, hfound⟩ :=
    serves_handleUidStoreReported db hd hargs hloud hflags hset
  refine Option.eq_none_iff_forall_ne_some.mpr fun m hm => ?_
  obtain ⟨i, hi⟩ : ∃ i, (uid, i) ∈ ids.zipIdx := by
    rw [← List.zipIdx_map_fst 0 ids] at huid
    obtain ⟨⟨uid, i⟩, hi, rfl⟩ := List.mem_map.mp huid
    exact ⟨i, hi⟩
  obtain ⟨q, hq, hreported⟩ := exists_of_mem_left hfound hi
  simp only [Reported, hm] at hreported
  obtain ⟨hafter, rfl⟩ := hreported
  have hreturns := h _ found _ db' hs _ hq (fetch_ne_nil _ _) m (List.mem_singleton.mpr rfl) []
  have huid' : m.uid = uid := (of_findByUID_eq_some hm).2
  dsimp only at hreturns
  rw [huid'] at hreturns
  have hin : InInt64 uid := inInt64_parseSequenceSet ⟨by decide, le_refl _⟩ hset _ huid
  have hd' : Opened { d with lastError := e } inbox := ⟨hd.state, hd.mailbox⟩
  have hfetch := hreturns.unique ⟨_, _, serves_fetchFlags hd' hin hafter []⟩
  exact storeLine_ne_flagsLine huid'.symm (List.append_cancel_right hfetch)

/-- **`UID STORE` reports as `UID FETCH` would if and only if it reports nothing**: no uid of the set
is in the folder, unless the set cannot be read or a flag is unknown. -/
theorem reports_as_fetch_iff (hd : Opened d inbox) (hargs : cmd.args = [set, item, text])
    (hloud : hasSubstring (lit ".SILENT") item = false) :
    ReportsAsFetch S cmd d db ↔ unknownFlag (splitArgs (trimParentheses text)) = none →
      ∀ ids, parseSequenceSet set int64Max = .ok ids →
        ∀ uid ∈ ids, MessageDAL.findByUID db inbox uid = none := by
  constructor
  · exact fun h hknown ids hset => absent_of_reportsAsFetch hd hargs hloud hknown hset h
  · intro h reply found d' db' hs p hp hne
    have hserve := serve_handleUidStoreReported db hd hargs
    have hnil : found = [] → p.1 = [] := by
      rintro rfl
      exact absurd hp List.not_mem_nil
    refine absurd ?_ hne
    cases hflags : unknownFlag (splitArgs (trimParentheses text)) with
    | some f =>
      simp only [hflags] at hserve
      exact hnil (Prod.mk.inj (hs.unique (hserve.trans (Serves.catching (.pure _))))).2
    | none =>
      simp only [hflags] at hserve
      match hset : parseSequenceSet set int64Max with
      | .error .undefined =>
        exact absurd (hserve.symm.trans hs)
          (((stops_uidStoreFound hargs hset).bind _).uncaught nofun).not_serves
      | .error (.missing i) => exact absurd hset (parseSequenceSet_ne_missing set int64Max i)
      | .error (.throw x) =>
        exact hnil (Prod.mk.inj (hs.unique (hserve.trans
          (((stops_uidStoreFound hargs hset).bind _).catching (.pure _))))).2
      | .ok ids =>
        obtain ⟨L, hL⟩ := unknownFlag_eq_none_iff.mp hflags
        obtain ⟨found', e, db'', hs', hfound⟩ :=
          serves_handleUidStoreReported db hd hargs hloud hL hset
        obtain ⟨-, rfl⟩ := Prod.mk.inj (hs.unique hs')
        obtain ⟨q, hq, hreported⟩ := exists_of_mem_right hfound hp
        have huid : q.1 ∈ ids := by
          rw [← List.zipIdx_map_fst 0 ids]
          exact List.mem_map_of_mem hq
        simp only [Reported, h hflags ids hset q.1 huid] at hreported
        rw [hreported]

end Report

/-! ## A mailbox with two messages -/

/-- `UID STORE` of `\Seen`. -/
def storeSeen (set : String) : ImapCommand :=
  { tag := lit "a", type := .uidStore, args := [lit set, lit "+FLAGS", lit "(\\Seen)"] }

theorem reports_as_fetch_absent : ReportsAsFetch noFiles (storeSeen "7") pageSession (pageDB 2) := by
  have hargs : (storeSeen "7").args = [lit "7", lit "+FLAGS", lit "(\\Seen)"] := rfl
  refine (reports_as_fetch_iff opened_pageSession hargs (by decide)).mpr fun _ ids hset uid huid => ?_
  have hseven : parseSequenceSet (lit "7") int64Max = .ok [7] := by decide +kernel
  obtain rfl := Except.ok.inj (hset.symm.trans hseven)
  obtain rfl := List.mem_singleton.mp huid
  decide +kernel

/-- **`UID STORE 2`** reports the second message as number 1, and its flags in parentheses of their
own. -/
theorem not_reports_as_fetch_two :
    (∃ d' db', Serves (handleUidStore (storeSeen "2")) pageSession (pageDB 2)
        (lit "* 1 FETCH (UID 2 (FLAGS (\\Seen \\Recent)))\r\na OK Uid Store completed\r\n") d' db' ∧
      Serves (handleUidFetch noFiles (fetchFlags (lit "a") 2)) d' db'
        (lit "* 2 FETCH (UID 2 FLAGS (\\Seen \\Recent))\r\na OK Uid Fetch completed\r\n") d' db') ∧
      ¬ ReportsAsFetch noFiles (storeSeen "2") pageSession (pageDB 2) := by
  refine ⟨⟨_, _, rfl, rfl⟩, fun h => ?_⟩
  have hargs : (storeSeen "2").args = [lit "2", lit "+FLAGS", lit "(\\Seen)"] := rfl
  have hnone := absent_of_reportsAsFetch opened_pageSession hargs (by decide) (by decide)
    (show parseSequenceSet (lit "2") int64Max = .ok [2] by decide) h 2
    (List.mem_singleton.mpr rfl)
  exact absurd hnone (by decide)

end MailStack.Imap
