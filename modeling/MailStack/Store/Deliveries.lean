import MailStack.Machinery.Locking
import MailStack.Store.Listing
import MailStack.Store.Uid

/-!
# Store/Deliveries — concurrent deliveries, statement by statement

`assignUID` is one `Write` elsewhere.  Here it is what it is in the code: the write lock, `BEGIN
IMMEDIATE`, the folder read through another connection, `INSERT`, `UPDATE`, `COMMIT`, and the lock
given back; other clients act between any two of these.

`deliveries_lose_nothing` — every completed call succeeded, and a folder's uids are handed out in
the order of the commits, without a gap.
-/

open Bytes LockProg

namespace MailStack.Store

/-! ## The calls -/

/-- A statement of `assignUID` on the writing connection. -/
inductive Statement
  | insertMessage (m : Message)
  | incrementNextUID (folderId : ℤ)

def Statement.apply : Statement → DB → Except Bytes (DB × Answer)
  | .insertMessage m, db => (MessageDAL.insert db m).map fun p => (p.1, ⟨p.2, m.uid⟩)
  | .incrementNextUID folderId, db => .ok (FolderDAL.incrementNextUID db folderId, {})

/-- A call that delivers. -/
inductive DeliveryCall
  | deliver (m : Message) (folderId : ℤ)
  | saveToFolder (m : Message) (folderId : ℤ)
  deriving DecidableEq

/-- A call, and the message as it was stored. -/
abbrev Delivery := DeliveryCall × Message

/-- A program over the database whose commits are deliveries. -/
abbrev DeliveryM (α : Type) := LockProg DB Statement Bytes Answer Delivery α

namespace MessageRepository

/-- `assignUID`: `call` is what the commit is logged under. -/
def assignUIDSteps (call : DeliveryCall) (msg : Message) (folderId : ℤ) :
    DeliveryM (Result Message) := do
  acquire
  if ← beginTx then
    match ← LockProg.query (FolderDAL.findByID · folderId) with
    | none =>
      rollbackTx
      release
      return .error (some (lit "assignUID: folder not found"))
    | some folder =>
      let msg := { msg with folderId, uid := folder.nextUid }
      match ← statement (.insertMessage msg) with
      | .error e =>
        rollbackTx
        release
        return .error (some e)
      | .ok a =>
        let msg := { msg with id := some a.id }
        match ← statement (.incrementNextUID folderId) with
        | .error e =>
          rollbackTx
          release
          return .error (some e)
        | .ok _ =>
          if ← commitTx (call, msg) then
            release
            return .ok msg
          else
            rollbackTx
            release
            return .error (some (lit "assignUID: commit failed"))
  else
    release
    return .error (some (lit "assignUID: failed to begin transaction"))

end MessageRepository

namespace DeliveryCall

/-- The message with the flags the call sets. -/
def prepared : DeliveryCall → Message
  | deliver m _ => { m with flags := { m.flags with seen := false, recent := true, draft := false } }
  | saveToFolder m _ => { m with flags := { m.flags with seen := true, recent := false } }

/-- The folder the call is for. -/
def target (db : DB) : DeliveryCall → Option ℤ
  | deliver m folderId =>
    if folderId ≤ 0 then (FolderDAL.findByName db m.userId (lit "INBOX")).bind (·.id)
    else some folderId
  | saveToFolder _ folderId => some folderId

open MessageRepository in
/-- What the call does. -/
def prog (call : DeliveryCall) : DeliveryM (Result Message) :=
  match call with
  | deliver m folderId => do
    if folderId ≤ 0 then
      match ← LockProg.query (FolderDAL.findByName · m.userId (lit "INBOX")) with
      | none => return .error (some (lit "deliver: INBOX not found for user"))
      | some inbox => assignUIDSteps call call.prepared (inbox.id.getD 0)
    else assignUIDSteps call call.prepared folderId
  | saveToFolder _ folderId => assignUIDSteps call call.prepared folderId

/-- The call is for an existing folder, and for an existing user. -/
def Into (db : DB) (call : DeliveryCall) : Prop :=
  (db.users.get? call.prepared.userId).isSome ∧
    ∃ folderId, call.target db = some folderId ∧ (db.folders.get? folderId).isSome

end DeliveryCall

/-- The calls a client has completed, with what they returned. -/
abbrev History := List (DeliveryCall × Result Message)

/-- The database and the clients. -/
abbrev DeliveryNet (ι : Type) := LockNet DB Statement Bytes Answer Delivery History DeliveryCall ι

/-- Any number of clients that deliver; no one else touches the database. -/
def deliveries : LockSystem DB Statement Bytes Answer Delivery History DeliveryCall where
  store := ⟨Statement.apply⟩
  prog history call := do return history ++ [(call, ← call.prog)]

/-! ## What holds while they deliver -/

/-- The database as it was before, as far as the calls can tell. -/
structure Serving (db₀ db : DB) : Prop where
  users : db.users = db₀.users
  folder : ∀ i, (db.folders.get? i).isSome = (db₀.folders.get? i).isSome
  named : ∀ u name, (FolderDAL.findByName db u name).bind (·.id) =
    (FolderDAL.findByName db₀ u name).bind (·.id)
  below : UidBelow db

/-- The commit of a delivery is one `assignUID`. -/
def Commits (db₀ : DB) (d : Delivery) (db db' : DB) : Prop :=
  ∃ folderId a, d.1.target db₀ = some folderId ∧
    (Write.assignUID d.1.prepared folderId).apply db = .ok (db', a) ∧
    d.2 = { d.1.prepared with id := some a.id, folderId, uid := a.uid }

/-- The discipline of the deliveries: no statement fails of itself. -/
def deliveryDiscipline (db₀ : DB) :
    LockDiscipline DB Statement Delivery History DeliveryCall where
  inv := Serving db₀
  calls := DeliveryCall.Into db₀
  allow _ _ _ := True
  faulty := False
  writes _ _ := False
  commits := Commits db₀
  loc history ds := history = ds.map fun d => (d.1, .ok d.2)

section Steps

variable {db₀ db : DB} {folderId : ℤ} {f : FolderData} {m : Message}

/-- The `next_uid` of a folder is free. -/
theorem taken_nextUid (hn : UidBelow db) (hf : db.folders.get? folderId = some f) :
    MessageDAL.taken db none folderId f.nextUid = false := by
  rw [MessageDAL.taken, List.any_eq_false]
  rintro ⟨i, m⟩ hmem h
  obtain ⟨-, rfl, huid⟩ := of_decide_eq_true h
  exact Int.lt_irrefl _ (huid ▸ hn i m f (Table.mem_rows_iff.mp hmem) hf)

theorem insert_nextUid (hn : UidBelow db) (hf : db.folders.get? folderId = some f)
    (huser : (db.users.get? m.userId).isSome) :
    MessageDAL.insert db { m with folderId, uid := f.nextUid } =
      .ok ({ db with messages := db.messages.insert { m with folderId, uid := f.nextUid }.row },
        db.messages.seq + 1) := by
  rw [MessageDAL.insert, if_neg (by simp [taken_nextUid hn hf]),
    if_pos (by simp only [huser, hf, Option.isSome_some, Bool.and_self])]

theorem apply_insertMessage (hn : UidBelow db) (hf : db.folders.get? folderId = some f)
    (huser : (db.users.get? m.userId).isSome) :
    (Statement.insertMessage { m with folderId, uid := f.nextUid }).apply db =
      .ok ({ db with messages := db.messages.insert { m with folderId, uid := f.nextUid }.row },
        ⟨db.messages.seq + 1, f.nextUid⟩) := by
  rw [Statement.apply, insert_nextUid hn hf huser]
  rfl

/-- **Both statements together are `assignUID`**, and it succeeds. -/
theorem apply_assignUID (hn : UidBelow db) (hf : db.folders.get? folderId = some f)
    (huser : (db.users.get? m.userId).isSome) :
    (Write.assignUID m folderId).apply db =
      .ok (FolderDAL.incrementNextUID
        { db with messages := db.messages.insert { m with folderId, uid := f.nextUid }.row }
        folderId, ⟨db.messages.seq + 1, f.nextUid⟩) := by
  have hfind : FolderDAL.findByID db folderId = some (FolderDAL.rowToFolder folderId f) := by
    rw [FolderDAL.findByID, hf]
    rfl
  rw [Write.apply, hfind]
  dsimp only
  rw [show (FolderDAL.rowToFolder folderId f).nextUid = f.nextUid from rfl,
    insert_nextUid hn hf huser]

theorem Serving.assign (h : Serving db₀ db) (hf : db.folders.get? folderId = some f) :
    Serving db₀ (FolderDAL.incrementNextUID
      { db with messages := db.messages.insert { m with folderId, uid := f.nextUid }.row }
      folderId) where
  users := h.users
  folder i := by
    rw [FolderDAL.incrementNextUID_folders, Table.isSome_get?_modify]
    exact h.folder i
  named u name := by
    rw [findByName_incrementNextUID]
    exact h.named u name
  below i m' f' hm' hf' := by
    rw [FolderDAL.incrementNextUID_messages, Table.get?_insert] at hm'
    rw [FolderDAL.incrementNextUID_folders, Table.get?_modify] at hf'
    split_ifs at hm' with hi
    · obtain rfl := Option.some.inj hm'
      simp only [Message.row, if_true, hf, Option.map_some] at hf'
      obtain rfl := Option.some.inj hf'
      exact Int.lt_add_one_iff.mpr (Int.le_refl _)
    · split_ifs at hf' with hF
      · obtain ⟨f₀, hf₀, rfl⟩ := Option.map_eq_some_iff.mp hf'
        exact Int.lt_add_one_of_le (Int.le_of_lt (h.below i m' f₀ hm' hf₀))
      · exact h.below i m' f' hm' hf'

/-- `assignUID` succeeds, under the lock it takes and gives back. -/
theorem ok_assignUIDSteps {call : DeliveryCall} {es : List Delivery}
    (htarget : call.target db₀ = some folderId)
    (hfolder : (db₀.folders.get? folderId).isSome)
    (huser : (db₀.users.get? call.prepared.userId).isSome) :
    (deliveryDiscipline db₀).Ok deliveries.store call
      (fun r h ds => h = none ∧ ∃ m, r = .ok m ∧ ds = es ++ [(call, m)])
      (MessageRepository.assignUIDSteps call call.prepared folderId) none es := by
  rw [MessageRepository.assignUIDSteps, acquire_bind, beginTx_bind]
  intro db hdb
  refine ⟨?_, False.elim⟩
  obtain ⟨f, hf⟩ := Option.isSome_iff_exists.mp ((hdb.folder folderId).trans hfolder)
  have hfind : FolderDAL.findByID db folderId = some (FolderDAL.rowToFolder folderId f) := by
    rw [FolderDAL.findByID, hf]
    rfl
  have huser : (db.users.get? call.prepared.userId).isSome := hdb.users.symm ▸ huser
  simp only [if_true, query_bind, LockDiscipline.ok_read_held, hfind, statement_bind, commitTx_bind,
    release_bind]
  refine LockDiscipline.Ok.exec_of_ok id (apply_insertMessage hdb.below hf huser) ?_
  refine LockDiscipline.Ok.exec_of_ok id rfl ?_
  exact ⟨hdb.assign hf, ⟨folderId, _, htarget, apply_assignUID hdb.below hf huser, rfl⟩,
    ⟨rfl, _, rfl, rfl⟩, False.elim⟩

/-- **Every call keeps the discipline.** -/
theorem kept_deliveries (db₀ : DB) : (deliveryDiscipline db₀).Kept deliveries := by
  rintro history call ds ⟨huser, folderId, htarget, hfolder⟩ hloc
  have hcall : (deliveryDiscipline db₀).Ok deliveries.store call
      (fun r h es => h = none ∧ ∃ m, r = .ok m ∧ es = ds ++ [(call, m)]) call.prog none ds := by
    cases call with
    | saveToFolder m F =>
      obtain rfl := Option.some.inj htarget
      exact ok_assignUIDSteps rfl hfolder huser
    | deliver m F =>
      rw [DeliveryCall.prog]
      have htarget' := htarget
      rw [DeliveryCall.target] at htarget'
      split_ifs at htarget' with hF
      · rw [if_pos hF, query_bind]
        intro db hdb
        obtain ⟨inbox, hinbox, hid⟩ := Option.bind_eq_some_iff.mp
          ((hdb.named m.userId (lit "INBOX")).trans htarget')
        simp only [hinbox, hid, Option.getD_some]
        exact ok_assignUIDSteps htarget hfolder huser
      · obtain rfl := Option.some.inj htarget'
        rw [if_neg hF]
        exact ok_assignUIDSteps htarget hfolder huser
  refine LockDiscipline.Ok.bind ?_ hcall
  rintro r h es ⟨rfl, m, rfl, rfl⟩
  refine ⟨rfl, ?_⟩
  change history ++ [(call, .ok m)] = _
  rw [show history = _ from hloc, List.map_append]
  rfl

end Steps

/-! ## What the deliveries leave -/

/-- The uids handed out in a folder. -/
def uidsIn (folderId : ℤ) (ds : List Delivery) : List ℤ :=
  (ds.filter (·.2.folderId = folderId)).map (·.2.uid)

theorem uidsIn_append (folderId : ℤ) (ds : List Delivery) (d : Delivery) :
    uidsIn folderId (ds ++ [d]) =
      uidsIn folderId ds ++ if d.2.folderId = folderId then [d.2.uid] else [] := by
  split_ifs with h
  · simp [uidsIn, h]
  · simp [uidsIn, h]

/-- The deliveries `ds`, committed in that order, made `db` of `db₀`. -/
structure Delivered (db₀ : DB) (ds : List Delivery) (db : DB) : Prop where
  /-- What is stored is the message of the call, in the folder the call is for. -/
  stored : ∀ d ∈ ds, d.1.target db₀ = some d.2.folderId ∧
    ∃ id, d.2 = { d.1.prepared with id := some id, folderId := d.2.folderId, uid := d.2.uid }
  /-- The old rows are there, and one new row for each delivery. -/
  rows : db.messages.rows = db₀.messages.rows ++ ds.map fun d => (d.2.id.getD 0, d.2.row)
  /-- A folder hands out `n`, `n + 1`, `n + 2`, … -/
  uids : ∀ folderId f, db₀.folders.get? folderId = some f →
    uidsIn folderId ds = (List.range (uidsIn folderId ds).length).map fun k : ℕ => f.nextUid + k
  nextUid : ∀ folderId f, db₀.folders.get? folderId = some f →
    db.folders.get? folderId = some { f with nextUid := f.nextUid + (uidsIn folderId ds).length }

theorem Delivered.nil (db : DB) : Delivered db [] db where
  stored d hd := absurd hd List.not_mem_nil
  rows := (List.append_nil _).symm
  uids _ _ _ := rfl
  nextUid _ f hf := hf.trans (congrArg some (by simp [uidsIn]))

theorem Delivered.commit {db₀ db db' : DB} {ds : List Delivery} {d : Delivery}
    (h : Delivered db₀ ds db) (hc : Commits db₀ d db db') : Delivered db₀ (ds ++ [d]) db' := by
  obtain ⟨call, m'⟩ := d
  obtain ⟨folderId, a, htarget, hw, hm'⟩ := hc
  dsimp only at htarget hw hm'
  cases Write.effect hw with
  | @assignUID m folderId f hf hfree huser =>
    subst hm'
    refine ⟨?_, ?_, fun F f₀ hf₀ => ?_, fun F f₀ hf₀ => ?_⟩
    · refine List.forall_mem_append.mpr ⟨h.stored, List.forall_mem_singleton.mpr ?_⟩
      exact ⟨htarget, db.messages.seq + 1, rfl⟩
    · rw [List.map_append, ← List.append_assoc, ← h.rows]
      rfl
    · have hnext := h.nextUid F f₀ hf₀
      rw [uidsIn_append]
      split_ifs with hF
      · obtain rfl : folderId = F := hF
        rw [hf] at hnext
        rw [List.length_append, List.length_singleton, List.range_succ, List.map_append,
          ← h.uids folderId f₀ hf₀, Option.some.inj hnext]
        rfl
      · rw [List.append_nil]
        exact h.uids F f₀ hf₀
    · have hnext := h.nextUid F f₀ hf₀
      rw [uidsIn_append, FolderDAL.incrementNextUID_folders, Table.get?_modify, hnext]
      by_cases hF : folderId = F
      · rw [if_pos hF.symm, if_pos hF, List.length_append, Option.map_some]
        simp [Int.add_assoc]
      · rw [if_neg (Ne.symm hF), if_neg hF, List.append_nil]

theorem Delivered.of_chain {db₀ db : DB} {ds : List Delivery}
    (h : (deliveryDiscipline db₀).Chain db₀ ds db) : Delivered db₀ ds db := by
  induction h with
  | nil => exact .nil db₀
  | write _ hw => exact hw.elim
  | commit _ hc ih => exact ih.commit hc

/-- A step of clients that only deliver, to folders and users that are there; no statement fails
but for a reason in the database. -/
def Delivering {ι : Type} (db₀ : DB) : LockAct ι DeliveryCall Bytes → Prop
  | .start _ call => call.Into db₀
  | .step _ => True
  | .fail _ _ => False

/-- Every call the client completed succeeded, and is one of its commits `ds`; where the client
waits, it has completed them all. -/
def Completed (ds : List Delivery) :
    LockClient DB Statement Bytes Answer Delivery History DeliveryCall → Prop
  | .idle history => history = ds.map fun d => (d.1, .ok d.2)
  | .busy history _ _ => ∃ ds', ds' <+: ds ∧ history = ds'.map fun d => (d.1, .ok d.2)

/-- **Concurrent deliveries lose nothing.** -/
theorem deliveries_lose_nothing {ι : Type} [DecidableEq ι] {db₀ : DB} (hn : UidBelow db₀)
    {as : List (LockAct ι DeliveryCall Bytes)} (has : ∀ a ∈ as, Delivering db₀ a)
    {n : DeliveryNet ι} (hrun : Run.exec deliveries.next (.start db₀ []) as = some n) :
    Delivered db₀ (n.log.map (·.2)) n.db ∧ ∀ i, Completed (n.committed i) (n.client i) := by
  have hallowed : ∀ a ∈ as, ∀ m : DeliveryNet ι, (deliveryDiscipline db₀).Allowed m a := by
    intro a ha m
    have hdel := has a ha
    cases a with
    | start i call => exact hdel
    | step i => exact fun _ _ _ _ _ => trivial
    | fail i e => exact hdel
  have hserving : Serving db₀ db₀ := ⟨rfl, fun _ => rfl, fun _ _ => rfl, hn⟩
  have hstart : (deliveryDiscipline db₀).Holds deliveries.store db₀ (.start db₀ [] : DeliveryNet ι) :=
    LockDiscipline.holds_start hserving rfl
  have hend := hstart.exec (kept_deliveries db₀) (Run.along_of_forall hallowed _) hrun
  refine ⟨.of_chain hend.chain, fun i => ?_⟩
  have hi := hend.at' i
  cases hc : n.client i with
  | idle history =>
    rw [hc] at hi
    exact hi.2
  | busy history call p =>
    rw [hc] at hi
    exact hi.1

/-- A user with an inbox. -/
def oneInbox : DB :=
  { DB.empty with
    users := Table.empty.insert ⟨lit "alice", []⟩
    folders := Table.empty.insert { userId := 1, parentId := none, name := lit "INBOX" } }

/-- A message for that user. -/
def letter : Message :=
  { userId := 1, folderId := 0, uid := 0, content := { rawFilePath := [], fromAddress := [] } }

/-- One client looks for the inbox, another saves a message, and then the first delivers. -/
def twoDeliveries : List (LockAct Bool DeliveryCall Bytes) :=
  [.start false (.deliver letter 0), .start true (.saveToFolder letter 1), .step false] ++
    List.replicate 8 (.step true) ++ List.replicate 8 (.step false)

theorem deliveries_lose_nothing_two : ∃ n,
    Run.exec deliveries.next (.start oneInbox []) twoDeliveries = some n ∧ n.log.length = 2 ∧
      Delivered oneInbox (n.log.map (·.2)) n.db ∧ ∀ i, Completed (n.committed i) (n.client i) := by
  have hn : UidBelow oneInbox := fun i m f hm => nomatch hm
  have has : ∀ a ∈ twoDeliveries, Delivering oneInbox a := by
    intro a ha
    simp only [twoDeliveries, List.mem_append, List.mem_cons, List.mem_replicate,
      List.not_mem_nil, or_false] at ha
    rcases ha with ((rfl | rfl | rfl) | ⟨-, rfl⟩) | ⟨-, rfl⟩
    · exact ⟨rfl, 1, rfl, rfl⟩
    · exact ⟨rfl, 1, rfl, rfl⟩
    · trivial
    · trivial
    · trivial
  exact ⟨_, rfl, rfl, deliveries_lose_nothing hn has rfl⟩

end MailStack.Store
