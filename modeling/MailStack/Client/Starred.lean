import MailStack.Client.Selected

/-!
# Client/Starred — `handleMarkMailStarred` when a star is taken off

The handler selects the INBOX, notes it as the current folder, and then asks whether the current
folder is `Starred`.  It never is, and success is reported there: the server was asked for `SELECT`,
and for `LOGIN` where the connection had to be replaced.  Neither moves a message.
-/

open Bytes

namespace MailStack.Client

open Store Imap Prog

/-! ## Where the messages are -/

/-- The messages, each with its folder and its uid. -/
def places (db : DB) : List (ℤ × ℤ × ℤ) :=
  db.messages.rows.map fun r => (r.1, r.2.folderId, r.2.uid)

/-- The messages of a folder, by ascending uid. -/
def filed (db : DB) (folderId : ℤ) : List ℤ :=
  (((places db).filter fun p => p.2.1 = folderId).insertionSort fun p q => p.2.2 ≤ q.2.2).map (·.1)

/-- The write is that of `SELECT`. -/
def ClearsRecent : Write → Prop
  | .clearRecentByFolder _ => True
  | _ => False

/-- Clearing `\Recent` moves no message. -/
theorem places_of_clearsRecent {w : Write} (hw : ClearsRecent w) {db db' : DB} {a : Answer}
    (h : store.apply w db = .ok (db', a)) : places db' = places db := by
  cases w with
  | clearRecentByFolder id =>
    obtain ⟨rfl, -⟩ := Prod.mk.inj (Except.ok.inj h)
    simp only [places, MessageDAL.clearRecentByFolder_messages, Table.map, List.map_map]
    refine List.map_congr_left fun r _ => ?_
    rw [Function.comp_apply]
    split_ifs <;> rfl
  | _ => exact hw.elim

/-- A handler that only clears `\Recent` moves no message. -/
theorem places_serve {α : Type} {h : HandlerM α} (hh : Emits ClearsRecent h) (d : Dispatcher)
    (db : DB) : places (serve h d db).1 = places db := by
  obtain ⟨ws, hrun⟩ := runs_run (S := store) (h.run.run d) db
  exact Writes.runs (R := fun db db' => places db' = places db) (fun _ => rfl)
    (fun h h' => h'.trans h) (fun hw h => places_of_clearsRecent hw h) (hh d) hrun

/-- `LOGIN` and `SELECT` write no more than this. -/
theorem emits_handleCommand (S : Services) {cmd : ImapCommand}
    (h : cmd.type = .login ∨ cmd.type = .select) : Emits ClearsRecent (handleCommand S cmd) := by
  have hP := composes_emits (W := ClearsRecent)
  refine hP.ite (hP.pure _) (hP.get_bind fun d => hP.ite (hP.pure _) ?_)
  refine hP.catching ?_ fun _ => hP.pure _
  rw [dispatch]
  rcases h with h | h
  · rw [h]
    exact hP.handleLogin (fun _ => Emits.modify) S cmd
  · rw [h]
    exact hP.handleSelect (fun _ => Emits.modify) (fun _ => trivial) cmd

/-- So a `SELECT` moves no message. -/
theorem places_respond_select (S : Services) (n : ℕ) (name : Bytes) (d : Dispatcher) (db : DB) :
    places (respond S (nextTag n ++ lit " " ++ selectText name) d db).1 = places db := by
  rw [respond_selectText (space_notMem_nextTag n)]
  exact places_serve (emits_handleCommand S (.inr rfl)) d db

/-- Nor does a `LOGIN`. -/
theorem places_respond_login (S : Services) (n : ℕ) (username password : Bytes) (d : Dispatcher)
    (db : DB) :
    places (respond S (commandLine (nextTag n) (lit "LOGIN") [username, password]) d db).1 =
      places db := by
  have hlength : 2 ≤ (commandLine (nextTag n) (lit "LOGIN") [username, password]).length := by
    rw [commandLine]
    simp [lit]
    omega
  rw [respond, parse_quoteImap [username, password] (space_notMem_nextTag n) (by decide) (by decide)
    hlength]
  exact places_serve (emits_handleCommand S (.inl rfl)) d db

/-! ## The worker by itself -/

/-- No one else changes the database before this request is served. -/
def Attempt.Alone : Attempt → Prop
  | .failed _ => True
  | .login others _ => others = id

/-- Nor before any request of the exchange. -/
structure Exchange.Alone (x : Exchange) : Prop where
  before : ∀ a ∈ x.before, a.Alone
  first : ∀ others ∈ x.first.served, others = id
  between : ∀ a ∈ x.between, a.Alone
  second : ∀ others ∈ x.second.served, others = id

/-- The worker is the only one at work while it handles a command. -/
structure Surroundings.Alone (o : Surroundings) : Prop where
  connect : ∀ a ∈ o.connect, a.Alone
  exchange : ∀ i, (o.exchange i).Alone

section Alone

variable {S : Services} {w : Worker}

/-- Nor the client's login. -/
theorem places_loginImap (arrives : Bool) (w : Worker) :
    places (loginImap S id arrives w).db = places w.db := by
  dsimp only [loginImap, id]
  exact places_respond_login S _ _ _ _ _

/-- Nor its attempts, if nobody else is served between them. -/
theorem places_reconnectLoop : ∀ {attempts : List Attempt}, (∀ a ∈ attempts, a.Alone) →
    ∀ w : Worker, places (reconnectLoop S attempts w).2.db = places w.db
  | [], _, _ => rfl
  | .failed _ :: _, h, _ => by
      rw [reconnectLoop, places_reconnectLoop (List.forall_mem_cons.mp h).2]
  | .login others arrives :: _, h, w => by
      obtain ⟨rfl, hrest⟩ := List.forall_mem_cons.mp h
      rw [reconnectLoop]
      split_ifs
      · dsimp only
        exact places_loginImap arrives w
      · rw [places_reconnectLoop hrest, places_loginImap]

/-- Nor the reconnection. -/
theorem places_reconnectSession {attempts : List Attempt} (h : ∀ a ∈ attempts, a.Alone)
    (w : Worker) : places (reconnectSession S attempts w).2.db = places w.db := by
  rw [reconnectSession]
  split_ifs
  · exact places_reconnectLoop h _
  · rfl

/-- Nor making sure of a connection. -/
theorem places_ensureImapConnected {attempts : List Attempt} (h : ∀ a ∈ attempts, a.Alone)
    (w : Worker) : places (ensureImapConnected S attempts w).2.db = places w.db := by
  rw [ensureImapConnected]
  split_ifs
  · rfl
  · exact places_reconnectSession h w

/-- A `SELECT` of the client's moves no message, if it is served alone. -/
theorem places_request {wire : Wire} (h : ∀ others ∈ wire.served, others = id) (name : Bytes)
    (w : Worker) : places (request S wire (selectText name) w).2.db = places w.db := by
  unfold request
  dsimp only
  split
  · rename_i d others _ hserved
    obtain rfl := h others hserved
    exact places_respond_select S _ name d w.db
  · rfl

/-- **A `SELECT` moves no message**, nor does a reconnect on its way. -/
theorem places_imapExchange {x : Exchange} (h : x.Alone) (name : Bytes) (w : Worker) :
    places (imapExchange S x (selectText name) w).2.db = places w.db := by
  have hensure := places_ensureImapConnected (S := S) h.before w
  unfold imapExchange
  match hconnect : ensureImapConnected S x.before w with
  | (.error _, w₁) =>
    rw [hconnect] at hensure
    exact hensure
  | (.ok _, w₁) =>
    rw [hconnect] at hensure
    have hfirst := (places_request (S := S) h.first name w₁).trans hensure
    dsimp only
    match hrequest : request S x.first (selectText name) w₁ with
    | (some r, w₂) =>
      rw [hrequest] at hfirst
      exact hfirst
    | (none, w₂) =>
      rw [hrequest] at hfirst
      have hagain := (places_reconnectSession (S := S) h.between w₂).trans hfirst
      dsimp only
      match hreconnect : reconnectSession S x.between w₂ with
      | (.error _, w₃) =>
        rw [hreconnect] at hagain
        exact hagain
      | (.ok _, w₃) =>
        rw [hreconnect] at hagain
        exact (places_request (S := S) h.second name w₃).trans hagain

variable {o : Surroundings}

/-- The folder is noted, and the messages are where they were. -/
theorem leads_ensureSelected_alone (h : o.Alone) (name : Bytes) (w : Worker) :
    Leads (fun _ => True) (ensureSelected S o name) w
      fun _ w' => places w'.db = places w.db ∧ w'.currentFolder = name := by
  have hconnect : Leads (fun _ => True) (call (ensureImapConnected S o.connect)) w
      fun _ w' => places w'.db = places w.db := by
    refine .call (fun _ w' hok => ?_) fun _ _ _ => trivial
    have hplaces := places_ensureImapConnected (S := S) h.connect w
    rwa [hok] at hplaces
  refine hconnect.bind fun _ w₁ h₁ => .get_bind (.ite (fun hname => .pure ⟨h₁, hname⟩) fun _ => ?_)
  have hexchange : Leads (fun _ => True)
      (exchange S (o.exchange 0) (selectText name) (lit "SELECT " ++ name ++ lit " failed")) w₁
      fun _ w' => places w'.db = places w.db := by
    have huse : Leads (fun _ => True) (use (imapExchange S (o.exchange 0) (selectText name))) w₁
        fun _ w' => places w'.db = places w.db :=
      .use ((places_imapExchange (h.exchange 0) name w₁).trans h₁)
    refine huse.bind fun r w₂ h₂ => ?_
    cases r with
    | some lines => exact .pure h₂
    | none => exact .throw trivial
  exact hexchange.bind fun _ w₂ h₂ => .modify ⟨h₂, rfl⟩

/-- **The handler ends behind its first test.** -/
theorem leads_unstar (h : o.Alone) (mailId : ℤ) (w : Worker) :
    Leads (fun _ => True) (handleMarkMailStarred S o mailId false) w
      fun _ w' => places w'.db = places w.db := by
  refine (leads_ensureSelected_alone h (lit "INBOX") w).bind fun _ w₁ h₁ => .get_bind ?_
  have hinbox : isStarredFolder w₁.currentFolder = false := by
    rw [h₁.2]
    decide
  exact .ite (fun _ => .pure h₁.1) fun hne => absurd ⟨rfl, hinbox⟩ hne

end Alone

/-! ## What was to happen -/

/-- The `k`-th message of the folder `starred` has left it, and the INBOX has one more. -/
structure Unstarred (starred inbox k : ℤ) (db db' : DB) : Prop where
  fewer : (filed db' starred).length + 1 = (filed db starred).length
  gone : ∀ id, (filed db starred)[(k - 1).toNat]? = some id → id ∉ filed db' starred
  back : (filed db' inbox).length = (filed db inbox).length + 1

/-- **Success is reported, and it never happens.** -/
theorem not_unstarred {S : Services} {o : Surroundings} {w w' : Worker} {mailId : ℤ} (h : o.Alone)
    (hreport : handle S o (.markMailStarred mailId false) w = some (.action (.ok ()), w'))
    (starred inbox : ℤ) : ¬ Unstarred starred inbox mailId w.db w'.db := by
  obtain ⟨⟨r, w₁⟩, hrun, hr⟩ := Option.map_eq_some_iff.mp hreport
  obtain ⟨haction, rfl⟩ := Prod.mk.inj hr
  obtain rfl := MailResult.action.inj haction
  have hplaces : places w₁.db = places w.db := leads_unstar h mailId w _ _ hrun
  have hsame : filed w₁.db starred = filed w.db starred := by rw [filed, filed, hplaces]
  intro hgone
  have hfewer := hgone.fewer
  rw [hsame] at hfewer
  omega

/-- Alice's mailbox with one message, in `Starred`. -/
def starredDB : DB where
  users := Table.empty.insert ⟨lit "alice", []⟩
  folders := (Table.empty.insert
      { userId := 1, parentId := none, name := lit "INBOX" }).insert
    { userId := 1, parentId := none, name := lit "Starred", nextUid := 2 }
  messages := Table.empty.insert { inboxRow 1 "1.eml" "bob" with folderId := 2 }
  recipients := .empty

/-- A worker that has `Starred` open. -/
def starredWorker : Worker where
  imapConnection := some
    { aliceSession with currentMailbox := { name := lit "Starred", id := some 2 } }
  currentFolder := lit "Starred"
  db := starredDB

/-- By default it is. -/
theorem alone_default : ({} : Surroundings).Alone := by
  have hid : ∀ others ∈ some (id : DB → DB), others = id := fun _ h => (Option.some.inj h).symm
  exact ⟨fun _ h => (nomatch h), fun _ =>
    ⟨fun _ h => (nomatch h), hid, fun _ h => (nomatch h), hid⟩⟩

/-- An action is reported to have been done. -/
def MailResult.isDone : MailResult → Bool
  | .action (.ok _) => true
  | _ => false

/-- The one result that reports an action done. -/
theorem MailResult.eq_of_isDone {r : MailResult} (h : r.isDone = true) : r = .action (.ok ()) := by
  cases r with
  | action r =>
    cases r with
    | ok _ => rfl
    | error e => cases h
  | folders r => cases h
  | mails r => cases h
  | mail r => cases h

/-- The worker reports that the star is off. -/
theorem reports_starredWorker : ∃ w',
    handle plainServices {} (.markMailStarred 1 false) starredWorker =
      some (.action (.ok ()), w') ∧ filed w'.db 2 = [1] := by
  have hmap : (handle plainServices {} (.markMailStarred 1 false) starredWorker).map
      (fun r => (r.1.isDone, filed r.2.db 2)) = some (true, [1]) := by decide +kernel
  obtain ⟨⟨r, w'⟩, hrun, hr⟩ := Option.map_eq_some_iff.mp hmap
  obtain ⟨hok, hfiled⟩ := Prod.mk.inj hr
  refine ⟨w', ?_, hfiled⟩
  rw [hrun, show r = .action (.ok ()) from MailResult.eq_of_isDone hok]

theorem not_unstarred_starredWorker : ∃ w',
    handle plainServices {} (.markMailStarred 1 false) starredWorker =
        some (.action (.ok ()), w') ∧
      ¬ Unstarred 2 1 1 starredDB w'.db := by
  obtain ⟨w', hreport, -⟩ := reports_starredWorker
  exact ⟨w', hreport, not_unstarred alone_default hreport 2 1⟩

/-- A star that stays, and is reported to be off. -/
theorem stays_starred : ¬ ∀ w',
    handle plainServices {} (.markMailStarred 1 false) starredWorker =
        some (.action (.ok ()), w') →
      Unstarred 2 1 1 starredDB w'.db := by
  intro h
  obtain ⟨w', hreport, hfiled⟩ := reports_starredWorker
  have hfewer := (h w' hreport).fewer
  rw [hfiled] at hfewer
  exact absurd hfewer (by decide)

end MailStack.Client
