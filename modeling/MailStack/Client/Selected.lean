import MailStack.Client.Worker
import MailStack.Imap.Counts
import MailStack.Imap.Inbox

/-!
# Client/Selected — the mailbox that the worker takes for selected

The worker notes a folder once its `SELECT` succeeded, and forgets it where it logs in anew.  In
between it is the dispatcher that knows, and no command of the worker but `SELECT` changes that.
-/

open Bytes

namespace MailStack.Client

open Store Imap Proto ImapResponse

/-! ## Tags -/

/-- A tag is made of digits, an `A` and a dash. -/
theorem notMem_nextTag (n : ℕ) {x : UInt8} (hx : isDigit x = false) (hA : x ≠ 'A'.toUInt8)
    (hminus : x ≠ '-'.toUInt8) : x ∉ nextTag n := by
  intro h
  rcases List.mem_append.mp h with h | h
  · exact hA (List.mem_singleton.mp h)
  · exact notMem_decimal n hx hminus h

theorem space_notMem_nextTag (n : ℕ) : ' '.toUInt8 ∉ nextTag n :=
  notMem_nextTag n (by decide) (by decide) (by decide)

theorem lf_notMem_nextTag (n : ℕ) : '\n'.toUInt8 ∉ nextTag n :=
  notMem_nextTag n (by decide) (by decide) (by decide)

/-- A line that starts with another byte than `'A'` is no reply to the worker. -/
theorem not_tagged_nextTag (n : ℕ) {x : UInt8} (h : 'A'.toUInt8 ≠ x) (line : Bytes) :
    ¬ Tagged (nextTag n) (x :: line) := by
  have htag : nextTag n = 'A'.toUInt8 :: decimal n := rfl
  rw [htag]
  exact not_tagged_cons h

/-! ## What the other commands leave -/

section Keeping

variable {S : Services} {d : Dispatcher} {db : DB} {cmd : Bytes}

/-- The command is none of the three that write to the session. -/
def Keeping (cmd : Bytes) : Prop :=
  toUpper (splitCommand cmd).1 ≠ lit "UID" ∧
    ∀ type ∈ [.login, .select, .close], stringToCommandType (splitCommand cmd).1 ≠ type

instance (cmd : Bytes) : Decidable (Keeping cmd) := by unfold Keeping; infer_instance

/-- So is what starts with such a command and a space. -/
theorem Keeping.append {a : Bytes} (h : Keeping a) (hspace : ' '.toUInt8 ∈ a) (b : Bytes) :
    Keeping (a ++ b) := by
  obtain ⟨word, rest, rfl, hword⟩ := List.eq_append_cons_of_mem hspace
  have hsplit : ∀ rest, (splitCommand (word ++ ' '.toUInt8 :: rest)).1 = word := by
    intro rest
    rw [splitCommand, cut_eq_some_iff.mpr ⟨rfl, hword⟩, Option.getD_some]
  rw [Keeping, hsplit] at h
  rw [Keeping, List.append_assoc, List.cons_append, hsplit]
  exact h

/-- What `Parse` makes of such a line. -/
theorem type_of_parse {n : ℕ} {tag : Bytes} {c : ImapCommand} (h : Keeping cmd)
    (htag : ' '.toUInt8 ∉ tag) (hparse : parse n (tag ++ lit " " ++ cmd) = some c) :
    ∀ type ∈ [.login, .select, .close], c.type ≠ type := by
  have hline : tag ++ lit " " ++ cmd = tag ++ ' '.toUInt8 :: cmd := List.append_assoc _ _ _
  have hne : tag ++ ' '.toUInt8 :: cmd ≠ [] := List.append_ne_nil_of_right_ne_nil _ (by simp)
  rw [hline, parse, if_neg hne, cut_eq_some_iff.mpr ⟨rfl, htag⟩] at hparse
  dsimp only at hparse
  rw [if_neg h.1] at hparse
  obtain ⟨args, -, rfl⟩ := Option.map_eq_some_iff.mp hparse
  exact h.2

/-- **The worker's other commands leave the mailbox as it is.** -/
theorem sameMailbox_respond {tag : Bytes} (h : Keeping cmd) (htag : ' '.toUInt8 ∉ tag) :
    SameMailbox d (respond S (tag ++ lit " " ++ cmd) d db).2.2 := by
  unfold respond
  split
  · exact refl_of SameMailbox d
  · rename_i c hparse
    have htype := type_of_parse h htag hparse
    exact Prog.Results.run Store.store (moves_handleCommand S (htype _ (by simp))
      (htype _ (by simp)) (htype _ (by simp)) d) db

end Keeping

/-! ## What `SELECT` does -/

section Select

variable {S : Services} {d : Dispatcher} {db : DB} {tag name : Bytes}

/-- The session finds the folder. -/
def Finds (d : Dispatcher) (db : DB) (name : Bytes) : Prop :=
  d.state ≠ .nonAuthenticated ∧ ∃ u f, d.authenticatedUserID = some u ∧
    FolderDAL.findByName db u name = some f

/-- The text of the request. -/
def selectText (name : Bytes) : Bytes := lit "SELECT " ++ quoteImap name

/-- The answer to the client's `SELECT` is what the dispatcher makes of the quoted name. -/
theorem respond_selectText (htag : ' '.toUInt8 ∉ tag) :
    respond S (tag ++ lit " " ++ selectText name) d db =
      let r := serve (handleCommand S { tag, type := .select, args := [name] }) d db
      (r.1, r.2.1.toOption, r.2.2) := by
  have hline : tag ++ lit " " ++ selectText name = commandLine tag (lit "SELECT") [name] := by
    rw [commandLine, quoteArgs_singleton, selectText, List.append_nil]
    simp only [List.append_assoc]
    rfl
  have hlength : 1 ≤ (commandLine tag (lit "SELECT") [name]).length := by
    rw [commandLine, quoteArgs_singleton, quoteImap]
    simp
    omega
  rw [hline, respond, parse_quoteImap [name] htag (by decide) (by decide) hlength]
  rfl

/-- A `SELECT` reaches its handler once someone is logged in. -/
theorem serve_handleCommand_select {cmd : ImapCommand} (h : cmd.type = .select)
    (hstate : d.state ≠ .nonAuthenticated) :
    serve (handleCommand S cmd) d db =
      serve (catching (handleSelect cmd) fun _ => return lit "BAD Internal server error\r\n")
        d db := by
  have hknown : cmd.type ≠ .unknown := by rw [h]; decide
  rw [handleCommand, if_neg hknown, Serves.serve_get_bind, if_neg fun hauth => hstate hauth.2,
    dispatch, h]

/-- The lines of the reply to `SELECT` before the tagged one. -/
def selectLines (folder : Folder) (uidvalidity : ℤ) (c : Counts) : List Bytes :=
  [lit "* FLAGS (\\Seen \\Answered \\Flagged \\Draft \\Deleted \\Recent)",
    lit "* OK [UIDVALIDITY " ++ decimal uidvalidity ++ lit "]",
    lit "* OK [PERMANENTFLAGS (\\Seen \\Answered \\Flagged \\Draft \\Deleted \\*)]",
    lit "* OK [UNSEEN " ++ decimal c.unseen ++ lit "]",
    lit "* " ++ decimal c.total ++ lit " EXISTS",
    lit "* OK [UIDNEXT " ++ decimal folder.nextUid ++ lit "]",
    lit "* " ++ decimal c.recent ++ lit " RECENT"]

/-- The reply to a `SELECT` is its untagged lines and the tagged `OK`. -/
theorem stripLineEnd_selectReply (tag : Bytes) (folder : Folder) (uidvalidity : ℤ) (c : Counts) :
    stripLineEnd (selectReply tag folder uidvalidity c) =
      (selectLines folder uidvalidity c).flatMap (· ++ lit "\r\n") ++
        (tag ++ lit " OK [READ-WRITE] Select completed") := by
  have hbracket : lit "]\r\n" = lit "]" ++ lit "\r\n" := rfl
  have hflags : flags = lit "* FLAGS (\\Seen \\Answered \\Flagged \\Draft \\Deleted \\Recent)" ++
      lit "\r\n" :=
    lit_append "* FLAGS (\\Seen \\Answered \\Flagged \\Draft \\Deleted \\Recent)" "\r\n"
  have hpermanent :
      lit "* OK [PERMANENTFLAGS (\\Seen \\Answered \\Flagged \\Draft \\Deleted \\*)]\r\n" =
        lit "* OK [PERMANENTFLAGS (\\Seen \\Answered \\Flagged \\Draft \\Deleted \\*)]" ++
          lit "\r\n" :=
    lit_append "* OK [PERMANENTFLAGS (\\Seen \\Answered \\Flagged \\Draft \\Deleted \\*)]" "\r\n"
  have hok : ok tag (lit "[READ-WRITE] Select completed") =
      tag ++ lit " OK [READ-WRITE] Select completed" ++ lit "\r\n" := by
    rw [ok, List.append_assoc tag]
    rfl
  rw [selectReply, hok, ← List.append_assoc, stripLineEnd_crlf]
  simp only [selectLines, hbracket, hflags, hpermanent, count, List.flatMap_cons, List.flatMap_nil,
    List.append_assoc, List.append_nil]

/-- The worker reads it as `OK`. -/
theorem readReply_selectReply (n : ℕ) (folder : Folder) (uidvalidity : ℤ) (c : Counts) :
    ∃ lines,
      readReply (nextTag n) [] [stripLineEnd (selectReply (nextTag n) folder uidvalidity c)] =
        some (true, lines) := by
  have hnumber : ∀ (k : ℤ) (a b : Bytes), '\n'.toUInt8 ∉ a → '\n'.toUInt8 ∉ b →
      '\n'.toUInt8 ∉ a ++ decimal k ++ b := fun k a b ha hb =>
    List.not_mem_append (List.not_mem_append ha (notMem_decimal k (by decide) (by decide))) hb
  have hlf : ∀ l ∈ selectLines folder uidvalidity c, '\n'.toUInt8 ∉ l := by
    simp only [selectLines, List.forall_mem_cons]
    refine ⟨by decide, hnumber _ _ _ ?_ ?_, by decide, hnumber _ _ _ ?_ ?_, hnumber _ _ _ ?_ ?_,
      hnumber _ _ _ ?_ ?_, hnumber _ _ _ ?_ ?_, fun l hl => nomatch hl⟩ <;> decide
  have hlines : frameLines (stripLineEnd (selectReply (nextTag n) folder uidvalidity c)) =
      selectLines folder uidvalidity c ++
        [nextTag n ++ lit " OK [READ-WRITE] Select completed"] := by
    rw [stripLineEnd_selectReply]
    refine frameLines_crlf (List.append_ne_nil_of_right_ne_nil _ (by decide))
      (List.not_mem_append (lf_notMem_nextTag n) (by decide)) ?_ hlf
    rw [List.getLast?_append_of_ne_nil _ (by decide)]
    decide
  have huntagged : ∀ l ∈ selectLines folder uidvalidity c, verdict (nextTag n) [l] = none := by
    intro l hl
    obtain ⟨rest, rfl⟩ : ∃ rest, l = '*'.toUInt8 :: rest := by
      simp only [selectLines, List.mem_cons, List.not_mem_nil, or_false] at hl
      rcases hl with rfl | rfl | rfl | rfl | rfl | rfl | rfl <;> exact ⟨_, rfl⟩
    exact verdict_eq_none_iff.mpr (not_tagged_nextTag n (by decide) rest)
  have hverdict : verdict (nextTag n) [nextTag n ++ lit " OK [READ-WRITE] Select completed"] =
      some true := by
    rw [verdict, isPrefixOf_append_left, if_pos]
    rfl
  exact ⟨_, readReply_singleton hlines huntagged hverdict⟩

/-- **A folder that is found is selected**, and the worker reads the reply as `OK`. -/
theorem respond_select_of_finds (n : ℕ) (h : Finds d db name) :
    ∃ db' d' reply lines,
      respond S (nextTag n ++ lit " " ++ selectText name) d db = (db', some reply, d') ∧
        readReply (nextTag n) [] [stripLineEnd reply] = some (true, lines) ∧
        d'.state = .selected ∧ d'.currentMailbox.name = cstr name := by
  obtain ⟨hstate, u, f, huser, hfind⟩ := h
  obtain ⟨⟨id, row⟩, hrow, hf⟩ := Option.map_eq_some_iff.mp hfind
  have hname : f.name = cstr name := by
    have hfound := List.find?_some hrow
    rw [decide_eq_true_eq] at hfound
    rw [← hf]
    exact hfound.2
  have hid : f.id = some id := by
    rw [← hf]
    rfl
  obtain ⟨e, db', hs⟩ : ∃ e db', Serves
      (handleSelect { tag := nextTag n, type := .select, args := [name] }) d db
      (selectReply (nextTag n) f id (.ofList (page db id))) (d.select e f (page db id)) db' :=
    serves_handleSelect huser rfl hfind hid
  obtain ⟨lines, hlines⟩ := readReply_selectReply n f id (.ofList (page db id))
  refine ⟨db', d.select e f (page db id), _, lines, ?_, hlines, rfl, hname⟩
  rw [respond_selectText (space_notMem_nextTag n), serve_handleCommand_select rfl hstate,
    hs.catching]
  rfl

/-- The two replies of a command that is turned down. -/
def Refusal (tag reply : Bytes) : Prop :=
  (∃ what, reply = bad tag what) ∨ reply = lit "BAD Internal server error\r\n"

/-- A refusal is never read as a success. -/
theorem not_read_refusal (n : ℕ) {reply : Bytes} {lines : List Bytes}
    (h : Refusal (nextTag n) reply) :
    readReply (nextTag n) [] [stripLineEnd reply] ≠ some (true, lines) := by
  rcases h with ⟨what, rfl⟩ | rfl
  · exact not_read_bad (lf_notMem_nextTag n)
  · have hframe : frameLines (stripLineEnd (lit "BAD Internal server error\r\n")) =
        [lit "BAD Internal server error"] := by decide
    have huntagged : verdict (nextTag n) [lit "BAD Internal server error"] = none :=
      verdict_eq_none_iff.mpr (not_tagged_nextTag n (by decide) _)
    rw [readReply, hframe, huntagged]
    exact (Option.some_ne_none _).symm

/-- A session without a user is left by an exception. -/
theorem stops_handleSelect {cmd : ImapCommand} (hargs : cmd.args = [name])
    (huser : d.authenticatedUserID = none) :
    Stops (handleSelect cmd) d db (.throw .badOptionalAccess) { d with badAccess := true } db := by
  have huserID : Stops userID d db (.throw .badOptionalAccess) { d with badAccess := true } db := by
    have hnone : serve (value d.authenticatedUserID) d db = serve (value none) d db := by rw [huser]
    exact hnone
  rw [handleSelect, if_neg (by simp [hargs])]
  exact huserID.bind _

/-- A mailbox that is not there is refused, and the selection stays. -/
theorem serves_handleSelect_none {cmd : ImapCommand} {u : ℤ} (hargs : cmd.args = [name])
    (huser : d.authenticatedUserID = some u) (hnone : FolderDAL.findByName db u name = none) :
    Serves (handleSelect cmd) d db (bad cmd.tag (lit "Mailbox not found")) d db := by
  have hfind : Serves (ask (MessageRepository.findFolderByName u name)) d db none d db := by
    rw [← hnone]
    exact .ask _
  rw [handleSelect, if_neg (by simp [hargs])]
  exact .bind (.get_bind (.value huser)) (.bind (.arg (by rw [hargs]; rfl)) (.bind hfind (.pure _)))

/-- A folder that is not found is not selected. -/
theorem serves_select_of_not_finds {cmd : ImapCommand} (htype : cmd.type = .select)
    (hargs : cmd.args = [name]) (h : ¬ Finds d db name) :
    ∃ reply d', Serves (handleCommand S cmd) d db reply d' db ∧ SameMailbox d d' ∧
      Refusal cmd.tag reply := by
  by_cases hstate : d.state = .nonAuthenticated
  · have hbad : cmd.tag ++ lit " BAD Not authenticated\r\n" =
        bad cmd.tag (lit "Not authenticated") := by
      rw [bad, List.append_assoc, List.append_assoc]
      rfl
    refine ⟨_, d, ?_, refl_of SameMailbox d, .inl ⟨lit "Not authenticated", rfl⟩⟩
    have hknown : cmd.type ≠ .unknown := by
      rw [htype]
      decide
    rw [handleCommand, if_neg hknown, ← hbad]
    refine .get_bind ?_
    rw [htype, if_pos ⟨rfl, hstate⟩]
    exact .pure _
  · cases huser : d.authenticatedUserID with
    | none =>
      refine ⟨_, { d with badAccess := true }, ?_, ⟨rfl, rfl⟩, .inr rfl⟩
      rw [Imap.Serves, serve_handleCommand_select htype hstate]
      exact (stops_handleSelect hargs huser).catching (.pure _)
    | some u =>
      have hnone : FolderDAL.findByName db u name = none := by
        by_contra hne
        obtain ⟨f, hf⟩ := Option.ne_none_iff_exists'.mp hne
        exact h ⟨hstate, u, f, huser, hf⟩
      refine ⟨_, d, ?_, refl_of SameMailbox d, .inl ⟨lit "Mailbox not found", rfl⟩⟩
      rw [Imap.Serves, serve_handleCommand_select htype hstate]
      exact (serves_handleSelect_none hargs huser hnone).catching

/-- The mailbox stays then, and the worker reads no `OK`. -/
theorem respond_select_of_not_finds (n : ℕ) (h : ¬ Finds d db name) :
    ∃ db' d' reply,
      respond S (nextTag n ++ lit " " ++ selectText name) d db = (db', some reply, d') ∧
        SameMailbox d d' ∧
          ∀ lines, readReply (nextTag n) [] [stripLineEnd reply] ≠ some (true, lines) := by
  let cmd : ImapCommand := { tag := nextTag n, type := .select, args := [name] }
  obtain ⟨reply, d', hs, hsame, hreply⟩ :=
    serves_select_of_not_finds (S := S) (show cmd.type = .select from rfl) rfl h
  refine ⟨db, d', reply, ?_, hsame, fun lines => not_read_refusal n hreply⟩
  rw [respond_selectText (space_notMem_nextTag n), show serve (handleCommand S _) d db = _ from hs]
  rfl

end Select

/-! ## The invariant -/

section Invariant

variable {S : Services} {w w' : Worker}

/-- The folder that the worker takes for selected is the one its dispatcher has selected. -/
def Agree (w : Worker) : Prop :=
  ∀ d, w.imapConnection = some d → w.currentFolder ≠ [] →
    d.state = .selected ∧ d.currentMailbox.name = w.currentFolder

/-- A worker without a connection has nothing to agree with. -/
theorem Agree.of_none (h : w.imapConnection = none) : Agree w := fun _ hd =>
  nomatch h.symm.trans hd

/-- Nor has one that has no folder selected. -/
theorem Agree.of_nil (h : w.currentFolder = []) : Agree w := fun _ _ hne => absurd h hne

theorem Agree.congr (h : Agree w) (hconnection : w'.imapConnection = w.imapConnection)
    (hfolder : w'.currentFolder = w.currentFolder) : Agree w' := by
  rw [Agree, hconnection, hfolder]
  exact h

/-- What a reconnect ends in. -/
inductive Reconnects (attempts : List Attempt) (w : Worker) : Except Bytes Unit × Worker → Prop
  /-- It logged in. -/
  | connected {w' : Worker} (hconnection : w'.imapConnection.isSome = true)
      (hfolder : w'.currentFolder = []) : Reconnects attempts w (.ok (), w')
  /-- It was refused before its first attempt. -/
  | refused {w' : Worker} {e : Bytes} (hrefused : w.settings.initialized = false ∨ attempts = [])
      (hconnection : w'.imapConnection = w.imapConnection)
      (hfolder : w'.currentFolder = w.currentFolder) : Reconnects attempts w (.error e, w')
  /-- It gave the connection up. -/
  | lost {w' : Worker} {e : Bytes} (hconnection : w'.imapConnection = none) :
      Reconnects attempts w (.error e, w')

/-- The loop, once the connection is given up. -/
theorem reconnects_reconnectLoop (attempts₀ : List Attempt) (w₀ : Worker) :
    ∀ {attempts : List Attempt} {w : Worker}, w.imapConnection = none →
      Reconnects attempts₀ w₀ (reconnectLoop S attempts w)
  | [], _, h => .lost h
  | .failed _ :: _, _, _ => by
      rw [reconnectLoop]
      exact reconnects_reconnectLoop attempts₀ w₀ rfl
  | .login others arrives :: _, w, _ => by
      rw [reconnectLoop]
      split_ifs with hlogin
      · exact .connected hlogin rfl
      · exact reconnects_reconnectLoop attempts₀ w₀ (by simpa using hlogin)

/-- The outcomes of `reconnectSession` are those of `Reconnects`. -/
theorem reconnects_reconnectSession (attempts : List Attempt) (w : Worker) :
    Reconnects attempts w (reconnectSession S attempts w) := by
  unfold reconnectSession
  split_ifs with hinit
  · match attempts with
    | [] => exact .refused (.inr rfl) rfl rfl
    | .failed _ :: _ =>
      rw [reconnectLoop]
      exact reconnects_reconnectLoop _ w rfl
    | .login others arrives :: attempts =>
      rw [reconnectLoop]
      split_ifs with hlogin
      · exact .connected hlogin rfl
      · exact reconnects_reconnectLoop _ w (by simpa using hlogin)
  · exact .refused (.inl (by simpa using hinit)) rfl rfl

/-- Whatever the attempts came to, the two sides agree after a reconnection. -/
theorem Reconnects.agree {attempts : List Attempt} {r : Except Bytes Unit × Worker}
    (hr : Reconnects attempts w r) (h : Agree w) : Agree r.2 := by
  cases hr with
  | connected _ hfolder => exact .of_nil hfolder
  | refused _ hconnection hfolder => exact h.congr hconnection hfolder
  | lost hconnection => exact .of_none hconnection

/-- **A reconnect keeps the agreement.** -/
theorem agree_reconnectSession (attempts : List Attempt) (h : Agree w) :
    Agree (reconnectSession S attempts w).2 := (reconnects_reconnectSession attempts w).agree h

/-- Making sure of a connection keeps the agreement. -/
theorem agree_ensureImapConnected (attempts : List Attempt) (h : Agree w) :
    Agree (ensureImapConnected S attempts w).2 := by
  unfold ensureImapConnected
  split_ifs
  · exact h
  · exact agree_reconnectSession attempts h

/-! ## Requests -/

section Requests

variable {d : Dispatcher} {cmd : Bytes} (wire : Wire) (x : Exchange)

@[simp] theorem request_currentFolder (cmd : Bytes) (w : Worker) :
    (request S wire cmd w).2.currentFolder = w.currentFolder := by
  unfold request
  dsimp only
  split <;> rfl

/-- **A request that leaves the mailbox keeps the agreement.** -/
theorem agree_request (hcmd : Keeping cmd) (h : Agree w) : Agree (request S wire cmd w).2 := by
  unfold request
  dsimp only
  split
  · rename_i d others hd _
    intro d' hd' hne
    obtain rfl := Option.some.inj hd'
    have hsame : SameMailbox d (respond S (nextTag (w.tagCounter + 1).toNat ++ lit " " ++ cmd) d
        (others w.db)).2.2 := sameMailbox_respond hcmd (space_notMem_nextTag _)
    rw [hsame.state, hsame.currentMailbox]
    exact h d hd hne
  · exact h

/-- An exchange that selects nothing keeps the agreement. -/
theorem agree_imapExchange (hcmd : Keeping cmd) (h : Agree w) :
    Agree (imapExchange S x cmd w).2 := by
  have hconnected := agree_ensureImapConnected (S := S) x.before h
  unfold imapExchange
  match hensure : ensureImapConnected S x.before w with
  | (.error _, w₁) =>
    rw [hensure] at hconnected
    exact hconnected
  | (.ok _, w₁) =>
    rw [hensure] at hconnected
    have hfirst := agree_request (S := S) x.first hcmd hconnected
    dsimp only
    match hrequest : request S x.first cmd w₁ with
    | (some r, w₂) =>
      rw [hrequest] at hfirst
      exact hfirst
    | (none, w₂) =>
      rw [hrequest] at hfirst
      have hagain := agree_reconnectSession (S := S) x.between hfirst
      dsimp only
      match hreconnect : reconnectSession S x.between w₂ with
      | (.error _, w₃) =>
        rw [hreconnect] at hagain
        exact hagain
      | (.ok _, w₃) =>
        rw [hreconnect] at hagain
        exact agree_request (S := S) x.second hcmd hagain

end Requests

/-! ## `SELECT` -/

section Selecting

variable {name : Bytes} {lines : List Bytes} {wire : Wire} {x : Exchange}

/-- The folder is found, and the worker does not hear of it. -/
def Lost (wire : Wire) (name : Bytes) (w : Worker) : Prop :=
  (wire.sent = false ∨ wire.arrives = false) ∧ ∃ d others, w.imapConnection = some d ∧
    wire.served = some others ∧ Finds d (others w.db) name

/-- What the worker hears of a `SELECT` on a connection is what became of it. -/
theorem request_select_cases (wire : Wire) (hconnection : w.imapConnection.isSome = true)
    (hnul : 0 ∉ name) :
    (∃ lines, (request S wire (selectText name) w).1 = some (true, lines) ∧
      Agree { (request S wire (selectText name) w).2 with currentFolder := name }) ∨
    ((request S wire (selectText name) w).1 = none ∧ Lost wire name w) ∨
    ((∀ lines, (request S wire (selectText name) w).1 ≠ some (true, lines)) ∧
      (Agree w → Agree (request S wire (selectText name) w).2)) := by
  obtain ⟨d, hd⟩ := Option.isSome_iff_exists.mp hconnection
  unfold request
  dsimp only
  rw [hd]
  cases hserved : wire.served with
  | none => exact .inr (.inr ⟨fun _ h => (nomatch h), fun h => h.congr hd.symm rfl⟩)
  | some others =>
    dsimp only
    by_cases hfinds : Finds d (others w.db) name
    · obtain ⟨db', d', reply, lines, hrespond, hread, hstate, hname⟩ :=
        respond_select_of_finds (S := S) (w.tagCounter + 1).toNat hfinds
      rw [hrespond]
      by_cases harrives : (wire.sent && wire.arrives) = true
      · refine .inl ⟨lines, by rw [if_pos harrives]; exact hread, fun d'' hd'' _ => ?_⟩
        obtain rfl := Option.some.inj hd''
        exact ⟨hstate, hname.trans (cstr_eq_self_iff.mpr hnul)⟩
      · refine .inr (.inl ⟨by rw [if_neg harrives]; rfl, ?_, d, others, hd, hserved, hfinds⟩)
        simpa only [Bool.and_eq_true, not_and_or, Bool.not_eq_true] using harrives
    · obtain ⟨db', d', reply, hrespond, hsame, hread⟩ :=
        respond_select_of_not_finds (S := S) (w.tagCounter + 1).toNat hfinds
      rw [hrespond]
      refine .inr (.inr ⟨fun lines h => ?_, fun h d'' hd'' hne => ?_⟩)
      · split_ifs at h
        · exact hread lines h
        · exact nomatch h
      · obtain rfl := Option.some.inj hd''
        rw [hsame.state, hsame.currentMailbox]
        exact h d hd hne

/-- The worker does not hear of the first `SELECT` of an exchange, and is refused a reconnect. -/
def Unheard (x : Exchange) (name : Bytes) (w : Worker) : Prop :=
  Lost x.first name w ∧ (w.settings.initialized = false ∨ x.between = [])

@[simp] theorem request_settings (wire : Wire) (cmd : Bytes) (w : Worker) :
    (request S wire cmd w).2.settings = w.settings := by
  unfold request
  dsimp only
  split <;> rfl

/-- An exchange of a `SELECT` ends so: the worker may note the folder where it succeeded, and may
keep what it had noted where it failed. -/
def Noted (name : Bytes) (r : Option (List Bytes)) (w : Worker) : Prop :=
  match r with
  | some _ => Agree { w with currentFolder := name }
  | none => Agree w

/-- The request that is left when the worker has just logged in. -/
theorem noted_second (hconnection : w.imapConnection.isSome = true) (hfolder : w.currentFolder = [])
    (hnul : 0 ∉ name) :
    Noted name ((request S wire (selectText name) w).1.bind okLines)
      (request S wire (selectText name) w).2 := by
  rcases request_select_cases (S := S) wire hconnection hnul with
    ⟨lines, hread, hagree⟩ | ⟨hread, -⟩ | ⟨hread, -⟩
  · rw [hread]
    exact hagree
  · rw [hread]
    exact .of_nil (by rw [request_currentFolder, hfolder])
  · have hnone : (request S wire (selectText name) w).1.bind okLines = none := by
      match hr : (request S wire (selectText name) w).1 with
      | none => rfl
      | some (false, lines) => rfl
      | some (true, lines) => exact absurd hr (hread lines)
    rw [hnone]
    exact .of_nil (by rw [request_currentFolder, hfolder])

/-- **An exchange of a `SELECT`**, unless it goes unheard. -/
theorem noted_imapExchange (hconnection : w.imapConnection.isSome = true) (hagree : Agree w)
    (hnul : 0 ∉ name) (hheard : w.currentFolder ≠ [] → ¬ Unheard x name w) :
    Noted name (imapExchange S x (selectText name) w).1
      (imapExchange S x (selectText name) w).2 := by
  have hensure : ensureImapConnected S x.before w = (.ok (), w) := if_pos hconnection
  have hcases := request_select_cases (S := S) x.first hconnection hnul
  have hfolder := request_currentFolder (S := S) x.first (selectText name) w
  have hsettings := request_settings (S := S) x.first (selectText name) w
  unfold imapExchange
  rw [hensure]
  dsimp only
  match hrequest : request S x.first (selectText name) w with
  | (some (true, lines), w₁) =>
    rw [hrequest] at hcases
    rcases hcases with ⟨_, -, hnoted⟩ | ⟨hread, -⟩ | ⟨hread, -⟩
    · exact hnoted
    · exact nomatch hread
    · exact absurd rfl (hread lines)
  | (some (false, lines), w₁) =>
    rw [hrequest] at hcases
    rcases hcases with ⟨_, hread, -⟩ | ⟨hread, -⟩ | ⟨-, hkept⟩
    · exact absurd hread (by simp)
    · exact nomatch hread
    · exact hkept hagree
  | (none, w₁) =>
    rw [hrequest] at hcases hfolder hsettings
    dsimp only at hfolder hsettings ⊢
    have hreconnect := reconnects_reconnectSession (S := S) x.between w₁
    match hr : reconnectSession S x.between w₁ with
    | (.ok _, w₂) =>
      rw [hr] at hreconnect
      cases hreconnect with
      | connected hconnection hfolder => exact noted_second hconnection hfolder hnul
    | (.error e, w₂) =>
      rw [hr] at hreconnect
      cases hreconnect with
      | lost hnone => exact Agree.of_none hnone
      | refused hrefused hconnection' hfolder' =>
        refine Agree.congr ?_ hconnection' hfolder'
        rcases hcases with ⟨_, hread, -⟩ | ⟨-, hlost⟩ | ⟨-, hkept⟩
        · exact nomatch hread
        · refine .of_nil ?_
          by_contra hne
          rw [hfolder] at hne
          rw [hsettings] at hrefused
          exact hheard hne ⟨hlost, hrefused⟩
        · exact hkept hagree

end Selecting

/-! ## Handlers -/

section Handlers

variable {o : Surroundings} {name : Bytes}

theorem leads_imapExchange {cmd : Bytes} (x : Exchange) (hcmd : Keeping cmd) (h : Agree w) :
    Leads Agree (use (imapExchange S x cmd)) w fun _ => Agree :=
  .use (agree_imapExchange x hcmd h)

theorem leads_exchange {cmd : Bytes} (x : Exchange) (error : Bytes) (hcmd : Keeping cmd)
    (h : Agree w) : Leads Agree (exchange S x cmd error) w fun _ => Agree := by
  refine (leads_imapExchange x hcmd h).bind fun r w₁ h₁ => ?_
  cases r with
  | some lines => exact .pure h₁
  | none => exact .throw h₁

/-- What the worker is like when it has a connection: that of before, or a new one. -/
structure Connected (w w' : Worker) : Prop where
  agree : Agree w'
  connection : w'.imapConnection.isSome = true
  same : w' = w ∨ w'.currentFolder = []

theorem leads_ensureImapConnected (attempts : List Attempt) (h : Agree w) :
    Leads Agree (call (ensureImapConnected S attempts)) w fun _ => Connected w := by
  have hagree := agree_ensureImapConnected (S := S) attempts h
  refine .call (fun _ w' hok => ?_) fun e w' herror => ?_
  · unfold ensureImapConnected at hok hagree
    split_ifs at hok with hconnection
    · obtain ⟨-, rfl⟩ := Prod.mk.inj hok
      exact ⟨h, hconnection, .inl rfl⟩
    · have hreconnect := reconnects_reconnectSession (S := S) attempts w
      rw [hok] at hreconnect
      cases hreconnect with
      | connected hconnection hfolder => exact ⟨.of_nil hfolder, hconnection, .inr hfolder⟩
  · rw [herror] at hagree
    exact hagree

/-- What a handler that selects needs of the worker it starts at. -/
def Heard (x : Exchange) (name : Bytes) (w : Worker) : Prop :=
  0 ∉ name ∧ (w.currentFolder ≠ [] → w.currentFolder ≠ name → ¬ Unheard x name w)

/-- Where the reply is heard, the two sides agree on what was selected. -/
theorem leads_ensureMailboxSelected {x : Exchange} {w' : Worker} (hw : Connected w w')
    (hheard : Heard x name w) :
    Leads Agree (ensureMailboxSelected S x name) w' fun _ => Agree := by
  refine .get_bind (.ite (fun _ => .pure hw.agree) fun hne => ?_)
  have hnoted : Noted name (imapExchange S x (selectText name) w').1
      (imapExchange S x (selectText name) w').2 := by
    refine noted_imapExchange hw.connection hw.agree hheard.1 fun hfolder => ?_
    rcases hw.same with rfl | hnil
    · exact hheard.2 hfolder hne
    · exact absurd hnil hfolder
  have hexchange : Leads Agree
      (exchange S x (selectText name) (lit "SELECT " ++ name ++ lit " failed")) w'
      fun _ w₁ => Agree { w₁ with currentFolder := name } := by
    refine Leads.bind (.use hnoted) fun r w₁ h₁ => ?_
    cases r with
    | some lines => exact .pure h₁
    | none => exact .throw h₁
  exact hexchange.bind fun _ w₁ h₁ => .modify h₁

theorem leads_ensureSelected (h : Agree w) (hheard : Heard (o.exchange 0) name w) :
    Leads Agree (ensureSelected S o name) w fun _ => Agree :=
  (leads_ensureImapConnected o.connect h).bind fun _ _ hw => leads_ensureMailboxSelected hw hheard

/-- Trying one item after the other keeps the agreement. -/
theorem leads_fetchMessagePayloadBySeq (mailId : ℤ) :
    ∀ {items : List (Bytes × Exchange)} {w : Worker}, Agree w →
      Leads Agree (fetchMessagePayloadBySeq S mailId items) w fun _ => Agree
  | [], _, h => .pure h
  | (fetchItems, x) :: items, w, h => by
      have hcmd :
          Keeping (lit "FETCH " ++ decimal mailId ++ lit " (" ++ fetchItems ++ lit ")") := by
        simp only [List.append_assoc]
        exact Keeping.append (by decide) (by decide) _
      refine (leads_imapExchange x hcmd h).bind fun r w₁ h₁ => ?_
      exact .ite (fun _ => leads_fetchMessagePayloadBySeq mailId h₁) fun _ => .pure h₁

theorem leads_storeMail (x : Exchange) (mailId : ℤ) (flags : Bytes) (h : Agree w) :
    Leads Agree (storeMail S x mailId flags) w fun _ => Agree := by
  have hcmd : Keeping (lit "STORE " ++ decimal mailId ++ lit " " ++ flags) := by
    simp only [List.append_assoc]
    exact Keeping.append (by decide) (by decide) _
  exact (leads_exchange x _ hcmd h).bind fun _ _ h₁ => .pure h₁

theorem leads_copyMail (x : Exchange) (mailId : ℤ) (targetFolder : Bytes) (h : Agree w) :
    Leads Agree (copyMail S x mailId targetFolder) w fun _ => Agree := by
  have hcmd : Keeping (lit "COPY " ++ decimal mailId ++ lit " " ++ quoteImap targetFolder) := by
    simp only [List.append_assoc]
    exact Keeping.append (by decide) (by decide) _
  exact (leads_exchange x _ hcmd h).bind fun _ _ h₁ => .pure h₁

/-- Marking and expunging select nothing. -/
theorem leads_expungeMail (first second : Exchange) (mailId : ℤ) (h : Agree w) :
    Leads Agree (expungeMail S first second mailId) w fun _ => Agree :=
  (leads_storeMail first mailId _ h).bind fun _ _ h₁ =>
    (leads_exchange second _ (by decide) h₁).bind fun _ _ h₂ => .pure h₂

/-- A new connection starts with nothing selected. -/
theorem leads_handleConnect (cmd : ConnectCommand) (h : Agree w) :
    Leads Agree (handleConnect S o cmd) w fun _ => Agree := by
  refine (Leads.modify (h.congr rfl rfl)).bind fun _ w₁ (h₁ : Agree w₁) => ?_
  have hreconnect := agree_reconnectSession (S := S) o.connect h₁
  have hcall : Leads Agree (call (reconnectSession S o.connect)) w₁ fun _ _ => True := by
    refine .call (fun _ _ _ => trivial) fun e w₂ hr => ?_
    rw [hr] at hreconnect
    exact hreconnect
  exact hcall.bind fun _ _ _ => .modify (.of_nil rfl)

theorem leads_handleDisconnect (h : Agree w) :
    Leads Agree (handleDisconnect S o) w fun _ => Agree := by
  have hrest : ∀ w : Worker, Leads Agree (modify fun w => { w with
      imapConnection := none
      connector := false
      currentFolder := []
      tagCounter := 0
      settings := {} }) w fun _ => Agree := fun w => .modify (.of_nil rfl)
  refine .get_bind (.ite (fun _ => ?_) fun _ => hrest w)
  refine (leads_imapExchange _ (by decide) h).bind fun _ w₁ _ => ?_
  exact .get_bind (.ite (fun _ => .undefined_bind) fun _ => hrest w₁)

theorem leads_handleSendMail (h : Agree w) : Leads Agree (handleSendMail S o) w fun _ => Agree := by
  have hrest : ∀ w : Worker, Agree w → Leads Agree (do
      modify fun w => { w with db := o.delivered w.db }
      call fun w => (o.smtp, w)) w fun _ => Agree := by
    intro w h
    refine (Leads.modify (h.congr rfl rfl)).bind fun _ w₁ (h₁ : Agree w₁) => ?_
    exact .call (fun _ w₂ hr => (Prod.mk.inj hr).2 ▸ h₁) fun _ w₂ hr => (Prod.mk.inj hr).2 ▸ h₁
  refine .get_bind (.ite (fun _ => .throw_bind h) fun _ => .ite (fun _ => ?_) fun _ => hrest w h)
  have huse : Leads Agree (use fun w => reconnectSession S o.connect w) w fun _ => Agree :=
    .use (agree_reconnectSession o.connect h)
  refine huse.bind fun r w₁ h₁ => ?_
  cases r with
  | error e => exact .throw_bind h₁
  | ok => exact .ite (fun _ => .throw_bind h₁) fun _ => hrest w₁ h₁

theorem leads_handleFetchFolders (h : Agree w) :
    Leads Agree (handleFetchFolders S o) w fun _ => Agree :=
  (leads_ensureImapConnected o.connect h).bind fun _ _ hw =>
    (leads_exchange _ _ (by decide) hw.agree).bind fun _ _ h₁ => .pure h₁

/-- Listing a folder selects it, so its reply has to be heard. -/
theorem leads_handleFetchMails (offset limit : UInt32) (h : Agree w)
    (hheard : Heard (o.exchange 0) name w) :
    Leads Agree (handleFetchMails S o name offset limit) w fun _ => Agree := by
  refine (leads_ensureSelected h hheard).bind fun _ w₁ h₁ => ?_
  have hcmd : ∀ first last : ℕ,
      Keeping (lit "FETCH " ++ pageRange first last ++ lit " " ++ summaryItems) := by
    intro first last
    simp only [List.append_assoc]
    exact Keeping.append (by decide) (by decide) _
  exact (leads_exchange _ _ (hcmd _ _) h₁).bind fun _ _ h₂ => .pure h₂

theorem leads_handleFetchMail (mailId : ℤ) (h : Agree w) :
    Leads Agree (handleFetchMail S o mailId) w fun _ => Agree := by
  have hcmd : Keeping (lit "FETCH " ++ decimal mailId ++ lit " (FLAGS)") := by
    simp only [List.append_assoc]
    exact Keeping.append (by decide) (by decide) _
  refine (leads_ensureImapConnected o.connect h).bind fun _ _ hw => ?_
  have hflags : Leads Agree (fetchFlagsBySeq S (o.exchange 0) mailId) _ fun _ => Agree :=
    (leads_imapExchange _ hcmd hw.agree).bind fun _ _ h₁ => .pure h₁
  refine hflags.bind fun lines w₂ h₂ => ?_
  refine (leads_fetchMessagePayloadBySeq mailId h₂).bind fun r w₃ h₃ => ?_
  cases r with
  | some rawEmail => exact .pure h₃
  | none => exact .throw h₃

/-- Only an attachment by its index needs the inbox to be selected. -/
theorem leads_handleDownloadAttachment (mailId : ℤ) (index : ℕ) (h : Agree w)
    (hheard : index ≠ 0 → Heard (o.exchange 0) (lit "INBOX") w) :
    Leads Agree (handleDownloadAttachment S o mailId index) w fun _ => Agree := by
  refine (leads_ensureImapConnected o.connect h).bind fun _ w₁ hw =>
    .ite (fun _ => ?_) fun hindex => ?_
  · exact .throw_bind hw.agree
  · refine (leads_ensureMailboxSelected hw (hheard hindex)).bind fun _ w₂ h₂ => ?_
    refine (leads_fetchMessagePayloadBySeq mailId h₂).bind fun r w₃ h₃ => ?_
    cases r with
    | some rawEmail =>
      exact .call (fun _ w₄ hr => (Prod.mk.inj hr).2 ▸ h₃) fun _ w₄ hr => (Prod.mk.inj hr).2 ▸ h₃
    | none => exact .throw h₃

/-- The client forgets a folder that it had selected and deletes. -/
theorem leads_handleDeleteFolder (h : Agree w) :
    Leads Agree (handleDeleteFolder S o name) w fun _ => Agree := by
  refine (leads_ensureImapConnected o.connect h).bind fun _ _ hw => ?_
  have hcmd : Keeping (lit "DELETE " ++ quoteImap name) := Keeping.append (by decide) (by decide) _
  refine (leads_exchange _ _ hcmd hw.agree).bind fun _ w₁ h₁ => ?_
  exact .get_bind (.ite (fun _ => .modify (.of_nil rfl)) fun _ => .pure h₁)

/-- The inbox is selected first. -/
theorem leads_handleMarkMailStarred (mailId : ℤ) (starred : Bool) (h : Agree w)
    (hheard : Heard (o.exchange 0) (lit "INBOX") w) :
    Leads Agree (handleMarkMailStarred S o mailId starred) w fun _ => Agree := by
  refine (leads_ensureSelected h hheard).bind fun _ w₁ h₁ => ?_
  have hrest : ∀ target w₂, Agree w₂ → Leads Agree (do
      copyMail S (o.exchange 2) mailId target
      expungeMail S (o.exchange 3) (o.exchange 4) mailId) w₂ fun _ => Agree := fun target w₂ h₂ =>
    (leads_copyMail _ mailId target h₂).bind fun _ _ h₃ => leads_expungeMail _ _ mailId h₃
  refine .get_bind (.ite (fun _ => .pure h₁) fun _ => .ite (fun _ => ?_) fun _ => hrest _ w₁ h₁)
  have hcmd : ∀ target, Keeping (lit "CREATE " ++ quoteImap target) := fun target =>
    Keeping.append (by decide) (by decide) _
  exact (leads_imapExchange _ (hcmd _) h₁).bind fun _ w₂ h₂ => hrest _ w₂ h₂

end Handlers

/-! ## Runs -/

/-- The folder that a handler selects, if it comes to it. -/
def MailCommand.selects : MailCommand → Option Bytes
  | .fetchMails folderName _ _ => some folderName
  | .downloadAttachment _ index => if index = 0 then none else some (lit "INBOX")
  | .deleteMail _ | .markMailRead _ | .moveMail _ _ | .addLabel _ _ | .removeLabel _ _
  | .markMailStarred _ _ | .markMailImportant _ _ => some (lit "INBOX")
  | .connect _ | .disconnect | .sendMail | .fetchMail _ | .fetchFolders | .createFolder _
  | .deleteFolder _ => none

/-- What a command needs: the folder it selects has no NUL in its name, and where another one is
noted, the reply to its `SELECT` is not lost with a reconnect refused. -/
def Attentive (w : Worker) (a : WorkerAct) : Prop :=
  ∀ name, a.command.selects = some name → Heard (a.world.exchange 0) name w

/-- **One command keeps the agreement.** -/
theorem Agree.next {a : WorkerAct} (h : Agree w) (ha : Attentive w a)
    (hnext : w.next S a = some w') : Agree w' := by
  obtain ⟨command, o⟩ := a
  obtain ⟨r, hr, rfl⟩ := Option.map_eq_some_iff.mp hnext
  cases command with
  | connect cmd => exact (leads_handleConnect cmd h).report hr
  | disconnect => exact (leads_handleDisconnect h).report hr
  | sendMail => exact (leads_handleSendMail h).report hr
  | fetchMails folderName offset limit =>
    exact (leads_handleFetchMails offset limit h (ha _ rfl)).report hr
  | fetchMail mailId => exact (leads_handleFetchMail mailId h).report hr
  | deleteMail mailId =>
    exact ((leads_ensureSelected h (ha _ rfl)).bind fun _ _ h₁ =>
      leads_expungeMail _ _ mailId h₁).report hr
  | markMailRead mailId =>
    exact ((leads_ensureSelected h (ha _ rfl)).bind fun _ _ h₁ =>
      leads_storeMail _ mailId _ h₁).report hr
  | moveMail mailId targetFolder =>
    refine Leads.report ((leads_ensureSelected h (ha _ rfl)).bind fun _ w₁ h₁ => ?_) hr
    refine .ite (fun _ => .throw_bind h₁) fun _ => ?_
    exact (leads_copyMail _ mailId _ h₁).bind fun _ _ h₂ => leads_expungeMail _ _ mailId h₂
  | downloadAttachment mailId index =>
    exact (leads_handleDownloadAttachment mailId index h fun hindex =>
      ha _ (if_neg hindex)).report hr
  | fetchFolders => exact (leads_handleFetchFolders h).report hr
  | createFolder folderName =>
    refine Leads.report ((leads_ensureImapConnected o.connect h).bind fun _ _ hw => ?_) hr
    have hcmd : Keeping (lit "CREATE " ++ quoteImap folderName) :=
      Keeping.append (by decide) (by decide) _
    exact (leads_exchange _ _ hcmd hw.agree).bind fun _ _ h₁ => .pure h₁
  | deleteFolder folderName => exact (leads_handleDeleteFolder h).report hr
  | addLabel mailId label =>
    exact ((leads_ensureSelected h (ha _ rfl)).bind fun _ _ h₁ =>
      leads_storeMail _ mailId _ h₁).report hr
  | removeLabel mailId label =>
    exact ((leads_ensureSelected h (ha _ rfl)).bind fun _ _ h₁ =>
      leads_storeMail _ mailId _ h₁).report hr
  | markMailStarred mailId starred =>
    exact (leads_handleMarkMailStarred mailId starred h (ha _ rfl)).report hr
  | markMailImportant mailId important =>
    exact ((leads_ensureSelected h (ha _ rfl)).bind fun _ _ h₁ =>
      leads_storeMail _ mailId _ h₁).report hr

/-- **Both ends agree on the selected mailbox**, after any commands, losses and reconnects that meet
the condition. -/
theorem agree_of_exec {as : List WorkerAct} {db : DB}
    (ha : Run.Along (Worker.next S) Attentive { db } as)
    (hrun : Run.exec (Worker.next S) { db } as = some w') : Agree w' :=
  Run.exec_invariant_of_along (fun _ _ _ h ha hnext => h.next ha hnext) (.of_none rfl) ha hrun

end Invariant

/-! ## A reply that is lost -/

/-- The settings of a user who is registered. -/
def aliceConnects : ConnectCommand where
  smtpHost := lit "mail"
  smtpPort := 25
  imapHost := lit "mail"
  imapPort := 143
  username := lit "alice"
  password := lit "secret"

/-- A worker before its first command. -/
def newWorker : Worker := { db := registered.db }

def connects : WorkerAct := ⟨.connect aliceConnects, { connect := [.login id true] }⟩

def opensInbox : WorkerAct := ⟨.fetchMails (lit "INBOX") 0 50, {}⟩

/-- She opens another folder, and the reply to `SELECT` is lost. -/
def losesReply (between : List Attempt) : WorkerAct :=
  ⟨.fetchMails (lit "Sent") 0 50,
    { exchange := fun i => if i = 0 then { first := { arrives := false }, between } else {} }⟩

/-- What the worker remembers, and what is selected, with a reconnect after the loss and without. -/
theorem exec_losesReply :
    (newWorker.next plainServices connects).map (·.currentFolder) = some [] ∧
    ((newWorker.next plainServices connects).bind fun w =>
      w.next plainServices opensInbox).map (·.settings.initialized) = some true ∧
    (Run.exec (Worker.next plainServices) newWorker
      [connects, opensInbox, losesReply [.failed 1, .login id true]]).map
        (fun w => (w.imapConnection.isSome, w.currentFolder)) = some (true, lit "Sent") ∧
    (Run.exec (Worker.next plainServices) newWorker [connects, opensInbox, losesReply []]).map
        (fun w => (w.currentFolder, w.imapConnection.map (·.currentMailbox.name))) =
      some (lit "INBOX", some (lit "Sent")) := by
  decide +kernel

theorem attentive_opensInbox :
    Run.Along (Worker.next plainServices) Attentive newWorker
      [connects, opensInbox, losesReply [.failed 1, .login id true]] := by
  refine ⟨fun _ h => (nomatch h), fun w₁ h₁ => ⟨fun name hname => ?_, fun w₂ h₂ => ⟨?_, ?_⟩⟩⟩
  · obtain rfl := Option.some.inj hname
    have hfolder := exec_losesReply.1
    rw [h₁] at hfolder
    exact ⟨by decide +kernel, fun hne => absurd (Option.some.inj hfolder) hne⟩
  · intro name hname
    obtain rfl := Option.some.inj hname
    have hsettings := exec_losesReply.2.1
    rw [h₁, Option.bind_some, h₂] at hsettings
    refine ⟨by decide +kernel, fun _ _ hunheard => ?_⟩
    rcases hunheard.2 with hinit | hbetween
    · exact Bool.false_ne_true (hinit.symm.trans (Option.some.inj hsettings))
    · exact nomatch hbetween
  · exact fun _ _ => trivial

/-- The worker logs in again, and the folder it asks for once more is selected. -/
theorem agree_after_reconnect : ∃ w d,
    Run.exec (Worker.next plainServices) newWorker
      [connects, opensInbox, losesReply [.failed 1, .login id true]] = some w ∧
    w.imapConnection = some d ∧ w.currentFolder = lit "Sent" ∧ d.state = .selected ∧
    d.currentMailbox.name = lit "Sent" := by
  obtain ⟨w, hrun, hw⟩ := Option.map_eq_some_iff.mp exec_losesReply.2.2.1
  obtain ⟨hconnection, hfolder⟩ := Prod.mk.inj hw
  obtain ⟨d, hd⟩ := Option.isSome_iff_exists.mp hconnection
  have hne : w.currentFolder ≠ [] := by
    rw [hfolder]
    decide +kernel
  obtain ⟨hstate, hname⟩ :=
    agree_of_exec attentive_opensInbox hrun d hd hne
  exact ⟨w, d, hrun, hd, hfolder, hstate, hname.trans hfolder⟩

/-- **A `SELECT` that is served and goes unheard**: the worker is stopped before it can reconnect,
and goes on with the folder it had noted. -/
theorem not_agree_losesReply : ∃ w,
    Run.exec (Worker.next plainServices) newWorker [connects, opensInbox, losesReply []] = some w ∧
      ¬ Agree w := by
  obtain ⟨w, hrun, hw⟩ := Option.map_eq_some_iff.mp exec_losesReply.2.2.2
  obtain ⟨hfolder, hname⟩ := Prod.mk.inj hw
  obtain ⟨d, hd, hname⟩ := Option.map_eq_some_iff.mp hname
  refine ⟨w, hrun, fun h => ?_⟩
  have hagree := (h d hd (by rw [hfolder]; decide)).2
  rw [hfolder, hname] at hagree
  exact absurd hagree (by decide)

end MailStack.Client
