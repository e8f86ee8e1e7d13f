import MailStack.Smtp.Delivery
import MailStack.Smtp.Data

/-!
# Smtp/EndOfData — what a 250 answer to the end of data says about the recipients

A `Dialogue` is a connection together with what the client has seen of its recipients: the
addresses of the `RCPT` lines that were answered 250, since the last `MAIL` that was.  In the data
phase they are the recipients of the session, with multiplicity and in order — `noted_of_exec`.

So a 250 answer to the end of data vouches for all of them exactly when either every one is served,
with the text in the file, or none is: `vouches_iff`.
-/

open Bytes Prog MailStack.Store

namespace MailStack.Smtp

/-! ## The accepted recipients -/

section Dialogue

variable {ω : Type*} (repo : Repo ω)

/-- A connection, and the recipients accepted since the last accepted `MAIL`. -/
structure Dialogue (ω : Type*) where
  connection : Connection ω
  accepted : List Bytes

/-- What the answer to a line says about the accepted recipients. -/
def noteReply (line : Bytes) (code : Option Bytes) (accepted : List Bytes) : List Bytes :=
  if code = some (lit "250") then
    match (parse line).type with
    | .mail => []
    | .rcpt => accepted ++ [(parse line).argument]
    | _ => accepted
  else accepted

/-- One turn of the session loop, with the answer noted. -/
def converse (d : Dialogue ω) (inp : Input) : Option (Dialogue ω) :=
  (serve repo d.connection inp).map fun c' =>
    { connection := c'
      accepted :=
        match inp with
        | .line line => noteReply line
            (processLine repo d.connection.session d.connection.world line).code d.accepted
        | .upgrade => d.accepted }

/-- **The session has the accepted recipients**, and no others outside of a transaction. -/
structure Noted (s : SmtpSession) (accepted : List Bytes) : Prop where
  submitting : s.state = .waitRcpt ∨ s.state = .receivingData →
    s.recipients = accepted.map extractUsername
  idle : s.state ≠ .waitRcpt → s.state ≠ .receivingData → s.state ≠ .closed → s.recipients = []

section Noted

variable {s : SmtpSession} {acc : List Bytes}

/-- Outside of a transaction the list says nothing. -/
theorem Noted.of_idle (hr : s.recipients = []) (h₁ : s.state ≠ .waitRcpt)
    (h₂ : s.state ≠ .receivingData) : Noted s acc :=
  ⟨fun h => (h.elim h₁ h₂).elim, fun _ _ _ => hr⟩

/-- Only a 250 notes anything. -/
theorem noteReply_of_code {line : Bytes} {code : Option Bytes} (h : code ≠ some (lit "250")) :
    noteReply line code acc = acc := if_neg h

/-- Only `MAIL` and `RCPT` note anything. -/
theorem noteReply_of_type {line : Bytes} {code : Option Bytes} (hmail : (parse line).type ≠ .mail)
    (hrcpt : (parse line).type ≠ .rcpt) : noteReply line code acc = acc := by
  rw [noteReply]
  split_ifs
  · split
    · exact absurd ‹_› hmail
    · exact absurd ‹_› hrcpt
    · rfl
  · rfl

/-- Asking for an authorization touches no recipient. -/
theorem authorizeAs_session (s : SmtpSession) (w : ω) (u p : Bytes) :
    (authorizeAs repo s w u p).session.recipients = s.recipients ∧
      (authorizeAs repo s w u p).session.state = s.state := by
  rcases authorizeAs_cases repo s w u p with ⟨w', heq⟩ | ⟨w', heq⟩
  · rw [heq]
    exact ⟨rfl, rfl⟩
  · rw [heq]
    exact ⟨rfl, rfl⟩

/-- `AUTH` leaves what is noted. -/
theorem Noted.handleAuth (h : Noted s acc) (w : ω) (command : SmtpCommand) :
    Noted (handleAuth repo s w command).session acc := by
  rcases handleAuth_cases repo s w command with
    ⟨r, -, heq⟩ | ⟨hst, -, hcases⟩
  · rw [heq]
    exact h
  · have hr : s.recipients = [] := h.idle (by simp [hst]) (by simp [hst]) (by simp [hst])
    rcases hcases with ⟨r, st, -, rfl | rfl, heq⟩ | ⟨u, p, heq⟩
    · rw [heq]
      exact .of_idle hr (by simp) (by simp)
    · rw [heq]
      exact .of_idle hr (by simp) (by simp)
    · obtain ⟨hrec, hstate⟩ := authorizeAs_session repo s w u p
      rw [heq]
      exact .of_idle (hrec.trans hr) (by rw [hstate, hst]; simp) (by rw [hstate, hst]; simp)

/-- So does its dialogue. -/
theorem Noted.handleAuthLine (h : Noted s acc)
    (hst : s.state = .authWaitUser ∨ s.state = .authWaitPass) (w : ω) (line : Bytes)
    (acc' : List Bytes) : Noted (handleAuthLine repo s w line).session acc' := by
  have hr : s.recipients = [] := by
    rcases hst with hst | hst <;> exact h.idle (by simp [hst]) (by simp [hst]) (by simp [hst])
  have h₁ : s.state ≠ .waitRcpt := by rcases hst with hst | hst <;> simp [hst]
  have h₂ : s.state ≠ .receivingData := by rcases hst with hst | hst <;> simp [hst]
  rcases handleAuthLine_cases repo s w line with
    ⟨r, -, heq⟩ | ⟨r, name, -, heq⟩ | ⟨r, -, heq⟩ | ⟨u, p, heq⟩
  · rw [heq]
    exact .of_idle hr h₁ h₂
  · rw [heq]
    exact .of_idle hr (by simp) (by simp)
  · rw [heq]
    exact .of_idle hr (by simp) (by simp)
  · obtain ⟨hrec, hstate⟩ :=
      authorizeAs_session repo { s with state := .waitMail, authUsername := [] } w u p
    rw [heq]
    exact .of_idle (hrec.trans hr) (by rw [hstate]; simp) (by rw [hstate]; simp)

/-- So does the body. -/
theorem Noted.receiveData (h : Noted s acc) (hst : s.state = .receivingData) (w : ω)
    (line : Bytes) :
    Noted (receiveData repo s w line).session
      (noteReply line (receiveData repo s w line).code acc) := by
  unfold Smtp.receiveData
  dsimp only
  split_ifs
  · split
    · rw [noteReply_of_code (by simp [Outcome.code, Except.toOption])]
      exact h
    · exact .of_idle rfl (by simp) (by simp)
    · exact .of_idle rfl (by simp) (by simp)
  · exact .of_idle rfl (by simp) (by simp)
  · have hcode : SmtpResponse.code [] ≠ lit "250" := by decide
    rw [noteReply_of_code (by simpa [Outcome.code, Except.toOption] using hcode)]
    exact ⟨fun _ => h.submitting (.inr hst), fun _ hne _ => absurd hst hne⟩

/-- An accepted sender begins anew. -/
theorem Noted.handleMail (h : Noted s acc) {line : Bytes} (hty : (parse line).type = .mail) :
    Noted (s.handleMail (parse line)).2
      (noteReply line (some (SmtpResponse.code (s.handleMail (parse line)).1)) acc) := by
  unfold SmtpSession.handleMail
  split_ifs with hst ha
  · have hcode : SmtpResponse.code SmtpResponse.badSequence ≠ lit "250" := by decide
    rw [noteReply_of_code (by simpa using hcode)]
    exact h
  · rw [not_not] at hst
    have hr : s.recipients = [] := h.idle (by simp [hst]) (by simp [hst]) (by simp [hst])
    have hnote : noteReply line (some (SmtpResponse.code SmtpResponse.ok)) acc = [] := by
      rw [noteReply, if_pos (by rfl), hty]
    exact ⟨fun _ => by simpa [hnote] using hr, fun hne => absurd rfl hne⟩
  · have hcode : SmtpResponse.code SmtpResponse.authRequired ≠ lit "250" := by decide
    rw [noteReply_of_code (by simpa using hcode)]
    exact h

/-- An accepted recipient is noted. -/
theorem Noted.handleRcpt (h : Noted s acc) {line : Bytes} (hty : (parse line).type = .rcpt) :
    Noted (s.handleRcpt (parse line)).2
      (noteReply line (some (SmtpResponse.code (s.handleRcpt (parse line)).1)) acc) := by
  unfold SmtpSession.handleRcpt
  split_ifs with hst
  · have hcode : SmtpResponse.code SmtpResponse.badSequence ≠ lit "250" := by decide
    rw [noteReply_of_code (by simpa using hcode)]
    exact h
  · rw [not_not] at hst
    have hnote : noteReply line (some (SmtpResponse.code SmtpResponse.ok)) acc =
        acc ++ [(parse line).argument] := by
      rw [noteReply, if_pos (by rfl), hty]
    refine ⟨fun _ => ?_, fun hne => absurd hst hne⟩
    rw [hnote, List.map_append, ← h.submitting (.inl hst)]
    rfl

/-- `DATA` leaves what is noted. -/
theorem Noted.handleData (h : Noted s acc) : Noted s.handleData.2 acc := by
  unfold SmtpSession.handleData
  split_ifs with hst
  · exact h
  · rw [not_or, not_not] at hst
    exact ⟨fun _ => h.submitting (.inl hst.1), fun _ hne => absurd rfl hne⟩

/-- So does `STARTTLS`: no transaction is open then. -/
theorem Noted.handleStartTLS (h : Noted s acc) : Noted s.handleStartTLS.2 acc := by
  unfold SmtpSession.handleStartTLS
  split_ifs with hst
  · exact h
  · rw [not_not] at hst
    have hr : s.recipients = [] := h.idle (by simp [hst]) (by simp [hst]) (by simp [hst])
    exact .of_idle hr (by simp) (by simp)

/-- **A command keeps the list right**: only `MAIL` and `RCPT` change it. -/
theorem Noted.handleCommand (h : Noted s acc) (w : ω) (line : Bytes) :
    Noted (handleCommand repo s w (parse line)).session
      (noteReply line (handleCommand repo s w (parse line)).code acc) := by
  have hsame : (parse line).type ≠ .mail → (parse line).type ≠ .rcpt → ∀ code,
      noteReply line code acc = acc := fun h₁ h₂ _ => noteReply_of_type h₁ h₂
  unfold Smtp.handleCommand
  cases hty : (parse line).type with
  | mail => exact h.handleMail hty
  | rcpt => exact h.handleRcpt hty
  | helo | ehlo => exact .of_idle rfl (nofun) (nofun)
  | rset => exact .of_idle rfl (nofun) (nofun)
  | auth =>
    rw [hsame (by simp [hty]) (by simp [hty])]
    exact h.handleAuth repo w _
  | data =>
    rw [hsame (by simp [hty]) (by simp [hty])]
    exact h.handleData
  | noop | unknown =>
    rw [hsame (by simp [hty]) (by simp [hty])]
    exact h
  | quit => exact ⟨fun h => h.elim nofun nofun, fun _ _ hne => absurd rfl hne⟩
  | starttls =>
    rw [hsame (by simp [hty]) (by simp [hty])]
    exact h.handleStartTLS

/-- **What is noted from the replies is what the session has.** -/
theorem Noted.processLine (h : Noted s acc) (w : ω) (line : Bytes) :
    Noted (processLine repo s w line).session
      (noteReply line (processLine repo s w line).code acc) := by
  unfold Smtp.processLine
  split_ifs with hlong hauth hdata
  · have hcode : SmtpResponse.code SmtpResponse.syntaxError ≠ lit "250" := by decide
    rw [noteReply_of_code (by simpa [Outcome.code, Except.toOption] using hcode)]
    exact h
  · exact h.handleAuthLine repo hauth w line _
  · exact h.receiveData repo hdata w line
  · exact h.handleCommand repo w line

end Noted

/-- A turn of the loop keeps the list right. -/
theorem noted_converse {d d' : Dialogue ω} {inp : Input}
    (h : Noted d.connection.session d.accepted) (hstep : converse repo d inp = some d') :
    Noted d'.connection.session d'.accepted := by
  obtain ⟨c', hserve, rfl⟩ := Option.map_eq_some_iff.mp hstep
  cases inp with
  | line line =>
    simp only [serve] at hserve
    split_ifs at hserve
    obtain rfl := Option.some.inj hserve
    exact h.processLine repo d.connection.world line
  | upgrade =>
    simp only [serve] at hserve
    split_ifs at hserve
    obtain rfl := Option.some.inj hserve
    exact .of_idle rfl (fun h => by cases h) fun h => by cases h

/-- **In every dialogue the recipients of a transaction are those that were accepted.** -/
theorem noted_of_exec {domain : Bytes} {w : ω} {inputs : List Input} {d : Dialogue ω}
    (h : Run.exec (converse repo) ⟨Connection.accept domain w, []⟩ inputs = some d) :
    Noted d.connection.session d.accepted :=
  Run.exec_invariant (I := fun d => Noted d.connection.session d.accepted)
    (fun _ _ _ hd hstep => noted_converse repo hd hstep)
    (.of_idle rfl (by simp [Connection.accept]) (by simp [Connection.accept])) h

end Dialogue

/-! ## The answer to the end of data -/

/-- The user a recipient names is the one its address names. -/
theorem delivered_map_extractUsername {before after : Server} {body : Bytes} {rs : List Bytes} :
    Delivered before after body (rs.map extractUsername) ↔ Delivered before after body rs := by
  have hsame : ∀ r id, DeliveredAs before after body (extractUsername r) id ↔
      DeliveredAs before after body r id := by
    intro r id
    constructor
    · rintro ⟨hnew, hrow⟩
      rw [extractUsername_idem] at hrow
      exact ⟨hnew, hrow⟩
    · rintro ⟨hnew, hrow⟩
      refine ⟨hnew, ?_⟩
      rw [extractUsername_idem]
      exact hrow
  simp only [Delivered, List.forall₂_map_left_iff, hsame]

section Vouches

variable (P : PasswordHash) (logger : Bool)

/-- **A 250 answer to the end of data means delivered to everyone**: for each accepted recipient a
new message with the body is in the `INBOX` of the user it names; any other answer is an error. -/
def Vouches (d : Dialogue World) : Prop :=
  let s := d.connection.session
  let w := d.connection.world
  let out := processLine (repo P logger) s w (lit ".")
  (out.code = some (lit "250") → Delivered w.found.1 out.world.server s.body d.accepted) ∧
    (out.code ≠ some (lit "250") → out.code = some (lit "452"))

/-- In what condition the loop of `SaveMessage` starts. -/
def Dialogue.underway (d : Dialogue World) : Underway :=
  (d.connection.world.found, (d.connection.world.moments 0).chances)

/-- Every turn of the loop of `SaveMessage` meets the condition. -/
def EveryTurn (C : Underway → Bytes → Prop) (d : Dialogue World) : Prop :=
  let s := d.connection.session
  Run.Along (attempt P s.sender s.body (parsedBody logger s.body)) C d.underway s.recipients

/-- The operations for a recipient of the session succeed. -/
def Dialogue.Serves (d : Dialogue World) : Underway → Bytes → Prop :=
  let s := d.connection.session
  Smtp.Serves P s.sender s.body (parsedBody logger s.body)

/-- They succeed for all recipients of the session, and no stream loses the text. -/
def Dialogue.AllServed (d : Dialogue World) : Prop :=
  let s := d.connection.session
  Smtp.AllServed P s.sender s.body (parsedBody logger s.body) d.underway s.recipients

variable {P logger}

/-- The answer to the end of data, and the server afterwards. -/
theorem processLine_dot {s : SmtpSession} {w : World} (hst : s.state = .receivingData)
    {saved : Bool} (hsaved : (runFaults serverStore (saveMessage P logger (w.moments 0).chances
      s.sender s.recipients s.body) w.found).2 = saved) :
    (processLine (repo P logger) s w (lit ".")).code =
        some (if saved then lit "250" else lit "452") ∧
      (processLine (repo P logger) s w (lit ".")).world = w.after
        (saveMessage P logger (w.moments 0).chances s.sender s.recipients s.body) := by
  rw [processLine_data (repo P logger) w hst length_dot_le, receiveData, if_pos rfl]
  dsimp only [repo]
  rw [hsaved]
  cases saved with
  | true => exact ⟨rfl, rfl⟩
  | false => exact ⟨rfl, rfl⟩

/-- Everyone has got the message exactly when all were served. -/
theorem delivered_iff_allServed {d : Dialogue World}
    (hnoted : Noted d.connection.session d.accepted)
    (hst : d.connection.session.state = .receivingData) :
    Delivered d.connection.world.found.1
        (processLine (repo P logger) d.connection.session d.connection.world (lit ".")).world.server
        d.connection.session.body d.accepted ↔ d.AllServed P logger := by
  obtain ⟨-, hworld⟩ : _ ∧
      (processLine (repo P logger) d.connection.session d.connection.world (lit ".")).world = _ :=
    processLine_dot hst rfl
  rw [← delivered_map_extractUsername, ← hnoted.submitting (.inr hst), hworld,
    saveMessage_eq_saveLoop]
  exact delivered_iff rfl

/-- **A 250 answer vouches for all recipients exactly when all are served, with the text in the file,
or none is.**  In every dialogue, at every end of data, whatever the repositories and the file
system do. -/
theorem vouches_iff {domain : Bytes} {w : World} {inputs : List Input} {d : Dialogue World}
    (h : Run.exec (converse (repo P logger)) ⟨Connection.accept domain w, []⟩ inputs = some d)
    (hst : d.connection.session.state = .receivingData) :
    Vouches P logger d ↔
      d.AllServed P logger ∨ EveryTurn P logger (fun x r => ¬ d.Serves P logger x r) d := by
  cases hsaved : (runFaults serverStore (saveMessage P logger
      (d.connection.world.moments 0).chances d.connection.session.sender
      d.connection.session.recipients d.connection.session.body) d.connection.world.found).2 with
  | false =>
    obtain ⟨hcode, -⟩ := processLine_dot hst hsaved
    rw [saveMessage_eq_saveLoop] at hsaved
    have hnone : EveryTurn P logger (fun x r => ¬ d.Serves P logger x r) d :=
      (saveLoop_eq_false_iff.mp hsaved).2
    refine iff_of_true ⟨fun h250 => ?_, fun _ => hcode⟩ (.inr hnone)
    rw [hcode] at h250
    exact absurd (Option.some.inj h250) (by decide)
  | true =>
    obtain ⟨hcode, -⟩ := processLine_dot hst hsaved
    rw [saveMessage_eq_saveLoop] at hsaved
    have hsome : ¬ EveryTurn P logger (fun x r => ¬ d.Serves P logger x r) d := by
      intro hnone
      have hfalse := saveLoop_eq_false_iff.mpr ⟨rfl, hnone⟩
      exact absurd (hsaved.symm.trans hfalse) (by simp)
    rw [or_iff_left hsome, ← delivered_iff_allServed (noted_of_exec _ h) hst, Vouches]
    simp only [hcode, if_true, forall_const, ne_eq, not_true_eq_false, false_implies, and_true]

end Vouches

/-! ## A message to two -/

/-- Alice logs in. -/
def loginInputs : List Input :=
  [.line (lit "EHLO client"), .line (lit "STARTTLS"), .upgrade, .line (lit "EHLO client"),
   .line (lit "AUTH PLAIN AGFsaWNlAHB3")]

/-- She writes to herself and to Bob, whom the server does not know yet. -/
def twoInputs : List Input :=
  [.line (lit "MAIL FROM:<alice@localhost>"), .line (lit "RCPT TO:<alice@localhost>"),
   .line (lit "RCPT TO:<bob@localhost>"), .line (lit "DATA"), .line (lit "hello")]

/-- Alice's session on the secure channel. -/
def aliceSession (state : SmtpState) (authenticated : Bool) : SmtpSession where
  state := state
  domain := lit "localhost"
  authenticated := authenticated
  secure := true

/-- Alice's session while she names the recipients. -/
def aliceRcpt (recipients : List Bytes) : SmtpSession :=
  { aliceSession .waitRcpt true with
    sender := lit "alice"
    recipients }

/-- The calls of the login. -/
def loginLog : List Call :=
  [.authorize (lit "alice") (lit "pw") true, .command (lit "AUTH PLAIN AGFsaWNlAHB3"),
   .command (lit "EHLO client"), .command (lit "STARTTLS"), .command (lit "EHLO client")]

/-- The dialogue before the end of data. -/
def twoDialogue {ω : Type*} (w : ω) : Dialogue ω where
  connection :=
    { session :=
        { aliceRcpt [lit "alice", lit "bob"] with
          state := .receivingData
          body := lit "hello\n" }
      world := w
      log := [.command (lit "DATA"), .command (lit "RCPT TO:<bob@localhost>"),
        .command (lit "RCPT TO:<alice@localhost>"),
        .command (lit "MAIL FROM:<alice@localhost>")] ++ loginLog
      failed := false }
  accepted := [lit "alice@localhost", lit "bob@localhost"]

section Two

variable {ω : Type*} (repo : Repo ω) {w w' : ω}

/-- Where her password is accepted, Alice is logged in. -/
theorem exec_loginInputs (h : repo.authorize w (lit "alice") (lit "pw") = (true, w')) :
    Run.exec (converse repo) ⟨Connection.accept (lit "localhost") w, []⟩ loginInputs =
      some ⟨⟨aliceSession .waitMail true, w', loginLog, false⟩, []⟩ := by
  have hsecure : Run.exec (converse repo) ⟨Connection.accept (lit "localhost") w, []⟩
      (loginInputs.take 4) =
        some ⟨⟨aliceSession .waitMail false, w, loginLog.drop 2, false⟩, []⟩ := by rfl
  have hauth : serve repo ⟨aliceSession .waitMail false, w, loginLog.drop 2, false⟩
      (.line (lit "AUTH PLAIN AGFsaWNlAHB3")) =
        (let out := authorizeAs repo (aliceSession .waitMail false) w (lit "alice") (lit "pw")
        some ⟨out.session, out.world,
          (Call.command (lit "AUTH PLAIN AGFsaWNlAHB3") :: out.calls).reverse ++ loginLog.drop 2,
          !out.reply.isOk⟩) := by rfl
  have hsplit : loginInputs = loginInputs.take 4 ++ [.line (lit "AUTH PLAIN AGFsaWNlAHB3")] := rfl
  rw [hsplit, Run.exec_append, hsecure, Option.bind_some, Run.exec, converse, hauth, authorizeAs, h]
  dsimp only
  rw [noteReply_of_type (by decide) (by decide)]
  rfl

/-- Both recipients are accepted. -/
theorem exec_twoInputs (h : repo.authorize w (lit "alice") (lit "pw") = (true, w')) :
    Run.exec (converse repo) ⟨Connection.accept (lit "localhost") w, []⟩
      (loginInputs ++ twoInputs) = some (twoDialogue w') := by
  have hmail : ∀ log, converse repo ⟨⟨aliceSession .waitMail true, w', log, false⟩, []⟩
      (.line (lit "MAIL FROM:<alice@localhost>")) =
        some ⟨⟨aliceRcpt [], w', .command (lit "MAIL FROM:<alice@localhost>") :: log, false⟩, []⟩ :=
    fun _ => by rfl
  have halice : ∀ log, converse repo ⟨⟨aliceRcpt [], w', log, false⟩, []⟩
      (.line (lit "RCPT TO:<alice@localhost>")) =
        some ⟨⟨aliceRcpt [lit "alice"], w', .command (lit "RCPT TO:<alice@localhost>") :: log,
          false⟩, [lit "alice@localhost"]⟩ := fun _ => by rfl
  have hbob : ∀ log, converse repo ⟨⟨aliceRcpt [lit "alice"], w', log, false⟩,
      [lit "alice@localhost"]⟩ (.line (lit "RCPT TO:<bob@localhost>")) =
        some ⟨⟨aliceRcpt [lit "alice", lit "bob"], w',
          .command (lit "RCPT TO:<bob@localhost>") :: log, false⟩,
          [lit "alice@localhost", lit "bob@localhost"]⟩ := fun _ => by rfl
  rw [Run.exec_append, exec_loginInputs repo h, Option.bind_some]
  simp only [twoInputs, Run.exec, hmail, halice, hbob, Option.bind_some]
  rfl

end Two

/-- Alice is registered, with password `pw`, and there is no mail. -/
def aliceServer : Server where
  db := (run mailStore (UserRepository.registerUser markedHash alice (lit "pw") []) .empty).1
  files _ := none

/-- No one else acts; after the login the given steps fail. -/
def aliceWorld (faults : ℕ → Option Bytes) : World where
  server := aliceServer
  moments
    | 0 => ⟨id, fun _ => none, fun _ => noChance⟩
    | _ + 1 => ⟨id, faults, fun _ => noChance⟩

theorem authorize_aliceWorld (faults : ℕ → Option Bytes) :
    (repo markedHash true).authorize (aliceWorld faults) (lit "alice") (lit "pw") =
      (true, ⟨aliceServer, fun _ => ⟨id, faults, fun _ => noChance⟩⟩) := by
  have hgranted : (runFaults serverStore (authorize markedHash (lit "alice") (lit "pw"))
      (aliceServer, fun _ => none)).2 = true := by decide +kernel
  refine Prod.ext hgranted ?_
  rfl

/-- The dialogue, with what is to fail. -/
def twoFaults (faults : ℕ → Option Bytes) : Dialogue World :=
  twoDialogue ⟨aliceServer, fun _ => ⟨id, faults, fun _ => noChance⟩⟩

/-- The 18th step opens the file for Bob. -/
def diskFull : ℕ → Option Bytes := fun n => if n = 17 then some (lit "disk full") else none

/-- The 19th step writes his text, as the stream is destroyed. -/
def diskFullLater : ℕ → Option Bytes := fun n => if n = 18 then some (lit "disk full") else none

theorem vouches_two :
    (twoFaults fun _ => none).accepted = [lit "alice@localhost", lit "bob@localhost"] ∧
      Vouches markedHash true (twoFaults fun _ => none) := by
  have hrun := exec_twoInputs _ (authorize_aliceWorld fun _ => none)
  refine ⟨rfl, (vouches_iff hrun rfl).mpr (.inl ?_)⟩
  refine (files_saveLoop false rfl ?_).2.mp (by decide)
  exact along_attempt_cons.mpr ⟨saveTo_iff_succeeds.mp (by decide),
    along_attempt_cons.mpr ⟨saveTo_iff_succeeds.mp (by decide), trivial⟩⟩

/-- **A 250 answer although Bob got nothing**: his file could not be opened. -/
theorem not_vouches_two :
    ∃ (domain : Bytes) (w : World) (inputs : List Input) (d : Dialogue World),
      Run.exec (converse (repo markedHash true)) ⟨Connection.accept domain w, []⟩ inputs = some d ∧
      d.connection.session.state = .receivingData ∧ ¬ Vouches markedHash true d := by
  have hrun := exec_twoInputs _ (authorize_aliceWorld diskFull)
  refine ⟨_, _, _, twoFaults diskFull, hrun, rfl, fun hvouches => ?_⟩
  have h250 : (processLine (repo markedHash true) (twoFaults diskFull).connection.session
      (twoFaults diskFull).connection.world (lit ".")).code = some (lit "250") := by decide +kernel
  have hall := (delivered_iff_allServed (noted_of_exec _ hrun) rfl).mp (hvouches.1 h250)
  have hbob := saveTo_iff_succeeds.mpr (along_attempt_cons.mp (along_attempt_cons.mp hall.along).2).1
  exact absurd hbob (by decide +kernel)

/-- Nor where his text is lost in the buffer: his row names an empty file. -/
example : ¬ Vouches markedHash true (twoFaults diskFullLater) := by
  intro hvouches
  have h250 : (processLine (repo markedHash true) (twoFaults diskFullLater).connection.session
      (twoFaults diskFullLater).connection.world (lit ".")).code = some (lit "250") := by
    decide
  have hrun := exec_twoInputs _ (authorize_aliceWorld diskFullLater)
  have hall := (delivered_iff_allServed (noted_of_exec _ hrun) rfl).mp (hvouches.1 h250)
  have hfiles := (files_saveLoop false rfl hall.along).2.mpr hall
  exact absurd hfiles (by decide)

end MailStack.Smtp
