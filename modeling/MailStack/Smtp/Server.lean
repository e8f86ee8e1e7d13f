import MailStack.Machinery.Run
import MailStack.Smtp.Session

/-!
# Smtp/Server — the session loop of the SMTP server, and what it keeps true

The loop of `server_main.cpp` feeds received lines to `ProcessLine`; when the session is left in
state `STARTTLS` it runs the handshake and, only if that succeeds, calls `SetSecure(true)` and
`ResetToHelo()` before the next line.  It stops when the session is closed or an exception leaves
`ProcessLine`; a failed send or handshake stops it too, which is a run that simply ends there.

`Inv` is the invariant of that loop: `Safe` is what it says of a session, and the one clause it
adds is that an AUTH dialogue is only ever entered on a secure channel.
-/

open Bytes

namespace MailStack.Smtp

variable {ω : Type*} (repo : Repo ω)

/-- A connection: its session, the world behind it, every call made so far (the newest first), and
whether an exception ended it. -/
structure Connection (ω : Type*) where
  session : SmtpSession
  world : ω
  log : List Call
  failed : Bool

/-- A connection as it is accepted. -/
def Connection.accept (domain : Bytes) (w : ω) : Connection ω :=
  ⟨{ domain }, w, [], false⟩

/-- What the loop does next: process a received line, or upgrade after a successful handshake. -/
inductive Input
  | line (line : Bytes)
  | upgrade

/-- One turn of the session loop; `none` where the loop does not offer it. -/
def serve (c : Connection ω) : Input → Option (Connection ω)
  | .line line =>
    if c.failed ∨ c.session.state = .closed ∨ c.session.state = .starttls then none
    else
      let out := processLine repo c.session c.world line
      some ⟨out.session, out.world, out.calls.reverse ++ c.log, !out.reply.isOk⟩
  | .upgrade =>
    if c.failed ∨ c.session.state ≠ .starttls then none
    else some { c with session := (c.session.setSecure true).resetToHelo }

/-! ## What holds of a session -/

/-- A line that was parsed as `HELO` or `EHLO`. -/
def Call.isHelo : Call → Bool
  | .command line => (parse line).type = .helo || (parse line).type = .ehlo
  | _ => false

/-- The calls made since the last `HELO` or `EHLO` was processed. -/
def sinceHelo (log : List Call) : List Call := log.takeWhile fun c => !c.isHelo

/-- **Submission safety**, of a session and the calls made so far. -/
structure Safe (s : SmtpSession) (log : List Call) : Prop where
  submitting : s.state = .waitRcpt ∨ s.state = .receivingData → s.authenticated = true
  secure : s.authenticated = true → s.secure = true
  authorized : s.authenticated = true → ∃ u p, Call.authorize u p true ∈ sinceHelo log
  recipients : s.state = .receivingData → s.recipients ≠ []
  body : s.state ≠ .receivingData → s.body = []
  size : s.body.length ≤ maxMessageSize

/-- …and with the clause that makes it inductive. -/
structure Inv (s : SmtpSession) (log : List Call) : Prop extends Safe s log where
  dialogue : s.state = .authWaitUser ∨ s.state = .authWaitPass → s.secure = true

/-- Calls that are no `HELO` are counted from the same one. -/
theorem sinceHelo_append {calls : List Call} (h : ∀ c ∈ calls, c.isHelo = false)
    (log : List Call) : sinceHelo (calls ++ log) = calls ++ sinceHelo log :=
  List.takeWhile_append_of_pos fun c hc => by simp [h c hc]

/-- Calls that process no `HELO` do not take an authorization away. -/
theorem Inv.append {s : SmtpSession} {log calls : List Call} (h : Inv s log)
    (hc : ∀ c ∈ calls, c.isHelo = false) : Inv s (calls ++ log) :=
  { h with
    authorized := fun ha => by
      obtain ⟨u, p, hup⟩ := h.authorized ha
      exact ⟨u, p, by rw [sinceHelo_append hc]; exact List.mem_append_right _ hup⟩ }

/-- A session that is neither submitting nor in a dialogue, with its message reset: all that is
left to know is its authentication. -/
theorem Inv.of_idle {s : SmtpSession} {log : List Call}
    (hsec : s.authenticated = true → s.secure = true)
    (hauth : s.authenticated = true → ∃ u p, Call.authorize u p true ∈ sinceHelo log)
    (hbody : s.body = [])
    (hs : s.state = .waitMail ∨ s.state = .waitHelo ∨ s.state = .closed ∨ s.state = .starttls) :
    Inv s log where
  submitting h := by rcases h with h | h <;> simp [h] at hs
  secure := hsec
  authorized := hauth
  recipients h := by simp [h] at hs
  body _ := hbody
  size := by simp [hbody, maxMessageSize]
  dialogue h := by rcases h with h | h <;> simp [h] at hs

/-! ## The handlers keep it -/

section Handlers

variable {s : SmtpSession} {log : List Call}

/-- `ResetToHelo`, with any state it may be followed by, starts over. -/
theorem inv_resetToHelo (s : SmtpSession) (log : List Call) {st : SmtpState}
    (hst : st = .waitHelo ∨ st = .waitMail) : Inv { s.resetToHelo with state := st } log :=
  Inv.of_idle (by simp [SmtpSession.resetToHelo, SmtpSession.resetMessage])
    (by simp [SmtpSession.resetToHelo, SmtpSession.resetMessage]) rfl
    (by rcases hst with rfl | rfl <;> simp)

/-- `ResetMessage` back to `WAIT_MAIL` keeps the authentication. -/
theorem Inv.resetMessage (h : Inv s log) :
    Inv { s.resetMessage with state := .waitMail } log :=
  Inv.of_idle h.secure h.authorized rfl (.inl rfl)

/-- `MAIL` keeps the invariant. -/
theorem Inv.handleMail (h : Inv s log) (command : SmtpCommand) :
    Inv (s.handleMail command).2 log := by
  unfold SmtpSession.handleMail
  split_ifs with hst ha
  · exact h
  · rw [not_not] at hst
    exact { submitting := fun _ => ha
            secure := h.secure
            authorized := h.authorized
            recipients := by simp
            body := fun _ => h.body (by simp [hst])
            size := h.size
            dialogue := by simp }
  · exact h

/-- So does `RCPT`. -/
theorem Inv.handleRcpt (h : Inv s log) (command : SmtpCommand) :
    Inv (s.handleRcpt command).2 log := by
  unfold SmtpSession.handleRcpt
  split_ifs
  · exact h
  · exact { h with recipients := by simp }

/-- And `DATA`. -/
theorem Inv.handleData (h : Inv s log) : Inv s.handleData.2 log := by
  unfold SmtpSession.handleData
  split_ifs with hst
  · exact h
  · rw [not_or, not_not] at hst
    exact { submitting := fun _ => h.submitting (.inl hst.1)
            secure := h.secure
            authorized := h.authorized
            recipients := fun _ => hst.2
            body := by simp
            size := h.size
            dialogue := by simp }

/-- And `QUIT`, outside of a body. -/
theorem Inv.handleQuit (h : Inv s log) (hst : s.state ≠ .receivingData) :
    Inv s.handleQuit.2 log :=
  Inv.of_idle h.secure h.authorized (h.body hst) (by simp [SmtpSession.handleQuit])

/-- And `STARTTLS`. -/
theorem Inv.handleStartTLS (h : Inv s log) : Inv s.handleStartTLS.2 log := by
  unfold SmtpSession.handleStartTLS
  split_ifs with hst
  · exact h
  · rw [not_not] at hst
    exact Inv.of_idle h.secure h.authorized (h.body (by simp [hst])) (by simp)

/-- The outcome of a request keeps the invariant, and none of its calls processes a `HELO`. -/
def Keeps (log : List Call) (out : Outcome ω) : Prop :=
  Inv out.session (out.calls.reverse ++ log) ∧ ∀ c ∈ out.calls, c.isHelo = false

/-- What makes no call keeps the connection safe. -/
theorem keeps_of_inv (h : Inv s log) (r : Except Exn Bytes) (w : ω) :
    Keeps log (⟨r, s, w, []⟩ : Outcome ω) := ⟨by simpa using h, by simp⟩

/-- Asking for an authorization on a secure channel: a granted one is the newest call. -/
theorem keeps_authorizeAs (h : Inv s log) (hst : s.state = .waitMail) (hsec : s.secure = true)
    (w : ω) (u p : Bytes) : Keeps log (authorizeAs repo s w u p) := by
  rcases authorizeAs_cases repo s w u p with ⟨w', heq⟩ | ⟨w', heq⟩
  · rw [heq]
    refine ⟨Inv.of_idle (fun _ => hsec) (fun _ => ⟨u, p, ?_⟩) (h.body (by simp [hst]))
      (.inl hst), by simp [Call.isHelo]⟩
    simp [sinceHelo, Call.isHelo]
  · rw [heq]
    exact ⟨h.append (by simp [Call.isHelo]), by simp [Call.isHelo]⟩

/-- Leaving an AUTH dialogue for `WAIT_MAIL`. -/
theorem Inv.leaveDialogue (h : Inv s log) (hst : s.state ≠ .receivingData) (name : Bytes) :
    Inv { s with state := .waitMail, authUsername := name } log :=
  Inv.of_idle h.secure h.authorized (h.body hst) (.inl rfl)

/-- Entering or continuing an AUTH dialogue on a secure channel. -/
theorem Inv.enterDialogue (h : Inv s log) (hst : s.state ≠ .receivingData)
    (hsec : s.secure = true) {st : SmtpState} (hd : st = .authWaitUser ∨ st = .authWaitPass)
    (name : Bytes) : Inv { s with state := st, authUsername := name } log where
  submitting h' := by rcases hd with rfl | rfl <;> simp at h'
  secure := h.secure
  authorized := h.authorized
  recipients h' := by rcases hd with rfl | rfl <;> simp at h'
  body _ := h.body hst
  size := h.size
  dialogue _ := hsec

/-- `AUTH` keeps it safe: it asks before it lets anyone in. -/
theorem keeps_handleAuth (h : Inv s log) (w : ω) (command : SmtpCommand) :
    Keeps log (handleAuth repo s w command) := by
  rcases handleAuth_cases repo s w command with
    ⟨r, -, heq⟩ | ⟨hst, hsec, ⟨r, st, -, hd, heq⟩ | ⟨u, p, heq⟩⟩
  · rw [heq]
    exact keeps_of_inv h r w
  · rw [heq]
    exact keeps_of_inv (h.enterDialogue (by simp [hst]) hsec hd s.authUsername) r w
  · rw [heq]
    exact keeps_authorizeAs repo h hst hsec w u p

/-- So do the lines of its dialogue. -/
theorem keeps_handleAuthLine (h : Inv s log)
    (hst : s.state = .authWaitUser ∨ s.state = .authWaitPass) (w : ω) (line : Bytes) :
    Keeps log (handleAuthLine repo s w line) := by
  have hnd : s.state ≠ .receivingData := by rcases hst with hst | hst <;> simp [hst]
  have hsec := h.dialogue hst
  rcases handleAuthLine_cases repo s w line with
    ⟨r, -, heq⟩ | ⟨r, name, -, heq⟩ | ⟨r, -, heq⟩ | ⟨u, p, heq⟩
  · rw [heq]
    exact keeps_of_inv h r w
  · rw [heq]
    exact keeps_of_inv (h.enterDialogue hnd hsec (.inr rfl) name) r w
  · rw [heq]
    exact keeps_of_inv (h.leaveDialogue hnd []) r w
  · rw [heq]
    exact keeps_authorizeAs repo (h.leaveDialogue hnd []) rfl hsec w u p

/-- So does a line of the body. -/
theorem keeps_receiveData (h : Inv s log) (hst : s.state = .receivingData) (w : ω)
    (line : Bytes) : Keeps log (receiveData repo s w line) := by
  unfold receiveData
  simp only
  split_ifs with hdot hsize
  · split
    · exact ⟨h.append (by simp [Call.isHelo]), by simp [Call.isHelo]⟩
    · exact ⟨h.resetMessage.append (by simp [Call.isHelo]), by simp [Call.isHelo]⟩
    · exact ⟨h.resetMessage.append (by simp [Call.isHelo]), by simp [Call.isHelo]⟩
  · exact keeps_of_inv h.resetMessage _ w
  · have hgrown : Inv { s with body := s.body ++ line ++ lit "\n" } log :=
      { submitting := h.submitting
        secure := h.secure
        authorized := h.authorized
        recipients := h.recipients
        body := fun hne => absurd hst hne
        size := Nat.le_of_not_lt hsize
        dialogue := h.dialogue }
    exact keeps_of_inv hgrown _ w

end Handlers

/-! ## The loop keeps it -/

/-- **A command keeps the invariant**, whatever the line it was parsed from. -/
theorem inv_handleCommand {s : SmtpSession} {log : List Call} (h : Inv s log)
    (hst : s.state ≠ .receivingData) (w : ω) (line : Bytes) :
    Inv (handleCommand repo s w (parse line)).session
      ((handleCommand repo s w (parse line)).calls.reverse ++ .command line :: log) := by
  have hcall : (parse line).type ≠ .helo → (parse line).type ≠ .ehlo →
      Inv s (.command line :: log) := by
    intro h1 h2
    have hc : ∀ c ∈ [Call.command line], c.isHelo = false := by simp [Call.isHelo, h1, h2]
    exact h.append hc
  unfold handleCommand
  cases hty : (parse line).type with
  | helo | ehlo => exact inv_resetToHelo s _ (.inr rfl)
  | auth => exact (keeps_handleAuth repo (hcall (by simp [hty]) (by simp [hty])) w _).1
  | mail => exact (hcall (by simp [hty]) (by simp [hty])).handleMail _
  | rcpt => exact (hcall (by simp [hty]) (by simp [hty])).handleRcpt _
  | data => exact (hcall (by simp [hty]) (by simp [hty])).handleData
  | rset => exact (hcall (by simp [hty]) (by simp [hty])).resetMessage
  | noop | unknown => exact hcall (by simp [hty]) (by simp [hty])
  | quit => exact (hcall (by simp [hty]) (by simp [hty])).handleQuit hst
  | starttls => exact (hcall (by simp [hty]) (by simp [hty])).handleStartTLS

/-- **`ProcessLine` keeps the invariant.** -/
theorem inv_processLine {s : SmtpSession} {log : List Call} (h : Inv s log) (w : ω)
    (line : Bytes) :
    Inv (processLine repo s w line).session ((processLine repo s w line).calls.reverse ++ log) := by
  unfold processLine
  split_ifs with hlong hauth hdata
  · simpa using h
  · exact (keeps_handleAuthLine repo h hauth w line).1
  · exact (keeps_receiveData repo h hdata w line).1
  · simpa using inv_handleCommand repo h hdata w line

/-- A turn of the loop keeps the invariant. -/
theorem inv_serve {c c' : Connection ω} {inp : Input} (h : Inv c.session c.log)
    (hstep : serve repo c inp = some c') : Inv c'.session c'.log := by
  cases inp with
  | line line =>
    simp only [serve] at hstep
    split_ifs at hstep
    obtain rfl := Option.some.inj hstep
    exact inv_processLine repo h c.world line
  | upgrade =>
    simp only [serve] at hstep
    split_ifs at hstep
    obtain rfl := Option.some.inj hstep
    exact inv_resetToHelo (c.session.setSecure true) c.log (.inl rfl)

/-- A new connection keeps the invariant. -/
theorem inv_accept (domain : Bytes) (w : ω) :
    Inv (Connection.accept domain w).session (Connection.accept domain w).log :=
  Inv.of_idle (by simp [Connection.accept]) (by simp [Connection.accept]) rfl (.inr (.inl rfl))

/-- Only the end of a message in state `RECEIVING_DATA` stores one. -/
theorem receivingData_of_saveMessage {s : SmtpSession} {w : ω} {line sender body : Bytes}
    {recipients : List Bytes} {r : Except Exn Bool}
    (h : Call.saveMessage sender recipients body r ∈ (processLine repo s w line).calls) :
    s.state = .receivingData := by
  by_contra hst
  rcases processLine_quiet_or_begins repo hst w line with hq | hb
  · exact hq.saves _ _ _ _ h
  · exact hb.saves _ _ _ _ h

/-- **Submission safety.**  In every state the session loop reaches the session is `Safe`, and a
message is only ever stored by an authenticated session on a secure channel. -/
theorem safe_of_exec (domain : Bytes) (w : ω) (inputs : List Input) (c : Connection ω)
    (h : Run.exec (serve repo) (Connection.accept domain w) inputs = some c) :
    Safe c.session c.log ∧
      ∀ line sender recipients body r,
        Call.saveMessage sender recipients body r ∈
            (processLine repo c.session c.world line).calls →
          c.session.authenticated = true ∧ c.session.secure = true := by
  have hinv : Inv c.session c.log :=
    Run.exec_invariant (I := fun c => Inv c.session c.log)
      (fun _ _ _ hs hstep => inv_serve repo hs hstep) (inv_accept domain w) h
  refine ⟨hinv.toSafe, fun line sender recipients body r hcall => ?_⟩
  have hauth := hinv.submitting (.inr (receivingData_of_saveMessage repo hcall))
  exact ⟨hauth, hinv.secure hauth⟩

/-! ## A session that submits a message -/

/-- One account, `alice` with password `pw`, and a message store that always succeeds. -/
def aliceRepo : Repo Unit where
  authorize _ user password := (user = lit "alice" && password = lit "pw", ())
  saveMessage _ _ _ _ := (.ok true, ())

/-- The dialogue up to the accepted recipient. -/
def aliceInputs : List Input :=
  [.line (lit "EHLO client"), .line (lit "STARTTLS"), .upgrade, .line (lit "EHLO client"),
   .line (lit "AUTH PLAIN AGFsaWNlAHB3"), .line (lit "MAIL FROM:<alice@localhost>"),
   .line (lit "RCPT TO:<bob@localhost>")]

/-- The connection after that dialogue. -/
def aliceConnection : Connection Unit :=
  ⟨{ state := .waitRcpt, domain := lit "localhost", sender := lit "alice",
     recipients := [lit "bob"], authenticated := true, secure := true }, (),
   [.command (lit "RCPT TO:<bob@localhost>"), .command (lit "MAIL FROM:<alice@localhost>"),
    .authorize (lit "alice") (lit "pw") true, .command (lit "AUTH PLAIN AGFsaWNlAHB3"),
    .command (lit "EHLO client"), .command (lit "STARTTLS"), .command (lit "EHLO client")], false⟩

theorem exec_aliceInputs :
    Run.exec (serve aliceRepo) (Connection.accept (lit "localhost") ()) aliceInputs =
      some aliceConnection := by rfl

theorem safe_aliceConnection :
    aliceConnection.session.authenticated = true ∧
      Safe aliceConnection.session aliceConnection.log :=
  ⟨rfl, (safe_of_exec aliceRepo (lit "localhost") () aliceInputs aliceConnection
    exec_aliceInputs).1⟩

end MailStack.Smtp
