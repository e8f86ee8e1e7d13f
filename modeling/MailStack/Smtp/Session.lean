import MailStack.Base64.Codec
import MailStack.Smtp.Parser

/-!
# Smtp/Session — `SmtpSession`: the state machine behind `ProcessLine`

A session is driven one line at a time.  What it asks of the rest of the program — whether
credentials are valid, and to store a finished message — goes through `Repo`, over an arbitrary
world `ω` that every request may change, so that a statement about all repositories covers every
database and every other client acting between two lines.

`Outcome.calls` lists what one `ProcessLine` handed to the parser and to the repositories.
-/

open Bytes

namespace MailStack.Smtp

/-- `SmtpState`. -/
inductive SmtpState
  | waitHelo | waitMail | waitRcpt | waitData | receivingData | closed | starttls
  | authWaitUser | authWaitPass
  deriving DecidableEq, Repr

/-- The members of `SmtpSession`. -/
structure SmtpSession where
  state : SmtpState := .waitHelo
  domain : Bytes
  sender : Bytes := []
  recipients : List Bytes := []
  body : Bytes := []
  authenticated : Bool := false
  secure : Bool := false
  authUsername : Bytes := []
  deriving DecidableEq, Repr

/-- `UserRepository::authorize` and `SmtpSession::SaveMessage`, as a session sees them. -/
structure Repo (ω : Type*) where
  authorize : ω → Bytes → Bytes → Bool × ω
  saveMessage : ω → (sender : Bytes) → (recipients : List Bytes) → (body : Bytes) →
    Except Exn Bool × ω

/-- What `ProcessLine` hands to others: a line to `SmtpParser::Parse`, credentials and messages to
the repositories. -/
inductive Call
  | command (line : Bytes)
  | authorize (username password : Bytes) (granted : Bool)
  | saveMessage (sender : Bytes) (recipients : List Bytes) (body : Bytes)
      (result : Except Exn Bool)

/-- The result of one `ProcessLine`: its reply or exception, and what it left behind. -/
structure Outcome (ω : Type*) where
  reply : Except Exn Bytes
  session : SmtpSession
  world : ω
  calls : List Call

/-- The three digits the reply starts with; none for an exception. -/
def Outcome.code {ω : Type*} (out : Outcome ω) : Option Bytes :=
  out.reply.toOption.map SmtpResponse.code

/-- `MAX_SMTP_LINE`. -/
def maxSmtpLine : ℕ := 512

/-- `MAX_MESSAGE_SIZE`. -/
def maxMessageSize : ℕ := 10 * 1024 * 1024

/-- `SmtpSession::ExtractUsername`. -/
def extractUsername (email : Bytes) : Bytes :=
  match cut '@'.toUInt8 email with
  | none => email
  | some (name, _) => name

theorem extractUsername_idem (a : Bytes) :
    extractUsername (extractUsername a) = extractUsername a := by
  unfold extractUsername
  cases hcut : cut '@'.toUInt8 a with
  | none => simp only [hcut]
  | some p =>
    obtain ⟨-, hnot⟩ := cut_eq_some_iff.mp hcut
    have hnone : cut '@'.toUInt8 p.1 = none := cut_eq_none hnot
    simp only [hnone]

namespace SmtpSession

/-- `ResetMessage`. -/
def resetMessage (s : SmtpSession) : SmtpSession :=
  { s with sender := [], recipients := [], body := [] }

/-- `ResetToHelo`. -/
def resetToHelo (s : SmtpSession) : SmtpSession :=
  { s with state := .waitHelo, authenticated := false, authUsername := [] }.resetMessage

/-- `SetSecure`. -/
def setSecure (s : SmtpSession) (secure : Bool) : SmtpSession := { s with secure }

/-! ## The command handlers that ask no one -/

/-- `HandleHelo`. -/
def handleHelo (s : SmtpSession) (command : SmtpCommand) : Bytes × SmtpSession :=
  let s' := { s.resetToHelo with state := .waitMail }
  (if command.type = .ehlo then SmtpResponse.ehlo s'.domain s'.secure
    else SmtpResponse.hello s'.domain, s')

/-- `HandleMail`. -/
def handleMail (s : SmtpSession) (command : SmtpCommand) : Bytes × SmtpSession :=
  if s.state ≠ .waitMail then (SmtpResponse.badSequence, s)
  else if ¬ s.authenticated then (SmtpResponse.authRequired, s)
  else (SmtpResponse.ok, { s with sender := extractUsername command.argument, state := .waitRcpt })

/-- `HandleRcpt`. -/
def handleRcpt (s : SmtpSession) (command : SmtpCommand) : Bytes × SmtpSession :=
  if s.state ≠ .waitRcpt then (SmtpResponse.badSequence, s)
  else (SmtpResponse.ok,
    { s with recipients := s.recipients ++ [extractUsername command.argument] })

/-- `HandleData`. -/
def handleData (s : SmtpSession) : Bytes × SmtpSession :=
  if s.state ≠ .waitRcpt ∨ s.recipients = [] then (SmtpResponse.badSequence, s)
  else (SmtpResponse.startMailInput, { s with state := .receivingData })

/-- `HandleRset`. -/
def handleRset (s : SmtpSession) : Bytes × SmtpSession :=
  (SmtpResponse.ok, { s.resetMessage with state := .waitMail })

/-- `HandleQuit`. -/
def handleQuit (s : SmtpSession) : Bytes × SmtpSession :=
  (SmtpResponse.closing, { s with state := .closed })

/-- `HandleStartTLS`. -/
def handleStartTLS (s : SmtpSession) : Bytes × SmtpSession :=
  if s.state ≠ .waitMail then (SmtpResponse.badSequence, s)
  else (SmtpResponse.startTls, { s with state := .starttls })

end SmtpSession

/-! ## Authentication -/

section Auth

variable {ω : Type*} (repo : Repo ω)

/-- `"\0user\0password"`, cut at its first two NULs. -/
def splitPlain (blob : Bytes) : Option (Bytes × Bytes) :=
  (cut 0 blob).bind fun p => (cut 0 p.2).map fun q => (q.1, q.2)

/-- Asks the user table, and answers 235 or 535. -/
def authorizeAs (s : SmtpSession) (w : ω) (username password : Bytes) : Outcome ω :=
  match repo.authorize w username password with
  | (true, w') => ⟨.ok SmtpResponse.authSucceeded, { s with authenticated := true }, w',
      [.authorize username password true]⟩
  | (false, w') => ⟨.ok SmtpResponse.authFailed, s, w', [.authorize username password false]⟩

/-- `AuthChallenge(EncodeBase64(label))`. -/
def challenge (label : Bytes) : Except Exn Bytes :=
  (Base64.encodeBase64 label).map SmtpResponse.authChallenge

/-- `HandleAuth`. An empty decoded text has no NUL, and is a credential without a password. -/
def handleAuth (s : SmtpSession) (w : ω) (command : SmtpCommand) : Outcome ω :=
  if s.state ≠ .waitMail then ⟨.ok SmtpResponse.badSequence, s, w, []⟩
  else if s.authenticated then ⟨.ok SmtpResponse.badSequence, s, w, []⟩
  else if ¬ s.secure then ⟨.ok SmtpResponse.encryptionRequired, s, w, []⟩
  else
    let arg := (cut ' '.toUInt8 command.argument).getD (command.argument, [])
    if arg.1 = lit "LOGIN" then
      ⟨challenge (lit "Username:"), { s with state := .authWaitUser }, w, []⟩
    else if arg.1 = lit "PLAIN" then
      if arg.2 = [] then
        ⟨.ok (SmtpResponse.authChallenge []), { s with state := .authWaitPass }, w, []⟩
      else match Base64.decodeBase64 arg.2 with
        | .error e => ⟨.error e, s, w, []⟩
        | .ok decoded =>
          match splitPlain decoded with
          | none => ⟨.ok SmtpResponse.authFailed, s, w, []⟩
          | some (user, password) => authorizeAs repo s w (extractUsername user) password
    else ⟨.ok SmtpResponse.unrecognizedAuthMech, s, w, []⟩

/-- `HandleAuthLine`. -/
def handleAuthLine (s : SmtpSession) (w : ω) (line : Bytes) : Outcome ω :=
  match Base64.decodeBase64 line with
  | .error e => ⟨.error e, s, w, []⟩
  | .ok decoded =>
    if decoded = [] ∧ line ≠ [] then
      ⟨.ok SmtpResponse.authFailed, { s with state := .waitMail, authUsername := [] }, w, []⟩
    else if s.state = .authWaitUser then
      ⟨challenge (lit "Password:"),
        { s with authUsername := extractUsername decoded, state := .authWaitPass }, w, []⟩
    else if s.state = .authWaitPass then
      if s.authUsername = [] then
        match splitPlain decoded with
        | none => ⟨.ok SmtpResponse.authFailed, { s with state := .waitMail }, w, []⟩
        | some (user, password) =>
          authorizeAs repo { s with state := .waitMail } w (extractUsername user) password
      else
        authorizeAs repo { s with state := .waitMail, authUsername := [] } w s.authUsername decoded
    else ⟨.ok SmtpResponse.syntaxError, s, w, []⟩

/-! ## `ProcessLine` -/

/-- The branch of `ProcessLine` in state `RECEIVING_DATA`. -/
def receiveData (s : SmtpSession) (w : ω) (line : Bytes) : Outcome ω :=
  if line = lit "." then
    let saved := repo.saveMessage w s.sender s.recipients s.body
    let calls := [Call.saveMessage s.sender s.recipients s.body saved.1]
    match saved.1 with
    | .error e => ⟨.error e, s, saved.2, calls⟩
    | .ok false => ⟨.ok SmtpResponse.messageStorageFailed,
        { s.resetMessage with state := .waitMail }, saved.2, calls⟩
    | .ok true => ⟨.ok SmtpResponse.ok, { s.resetMessage with state := .waitMail }, saved.2, calls⟩
  else
    let body := s.body ++ line ++ lit "\n"
    if maxMessageSize < body.length then
      ⟨.ok SmtpResponse.messageTooLarge, { s.resetMessage with state := .waitMail }, w, []⟩
    else ⟨.ok [], { s with body }, w, []⟩

/-- The `switch` of `ProcessLine`. -/
def handleCommand (s : SmtpSession) (w : ω) (command : SmtpCommand) : Outcome ω :=
  let answer (r : Bytes × SmtpSession) : Outcome ω := ⟨.ok r.1, r.2, w, []⟩
  match command.type with
  | .helo | .ehlo => answer (s.handleHelo command)
  | .auth => handleAuth repo s w command
  | .mail => answer (s.handleMail command)
  | .rcpt => answer (s.handleRcpt command)
  | .data => answer s.handleData
  | .rset => answer s.handleRset
  | .noop => answer (SmtpResponse.ok, s)
  | .quit => answer s.handleQuit
  | .unknown => answer (SmtpResponse.notImplemented, s)
  | .starttls => answer s.handleStartTLS

/-- `ProcessLine`. -/
def processLine (s : SmtpSession) (w : ω) (line : Bytes) : Outcome ω :=
  if maxSmtpLine < line.length then ⟨.ok SmtpResponse.syntaxError, s, w, []⟩
  else if s.state = .authWaitUser ∨ s.state = .authWaitPass then handleAuthLine repo s w line
  else if s.state = .receivingData then receiveData repo s w line
  else
    let out := handleCommand repo s w (parse line)
    { out with calls := .command line :: out.calls }

/-! ## What `AUTH` can do -/

/-- The reply is not the 354 that asks for the message. -/
def NotInput (r : Except Exn Bytes) : Prop :=
  r.toOption.map SmtpResponse.code ≠ some (lit "354")

/-- A reply that is not 354 asks for no input. -/
theorem notInput_ok {r : Bytes} (hr : SmtpResponse.code r ≠ lit "354") : NotInput (.ok r) :=
  fun h => hr (Option.some.inj h)

/-- Nor does an exception. -/
theorem notInput_error (e : Exn) : NotInput (.error e) := Option.some_ne_none _ ∘ Eq.symm

/-- Nor does a challenge. -/
theorem notInput_challenge (label : Bytes) : NotInput (challenge label) := by
  unfold challenge
  cases Base64.encodeBase64 label with
  | error e => exact notInput_error e
  | ok b64 =>
    have hcode : SmtpResponse.code (SmtpResponse.authChallenge b64) = lit "334" := rfl
    exact notInput_ok (by rw [hcode]; decide)

/-- Authorizing succeeds or fails. -/
theorem authorizeAs_cases (s : SmtpSession) (w : ω) (u p : Bytes) :
    (∃ w', authorizeAs repo s w u p =
      ⟨.ok SmtpResponse.authSucceeded, { s with authenticated := true }, w',
        [.authorize u p true]⟩) ∨
      ∃ w', authorizeAs repo s w u p =
        ⟨.ok SmtpResponse.authFailed, s, w', [.authorize u p false]⟩ := by
  unfold authorizeAs
  split
  · exact .inl ⟨_, rfl⟩
  · exact .inr ⟨_, rfl⟩

/-- **`AUTH`** is answered, begins a dialogue, or asks the user table. -/
theorem handleAuth_cases (s : SmtpSession) (w : ω) (command : SmtpCommand) :
    (∃ r, NotInput r ∧ handleAuth repo s w command = ⟨r, s, w, []⟩) ∨
      s.state = .waitMail ∧ s.secure = true ∧
        ((∃ r st, NotInput r ∧ (st = .authWaitUser ∨ st = .authWaitPass) ∧
            handleAuth repo s w command = ⟨r, { s with state := st }, w, []⟩) ∨
          ∃ u p, handleAuth repo s w command = authorizeAs repo s w u p) := by
  generalize hout : handleAuth repo s w command = out
  rw [handleAuth] at hout
  split_ifs at hout with hst ha hsec
  · exact .inl ⟨_, notInput_ok (by decide), hout.symm⟩
  · exact .inl ⟨_, notInput_ok (by decide), hout.symm⟩
  · rw [not_not] at hst
    dsimp only at hout
    split_ifs at hout
    · exact .inr ⟨hst, hsec, .inl ⟨_, _, notInput_challenge _, .inl rfl, hout.symm⟩⟩
    · exact .inr ⟨hst, hsec, .inl ⟨_, _, notInput_ok (by decide), .inr rfl, hout.symm⟩⟩
    · split at hout
      · exact .inl ⟨_, notInput_error _, hout.symm⟩
      · split at hout
        · exact .inl ⟨_, notInput_ok (by decide), hout.symm⟩
        · exact .inr ⟨hst, hsec, .inr ⟨_, _, hout.symm⟩⟩
    · exact .inl ⟨_, notInput_ok (by decide), hout.symm⟩
  · exact .inl ⟨_, notInput_ok (by decide), hout.symm⟩

/-- **A line of the dialogue** is answered, goes on to the password, or ends the dialogue, by itself
or by asking the user table. -/
theorem handleAuthLine_cases (s : SmtpSession) (w : ω) (line : Bytes) :
    (∃ r, NotInput r ∧ handleAuthLine repo s w line = ⟨r, s, w, []⟩) ∨
      (∃ r name, NotInput r ∧ handleAuthLine repo s w line =
        ⟨r, { s with authUsername := name, state := .authWaitPass }, w, []⟩) ∨
      (∃ r, NotInput r ∧ handleAuthLine repo s w line =
        ⟨r, { s with state := .waitMail, authUsername := [] }, w, []⟩) ∨
      ∃ u p, handleAuthLine repo s w line =
        authorizeAs repo { s with state := .waitMail, authUsername := [] } w u p := by
  unfold handleAuthLine
  split
  · exact .inl ⟨_, notInput_error _, rfl⟩
  · split_ifs with _ _ _ hname
    · exact .inr (.inr (.inl ⟨_, notInput_ok (by decide), rfl⟩))
    · exact .inr (.inl ⟨_, _, notInput_challenge _, rfl⟩)
    · have hback : ({ s with state := .waitMail } : SmtpSession) =
          { s with state := .waitMail, authUsername := [] } := by rw [← hname]
      rw [hback]
      split
      · exact .inr (.inr (.inl ⟨_, notInput_ok (by decide), rfl⟩))
      · exact .inr (.inr (.inr ⟨_, _, rfl⟩))
    · exact .inr (.inr (.inr ⟨_, _, rfl⟩))
    · exact .inl ⟨_, notInput_ok (by decide), rfl⟩

/-! ## What a line does outside of the data phase -/

section Outside

variable {s : SmtpSession}

/-- An outcome that stays outside of the data phase: it is not answered 354, keeps or clears the
body, and stores nothing. -/
structure Quiet (s : SmtpSession) (out : Outcome ω) : Prop where
  state : out.session.state ≠ .receivingData
  code : out.code ≠ some (lit "354")
  body : out.session.body = s.body ∨ out.session.body = []
  saves : ∀ sender recipients body r, Call.saveMessage sender recipients body r ∉ out.calls

/-- A reply without a call, to a session with the same body. -/
theorem Quiet.of_notInput {s' : SmtpSession} {w : ω} {r : Except Exn Bytes} (hr : NotInput r)
    (hst : s'.state ≠ .receivingData) (hbody : s'.body = s.body ∨ s'.body = []) :
    Quiet s ⟨r, s', w, []⟩ where
  state := hst
  code := hr
  body := hbody
  saves := by simp

theorem Quiet.of_reply {s' : SmtpSession} {r : Bytes} (hst : s'.state ≠ .receivingData)
    (hbody : s'.body = s.body ∨ s'.body = []) (w : ω)
    (hr : SmtpResponse.code r ≠ lit "354" := by decide) : Quiet s ⟨.ok r, s', w, []⟩ :=
  .of_notInput (notInput_ok hr) hst hbody

/-- Authorizing leaves the body alone. -/
theorem quiet_authorizeAs {s' : SmtpSession} (hst : s'.state ≠ .receivingData)
    (hbody : s'.body = s.body ∨ s'.body = []) (w : ω) (u p : Bytes) :
    Quiet s (authorizeAs repo s' w u p) := by
  rcases authorizeAs_cases repo s' w u p with ⟨w', h⟩ | ⟨w', h⟩
  · rw [h]
    exact ⟨hst, notInput_ok (by decide), hbody, by simp⟩
  · rw [h]
    exact ⟨hst, notInput_ok (by decide), hbody, by simp⟩

/-- So does `AUTH`. -/
theorem quiet_handleAuth (hst : s.state ≠ .receivingData) (w : ω) (command : SmtpCommand) :
    Quiet s (handleAuth repo s w command) := by
  rcases handleAuth_cases repo s w command with
    ⟨r, hr, h⟩ | ⟨-, -, ⟨r, st, hr, hd, h⟩ | ⟨u, p, h⟩⟩
  · rw [h]
    exact .of_notInput hr hst (.inl rfl)
  · rw [h]
    have hwait : st ≠ .receivingData := by rcases hd with rfl | rfl <;> simp
    exact .of_notInput hr hwait (.inl rfl)
  · rw [h]
    exact quiet_authorizeAs repo hst (.inl rfl) w u p

/-- So do the lines of its dialogue. -/
theorem quiet_handleAuthLine (hst : s.state ≠ .receivingData) (w : ω) (line : Bytes) :
    Quiet s (handleAuthLine repo s w line) := by
  rcases handleAuthLine_cases repo s w line with
    ⟨r, hr, h⟩ | ⟨r, name, hr, h⟩ | ⟨r, hr, h⟩ | ⟨u, p, h⟩
  · rw [h]
    exact .of_notInput hr hst (.inl rfl)
  · rw [h]
    exact .of_notInput hr SmtpState.noConfusion (.inl rfl)
  · rw [h]
    exact .of_notInput hr SmtpState.noConfusion (.inl rfl)
  · rw [h]
    exact quiet_authorizeAs repo (by simp) (by simp) w u p

/-- The 354 answer: the data phase begins, the message being what it was. -/
structure Begins (s : SmtpSession) (out : Outcome ω) : Prop where
  session : out.session = { s with state := .receivingData }
  code : out.code = some (lit "354")
  saves : ∀ sender recipients body r, Call.saveMessage sender recipients body r ∉ out.calls

/-- **A command leaves the body alone or begins one.** -/
theorem handleCommand_quiet_or_begins (hst : s.state ≠ .receivingData) (w : ω)
    (command : SmtpCommand) :
    Quiet s (handleCommand repo s w command) ∨ Begins s (handleCommand repo s w command) := by
  unfold handleCommand
  cases command.type with
  | helo | ehlo =>
    refine .inl (.of_reply (by simp [SmtpSession.handleHelo])
      (by simp [SmtpSession.handleHelo, SmtpSession.resetToHelo, SmtpSession.resetMessage]) w ?_)
    unfold SmtpSession.handleHelo
    have hhello : ∀ d, SmtpResponse.code (SmtpResponse.hello d) = lit "250" := fun _ => rfl
    have hehlo : ∀ d b, SmtpResponse.code (SmtpResponse.ehlo d b) = lit "250" := fun _ _ => rfl
    split
    · rw [hehlo]
      decide
    · rw [hhello]
      decide
  | auth => exact .inl (quiet_handleAuth repo hst w command)
  | mail =>
    unfold SmtpSession.handleMail
    split_ifs
    · exact .inl (.of_reply (r := SmtpResponse.badSequence) hst (.inl rfl) w)
    · exact .inl (.of_reply (r := SmtpResponse.ok) (by simp) (by simp) w)
    · exact .inl (.of_reply (r := SmtpResponse.authRequired) hst (.inl rfl) w)
  | rcpt =>
    unfold SmtpSession.handleRcpt
    split_ifs
    · exact .inl (.of_reply (r := SmtpResponse.badSequence) hst (.inl rfl) w)
    · exact .inl (.of_reply (r := SmtpResponse.ok) (by simpa using hst) (by simp) w)
  | data =>
    unfold SmtpSession.handleData
    split_ifs
    · exact .inl (.of_reply (r := SmtpResponse.badSequence) hst (.inl rfl) w)
    · exact .inr ⟨rfl, rfl, by simp⟩
  | rset =>
    exact .inl (.of_reply (r := SmtpResponse.ok) (by simp [SmtpSession.handleRset])
      (by simp [SmtpSession.handleRset, SmtpSession.resetMessage]) w)
  | noop => exact .inl (.of_reply (r := SmtpResponse.ok) hst (.inl rfl) w)
  | unknown => exact .inl (.of_reply (r := SmtpResponse.notImplemented) hst (.inl rfl) w)
  | quit =>
    exact .inl (.of_reply (r := SmtpResponse.closing) (by simp [SmtpSession.handleQuit])
      (by simp [SmtpSession.handleQuit]) w)
  | starttls =>
    unfold SmtpSession.handleStartTLS
    split_ifs
    · exact .inl (.of_reply (r := SmtpResponse.badSequence) hst (.inl rfl) w)
    · exact .inl (.of_reply (r := SmtpResponse.startTls) (by simp) (by simp) w)

/-- **Outside of the data phase a line either stays outside or is the `DATA` that begins it.** -/
theorem processLine_quiet_or_begins (hst : s.state ≠ .receivingData) (w : ω) (line : Bytes) :
    Quiet s (processLine repo s w line) ∨ Begins s (processLine repo s w line) := by
  unfold processLine
  split_ifs
  · exact .inl (.of_reply hst (.inl rfl) w)
  · exact .inl (quiet_handleAuthLine repo hst w line)
  · rcases handleCommand_quiet_or_begins repo hst w (parse line) with h | h
    · exact .inl ⟨h.state, h.code, h.body, by simpa using h.saves⟩
    · exact .inr ⟨h.session, h.code, by simpa using h.saves⟩

end Outside

end Auth

end MailStack.Smtp
