import MailStack.Imap.FetchLine
import MailStack.Imap.Items
import MailStack.Machinery.Run
import MailStack.Machinery.Trace

/-!
# Imap/Session — `ImapSession`: reading, dispatching, writing and the upgrade to TLS

A session is driven by what completes: a line arrives, a command is dispatched, a write ends, a timer
expires.  `step` is what the handler of each completion does; what it starts, and what it sends, is
written down in `trace`.

`STARTTLS` is answered by the dispatcher, but it is the session that goes on to the handshake, by the
type of the command alone: `orderly_iff` says in which runs an upgrade was always agreed on.
-/

open Bytes

namespace MailStack.Imap

open Store Prog Trace

/-- A text in `m_write_queue`, with the command it answers. -/
structure Response where
  text : Bytes
  command : Option ImapCommand := none
  deriving DecidableEq, Repr

/-- What a session does, as seen from outside. -/
inductive SessionEvent
  | readCommand
  | answered (cmd : ImapCommand) (text : Bytes)
  | sent (msg : Response)
  | upgradeToTLS
  deriving DecidableEq, Repr

/-- The members of `ImapSession`, the operations it waits for, and what it did so far. -/
structure ImapSession where
  dispatcher : Dispatcher := {}
  isSecure : Bool := false
  writeQueue : List Response := []
  isWriting : Bool := false
  closing : Bool := false
  isStarttlsPending : Bool := false
  isOpen : Bool := true
  /-- A line is being read. -/
  reading : Bool := false
  /-- `Parse` does not return: the strand is in its loop for good. -/
  parsing : Bool := false
  /-- The command a worker of the pool is dispatching. -/
  dispatching : Option ImapCommand := none
  /-- The front of the queue is being written. -/
  sending : Bool := false
  handshaking : Bool := false
  trace : List SessionEvent := []
  deriving DecidableEq, Repr

/-- What a session waits for. -/
inductive Completion
  | received (line : Bytes)
  | readFailed
  /-- The queries of the handler read this, and its writes were answered so. -/
  | dispatched (seen : List (DB ⊕ Except Bytes Answer))
  | written
  | writeFailed
  | handshaken (ok : Bool)
  | idle
  | handshakeTimeout

namespace ImapSession

def emit (s : ImapSession) (e : SessionEvent) : ImapSession := { s with trace := s.trace ++ [e] }

/-- `m_socket.close()`. -/
def close (s : ImapSession) : ImapSession := { s with isOpen := false }

/-- `Write`: the front of the queue is given to the socket or to the secure channel. -/
def write (s : ImapSession) : ImapSession := { s with isWriting := true, sending := true }

def writeResponse (s : ImapSession) (msg : Response) : ImapSession :=
  let s := { s with writeQueue := s.writeQueue ++ [msg] }
  if s.isWriting then s else s.write

def readCommand (s : ImapSession) : ImapSession := { s with reading := true }.emit .readCommand

/-- `WriteResponse` of the answer to a command. -/
def answer (s : ImapSession) (cmd : ImapCommand) (text : Bytes) : ImapSession :=
  (s.emit (.answered cmd text)).writeResponse ⟨text, some cmd⟩

/-- `Start`, up to the first wait. -/
def sendBanner (s : ImapSession) : ImapSession :=
  (s.writeResponse ⟨lit "* OK IMAP Server Ready\r\n", none⟩).readCommand

def upgradeToTLS (s : ImapSession) : ImapSession :=
  { s with handshaking := true }.emit .upgradeToTLS

/-- `HandleCommand`, from the command on. -/
def handleCommand (s : ImapSession) (cmd : ImapCommand) : ImapSession :=
  if cmd.type = .unknown then
    (s.answer cmd (cmd.tag ++ lit " BAD Command not recognized\r\n")).readCommand
  else if requiresAuth cmd.type ∧ s.dispatcher.state = .nonAuthenticated then
    (s.answer cmd (cmd.tag ++ lit " BAD Not authenticated\r\n")).readCommand
  else { s with dispatching := some cmd }

/-- The handler of the line; `Parse` returns on it within an iteration per character, or never. -/
def received (s : ImapSession) (line : Bytes) : ImapSession :=
  match parse line.length line with
  | none => { s with reading := false, parsing := true }
  | some cmd => { s with reading := false }.handleCommand cmd

/-- The task of the pool. -/
def task (S : Services) (cmd : ImapCommand) : HandlerM Bytes :=
  catching (dispatch S cmd) fun _ => return lit "BAD Internal server error\r\n"

/-- What the task posts to the strand. -/
def dispatched (s : ImapSession) (cmd : ImapCommand) (response : Bytes) : ImapSession :=
  if cmd.type = .startTLS ∧ s.isSecure = true then
    (s.answer cmd (cmd.tag ++ lit " BAD TLS already active\r\n")).readCommand
  else if cmd.type = .startTLS then { s with isStarttlsPending := true }.answer cmd response
  else if cmd.type ≠ .logout then (s.answer cmd response).readCommand
  else s.answer cmd response

/-- The handler of a write that went well, over the socket and over the secure channel. -/
def written (s : ImapSession) (msg : Response) (queue : List Response) : ImapSession :=
  let s := { s with writeQueue := queue, sending := false }.emit (.sent msg)
  if queue ≠ [] then s.write
  else
    let s := { s with isWriting := false }
    if s.closing then s.close
    else if s.isStarttlsPending then { s with isStarttlsPending := false }.upgradeToTLS
    else s

/-- The handler of the handshake. -/
def handshaken (s : ImapSession) (ok : Bool) : ImapSession :=
  let s := { s with handshaking := false }
  if ok then { s with isSecure := true }.readCommand else s.close

/-- One completion; none that the session does not wait for.  A timer that is cancelled may have
expired already, so both may fire at any time.  Undefined behaviour of a handler has no next
state. -/
def step (S : Services) (s : ImapSession) (c : Completion) : Option ImapSession :=
  if s.parsing then none
  else match c with
    | .received line => if s.reading then some (s.received line) else none
    | .readFailed => if s.reading then some { s with reading := false }.close else none
    | .dispatched seen =>
      match s.dispatching with
      | none => none
      | some cmd =>
        match observe ((task S cmd).run.run s.dispatcher) seen with
        | some (.ok response, d) =>
          some ({ s with dispatcher := d, dispatching := none }.dispatched cmd response)
        | _ => none
    | .written =>
      match s.writeQueue with
      | [] => none
      | msg :: queue => if s.sending then some (s.written msg queue) else none
    | .writeFailed => if s.sending then some { s with sending := false }.close else none
    | .handshaken ok => if s.handshaking then some (s.handshaken ok) else none
    | .idle =>
      if s.isOpen then
        some ({ s with closing := true }.writeResponse
          ⟨ImapResponse.untagged (lit "BYE Autologout; idle for too long"), none⟩)
      else none
    | .handshakeTimeout => some s.close

end ImapSession

/-- A session that was just started. -/
def startedSession : ImapSession := ({} : ImapSession).sendBanner

/-! ## Runs in order -/

/-- A `STARTTLS` is answered with a tagged `OK`. -/
def Agreed (cmd : ImapCommand) (text : Bytes) : Prop :=
  cmd.type = .startTLS ∧ cmd.tag ++ lit " OK " <+: text

instance (cmd : ImapCommand) (text : Bytes) : Decidable (Agreed cmd text) :=
  inferInstanceAs (Decidable (_ ∧ _))

def Response.agrees (msg : Response) : Bool := msg.command.any fun cmd => Agreed cmd msg.text

def SessionEvent.isUpgrade : SessionEvent → Bool
  | .upgradeToTLS => true
  | _ => false

/-- The agreement to an upgrade went out. -/
def SessionEvent.isAgreement : SessionEvent → Bool
  | .sent msg => msg.agrees
  | _ => false

/-- An answer after which the session has to read on. -/
def SessionEvent.GoesOn : SessionEvent → Prop
  | .answered cmd text => cmd.type ≠ .logout ∧ ¬ Agreed cmd text
  | _ => False

/-- Every upgrade has an agreement of its own before it, every other answer, the one to `LOGOUT`
apart, is followed by reading the next command, and no line keeps the session for good. -/
structure Orderly (s : ImapSession) : Prop where
  upgrades : Preceded SessionEvent.isUpgrade SessionEvent.isAgreement s.trace
  reads : Followed SessionEvent.GoesOn .readCommand s.trace
  returns : s.parsing = false

/-- `Parse` returns on a line that arrives, and a `STARTTLS` that was dispatched before the session
is secure had no arguments. -/
def Regular (s : ImapSession) : Completion → Prop
  | .received line => ∃ cmd, Parses line cmd
  | .dispatched _ => ∀ cmd, s.dispatching = some cmd → cmd.type = .startTLS → s.isSecure = false →
      cmd.args = []
  | _ => True

namespace ImapSession

variable {s s' : ImapSession} {cmd : ImapCommand} {text : Bytes} {msg : Response}
  {queue : List Response}

/-- A response is queued, and written if nothing is being written. -/
theorem writeResponse_eq (s : ImapSession) (msg : Response) : s.writeResponse msg =
    { s with
      writeQueue := s.writeQueue ++ [msg]
      isWriting := true
      sending := s.sending || !s.isWriting } := by
  rw [writeResponse]
  cases hwriting : s.isWriting with
  | true => simp
  | false => simp [write]

/-- Queueing leaves the trace as it was. -/
theorem trace_writeResponse (s : ImapSession) (msg : Response) :
    (s.writeResponse msg).trace = s.trace := by rw [writeResponse_eq]

/-- An answer is queued and noted. -/
theorem answer_eq (s : ImapSession) (cmd : ImapCommand) (text : Bytes) : s.answer cmd text =
    { s with
      writeQueue := s.writeQueue ++ [⟨text, some cmd⟩]
      isWriting := true
      sending := s.sending || !s.isWriting
      trace := s.trace ++ [.answered cmd text] } := writeResponse_eq _ _

/-! ### One thing at a time -/

/-- How many of these a session is at: reading, dispatching, agreed to an upgrade, upgrading. -/
def busy (s : ImapSession) : ℕ :=
  s.reading.toNat + s.dispatching.isSome.toNat + s.isStarttlsPending.toNat + s.handshaking.toNat

theorem busy_answer (s : ImapSession) (cmd : ImapCommand) (text : Bytes) :
    (s.answer cmd text).busy = s.busy := by
  rw [answer_eq]
  rfl

/-- Reading is one operation under way. -/
theorem busy_readCommand (h : s.busy = 0) : s.readCommand.busy = 1 := by
  simp only [busy] at h
  simp only [busy, readCommand, emit, Bool.toNat_true]
  omega

/-- A command leaves one operation under way at most. -/
theorem busy_handleCommand (h : s.busy = 0) (cmd : ImapCommand) :
    (s.handleCommand cmd).busy ≤ 1 := by
  have hanswer : ∀ text, ((s.answer cmd text).readCommand).busy ≤ 1 := fun text =>
    (busy_readCommand ((busy_answer s cmd text).trans h)).le
  rw [handleCommand]
  split_ifs with hunknown hauth
  · exact hanswer _
  · exact hanswer _
  · simp only [busy] at h ⊢
    simp only [Option.isSome_some, Bool.toNat_true]
    omega

/-- So does its answer. -/
theorem busy_dispatched (h : s.busy = 0) (cmd : ImapCommand) (text : Bytes) :
    (s.dispatched cmd text).busy ≤ 1 := by
  have hanswer : ∀ text, ((s.answer cmd text).readCommand).busy ≤ 1 := fun text =>
    (busy_readCommand ((busy_answer s cmd text).trans h)).le
  rw [dispatched]
  split_ifs with hsecure htype hlogout
  · exact hanswer _
  · rw [busy_answer]
    simp only [busy] at h ⊢
    simp only [Bool.toNat_true]
    omega
  · exact hanswer _
  · exact ((busy_answer s cmd text).trans h).le.trans (Nat.zero_le 1)

/-! ### In order so far -/

/-- In order, and an agreement to the upgrade that is to come was sent, or is on its way. -/
structure Fair (s : ImapSession) : Prop extends Orderly s where
  agreements : s.trace.countP SessionEvent.isUpgrade + s.isStarttlsPending.toNat ≤
    s.trace.countP SessionEvent.isAgreement + s.writeQueue.countP Response.agrees

/-- Queueing keeps the session fair. -/
theorem Fair.writeResponse (h : s.Fair) (msg : Response) : (s.writeResponse msg).Fair := by
  rw [writeResponse_eq]
  refine ⟨⟨h.upgrades, h.reads, h.returns⟩, ?_⟩
  rw [List.countP_append]
  exact h.agreements.trans (Nat.add_le_add_left (Nat.le_add_right _ _) _)

/-- An effect that is neither an upgrade nor an answer. -/
theorem Fair.emit (h : s.Fair) {e : SessionEvent} (hup : e.isUpgrade = false) (hon : ¬ e.GoesOn) :
    (s.emit e).Fair := by
  refine ⟨⟨h.upgrades.concat hup, h.reads.concat hon, h.returns⟩, ?_⟩
  have hagreements := h.agreements
  simp only [ImapSession.emit, countP_concat, hup, Bool.toNat_false]
  omega

/-- So does reading. -/
theorem Fair.readCommand (h : s.Fair) : s.readCommand.Fair :=
  Fair.emit (s := { s with reading := true }) ⟨⟨h.upgrades, h.reads, h.returns⟩, h.agreements⟩ rfl
    not_false

/-- An answer the session does not have to read on after. -/
theorem Fair.answer (h : s.Fair) (hon : ¬ (SessionEvent.answered cmd text).GoesOn) :
    (s.answer cmd text).Fair := (h.emit rfl hon).writeResponse _

/-- Any answer, and the session reads on. -/
theorem Fair.answer_readCommand (h : s.Fair) (cmd : ImapCommand) (text : Bytes) :
    ((s.answer cmd text).readCommand).Fair := by
  have hagreements := h.agreements
  rw [answer_eq]
  refine ⟨⟨(h.upgrades.concat rfl).concat rfl, ?_, h.returns⟩, ?_⟩
  · rw [ImapSession.readCommand, ImapSession.emit, List.append_assoc]
    exact h.reads.append ⟨fun _ => rfl, not_false.elim, trivial⟩
  · simp only [ImapSession.readCommand, ImapSession.emit, countP_concat, SessionEvent.isUpgrade,
      SessionEvent.isAgreement, Bool.toNat_false]
    omega

/-- And so does a command. -/
theorem Fair.handleCommand (h : s.Fair) (cmd : ImapCommand) : (s.handleCommand cmd).Fair := by
  rw [ImapSession.handleCommand]
  split_ifs with hunknown hauth
  · exact h.answer_readCommand _ _
  · exact h.answer_readCommand _ _
  · exact ⟨⟨h.upgrades, h.reads, h.returns⟩, h.agreements⟩

/-- What the dispatcher makes of a `STARTTLS` without arguments is an agreement. -/
theorem Fair.dispatched (h : s.Fair)
    (hagreed : cmd.type = .startTLS → s.isSecure = false → Agreed cmd text) :
    (s.dispatched cmd text).Fair := by
  rw [ImapSession.dispatched]
  split_ifs with hsecure htype hlogout
  · exact h.answer_readCommand _ _
  · have hinsecure : s.isSecure = false := by
      cases hs : s.isSecure with
      | false => rfl
      | true => exact absurd ⟨htype, hs⟩ hsecure
    have hyes := hagreed htype hinsecure
    have hagreements := h.agreements
    rw [answer_eq]
    refine ⟨⟨h.upgrades.concat rfl, h.reads.concat fun hon => hon.2 hyes, h.returns⟩, ?_⟩
    have hmsg : Response.agrees ⟨text, some cmd⟩ = true := decide_eq_true hyes
    have hpending : s.isStarttlsPending.toNat ≤ 1 := Bool.toNat_le _
    simp only [countP_concat, SessionEvent.isUpgrade, SessionEvent.isAgreement, hmsg, Bool.toNat_true,
      Bool.toNat_false]
    omega
  · exact h.answer_readCommand _ _
  · exact h.answer fun hon => hlogout hon.1

/-- And a response that was written. -/
theorem Fair.written (h : s.Fair) (hqueue : s.writeQueue = msg :: queue) :
    (s.written msg queue).Fair := by
  have hagreements := h.agreements
  rw [hqueue, countP_eq_add_toNat] at hagreements
  have hsent : Fair ({ s with writeQueue := queue, sending := false }.emit (.sent msg)) := by
    refine ⟨⟨h.upgrades.concat rfl, h.reads.concat not_false, h.returns⟩, ?_⟩
    simp only [ImapSession.emit, countP_concat, SessionEvent.isUpgrade, SessionEvent.isAgreement,
      Bool.toNat_false]
    omega
  rw [ImapSession.written]
  dsimp only
  split_ifs with hrest hclosing hpending
  · exact ⟨⟨hsent.upgrades, hsent.reads, hsent.returns⟩, hsent.agreements⟩
  · exact ⟨⟨hsent.upgrades, hsent.reads, hsent.returns⟩, hsent.agreements⟩
  · obtain rfl : queue = [] := not_not.mp hrest
    have hsent' := hsent.agreements
    simp only [ImapSession.emit] at hsent' hpending
    rw [hpending, Bool.toNat_true, List.countP_nil, Nat.add_zero] at hsent'
    refine ⟨⟨preceded_concat.mpr ⟨hsent.upgrades, ?_⟩, hsent.reads.concat not_false, hsent.returns⟩,
      ?_⟩
    · rw [countP_concat, countP_concat]
      exact hsent'
    · simp only [ImapSession.upgradeToTLS, ImapSession.emit, countP_concat _ (s.trace ++ _)]
      exact hsent'
  · exact ⟨⟨hsent.upgrades, hsent.reads, hsent.returns⟩, hsent.agreements⟩

/-! ### One completion -/

/-- In order, and at one thing at most. -/
def Good (s : ImapSession) : Prop := s.Fair ∧ s.busy ≤ 1

/-- `STARTTLS` is answered without the database. -/
theorem task_startTLS (S : Services) (htype : cmd.type = .startTLS) (d : Dispatcher) :
    (task S cmd).run.run d =
      .ret (.ok (if cmd.args ≠ [] then ImapResponse.bad cmd.tag (lit "STARTTLS takes no arguments")
        else cmd.tag ++ lit " OK Begin TLS negotiation now\r\n"), d) := by
  have hdispatch : dispatch S cmd = handleStartTLS cmd := by rw [dispatch, htype]
  rw [task, hdispatch, handleStartTLS]
  split_ifs <;> rfl

variable {S : Services} {c : Completion}

/-- **What a completion does.** -/
theorem step_cases (h : step S s c = some s') : s.parsing = false ∧
    match c with
    | .received line => s.reading = true ∧ s' = s.received line
    | .readFailed => s.reading = true ∧ s' = { s with reading := false }.close
    | .dispatched seen => ∃ cmd response d, s.dispatching = some cmd ∧
        observe ((task S cmd).run.run s.dispatcher) seen = some (.ok response, d) ∧
        s' = { s with dispatcher := d, dispatching := none }.dispatched cmd response
    | .written => ∃ msg queue, s.writeQueue = msg :: queue ∧ s' = s.written msg queue
    | .writeFailed => s' = { s with sending := false }.close
    | .handshaken ok => s.handshaking = true ∧ s' = s.handshaken ok
    | .idle => s' = { s with closing := true }.writeResponse
        ⟨ImapResponse.untagged (lit "BYE Autologout; idle for too long"), none⟩
    | .handshakeTimeout => s' = s.close := by
  have hguard : ∀ {b : Bool} {t : ImapSession}, (if b then some t else none) = some s' →
      b = true ∧ s' = t := fun h =>
    (Option.ite_none_right_eq_some.mp h).imp_right fun h => (Option.some.inj h).symm
  unfold step at h
  obtain ⟨hparsing, h⟩ := Option.ite_none_left_eq_some.mp h
  refine ⟨Bool.eq_false_of_not_eq_true hparsing, ?_⟩
  cases c with
  | received line => exact hguard h
  | readFailed => exact hguard h
  | dispatched seen =>
    cases hcmd : s.dispatching with
    | none =>
      simp only [hcmd] at h
      exact nomatch h
    | some cmd =>
      simp only [hcmd] at h
      split at h
      · rename_i response d hseen
        exact ⟨cmd, response, d, rfl, hseen, (Option.some.inj h).symm⟩
      · exact nomatch h
  | written =>
    cases hqueue : s.writeQueue with
    | nil =>
      simp only [hqueue] at h
      exact nomatch h
    | cons msg queue =>
      simp only [hqueue] at h
      exact ⟨msg, queue, rfl, (hguard h).2⟩
  | writeFailed => exact (hguard h).2
  | handshaken ok => exact hguard h
  | idle => exact (hguard h).2
  | handshakeTimeout => exact (Option.some.inj h).symm

/-- **A regular step keeps the session good.** -/
theorem Good.step (h : s.Good) (hregular : Regular s c) (hstep : step S s c = some s') :
    s'.Good := by
  obtain ⟨hfair, hbusy⟩ := h
  obtain ⟨-, hstep⟩ := step_cases hstep
  cases c with
  | received line =>
    obtain ⟨hreading, rfl⟩ := hstep
    obtain ⟨cmd, hcmd⟩ := hregular
    rw [ImapSession.received, hcmd.parse_length]
    have hidle : busy { s with reading := false } = 0 := by
      simp only [busy, hreading, Bool.toNat_true, Bool.toNat_false] at hbusy ⊢
      omega
    exact ⟨Fair.handleCommand (s := { s with reading := false })
      ⟨⟨hfair.upgrades, hfair.reads, hfair.returns⟩, hfair.agreements⟩ cmd,
      busy_handleCommand hidle cmd⟩
  | readFailed =>
    obtain ⟨hreading, rfl⟩ := hstep
    refine ⟨⟨⟨hfair.upgrades, hfair.reads, hfair.returns⟩, hfair.agreements⟩, ?_⟩
    simp only [busy, close, hreading, Bool.toNat_true, Bool.toNat_false] at hbusy ⊢
    omega
  | dispatched seen =>
    obtain ⟨cmd, response, d, hcmd, hseen, rfl⟩ := hstep
    have hidle : busy { s with dispatcher := d, dispatching := none } = 0 := by
      simp only [busy, hcmd, Option.isSome_some, Option.isSome_none, Bool.toNat_true,
        Bool.toNat_false] at hbusy ⊢
      omega
    refine ⟨Fair.dispatched (s := { s with dispatcher := d, dispatching := none })
      ⟨⟨hfair.upgrades, hfair.reads, hfair.returns⟩, hfair.agreements⟩ fun htype hinsecure => ?_,
      busy_dispatched hidle cmd response⟩
    have hargs : cmd.args = [] := hregular cmd hcmd htype hinsecure
    rw [task_startTLS S htype, if_neg (not_not_intro hargs)] at hseen
    have heq := eq_of_observe_ret hseen
    obtain ⟨hresponse, -⟩ := Prod.mk.inj heq
    obtain rfl := Except.ok.inj hresponse
    exact ⟨htype, (List.prefix_append_right_inj _).mpr (by decide)⟩
  | written =>
    obtain ⟨msg, queue, hqueue, rfl⟩ := hstep
    refine ⟨hfair.written hqueue, ?_⟩
    simp only [busy] at hbusy
    rw [ImapSession.written]
    dsimp only
    split_ifs with hrest hclosing hpending
    · exact hbusy
    · exact hbusy
    · simp only [ImapSession.emit] at hpending
      simp only [busy, upgradeToTLS, ImapSession.emit, hpending, Bool.toNat_true,
        Bool.toNat_false] at hbusy ⊢
      omega
    · exact hbusy
  | writeFailed =>
    obtain rfl : s' = _ := hstep
    exact ⟨⟨⟨hfair.upgrades, hfair.reads, hfair.returns⟩, hfair.agreements⟩, hbusy⟩
  | handshaken ok =>
    obtain ⟨hshaking, rfl⟩ := hstep
    have hidle : busy { s with handshaking := false } = 0 := by
      simp only [busy, hshaking, Bool.toNat_true, Bool.toNat_false] at hbusy ⊢
      omega
    cases ok with
    | true =>
      exact ⟨Fair.readCommand (s := { s with handshaking := false, isSecure := true })
        ⟨⟨hfair.upgrades, hfair.reads, hfair.returns⟩, hfair.agreements⟩,
        (busy_readCommand (s := { s with handshaking := false, isSecure := true }) hidle).le⟩
    | false =>
      exact ⟨⟨⟨hfair.upgrades, hfair.reads, hfair.returns⟩, hfair.agreements⟩,
        hidle.le.trans (Nat.zero_le 1)⟩
  | idle =>
    obtain rfl : s' = _ := hstep
    refine ⟨Fair.writeResponse (s := { s with closing := true })
      ⟨⟨hfair.upgrades, hfair.reads, hfair.returns⟩, hfair.agreements⟩ _, ?_⟩
    rw [writeResponse_eq]
    exact hbusy
  | handshakeTimeout =>
    obtain rfl : s' = _ := hstep
    exact ⟨⟨⟨hfair.upgrades, hfair.reads, hfair.returns⟩, hfair.agreements⟩, hbusy⟩

/-! ### Out of order -/

/-- Neither reading, nor at a command, nor upgrading. -/
structure Quiet (s : ImapSession) : Prop where
  reading : s.reading = false
  dispatching : s.dispatching = none
  handshaking : s.handshaking = false

/-- The next thing a quiet session does is to send. -/
theorem Quiet.step (h : s.Quiet) (hstep : step S s c = some s') :
    (s'.trace = s.trace ∧ s'.Quiet) ∨ ∃ msg after, s'.trace = s.trace ++ .sent msg :: after := by
  obtain ⟨hreading, hdispatching, hshaking⟩ := h
  obtain ⟨-, hstep⟩ := step_cases hstep
  cases c with
  | received line => exact absurd hstep.1 (by simp [hreading])
  | readFailed => exact absurd hstep.1 (by simp [hreading])
  | dispatched seen =>
    obtain ⟨cmd, response, d, hcmd, -⟩ := hstep
    exact absurd hcmd (by simp [hdispatching])
  | written =>
    obtain ⟨msg, queue, -, rfl⟩ := hstep
    refine .inr ⟨msg, ?_⟩
    rw [ImapSession.written]
    dsimp only
    split_ifs
    · exact ⟨[], rfl⟩
    · exact ⟨[], rfl⟩
    · exact ⟨[.upgradeToTLS], List.append_assoc ..⟩
    · exact ⟨[], rfl⟩
  | writeFailed =>
    obtain rfl : s' = _ := hstep
    exact .inl ⟨rfl, hreading, hdispatching, hshaking⟩
  | handshaken ok => exact absurd hstep.1 (by simp [hshaking])
  | idle =>
    obtain rfl : s' = _ := hstep
    rw [writeResponse_eq]
    exact .inl ⟨rfl, hreading, hdispatching, hshaking⟩
  | handshakeTimeout =>
    obtain rfl : s' = _ := hstep
    exact .inl ⟨rfl, hreading, hdispatching, hshaking⟩

/-- What was done stays done. -/
theorem trace_prefix (hstep : step S s c = some s') : s.trace <+: s'.trace := by
  have hanswer : ∀ (s : ImapSession) cmd text, s.trace <+: (s.answer cmd text).trace := by
    intro s cmd text
    rw [answer_eq]
    exact List.prefix_append _ _
  have hread : ∀ s : ImapSession, s.trace <+: s.readCommand.trace := fun s =>
    List.prefix_append _ _
  obtain ⟨-, hstep⟩ := step_cases hstep
  cases c with
  | received line =>
    obtain ⟨-, rfl⟩ := hstep
    rw [received]
    split
    · exact List.prefix_refl _
    · rw [handleCommand]
      split_ifs
      · exact (hanswer { s with reading := false } _ _).trans (hread _)
      · exact (hanswer { s with reading := false } _ _).trans (hread _)
      · exact List.prefix_refl _
  | readFailed =>
    obtain ⟨-, rfl⟩ := hstep
    exact List.prefix_refl _
  | dispatched seen =>
    obtain ⟨cmd, response, d, -, -, rfl⟩ := hstep
    rw [dispatched]
    split_ifs
    · exact (hanswer { s with dispatcher := d, dispatching := none } _ _).trans (hread _)
    · exact hanswer { s with dispatcher := d, dispatching := none, isStarttlsPending := true } _ _
    · exact (hanswer { s with dispatcher := d, dispatching := none } _ _).trans (hread _)
    · exact hanswer { s with dispatcher := d, dispatching := none } _ _
  | written =>
    obtain ⟨msg, queue, -, rfl⟩ := hstep
    have hsent : s.trace <+: s.trace ++ [.sent msg] := List.prefix_append _ _
    rw [written]
    dsimp only
    split_ifs
    · exact hsent
    · exact hsent
    · exact hsent.trans (List.prefix_append _ _)
    · exact hsent
  | writeFailed =>
    obtain rfl : s' = _ := hstep
    exact List.prefix_refl _
  | handshaken ok =>
    obtain ⟨-, rfl⟩ := hstep
    rw [handshaken]
    split_ifs
    · exact hread _
    · exact List.prefix_refl _
  | idle =>
    obtain rfl : s' = _ := hstep
    exact ⟨[], (List.append_nil _).trans (trace_writeResponse { s with closing := true } _).symm⟩
  | handshakeTimeout =>
    obtain rfl : s' = _ := hstep
    exact List.prefix_refl _

/-- A line keeps the session for good, or it has not read on after an answer. -/
def Astray (s : ImapSession) : Prop :=
  s.parsing = true ∨ ∃ before e after, s.trace = before ++ e :: after ∧ SessionEvent.GoesOn e ∧
    after.head? ≠ some .readCommand ∧ (after = [] → s.Quiet)

/-- A session that went astray is not orderly. -/
theorem Astray.not_orderly (h : s.Astray) : ¬ Orderly s := by
  intro horderly
  rcases h with hparsing | ⟨before, e, after, htrace, he, hnext, -⟩
  · exact nomatch hparsing.symm.trans horderly.returns
  · have hreads := horderly.reads
    rw [htrace] at hreads
    exact hnext (hreads.head? he)

/-- **There is no way back into order.** -/
theorem Astray.step (h : s.Astray) (hstep : step S s c = some s') : s'.Astray := by
  rcases h with hparsing | ⟨before, e, after, htrace, he, hnext, hquiet⟩
  · exact nomatch hparsing.symm.trans (step_cases hstep).1
  · refine .inr ⟨before, e, ?_⟩
    cases after with
    | nil =>
      rcases (hquiet rfl).step hstep with ⟨hsame, hquiet'⟩ | ⟨msg, after, hsent⟩
      · exact ⟨[], hsame.trans htrace, he, hnext, fun _ => hquiet'⟩
      · refine ⟨.sent msg :: after, ?_, he, by simp, fun hnil => nomatch hnil⟩
        rw [hsent, htrace, List.append_assoc, List.cons_append, List.nil_append]
    | cons x after =>
      obtain ⟨more, hmore⟩ := trace_prefix hstep
      refine ⟨x :: after ++ more, ?_, he, hnext, fun hnil => nomatch hnil⟩
      rw [← hmore, htrace, List.append_assoc, List.cons_append]

/-- **A line that is never parsed, or a `STARTTLS` with arguments**, and the session is astray. -/
theorem Good.astray (h : s.Good) (hregular : ¬ Regular s c)
    (hstep : ImapSession.step S s c = some s') : s'.Astray := by
  obtain ⟨hfair, hbusy⟩ := h
  obtain ⟨-, hstep⟩ := step_cases hstep
  cases c with
  | received line =>
    obtain ⟨-, rfl⟩ := hstep
    rw [received]
    cases hparse : parse line.length line with
    | none => exact .inl rfl
    | some cmd => exact absurd ⟨cmd, _, hparse⟩ hregular
  | dispatched seen =>
    obtain ⟨cmd, response, d, hcmd, hseen, rfl⟩ := hstep
    simp only [Regular, not_forall] at hregular
    obtain ⟨cmd', hcmd', htype, hinsecure, hargs⟩ := hregular
    obtain rfl : cmd = cmd' := Option.some.inj (hcmd.symm.trans hcmd')
    rw [task_startTLS S htype, if_pos hargs] at hseen
    obtain ⟨hresponse, -⟩ := Prod.mk.inj (eq_of_observe_ret hseen)
    obtain rfl := Except.ok.inj hresponse
    rw [dispatched, if_neg (fun hboth => by simp [hinsecure] at hboth), if_pos htype, answer_eq]
    refine .inr ⟨s.trace, _, [], rfl, ⟨by simp [htype], fun hagreed => ?_⟩, by simp, fun _ => ?_⟩
    · have hprefix := hagreed.2
      rw [ImapResponse.bad, List.append_assoc, List.append_assoc,
        List.prefix_append_right_inj] at hprefix
      revert hprefix
      decide
    · simp only [busy, hcmd, Option.isSome_some, Bool.toNat_true] at hbusy
      refine ⟨?_, rfl, ?_⟩
      · cases hreading : s.reading with
        | false => rfl
        | true =>
          rw [hreading, Bool.toNat_true] at hbusy
          omega
      · cases hshaking : s.handshaking with
        | false => rfl
        | true =>
          rw [hshaking, Bool.toNat_true] at hbusy
          omega
  | readFailed => exact absurd trivial hregular
  | written => exact absurd trivial hregular
  | writeFailed => exact absurd trivial hregular
  | handshaken ok => exact absurd trivial hregular
  | idle => exact absurd trivial hregular
  | handshakeTimeout => exact absurd trivial hregular

theorem good_startedSession : startedSession.Good := by
  have hnew : Fair {} := ⟨⟨preceded_nil, trivial, rfl⟩, Nat.le_refl 0⟩
  exact ⟨(hnew.writeResponse _).readCommand, (busy_readCommand rfl).le⟩

end ImapSession

open ImapSession Run

/-- **A session upgrades when it agreed to, and otherwise reads on, unless a `STARTTLS` with
arguments comes before it is secure, or a line that is never parsed.** -/
theorem orderly_iff {S : Services} {completions : List Completion} {s : ImapSession}
    (hrun : exec (step S) startedSession completions = some s) :
    Orderly s ↔ Along (step S) Regular startedSession completions := by
  rcases along_or (fun _ _ _ => Good.step) (fun _ _ _ => Good.astray) (fun _ _ _ => Astray.step)
    good_startedSession hrun with ⟨hall, hgood⟩ | ⟨hnot, hastray⟩
  · exact iff_of_true hgood.1.toOrderly hall
  · exact iff_of_false hastray.not_orderly hnot

/-- An upgrade that was agreed on, with a `NOOP` before it. -/
theorem orderly_agreed :
    let cmd : ImapCommand := { tag := lit "b", type := .startTLS }
    let run := [.received (lit "a NOOP"), .written, .dispatched [], .received (lit "b STARTTLS"),
      .dispatched [], .written, .written, .handshaken true]
    ∃ s, exec (step noFiles) startedSession run = some s ∧ Orderly s ∧
      [.sent ⟨lit "b OK Begin TLS negotiation now\r\n", some cmd⟩, .upgradeToTLS, .readCommand] <:+
        s.trace := by
  intro cmd run
  have hrun : exec (step noFiles) startedSession run =
    some ((exec (step noFiles) startedSession run).getD {}) := rfl
  have hcommand : ∀ {s : ImapSession} {cmd seen}, s.dispatching = some cmd → cmd.args = [] →
      Regular s (.dispatched seen) := by
    intro s cmd seen hcmd hargs cmd' hcmd' _ _
    rwa [Option.some.inj (hcmd'.symm.trans hcmd)]
  refine ⟨_, hrun, (orderly_iff hrun).mpr ?_, by decide⟩
  exact .cons ⟨_, 10, rfl⟩ rfl (.cons trivial rfl (.cons (hcommand rfl rfl) rfl
    (.cons ⟨_, 10, rfl⟩ rfl (.cons (hcommand rfl rfl) rfl (.cons trivial rfl (.cons trivial rfl
      (.cons trivial rfl trivial)))))))

/-- **`STARTTLS x`**: refused, and the handshake begins. -/
theorem not_orderly_refused :
    let cmd : ImapCommand := { tag := lit "a", type := .startTLS, args := [lit "x"] }
    let refusal := lit "a BAD STARTTLS takes no arguments\r\n"
    let run := [.received (lit "a STARTTLS x"), .dispatched [], .written, .written]
    ∃ s, exec (step noFiles) startedSession run = some s ∧
      s.trace = [.readCommand, .answered cmd refusal, .sent ⟨lit "* OK IMAP Server Ready\r\n", none⟩,
        .sent ⟨refusal, some cmd⟩, .upgradeToTLS] ∧
      ¬ Orderly s := by
  intro cmd refusal run
  refine ⟨_, rfl, rfl, fun h => ?_⟩
  exact absurd h.upgrades.countP_le (by decide)

end MailStack.Imap
