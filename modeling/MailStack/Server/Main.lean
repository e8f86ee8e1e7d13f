import MailStack.Proto.Handshake
import MailStack.Smtp.BeforeHelo

/-!
# Server/Main — a connection of the SMTP server, from the greeting to its end

    greeting ──▸ receiving ──processLine──▸ replying ──▸ replied ──▸ receiving
                                                            └─StartTLS─▸ upgrading ──▸ receiving

The loop of `server_main.cpp` over its end of a channel, with the client, the network and others
moving in between.  Once the channel is secure the session is what the client's own lines make of a
session that has just begun, with nothing left of what came in the clear; and the client receives the
replies to them: `dialogue_of_exec`.
-/

open Bytes

namespace MailStack.Server

open Proto Smtp

/-- `SmtpResponse::ServiceReady`. -/
def serviceReady (domain : Bytes) : Bytes := lit "220 " ++ domain ++ lit " Service ready\r\n"

/-- Where the loop is. -/
inductive Phase
  | greeting
  | receiving
  | replying (response : Bytes)
  | replied
  | upgrading
  | ended
  deriving DecidableEq

/-- A connection of the server: both ends of its channel, its session, and, for proofs, the lines that
were processed since the channel is secure. -/
structure Serving (κ ω : Type*) where
  link : Proto.Session κ
  connection : Smtp.Connection ω
  phase : Phase := .greeting
  lines : List Bytes := []

/-- A step is one of the server's loop, with the nonce it draws, or of anyone else. -/
inductive ServingAct (κ : Type*)
  | server (nonce : Bytes)
  | other (a : SessionAct κ)

/-- The act is one of the server's end. -/
def ofServer {κ : Type*} : SessionAct κ → Bool
  | .startTLS r | .send r _ _ | .receive r => r = .server
  | .network _ | .elsewhere _ => false

namespace Serving

variable {κ ω : Type*} (X : Kx) (encrypt : (key ad nonce message : Bytes) → Option Bytes)
  (conn : Role → IConnection κ) (secret : Role → Bytes) (repo : Repo ω) (domain : Bytes)

/-- `StartTLS`, `SetSecure(true)` and `ResetToHelo()`. -/
def upgrade (n : Serving κ ω) : Serving κ ω :=
  let e := n.link.ends .server
  let out := startTLS X (conn .server) .server (secret .server) e n.link.net
  let link := n.link.put .server out.1 out.2
  match e.stage, out.1.stage with
  | .secured _, _ => { n with phase := .ended }
  | _, .secured _ =>
    { n with
      link
      connection :=
        { n.connection with session := (n.connection.session.setSecure true).resetToHelo }
      phase := .receiving
      lines := [] }
  | _, .failed => { n with link, phase := .ended }
  | _, _ => { n with link }

/-- One step of the loop. -/
def loop (n : Serving κ ω) (nonce : Bytes) : Option (Serving κ ω) :=
  match n.phase with
  | .greeting =>
    let out := n.link.send encrypt conn .server (serviceReady domain) nonce
    some { n with link := out.2, phase := if out.1 then .receiving else .ended }
  | .receiving =>
    let out := n.link.receive encrypt conn .server
    match out.1 with
    | none => some { n with link := out.2, phase := .ended }
    | some line => some
      { n with
        link := out.2
        connection := feed repo n.connection line
        phase :=
          match (processLine repo n.connection.session n.connection.world line).reply with
          | .ok response => .replying response
          | .error _ => .ended
        lines := n.lines ++ [line] }
  | .replying response =>
    if response = [] then some { n with phase := .replied }
    else
      let out := n.link.send encrypt conn .server response nonce
      some { n with link := out.2, phase := if out.1 then .replied else .ended }
  | .replied =>
    if n.connection.session.state = .starttls then some { n with phase := .upgrading }
    else some { n with phase := if n.connection.session.state = .closed then .ended else .receiving }
  | .upgrading => some (n.upgrade X conn secret)
  | .ended => none

/-- One step. -/
def next (n : Serving κ ω) : ServingAct κ → Option (Serving κ ω)
  | .server nonce => n.loop X encrypt conn secret repo domain nonce
  | .other a =>
    if ofServer a then none
    else (n.link.next X encrypt conn secret a).map fun link => { n with link }

/-- A connection that was just accepted. -/
def accept (w : ω) (k : κ) : Serving κ ω where
  link := Session.fresh k
  connection := .accept domain w

/-- What is still to be sent of the reply to the last line. -/
def pending (n : Serving κ ω) : List Bytes :=
  match n.phase with
  | .replying response => [response].filter (· ≠ [])
  | _ => []

end Serving

section Replies

variable {ω : Type*} (repo : Repo ω)

/-- The reply to a line, if one is sent. -/
def replyTo (s : SmtpSession) (w : ω) (line : Bytes) : List Bytes :=
  (processLine repo s w line).reply.toOption.toList.filter (· ≠ [])

/-- The replies to lines, one after the other. -/
def repliesTo : SmtpSession → ω → List Bytes → List Bytes
  | _, _, [] => []
  | s, w, line :: lines =>
    replyTo repo s w line ++
      repliesTo (processLine repo s w line).session (processLine repo s w line).world lines

/-- The replies to one more line. -/
theorem repliesTo_concat (s : SmtpSession) (w : ω) (lines : List Bytes) (line : Bytes) :
    repliesTo repo s w (lines ++ [line]) = repliesTo repo s w lines ++
      replyTo repo (feedAll repo s w lines).session (feedAll repo s w lines).world line := by
  have hfrom : ∀ c : Smtp.Connection ω, repliesTo repo c.session c.world (lines ++ [line]) =
      repliesTo repo c.session c.world lines ++
        replyTo repo (lines.foldl (feed repo) c).session (lines.foldl (feed repo) c).world line := by
    induction lines with
    | nil => exact fun c => List.append_nil _
    | cons l lines ih =>
      intro c
      rw [List.cons_append, repliesTo, repliesTo, List.append_assoc]
      exact congrArg _ (ih (feed repo c l))
  exact hfrom ⟨s, w, [], false⟩

end Replies

/-! ## Before the channel is secure -/

section Plain

variable {ω : Type*} (repo : Repo ω)

/-- What no command changes. -/
def SameChannel (s s' : SmtpSession) : Prop := s'.domain = s.domain ∧ s'.secure = s.secure

/-- Authorizing leaves the channel alone. -/
theorem sameChannel_authorizeAs (s : SmtpSession) (w : ω) (u p : Bytes) :
    SameChannel s (authorizeAs repo s w u p).session := by
  rcases authorizeAs_cases repo s w u p with ⟨w', heq⟩ | ⟨w', heq⟩
  · rw [heq]
    exact ⟨rfl, rfl⟩
  · rw [heq]
    exact ⟨rfl, rfl⟩

/-- So does every command. -/
theorem sameChannel_handleCommand (s : SmtpSession) (w : ω) (command : SmtpCommand) :
    SameChannel s (handleCommand repo s w command).session := by
  unfold handleCommand
  cases command.type with
  | auth =>
    rcases handleAuth_cases repo s w command with
      ⟨r, -, heq⟩ | ⟨-, -, ⟨r, st, -, -, heq⟩ | ⟨u, p, heq⟩⟩ <;> rw [heq]
    · exact ⟨rfl, rfl⟩
    · exact ⟨rfl, rfl⟩
    · exact sameChannel_authorizeAs repo s w u p
  | mail =>
    unfold SmtpSession.handleMail
    split_ifs <;> exact ⟨rfl, rfl⟩
  | rcpt =>
    unfold SmtpSession.handleRcpt
    split_ifs <;> exact ⟨rfl, rfl⟩
  | data =>
    unfold SmtpSession.handleData
    split_ifs <;> exact ⟨rfl, rfl⟩
  | starttls =>
    unfold SmtpSession.handleStartTLS
    split_ifs <;> exact ⟨rfl, rfl⟩
  | helo | ehlo | rset | noop | quit | unknown => exact ⟨rfl, rfl⟩

/-- What a connection is before its channel is secure: only commands were processed, so that no one
was asked for a password, nothing was stored, and the world is as it was. -/
structure Plain (domain : Bytes) (w : ω) (c : Smtp.Connection ω) : Prop where
  secure : c.session.secure = false
  domain : c.session.domain = domain
  world : c.world = w
  inv : Smtp.Inv c.session c.log
  commands : ∀ e ∈ c.log, ∃ line, e = .command line

variable {repo} {domain : Bytes} {w : ω} {c : Smtp.Connection ω}

/-- A connection begins in plain text. -/
theorem plain_accept (domain : Bytes) (w : ω) : Plain domain w (.accept domain w) where
  secure := rfl
  domain := rfl
  world := rfl
  inv := inv_accept domain w
  commands _ h := absurd h List.not_mem_nil

/-- In plain text a command changes nothing and calls nothing. -/
theorem Plain.handleCommand (h : Plain domain w c) (command : SmtpCommand) :
    (Smtp.handleCommand repo c.session w command).world = w ∧
      (Smtp.handleCommand repo c.session w command).calls = [] := by
  unfold Smtp.handleCommand
  cases command.type with
  | auth =>
    rcases handleAuth_cases repo c.session w command with ⟨r, -, heq⟩ | ⟨-, hsecure, -⟩
    · dsimp only
      rw [heq]
      exact ⟨rfl, rfl⟩
    · rw [h.secure] at hsecure
      cases hsecure
  | helo | ehlo | mail | rcpt | data | rset | noop | quit | unknown | starttls => exact ⟨rfl, rfl⟩

/-- **In the clear a line is a command, or it is too long.** -/
theorem Plain.feed (h : Plain domain w c) (line : Bytes) :
    Plain domain w (Smtp.feed repo c line) := by
  have hdata : c.session.state ≠ .receivingData := fun hst => by
    have hsecure := h.inv.secure (h.inv.submitting (.inr hst))
    rw [h.secure] at hsecure
    cases hsecure
  have hdialogue : ¬ (c.session.state = .authWaitUser ∨ c.session.state = .authWaitPass) := fun hst => by
    have hsecure := h.inv.dialogue hst
    rw [h.secure] at hsecure
    cases hsecure
  have hinv := inv_processLine repo h.inv c.world line
  have hline : processLine repo c.session c.world line = ⟨.ok SmtpResponse.syntaxError, c.session, w, []⟩ ∨
      processLine repo c.session c.world line =
        { Smtp.handleCommand repo c.session w (parse line) with calls := [.command line] } := by
    rw [h.world]
    unfold processLine
    split_ifs
    · exact .inl rfl
    · refine .inr ?_
      dsimp only
      rw [(h.handleCommand (parse line)).2]
  rcases hline with heq | heq
  · rw [Smtp.feed, heq]
    rw [heq] at hinv
    exact ⟨h.secure, h.domain, rfl, hinv, h.commands⟩
  · obtain ⟨hdomain, hsecure⟩ := sameChannel_handleCommand repo c.session w (parse line)
    rw [Smtp.feed, heq]
    rw [heq] at hinv
    refine ⟨hsecure.trans h.secure, hdomain.trans h.domain, (h.handleCommand _).1, hinv, ?_⟩
    intro e he
    rcases List.mem_cons.mp he with rfl | he
    · exact ⟨line, rfl⟩
    · exact h.commands e he

/-- What a connection is since its channel is secure: what the lines made of a session that has just
begun, with no call before that but commands. -/
structure Since (repo : Repo ω) (domain : Bytes) (w : ω) (lines : List Bytes)
    (c : Smtp.Connection ω) : Prop where
  session : c.session = (feedAll repo { domain, secure := true } w lines).session
  world : c.world = (feedAll repo { domain, secure := true } w lines).world
  log : ∃ before, (∀ e ∈ before, ∃ line, e = .command line) ∧
    c.log = (feedAll repo { domain, secure := true } w lines).log ++ before

/-- **Nothing is left of what came in the clear.** -/
theorem Plain.upgrade (h : Plain domain w c) :
    Since repo domain w [] { c with session := (c.session.setSecure true).resetToHelo } where
  session := by
    rw [← h.domain]
    rfl
  world := h.world
  log := ⟨c.log, h.commands, rfl⟩

/-- One more line since the channel is secure. -/
theorem Since.feed {lines : List Bytes} (h : Since repo domain w lines c) (line : Bytes) :
    Since repo domain w (lines ++ [line]) (Smtp.feed repo c line) := by
  obtain ⟨before, hbefore, hlog⟩ := h.log
  refine ⟨?_, ?_, before, hbefore, ?_⟩
  · rw [feedAll_concat, Smtp.feed, Smtp.feed, h.session, h.world]
  · rw [feedAll_concat, Smtp.feed, Smtp.feed, h.session, h.world]
  · rw [feedAll_concat, Smtp.feed, Smtp.feed, h.session, h.world, hlog, List.append_assoc]

end Plain

/-! ## The loop -/

namespace Serving

variable {κ ω : Type*} {X : Kx} {encrypt : (key ad nonce message : Bytes) → Option Bytes}
  {conn : Role → IConnection κ} {secret : Role → Bytes} {repo : Repo ω} {domain : Bytes} {w : ω}
  {k : κ} {n n' : Serving κ ω}

/-- The channel is at a state of one of its own runs. -/
def Reached (X : Kx) (encrypt : (key ad nonce message : Bytes) → Option Bytes)
    (conn : Role → IConnection κ) (secret : Role → Bytes) (k : κ) (s : Proto.Session κ) : Prop :=
  ∃ acts, Run.exec (Session.next X encrypt conn secret) (Session.fresh k) acts = some s

/-- A step of the link goes on from what was reached. -/
theorem Reached.next {s s' : Proto.Session κ} (h : Reached X encrypt conn secret k s)
    {a : SessionAct κ} (hstep : s.next X encrypt conn secret a = some s') :
    Reached X encrypt conn secret k s' := by
  obtain ⟨acts, hrun⟩ := h
  refine ⟨acts ++ [a], ?_⟩
  rw [Run.exec_append, hrun]
  exact Run.exec_cons_eq_some_iff.mpr ⟨s', hstep, rfl⟩

/-- The invariant of the loop. -/
structure Inv (X : Kx) (encrypt : (key ad nonce message : Bytes) → Option Bytes)
    (conn : Role → IConnection κ) (secret : Role → Bytes) (repo : Repo ω) (domain : Bytes) (w : ω)
    (k : κ) (n : Serving κ ω) : Prop where
  link : Reached X encrypt conn secret k n.link
  greeting : n.phase = .greeting → (n.link.ends .server).channel.secure = false
  isOpen : n.phase ≠ .upgrading → n.phase ≠ .ended → Session.Open (n.link.ends .server) = true
  plain : (n.link.ends .server).channel.secure = false → Plain domain w n.connection
  since : (n.link.ends .server).channel.secure = true →
    Since repo domain w n.lines n.connection ∧ n.lines = (n.link.ends .server).received ∧
      (n.link.ends .server).attempted ++ n.pending =
        repliesTo repo { domain, secure := true } w n.lines

/-- The server's end keeps the invariant of its end. -/
theorem Inv.ends (h : n.Inv X encrypt conn secret repo domain w k) :
    (n.link.ends .server).Inv X .server (secret .server) := by
  obtain ⟨acts, hrun⟩ := h.link
  exact Session.ends_of_exec hrun .server

/-- A new connection keeps the invariant. -/
theorem inv_accept (w : ω) (k : κ) :
    (accept domain w k : Serving κ ω).Inv X encrypt conn secret repo domain w k where
  link := ⟨[], rfl⟩
  greeting _ := rfl
  isOpen _ _ := rfl
  plain _ := plain_accept domain w
  since h := by cases h

/-- The ends of others are others'. -/
theorem ends_of_not_ofServer {s s' : Proto.Session κ} {a : SessionAct κ} (ha : ofServer a = false)
    (hstep : s.next X encrypt conn secret a = some s') : s'.ends .server = s.ends .server := by
  cases a with
  | startTLS r =>
    obtain rfl := Option.some.inj hstep
    refine Session.put_ends_of_ne ?_ ..
    rintro rfl
    cases ha
  | send r data nonce =>
    rw [Session.next] at hstep
    split_ifs at hstep
    obtain rfl := Option.some.inj hstep
    refine Session.send_ends_of_ne ?_ ..
    rintro rfl
    cases ha
  | receive r =>
    rw [Session.next] at hstep
    split_ifs at hstep
    obtain rfl := Option.some.inj hstep
    refine Session.receive_ends_of_ne ?_
    rintro rfl
    cases ha
  | network k =>
    obtain rfl := Option.some.inj hstep
    rfl
  | elsewhere e =>
    rw [Session.next] at hstep
    split_ifs at hstep
    obtain rfl := Option.some.inj hstep
    rfl

/-- What the other end and the network do keeps it. -/
theorem Inv.other (h : n.Inv X encrypt conn secret repo domain w k) {a : SessionAct κ}
    (hstep : n.next X encrypt conn secret repo domain (.other a) = some n') :
    n'.Inv X encrypt conn secret repo domain w k := by
  rw [next] at hstep
  split_ifs at hstep with ha
  obtain ⟨link, hlink, rfl⟩ := Option.map_eq_some_iff.mp hstep
  have hserver := ends_of_not_ofServer (Bool.eq_false_iff.mpr ha) hlink
  refine ⟨h.link.next hlink, ?_, ?_, ?_, ?_⟩
  · rw [hserver]
    exact h.greeting
  · rw [hserver]
    exact h.isOpen
  · rw [hserver]
    exact h.plain
  · rw [hserver]
    exact h.since

/-- Sending is a step of the link. -/
theorem Reached.send {s : Proto.Session κ} (h : Reached X encrypt conn secret k s)
    (hopen : Session.Open (s.ends .server) = true) (data nonce : Bytes) :
    Reached X encrypt conn secret k (s.send encrypt conn .server data nonce).2 :=
  h.next (a := .send .server data nonce) (if_pos hopen)

/-- So is receiving. -/
theorem Reached.receive {s : Proto.Session κ} (h : Reached X encrypt conn secret k s)
    (hopen : Session.Open (s.ends .server) = true) :
    Reached X encrypt conn secret k (s.receive encrypt conn .server).2 :=
  h.next (a := .receive .server) (if_pos hopen)

/-- The greeting keeps the invariant. -/
theorem Inv.greet (h : n.Inv X encrypt conn secret repo domain w k) (hphase : n.phase = .greeting)
    {nonce : Bytes} (hstep : n.loop X encrypt conn secret repo domain nonce = some n') :
    n'.Inv X encrypt conn secret repo domain w k := by
  have hsecure := h.greeting hphase
  have hopen := h.isOpen (by simp [hphase]) (by simp [hphase])
  have hsame := Session.send_ends_of_plain encrypt conn hsecure (serviceReady domain) nonce
  rw [loop, hphase] at hstep
  obtain rfl := Option.some.inj hstep
  refine ⟨h.link.send hopen _ _, fun _ => ?_, fun _ _ => ?_, fun _ => h.plain hsecure, fun htrue => ?_⟩
  · exact hsame ▸ hsecure
  · exact hsame ▸ hopen
  · have hfalse : (n.link.ends .server).channel.secure = true := hsame ▸ htrue
    rw [hsecure] at hfalse
    cases hfalse

/-- **A line is received**, and processed. -/
theorem Inv.receive (h : n.Inv X encrypt conn secret repo domain w k) (hphase : n.phase = .receiving)
    {nonce : Bytes} (hstep : n.loop X encrypt conn secret repo domain nonce = some n') :
    n'.Inv X encrypt conn secret repo domain w k := by
  have hopen := h.isOpen (by simp [hphase]) (by simp [hphase])
  have hpending : n.pending = [] := by rw [pending, hphase]
  obtain ⟨hsecure, hattempted, hstill⟩ :=
    Session.receive_same encrypt conn n.link .server
  have hreached := h.link.receive hopen
  have hreceived := Session.received_receive encrypt conn (s := n.link) (r := .server)
  rw [loop, hphase] at hstep
  dsimp only at hstep
  cases hout : (n.link.receive encrypt conn .server).1 with
  | none =>
    rw [hout] at hstep hreceived
    obtain rfl := Option.some.inj hstep
    refine ⟨hreached, fun hgreeting => (by cases hgreeting), fun _ _ => hstill.trans hopen,
      fun hfalse => h.plain (hsecure.symm.trans hfalse), fun htrue => ?_⟩
    obtain ⟨hsince, hlines, hreplies⟩ := h.since (hsecure.symm.trans htrue)
    refine ⟨hsince, ?_, ?_⟩
    · rw [hreceived (hsecure.symm.trans htrue)]
      exact hlines.trans (List.append_nil _).symm
    · rw [hattempted, ← hreplies, hpending]
      rfl
  | some line =>
    rw [hout] at hstep hreceived
    obtain rfl := Option.some.inj hstep
    refine ⟨hreached, fun hgreeting => ?_, fun _ _ => hstill.trans hopen,
      fun hfalse => (h.plain (hsecure.symm.trans hfalse)).feed line, fun htrue => ?_⟩
    · dsimp only at hgreeting
      split at hgreeting <;> cases hgreeting
    · obtain ⟨hsince, hlines, hreplies⟩ := h.since (hsecure.symm.trans htrue)
      refine ⟨hsince.feed line, ?_, ?_⟩
      · rw [hreceived (hsecure.symm.trans htrue), hlines]
        rfl
      · rw [hpending, List.append_nil] at hreplies
        rw [hattempted, hreplies, repliesTo_concat, replyTo, ← hsince.session, ← hsince.world, pending]
        dsimp only
        cases (processLine repo n.connection.session n.connection.world line).reply with
        | ok response => rfl
        | error e => rfl

/-- **The reply is sent**, if there is one. -/
theorem Inv.reply (h : n.Inv X encrypt conn secret repo domain w k) {response : Bytes}
    (hphase : n.phase = .replying response)
    {nonce : Bytes} (hstep : n.loop X encrypt conn secret repo domain nonce = some n') :
    n'.Inv X encrypt conn secret repo domain w k := by
  have hopen := h.isOpen (by simp [hphase]) (by simp [hphase])
  have hpending : n.pending = [response].filter (· ≠ []) := by rw [pending, hphase]
  rw [loop, hphase] at hstep
  dsimp only at hstep
  by_cases hempty : response = []
  · rw [if_pos hempty] at hstep
    obtain rfl := Option.some.inj hstep
    refine ⟨h.link, fun hgreeting => (by cases hgreeting), fun _ _ => hopen, h.plain, fun htrue => ?_⟩
    obtain ⟨hsince, hlines, hreplies⟩ := h.since htrue
    refine ⟨hsince, hlines, ?_⟩
    rw [← hreplies, hpending, hempty]
    rfl
  · rw [if_neg hempty] at hstep
    obtain rfl := Option.some.inj hstep
    obtain ⟨hsecure, hreceived⟩ :=
      Session.send_same encrypt conn n.link .server response nonce
    refine ⟨h.link.send hopen _ _, fun hgreeting => ?_, fun _ hgoes => ?_,
      fun hfalse => h.plain (hsecure.symm.trans hfalse), fun htrue => ?_⟩
    · dsimp only at hgreeting
      split_ifs at hgreeting
    · refine Session.open_send hopen ?_
      by_contra hfails
      exact hgoes (if_neg hfails)
    · have hsecured := hsecure.symm.trans htrue
      obtain ⟨hsince, hlines, hreplies⟩ := h.since hsecured
      refine ⟨hsince, hlines.trans hreceived.symm, ?_⟩
      have hnothing : ∀ b : Bool, pending { n with phase := if b then .replied else .ended } = [] :=
        fun b => by cases b <;> rfl
      have hsent : [response].filter (· ≠ []) = [response] := by simp [hempty]
      rw [← hreplies, hpending, hsent, Session.attempted_send encrypt conn hopen, if_pos hsecured]
      exact (congrArg _ (hnothing _)).trans (List.append_nil _)

/-- **One turn of the loop keeps the invariant.** -/
theorem Inv.turn (h : n.Inv X encrypt conn secret repo domain w k) (hphase : n.phase = .replied)
    {nonce : Bytes} (hstep : n.loop X encrypt conn secret repo domain nonce = some n') :
    n'.Inv X encrypt conn secret repo domain w k := by
  have hopen := h.isOpen (by simp [hphase]) (by simp [hphase])
  have hpending : n.pending = [] := by rw [pending, hphase]
  have hkeep : ∀ phase, phase ≠ .greeting → pending { n with phase } = [] →
      Inv X encrypt conn secret repo domain w k { n with phase } := fun phase hgreeting hnothing =>
    ⟨h.link, fun heq => absurd heq hgreeting, fun _ _ => hopen, h.plain, fun htrue => by
      obtain ⟨hsince, hlines, hreplies⟩ := h.since htrue
      exact ⟨hsince, hlines, by rw [hnothing, ← hreplies, hpending]⟩⟩
  rw [loop, hphase] at hstep
  dsimp only at hstep
  split_ifs at hstep
  · obtain rfl := Option.some.inj hstep
    exact hkeep _ (by simp) rfl
  · obtain rfl := Option.some.inj hstep
    exact hkeep _ (by simp) rfl
  · obtain rfl := Option.some.inj hstep
    exact hkeep _ (by simp) rfl

variable (X conn secret) in
/-- **What an upgrade can do**: a channel that is secure refuses it; the handshake succeeds; it goes on
or fails. -/
theorem upgrade_cases (encrypt : (key ad nonce message : Bytes) → Option Bytes) (n : Serving κ ω) :
    (∃ peer, (n.link.ends .server).stage = .secured peer) ∧
        n.upgrade X conn secret = { n with phase := .ended } ∨
      ∃ link, n.link.next X encrypt conn secret (.startTLS .server) = some link ∧
        (∀ peer, (n.link.ends .server).stage ≠ .secured peer) ∧
        ((∃ peer, (link.ends .server).stage = .secured peer) ∧ n.upgrade X conn secret = { n with
            link
            connection :=
              { n.connection with session := (n.connection.session.setSecure true).resetToHelo }
            phase := .receiving
            lines := [] } ∨
          (∀ peer, (link.ends .server).stage ≠ .secured peer) ∧ ∃ phase,
            (phase = .ended ∨ phase = n.phase) ∧ n.upgrade X conn secret = { n with link, phase }) := by
  unfold upgrade
  dsimp only
  split
  next peer hstage => exact .inl ⟨⟨peer, hstage⟩, rfl⟩
  next peer hstage hnot =>
    refine .inr ⟨_, rfl, hnot, .inl ⟨⟨peer, ?_⟩, rfl⟩⟩
    rw [Session.put_ends_self]
    exact hstage
  next hstage hnot =>
    refine .inr ⟨_, rfl, hnot, .inr ⟨fun peer hpeer => ?_, .ended, .inl rfl, rfl⟩⟩
    rw [Session.put_ends_self, hstage] at hpeer
    cases hpeer
  next hnot hnot' _ =>
    refine .inr ⟨_, rfl, hnot, .inr ⟨fun peer hpeer => ?_, n.phase, .inr rfl, rfl⟩⟩
    rw [Session.put_ends_self] at hpeer
    exact hnot' peer hpeer

/-- **The session starts over** when the channel is secure, and not before. -/
theorem Inv.upgrade (h : n.Inv X encrypt conn secret repo domain w k) (hphase : n.phase = .upgrading) :
    (n.upgrade X conn secret).Inv X encrypt conn secret repo domain w k := by
  have hpending : n.pending = [] := by rw [pending, hphase]
  rcases upgrade_cases X conn secret encrypt n with
    ⟨-, heq⟩ | ⟨link, hlink, hnot, ⟨⟨peer, hpeer⟩, heq⟩ | ⟨hnot', phase, hphase', heq⟩⟩
  · rw [heq]
    refine ⟨h.link, fun hgreeting => (by cases hgreeting), fun _ hended => absurd rfl hended, h.plain,
      fun htrue => ?_⟩
    obtain ⟨hsince, hlines, hreplies⟩ := h.since htrue
    exact ⟨hsince, hlines, by rw [← hreplies, hpending]; rfl⟩
  · have hplain : (n.link.ends .server).channel.secure = false :=
      Bool.eq_false_iff.mpr fun htrue => (h.ends.secure.mp htrue).elim hnot
    have hreached := h.link.next hlink
    obtain ⟨acts, hrun⟩ := hreached
    have hends := Session.ends_of_exec hrun .server
    have hsecure := hends.secure.mpr ⟨peer, hpeer⟩
    obtain rfl := Option.some.inj hlink
    rw [Session.put_ends_self] at hsecure hpeer
    obtain ⟨hattempted, hreceived⟩ := startTLS_same X (conn .server) .server (secret .server)
      (n.link.ends .server) n.link.net
    obtain ⟨hquiet, hquiet'⟩ := h.ends.quiet hplain
    rw [hquiet] at hattempted
    rw [hquiet'] at hreceived
    rw [heq]
    refine ⟨⟨acts, hrun⟩, fun hgreeting => (by cases hgreeting), fun _ _ => ?_, fun hfalse => ?_,
      fun _ => ⟨(h.plain hplain).upgrade, ?_, ?_⟩⟩
    · have hnone : (startTLS X (conn .server) .server (secret .server) (n.link.ends .server)
          n.link.net).1.failed = none :=
        Option.toList_eq_nil_iff.mp (List.append_eq_nil_iff.mp hattempted).2
      dsimp only
      rw [Session.put_ends_self, Session.Open, hpeer, hnone]
      rfl
    · dsimp only at hfalse
      rw [Session.put_ends_self, hsecure] at hfalse
      cases hfalse
    · dsimp only
      rw [Session.put_ends_self, hreceived]
    · dsimp only
      rw [Session.put_ends_self, hattempted]
      rfl
  · have hplain : (n.link.ends .server).channel.secure = false :=
      Bool.eq_false_iff.mpr fun htrue => (h.ends.secure.mp htrue).elim hnot
    have hreached := h.link.next hlink
    obtain ⟨acts, hrun⟩ := hreached
    have hends := Session.ends_of_exec hrun .server
    rw [heq]
    refine ⟨⟨acts, hrun⟩, fun hgreeting => ?_, fun hgoes hended => ?_, fun _ => h.plain hplain,
      fun htrue => absurd (hends.secure.mp htrue) (not_exists.mpr hnot')⟩
    · rcases hphase' with rfl | rfl
      · cases hgreeting
      · rw [hphase] at hgreeting
        cases hgreeting
    · rcases hphase' with rfl | rfl
      · exact absurd rfl hended
      · exact absurd hphase hgoes

/-! ## Whole runs -/

/-- **A step keeps the invariant.** -/
theorem Inv.next (h : n.Inv X encrypt conn secret repo domain w k) {a : ServingAct κ}
    (hstep : n.next X encrypt conn secret repo domain a = some n') :
    n'.Inv X encrypt conn secret repo domain w k := by
  cases a with
  | other a => exact h.other hstep
  | server nonce =>
    have hloop : n.loop X encrypt conn secret repo domain nonce = some n' := hstep
    cases hphase : n.phase with
    | greeting => exact h.greet hphase hloop
    | receiving => exact h.receive hphase hloop
    | replying response => exact h.reply hphase hloop
    | replied => exact h.turn hphase hloop
    | upgrading =>
      rw [loop, hphase] at hloop
      obtain rfl := Option.some.inj hloop
      exact h.upgrade hphase
    | ended =>
      rw [loop, hphase] at hloop
      cases hloop

/-- **So does every run of the connection.** -/
theorem inv_of_exec {acts : List (ServingAct κ)}
    (hrun : Run.exec (next X encrypt conn secret repo domain) (accept domain w k) acts = some n) :
    n.Inv X encrypt conn secret repo domain w k :=
  Run.exec_invariant (I := fun n : Serving κ ω => n.Inv X encrypt conn secret repo domain w k)
    (fun _ _ _ h hstep => h.next hstep) (inv_accept w k) hrun

/-- What each end of a secure channel has of the other. -/
theorem Inv.dialogue (h : n.Inv X encrypt conn secret repo domain w k) (hlink : n.link.Inv X secret)
    (hsecured : (n.link.ends .server).stage = .secured (X.publicKey (secret .client))) :
    ∃ payloads, payloads <+: (n.link.ends .client).attempted ∧
      Since repo domain w (payloads.map stripLineEnd) n.connection ∧
      (n.link.ends .server).attempted ++ n.pending =
        repliesTo repo { domain, secure := true } w (payloads.map stripLineEnd) ∧
      ((n.link.ends .client).stage = .secured (X.publicKey (secret .server)) →
        ∃ replies, (n.link.ends .client).received = replies.map stripLineEnd ∧
          replies <+: repliesTo repo { domain, secure := true } w (payloads.map stripLineEnd)) := by
  obtain ⟨hsince, hlines, hreplies⟩ := h.since (h.ends.secure.mpr ⟨_, hsecured⟩)
  have hreceived := hlink.received .server hsecured
  rw [hlines, hreceived] at hsince hreplies
  refine ⟨_, List.take_prefix _ _, hsince, hreplies, fun hclient => ⟨_, hlink.received .client hclient, ?_⟩⟩
  have hprefix := (List.take_prefix (n.link.ends .client).received.length
    (n.link.ends .server).attempted).trans (List.prefix_append _ n.pending)
  rw [hreplies] at hprefix
  exact hprefix

/-- The channel keeps its own invariant. -/
theorem Inv.inv_link (hX : X.Lawful) (h : n.Inv X encrypt conn secret repo domain w k)
    (hbound : ∀ r, (n.link.ends r).attempted.length < 2 ^ 64) : n.link.Inv X secret := by
  obtain ⟨acts, hrun⟩ := h.link
  exact Session.inv_of_exec hX hrun hbound

/-- **On a secure channel the server serves the client's own lines**, those that it received so far, to
a session that has just begun: nothing is left of what came in the clear, nothing came from anyone else,
and nothing was stored and no password looked at before.  What it sends are the replies to them, in
order, and a client that was given the server's key receives an initial part of these. -/
theorem dialogue_of_exec (hX : X.Lawful) {acts : List (ServingAct κ)}
    (hrun : Run.exec (next X encrypt conn secret repo domain) (accept domain w k) acts = some n)
    (hbound : ∀ r, (n.link.ends r).attempted.length < 2 ^ 64)
    (hsecured : (n.link.ends .server).stage = .secured (X.publicKey (secret .client))) :
    ∃ payloads, payloads <+: (n.link.ends .client).attempted ∧
      Since repo domain w (payloads.map stripLineEnd) n.connection ∧
      (n.link.ends .server).attempted ++ n.pending =
        repliesTo repo { domain, secure := true } w (payloads.map stripLineEnd) ∧
      ((n.link.ends .client).stage = .secured (X.publicKey (secret .server)) →
        ∃ replies, (n.link.ends .client).received = replies.map stripLineEnd ∧
          replies <+: repliesTo repo { domain, secure := true } w (payloads.map stripLineEnd)) :=
  (inv_of_exec hrun).dialogue ((inv_of_exec hrun).inv_link hX hbound) hsecured

/-- A client that asks for a secure channel, and greets the server again. -/
def greetsTwice : List (ServingAct (Bytes × Bytes)) :=
  let nonce : Bytes := List.replicate nonceSize 7
  let asks (line : Bytes) : List (ServingAct (Bytes × Bytes)) :=
    [.other (.send .client line nonce), .server nonce, .server nonce, .server nonce, .other (.receive .client)]
  [.server nonce, .other (.receive .client)] ++ asks (lit "HELO a\r\n") ++ asks (lit "STARTTLS\r\n") ++
    [.other (.startTLS .client), .server nonce, .server nonce, .other (.startTLS .client)] ++
    asks (lit "HELO a\r\n")

theorem dialogue_greetsTwice :
    ∃ n, Run.exec (next Session.openKx markAead.encrypt Session.pipes Session.secrets aliceRepo
          (lit "localhost")) (accept (lit "localhost") () ([], [])) greetsTwice = some n ∧
      (n.link.ends .client).received = [lit "250 localhost greets you"] ∧
      ∃ payloads, payloads <+: (n.link.ends .client).attempted ∧
        n.connection.session = (feedAll aliceRepo { domain := lit "localhost", secure := true } ()
          (payloads.map stripLineEnd)).session := by
  have hsome : (Run.exec (next Session.openKx markAead.encrypt Session.pipes Session.secrets aliceRepo
      (lit "localhost")) (accept (lit "localhost") () ([], [])) greetsTwice).any (fun n =>
        (n.link.ends .client).received == [lit "250 localhost greets you"] &&
        (n.link.ends .server).stage == .secured (Session.secrets .client) &&
        decide ((n.link.ends .client).attempted.length < 2 ^ 64) &&
        decide ((n.link.ends .server).attempted.length < 2 ^ 64)) = true := by decide +kernel
  obtain ⟨n, hrun, hall⟩ := (Option.any_eq_true _ _).mp hsome
  simp only [Bool.and_eq_true, beq_iff_eq, decide_eq_true_eq] at hall
  obtain ⟨⟨⟨hreceived, hstage⟩, hclient⟩, hserver⟩ := hall
  obtain ⟨payloads, hprefix, hsince, -, -⟩ := dialogue_of_exec Session.lawful_openKx hrun
    (fun r => by cases r <;> assumption) hstage
  exact ⟨n, hrun, hreceived, payloads, hprefix, hsince.session⟩

end Serving

end MailStack.Server
