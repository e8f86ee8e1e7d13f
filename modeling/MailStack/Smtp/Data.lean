import MailStack.Smtp.Server

/-!
# Smtp/Data — the data phase of an SMTP session

Between the 354 answer and the line `"."` every line is message text.  Two guards interfere: a line
over `MAX_SMTP_LINE` is answered 500 and *skipped*, the transaction going on without it; and the
line that takes the body over `MAX_MESSAGE_SIZE` is answered 552 and *ends* the phase, so that the
rest of the message is read as commands.

`exec_data` is the phase while neither ends it: the body grows by `accepted lines`.
-/

open Bytes

namespace MailStack.Smtp

variable {ω : Type*} (repo : Repo ω)

/-- The lines as they are stored, each followed by LF. -/
def joined (lines : List Bytes) : Bytes := lines.flatMap (· ++ lit "\n")

/-- The lines the length guard lets through, as they are stored. -/
def accepted (lines : List Bytes) : Bytes := joined (lines.filter (·.length ≤ maxSmtpLine))

@[simp] theorem joined_nil : joined [] = [] := rfl

theorem joined_cons (l : Bytes) (ls : List Bytes) :
    joined (l :: ls) = l ++ lit "\n" ++ joined ls := rfl

theorem accepted_cons_of_le {l : Bytes} (h : l.length ≤ maxSmtpLine) (ls : List Bytes) :
    accepted (l :: ls) = l ++ lit "\n" ++ accepted ls := by
  rw [accepted, List.filter_cons_of_pos (by simpa using h), joined_cons, accepted]

theorem accepted_cons_of_lt {l : Bytes} (h : maxSmtpLine < l.length) (ls : List Bytes) :
    accepted (l :: ls) = accepted ls := by
  rw [accepted, List.filter_cons_of_neg (by simpa using h), accepted]

/-- The lines that are kept are joined in their order. -/
theorem accepted_append (ls ls' : List Bytes) : accepted (ls ++ ls') = accepted ls ++ accepted ls' := by
  simp [accepted, joined, List.filter_append, List.flatMap_append]

/-- Without a line that is too long, nothing is left out. -/
theorem accepted_eq_joined {ls : List Bytes} (h : ∀ l ∈ ls, l.length ≤ maxSmtpLine) :
    accepted ls = joined ls := by
  rw [accepted, List.filter_eq_self.mpr fun l hl => by simpa using h l hl]

/-- **Nothing is lost exactly when no line is over the limit** — a skipped line leaves at least its
LF missing. -/
theorem accepted_eq_joined_iff {ls : List Bytes} :
    accepted ls = joined ls ↔ ∀ l ∈ ls, l.length ≤ maxSmtpLine := by
  refine ⟨fun h => ?_, accepted_eq_joined⟩
  have hle : ∀ ls : List Bytes, (accepted ls).length ≤ (joined ls).length := by
    intro ls
    induction ls with
    | nil => exact Nat.le_refl _
    | cons l ls ih =>
      by_cases hl : l.length ≤ maxSmtpLine
      · rw [accepted_cons_of_le hl, joined_cons]
        simpa using ih
      · rw [accepted_cons_of_lt (by omega), joined_cons]
        simp only [List.length_append]
        omega
  induction ls with
  | nil => simp
  | cons l ls ih =>
    by_cases hl : l.length ≤ maxSmtpLine
    · rw [accepted_cons_of_le hl, joined_cons] at h
      intro l' hl'
      rcases List.mem_cons.mp hl' with rfl | hl'
      · exact hl
      · exact ih (List.append_cancel_left h) l' hl'
    · rw [accepted_cons_of_lt (by omega), joined_cons] at h
      have h1 := congrArg List.length h
      have h2 := hle ls
      simp only [List.length_append] at h1
      omega

/-! ## One line of data -/

section OneLine

variable {s : SmtpSession} (w : ω) {line : Bytes}

/-- In the body a line goes to `receiveData`. -/
theorem processLine_data (hst : s.state = .receivingData) (hlen : line.length ≤ maxSmtpLine) :
    processLine repo s w line = receiveData repo s w line := by
  simp [processLine, hst, Nat.not_lt.mpr hlen]

/-- A line that is too long is refused in every state. -/
theorem processLine_tooLong (hlen : maxSmtpLine < line.length) :
    processLine repo s w line = ⟨.ok SmtpResponse.syntaxError, s, w, []⟩ := by
  simp [processLine, hlen]

/-- A line that fits is appended. -/
theorem processLine_append (hst : s.state = .receivingData) (hlen : line.length ≤ maxSmtpLine)
    (hdot : line ≠ lit ".") (hfit : (s.body ++ line ++ lit "\n").length ≤ maxMessageSize) :
    processLine repo s w line = ⟨.ok [], { s with body := s.body ++ line ++ lit "\n" }, w, []⟩ := by
  rw [processLine_data repo w hst hlen, receiveData, if_neg hdot]
  simp only [if_neg (Nat.not_lt.mpr hfit)]

/-- A line that does not fit ends the phase. -/
theorem processLine_overflow (hst : s.state = .receivingData) (hlen : line.length ≤ maxSmtpLine)
    (hdot : line ≠ lit ".") (hfit : maxMessageSize < (s.body ++ line ++ lit "\n").length) :
    processLine repo s w line =
      ⟨.ok SmtpResponse.messageTooLarge, { s.resetMessage with state := .waitMail }, w, []⟩ := by
  rw [processLine_data repo w hst hlen, receiveData, if_neg hdot]
  simp only [if_pos hfit]

theorem length_dot_le : (lit ".").length ≤ maxSmtpLine := by decide

/-- The end of data hands over exactly the body. -/
theorem calls_dot (hst : s.state = .receivingData) :
    (processLine repo s w (lit ".")).calls =
      [.saveMessage s.sender s.recipients s.body
        (repo.saveMessage w s.sender s.recipients s.body).1] := by
  rw [processLine_data repo w hst length_dot_le, receiveData, if_pos rfl]
  simp only
  split <;> rfl

/-- The end of data leaves the phase, unless an exception ends the session. -/
theorem state_dot (hst : s.state = .receivingData)
    (hok : (processLine repo s w (lit ".")).reply.isOk = true) :
    (processLine repo s w (lit ".")).session.state = .waitMail := by
  rw [processLine_data repo w hst length_dot_le, receiveData, if_pos rfl] at hok ⊢
  simp only at hok ⊢
  split at hok
  · simp [Except.isOk, Except.toBool] at hok
  · rfl
  · rfl

/-- In the data phase no line is parsed as a command. -/
theorem command_notMem_data (hst : s.state = .receivingData) (l : Bytes) :
    Call.command l ∉ (processLine repo s w line).calls := by
  by_cases hlen : line.length ≤ maxSmtpLine
  · by_cases hdot : line = lit "."
    · rw [hdot, calls_dot repo w hst]
      simp
    · by_cases hfit : (s.body ++ line ++ lit "\n").length ≤ maxMessageSize
      · simp [processLine_append repo w hst hlen hdot hfit]
      · simp [processLine_overflow repo w hst hlen hdot (by omega)]
  · simp [processLine_tooLong repo w (Nat.lt_of_not_le hlen)]

end OneLine

/-- **A 354 answer is the one that begins the data phase.** -/
theorem begins_of_code {s : SmtpSession} {w : ω} {line : Bytes}
    (h : (processLine repo s w line).code = some (lit "354")) :
    s.state ≠ .receivingData ∧ Begins s (processLine repo s w line) := by
  have hst : s.state ≠ .receivingData := by
    intro hst
    by_cases hlen : line.length ≤ maxSmtpLine
    · rw [processLine_data repo w hst hlen, receiveData] at h
      simp only at h
      split_ifs at h
      · split at h
        · exact absurd h (by simp [Outcome.code, Except.toOption])
        · exact absurd (Option.some.inj h) (by decide)
        · exact absurd (Option.some.inj h) (by decide)
      · exact absurd (Option.some.inj h) (by decide)
      · exact absurd (Option.some.inj h) (by decide)
    · rw [processLine_tooLong repo w (Nat.lt_of_not_le hlen)] at h
      exact absurd (Option.some.inj h) (by decide)
  rcases processLine_quiet_or_begins repo hst w line with hq | hb
  · exact absurd h hq.code
  · exact ⟨hst, hb⟩

/-! ## The phase, line after line -/

/-- The connection with a longer body. -/
def Connection.grow (c : Connection ω) (text : Bytes) : Connection ω :=
  { c with session := { c.session with body := c.session.body ++ text } }

/-- Only a connection that no exception ended takes an input. -/
theorem failed_of_serve {c c' : Connection ω} {inp : Input} (h : serve repo c inp = some c') :
    c.failed = false := by
  by_contra hf
  cases inp <;> simp [serve, hf] at h

/-- In the data phase the loop always takes the next line. -/
theorem serve_data {c : Connection ω} (hf : c.failed = false)
    (hst : c.session.state = .receivingData) (line : Bytes) :
    serve repo c (.line line) =
      some ⟨(processLine repo c.session c.world line).session,
        (processLine repo c.session c.world line).world,
        (processLine repo c.session c.world line).calls.reverse ++ c.log,
        !(processLine repo c.session c.world line).reply.isOk⟩ := by
  simp [serve, hf, hst]

/-- A line that is too long leaves the body as it was. -/
theorem serve_tooLong {c : Connection ω} (hf : c.failed = false)
    (hst : c.session.state = .receivingData) {line : Bytes} (hlen : maxSmtpLine < line.length) :
    serve repo c (.line line) = some c := by
  rw [serve_data repo hf hst, processLine_tooLong repo c.world hlen]
  simp [Except.isOk, Except.toBool, ← hf]

/-- A line that fits is added to the body. -/
theorem serve_append {c : Connection ω} (hf : c.failed = false)
    (hst : c.session.state = .receivingData) {line : Bytes} (hlen : line.length ≤ maxSmtpLine)
    (hdot : line ≠ lit ".")
    (hfit : (c.session.body ++ line ++ lit "\n").length ≤ maxMessageSize) :
    serve repo c (.line line) = some (c.grow (line ++ lit "\n")) := by
  rw [serve_data repo hf hst, processLine_append repo c.world hst hlen hdot hfit]
  simp [Except.isOk, Except.toBool, Connection.grow, hf]

/-- A line that does not fit ends the mail. -/
theorem serve_overflow {c : Connection ω} (hf : c.failed = false)
    (hst : c.session.state = .receivingData) {line : Bytes} (hlen : line.length ≤ maxSmtpLine)
    (hdot : line ≠ lit ".")
    (hfit : maxMessageSize < (c.session.body ++ line ++ lit "\n").length) :
    serve repo c (.line line) =
      some { c with session := { c.session.resetMessage with state := .waitMail } } := by
  rw [serve_data repo hf hst, processLine_overflow repo c.world hst hlen hdot hfit]
  simp [Except.isOk, Except.toBool, hf]

/-- **As long as the accepted text fits, the phase goes on and the body grows by it.** -/
theorem exec_data :
    ∀ (lines : List Bytes) (c : Connection ω), c.failed = false →
      c.session.state = .receivingData → lit "." ∉ lines →
      (c.session.body ++ accepted lines).length ≤ maxMessageSize →
      Run.exec (serve repo) c (lines.map .line) = some (c.grow (accepted lines))
  | [], c, _, _, _, _ => by simp [Run.exec, Connection.grow, accepted]
  | l :: ls, c, hf, hst, hdot, hfit => by
      obtain ⟨hl, hls⟩ : lit "." ≠ l ∧ lit "." ∉ ls := by simpa using hdot
      by_cases hlen : l.length ≤ maxSmtpLine
      · rw [accepted_cons_of_le hlen] at hfit ⊢
        have hfit' : (c.session.body ++ l ++ lit "\n").length ≤ maxMessageSize := by
          simp only [List.length_append] at hfit ⊢
          omega
        have hrest := exec_data ls (c.grow (l ++ lit "\n")) hf hst hls
          (by simpa [Connection.grow] using hfit)
        simp only [List.map_cons, Run.exec]
        rw [serve_append repo hf hst hlen (Ne.symm hl) hfit', Option.bind_some, hrest]
        simp [Connection.grow]
      · rw [accepted_cons_of_lt (by omega)] at hfit ⊢
        simp only [List.map_cons, Run.exec]
        rw [serve_tooLong repo hf hst (by omega), Option.bind_some]
        exact exec_data ls c hf hst hls hfit

/-- No line of the run is answered 354. -/
def No354 (c : Connection ω) (inp : Input) : Prop :=
  ∀ line, inp = .line line → (processLine repo c.session c.world line).code ≠ some (lit "354")

/-- **The phase is only entered by a 354 answer.** -/
theorem state_ne_of_along {inputs : List Input} {c c' : Connection ω}
    (hst : c.session.state ≠ .receivingData)
    (hno : Run.Along (serve repo) (No354 repo) c inputs)
    (h : Run.exec (serve repo) c inputs = some c') : c'.session.state ≠ .receivingData := by
  refine Run.exec_invariant_of_along (I := fun c => c.session.state ≠ .receivingData) ?_ hst hno h
  intro c inp c' hst hC hstep
  cases inp with
  | line line =>
    simp only [serve] at hstep
    split_ifs at hstep
    obtain rfl := Option.some.inj hstep
    rcases processLine_quiet_or_begins repo hst c.world line with hq | hb
    · exact hq.state
    · exact absurd hb.code (hC line rfl)
  | upgrade =>
    simp only [serve] at hstep
    split_ifs at hstep
    obtain rfl := Option.some.inj hstep
    simp [SmtpSession.resetToHelo, SmtpSession.resetMessage]

/-- A connection ended by an exception takes no further input. -/
theorem eq_of_exec_failed {inputs : List Input} {c c' : Connection ω} (hf : c.failed = true)
    (h : Run.exec (serve repo) c inputs = some c') : c' = c := by
  cases inputs with
  | nil => exact (Option.some.inj h).symm
  | cons inp inputs =>
    obtain ⟨c₁, h₁, -⟩ := Run.exec_cons_eq_some_iff.mp h
    rw [failed_of_serve repo h₁] at hf
    exact absurd hf (by simp)

/-- **A run that is still in the phase it began in has the accepted text for its body.** The end
of data is the end of the phase, or of the connection. -/
theorem body_of_exec :
    ∀ (lines : List Bytes) (c c' : Connection ω), c.failed = false →
      c.session.state = .receivingData →
      Run.Along (serve repo) (No354 repo) c (lines.map .line) →
      Run.exec (serve repo) c (lines.map .line) = some c' → c'.failed = false →
      c'.session.state = .receivingData → c'.session.body = c.session.body ++ accepted lines
  | [], c, c', _, _, _, h, _, _ => by
      obtain rfl : c = c' := Option.some.inj h
      simp [accepted]
  | l :: ls, c, c', hf, hst, hno, h, hf', hst' => by
      obtain ⟨c₁, h₁, h₂⟩ := Run.exec_cons_eq_some_iff.mp h
      have hno' := hno.2 c₁ h₁
      by_cases hlen : l.length ≤ maxSmtpLine
      · by_cases hdot : l = lit "."
        · exfalso
          subst hdot
          rw [serve_data repo hf hst] at h₁
          obtain rfl := Option.some.inj h₁
          cases hok : (processLine repo c.session c.world (lit ".")).reply.isOk with
          | true =>
            have hleft := state_dot repo c.world hst hok
            exact state_ne_of_along repo (by simp [hleft]) hno' h₂ hst'
          | false =>
            have hsame := eq_of_exec_failed repo (by simp [hok]) h₂
            simp [hsame, hok] at hf'
        · by_cases hfit : (c.session.body ++ l ++ lit "\n").length ≤ maxMessageSize
          · rw [serve_append repo hf hst hlen hdot hfit] at h₁
            obtain rfl := Option.some.inj h₁
            have ih := body_of_exec ls (c.grow (l ++ lit "\n")) c' hf hst hno' h₂ hf' hst'
            rw [ih, accepted_cons_of_le hlen]
            simp [Connection.grow]
          · rw [serve_overflow repo hf hst hlen hdot (by omega)] at h₁
            obtain rfl := Option.some.inj h₁
            exact absurd hst' (state_ne_of_along repo (by simp) hno' h₂)
      · rw [serve_tooLong repo hf hst (by omega)] at h₁
        obtain rfl := Option.some.inj h₁
        rw [accepted_cons_of_lt (by omega)]
        exact body_of_exec ls c c' hf hst hno' h₂ hf' hst'

/-! ## Data and commands are kept apart until the size limit -/

/-- The connection as the 354 answer leaves it: in the data phase, with an empty body. -/
theorem serve_of_code {domain : Bytes} {w : ω} {inputs : List Input} {c c₁ : Connection ω}
    {d : Bytes} (h : Run.exec (serve repo) (Connection.accept domain w) inputs = some c)
    (h354 : (processLine repo c.session c.world d).code = some (lit "354"))
    (hd : serve repo c (.line d) = some c₁) :
    c₁.failed = false ∧ c₁.session.state = .receivingData ∧ c₁.session.body = [] := by
  obtain ⟨hst, hb⟩ := begins_of_code repo h354
  have hinv : Inv c.session c.log :=
    Run.exec_invariant (I := fun c => Inv c.session c.log)
      (fun _ _ _ hs hstep => inv_serve repo hs hstep) (inv_accept domain w) h
  simp only [serve] at hd
  split_ifs at hd
  obtain rfl := Option.some.inj hd
  refine ⟨?_, by simp [hb.session], by simp [hb.session, hinv.body hst]⟩
  have hcode := hb.code
  cases hr : (processLine repo c.session c.world d).reply with
  | error e => simp [Outcome.code, hr, Except.toOption] at hcode
  | ok r => simp [Except.isOk, Except.toBool]

/-- **Data is not commands, up to the size limit.**  After a 354 answer no line is parsed as a
command while the lines before it hold no `"."` and the accepted ones fit in
`MAX_MESSAGE_SIZE`; the one with which they no longer fit is answered 552 and ends the
transaction. -/
theorem command_notMem_of_exec {domain : Bytes} {w : ω} {inputs : List Input}
    {c c₁ c' : Connection ω} {d : Bytes}
    (h : Run.exec (serve repo) (Connection.accept domain w) inputs = some c)
    (h354 : (processLine repo c.session c.world d).code = some (lit "354"))
    (hd : serve repo c (.line d) = some c₁) (lines : List Bytes) (hdot : lit "." ∉ lines)
    (hsize : (accepted lines).length ≤ maxMessageSize)
    (hrun : Run.exec (serve repo) c₁ (lines.map .line) = some c') (line : Bytes) :
    (∀ l, Call.command l ∉ (processLine repo c'.session c'.world line).calls) ∧
      (line ≠ lit "." → line.length ≤ maxSmtpLine →
        maxMessageSize < (accepted (lines ++ [line])).length →
          (processLine repo c'.session c'.world line).code = some (lit "552") ∧
            (processLine repo c'.session c'.world line).session.state = .waitMail) := by
  obtain ⟨hf, hst, hbody⟩ := serve_of_code repo h h354 hd
  rw [exec_data repo lines c₁ hf hst hdot (by simpa [hbody] using hsize)] at hrun
  obtain rfl := Option.some.inj hrun
  refine ⟨command_notMem_data repo (s := (c₁.grow (accepted lines)).session) _ hst,
    fun hline hlen hover => ?_⟩
  have hbody' : (c₁.grow (accepted lines)).session.body ++ line ++ lit "\n" =
      accepted (lines ++ [line]) := by
    rw [accepted_append, accepted_cons_of_le hlen]
    simp [Connection.grow, hbody, accepted]
  have hst' : (c₁.grow (accepted lines)).session.state = .receivingData := hst
  rw [processLine_overflow repo _ hst' hlen hline (by rwa [hbody'])]
  exact ⟨rfl, rfl⟩

/-- The same connection once `DATA` was answered 354. -/
def aliceData : Connection Unit :=
  { aliceConnection with
    session := { aliceConnection.session with state := .receivingData }
    log := .command (lit "DATA") :: aliceConnection.log }

theorem code_aliceConnection :
    (processLine aliceRepo aliceConnection.session () (lit "DATA")).code = some (lit "354") := by
  rfl

theorem serve_aliceConnection :
    serve aliceRepo aliceConnection (.line (lit "DATA")) = some aliceData := by
  rfl

/-- A line of the largest accepted length. -/
def fullLine : Bytes := List.replicate 512 'A'.toUInt8

theorem length_fullLine : fullLine.length = 512 := List.length_replicate

theorem fullLine_ne_dot : fullLine ≠ lit "." := fun h =>
  absurd (congrArg List.length h) (by rw [length_fullLine]; decide)

/-- Lines of full length fill the body at a known rate. -/
theorem length_accepted_replicate (n : Nat) :
    (accepted (List.replicate n fullLine)).length = 513 * n := by
  induction n with
  | zero => rfl
  | succ n ih =>
    rw [List.replicate_succ, accepted_cons_of_le (by rw [length_fullLine]; decide)]
    have hlf : (lit "\n").length = 1 := rfl
    simp only [List.length_append, ih, length_fullLine, hlf]
    omega

/-- 20440 full lines fit, and one more does not. -/
theorem exec_fullLines : Run.exec (serve aliceRepo) aliceData
    ((List.replicate 20440 fullLine).map .line) =
      some (aliceData.grow (accepted (List.replicate 20440 fullLine))) := by
  refine exec_data aliceRepo _ aliceData rfl rfl
    (fun h => fullLine_ne_dot (List.eq_of_mem_replicate h).symm) ?_
  rw [List.length_append, length_accepted_replicate]
  decide

theorem command_notMem_fullLine : ∃ c' : Connection Unit,
    Run.exec (serve aliceRepo) aliceData ((List.replicate 20440 fullLine).map .line) = some c' ∧
      Call.command fullLine ∉ (processLine aliceRepo c'.session c'.world fullLine).calls ∧
      (processLine aliceRepo c'.session c'.world fullLine).code = some (lit "552") := by
  have hlen : fullLine.length ≤ maxSmtpLine := by
    rw [length_fullLine]
    decide
  obtain ⟨hcommand, hover⟩ := command_notMem_of_exec aliceRepo exec_aliceInputs code_aliceConnection
    serve_aliceConnection (List.replicate 20440 fullLine)
    (fun h => fullLine_ne_dot (List.eq_of_mem_replicate h).symm)
    (by rw [length_accepted_replicate]; decide) exec_fullLines fullLine
  refine ⟨_, exec_fullLines, hcommand fullLine, (hover fullLine_ne_dot hlen ?_).1⟩
  rw [accepted_append, List.length_append, length_accepted_replicate, accepted_cons_of_le hlen,
    List.length_append, List.length_append, length_fullLine]
  decide

/-- The connection when a message was given up for its size. -/
def aliceOverflow : Connection Unit :=
  { aliceData with
    session := { aliceConnection.session with state := .waitMail, sender := [], recipients := [] } }

/-- 20441 full lines take a message over the limit. -/
theorem exec_overflow :
    Run.exec (serve aliceRepo) aliceData ((List.replicate 20440 fullLine ++ [fullLine]).map .line) =
      some aliceOverflow := by
  rw [List.map_append, Run.exec_append, exec_fullLines, Option.bind_some]
  have hover : maxMessageSize <
      ((aliceData.grow (accepted (List.replicate 20440 fullLine))).session.body ++ fullLine ++
        lit "\n").length := by
    simp only [Connection.grow, List.length_append, length_accepted_replicate, length_fullLine]
    decide
  simp only [List.map_cons, List.map_nil, Run.exec]
  rw [serve_overflow aliceRepo rfl rfl (by rw [length_fullLine]; decide) fullLine_ne_dot hover]
  rfl

/-- **Past the size limit the text is commands**: the next line of the message is parsed, here
`QUIT`, without any `"."` before it. -/
theorem command_mem_after_overflow :
    ∃ (domain : Bytes) (inputs : List Input) (c c₁ c' : Connection Unit) (d : Bytes)
      (lines : List Bytes),
      Run.exec (serve aliceRepo) (Connection.accept domain ()) inputs = some c ∧
      (processLine aliceRepo c.session c.world d).code = some (lit "354") ∧
      serve aliceRepo c (.line d) = some c₁ ∧
      Run.exec (serve aliceRepo) c₁ (lines.map .line) = some c' ∧ lit "." ∉ lines ∧
      Call.command (lit "QUIT") ∈
        (processLine aliceRepo c'.session c'.world (lit "QUIT")).calls := by
  refine ⟨lit "localhost", aliceInputs, aliceConnection, aliceData, aliceOverflow, lit "DATA",
    List.replicate 20440 fullLine ++ [fullLine], exec_aliceInputs, code_aliceConnection,
    serve_aliceConnection, exec_overflow, ?_, List.mem_cons_self ..⟩
  rw [List.mem_append, List.mem_singleton]
  rintro (h | h)
  · exact fullLine_ne_dot (List.eq_of_mem_replicate h).symm
  · exact fullLine_ne_dot h.symm

/-! ## What a 250 answer to the end of data vouches for -/

/-- **A message is stored whole exactly when none of its lines was over `MAX_SMTP_LINE`.**  The
run goes from the 354 answer to a `"."` answered 250, with no other 354 in between. -/
theorem saved_eq_joined_iff {domain : Bytes} {w : ω} {inputs : List Input}
    {c c₁ c' : Connection ω} {d : Bytes}
    (h : Run.exec (serve repo) (Connection.accept domain w) inputs = some c)
    (h354 : (processLine repo c.session c.world d).code = some (lit "354"))
    (hd : serve repo c (.line d) = some c₁) (lines : List Bytes)
    (hno : Run.Along (serve repo) (No354 repo) c₁ (lines.map .line))
    (hrun : Run.exec (serve repo) c₁ (lines.map .line) = some c') (hf : c'.failed = false)
    (hst : c'.session.state = .receivingData)
    (h250 : (processLine repo c'.session c'.world (lit ".")).code = some (lit "250")) :
    ((processLine repo c'.session c'.world (lit ".")).code = some (lit "250") →
      ∀ sender recipients body r,
        Call.saveMessage sender recipients body r ∈
            (processLine repo c'.session c'.world (lit ".")).calls →
          body = joined lines) ↔
      ∀ l ∈ lines, l.length ≤ maxSmtpLine := by
  obtain ⟨hf₁, hst₁, hbody₁⟩ := serve_of_code repo h h354 hd
  have hbody := body_of_exec repo lines c₁ c' hf₁ hst₁ hno hrun hf hst
  rw [hbody₁, List.nil_append] at hbody
  rw [← accepted_eq_joined_iff, ← hbody, calls_dot repo c'.world hst]
  constructor
  · intro hsaved
    exact hsaved h250 _ _ _ _ (List.mem_singleton.mpr rfl)
  · intro heq _ sender recipients body r hmem
    obtain ⟨-, -, rfl, -⟩ : sender = _ ∧ recipients = _ ∧ body = c'.session.body ∧ r = _ := by
      simpa using hmem
    exact heq

theorem saved_eq_joined_hello :
    (lit "hello").length ≤ maxSmtpLine ∧
      ∀ sender recipients body r,
        Call.saveMessage sender recipients body r ∈ (processLine aliceRepo
            (aliceData.grow (lit "hello\n")).session () (lit ".")).calls →
          body = joined [lit "hello"] := by
  have hno : Run.Along (serve aliceRepo) (No354 aliceRepo) aliceData
      ([lit "hello"].map .line) := by
    refine ⟨?_, fun _ _ => trivial⟩
    rintro line ⟨⟩
    decide
  exact ⟨by decide, (saved_eq_joined_iff aliceRepo exec_aliceInputs code_aliceConnection
    serve_aliceConnection [lit "hello"] hno (by rfl) rfl rfl (by rfl)).mpr (by decide) (by rfl)⟩

/-- **An over-long line is lost silently**: 513 bytes and `"."` are answered 250 although the body
that is stored is empty. -/
theorem saved_ne_joined :
    ∃ (domain : Bytes) (inputs : List Input) (c c₁ c' : Connection Unit) (d : Bytes)
      (lines : List Bytes),
      Run.exec (serve aliceRepo) (Connection.accept domain ()) inputs = some c ∧
      (processLine aliceRepo c.session c.world d).code = some (lit "354") ∧
      serve aliceRepo c (.line d) = some c₁ ∧
      Run.exec (serve aliceRepo) c₁ (lines.map .line) = some c' ∧
      c'.session.state = .receivingData ∧
      (processLine aliceRepo c'.session c'.world (lit ".")).code = some (lit "250") ∧
      ∃ sender recipients body r,
        Call.saveMessage sender recipients body r ∈
            (processLine aliceRepo c'.session c'.world (lit ".")).calls ∧
          body ≠ joined lines := by
  have hlong : maxSmtpLine < ('A'.toUInt8 :: fullLine).length := by
    rw [List.length_cons, length_fullLine]
    decide
  refine ⟨lit "localhost", aliceInputs, aliceConnection, aliceData, aliceData, lit "DATA",
    ['A'.toUInt8 :: fullLine], exec_aliceInputs, code_aliceConnection, serve_aliceConnection, ?_,
    rfl, by rfl, lit "alice", [lit "bob"], [], .ok true, List.mem_cons_self ..,
    by simp [joined_cons]⟩
  simp only [List.map_cons, List.map_nil, Run.exec]
  rw [serve_tooLong aliceRepo rfl rfl hlong, Option.bind_some]

end MailStack.Smtp
