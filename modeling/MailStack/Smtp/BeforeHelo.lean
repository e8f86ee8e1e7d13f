import Mathlib.Data.List.Induction
import MailStack.Smtp.Data

/-!
# Smtp/BeforeHelo — what a session answers before it was greeted

Nothing records that a session was greeted.  That `STARTTLS`, `AUTH` and `MAIL` are refused before
`HELO` rests on `WAIT_HELO` having no other way out, and `RSET` is one: it leads to `WAIT_MAIL` from
every state.  So the refusal lasts exactly as long as no `RSET` is processed: `silent_iff`.
-/

open Bytes

namespace MailStack.Smtp

section BeforeHelo

variable {ω : Type*} (repo : Repo ω)

/-- A session just made, or just reset. -/
def Initial (s : SmtpSession) : Prop := (∃ domain, s = { domain }) ∨ ∃ s₀ : SmtpSession, s = s₀.resetToHelo

/-- One more line, whatever came before it. -/
def feed (c : Connection ω) (line : Bytes) : Connection ω :=
  let out := processLine repo c.session c.world line
  ⟨out.session, out.world, out.calls.reverse ++ c.log, !out.reply.isOk⟩

/-- The lines one after the other. -/
def feedAll (s : SmtpSession) (w : ω) (lines : List Bytes) : Connection ω :=
  lines.foldl (feed repo) ⟨s, w, [], false⟩

theorem feedAll_concat (s : SmtpSession) (w : ω) (lines : List Bytes) (line : Bytes) :
    feedAll repo s w (lines ++ [line]) = feed repo (feedAll repo s w lines) line :=
  List.foldl_concat ..

/-- A line that was parsed as `RSET`. -/
def Call.isRset : Call → Bool
  | .command line => (parse line).type = .rset
  | _ => false

/-- The line is a `STARTTLS`, `AUTH` or `MAIL` command, and is answered with a 2xx or 3xx code. -/
def Outcome.Grants (out : Outcome ω) (line : Bytes) : Prop :=
  .command line ∈ out.calls ∧ (parse line).type ∈ [.starttls, .auth, .mail] ∧
    ∃ code, out.code = some code ∧
      (code.head? = some '2'.toUInt8 ∨ code.head? = some '3'.toUInt8)

/-- After none of the lines such a command would be granted. -/
def Silent (s : SmtpSession) (w : ω) (lines : List Bytes) : Prop :=
  ∀ before, before <+: lines → ∀ line,
    ¬ (processLine repo (feedAll repo s w before).session (feedAll repo s w before).world
      line).Grants line

/-- Not greeted, or closed without having been. -/
def Ungreeted (s : SmtpSession) : Prop := s.state = .waitHelo ∨ s.state = .closed

theorem Initial.ungreeted {s : SmtpSession} (h : Initial s) : Ungreeted s := by
  rcases h with ⟨domain, rfl⟩ | ⟨s₀, rfl⟩ <;> exact .inl rfl

variable {s : SmtpSession}

theorem Ungreeted.ne_waitMail (h : Ungreeted s) : s.state ≠ .waitMail := by
  rcases h with h | h <;> simp [h]

/-- An ungreeted session processes every line as a command, if it is not too long. -/
theorem Ungreeted.processLine (h : Ungreeted s) (w : ω) (line : Bytes) :
    processLine repo s w line = ⟨.ok SmtpResponse.syntaxError, s, w, []⟩ ∨
      processLine repo s w line =
        { handleCommand repo s w (parse line) with
          calls := .command line :: (handleCommand repo s w (parse line)).calls } := by
  unfold Smtp.processLine
  split_ifs with hlong hdialogue hdata
  · exact .inl rfl
  · rcases h with h | h <;> simp [h] at hdialogue
  · rcases h with h | h <;> simp [h] at hdata
  · exact .inr rfl

/-- **An ungreeted session refuses** `STARTTLS`, `AUTH` and `MAIL`. -/
theorem Ungreeted.not_grants (h : Ungreeted s) (w : ω) (line : Bytes) :
    ¬ (Smtp.processLine repo s w line).Grants line := by
  rintro ⟨hcall, htype, code, hcode, hdigit⟩
  have hbad : handleCommand repo s w (parse line) = ⟨.ok SmtpResponse.badSequence, s, w, []⟩ := by
    unfold handleCommand
    simp only [List.mem_cons, List.not_mem_nil, or_false] at htype
    rcases htype with htype | htype | htype
    · rw [htype, SmtpSession.handleStartTLS, if_pos h.ne_waitMail]
    · rw [htype, handleAuth, if_pos h.ne_waitMail]
    · rw [htype, SmtpSession.handleMail, if_pos h.ne_waitMail]
  rcases h.processLine repo w line with heq | heq
  · rw [heq] at hcall
    exact absurd hcall List.not_mem_nil
  · rw [heq, hbad] at hcode
    obtain rfl := Option.some.inj hcode
    rcases hdigit with hdigit | hdigit <;> exact absurd hdigit (by decide)

/-- **Only `HELO`, `EHLO` and `RSET` lead out of being ungreeted.** -/
theorem Ungreeted.step (h : Ungreeted s) (w : ω) (line : Bytes)
    (hhelo : ∀ c ∈ (Smtp.processLine repo s w line).calls, c.isHelo = false)
    (hrset : ∀ c ∈ (Smtp.processLine repo s w line).calls, c.isRset = false) :
    Ungreeted (Smtp.processLine repo s w line).session := by
  rcases h.processLine repo w line with heq | heq
  · rw [heq]
    exact h
  · rw [heq] at hhelo hrset ⊢
    have hhelo := hhelo _ List.mem_cons_self
    have hrset := hrset _ List.mem_cons_self
    simp only [Call.isHelo, Bool.or_eq_false_iff, decide_eq_false_iff_not] at hhelo
    simp only [Call.isRset, decide_eq_false_iff_not] at hrset
    have hrcpt : s.state ≠ .waitRcpt := by rcases h with h | h <;> simp [h]
    dsimp only
    unfold handleCommand
    cases htype : (parse line).type with
    | helo => exact absurd htype hhelo.1
    | ehlo => exact absurd htype hhelo.2
    | rset => exact absurd htype hrset
    | auth =>
      dsimp only
      rw [handleAuth, if_pos h.ne_waitMail]
      exact h
    | mail =>
      dsimp only
      rw [SmtpSession.handleMail, if_pos h.ne_waitMail]
      exact h
    | starttls =>
      dsimp only
      rw [SmtpSession.handleStartTLS, if_pos h.ne_waitMail]
      exact h
    | rcpt =>
      dsimp only
      rw [SmtpSession.handleRcpt, if_pos hrcpt]
      exact h
    | data =>
      dsimp only
      rw [SmtpSession.handleData, if_pos (.inl hrcpt)]
      exact h
    | noop | unknown => exact h
    | quit => exact .inr rfl

/-- A session stays ungreeted as long as it processes neither. -/
theorem ungreeted_feedAll (hs : Initial s) (w : ω) {lines : List Bytes}
    (hhelo : ∀ c ∈ (feedAll repo s w lines).log, c.isHelo = false)
    (hrset : ∀ c ∈ (feedAll repo s w lines).log, c.isRset = false) :
    Ungreeted (feedAll repo s w lines).session := by
  induction lines using List.reverseRecOn with
  | nil => exact hs.ungreeted
  | append_singleton lines line ih =>
    rw [feedAll_concat] at hhelo hrset ⊢
    simp only [feed, List.forall_mem_append, List.mem_reverse] at hhelo hrset
    exact (ih hhelo.2 hrset.2).step repo _ line hhelo.1 hrset.1

theorem log_feedAll_mono (w : ω) {before lines : List Bytes} (h : before <+: lines) {c : Call}
    (hc : c ∈ (feedAll repo s w before).log) : c ∈ (feedAll repo s w lines).log := by
  obtain ⟨rest, rfl⟩ := h
  induction rest using List.reverseRecOn with
  | nil => rwa [List.append_nil]
  | append_singleton rest line ih =>
    rw [← List.append_assoc, feedAll_concat]
    exact List.mem_append_right _ ih

theorem notMem_command_authorizeAs (s : SmtpSession) (w : ω) (u p line : Bytes) :
    Call.command line ∉ (authorizeAs repo s w u p).calls := by
  rcases authorizeAs_cases repo s w u p with ⟨w', heq⟩ | ⟨w', heq⟩ <;> simp [heq]

theorem notMem_command_handleAuth (s : SmtpSession) (w : ω) (command : SmtpCommand)
    (line : Bytes) : Call.command line ∉ (handleAuth repo s w command).calls := by
  rcases handleAuth_cases repo s w command with
    ⟨r, -, heq⟩ | ⟨-, -, ⟨r, st, -, -, heq⟩ | ⟨u, p, heq⟩⟩
  · rw [heq]
    exact List.not_mem_nil
  · rw [heq]
    exact List.not_mem_nil
  · rw [heq]
    exact notMem_command_authorizeAs repo s w u p line

theorem notMem_command_handleAuthLine (s : SmtpSession) (w : ω) (line line' : Bytes) :
    Call.command line' ∉ (handleAuthLine repo s w line).calls := by
  rcases handleAuthLine_cases repo s w line with
    ⟨r, -, heq⟩ | ⟨r, name, -, heq⟩ | ⟨r, -, heq⟩ | ⟨u, p, heq⟩
  · rw [heq]
    exact List.not_mem_nil
  · rw [heq]
    exact List.not_mem_nil
  · rw [heq]
    exact List.not_mem_nil
  · rw [heq]
    exact notMem_command_authorizeAs repo _ w u p line'

/-- **`RSET` leads to `WAIT_MAIL`**, from every state in which it is processed. -/
theorem state_of_rset {w : ω} {line : Bytes} {c : Call}
    (hc : c ∈ (Smtp.processLine repo s w line).calls) (hrset : c.isRset = true) :
    (Smtp.processLine repo s w line).session.state = .waitMail := by
  obtain ⟨l, rfl⟩ : ∃ l, c = .command l := by
    cases c with
    | command l => exact ⟨l, rfl⟩
    | authorize | saveMessage => exact absurd hrset (by simp [Call.isRset])
  simp only [Call.isRset, decide_eq_true_eq] at hrset
  have hst : s.state ≠ .receivingData := fun hst => command_notMem_data repo w hst l hc
  unfold Smtp.processLine at hc ⊢
  rw [if_neg hst] at hc ⊢
  split_ifs at hc ⊢
  · exact absurd hc List.not_mem_nil
  · exact absurd hc (notMem_command_handleAuthLine repo s w line l)
  · rcases List.mem_cons.mp hc with heq | hc
    · obtain rfl := Call.command.inj heq
      dsimp only
      rw [handleCommand, hrset]
      rfl
    · unfold handleCommand at hc
      cases htype : (parse line).type <;> rw [htype] at hc
      case auth => exact absurd hc (notMem_command_handleAuth repo s w _ l)
      all_goals exact absurd hc List.not_mem_nil

/-- A processed `RSET` is behind a line that leaves the session in `WAIT_MAIL`. -/
theorem exists_rset (w : ω) {lines : List Bytes} {c : Call}
    (hc : c ∈ (feedAll repo s w lines).log) (hrset : c.isRset = true) :
    ∃ before, before <+: lines ∧ (feedAll repo s w before).session.state = .waitMail := by
  induction lines using List.reverseRecOn with
  | nil => exact absurd hc List.not_mem_nil
  | append_singleton lines line ih =>
    rw [feedAll_concat] at hc
    rcases List.mem_append.mp hc with hc | hc
    · refine ⟨lines ++ [line], List.prefix_rfl, ?_⟩
      rw [feedAll_concat]
      exact state_of_rset repo (List.mem_reverse.mp hc) hrset
    · obtain ⟨before, hpre, hstate⟩ := ih hc
      exact ⟨before, hpre.trans (List.prefix_append _ _), hstate⟩

/-- In `WAIT_MAIL`, `STARTTLS` is granted. -/
theorem grants_starttls (hs : s.state = .waitMail) (w : ω) :
    (processLine repo s w (lit "STARTTLS")).Grants (lit "STARTTLS") := by
  have hparse : parse (lit "STARTTLS") = { type := .starttls } := by decide
  have hline : processLine repo s w (lit "STARTTLS") =
      ⟨.ok SmtpResponse.startTls, { s with state := .starttls }, w,
        [.command (lit "STARTTLS")]⟩ := by
    rw [processLine, if_neg (by decide), if_neg (by simp [hs]), if_neg (by simp [hs]), hparse,
      handleCommand]
    dsimp only
    rw [SmtpSession.handleStartTLS, if_neg (not_not_intro hs)]
  rw [hline]
  refine ⟨List.mem_singleton_self _, ?_, lit "220", rfl, .inl (by decide)⟩
  rw [hparse]
  exact List.mem_cons_self

/-- **Before `HELO` nothing is granted, exactly as long as no `RSET` is processed.** -/
theorem silent_iff (hs : Initial s) (w : ω) {lines : List Bytes}
    (hhelo : ∀ c ∈ (feedAll repo s w lines).log, c.isHelo = false) :
    Silent repo s w lines ↔ ∀ c ∈ (feedAll repo s w lines).log, c.isRset = false := by
  constructor
  · intro hsilent c hc
    rw [Bool.eq_false_iff]
    intro hrset
    obtain ⟨before, hpre, hstate⟩ := exists_rset repo w hc hrset
    exact hsilent before hpre (lit "STARTTLS") (grants_starttls repo hstate _)
  · intro hrset before hpre line
    have hungreeted := ungreeted_feedAll repo hs w
      (fun c hc => hhelo c (log_feedAll_mono repo w hpre hc))
      (fun c hc => hrset c (log_feedAll_mono repo w hpre hc))
    exact hungreeted.not_grants repo _ line

theorem silent_iff_noop :
    Silent aliceRepo { domain := lit "localhost" } () [lit "NOOP", lit "QUIT"] ↔
      ∀ c ∈ (feedAll aliceRepo { domain := lit "localhost" } () [lit "NOOP", lit "QUIT"]).log,
        c.isRset = false :=
  silent_iff aliceRepo (.inl ⟨_, rfl⟩) () (by decide)

/-- **`RSET`, then `STARTTLS`**: the second is answered 220, and there was no greeting. -/
theorem not_silent_rset :
    Initial { domain := lit "localhost" } ∧
      (∀ c ∈ (feedAll aliceRepo { domain := lit "localhost" } () [lit "RSET"]).log,
        c.isHelo = false) ∧
      (processLine aliceRepo
        (feedAll aliceRepo { domain := lit "localhost" } () [lit "RSET"]).session ()
        (lit "STARTTLS")).code = some (lit "220") ∧
      ¬ Silent aliceRepo { domain := lit "localhost" } () [lit "RSET"] := by
  refine ⟨.inl ⟨_, rfl⟩, by decide, by decide, fun h => ?_⟩
  exact h [lit "RSET"] List.prefix_rfl (lit "STARTTLS") (grants_starttls aliceRepo rfl ())

end BeforeHelo

end MailStack.Smtp
