import MailStack.Base64.Format
import MailStack.Smtp.Auth
import MailStack.Smtp.Data
import MailStack.Smtp.SaveMessage

/-!
# Smtp/Refusal — what is answered to `AUTH` data that is not base64

Both handlers of `AUTH` data refuse a text that decodes to nothing.  The decoder never does that, it
throws; so a text it does not take is not refused, it ends the session.  What it takes although it
is not padded base64 is treated as credentials.  `answers_iff` says for which lines `ProcessLine`
answers as it should.
-/

open Bytes

namespace MailStack.Smtp

section Refusal

variable {ω : Type*} (repo : Repo ω) {s : SmtpSession} {w : ω} {line text : Bytes}

/-! ## The text that is to be base64 -/

/-- The next line belongs to an `AUTH` dialogue. -/
abbrev InDialogue (s : SmtpSession) : Prop := s.state = .authWaitUser ∨ s.state = .authWaitPass

/-- The mechanism of an `AUTH` command and the initial response, which may be empty. -/
def mechanism (command : SmtpCommand) : Bytes × Bytes :=
  (cut ' '.toUInt8 command.argument).getD (command.argument, [])

/-- The line carries an initial response of `AUTH PLAIN`. -/
def CarriesResponse (s : SmtpSession) (line : Bytes) : Prop :=
  Ready s ∧ (parse line).type = .auth ∧ (mechanism (parse line)).1 = lit "PLAIN" ∧
    (mechanism (parse line)).2 ≠ []

/-- The text is one that `AUTH` expects in base64: a line of a dialogue, or an initial response. -/
inductive AuthText (s : SmtpSession) (line : Bytes) : Bytes → Prop
  | line (h : InDialogue s) : AuthText s line line
  | response (h : CarriesResponse s line) : AuthText s line (mechanism (parse line)).2

/-- The answer 535, and back to `WAIT_MAIL` with nothing left of the dialogue. -/
structure Refuses (out : Outcome ω) : Prop where
  reply : out.reply = .ok SmtpResponse.authFailed
  state : out.session.state = .waitMail
  fresh : out.session.authenticated = false
  name : out.session.authUsername = []

/-- **`ProcessLine` answers the line, and refuses what is not base64.** -/
def Answers (s : SmtpSession) (w : ω) (line : Bytes) : Prop :=
  (∃ reply, (processLine repo s w line).reply = .ok reply) ∧
    ∀ text, AuthText s line text → ¬ Base64.WellFormed text → Refuses (processLine repo s w line)

/-- The credentials in a decoded text: a password where a name is kept, and otherwise both. -/
def credentials (s : SmtpSession) (decoded : Bytes) : Option (Bytes × Bytes) :=
  if s.state = .authWaitPass ∧ s.authUsername ≠ [] then some (s.authUsername, decoded)
  else (splitPlain decoded).map fun p => (extractUsername p.1, p.2)

/-- The text is not the name of a `LOGIN`, and what it decodes to are no valid credentials. -/
def Rejected (s : SmtpSession) (w : ω) (text : Bytes) : Prop :=
  s.state ≠ .authWaitUser ∧ ∃ decoded, Base64.decodeBase64 text = .ok decoded ∧
    ∀ p ∈ credentials s decoded, (repo.authorize w p.1 p.2).1 = false

/-! ## One line -/

/-- What is known of a session between two lines. -/
structure Settled (s : SmtpSession) : Prop where
  between : Between s
  fresh : InDialogue s → s.authenticated = false

theorem processLine_dialogue (hs : InDialogue s) (w : ω) (hlen : line.length ≤ maxSmtpLine) :
    processLine repo s w line = handleAuthLine repo s w line := by
  rw [processLine, if_neg (Nat.not_lt.mpr hlen), if_pos hs]

theorem CarriesResponse.not_inDialogue (h : CarriesResponse s line) : ¬ InDialogue s := by
  rintro (hs | hs) <;> exact nomatch hs.symm.trans h.1.state

theorem AuthText.unique {text' : Bytes} (h : AuthText s line text) (h' : AuthText s line text') :
    text' = text := by
  cases h with
  | line hs =>
    cases h' with
    | line _ => rfl
    | response hc => exact absurd hs hc.not_inDialogue
  | response hc =>
    cases h' with
    | line hs => exact absurd hs hc.not_inDialogue
    | response _ => rfl

theorem refuses_withCalls {out : Outcome ω} {calls : List Call} :
    Refuses { out with calls } ↔ Refuses out :=
  ⟨fun h => ⟨h.reply, h.state, h.fresh, h.name⟩, fun h => ⟨h.reply, h.state, h.fresh, h.name⟩⟩

/-- Credentials for a session that is back in `WAIT_MAIL`. -/
theorem refuses_authorizeAs_iff (hstate : s.state = .waitMail) (hfresh : s.authenticated = false)
    (hname : s.authUsername = []) (username password : Bytes) :
    Refuses (authorizeAs repo s w username password) ↔
      (repo.authorize w username password).1 = false := by
  have hdiff : SmtpResponse.authSucceeded ≠ SmtpResponse.authFailed := by decide
  rw [authorizeAs]
  split
  · rename_i w' hgranted
    rw [hgranted]
    exact iff_of_false (fun h => hdiff (Except.ok.inj h.reply)) Bool.noConfusion
  · rename_i w' hdenied
    rw [hdenied]
    exact iff_of_true ⟨rfl, hstate, hfresh, hname⟩ rfl

theorem exists_reply_authorizeAs (s : SmtpSession) (w : ω) (username password : Bytes) :
    ∃ reply, (authorizeAs repo s w username password).reply = .ok reply := by
  rcases authorizeAs_cases repo s w username password with ⟨w', h⟩ | ⟨w', h⟩
  · exact ⟨_, congrArg Outcome.reply h⟩
  · exact ⟨_, congrArg Outcome.reply h⟩

/-- An initial response, and what becomes of it. -/
theorem handleAuth_response (h : CarriesResponse s line) (w : ω) :
    handleAuth repo s w (parse line) =
      match Base64.decodeBase64 (mechanism (parse line)).2 with
      | .error e => ⟨.error e, s, w, []⟩
      | .ok decoded =>
        match splitPlain decoded with
        | none => ⟨.ok SmtpResponse.authFailed, s, w, []⟩
        | some (user, password) => authorizeAs repo s w (extractUsername user) password := by
  obtain ⟨hs, -, hplain, hne⟩ := h
  have hlogin : ¬ lit "PLAIN" = lit "LOGIN" := by decide
  rw [mechanism] at hplain hne
  rw [handleAuth, if_neg (not_not_intro hs.state), if_neg (by simp [hs.fresh]),
    if_neg (not_not_intro hs.secure), mechanism]
  exact (if_neg fun h => hlogin (hplain.symm.trans h)).trans ((if_pos hplain).trans (if_neg hne))

/-- **What becomes of a text of `AUTH`**: an exception, or an answer, and that is the refusal exactly
for the texts that are no valid credentials. -/
theorem processLine_authText (hs : Settled s) (htext : AuthText s line text)
    (hlen : line.length ≤ maxSmtpLine) (w : ω) :
    (∃ e, Base64.decodeBase64 text = .error e ∧ (processLine repo s w line).reply = .error e) ∨
      ∃ decoded, Base64.decodeBase64 text = .ok decoded ∧
        (∃ reply, (processLine repo s w line).reply = .ok reply) ∧
        (text ≠ [] → (Refuses (processLine repo s w line) ↔ Rejected repo s w text)) := by
  cases hdecode : Base64.decodeBase64 text with
  | error e =>
    refine .inl ⟨e, rfl, ?_⟩
    cases htext with
    | line hd => rw [processLine_dialogue repo hd w hlen, handleAuthLine, hdecode]
    | response hc =>
      rw [processLine_command repo hlen hc.1.state, handleCommand, hc.2.1]
      dsimp only
      rw [handleAuth_response repo hc, hdecode]
  | ok decoded =>
    refine .inr ⟨decoded, rfl, ?_⟩
    have hrejected : Rejected repo s w text ↔ s.state ≠ .authWaitUser ∧
        ∀ p ∈ credentials s decoded, (repo.authorize w p.1 p.2).1 = false := by
      rw [Rejected, hdecode]
      constructor
      · rintro ⟨hstate, decoded', heq, hall⟩
        obtain rfl := Except.ok.inj heq
        exact ⟨hstate, hall⟩
      · exact fun h => ⟨h.1, decoded, rfl, h.2⟩
    cases htext with
    | line hd =>
      have hfresh := hs.fresh hd
      rw [processLine_dialogue repo hd w hlen, handleAuthLine, hdecode]
      dsimp only
      split_ifs with hempty huser hpass hname
      · exact ⟨⟨_, rfl⟩, fun hne => absurd (Base64.eq_nil_of_decodeBase64 (hempty.1 ▸ hdecode)) hne⟩
      · exact ⟨⟨_, rfl⟩, fun _ => iff_of_false (fun h => by cases h.state)
          fun h => (hrejected.mp h).1 huser⟩
      · have hcredentials : credentials s decoded =
            (splitPlain decoded).map fun p => (extractUsername p.1, p.2) :=
          if_neg fun h => h.2 hname
        rw [hrejected, hcredentials]
        cases splitPlain decoded with
        | none =>
          exact ⟨⟨_, rfl⟩, fun _ => iff_of_true ⟨rfl, rfl, hfresh, hname⟩ ⟨huser, by simp⟩⟩
        | some p =>
          refine ⟨exists_reply_authorizeAs repo _ _ _ _, fun _ => ?_⟩
          have hdenied := refuses_authorizeAs_iff repo (s := { s with state := .waitMail }) (w := w)
            rfl hfresh hname (extractUsername p.1) p.2
          simpa [huser] using hdenied
      · have hcredentials : credentials s decoded = some (s.authUsername, decoded) :=
          if_pos ⟨hpass, hname⟩
        rw [hrejected, hcredentials]
        refine ⟨exists_reply_authorizeAs repo _ _ _ _, fun _ => ?_⟩
        have hdenied := refuses_authorizeAs_iff repo
          (s := { s with state := .waitMail, authUsername := [] }) (w := w) rfl hfresh rfl
          s.authUsername decoded
        simpa [huser] using hdenied
      · exact absurd (hd.resolve_left huser) hpass
    | response hc =>
      have hname : s.authUsername = [] := hs.between.resolve_right fun h => by
        cases h.symm.trans hc.1.state
      have huser : s.state ≠ .authWaitUser := fun h => hc.not_inDialogue (.inl h)
      have hcredentials : credentials s decoded =
          (splitPlain decoded).map fun p => (extractUsername p.1, p.2) :=
        if_neg fun h => h.2 hname
      rw [processLine_command repo hlen hc.1.state, handleCommand, hc.2.1]
      dsimp only
      rw [handleAuth_response repo hc, hdecode]
      dsimp only
      rw [hrejected, hcredentials]
      cases splitPlain decoded with
      | none =>
        exact ⟨⟨_, rfl⟩, fun _ =>
          iff_of_true ⟨rfl, hc.1.state, hc.1.fresh, hname⟩ ⟨huser, by simp⟩⟩
      | some p =>
        refine ⟨exists_reply_authorizeAs repo _ _ _ _, fun _ => ?_⟩
        have hdenied := refuses_authorizeAs_iff repo (w := w) hc.1.state hc.1.fresh hname
          (extractUsername p.1) p.2
        rw [refuses_withCalls]
        simpa [huser] using hdenied

/-- Storing a message throws nothing. -/
def Stores (repo : Repo ω) : Prop :=
  ∀ w sender recipients body, ∃ saved, (repo.saveMessage w sender recipients body).1 = .ok saved

/-- An `AUTH` command without initial response, or out of place, is answered. -/
theorem exists_reply_handleAuth (hauth : (parse line).type = .auth) (h : ¬ CarriesResponse s line)
    (w : ω) : ∃ reply, (handleAuth repo s w (parse line)).reply = .ok reply := by
  rw [handleAuth]
  split_ifs with hstate hauthenticated hsecure
  · exact ⟨_, rfl⟩
  · exact ⟨_, rfl⟩
  · dsimp only
    split_ifs with hlogin hplain hempty
    · exact ⟨_, rfl⟩
    · exact ⟨_, rfl⟩
    · have hs : Ready s := ⟨not_not.mp hstate, by simpa using hauthenticated, hsecure⟩
      exact absurd ⟨hs, hauth, hplain, hempty⟩ h
    · exact ⟨_, rfl⟩
  · exact ⟨_, rfl⟩

/-- **A line without data for `AUTH` is answered.** -/
theorem exists_reply_of_not_authText (hstores : Stores repo) (h : ∀ text, ¬ AuthText s line text)
    (w : ω) : ∃ reply, (processLine repo s w line).reply = .ok reply := by
  rw [processLine]
  split_ifs with hlong hd hdata
  · exact ⟨_, rfl⟩
  · exact absurd (.line hd) (h line)
  · rw [receiveData]
    dsimp only
    split_ifs
    · obtain ⟨saved, hsaved⟩ := hstores w s.sender s.recipients s.body
      rw [hsaved]
      cases saved <;> exact ⟨_, rfl⟩
    · exact ⟨_, rfl⟩
    · exact ⟨_, rfl⟩
  · dsimp only
    rw [handleCommand]
    cases htype : (parse line).type with
    | auth => exact exists_reply_handleAuth repo htype (fun hc => h _ (.response hc)) w
    | _ => exact ⟨_, rfl⟩

/-- **Which lines are answered as they should be**, in a session between two lines. -/
theorem answers_iff_of_settled (hstores : Stores repo) (hs : Settled s) (w : ω) (line : Bytes) :
    Answers repo s w line ↔ ∀ text, AuthText s line text → Base64.WellFormed text ∨
      line.length ≤ maxSmtpLine ∧ Rejected repo s w text := by
  by_cases htext : ∃ text, AuthText s line text
  · obtain ⟨text, htext⟩ := htext
    have hall : (∀ text, AuthText s line text → Base64.WellFormed text ∨
        line.length ≤ maxSmtpLine ∧ Rejected repo s w text) ↔
        Base64.WellFormed text ∨ line.length ≤ maxSmtpLine ∧ Rejected repo s w text :=
      ⟨fun h => h text htext, fun h text' htext' => htext.unique htext' ▸ h⟩
    have hanswers : Answers repo s w line ↔
        (∃ reply, (processLine repo s w line).reply = .ok reply) ∧
          (Base64.WellFormed text ∨ Refuses (processLine repo s w line)) := by
      refine and_congr_right fun _ => ⟨fun h => or_iff_not_imp_left.mpr (h text htext), ?_⟩
      exact fun h text' htext' hnot => h.resolve_left (htext.unique htext' ▸ hnot)
    rw [hall, hanswers]
    rcases Nat.lt_or_ge maxSmtpLine line.length with hlong | hlen
    · have hsyntax : SmtpResponse.syntaxError ≠ SmtpResponse.authFailed := by decide
      rw [processLine_tooLong repo w hlong]
      refine ⟨fun h => h.2.imp_right fun hr => absurd (Except.ok.inj hr.reply) hsyntax, fun h => ?_⟩
      exact ⟨⟨_, rfl⟩, h.imp_right fun hr => absurd hr.1 (Nat.not_le.mpr hlong)⟩
    · rcases processLine_authText repo hs htext hlen w with
        ⟨e, hdecode, hreply⟩ | ⟨decoded, hdecode, hreply, hrefuses⟩
      · refine iff_of_false ?_ ?_
        · rintro ⟨⟨reply, hok⟩, -⟩
          exact nomatch hok.symm.trans hreply
        · rintro (hformed | ⟨-, -, decoded, hok, -⟩)
          · obtain ⟨data, hok⟩ := hformed.decodes
            exact nomatch hok.symm.trans hdecode
          · exact nomatch hok.symm.trans hdecode
      · rcases eq_or_ne text [] with rfl | hne
        · exact iff_of_true ⟨hreply, .inl Base64.wellFormed_nil⟩ (.inl Base64.wellFormed_nil)
        · rw [hrefuses hne, and_iff_right hreply, and_iff_right hlen]
  · have hnone : ∀ text, ¬ AuthText s line text := not_exists.mp htext
    exact iff_of_true ⟨exists_reply_of_not_authText repo hstores hnone w,
      fun text h => absurd h (hnone text)⟩ fun text h => absurd h (hnone text)

/-! ## Every session there is -/

theorem state_authorizeAs (s : SmtpSession) (w : ω) (username password : Bytes) :
    (authorizeAs repo s w username password).session.state = s.state := by
  unfold authorizeAs
  split <;> rfl

/-- `AUTH` begins a dialogue only with a session that is not authenticated. -/
theorem fresh_handleAuth (hout : ¬ InDialogue s) (w : ω) (command : SmtpCommand)
    (hin : InDialogue (handleAuth repo s w command).session) :
    (handleAuth repo s w command).session.authenticated = false := by
  cases hfresh : s.authenticated with
  | true =>
    have hsame : (handleAuth repo s w command).session = s := by
      rw [handleAuth, if_pos hfresh]
      split <;> rfl
    exact absurd (hsame ▸ hin) hout
  | false =>
    rcases handleAuth_cases repo s w command with
      ⟨r, -, heq⟩ | ⟨-, -, ⟨r, st, -, -, heq⟩ | ⟨u, p, heq⟩⟩
    · rw [heq]
      exact hfresh
    · rw [heq]
      exact hfresh
    · rw [heq, InDialogue, state_authorizeAs] at hin
      exact absurd hin hout

/-- No other command begins one. -/
theorem fresh_handleCommand (hout : ¬ InDialogue s) (w : ω) (command : SmtpCommand)
    (hin : InDialogue (handleCommand repo s w command).session) :
    (handleCommand repo s w command).session.authenticated = false := by
  have hnot : ∀ {s' : SmtpSession}, InDialogue s' → ¬ InDialogue s' → s'.authenticated = false :=
    fun h h' => absurd h h'
  unfold handleCommand at hin ⊢
  cases htype : command.type with
  | auth =>
    simp only [htype] at hin ⊢
    exact fresh_handleAuth repo hout w command hin
  | helo | ehlo | rset | quit =>
    simp only [htype] at hin
    rcases hin with hin | hin <;> exact nomatch hin
  | mail =>
    simp only [htype] at hin ⊢
    unfold SmtpSession.handleMail at hin ⊢
    split_ifs at hin ⊢
    · exact absurd hin hout
    · rcases hin with hin | hin <;> exact nomatch hin
    · exact absurd hin hout
  | rcpt =>
    simp only [htype] at hin ⊢
    unfold SmtpSession.handleRcpt at hin ⊢
    split_ifs at hin ⊢
    · exact absurd hin hout
    · exact absurd hin hout
  | data =>
    simp only [htype] at hin ⊢
    unfold SmtpSession.handleData at hin ⊢
    split_ifs at hin ⊢
    · exact absurd hin hout
    · rcases hin with hin | hin <;> exact nomatch hin
  | starttls =>
    simp only [htype] at hin ⊢
    unfold SmtpSession.handleStartTLS at hin ⊢
    split_ifs at hin ⊢
    · exact absurd hin hout
    · rcases hin with hin | hin <;> exact nomatch hin
  | noop | unknown =>
    simp only [htype] at hin
    exact absurd hin hout

/-- The data phase leads to no dialogue. -/
theorem not_inDialogue_receiveData (hdata : s.state = .receivingData) (w : ω) (line : Bytes) :
    ¬ InDialogue (receiveData repo s w line).session := by
  have hphase : ¬ InDialogue s := by simp [InDialogue, hdata]
  rw [receiveData]
  dsimp only
  split_ifs
  · split
    · exact hphase
    · simp [InDialogue]
    · simp [InDialogue]
  · simp [InDialogue]
  · exact hphase

/-- A session in a dialogue is not authenticated yet. -/
theorem fresh_processLine (h : InDialogue s → s.authenticated = false) (w : ω) (line : Bytes)
    (hin : InDialogue (processLine repo s w line).session) :
    (processLine repo s w line).session.authenticated = false := by
  unfold processLine at hin ⊢
  split_ifs at hin ⊢ with hlong hd hdata
  · exact h hin
  · have hfresh := h hd
    rcases handleAuthLine_cases repo s w line with
      ⟨r, -, heq⟩ | ⟨r, name, -, heq⟩ | ⟨r, -, heq⟩ | ⟨u, p, heq⟩
    · rw [heq]
      exact hfresh
    · rw [heq]
      exact hfresh
    · rw [heq]
      exact hfresh
    · rw [heq, InDialogue, state_authorizeAs] at hin
      rcases hin with hin | hin <;> exact nomatch hin
  · exact absurd hin (not_inDialogue_receiveData repo hdata w line)
  · exact fresh_handleCommand repo hd w (parse line) hin

theorem settled_called (domain : Bytes) (w : ω) (methods : List Method) :
    Settled (called repo domain w methods).1 where
  between := between_called repo domain w methods
  fresh := called_invariant (I := fun s => InDialogue s → s.authenticated = false) repo
    (fun h => by rcases h with h | h <;> exact nomatch h)
    (fun _ w line h => fresh_processLine repo h w line) (fun _ _ h => h) (fun _ _ _ => rfl) w methods

end Refusal

theorem stores_repo (P : Store.PasswordHash) (logger : Bool) : Stores (repo P logger) :=
  fun _ _ _ _ => ⟨_, rfl⟩

/-- **Every session answers a line as it should exactly if** what `AUTH` expects in base64 is padded
base64, or decodes nevertheless to credentials that are not valid. -/
theorem answers_iff (P : Store.PasswordHash) (logger : Bool) (domain : Bytes) (w₀ : World)
    (methods : List Method) (w : World) (line : Bytes) :
    Answers (repo P logger) (called (repo P logger) domain w₀ methods).1 w line ↔
      ∀ text, AuthText (called (repo P logger) domain w₀ methods).1 line text →
        Base64.WellFormed text ∨ line.length ≤ maxSmtpLine ∧
          Rejected (repo P logger) (called (repo P logger) domain w₀ methods).1 w text :=
  answers_iff_of_settled _ (stores_repo P logger) (settled_called _ domain w₀ methods) w line

/-- A server without users, where nothing fails. -/
def emptyWorld : World := ⟨⟨.empty, fun _ => none⟩, fun _ => ⟨id, fun _ => none, fun _ => noChance⟩⟩

/-- **`AUTH PLAIN !`**, after `EHLO` on a secure channel, and the exception leaves `ProcessLine`. -/
theorem not_answers_exclamation :
    let repo := repo Store.plainHash true
    let s := (called repo (lit "localhost") emptyWorld
      [.setSecure true, .processLine (lit "EHLO client")]).1
    (processLine repo s emptyWorld (lit "AUTH PLAIN !")).reply =
        .error (.runtimeError (lit "Invalid Base64 symbol: !")) ∧
      ¬ Answers repo s emptyWorld (lit "AUTH PLAIN !") := by
  intro repo s
  have hthrow : (processLine repo s emptyWorld (lit "AUTH PLAIN !")).reply =
      .error (.runtimeError (lit "Invalid Base64 symbol: !")) := by decide
  refine ⟨hthrow, fun h => ?_⟩
  obtain ⟨reply, hreply⟩ := h.1
  exact nomatch hreply.symm.trans hthrow

end MailStack.Smtp
