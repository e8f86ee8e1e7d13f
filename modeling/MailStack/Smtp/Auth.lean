import MailStack.Base64.Stream
import MailStack.Smtp.Server

/-!
# Smtp/Auth — the three `AUTH` dialogues

`AUTH PLAIN` with an initial response, `AUTH PLAIN` in two steps and `AUTH LOGIN` are meant to hand
the same credentials to the user table.  They share one field, `authUsername`, and its being empty
is what tells the last line of a `LOGIN` from that of a `PLAIN`.  So the three agree exactly for the
names that `ExtractUsername` leaves non-empty: `agree_iff`.
-/

open Bytes

namespace MailStack.Smtp

/-! ## The parts of a dialogue -/

/-- The text `PLAIN` sends: `"\0user\0password"`. -/
def plainBlob (username password : Bytes) : Bytes := 0 :: (username ++ 0 :: password)

/-- The two texts come back, if the name has no zero. -/
theorem splitPlain_plainBlob {username password : Bytes} (h : 0 ∉ username) :
    splitPlain (plainBlob username password) = some (username, password) := by
  have hfirst : cut 0 (plainBlob username password) = some ([], username ++ 0 :: password) := rfl
  rw [splitPlain, hfirst, Option.bind_some, cut_eq_some_iff.mpr ⟨rfl, h⟩]
  rfl

/-- `AUTH PLAIN` is read as such, with the payload as it is. -/
theorem parse_authPlain {payload : Bytes} (hbreak : NoBreak payload) :
    parse (lit "AUTH PLAIN " ++ payload) =
      { type := .auth, argument := lit "PLAIN " ++ payload } := by
  have hclean : dropCR (lit "AUTH PLAIN " ++ payload) = lit "AUTH PLAIN " ++ payload := by
    rw [dropCR, if_neg]
    intro hlast
    rcases List.mem_append.mp (List.mem_of_getLast? hlast) with hmem | hmem
    · exact absurd hmem (by decide)
    · exact hbreak.1 hmem
  have hupper : toUpper (lit "AUTH PLAIN " ++ payload) = lit "AUTH PLAIN " ++ toUpper payload := by
    rw [toUpper, List.map_append]
    rfl
  have harg : authArgument (lit "PLAIN " ++ payload) = lit "PLAIN " ++ payload := by
    rw [authArgument, cut_eq_some_iff.mpr
      ⟨show lit "PLAIN " ++ payload = lit "PLAIN" ++ ' '.toUInt8 :: payload from rfl, by decide⟩]
    rfl
  have hnot : ∀ word : Bytes, word.length ≤ (lit "AUTH PLAIN ").length →
      ¬ word <+: lit "AUTH PLAIN " → ¬ word <+: lit "AUTH PLAIN " ++ toUpper payload :=
    fun word hlen hne hpre => hne (List.prefix_of_prefix_length_le hpre (List.prefix_append _ _) hlen)
  have hdiff : ∀ word : Bytes, ¬ lit "AUTH PLAIN " <+: word →
      lit "AUTH PLAIN " ++ toUpper payload ≠ word :=
    fun word hne heq => hne (heq ▸ List.prefix_append _ _)
  have hauth : lit "AUTH " <+: lit "AUTH PLAIN " ++ toUpper payload :=
    (show lit "AUTH " <+: lit "AUTH PLAIN " by decide).trans (List.prefix_append _ _)
  rw [parse, hclean, hupper, if_neg (hnot _ (by decide) (by decide)),
    if_neg (hnot _ (by decide) (by decide)), if_neg (hnot _ (by decide) (by decide)),
    if_neg (hnot _ (by decide) (by decide)), if_neg (hdiff _ (by decide)),
    if_neg (hdiff _ (by decide)), if_neg (hdiff _ (by decide)), if_neg (hdiff _ (by decide)),
    if_neg (hdiff _ (by decide)), if_pos hauth]
  exact congrArg (SmtpCommand.mk .auth) harg

section Auth

variable {ω : Type*} (repo : Repo ω)

/-- A session in which an `AUTH` dialogue may begin. -/
structure Ready (s : SmtpSession) : Prop where
  state : s.state = .waitMail
  fresh : s.authenticated = false
  secure : s.secure = true

variable {s : SmtpSession} {payload username password : Bytes}

/-- What `ProcessLine` does with a command line. -/
theorem processLine_command (hlen : payload.length ≤ maxSmtpLine) (hs : s.state = .waitMail)
    (w : ω) : processLine repo s w payload =
      { handleCommand repo s w (parse payload) with
        calls := .command payload :: (handleCommand repo s w (parse payload)).calls } := by
  rw [processLine, if_neg (Nat.not_lt.mpr hlen), if_neg (by simp [hs]), if_neg (by simp [hs])]

/-- **`AUTH PLAIN` with its initial response** asks about the name up to its first `@`. -/
theorem handleAuth_plain (hs : Ready s) (w : ω) (hne : payload ≠ [])
    (hdecode : Base64.decodeBase64 payload = .ok (plainBlob username password))
    (hnul : 0 ∉ username) :
    handleAuth repo s w { type := .auth, argument := lit "PLAIN " ++ payload } =
      authorizeAs repo s w (extractUsername username) password := by
  have hcut : cut ' '.toUInt8 (lit "PLAIN " ++ payload) = some (lit "PLAIN", payload) :=
    cut_eq_some_iff.mpr ⟨rfl, by decide⟩
  have hlogin : ¬ lit "PLAIN" = lit "LOGIN" := by decide
  rw [handleAuth, if_neg (not_not_intro hs.state), if_neg (by simp [hs.fresh]),
    if_neg (not_not_intro hs.secure)]
  dsimp only
  rw [hcut, Option.getD_some, if_neg hlogin, if_pos rfl, if_neg hne, hdecode]
  dsimp only
  rw [splitPlain_plainBlob hnul]

/-! ## The three dialogues -/

/-- The credentials a call hands to `authorize`. -/
def Call.credentials : Call → Option (Bytes × Bytes)
  | .authorize username password _ => some (username, password)
  | _ => none

/-- How a dialogue ends: the last reply, the session, and what `authorize` was asked. -/
structure Ended where
  reply : Except Exn Bytes
  session : SmtpSession
  asked : List (Bytes × Bytes)

/-- The end of a dialogue of one line. -/
def Outcome.ended (out : Outcome ω) : Ended :=
  ⟨out.reply, out.session, out.calls.filterMap Call.credentials⟩

/-- The lines of a dialogue, one after the other; an exception ends it. -/
def dialogue : SmtpSession → ω → List Bytes → Ended
  | s, _, [] => ⟨.ok [], s, []⟩
  | s, w, [line] => (processLine repo s w line).ended
  | s, w, line :: next :: lines =>
    let out := processLine repo s w line
    match out.reply with
    | .error _ => out.ended
    | .ok _ =>
      let rest := dialogue out.session out.world (next :: lines)
      { rest with asked := out.ended.asked ++ rest.asked }

/-- `AUTH PLAIN` with the credentials inline. -/
def plainInline (username password : Bytes) : List Bytes :=
  [lit "AUTH PLAIN " ++ Base64.encodeChars (plainBlob username password)]

/-- `AUTH PLAIN`, and the credentials on the next line. -/
def plainTwoStep (username password : Bytes) : List Bytes :=
  [lit "AUTH PLAIN", Base64.encodeChars (plainBlob username password)]

/-- `AUTH LOGIN`, the name, and the password. -/
def loginTwoStep (username password : Bytes) : List Bytes :=
  [lit "AUTH LOGIN", Base64.encodeChars username, Base64.encodeChars password]

/-- **The three dialogues agree**: on the last reply, which is 235 or 535, on the credentials that
`authorize` is asked about, and on the session they leave. -/
def Agree (s : SmtpSession) (w : ω) (username password : Bytes) : Prop :=
  let ended := dialogue repo s w (plainInline username password)
  dialogue repo s w (plainTwoStep username password) = ended ∧
    dialogue repo s w (loginTwoStep username password) = ended ∧
    (ended.reply = .ok SmtpResponse.authSucceeded ∨ ended.reply = .ok SmtpResponse.authFailed)

/-- A line that is not the last, and does not throw. -/
theorem dialogue_cons {w w' : ω} {line next reply : Bytes} {lines : List Bytes} {s' : SmtpSession}
    {calls : List Call} (h : processLine repo s w line = ⟨.ok reply, s', w', calls⟩)
    (hnone : calls.filterMap Call.credentials = []) :
    dialogue repo s w (line :: next :: lines) = dialogue repo s' w' (next :: lines) := by
  rw [dialogue, h]
  simp only [Outcome.ended, hnone, List.nil_append]

/-- The dialogue of `AUTH PLAIN` on one line. -/
theorem dialogue_plainInline (hs : Ready s) (w : ω) (hnul : 0 ∉ username)
    (hlen : ∀ line ∈ plainInline username password, line.length ≤ maxSmtpLine) :
    dialogue repo s w (plainInline username password) =
      (authorizeAs repo s w (extractUsername username) password).ended := by
  have hne : Base64.encodeChars (plainBlob username password) ≠ [] := fun h =>
    List.cons_ne_nil _ _ (Base64.encodeChars_eq_nil_iff.mp h)
  rw [plainInline, dialogue, processLine_command repo (hlen _ List.mem_cons_self) hs.state,
    parse_authPlain (Base64.noBreak_encodeChars _), handleCommand]
  dsimp only
  rw [handleAuth_plain repo hs w hne (Base64.decodeBase64_encodeChars _) hnul]
  rfl

/-- A line of base64 in an `AUTH` dialogue is decoded, and goes on if it is empty. -/
theorem processLine_encodeChars {data : Bytes} (hs : s.state = .authWaitUser ∨ s.state = .authWaitPass)
    (w : ω) (hlen : (Base64.encodeChars data).length ≤ maxSmtpLine) :
    processLine repo s w (Base64.encodeChars data) =
      if s.state = .authWaitUser then
        ⟨challenge (lit "Password:"),
          { s with authUsername := extractUsername data, state := .authWaitPass }, w, []⟩
      else if s.authUsername = [] then
        match splitPlain data with
        | none => ⟨.ok SmtpResponse.authFailed, { s with state := .waitMail }, w, []⟩
        | some (user, password) =>
          authorizeAs repo { s with state := .waitMail } w (extractUsername user) password
      else authorizeAs repo { s with state := .waitMail, authUsername := [] } w s.authUsername data := by
  have hgoes : ¬ (data = [] ∧ Base64.encodeChars data ≠ []) := fun h =>
    h.2 (Base64.encodeChars_eq_nil_iff.mpr h.1)
  rw [processLine, if_neg (Nat.not_lt.mpr hlen), if_pos hs, handleAuthLine,
    Base64.decodeBase64_encodeChars]
  dsimp only
  rw [if_neg hgoes]
  split_ifs with huser hpass
  · rfl
  · rfl
  · rfl
  · exact absurd (hs.resolve_left huser) hpass
  · exact absurd (hs.resolve_left huser) hpass

/-- The dialogue of `AUTH PLAIN` on two. -/
theorem dialogue_plainTwoStep (hs : Ready s) (hname : s.authUsername = []) (w : ω)
    (hnul : 0 ∉ username)
    (hlen : ∀ line ∈ plainTwoStep username password, line.length ≤ maxSmtpLine) :
    dialogue repo s w (plainTwoStep username password) =
      (authorizeAs repo s w (extractUsername username) password).ended := by
  have hparse : parse (lit "AUTH PLAIN") = { type := .auth, argument := lit "PLAIN" } := by decide
  have hplain : cut ' '.toUInt8 (lit "PLAIN") = none := by decide
  have hlogin : ¬ lit "PLAIN" = lit "LOGIN" := by decide
  have hfirst : processLine repo s w (lit "AUTH PLAIN") =
      ⟨.ok (SmtpResponse.authChallenge []), { s with state := .authWaitPass }, w,
        [.command (lit "AUTH PLAIN")]⟩ := by
    rw [processLine_command repo (hlen _ List.mem_cons_self) hs.state, hparse, handleCommand]
    dsimp only
    rw [handleAuth, if_neg (not_not_intro hs.state), if_neg (by simp [hs.fresh]),
      if_neg (not_not_intro hs.secure), hplain]
    dsimp only [Option.getD_none]
    rw [if_neg hlogin, if_pos rfl, if_pos rfl]
  have hback : ({ s with state := .waitMail } : SmtpSession) = s := by
    rw [← hs.state]
  rw [plainTwoStep, dialogue_cons repo hfirst rfl, dialogue,
    processLine_encodeChars repo (.inr rfl) w (hlen _ (by simp [plainTwoStep])), if_neg (by simp),
    if_pos hname, splitPlain_plainBlob hnul]
  dsimp only
  rw [hback]

/-- `AUTH LOGIN` up to the password: the name is kept. -/
theorem dialogue_loginTwoStep (hs : Ready s) (w : ω)
    (hlen : ∀ line ∈ loginTwoStep username password, line.length ≤ maxSmtpLine) :
    dialogue repo s w (loginTwoStep username password) =
      (processLine repo { s with authUsername := extractUsername username, state := .authWaitPass }
        w (Base64.encodeChars password)).ended := by
  have hparse : parse (lit "AUTH LOGIN") = { type := .auth, argument := lit "LOGIN" } := by decide
  have hlogin : cut ' '.toUInt8 (lit "LOGIN") = none := by decide
  have hfirst : processLine repo s w (lit "AUTH LOGIN") =
      ⟨challenge (lit "Username:"), { s with state := .authWaitUser }, w,
        [.command (lit "AUTH LOGIN")]⟩ := by
    rw [processLine_command repo (hlen _ List.mem_cons_self) hs.state, hparse, handleCommand]
    dsimp only
    rw [handleAuth, if_neg (not_not_intro hs.state), if_neg (by simp [hs.fresh]),
      if_neg (not_not_intro hs.secure), hlogin]
    dsimp only [Option.getD_none]
    rw [if_pos rfl]
  have hsecond := processLine_encodeChars repo (s := { s with state := .authWaitUser }) (.inl rfl) w
    (hlen (Base64.encodeChars username) (by simp [loginTwoStep]))
  rw [if_pos rfl] at hsecond
  rw [loginTwoStep, dialogue_cons repo hfirst rfl, dialogue_cons repo hsecond rfl, dialogue]

/-- What is asked are the name and the password. -/
theorem asked_authorizeAs (s : SmtpSession) (w : ω) (username password : Bytes) :
    (authorizeAs repo s w username password).ended.asked = [(username, password)] := by
  unfold authorizeAs
  split <;> rfl

/-- The reply is one of two. -/
theorem reply_authorizeAs (s : SmtpSession) (w : ω) (username password : Bytes) :
    (authorizeAs repo s w username password).ended.reply = .ok SmtpResponse.authSucceeded ∨
      (authorizeAs repo s w username password).ended.reply = .ok SmtpResponse.authFailed := by
  unfold authorizeAs
  split
  · exact .inl rfl
  · exact .inr rfl

/-- The password in a `PLAIN` text is shorter than the text. -/
theorem length_of_splitPlain {blob user password : Bytes}
    (h : splitPlain blob = some (user, password)) : password.length < blob.length := by
  obtain ⟨⟨a, b⟩, hfirst, h⟩ := Option.bind_eq_some_iff.mp h
  obtain ⟨⟨u, p⟩, hsecond, heq⟩ := Option.map_eq_some_iff.mp h
  obtain ⟨rfl, rfl⟩ := Prod.mk.inj heq
  obtain ⟨rfl, -⟩ := cut_eq_some_iff.mp hfirst
  have hb := (cut_eq_some_iff.mp hsecond).1
  dsimp only at hb
  rw [hb]
  simp only [List.length_append, List.length_cons]
  omega

/-- **The dialogues agree exactly for the names that `ExtractUsername` leaves non-empty**,
whatever the password. With no name kept, the password line is read as the text of a `PLAIN`. -/
theorem agree_iff_of_ready (hs : Ready s) (hname : s.authUsername = []) (w : ω)
    (hnul : 0 ∉ username)
    (hlen : ∀ line ∈ plainInline username password ++ plainTwoStep username password ++
      loginTwoStep username password, line.length ≤ maxSmtpLine) :
    Agree repo s w username password ↔ extractUsername username ≠ [] := by
  simp only [List.forall_mem_append] at hlen
  obtain ⟨⟨hinline, htwo⟩, hlogin⟩ := hlen
  have hpass := processLine_encodeChars repo
    (s := { s with authUsername := extractUsername username, state := .authWaitPass }) (.inr rfl) w
    (hlogin (Base64.encodeChars password) (by simp [loginTwoStep]))
  have huser : ¬ SmtpState.authWaitPass = SmtpState.authWaitUser := by decide
  rw [if_neg huser] at hpass
  rw [Agree, dialogue_plainInline repo hs w hnul hinline,
    dialogue_plainTwoStep repo hs hname w hnul htwo, dialogue_loginTwoStep repo hs w hlogin, hpass]
  constructor
  · rintro ⟨-, hagree, -⟩ hempty
    have hasked := congrArg Ended.asked hagree
    rw [if_pos hempty, asked_authorizeAs] at hasked
    cases hsplit : splitPlain password with
    | none =>
      rw [hsplit] at hasked
      exact absurd hasked.symm (List.cons_ne_nil _ _)
    | some credentials =>
      obtain ⟨user, shorter⟩ := credentials
      rw [hsplit] at hasked
      dsimp only at hasked
      rw [asked_authorizeAs] at hasked
      have hsame := (Prod.mk.inj (List.cons.inj hasked).1).2
      have hlt := length_of_splitPlain hsplit
      rw [hsame] at hlt
      exact Nat.lt_irrefl _ hlt
  · intro hne
    have hback : ({ s with state := .waitMail, authUsername := [] } : SmtpSession) = s := by
      rw [← hs.state, ← hname]
    refine ⟨rfl, ?_, reply_authorizeAs repo s w _ _⟩
    rw [if_neg hne]
    dsimp only
    rw [hback]

/-! ## The sessions there are -/

/-- The methods that change a session. -/
inductive Method
  | processLine (line : Bytes)
  | setSecure (secure : Bool)
  | resetToHelo

/-- A call of one of them; an exception leaves the session as it is. -/
def Method.call : SmtpSession × ω → Method → SmtpSession × ω
  | (s, w), .processLine line =>
    ((Smtp.processLine repo s w line).session, (Smtp.processLine repo s w line).world)
  | (s, w), .setSecure secure => (s.setSecure secure, w)
  | (s, w), .resetToHelo => (s.resetToHelo, w)

/-- A session after calls of its methods. -/
def called (domain : Bytes) (w : ω) (methods : List Method) : SmtpSession × ω :=
  methods.foldl (Method.call repo) ({ domain }, w)

/-- A name is only kept between the two lines of a `LOGIN`. -/
def Between (s : SmtpSession) : Prop := s.authUsername = [] ∨ s.state = .authWaitPass

/-- The name of the dialogue stays. -/
theorem authUsername_authorizeAs (s : SmtpSession) (w : ω) (username password : Bytes) :
    (authorizeAs repo s w username password).session.authUsername = s.authUsername := by
  unfold authorizeAs
  split <;> rfl

/-- Outside of a dialogue no command keeps a name. -/
theorem authUsername_handleCommand (h : s.authUsername = []) (w : ω) (command : SmtpCommand) :
    (handleCommand repo s w command).session.authUsername = [] := by
  unfold handleCommand
  cases command.type with
  | helo | ehlo => rfl
  | auth =>
    dsimp only
    rcases handleAuth_cases repo s w command with
      ⟨r, -, heq⟩ | ⟨-, -, ⟨r, st, -, -, heq⟩ | ⟨u, p, heq⟩⟩
    · rw [heq]
      exact h
    · rw [heq]
      exact h
    · rw [heq, authUsername_authorizeAs, h]
  | mail =>
    dsimp only
    unfold SmtpSession.handleMail
    split_ifs <;> exact h
  | rcpt =>
    dsimp only
    unfold SmtpSession.handleRcpt
    split_ifs <;> exact h
  | data =>
    dsimp only
    unfold SmtpSession.handleData
    split_ifs <;> exact h
  | starttls =>
    dsimp only
    unfold SmtpSession.handleStartTLS
    split_ifs <;> exact h
  | rset | noop | unknown | quit => exact h

/-- A line of a dialogue leaves the session between commands. -/
theorem Between.handleAuthLine (h : Between s) (w : ω) (line : Bytes) :
    Between (handleAuthLine repo s w line).session := by
  rcases handleAuthLine_cases repo s w line with
    ⟨r, -, heq⟩ | ⟨r, name, -, heq⟩ | ⟨r, -, heq⟩ | ⟨u, p, heq⟩
  · rw [heq]
    exact h
  · rw [heq]
    exact .inr rfl
  · rw [heq]
    exact .inl rfl
  · rw [heq]
    exact .inl (authUsername_authorizeAs repo _ w u p)

theorem authUsername_receiveData (h : s.authUsername = []) (w : ω) (line : Bytes) :
    (receiveData repo s w line).session.authUsername = [] := by
  unfold receiveData
  dsimp only
  split_ifs
  · split <;> exact h
  · exact h
  · exact h

/-- So does every line. -/
theorem Between.processLine (h : Between s) (w : ω) (line : Bytes) :
    Between (processLine repo s w line).session := by
  unfold Smtp.processLine
  split_ifs with _ hdialogue
  · exact h
  · exact h.handleAuthLine repo w line
  · exact .inl (authUsername_receiveData repo (h.resolve_right fun hp => hdialogue (.inr hp)) w line)
  · exact .inl (authUsername_handleCommand repo (h.resolve_right fun hp => hdialogue (.inr hp)) w _)

/-- **What every method keeps holds of every session there is.** -/
theorem called_invariant {I : SmtpSession → Prop} {domain : Bytes} (hnew : I { domain })
    (hline : ∀ s w line, I s → I (processLine repo s w line).session)
    (hsecure : ∀ s secure, I s → I (s.setSecure secure)) (hreset : ∀ s, I s → I s.resetToHelo)
    (w : ω) (methods : List Method) : I (called repo domain w methods).1 := by
  have hstep : ∀ (methods : List Method) (sw : SmtpSession × ω), I sw.1 →
      I (methods.foldl (Method.call repo) sw).1 := by
    intro methods
    induction methods with
    | nil => exact fun _ h => h
    | cons method methods ih =>
      intro sw h
      refine ih _ ?_
      cases method with
      | processLine line => exact hline sw.1 sw.2 line h
      | setSecure secure => exact hsecure sw.1 secure h
      | resetToHelo => exact hreset sw.1 h
  exact hstep methods _ hnew

/-- So do calls of any methods. -/
theorem between_called (domain : Bytes) (w : ω) (methods : List Method) :
    Between (called repo domain w methods).1 :=
  called_invariant repo (.inl rfl) (fun _ w line h => h.processLine repo w line) (fun _ _ h => h)
    (fun _ _ => .inl rfl) w methods

/-- **The three dialogues agree, in every session in which one may begin,** exactly for the names
that `ExtractUsername` leaves non-empty: those that are not empty and do not begin with `@`. -/
theorem agree_iff (domain : Bytes) (w₀ : ω) (methods : List Method)
    (hs : Ready (called repo domain w₀ methods).1) (w : ω) (hnul : 0 ∉ username)
    (hlen : ∀ line ∈ plainInline username password ++ plainTwoStep username password ++
      loginTwoStep username password, line.length ≤ maxSmtpLine) :
    Agree repo (called repo domain w₀ methods).1 w username password ↔
      extractUsername username ≠ [] := by
  refine agree_iff_of_ready repo hs ?_ w hnul hlen
  refine (between_called repo domain w₀ methods).resolve_right ?_
  rw [hs.state]
  exact SmtpState.noConfusion

/-- After `EHLO` on a secure channel. -/
def greeted : List Method := [.setSecure true, .processLine (lit "EHLO client")]

theorem agree_iff_alice :
    Agree aliceRepo (called aliceRepo (lit "localhost") () greeted).1 () (lit "alice") (lit "pw") ↔
      extractUsername (lit "alice") ≠ [] :=
  agree_iff aliceRepo (lit "localhost") () greeted ⟨rfl, rfl, rfl⟩ () (by decide) (by decide)

/-- **Without a name they do not agree**: `LOGIN` refuses without asking. -/
theorem not_agree_nobody :
    0 ∉ lit "" ∧ Ready (called aliceRepo (lit "localhost") () greeted).1 ∧
      (∀ line ∈ plainInline (lit "") (lit "pw") ++ plainTwoStep (lit "") (lit "pw") ++
        loginTwoStep (lit "") (lit "pw"), line.length ≤ maxSmtpLine) ∧
      (dialogue aliceRepo (called aliceRepo (lit "localhost") () greeted).1 ()
        (plainInline (lit "") (lit "pw"))).asked = [(lit "", lit "pw")] ∧
      (dialogue aliceRepo (called aliceRepo (lit "localhost") () greeted).1 ()
        (loginTwoStep (lit "") (lit "pw"))).asked = [] ∧
      ¬ Agree aliceRepo (called aliceRepo (lit "localhost") () greeted).1 () (lit "") (lit "pw") := by
  refine ⟨by decide, ⟨rfl, rfl, rfl⟩, by decide, by decide, by decide, ?_⟩
  intro h
  have hasked := congrArg Ended.asked h.2.1
  exact absurd hasked (by decide)

end Auth

end MailStack.Smtp
