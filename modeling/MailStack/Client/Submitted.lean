import MailStack.Client.Submission
import MailStack.Mime.RoundTrip

/-!
# Client/Submitted — what the server has stored when `handleSendMail` reports a success

The client reads replies, the server processes lines, and neither knows how far the other has got.
`Facing` says where both stand: the client is about to send these lines, of which the server has
processed the first, and has received these chunks, of the server's replies the first.  Each reply that
the client reads moves both by one command.  The lines of the message have no replies: there the reply
that is read last moves them by the whole message, or it is a refusal.
-/

open Bytes

namespace MailStack.Client

open Smtp Server Proto

/-! ## Replies, one by one -/

/-- A reply of the server: one frame, that `ReadSmtpResponse` reads and no more. -/
structure IsReply (r : Bytes) : Prop where
  ne_nil : r ≠ []
  read : ∀ chunks, readSmtpResponse (stripLineEnd r :: chunks) =
    ⟨true, logicalLines (stripLineEnd r), chunks⟩

/-- The code that the client sees. -/
def seenCode (r : Bytes) : ℤ := getSmtpCode (logicalLines (stripLineEnd r))

/-- A reply of one line is a reply. -/
theorem isReply_of_line {r l : Bytes} {code : ℕ} (hne : r ≠ [])
    (hlines : logicalLines (stripLineEnd r) = [l]) (hcode : tryParseSmtpCode l = some code)
    (hlast : l[3]? ≠ some '-'.toUInt8) : IsReply r where
  ne_nil := hne
  read chunks := by
    rw [readSmtpResponse, hlines]
    dsimp only
    rw [hcode]
    dsimp only
    rw [if_pos (.inr hlast)]

theorem getlines_ne_nil {d : UInt8} {s : Bytes} (hs : s ≠ []) : getlines d s ≠ [] := by
  obtain ⟨c, s, rfl⟩ := List.exists_cons_of_ne_nil hs
  rw [getlines]
  split_ifs
  · exact List.cons_ne_nil _ _
  · split <;> exact List.cons_ne_nil _ _

/-- What follows an LF is cut into lines by itself. -/
theorem getlines_append {d : UInt8} (b : Bytes) : ∀ a : Bytes,
    getlines d (a ++ d :: b) = getlines d (a ++ [d]) ++ getlines d b
  | [] => by
      rw [List.nil_append, List.nil_append, getlines, getlines, if_pos rfl, if_pos rfl]
      rfl
  | c :: a => by
      have ih := getlines_append (d := d) b a
      have hne : getlines d (a ++ [d]) ≠ [] :=
        getlines_ne_nil (List.append_ne_nil_of_right_ne_nil a (List.cons_ne_nil d []))
      obtain ⟨l, ls, hls⟩ := List.exists_cons_of_ne_nil hne
      rw [hls] at ih
      rw [List.cons_append, List.cons_append, getlines, getlines, ih, hls]
      split_ifs
      · rfl
      · rfl

/-- **The reply to `EHLO`** is read to its last line, whatever the domain. -/
theorem isReply_ehlo (domain : Bytes) : IsReply (SmtpResponse.ehlo domain true) where
  ne_nil := List.cons_ne_nil _ _
  read chunks := by
    have hframe : stripLineEnd (SmtpResponse.ehlo domain true) =
        lit "250-" ++ (domain ++ lit "\r" ++ '\n'.toUInt8 :: lit "250 AUTH LOGIN PLAIN") := by
      have hreply : SmtpResponse.ehlo domain true = lit "250-" ++ (domain ++ lit "\r" ++
          '\n'.toUInt8 :: lit "250 AUTH LOGIN PLAIN") ++ lit "\r\n" := by
        simp only [SmtpResponse.ehlo, if_true, List.append_nil, List.append_assoc]
        rfl
      rw [hreply, stripLineEnd_crlf]
    obtain ⟨t, rest, hlines⟩ := exists_frameLines (a := lit "250-") (List.cons_ne_nil _ _) (by decide)
      (by decide) (domain ++ lit "\r" ++ '\n'.toUInt8 :: lit "250 AUTH LOGIN PLAIN")
    have hfront : logicalLines (stripLineEnd (SmtpResponse.ehlo domain true)) =
        (lit "250-" ++ t) :: rest.filter (· ≠ []) := by
      rw [logicalLines, hframe, hlines]
      exact List.filter_cons_of_pos rfl
    have hlast : lit "250 AUTH LOGIN PLAIN" ∈
        logicalLines (stripLineEnd (SmtpResponse.ehlo domain true)) := by
      refine List.mem_filter.mpr ⟨?_, by decide⟩
      rw [hframe, ← List.append_assoc, frameLines, getlines_append]
      exact List.mem_map.mpr ⟨lit "250 AUTH LOGIN PLAIN",
        List.mem_append_right _ (by decide), by decide⟩
    have hfinal : hasFinal 250 ((lit "250-" ++ t) :: rest.filter (· ≠ [])) = true := by
      rw [← hfront]
      exact List.any_eq_true.mpr ⟨_, hlast, by decide⟩
    have hcode : tryParseSmtpCode (lit "250-" ++ t) = some 250 := rfl
    rw [readSmtpResponse, hfront]
    dsimp only
    rw [hcode]
    dsimp only
    split_ifs
    · rfl
    · rfl

/-- The replies of one line. -/
theorem isReply_constant {r : Bytes} (h : r ∈ [SmtpResponse.ok, SmtpResponse.startMailInput,
    SmtpResponse.messageStorageFailed, SmtpResponse.messageTooLarge, SmtpResponse.syntaxError,
    SmtpResponse.authSucceeded, SmtpResponse.authFailed]) : IsReply r := by
  have hcodes : ∀ r ∈ [SmtpResponse.ok, SmtpResponse.startMailInput,
      SmtpResponse.messageStorageFailed, SmtpResponse.messageTooLarge, SmtpResponse.syntaxError,
      SmtpResponse.authSucceeded, SmtpResponse.authFailed],
      r ≠ [] ∧ logicalLines (stripLineEnd r) = [stripLineEnd r] ∧
        tryParseSmtpCode (stripLineEnd r) ≠ none ∧ (stripLineEnd r)[3]? ≠ some '-'.toUInt8 := by
    decide +kernel
  obtain ⟨hne, hlines, hcode, hlast⟩ := hcodes r h
  obtain ⟨code, hcode⟩ := Option.ne_none_iff_exists'.mp hcode
  exact isReply_of_line hne hlines hcode hlast

/-! ## The client's lines -/

/-- A word that a line does not start with, when it starts with another. -/
theorem not_prefix_append {word start rest : Bytes} (hlen : word.length ≤ start.length)
    (h : ¬ word <+: start) : ¬ word <+: start ++ rest :=
  fun hword => h (List.prefix_of_prefix_length_le hword (List.prefix_append _ _) hlen)

/-- `EHLO` is read as such. -/
theorem type_parse_ehlo (username : Bytes) : (parse (lit "EHLO " ++ username)).type = .ehlo := by
  obtain ⟨t, ht⟩ : ∃ t, dropCR (lit "EHLO " ++ username) = lit "EHLO " ++ t := by
    rw [dropCR]
    split_ifs with hlast
    · cases username with
      | nil => exact absurd hlast (by decide)
      | cons c s => exact ⟨_, List.dropLast_append_of_ne_nil (List.cons_ne_nil c s)⟩
    · exact ⟨username, rfl⟩
  have hupper : toUpper (lit "EHLO " ++ t) = lit "EHLO " ++ toUpper t := by
    rw [toUpper, List.map_append]
    rfl
  rw [parse, ht, hupper, if_neg (not_prefix_append (by decide) (by decide)),
    if_pos (List.prefix_append _ _)]

/-- An address in brackets. -/
def angled (address : Bytes) : Bytes := lit "<" ++ address ++ lit ">"

/-- An address in brackets is taken out of them, whatever its bytes. -/
theorem stripAngleBrackets_angled (address : Bytes) :
    stripAngleBrackets (trim (angled address)) = address := by
  have hcons : angled address = '<'.toUInt8 :: (address ++ ['>'.toUInt8]) := rfl
  have hconcat : angled address = ('<'.toUInt8 :: address) ++ ['>'.toUInt8] := rfl
  have hfront : (angled address).dropWhile isBlank = angled address := by
    rw [hcons]
    exact List.dropWhile_cons_of_neg (by decide)
  have hback : (angled address).reverse.dropWhile isBlank = (angled address).reverse := by
    rw [hconcat, List.reverse_concat]
    exact List.dropWhile_cons_of_neg (by decide)
  have hlength : 2 ≤ (angled address).length := by
    rw [hcons, List.length_cons, List.length_append, List.length_singleton]
    omega
  rw [trim, hfront, hback, List.reverse_reverse, stripAngleBrackets,
    if_pos ⟨hlength, by rw [hcons]; rfl, by rw [hconcat, List.getLast?_concat]⟩, hcons]
  exact List.dropLast_concat

/-- **A command with an address in brackets**, as `Parse` looks at it. -/
theorem angled_command {word : Bytes} (hword : toUpper word = word) (address : Bytes) :
    dropCR (word ++ angled address) = word ++ angled address ∧
      toUpper (word ++ angled address) = word ++ toUpper (angled address) ∧
      (word ++ angled address).drop word.length = angled address := by
  refine ⟨?_, ?_, List.drop_left⟩
  · have hends : word ++ angled address = (word ++ '<'.toUInt8 :: address) ++ ['>'.toUInt8] := by
      rw [List.append_assoc]
      rfl
    rw [hends, dropCR, List.getLast?_concat, if_neg (by decide)]
  · rw [toUpper, List.map_append, ← toUpper, hword]
    rfl

/-- The client's `MAIL` is read with its address. -/
theorem parse_mail (address : Bytes) : parse (lit "MAIL FROM:<" ++ address ++ lit ">") =
    { type := .mail, argument := address } := by
  obtain ⟨hclean, hupper, hdrop⟩ := angled_command
    (show toUpper (lit "MAIL FROM:") = lit "MAIL FROM:" by decide) address
  rw [show lit "MAIL FROM:<" ++ address ++ lit ">" = lit "MAIL FROM:" ++ angled address from rfl, parse,
    hclean, hupper, if_neg (not_prefix_append (by decide) (by decide)),
    if_neg (not_prefix_append (by decide) (by decide)), if_pos (List.prefix_append _ _)]
  exact congrArg (SmtpCommand.mk .mail ∘ stripAngleBrackets ∘ trim) hdrop |>.trans
    (congrArg (SmtpCommand.mk .mail) (stripAngleBrackets_angled address))

/-- The client's `RCPT` is read with its address. -/
theorem parse_rcpt (address : Bytes) : parse (rcptCommand address).1 =
    { type := .rcpt, argument := address } := by
  obtain ⟨hclean, hupper, hdrop⟩ := angled_command
    (show toUpper (lit "RCPT TO:") = lit "RCPT TO:" by decide) address
  have hmail : ¬ lit "MAIL FROM:" <+: lit "RCPT TO:" ++ toUpper (angled address) :=
    fun h => absurd (List.cons_prefix_cons.mp h).1 (by decide)
  rw [show (rcptCommand address).1 = lit "RCPT TO:" ++ angled address from rfl, parse, hclean, hupper,
    if_neg (not_prefix_append (by decide) (by decide)),
    if_neg (not_prefix_append (by decide) (by decide)), if_neg hmail,
    if_pos (List.prefix_append _ _)]
  exact congrArg (SmtpCommand.mk .rcpt ∘ stripAngleBrackets ∘ trim) hdrop |>.trans
    (congrArg (SmtpCommand.mk .rcpt) (stripAngleBrackets_angled address))

/-! ## The server's side -/

section Facing

variable {ω : Type*} {repo : Repo ω} {c last : Smtp.Connection ω} {line r : Bytes}
  {sent chunks chunks' : List Bytes} {okCodes : List ℤ}

/-- **The server at `c`, the client before it sends `sent`**: of these lines the server processes the
first and gets to `last`, and of its replies the client receives the first, the chunks. -/
def Facing (repo : Repo ω) (c last : Smtp.Connection ω) (sent chunks : List Bytes) : Prop :=
  ∃ served, served <+: sent ∧ served.foldl (feed repo) c = last ∧
    chunks <+: (repliesTo repo c.session c.world served).map stripLineEnd

theorem Read.ne_nil (h : Read okCodes chunks chunks') : chunks ≠ [] := by
  rintro rfl
  obtain ⟨lines, hread, -⟩ := h
  cases hread

/-- Where something is received, the next line was processed. -/
theorem Facing.exists_served (h : Facing repo c last (line :: sent) chunks) (hne : chunks ≠ []) :
    ∃ served, served <+: sent ∧ served.foldl (feed repo) (feed repo c line) = last ∧
      chunks <+: (replyTo repo c.session c.world line ++
        repliesTo repo (feed repo c line).session (feed repo c line).world served).map
          stripLineEnd := by
  obtain ⟨served, hserved, hlast, hchunks⟩ := h
  cases served with
  | nil => exact absurd (List.prefix_nil.mp hchunks) hne
  | cons line' served =>
    obtain ⟨hline, hrest⟩ := List.cons_prefix_cons.mp hserved
    rw [hline] at hlast hchunks
    exact ⟨served, hrest, hlast, hchunks⟩

/-- A line without a reply. -/
theorem Facing.silent (h : Facing repo c last (line :: sent) chunks) (hne : chunks ≠ [])
    (hreply : replyTo repo c.session c.world line = []) :
    Facing repo (feed repo c line) last sent chunks := by
  obtain ⟨served, hserved, hlast, hchunks⟩ := h.exists_served hne
  rw [hreply] at hchunks
  exact ⟨served, hserved, hlast, hchunks⟩

/-- **A line with a reply**: it is the one that the client reads. -/
theorem Facing.reply (h : Facing repo c last (line :: sent) chunks)
    (hread : Read okCodes chunks chunks')
    (hreply : (processLine repo c.session c.world line).reply = .ok r) (hr : IsReply r) :
    Facing repo (feed repo c line) last sent chunks' ∧ seenCode r ∈ okCodes := by
  obtain ⟨served, hserved, hlast, hchunks⟩ := h.exists_served hread.ne_nil
  have hone : replyTo repo c.session c.world line = [r] := by
    rw [replyTo, hreply]
    exact List.filter_cons_of_pos (decide_eq_true hr.ne_nil)
  rw [hone, List.singleton_append, List.map_cons] at hchunks
  obtain ⟨chunk, rest, rfl⟩ := List.exists_cons_of_ne_nil hread.ne_nil
  obtain ⟨rfl, hrest⟩ := List.cons_prefix_cons.mp hchunks
  obtain ⟨lines, hlines, hcode⟩ := hread
  rw [hr.read] at hlines
  cases hlines
  exact ⟨⟨served, hserved, hlast, hrest⟩, hcode⟩

/-- The session reads its lines as commands. -/
def Commanded (s : SmtpSession) : Prop :=
  s.state = .waitHelo ∨ s.state = .waitMail ∨ s.state = .waitRcpt

/-- **A command that is answered well** is not too long, so that it was handled. -/
theorem Facing.command (h : Facing repo c last (line :: sent) chunks)
    (hread : Read okCodes chunks chunks') (h500 : (500 : ℤ) ∉ okCodes) (hs : Commanded c.session)
    {s : SmtpSession} {w : ω} {calls : List Call}
    (hout : Smtp.handleCommand repo c.session c.world (parse line) = ⟨.ok r, s, w, calls⟩)
    (hr : IsReply r) :
    Facing repo ⟨s, w, calls.reverse ++ .command line :: c.log, false⟩ last sent chunks' ∧
      seenCode r ∈ okCodes := by
  by_cases hlen : maxSmtpLine < line.length
  · have hlong := processLine_tooLong repo (s := c.session) c.world hlen
    obtain ⟨-, hcode⟩ := h.reply hread (by rw [hlong]) (isReply_constant (r := SmtpResponse.syntaxError)
      (by simp))
    have hseen : seenCode SmtpResponse.syntaxError = 500 := by decide +kernel
    exact absurd (hseen ▸ hcode) h500
  · have hstate : ¬ (c.session.state = .authWaitUser ∨ c.session.state = .authWaitPass) ∧
        c.session.state ≠ .receivingData := by
      rcases hs with hs | hs | hs <;> simp [hs]
    have hline : processLine repo c.session c.world line = ⟨.ok r, s, w, .command line :: calls⟩ := by
      rw [processLine, if_neg hlen, if_neg hstate.1, if_neg hstate.2, hout]
    obtain ⟨hfacing, hcode⟩ := h.reply hread (by rw [hline]) hr
    rw [feed, hline, List.reverse_cons, List.append_assoc] at hfacing
    exact ⟨hfacing, hcode⟩

/-- …and one that asks the store for nothing adds itself to the log only. -/
theorem Facing.plainCommand (h : Facing repo c last (line :: sent) chunks)
    (hread : Read okCodes chunks chunks') (h500 : (500 : ℤ) ∉ okCodes) (hs : Commanded c.session)
    {s : SmtpSession} {w : ω}
    (hout : Smtp.handleCommand repo c.session c.world (parse line) = ⟨.ok r, s, w, []⟩)
    (hr : IsReply r) : Facing repo ⟨s, w, .command line :: c.log, false⟩ last sent chunks' :=
  (h.command hread h500 hs hout hr).1

/-! ## The dialogue, command by command -/

/-- A session on a secure channel, once it was greeted. -/
def greeted (domain : Bytes) : SmtpSession := { domain, secure := true, state := .waitMail }

/-- …and once `authorize` has granted. -/
def loggedIn (domain : Bytes) : SmtpSession := { greeted domain with authenticated := true }

/-- …and once it has the sender and some recipients. -/
def addressed (domain sender : Bytes) (recipients : List Bytes) : SmtpSession :=
  { loggedIn domain with
    state := .waitRcpt
    sender := extractUsername sender
    recipients := recipients.map extractUsername }

variable {domain username password authPayload : Bytes} {w : ω} {log : List Call}

/-- Both sides, from the greeting to the answer to `EHLO`. -/
theorem Facing.ehlo
    (h : Facing repo ⟨{ domain, secure := true }, w, log, false⟩ last
      ((lit "EHLO " ++ username) :: sent) chunks)
    (hread : Read [250] chunks chunks') :
    Facing repo ⟨greeted domain, w, .command (lit "EHLO " ++ username) :: log, false⟩ last sent
      chunks' := by
  refine h.plainCommand hread (by decide) (.inl rfl) ?_ (isReply_ehlo domain)
  rw [Smtp.handleCommand, type_parse_ehlo]
  dsimp only
  rw [SmtpSession.handleHelo, type_parse_ehlo]
  rfl

/-- The payload of `AUTH PLAIN` always has a name and a password. -/
theorem exists_splitPlain (username password : Bytes) :
    ∃ u p, splitPlain (plainBlob username password) = some (u, p) := by
  obtain ⟨u, p, heq, hu⟩ := List.eq_append_cons_of_mem
    (show (0 : UInt8) ∈ username ++ 0 :: password from List.mem_append_right _ List.mem_cons_self)
  refine ⟨u, p, ?_⟩
  have hfirst : cut 0 (plainBlob username password) = some ([], username ++ 0 :: password) := rfl
  rw [splitPlain, hfirst, Option.bind_some, heq, cut_eq_some_iff.mpr ⟨rfl, hu⟩]
  rfl

/-- **`AUTH` is answered 235 where `authorize` grants.** -/
theorem Facing.auth (hpayload : buildSmtpPlainAuthPayload username password = some authPayload)
    (h : Facing repo ⟨greeted domain, w, log, false⟩ last ((lit "AUTH PLAIN " ++ authPayload) :: sent)
      chunks)
    (hread : Read [235] chunks chunks') {u p : Bytes}
    (hsplit : splitPlain (plainBlob username password) = some (u, p)) :
    ∃ w', Facing repo ⟨loggedIn domain, w', .authorize (extractUsername u) p true ::
      .command (lit "AUTH PLAIN " ++ authPayload) :: log, false⟩ last sent chunks' := by
  obtain ⟨hdecode, hne, hbreak⟩ := decode_payload hpayload
  have hcut : cut ' '.toUInt8 (lit "PLAIN " ++ authPayload) = some (lit "PLAIN", authPayload) :=
    cut_eq_some_iff.mpr ⟨rfl, by decide⟩
  have hlogin : ¬ lit "PLAIN" = lit "LOGIN" := by decide
  have hs : Ready (greeted domain) := ⟨rfl, rfl, rfl⟩
  have hhandle : Smtp.handleCommand repo (greeted domain) w (parse (lit "AUTH PLAIN " ++ authPayload)) =
      authorizeAs repo (greeted domain) w (extractUsername u) p := by
    rw [parse_authPlain hbreak, Smtp.handleCommand]
    dsimp only
    rw [handleAuth, if_neg (not_not_intro hs.state), if_neg (by simp [hs.fresh]),
      if_neg (not_not_intro hs.secure)]
    dsimp only
    rw [hcut, Option.getD_some, if_neg hlogin, if_pos rfl, if_neg hne, hdecode]
    dsimp only
    rw [show (0 :: (username ++ 0 :: password)) = plainBlob username password from rfl, hsplit]
  rcases authorizeAs_cases repo (greeted domain) w (extractUsername u) p with ⟨w', hout⟩ | ⟨w', hout⟩
  · exact ⟨w', (h.command hread (by decide) (.inr (.inl rfl)) (hhandle.trans hout)
      (isReply_constant (by simp))).1⟩
  · have hcode := (h.command hread (by decide) (.inr (.inl rfl)) (hhandle.trans hout)
      (isReply_constant (by simp))).2
    have hseen : seenCode SmtpResponse.authFailed = 535 := by decide
    exact absurd (hseen ▸ hcode) (by decide)

/-- Both sides, from there to the sender. -/
theorem Facing.mail {sender : Bytes} (h : Facing repo ⟨loggedIn domain, w, log, false⟩ last
      ((lit "MAIL FROM:<" ++ sender ++ lit ">") :: sent) chunks) (hread : Read [250] chunks chunks') :
    Facing repo ⟨addressed domain sender [], w,
      .command (lit "MAIL FROM:<" ++ sender ++ lit ">") :: log, false⟩ last sent chunks' := by
  refine h.plainCommand hread (by decide) (.inr (.inl rfl)) ?_
    (isReply_constant (r := SmtpResponse.ok) (by simp))
  rw [parse_mail]
  rfl

/-- Both sides, one recipient on. -/
theorem Facing.rcpt {sender address : Bytes} {recipients : List Bytes}
    (h : Facing repo ⟨addressed domain sender recipients, w, log, false⟩ last
      ((rcptCommand address).1 :: sent) chunks) (hread : Read [250, 251] chunks chunks') :
    Facing repo ⟨addressed domain sender (recipients ++ [address]), w,
      .command (rcptCommand address).1 :: log, false⟩ last sent chunks' := by
  refine h.plainCommand hread (by decide) (.inr (.inr rfl)) ?_
    (isReply_constant (r := SmtpResponse.ok) (by simp))
  rw [parse_rcpt, addressed, addressed, List.map_append]
  rfl

/-- **The recipients are taken one after the other.** -/
theorem Facing.rcpts {sender : Bytes} : ∀ {addresses recipients : List Bytes} {log : List Call}
    {chunks : List Bytes}, Facing repo ⟨addressed domain sender recipients, w, log, false⟩ last
      (addresses.map (Prod.fst ∘ rcptCommand) ++ sent) chunks →
    Answered (addresses.map rcptCommand) chunks chunks' →
    Facing repo ⟨addressed domain sender (recipients ++ addresses), w,
      (addresses.map (Call.command ∘ Prod.fst ∘ rcptCommand)).reverse ++ log, false⟩ last sent chunks'
  | [], recipients, log, chunks, h, hread => by
      cases hread
      rw [List.append_nil]
      exact h
  | address :: addresses, recipients, log, chunks, h, hread => by
      cases hread with
      | cons hread hrest =>
        have hnext := Facing.rcpts (h.rcpt hread) hrest
        rw [List.append_assoc] at hnext
        rw [List.map_cons, List.reverse_cons, List.append_assoc]
        exact hnext

/-- Both sides, from the recipients to the body. -/
theorem Facing.data {sender : Bytes} {recipients : List Bytes} (hne : recipients ≠ [])
    (h : Facing repo ⟨addressed domain sender recipients, w, log, false⟩ last
      (lit "DATA" :: sent) chunks)
    (hread : Read [354] chunks chunks') :
    Facing repo ⟨{ addressed domain sender recipients with state := .receivingData }, w,
      .command (lit "DATA") :: log, false⟩ last sent chunks' := by
  refine h.plainCommand hread (by decide) (.inr (.inr rfl)) ?_
    (isReply_constant (r := SmtpResponse.startMailInput) (by simp))
  have hparse : parse (lit "DATA") = { type := .data } := by decide
  have hsome : ¬ ((addressed domain sender recipients).state ≠ .waitRcpt ∨
      (addressed domain sender recipients).recipients = []) :=
    not_or.mpr ⟨not_not_intro rfl, mt List.map_eq_nil_iff.mp hne⟩
  rw [hparse, Smtp.handleCommand]
  dsimp only
  rw [SmtpSession.handleData, if_neg hsome]

/-! ## The message -/

/-- A line that is refused is the one whose reply is read. -/
theorem Facing.not_refused (h : Facing repo c last (line :: sent) chunks)
    (hread : Read [250] chunks chunks')
    (hr : r ∈ [SmtpResponse.messageStorageFailed, SmtpResponse.messageTooLarge,
      SmtpResponse.syntaxError]) :
    (processLine repo c.session c.world line).reply ≠ .ok r := by
  intro hreply
  have hcodes : ∀ r ∈ [SmtpResponse.messageStorageFailed, SmtpResponse.messageTooLarge,
      SmtpResponse.syntaxError], seenCode r ∉ [(250 : ℤ)] := by decide +kernel
  refine hcodes r hr (h.reply hread hreply (isReply_constant ?_)).2
  rcases List.mem_cons.mp hr with rfl | hr
  · simp
  · rcases List.mem_cons.mp hr with rfl | hr
    · simp
    · rw [List.mem_singleton.mp hr]
      simp

/-- Nothing is received behind the last line. -/
theorem Facing.eq_nil (h : Facing repo c last [] chunks) : chunks = [] := by
  obtain ⟨served, hserved, -, hchunks⟩ := h
  rw [List.prefix_nil.mp hserved] at hchunks
  exact List.prefix_nil.mp hchunks

/-- `SaveMessage` has not thrown: that has no reply and leaves the message open, so that `"QUIT"` is one
more line of it. -/
theorem Facing.not_thrown (hst : c.session.state = .receivingData)
    (h : Facing repo c last [lit ".", lit "QUIT"] chunks) (hread : Read [250] chunks chunks')
    {e : Exn} :
    (repo.saveMessage c.world c.session.sender c.session.recipients c.session.body).1 ≠ .error e := by
  intro hsaved
  have hline := processLine_data repo c.world hst length_dot_le
  rw [receiveData, if_pos rfl] at hline
  dsimp only at hline
  rw [hsaved] at hline
  have hquit := h.silent hread.ne_nil (by rw [replyTo, hline]; rfl)
  have hdata : (feed repo c (lit ".")).session.state = .receivingData := by
    rw [feed, hline]
    exact hst
  by_cases hfit : ((feed repo c (lit ".")).session.body ++ lit "QUIT" ++ lit "\n").length ≤
      Smtp.maxMessageSize
  · have happend := processLine_append repo (feed repo c (lit ".")).world hdata
      (by decide) (by decide) hfit
    exact absurd (hquit.silent hread.ne_nil (by rw [replyTo, happend]; rfl)).eq_nil hread.ne_nil
  · have hover := processLine_overflow repo (feed repo c (lit ".")).world hdata
      (by decide) (by decide) (Nat.lt_of_not_le hfit)
    exact absurd (by rw [hover])
      (hquit.not_refused hread (r := SmtpResponse.messageTooLarge) (by simp))

/-- **The end of data** is answered 250 where the message was stored. -/
theorem Facing.dot (hst : c.session.state = .receivingData)
    (h : Facing repo c last [lit ".", lit "QUIT"] chunks) (hread : Read [250] chunks chunks') :
    ∃ w', Facing repo ⟨{ c.session.resetMessage with state := .waitMail }, w',
      .saveMessage c.session.sender c.session.recipients c.session.body (.ok true) :: c.log, false⟩ last
        [lit "QUIT"] chunks' := by
  have hline := processLine_data repo c.world hst length_dot_le
  rw [receiveData, if_pos rfl] at hline
  dsimp only at hline
  cases hsaved : (repo.saveMessage c.world c.session.sender c.session.recipients c.session.body).1 with
  | error e => exact absurd hsaved (h.not_thrown hst hread)
  | ok stored =>
    rw [hsaved] at hline
    cases stored with
    | false =>
      exact absurd (by rw [hline])
        (h.not_refused hread (r := SmtpResponse.messageStorageFailed) (by simp))
    | true =>
      have hstored :=
        (h.reply hread (by rw [hline]) (isReply_constant (r := SmtpResponse.ok) (by simp))).1
      rw [feed, hline] at hstored
      exact ⟨_, hstored⟩

/-- **The reply that is read behind the message is the one to `"."`**, or no success: a line that was
not taken is answered before it. -/
theorem Facing.text : ∀ {ls : List Bytes} {c : Smtp.Connection ω}, (∀ l ∈ ls, l ≠ lit ".") →
    c.failed = false → c.session.state = .receivingData →
    Facing repo c last (ls ++ [lit ".", lit "QUIT"]) chunks → Read [250] chunks chunks' →
    ∃ w', Facing repo ⟨{ c.session.resetMessage with state := .waitMail }, w',
      .saveMessage c.session.sender c.session.recipients (c.session.body ++ joined ls) (.ok true) ::
        c.log, false⟩ last [lit "QUIT"] chunks'
  | [], c, _, _, hst, h, hread => by
      rw [joined_nil, List.append_nil]
      exact h.dot hst hread
  | l :: ls, c, hdot, hf, hst, h, hread => by
      obtain ⟨hl, hls⟩ := List.forall_mem_cons.mp hdot
      have hlen : l.length ≤ maxSmtpLine := by
        by_contra hlong
        rw [Nat.not_le] at hlong
        exact h.not_refused hread (r := SmtpResponse.syntaxError) (by simp)
          (by rw [processLine_tooLong repo c.world hlong])
      have hfit : (c.session.body ++ l ++ lit "\n").length ≤ Smtp.maxMessageSize := by
        by_contra hover
        rw [Nat.not_le] at hover
        exact h.not_refused hread (r := SmtpResponse.messageTooLarge) (by simp)
          (by rw [processLine_overflow repo c.world hst hlen hl hover])
      have hline := processLine_append repo c.world hst hlen hl hfit
      have hfeed : feed repo c l = c.grow (l ++ lit "\n") := by
        rw [feed, hline, Smtp.Connection.grow, hf, ← List.append_assoc]
        rfl
      have hnext := h.silent hread.ne_nil (by rw [replyTo, hline]; rfl)
      rw [hfeed] at hnext
      obtain ⟨w', hstored⟩ := Facing.text (c := c.grow (l ++ lit "\n")) hls hf hst hnext hread
      have hbody : (c.grow (l ++ lit "\n")).session.body ++ joined ls =
          c.session.body ++ joined (l :: ls) := by
        rw [joined_cons]
        exact List.append_assoc ..
      rw [hbody] at hstored
      exact ⟨w', hstored⟩

/-! ## The whole dialogue -/

/-- What the server is asked, from the first line on the secure channel to the end of data. -/
def callsOf (username authPayload u p : Bytes) (cmd : SendMailCommand) (mimePayload : Bytes) :
    List Call :=
  [.command (lit "EHLO " ++ username), .command (lit "AUTH PLAIN " ++ authPayload),
    .authorize (extractUsername u) p true, .command (lit "MAIL FROM:<" ++ cmd.sender ++ lit ">")] ++
    (collectRecipients cmd).map (Call.command ∘ Prod.fst ∘ rcptCommand) ++
    [.command (lit "DATA"), .saveMessage (extractUsername cmd.sender)
      ((collectRecipients cmd).map extractUsername)
      (joined ((payloadLines mimePayload).map escapeDot)) (.ok true)]

/-- `QUIT`, if it is processed. -/
theorem Facing.quit (hst : c.session.state = .waitMail) (h : Facing repo c last [lit "QUIT"] chunks) :
    ∃ quit, quit <+: [Call.command (lit "QUIT")] ∧ last.log.reverse = c.log.reverse ++ quit := by
  obtain ⟨served, hserved, rfl, -⟩ := h
  cases served with
  | nil => exact ⟨[], List.nil_prefix, (List.append_nil _).symm⟩
  | cons line served =>
    obtain ⟨rfl, hrest⟩ := List.cons_prefix_cons.mp hserved
    have hparse : (parse (lit "QUIT")).type = .quit := by decide
    rw [List.prefix_nil.mp hrest, List.foldl_cons, List.foldl_nil, feed,
      processLine_command repo (by decide) hst, Smtp.handleCommand, hparse]
    exact ⟨_, List.prefix_rfl, List.reverse_cons ..⟩

/-- **What a success says of the server**: it was asked this, and perhaps to `QUIT`. -/
theorem Facing.log_of_answered {cmd : SendMailCommand} {mimePayload : Bytes}
    {chunks₁ chunks₂ : List Bytes}
    (hpayload : buildSmtpPlainAuthPayload username password = some authPayload)
    (hne : collectRecipients cmd ≠ [])
    (h : Facing repo ⟨{ domain, secure := true }, w, [], false⟩ last
      ((commandsOf username authPayload cmd).map Prod.fst ++ (dataLines mimePayload ++ [lit "QUIT"]))
      chunks)
    (hcommands : Answered (commandsOf username authPayload cmd) chunks chunks₁)
    (hread : Read [250] chunks₁ chunks₂) {u p : Bytes}
    (hsplit : splitPlain (plainBlob username password) = some (u, p)) :
    ∃ quit, quit <+: [Call.command (lit "QUIT")] ∧
      last.log.reverse = callsOf username authPayload u p cmd mimePayload ++ quit := by
  have hlines : (commandsOf username authPayload cmd).map Prod.fst ++
      (dataLines mimePayload ++ [lit "QUIT"]) =
      (lit "EHLO " ++ username) :: (lit "AUTH PLAIN " ++ authPayload) ::
        (lit "MAIL FROM:<" ++ cmd.sender ++ lit ">") ::
        ((collectRecipients cmd).map (Prod.fst ∘ rcptCommand) ++ lit "DATA" ::
          ((payloadLines mimePayload).map escapeDot ++ [lit ".", lit "QUIT"])) := by
    simp [commandsOf, logInCommands, envelopeCommands, dataLines]
  rw [hlines] at h
  cases hcommands with
  | cons hehlo hcommands =>
  cases hcommands with
  | cons hauth hcommands =>
  cases hcommands with
  | cons hmail hcommands =>
  obtain ⟨_, hrcpts, hdata⟩ := hcommands.of_append
  cases hdata with
  | cons hdata hnone =>
  cases hnone
  obtain ⟨w', h⟩ := (h.ehlo hehlo).auth hpayload hauth hsplit
  have haddressed := (h.mail hmail).rcpts hrcpts
  obtain ⟨w'', hstored⟩ := (haddressed.data hne hdata).text
    (List.forall_mem_map.mpr fun l _ => escapeDot_ne_dot l) rfl rfl hread
  obtain ⟨quit, hquit, hlog⟩ := hstored.quit rfl
  refine ⟨quit, hquit, hlog.trans (congrArg (· ++ quit) ?_)⟩
  simp [callsOf, addressed, loggedIn, greeted]

end Facing

/-! ## Over the network -/

section Network

variable {κ ω : Type*} {X : Kx} {encrypt : (key ad nonce message : Bytes) → Option Bytes}
  {conn : Role → IConnection κ} {secret : Role → Bytes} {repo : Repo ω} {domain : Bytes} {w : ω} {k : κ}
  {n : Serving κ ω}

/-- What a success says of the part behind the handshake. -/
theorem submit_of_handleSendMail {username password : Bytes} {files : Bytes → Option Bytes}
    {drawn : Mime.Drawn} {cmd : SendMailCommand} {plain secure : Dialogue} {handshake : Bool}
    (h : (Dialogue.handleSendMail username password files drawn cmd plain handshake secure).1 =
      .ok ()) :
    ∃ lines, (submit username password files drawn cmd).run { secure with responseLines := lines } =
      (.ok (),
        (Dialogue.handleSendMail username password files drawn cmd plain handshake secure).2.2) := by
  rw [Dialogue.handleSendMail] at h ⊢
  cases hgreet : (greet username).run plain with
  | mk r plain' =>
    rw [hgreet] at h
    cases r with
    | error e => cases h
    | ok u =>
      dsimp only at h ⊢
      split_ifs at h with hshake
      rw [if_pos hshake]
      exact ⟨plain'.responseLines, Prod.ext h rfl⟩

/-- **A mail that is reported as sent was stored**, once and as it was sent: by a server that ran its
loop on the other end, whatever else happened on the network.  It was asked, in this order and nothing
else, for these credentials, which it granted, this sender, these recipients and this text, and
`SaveMessage` returned true. -/
theorem stored_of_handleSendMail (hX : X.Lawful) {acts : List (ServingAct κ)}
    (hrun : Run.exec (Serving.next X encrypt conn secret repo domain) (Serving.accept domain w k) acts =
      some n)
    (hbound : ∀ r, (n.link.ends r).attempted.length < 2 ^ 64)
    (hserver : (n.link.ends .server).stage = .secured (X.publicKey (secret .client)))
    (hclient : (n.link.ends .client).stage = .secured (X.publicKey (secret .server)))
    {username password : Bytes} {files : Bytes → Option Bytes} {drawn : Mime.Drawn}
    {cmd : SendMailCommand} {plain : Dialogue} {handshake : Bool} {sends : ℕ → Bool}
    (hsuccess : (Dialogue.handleSendMail username password files drawn cmd plain handshake
      { sends, chunks := (n.link.ends .client).received }).1 = .ok ())
    (hsent : (n.link.ends .client).attempted = (Dialogue.handleSendMail username password files drawn
      cmd plain handshake { sends, chunks := (n.link.ends .client).received }).2.2.sent) :
    ∃ authPayload mimePayload u p before quit,
      buildSmtpPlainAuthPayload username password = some authPayload ∧
      payloadOf files drawn cmd = .ok mimePayload ∧
      splitPlain (plainBlob username password) = some (u, p) ∧
      (∀ e ∈ before, ∃ line, e = Call.command line) ∧ quit <+: [Call.command (lit "QUIT")] ∧
      n.connection.log.reverse =
        before ++ callsOf username authPayload u p cmd mimePayload ++ quit := by
  have hinv := Serving.inv_of_exec hrun
  obtain ⟨payloads, hpayloads, hsince, -, hreceives⟩ := hinv.dialogue (hinv.inv_link hX hbound) hserver
  obtain ⟨replies, hreceived, hreplies⟩ := hreceives hclient
  obtain ⟨lines, hsubmit⟩ := submit_of_handleSendMail hsuccess
  obtain ⟨authPayload, mimePayload, chunks, hauth, hmime, hne, hcommands, hread, hall⟩ :=
    transcript_of_submit hsubmit
  obtain ⟨u, p, hsplit⟩ := exists_splitPlain username password
  obtain ⟨before, hbefore, hlog⟩ := hsince.log
  rw [hsent, hall] at hpayloads
  have hserved : payloads.map stripLineEnd <+: (commandsOf username authPayload cmd).map Prod.fst ++
      (dataLines mimePayload ++ [lit "QUIT"]) := by
    have hlines : ∀ ls : List Bytes, (linesOf ls).map stripLineEnd = ls := fun ls => by
      rw [linesOf, List.map_map]
      exact (List.map_congr_left fun l _ => stripLineEnd_crlf l).trans (List.map_id ls)
    rw [← hlines (_ ++ (dataLines mimePayload ++ [lit "QUIT"]))]
    exact hpayloads.map stripLineEnd
  have hfacing : Facing repo ⟨{ domain, secure := true }, w, [], false⟩
      (feedAll repo { domain, secure := true } w (payloads.map stripLineEnd))
      ((commandsOf username authPayload cmd).map Prod.fst ++ (dataLines mimePayload ++ [lit "QUIT"]))
      (n.link.ends .client).received :=
    ⟨_, hserved, rfl, hreceived ▸ hreplies.map stripLineEnd⟩
  obtain ⟨quit, hquit, hcalls⟩ := hfacing.log_of_answered hauth hne hcommands hread hsplit
  refine ⟨authPayload, mimePayload, u, p, before.reverse, quit, hauth, hmime, hsplit,
    fun e he => hbefore e (List.mem_reverse.mp he), hquit, ?_⟩
  rw [hlog, List.reverse_append, hcalls, List.append_assoc]

/-- A short mail. -/
def shortCommand : SendMailCommand where
  sender := lit "alice@x"
  «to» := [lit "bob@x"]
  body := lit "Hello."

def shortPayload : Bytes := (payloadOf (fun _ => none) Mime.drawnSample shortCommand).toOption.getD []

/-- What the client hears before the handshake. -/
def plainShort : Dialogue where
  chunks := [lit "220 localhost Service ready", lit "250-localhost", lit "250-STARTTLS",
    lit "250 AUTH LOGIN PLAIN", lit "220 Ready to start TLS"]

/-- What it does, and the server. -/
def sendsShort : List (ServingAct (Bytes × Bytes)) :=
  let nonce : Bytes := List.replicate nonceSize 7
  let receives : List (ServingAct (Bytes × Bytes)) := [.other (.receive .client)]
  let tells (line : Bytes) : List (ServingAct (Bytes × Bytes)) :=
    [.other (.send .client (line ++ lit "\r\n") nonce), .server nonce, .server nonce, .server nonce]
  [.server nonce] ++ receives ++ tells (lit "EHLO alice") ++ receives ++ receives ++ receives ++
    tells (lit "STARTTLS") ++ receives ++
    [.other (.startTLS .client), .server nonce, .server nonce, .other (.startTLS .client)] ++
    ((commandsOf (lit "alice") (lit "AGFsaWNlAHB3") shortCommand).map Prod.fst).flatMap
      (fun line => tells line ++ receives) ++
    (dataLines shortPayload).flatMap tells ++ receives ++ tells (lit "QUIT")

theorem stored_shortCommand :
    ∃ n, Run.exec (Serving.next Proto.Session.openKx markAead.encrypt Proto.Session.pipes
          Proto.Session.secrets aliceRepo (lit "localhost"))
        (Serving.accept (lit "localhost") () ([], [])) sendsShort = some n ∧
      ∃ mimePayload, payloadOf (fun _ => none) Mime.drawnSample shortCommand = .ok mimePayload ∧
        Call.saveMessage (lit "alice") [lit "bob"] (joined ((payloadLines mimePayload).map escapeDot))
          (.ok true) ∈ n.connection.log := by
  have hsome : (Run.exec (Serving.next Proto.Session.openKx markAead.encrypt Proto.Session.pipes
      Proto.Session.secrets aliceRepo (lit "localhost")) (Serving.accept (lit "localhost") () ([], []))
        sendsShort).any (fun n =>
          let sent := Dialogue.handleSendMail (lit "alice") (lit "pw") (fun _ => none)
            Mime.drawnSample shortCommand plainShort true { chunks := (n.link.ends .client).received }
          decide (sent.1 = .ok ()) && decide ((n.link.ends .client).attempted = sent.2.2.sent) &&
          decide ((n.link.ends .server).stage = .secured (Proto.Session.secrets .client)) &&
          decide ((n.link.ends .client).stage = .secured (Proto.Session.secrets .server)) &&
          decide ((n.link.ends .client).attempted.length < 2 ^ 64) &&
          decide ((n.link.ends .server).attempted.length < 2 ^ 64)) = true := by decide +kernel
  obtain ⟨n, hrun, hall⟩ := (Option.any_eq_true _ _).mp hsome
  simp only [Bool.and_eq_true, decide_eq_true_eq] at hall
  obtain ⟨⟨⟨⟨⟨hsuccess, hsent⟩, hserver⟩, hclient⟩, hlength⟩, hlength'⟩ := hall
  obtain ⟨_, mimePayload, u, p, before, quit, _, hmime, _, _, _, hlog⟩ :=
    stored_of_handleSendMail Proto.Session.lawful_openKx hrun (fun r => by cases r <;> assumption)
      hserver hclient hsuccess hsent
  refine ⟨n, hrun, mimePayload, hmime, ?_⟩
  rw [← List.mem_reverse, hlog]
  refine List.mem_append_left quit (List.mem_append_right before (List.mem_append_right _ ?_))
  exact List.mem_cons_of_mem _ List.mem_cons_self

end Network

end MailStack.Client
