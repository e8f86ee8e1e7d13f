import MailStack.Api.Login
import MailStack.Base64.File
import MailStack.Client.SendMail
import MailStack.Client.SmtpReply
import MailStack.Mime.Builder
import MailStack.Server.Main

/-!
# Client/Submission — `MailWorker::handleSendMail`, from the greeting to `QUIT`

    EHLO ──250──▸ AUTH ──235──▸ MAIL ──250──▸ RCPT … ──250──▸ DATA ──354──▸ text … "." ──250──▸ QUIT

The client sends a line and reads a reply, but for the lines of the message: these it sends without a
look at the channel, and takes the next reply for the reply to `"."`.
-/

open Bytes

namespace MailStack.Client

open Smtp Mime

/-! ## The dialogue -/

/-- `SendMailCommand`. -/
structure SendMailCommand where
  sender : Bytes
  «to» : List Bytes := []
  cc : List Bytes := []
  bcc : List Bytes := []
  recipients : List Bytes := []
  subject : Bytes := []
  body : Bytes := []
  htmlBody : Bytes := []
  attachments : List Bytes := []

/-- `CollectRecipients`: each address once, where it comes first. -/
def collectRecipients (cmd : SendMailCommand) : List Bytes :=
  ((cmd.to ++ cmd.cc ++ cmd.bcc ++ cmd.recipients).filter (· ≠ [])).eraseDups

/-- `JoinSmtpLines`. -/
def joinSmtpLines (lines : List Bytes) : Bytes := (lit " | ").intercalate lines

/-- A channel of `handleSendMail`: what `Send` returns, call by call, what it was handed so far, and the
chunks that are still to be received; and the `responseLines`. -/
structure Dialogue where
  sends : ℕ → Bool := fun _ => true
  sent : List Bytes := []
  chunks : List Bytes
  responseLines : List Bytes := []

/-- Why `handleSendMail` does not report a success. -/
inductive Unsent
  /-- It reports this text. -/
  | failed (error : Bytes)
  /-- It does not return. -/
  | stopped (f : Failure)
  deriving DecidableEq

/-- A part of `handleSendMail`. -/
abbrev DialogueM := ExceptT Unsent (StateM Dialogue)

namespace Dialogue

/-- `Send`. -/
def send (data : Bytes) (d : Dialogue) : Bool × Dialogue :=
  (d.sends d.sent.length, { d with sent := d.sent ++ [data] })

/-- `ReadSmtpResponse`, into the `responseLines`. -/
def receive (d : Dialogue) : Bool × Dialogue :=
  let r := readSmtpResponse d.chunks
  (r.ok, { d with chunks := r.chunks, responseLines := r.lines })

/-- The code of the `responseLines` is one of these. -/
def answered (okCodes : List ℤ) (d : Dialogue) : Bool := getSmtpCode d.responseLines ∈ okCodes

/-- `sendLine`; on the other channel it is `sendPlain`. -/
def sendLine (line : Bytes) (okCodes : List ℤ) (d : Dialogue) : Bool × Dialogue :=
  let sent := d.send (line ++ lit "\r\n")
  if sent.1 then
    let received := sent.2.receive
    (received.1 && received.2.answered okCodes, received.2)
  else sent

/-- `sendDataLine`. -/
def sendDataLine (line : Bytes) (d : Dialogue) : Bool × Dialogue := d.send (line ++ lit "\r\n")

end Dialogue

/-- What ends `handleSendMail` with a text where it returns false. -/
def orFail (f : Dialogue → Bool × Dialogue) (error : Dialogue → Bytes) : DialogueM Unit :=
  ExceptT.mk fun d => (if (f d).1 then .ok () else .error (.failed (error (f d).2)), (f d).2)

/-- A text, and the `responseLines`. -/
def withLines (text : Bytes) (d : Dialogue) : Bytes := text ++ joinSmtpLines d.responseLines

/-- What precedes the handshake. -/
def greet (username : Bytes) : DialogueM Unit := do
  orFail Dialogue.receive fun _ => lit "SMTP greeting failed"
  orFail (fun d => (d.answered [220], d)) fun _ => lit "SMTP greeting failed"
  orFail (Dialogue.sendLine (lit "EHLO " ++ username) [250]) (withLines (lit "EHLO failed: "))
  orFail (Dialogue.sendLine (lit "STARTTLS") [220]) (withLines (lit "STARTTLS failed: "))

/-- `EHLO` on the secure channel, and `AUTH`. -/
def logIn (username password : Bytes) : DialogueM Unit := do
  orFail (Dialogue.sendLine (lit "EHLO " ++ username) [250])
    (withLines (lit "EHLO after STARTTLS failed: "))
  match buildSmtpPlainAuthPayload username password with
  | none => orFail (fun d => (false, d)) (withLines (lit "AUTH failed: "))
  | some authPayload =>
    orFail (Dialogue.sendLine (lit "AUTH PLAIN " ++ authPayload) [235])
      (withLines (lit "AUTH failed: "))

/-- One round of the loop over the recipients. -/
def rcpt (address : Bytes) : DialogueM Unit :=
  orFail (Dialogue.sendLine (lit "RCPT TO:<" ++ address ++ lit ">") [250, 251])
    fun _ => lit "RCPT TO failed"

/-- The envelope. -/
def envelope (cmd : SendMailCommand) : DialogueM Unit := do
  orFail (Dialogue.sendLine (lit "MAIL FROM:<" ++ cmd.sender ++ lit ">") [250])
    fun _ => lit "MAIL FROM failed"
  if collectRecipients cmd = [] then throw (.failed (lit "No recipients provided"))
  (collectRecipients cmd).forM rcpt
  orFail (Dialogue.sendLine (lit "DATA") [354]) fun _ => lit "DATA failed"

/-- The email of a command, without its attachments. -/
def SendMailCommand.email (cmd : SendMailCommand) : Email :=
  { sender := cmd.sender
    «to» := if cmd.to ≠ [] then cmd.to else cmd.recipients
    cc := cmd.cc
    bcc := cmd.bcc
    subject := cmd.subject
    plainText := cmd.body
    htmlText := cmd.htmlBody }

/-- `std::filesystem::path(path).filename().string()`. -/
def fileName (path : Bytes) : Bytes := (cutLast '/'.toUInt8 path).elim path Prod.snd

/-- One round of the loop over the attachments. -/
def attach (files : Bytes → Option Bytes) (email : Email) (path : Bytes) : Except Unsent Email :=
  if path = [] then .ok email
  else match Base64.encodeFile (files path) with
    | .error e => .error (.stopped (.thrown e))
    | .ok encoded =>
      if encoded = [] then .error (.failed (lit "Attachment encode failed: " ++ path))
      else .ok (email.addAttachment (if fileName path = [] then path else fileName path) [] encoded)

/-- The MIME payload. -/
def payloadOf (files : Bytes → Option Bytes) (drawn : Drawn) (cmd : SendMailCommand) :
    Except Unsent Bytes := do
  let email ← cmd.attachments.foldlM (attach files) cmd.email
  match buildEmail {} drawn email with
  | .error f => throw (.stopped f)
  | .ok none => throw (.failed (lit "Failed to build MIME message"))
  | .ok (some mimePayload) => return mimePayload

/-- The message, and `QUIT`. -/
def text (mimePayload : Bytes) : DialogueM Unit := do
  (payloadLines mimePayload).forM fun line =>
    orFail (Dialogue.sendDataLine (escapeDot line)) fun _ => lit "Failed to send MIME payload"
  orFail (Dialogue.sendDataLine (lit ".")) fun _ => lit "Failed to terminate DATA"
  orFail Dialogue.receive fun _ => lit "Message body transfer failed"
  orFail (fun d => (d.answered [250], d)) (withLines (lit "Message rejected: "))
  orFail (fun d => (true, (d.send (lit "QUIT\r\n")).2)) fun _ => []

/-- What follows the handshake. -/
def submit (username password : Bytes) (files : Bytes → Option Bytes) (drawn : Drawn)
    (cmd : SendMailCommand) : DialogueM Unit := do
  logIn username password
  envelope cmd
  let mimePayload ← ExceptT.mk fun d => (payloadOf files drawn cmd, d)
  text mimePayload

/-- `handleSendMail`, once there is a connection: its result, and what became of the two channels. -/
def Dialogue.handleSendMail (username password : Bytes) (files : Bytes → Option Bytes) (drawn : Drawn)
    (cmd : SendMailCommand) (plain : Dialogue) (handshake : Bool) (secure : Dialogue) :
    Except Unsent Unit × Dialogue × Dialogue :=
  match (greet username).run plain with
  | (.error e, plain) => (.error e, plain, secure)
  | (.ok _, plain) =>
    if handshake then
      let r := (submit username password files drawn cmd).run
        { secure with responseLines := plain.responseLines }
      (r.1, plain, r.2)
    else (.error (.failed (lit "TLS handshake failed")), plain, secure)

/-! ## What a success says of the client -/

section Runs

variable {α β : Type} {d d' : Dialogue} {line : Bytes} {okCodes : List ℤ}
  {error : Dialogue → Bytes}

/-- **What returns has gone through its parts.** -/
theorem run_bind_eq_ok {x : DialogueM α} {f : α → DialogueM β} {b : β}
    (h : (x >>= f).run d = (.ok b, d')) :
    ∃ a d₁, x.run d = (.ok a, d₁) ∧ (f a).run d₁ = (.ok b, d') := by
  rw [ExceptT.run_bind] at h
  cases hx : x.run d with
  | mk r d₁ =>
    simp only [bind, StateT.bind, hx] at h
    cases r with
    | ok a => exact ⟨a, d₁, rfl, h⟩
    | error e => cases h

/-- A step that did not fail was done. -/
theorem run_orFail_eq_ok {f : Dialogue → Bool × Dialogue} {u : Unit}
    (h : (orFail f error).run d = (.ok u, d')) : (f d).1 = true ∧ d' = (f d).2 := by
  change ((if (f d).1 then Except.ok () else .error (Unsent.failed (error (f d).2))), (f d).2) = _ at h
  obtain ⟨hresult, rfl⟩ := Prod.mk.inj h
  split_ifs at hresult with hok
  exact ⟨hok, rfl⟩

/-- A reply is read whose code is one of these. -/
def Read (okCodes : List ℤ) (chunks chunks' : List Bytes) : Prop :=
  ∃ lines, readSmtpResponse chunks = ⟨true, lines, chunks'⟩ ∧ getSmtpCode lines ∈ okCodes

/-- What a command that was answered well leaves. -/
theorem run_sendLine_eq_ok {u : Unit}
    (h : (orFail (Dialogue.sendLine line okCodes) error).run d = (.ok u, d')) :
    Read okCodes d.chunks d'.chunks ∧ d'.sent = d.sent ++ [line ++ lit "\r\n"] := by
  obtain ⟨hok, rfl⟩ := run_orFail_eq_ok h
  rw [Dialogue.sendLine] at hok ⊢
  dsimp only at hok ⊢
  split_ifs at hok ⊢ with hsent
  · obtain ⟨hread, hcode⟩ := Bool.and_eq_true_iff.mp hok
    refine ⟨⟨(readSmtpResponse d.chunks).lines, ?_, of_decide_eq_true hcode⟩, rfl⟩
    rw [← show (readSmtpResponse d.chunks).ok = true from hread]
    rfl
  · exact absurd hok hsent

/-- A command, and the codes it may be answered with. -/
abbrev Command := Bytes × List ℤ

/-- The commands are answered one after the other. -/
inductive Answered : List Command → List Bytes → List Bytes → Prop
  | nil (chunks : List Bytes) : Answered [] chunks chunks
  | cons {c : Command} {cs : List Command} {chunks chunks₁ chunks₂ : List Bytes}
      (h : Read c.2 chunks chunks₁) (hs : Answered cs chunks₁ chunks₂) :
      Answered (c :: cs) chunks chunks₂

/-- Commands that were answered, one sequence after the other. -/
theorem Answered.append {cs cs' : List Command} {chunks chunks₁ chunks₂ : List Bytes}
    (h : Answered cs chunks chunks₁) (h' : Answered cs' chunks₁ chunks₂) :
    Answered (cs ++ cs') chunks chunks₂ := by
  induction h with
  | nil => exact h'
  | cons hread _ ih => exact .cons hread (ih h')

/-- And apart again. -/
theorem Answered.of_append : ∀ {cs cs' : List Command} {chunks chunks₂ : List Bytes},
    Answered (cs ++ cs') chunks chunks₂ →
      ∃ chunks₁, Answered cs chunks chunks₁ ∧ Answered cs' chunks₁ chunks₂
  | [], _, chunks, _, h => ⟨chunks, .nil _, h⟩
  | _ :: _, _, _, _, .cons h hs => by
      obtain ⟨chunks₁, hcs, hcs'⟩ := Answered.of_append hs
      exact ⟨chunks₁, .cons h hcs, hcs'⟩

/-- What commands send. -/
def linesOf (lines : List Bytes) : List Bytes := lines.map (· ++ lit "\r\n")

/-- The commands were sent and answered. -/
def Did (cs : List Command) (d d' : Dialogue) : Prop :=
  Answered cs d.chunks d'.chunks ∧ d'.sent = d.sent ++ linesOf (cs.map Prod.fst)

/-- What was done, one sequence after the other. -/
theorem Did.append {cs cs' : List Command} {d₁ : Dialogue} (h : Did cs d d₁) (h' : Did cs' d₁ d') :
    Did (cs ++ cs') d d' := by
  refine ⟨h.1.append h'.1, ?_⟩
  rw [h'.2, h.2, linesOf, linesOf, linesOf, List.map_append, List.map_append, List.append_assoc]

/-- A line was sent and its reply read. -/
theorem did_sendLine {u : Unit}
    (h : (orFail (Dialogue.sendLine line okCodes) error).run d = (.ok u, d')) :
    Did [(line, okCodes)] d d' := by
  obtain ⟨hread, hsent⟩ := run_sendLine_eq_ok h
  exact ⟨.cons hread (.nil _), hsent⟩

/-- The commands of `logIn`. -/
def logInCommands (username authPayload : Bytes) : List Command :=
  [(lit "EHLO " ++ username, [250]), (lit "AUTH PLAIN " ++ authPayload, [235])]

/-- The login was done. -/
theorem did_logIn {username password : Bytes} {u : Unit}
    (h : (logIn username password).run d = (.ok u, d')) :
    ∃ authPayload, buildSmtpPlainAuthPayload username password = some authPayload ∧
      Did (logInCommands username authPayload) d d' := by
  obtain ⟨_, d₁, hehlo, h⟩ := run_bind_eq_ok h
  have hdid := did_sendLine hehlo
  cases hpayload : buildSmtpPlainAuthPayload username password with
  | none =>
    rw [hpayload] at h
    exact absurd (run_orFail_eq_ok h).1 Bool.false_ne_true
  | some authPayload =>
    rw [hpayload] at h
    exact ⟨authPayload, rfl, hdid.append (did_sendLine h)⟩

/-- A command of the loop over the recipients. -/
def rcptCommand (address : Bytes) : Command := (lit "RCPT TO:<" ++ address ++ lit ">", [250, 251])

/-- So were the recipients. -/
theorem did_rcpts : ∀ {addresses : List Bytes} {d d' : Dialogue} {u : PUnit},
    (addresses.forM rcpt).run d = (.ok u, d') → Did (addresses.map rcptCommand) d d'
  | [], d, _, _, h => by
      obtain ⟨-, rfl⟩ := Prod.mk.inj h
      exact ⟨.nil _, (List.append_nil _).symm⟩
  | address :: addresses, _, _, _, h => by
      change (rcpt address >>= fun _ => addresses.forM rcpt).run _ = _ at h
      obtain ⟨_, d₁, haddress, h⟩ := run_bind_eq_ok h
      exact (did_sendLine haddress).append (did_rcpts h)

/-- The commands of `envelope`. -/
def envelopeCommands (cmd : SendMailCommand) : List Command :=
  (lit "MAIL FROM:<" ++ cmd.sender ++ lit ">", [250]) ::
    ((collectRecipients cmd).map rcptCommand ++ [(lit "DATA", [354])])

/-- So was the envelope. -/
theorem did_envelope {cmd : SendMailCommand} {u : Unit}
    (h : (envelope cmd).run d = (.ok u, d')) :
    collectRecipients cmd ≠ [] ∧ Did (envelopeCommands cmd) d d' := by
  obtain ⟨_, d₁, hmail, h⟩ := run_bind_eq_ok h
  by_cases hempty : collectRecipients cmd = []
  · rw [if_pos hempty] at h
    obtain ⟨_, _, hthrow, _⟩ := run_bind_eq_ok h
    cases hthrow
  · rw [if_neg hempty] at h
    obtain ⟨_, d₂, hrcpts, hdata⟩ := run_bind_eq_ok h
    exact ⟨hempty, (did_sendLine hmail).append ((did_rcpts hrcpts).append (did_sendLine hdata))⟩

/-- A line of the body was sent. -/
theorem run_sendDataLine_eq_ok {u : Unit}
    (h : (orFail (Dialogue.sendDataLine line) error).run d = (.ok u, d')) :
    d'.chunks = d.chunks ∧ d'.sent = d.sent ++ [line ++ lit "\r\n"] := by
  obtain ⟨-, rfl⟩ := run_orFail_eq_ok h
  exact ⟨rfl, rfl⟩

/-- So were the lines of the text. -/
theorem run_textLines_eq_ok : ∀ {ls : List Bytes} {d d' : Dialogue} {u : PUnit},
    (ls.forM fun line => orFail (Dialogue.sendDataLine (escapeDot line)) error).run d =
      (.ok u, d') → d'.chunks = d.chunks ∧ d'.sent = d.sent ++ linesOf (ls.map escapeDot)
  | [], _, _, _, h => by
      obtain ⟨-, rfl⟩ := Prod.mk.inj h
      exact ⟨rfl, (List.append_nil _).symm⟩
  | l :: ls, d, d', _, h => by
      change (orFail (Dialogue.sendDataLine (escapeDot l)) error >>= fun _ =>
        ls.forM fun line => orFail (Dialogue.sendDataLine (escapeDot line)) error).run _ = _ at h
      obtain ⟨_, d₁, hl, h⟩ := run_bind_eq_ok h
      obtain ⟨hchunks₁, hsent₁⟩ := run_sendDataLine_eq_ok hl
      obtain ⟨hchunks, hsent⟩ := run_textLines_eq_ok h
      refine ⟨hchunks.trans hchunks₁, ?_⟩
      rw [hsent, hsent₁, List.append_assoc]
      rfl

/-- **The message is sent without a look at the channel**, and one reply is read behind it. -/
theorem read_of_text {mimePayload : Bytes} {u : Unit}
    (h : (text mimePayload).run d = (.ok u, d')) :
    Read [250] d.chunks d'.chunks ∧
      d'.sent = d.sent ++ linesOf (dataLines mimePayload ++ [lit "QUIT"]) := by
  obtain ⟨_, d₁, hlines, h⟩ := run_bind_eq_ok h
  obtain ⟨_, d₂, hdot, h⟩ := run_bind_eq_ok h
  obtain ⟨_, d₃, hreceive, h⟩ := run_bind_eq_ok h
  obtain ⟨_, d₄, hcode, hquit⟩ := run_bind_eq_ok h
  obtain ⟨hchunks₁, hsent₁⟩ := run_textLines_eq_ok hlines
  obtain ⟨hchunks₂, hsent₂⟩ := run_sendDataLine_eq_ok hdot
  obtain ⟨hok, rfl⟩ := run_orFail_eq_ok hreceive
  obtain ⟨hanswered, rfl⟩ := run_orFail_eq_ok hcode
  obtain ⟨-, rfl⟩ := run_orFail_eq_ok hquit
  refine ⟨⟨(readSmtpResponse d₂.chunks).lines, ?_, of_decide_eq_true hanswered⟩, ?_⟩
  · rw [← hchunks₁, ← hchunks₂, ← show (readSmtpResponse d₂.chunks).ok = true from hok]
    rfl
  · change d₂.sent ++ [lit "QUIT\r\n"] = _
    rw [hsent₂, hsent₁, linesOf, linesOf, dataLines]
    simp only [List.map_append, List.map_map, List.append_assoc]
    rfl

/-- What `submit` sends before the message. -/
def commandsOf (username authPayload : Bytes) (cmd : SendMailCommand) : List Command :=
  logInCommands username authPayload ++ envelopeCommands cmd

/-- **What a client says and hears that reports a success.** -/
theorem transcript_of_submit {username password : Bytes} {files : Bytes → Option Bytes} {drawn : Drawn}
    {cmd : SendMailCommand} {u : Unit}
    (h : (submit username password files drawn cmd).run d = (.ok u, d')) :
    ∃ authPayload mimePayload chunks, buildSmtpPlainAuthPayload username password = some authPayload ∧
      payloadOf files drawn cmd = .ok mimePayload ∧ collectRecipients cmd ≠ [] ∧
      Answered (commandsOf username authPayload cmd) d.chunks chunks ∧ Read [250] chunks d'.chunks ∧
      d'.sent = d.sent ++ linesOf ((commandsOf username authPayload cmd).map Prod.fst ++
        (dataLines mimePayload ++ [lit "QUIT"])) := by
  obtain ⟨_, d₁, hlogIn, h⟩ := run_bind_eq_ok h
  obtain ⟨_, d₂, henvelope, h⟩ := run_bind_eq_ok h
  obtain ⟨mimePayload, d₃, hpayload, htext⟩ := run_bind_eq_ok h
  change (payloadOf files drawn cmd, d₂) = _ at hpayload
  obtain ⟨hmime, rfl⟩ := Prod.mk.inj hpayload
  obtain ⟨authPayload, hauth, hdid₁⟩ := did_logIn hlogIn
  obtain ⟨hne, hdid₂⟩ := did_envelope henvelope
  obtain ⟨hanswered, hsent⟩ := hdid₁.append hdid₂
  obtain ⟨hread, hsent'⟩ := read_of_text htext
  refine ⟨authPayload, mimePayload, d₂.chunks, hauth, hmime, hne, hanswered, hread, ?_⟩
  rw [hsent', hsent, List.append_assoc, commandsOf, linesOf, linesOf, linesOf, ← List.map_append]

end Runs

end MailStack.Client
