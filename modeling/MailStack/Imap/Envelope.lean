import MailStack.Imap.FetchLine
import MailStack.Mime.Parser

/-!
# Imap/Envelope — `BuildEnvelope`, and the dates `FETCH` prints

The quoted strings of an envelope are written as they are, between two double quotes.  `Writes` says
of the services that they are these functions, on a message whose file was parsed to an `Email`.
-/

open Bytes Search

namespace MailStack.Imap

open Store ImapResponse

/-! ## Dates -/

/-- `stream >> n`, for an `int`: the number, and what is left of the stream. -/
def readInt (s : Bytes) : Option (ℤ × Bytes) :=
  let t := s.dropWhile isSpace
  let negative := t.head? = some '-'.toUInt8
  let t := if negative ∨ t.head? = some '+'.toUInt8 then t.drop 1 else t
  let digits := t.takeWhile isDigit
  let value : ℤ := if negative then -digitsValue digits else digitsValue digits
  if digits = [] ∨ value < -2 ^ 31 ∨ 2 ^ 31 ≤ value then none
  else some (value, t.dropWhile isDigit)

/-- `stream >> c`, for a `char`. -/
def readChar (s : Bytes) : Option (UInt8 × Bytes) :=
  match s.dropWhile isSpace with
  | [] => none
  | c :: s => some (c, s)

/-- What `DateToEmlDate` and `DateToIMAPInternal` read. -/
structure DateTime where
  year : ℤ
  month : ℤ
  day : ℤ
  hour : ℤ
  minute : ℤ
  second : ℤ
  deriving DecidableEq, Repr

/-- `ss >> year >> dash1 >> … >> second`, and the four separators. -/
def readDate (s : Bytes) : Option (DateTime × List UInt8) := do
  let (year, s) ← readInt s
  let (dash1, s) ← readChar s
  let (month, s) ← readInt s
  let (dash2, s) ← readChar s
  let (day, s) ← readInt s
  let (hour, s) ← readInt s
  let (colon1, s) ← readChar s
  let (minute, s) ← readInt s
  let (colon2, s) ← readChar s
  let (second, _) ← readInt s
  return ({ year, month, day, hour, minute, second }, [dash1, dash2, colon1, colon2])

/-- The checks the two functions make, under the name of the one that makes them. -/
def parseDate (name : String) (str : Bytes) : Except Exn DateTime :=
  if str = [] then .error (.runtimeError (lit name ++ lit ": empty date string"))
  else
    match readDate str with
    | none =>
      .error (.runtimeError (lit name ++ lit ": failed to parse date string '" ++ str ++ lit "'"))
    | some (d, separators) =>
      if separators ≠ lit "--::" then
        .error (.runtimeError (lit name ++ lit ": invalid date format in '" ++ str ++ lit "'"))
      else if d.year < 1900 ∨ d.month < 1 ∨ d.month > 12 ∨ d.day < 1 ∨ d.day > 31 ∨ d.hour < 0 ∨
          d.hour > 23 ∨ d.minute < 0 ∨ d.minute > 59 ∨ d.second < 0 ∨ d.second > 59 then
        .error (.runtimeError (lit name ++ lit ": invalid date values in '" ++ str ++ lit "'"))
      else .ok d

def months : List Bytes :=
  [lit "Jan", lit "Feb", lit "Mar", lit "Apr", lit "May", lit "Jun",
    lit "Jul", lit "Aug", lit "Sep", lit "Oct", lit "Nov", lit "Dec"]

def days : List Bytes :=
  [lit "Sun", lit "Mon", lit "Tue", lit "Wed", lit "Thu", lit "Fri", lit "Sat"]

/-- `(n < 10 ? "0" : "") + std::to_string(n)`. -/
def twoDigits (n : ℤ) : Bytes := (if n < 10 then lit "0" else []) ++ decimal n

/-- `months[month - 1]`. -/
def DateTime.monthName (d : DateTime) : Bytes := months.getD (d.month - 1).toNat []

/-- The time of day, in UTC. -/
def DateTime.clock (d : DateTime) : Bytes :=
  twoDigits d.hour ++ lit ":" ++ twoDigits d.minute ++ lit ":" ++ twoDigits d.second ++ lit " +0000"

/-- The name of the weekday. -/
def DateTime.dayName (d : DateTime) : Bytes :=
  let month := if d.month < 3 then d.month + 12 else d.month
  let year := if d.month < 3 then d.year - 1 else d.year
  let dow := (d.day + 13 * (month + 1) / 5 + year + year / 4 - year / 100 + year / 400) % 7
  days.getD ((dow + 6) % 7).toNat []

/-- `DateToEmlDate`. -/
def dateToEmlDate (str : Bytes) : Except Exn Bytes := do
  let d ← parseDate "DateToEmlDate" str
  return d.dayName ++ lit ", " ++ twoDigits d.day ++ lit " " ++ d.monthName ++ lit " " ++
    decimal d.year ++ lit " " ++ d.clock

/-- `DateToIMAPInternal`. -/
def dateToIMAPInternal (str : Bytes) : Except Exn Bytes := do
  let d ← parseDate "DateToIMAPInternal" str
  return twoDigits d.day ++ lit "-" ++ d.monthName ++ lit "-" ++ decimal d.year ++ lit " " ++ d.clock

/-! ## The envelope -/

/-- The name in front of the `'<'`: `NIL`, or in quotes. -/
def personalName (name : Bytes) : Bytes :=
  let name := (name.reverse.dropWhile fun c => c = ' '.toUInt8 || c = '\t'.toUInt8).reverse
  if name = [] then lit "NIL"
  else
    let name :=
      if name.head? = some '"'.toUInt8 ∧ name.getLast? = some '"'.toUInt8 ∧ 1 < name.length then
        (name.drop 1).dropLast
      else name
    lit "\"" ++ name ++ lit "\""

/-- The name and the address of `name <address>`; of anything else the whole is the address. The
first '>' of the whole text has to stand behind the '<'. -/
def splitAddress (rawEmail : Bytes) : Bytes × Bytes :=
  match cut '<'.toUInt8 rawEmail with
  | none => (lit "NIL", rawEmail)
  | some (name, rest) =>
    if '>'.toUInt8 ∈ name then (lit "NIL", rawEmail)
    else
      match cut '>'.toUInt8 rest with
      | none => (lit "NIL", rawEmail)
      | some (address, _) => (personalName name, address)

/-- `FormatAddress`. -/
def formatAddress (rawEmail : Bytes) : Bytes :=
  if rawEmail = [] ∨ rawEmail = lit "NIL" then lit "NIL"
  else
    let (personal, address) := splitAddress rawEmail
    let (mailbox, host) := (cut '@'.toUInt8 address).getD (address, lit "unknown")
    lit "(" ++ personal ++ lit " NIL \"" ++ mailbox ++ lit "\" \"" ++ host ++ lit "\")"

/-- `get_list_of_receipients`: the last space becomes the closing parenthesis. -/
def recipientList (recipients : List Recipient) : Bytes :=
  if recipients = [] then lit "NIL "
  else
    (lit "(" ++ recipients.flatMap fun r => formatAddress r.address ++ lit " ").dropLast ++ lit ")"

/-- The fields of an envelope behind the subject. -/
def envelopeRest (sender : Bytes) (recipients : List Recipient) (inReplyTo messageId : Bytes) :
    Bytes :=
  formatAddress sender ++ lit " " ++ formatAddress sender ++ lit " " ++ formatAddress sender ++
    lit " " ++ recipientList (recipients.filter (·.type = .to)) ++
    recipientList (recipients.filter (·.type = .cc)) ++
    recipientList (recipients.filter (·.type = .bcc)) ++
    (if inReplyTo ≠ [] ∧ inReplyTo ≠ lit "NIL" then lit "<" ++ inReplyTo ++ lit "> "
      else lit "NIL ") ++ lit "\"" ++ messageId ++ lit "\")"

/-- `BuildEnvelope`, with the recipients it looks up. -/
def buildEnvelope (msg : Message) (email : Option Mime.Email) (recipients : List Recipient) :
    Except Exn Bytes := do
  let id ← msg.id.elim (.error .badOptionalAccess) .ok
  let sender := email.elim [] (·.sender)
  let subject := email.elim (msg.content.subject.getD []) (·.subject)
  let messageId := email.elim (lit "<" ++ decimal id ++ lit "@test.com>") (·.messageId)
  let inReplyTo := email.elim (msg.content.inReplyTo.getD (lit "NIL")) (·.inReplyTo)
  let date ← email.elim (dateToEmlDate msg.content.internalDate) fun e => .ok e.date
  return lit "(\"" ++ date ++ lit "\" \"" ++ subject ++ lit "\" " ++
    envelopeRest sender recipients inReplyTo messageId

/-- An envelope starts with the date and the subject, each in quotes. -/
theorem exists_of_buildEnvelope {msg : Message} {email : Mime.Email} {recipients : List Recipient}
    {envelope : Bytes} (h : buildEnvelope msg (some email) recipients = .ok envelope) :
    ∃ rest, envelope =
      lit "(\"" ++ email.date ++ lit "\" \"" ++ email.subject ++ lit "\" " ++ rest := by
  cases hid : msg.id with
  | none =>
    rw [buildEnvelope, hid] at h
    exact nomatch h
  | some id =>
    rw [buildEnvelope, hid] at h
    exact ⟨_, (Except.ok.inj h).symm⟩

/-- The letters of a date. -/
theorem notMem_dateToIMAPInternal {x : UInt8} (hdigit : isDigit x = false)
    (hwords : ∀ w ∈ [lit "-", lit ":", lit " ", lit " +0000", lit "0"] ++ months, x ∉ w)
    {s t : Bytes} (h : dateToIMAPInternal s = .ok t) : x ∉ t := by
  have hword : ∀ {w : Bytes}, w ∈ [lit "-", lit ":", lit " ", lit " +0000", lit "0"] → x ∉ w :=
    fun hw => hwords _ (List.mem_append_left _ hw)
  have hnumber : ∀ n : ℤ, x ∉ decimal n := fun n => notMem_decimal n hdigit fun hx =>
    hword List.mem_cons_self (hx ▸ List.mem_singleton_self x)
  have htwo : ∀ n : ℤ, x ∉ twoDigits n := by
    intro n
    rw [twoDigits]
    split_ifs
    · exact List.not_mem_append (hword (by decide)) (hnumber n)
    · exact hnumber n
  have hname : ∀ d : DateTime, x ∉ d.monthName := by
    intro d
    rw [DateTime.monthName, List.getD_eq_getElem?_getD]
    cases hd : months[(d.month - 1).toNat]? with
    | none => exact List.not_mem_nil
    | some name => exact hwords name (List.mem_append_right _ (List.mem_of_getElem? hd))
  cases hd : parseDate "DateToIMAPInternal" s with
  | error e =>
    rw [dateToIMAPInternal, hd] at h
    exact nomatch h
  | ok d =>
    rw [dateToIMAPInternal, hd] at h
    obtain rfl := Except.ok.inj h
    simp only [DateTime.clock, List.mem_append, not_or]
    exact ⟨⟨⟨⟨⟨⟨htwo _, hword (by decide)⟩, hname d⟩, hword (by decide)⟩, hnumber _⟩,
      hword (by decide)⟩, ⟨⟨⟨⟨htwo _, hword (by decide)⟩, htwo _⟩, hword (by decide)⟩, htwo _⟩,
      hword (by decide)⟩

/-! ## The line that shows a message -/

section Line

variable {α γ δ : Type} {S : Services} {cmd : ImapCommand} {m : Message} {email : Mime.Email}

/-- The services print as the functions above do, the file of the message being this email. -/
structure Prints (S : Services) (m : Message) (email : Mime.Email) : Prop where
  internalDate : S.dateToIMAPInternal = dateToIMAPInternal
  envelope : ∃ e, S.getParsedEmail m = .ok (some e) ∧
    ∀ recipients, S.buildEnvelope m (some e) recipients = buildEnvelope m (some email) recipients

theorem Yields.orThrow_bind {P : α → Prop} {r : Except Exn γ} {f : γ → HandlerM α}
    (hf : ∀ c, r = .ok c → Yields P (f c)) : Yields P (orThrow r >>= f) := by
  cases r with
  | ok c => exact hf c rfl
  | error e =>
    rintro d db a ⟨d', db', hs⟩
    exact nomatch (Prod.mk.inj (Prod.mk.inj hs).2).1

theorem forall₂_of_returns_mapM {P : δ → α → Prop} {f : δ → HandlerM α} :
    ∀ {l : List δ} {ts : List α} {d : Dispatcher} {db : DB}, (∀ x ∈ l, Yields (P x) (f x)) →
      Returns (l.mapM f) d db ts → List.Forall₂ P l ts
  | [], ts, d, db, _, h => by
      rw [List.mapM_nil] at h
      obtain ⟨_, _, hs⟩ := h
      obtain ⟨rfl, -⟩ := Serves.pure_iff.mp hs
      exact .nil
  | x :: l, ts, d, db, hf, h => by
      rw [List.mapM_cons] at h
      obtain ⟨d', db', hs⟩ := h
      obtain ⟨t, d₁, db₁, ht, hs⟩ := hs.of_bind
      obtain ⟨ts, hts, rfl⟩ := Serves.bind_pure_iff.mp hs
      exact .cons (hf x List.mem_cons_self d db t ⟨d₁, db₁, ht⟩)
        (forall₂_of_returns_mapM (fun y hy => hf y (List.mem_cons_of_mem x hy)) ⟨d', db', hts⟩)

/-- The items the client asks for. -/
def summaryItems : Bytes := lit "(FLAGS INTERNALDATE RFC822.SIZE ENVELOPE)"

/-- The first two strings of the envelope of an email. -/
def envelopeStart (email : Mime.Email) : Bytes :=
  lit "ENVELOPE (\"" ++ email.date ++ lit "\" \"" ++ email.subject ++ lit "\" "

/-- What the texts of the items are known to be. -/
def ItemText (email : Mime.Email) (item t : Bytes) : Prop :=
  if item = lit "ENVELOPE" then ∃ rest, t = envelopeStart email ++ rest ++ lit " "
  else 'V'.toUInt8 ∉ t ∧ '\n'.toUInt8 ∉ t

theorem notMem_flagNames {x : UInt8}
    (hx : ∀ w ∈ [lit "\\Seen ", lit "\\Deleted ", lit "\\Draft ", lit "\\Answered ",
      lit "\\Flagged ", lit "\\Recent "], x ∉ w) (f : Flags) : x ∉ flagNames f := by
  have hflag : ∀ {set : Bool} {w : Bytes}, x ∉ w → x ∉ if set then w else [] := by
    intro set w hw
    cases set
    · exact List.not_mem_nil
    · exact hw
  simp only [List.forall_mem_cons] at hx
  obtain ⟨h₁, h₂, h₃, h₄, h₅, h₆, -⟩ := hx
  simp only [flagNames, List.mem_append, not_or]
  exact ⟨⟨⟨⟨⟨hflag h₁, hflag h₂⟩, hflag h₃⟩, hflag h₄⟩, hflag h₅⟩, hflag h₆⟩

theorem mem_popSpace {x : UInt8} {s : Bytes} (h : x ∈ popSpace s) : x ∈ s := by
  rw [popSpace] at h
  split_ifs at h
  · exact (List.dropLast_sublist s).subset h
  · exact h

theorem yields_flags :
    Yields (fun t => 'V'.toUInt8 ∉ t ∧ '\n'.toUInt8 ∉ t) (fetchItem S cmd m (lit "FLAGS")) := by
  have hflags : ∀ {x : UInt8}, x ∉ lit "FLAGS (" → x ∉ lit ") " → x ∉ flagNames m.flags →
      x ∉ popSpace (lit "FLAGS (" ++ flagNames m.flags) ++ lit ") " := fun h h' hnames =>
    List.not_mem_append (fun hx => List.not_mem_append h hnames (mem_popSpace hx)) h'
  refine .pure (a := popSpace (lit "FLAGS (" ++ flagNames m.flags) ++ lit ") ") ⟨?_, ?_⟩
  · exact hflags (by decide) (by decide) (notMem_flagNames (by decide) _)
  · exact hflags (by decide) (by decide) (notMem_flagNames (by decide) _)

theorem yields_internalDate (hdate : S.dateToIMAPInternal = dateToIMAPInternal) :
    Yields (fun t => 'V'.toUInt8 ∉ t ∧ '\n'.toUInt8 ∉ t)
      (fetchItem S cmd m (lit "INTERNALDATE")) := by
  have hitem : fetchItem S cmd m (lit "INTERNALDATE") =
      (do return lit "INTERNALDATE \"" ++ (← orThrow (S.dateToIMAPInternal m.content.internalDate)) ++
        lit "\" ") := rfl
  rw [hitem, hdate]
  refine .orThrow_bind fun t ht => .pure ⟨?_, ?_⟩
  · have := notMem_dateToIMAPInternal (x := 'V'.toUInt8) (by decide) (by decide) ht
    exact List.not_mem_append (List.not_mem_append (by decide) this) (by decide)
  · have := notMem_dateToIMAPInternal (x := '\n'.toUInt8) (by decide) (by decide) ht
    exact List.not_mem_append (List.not_mem_append (by decide) this) (by decide)

theorem yields_size :
    Yields (fun t => 'V'.toUInt8 ∉ t ∧ '\n'.toUInt8 ∉ t)
      (fetchItem S cmd m (lit "RFC822.SIZE")) := by
  have hsize : ∀ {x : UInt8}, isDigit x = false → x ≠ '-'.toUInt8 → x ∉ lit "RFC822.SIZE " →
      x ∉ lit " " → x ∉ lit "RFC822.SIZE " ++ decimal m.content.sizeBytes ++ lit " " :=
    fun hdigit hminus h h' =>
      List.not_mem_append (List.not_mem_append h (notMem_decimal _ hdigit hminus)) h'
  refine .pure (a := lit "RFC822.SIZE " ++ decimal m.content.sizeBytes ++ lit " ") ⟨?_, ?_⟩
  · exact hsize (by decide) (by decide) (by decide) (by decide)
  · exact hsize (by decide) (by decide) (by decide) (by decide)

theorem yields_envelope (hS : Prints S m email) :
    Yields (fun t => ∃ rest, t = envelopeStart email ++ rest ++ lit " ")
      (fetchItem S cmd m (lit "ENVELOPE")) := by
  obtain ⟨e, hemail, henvelope⟩ := hS.envelope
  have hitem : fetchItem S cmd m (lit "ENVELOPE") = (do
      let email ← orThrow (S.getParsedEmail m)
      let recipients ← ask (MessageRepository.findRecipientsByMessage (← value m.id))
      return lit "ENVELOPE " ++ (← orThrow (S.buildEnvelope m email recipients)) ++ lit " ") := rfl
  rw [hitem, hemail]
  refine .orThrow_bind fun e' he => ?_
  obtain rfl := Except.ok.inj he
  refine .bind fun id => .bind fun recipients => .orThrow_bind fun envelope henv => .pure ?_
  rw [henvelope] at henv
  obtain ⟨rest, rfl⟩ := exists_of_buildEnvelope henv
  exact ⟨rest, by simp only [envelopeStart, List.append_assoc]; rfl⟩

/-- What stands in front of the envelope is one line without the letter `V`. -/
theorem exists_of_returns_summary {d : Dispatcher} {db : DB} {data : Bytes} (hS : Prints S m email)
    (h : Returns (fetchData S cmd (lit "(") (fetchItems summaryItems) m) d db data) :
    ∃ pre rest, data = pre ++ envelopeStart email ++ rest ∧ 'V'.toUInt8 ∉ pre ∧
      '\n'.toUInt8 ∉ pre := by
  obtain ⟨texts, htexts, rfl⟩ := returns_fetchData.mp h
  have hitems : fetchItems summaryItems =
      [lit "FLAGS", lit "INTERNALDATE", lit "RFC822.SIZE", lit "ENVELOPE"] := by decide
  rw [hitems] at htexts
  have hforall : List.Forall₂ (ItemText email) _ texts := forall₂_of_returns_mapM (by
    simp only [List.forall_mem_cons]
    exact ⟨yields_flags, yields_internalDate hS.internalDate, yields_size, yields_envelope hS,
      fun _ hx => absurd hx List.not_mem_nil⟩) htexts
  rcases hforall with _ | ⟨h₁, _ | ⟨h₂, _ | ⟨h₃, _ | ⟨⟨rest, rfl⟩, ⟨⟩⟩⟩⟩⟩
  rename_i t₁ t₂ t₃
  have hpre : ∀ {x : UInt8}, x ∉ lit "(" → x ∉ t₁ → x ∉ t₂ → x ∉ t₃ →
      x ∉ lit "(" ++ t₁ ++ t₂ ++ t₃ := by
    intro x h h₁ h₂ h₃
    exact List.not_mem_append (List.not_mem_append (List.not_mem_append h h₁) h₂) h₃
  refine ⟨lit "(" ++ t₁ ++ t₂ ++ t₃, rest ++ lit ")", ?_,
    hpre (by decide) h₁.1 h₂.1 h₃.1, hpre (by decide) h₁.2 h₂.2 h₃.2⟩
  have hdata : lit "(" ++ [t₁, t₂, t₃, envelopeStart email ++ rest ++ lit " "].flatten =
      lit "(" ++ t₁ ++ t₂ ++ t₃ ++ envelopeStart email ++ rest ++ lit " " := by
    simp only [List.flatten_cons, List.flatten_nil, List.append_nil, List.append_assoc]
  have hspace : popSpace (lit " ") = [] := rfl
  rw [hdata, popSpace_append (by decide), hspace]
  simp only [List.append_nil, List.append_assoc]

/-- The numbers from `first` to `last`. -/
def pageRange (first last : ℕ) : Bytes := decimal first ++ lit ":" ++ decimal last

/-- The range that the client asks for. -/
theorem seqPart_pageRange {first last : ℕ} (hle : first ≤ last) (hlast : (last : ℤ) < int64Max)
    (maxValue : ℤ) : seqPart maxValue [] (pageRange first last) = seqRange [] first last := by
  have hnumber : ∀ n : ℕ, (n : ℤ) ≤ int64Max → seqNumber maxValue (decimal n) = .ok n := by
    intro n hn
    have hstar : decimal n ≠ lit "*" := fun h =>
      notMem_decimal n (x := '*'.toUInt8) (by decide) (by decide) (by rw [h]; decide)
    rw [seqNumber, if_neg hstar, stoll_decimal (by omega) hn]
  have hcut : cut ':'.toUInt8 (pageRange first last) = some (decimal first, decimal last) := by
    refine cut_eq_some_iff.mpr ⟨?_, notMem_decimal _ (by decide) (by decide)⟩
    rw [pageRange, List.append_assoc]
    rfl
  rw [seqPart, hcut]
  dsimp only
  rw [hnumber first (by omega), hnumber last (by omega)]
  change seqRange [] (min (first : ℤ) last) (max (first : ℤ) last) = _
  rw [min_eq_left (by omega), max_eq_right (by omega)]

/-- The numbers that the client asks for, in their order, if the server can hold them. -/
theorem parseSequenceSet_pageRange {first last : ℕ} (hle : first ≤ last)
    (hlast : (last : ℤ) < int64Max) (maxValue : ℤ) :
    parseSequenceSet (pageRange first last) maxValue =
      if maxVectorSize < last - first + 1 then .error (.throw .lengthError)
      else .ok ((List.range (last - first + 1)).map fun j : ℕ => (first : ℤ) + j) := by
  have hnot : ∀ {x : UInt8}, isDigit x = false → x ≠ '-'.toUInt8 → x ∉ lit ":" →
      x ∉ pageRange first last := by
    intro x hdigit hminus hcolon
    exact List.not_mem_append (List.not_mem_append (notMem_decimal _ hdigit hminus) hcolon)
      (notMem_decimal _ hdigit hminus)
  have hsplit : split (pageRange first last) ','.toUInt8 = [pageRange first last] :=
    getlines_of_notMem (hnot (by decide) (by decide) (by decide)) (append_ne_nil (decimal_ne_nil _))
  have hlength : ((last : ℤ) - first + 1).toNat = last - first + 1 := by omega
  have hsorted : ((List.range (last - first + 1)).map fun j : ℕ => (first : ℤ) + j).Pairwise
      (· < ·) := by
    refine List.Pairwise.map _ (fun a b hab => ?_) List.pairwise_lt_range
    omega
  have hnodup : ((List.range (last - first + 1)).map fun j : ℕ => (first : ℤ) + j).Nodup :=
    hsorted.imp fun h => ne_of_lt h
  rw [parseSequenceSet, hsplit, List.foldlM_cons, seqPart_pageRange hle hlast, seqRange, hlength,
    List.length_nil, Nat.zero_add, List.nil_append, if_neg (c := (last : ℤ) = int64Max) (by omega)]
  split_ifs
  · rfl
  · change Except.ok ((List.insertionSort (· ≤ ·) _).dedup) = _
    rw [List.Pairwise.insertionSort_eq (hsorted.imp fun h => le_of_lt h), hnodup.dedup]

theorem toSizeT_natCast {n : ℕ} (h : (n : ℤ) ≤ int64Max) : toSizeT n = n := by
  rw [int64Max] at h
  rw [toSizeT, Int.emod_eq_of_lt] <;> omega

/-- **The first line of a page.** -/
theorem exists_of_returns_page {u inbox : ℤ} {first last : ℕ} {d : Dispatcher} {db : DB}
    {lines : List Bytes} (hd : InMailbox u inbox d db) (hle : first ≤ last)
    (hlast : (last : ℤ) < int64Max) (hk : nthMessage db inbox first = some m)
    (hargs : cmd.args = [pageRange first last, summaryItems]) (hS : Prints S m email)
    (h : Returns (fetchLines S cmd) d db lines) :
    ∃ pre rest, lines.flatten =
        lit "* " ++ decimal first ++ lit " FETCH " ++ pre ++ envelopeStart email ++ rest ∧
      'V'.toUInt8 ∉ pre ∧ '\n'.toUInt8 ∉ pre := by
  have harg₀ : cmd.args[0]? = some (pageRange first last) := by rw [hargs]; rfl
  have harg₁ : cmd.args[1]? = some summaryItems := by rw [hargs]; rfl
  have hids := parseSequenceSet_pageRange hle hlast (MessageDAL.findByFolder db inbox 50 0).length
  rw [fetchLines, Returns.bind_iff (serves_mailboxID hd),
    Returns.bind_iff (serves_findByFolder inbox), Returns.bind_iff (.arg harg₀)] at h
  split_ifs at hids
  · obtain ⟨d₁, db₁, hs⟩ := h
    exact absurd hs ((Stops.sequenceSet hids).bind _).not_serves
  rw [List.range_succ_eq_map, List.map_cons, Int.natCast_zero, Int.add_zero] at hids
  generalize List.map (fun j : ℕ => (first : ℤ) + j) _ = ids at hids
  have hselect : selectMessages (MessageDAL.findByFolder db inbox 50 0) ((first : ℤ) :: ids) =
      m :: selectMessages (MessageDAL.findByFolder db inbox 50 0) ids :=
    List.filterMap_cons_some hk
  rw [Returns.bind_iff (.sequenceSet hids), Returns.bind_iff (.arg harg₁)] at h
  rw [hselect, List.zip_cons_cons, List.mapM_cons] at h
  obtain ⟨d₁, db₁, hs⟩ := h
  obtain ⟨line, d₂, db₂, hline, hs⟩ := hs.of_bind
  obtain ⟨others, -, rfl⟩ := Serves.bind_pure_iff.mp hs
  obtain ⟨data, hdata, rfl⟩ := Serves.bind_pure_iff.mp hline
  obtain ⟨pre, rest, rfl, hV, hlf⟩ := exists_of_returns_summary hS ⟨d₂, db₂, hdata⟩
  refine ⟨pre, rest ++ lit "\r\n" ++ others.flatten, ?_, hV, hlf⟩
  rw [List.flatten_cons, toSizeT_natCast (by omega), fetch]
  simp only [List.append_assoc]

end Line

end MailStack.Imap
