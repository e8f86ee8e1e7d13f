import MailStack.Client.Exchange
import MailStack.Imap.Create
import MailStack.Imap.Envelope
import MailStack.Mime.Subject

/-!
# Client/Summaries — the strings `handleFetchFolders` and `handleFetchMails` read

The client quotes and escapes what it sends; the server writes names and subjects between quotes as
they are, and the client looks for the quotes.  Of a folder name it takes what stands behind the
last quote, of a subject what stands before the first: `strings_survive_iff`.
-/

open Bytes Search

namespace MailStack.Client

open Imap Store ImapResponse Proto

/-! ## `handleFetchFolders` -/

/-- The text between the last two quotes of a line. Where the last quote stands first, `pos - 1`
wraps around and the search finds the same quote. -/
def folderName (line : Bytes) : Option Bytes :=
  match cutLast '"'.toUInt8 line with
  | none => none
  | some ([], rest) => some rest
  | some (front, _) => (cutLast '"'.toUInt8 front).map Prod.snd

/-- The folders that `handleFetchFolders` reports. -/
def fetchFolders (lines : List Bytes) : List Bytes := lines.filterMap folderName

/-! ## `handleFetchMails` -/

/-- `MailSummary`. -/
structure MailSummary where
  mailId : ℤ := 0
  isSeen : Bool := false
  isFlagged : Bool := false
  subject : Bytes := []
  date : Bytes := []
  deriving DecidableEq, Repr

/-- `ExtractFlags`: `isSeen` and `isFlagged`. -/
def extractFlags (lines : List Bytes) : Bool × Bool :=
  match lines.find? (contains (lit "FLAGS (")) with
  | none => (false, false)
  | some line => (contains (lit "\\Seen") line, contains (lit "\\Flagged") line)

/-- The lines that `fetchStarts` collects. -/
def isFetchStart (line : Bytes) : Bool :=
  (lit "* ").isPrefixOf line && contains (lit " FETCH ") line

/-- The lines from each start up to the next. -/
def fetchBlocks : List Bytes → List (List Bytes)
  | [] => []
  | line :: lines =>
    if isFetchStart line then
      (line :: lines.takeWhile fun l => !isFetchStart l) :: fetchBlocks lines
    else fetchBlocks lines

/-- `stoll(line.substr(2, line.find(" FETCH ") - 2))`, if it does not throw. A length below 0 is
the longest there is. -/
def seqId (line : Bytes) : Option ℤ := do
  let (front, _) ← cutSub (lit " FETCH ") line
  (stoll (if front.length < 2 then line.drop 2 else front.drop 2)).toOption

/-- The text between the next two quotes, and what follows. -/
def nextQuoted (s : Bytes) : Option (Bytes × Bytes) := do
  let (_, s) ← cut '"'.toUInt8 s
  cut '"'.toUInt8 s

/-- The date and the subject of an envelope. -/
def dateAndSubject (block : List Bytes) : Bytes × Bytes :=
  match cutSub (lit "ENVELOPE (") (unlines block) with
  | none => ([], [])
  | some (_, env) =>
    match nextQuoted env with
    | none => ([], [])
    | some (date, rest) => (date, (nextQuoted rest).elim [] Prod.fst)

/-- The summary of a block. -/
def mailSummary : List Bytes → Option MailSummary
  | [] => none
  | line :: lines => do
    let mailId ← seqId line
    let block := line :: lines
    return {
      mailId
      isSeen := (extractFlags block).1
      isFlagged := (extractFlags block).2
      subject := (dateAndSubject block).2
      date := (dateAndSubject block).1 }

/-- The summaries that `handleFetchMails` reports. -/
def fetchMails (lines : List Bytes) : List MailSummary := (fetchBlocks lines).filterMap mailSummary

/-! ## The name of a folder -/

section Folders

variable {name : Bytes}

/-- The text behind the last quote, or the whole of it. -/
def behindLastQuote (name : Bytes) : Bytes := (cutLast '"'.toUInt8 name).elim name Prod.snd

/-- A name without a quote is kept whole. -/
theorem behindLastQuote_of_notMem (h : '"'.toUInt8 ∉ name) : behindLastQuote name = name := by
  have hcut : cutLast '"'.toUInt8 name = none := by
    rw [cutLast, cut_eq_none (by simpa using h), Option.map_none]
  rw [behindLastQuote, hcut, Option.elim_none]

/-- A text is split at the last of its characters of one kind. -/
theorem exists_last {c : UInt8} {s : Bytes} (h : c ∈ s) : ∃ a b, s = a ++ c :: b ∧ c ∉ b := by
  obtain ⟨a, b, hs, ha⟩ := List.eq_append_cons_of_mem (List.mem_reverse.mpr h)
  exact ⟨b.reverse, a.reverse, by rw [← List.reverse_reverse s, hs]; simp, by simpa using ha⟩

/-- A name with a quote loses something. -/
theorem length_behindLastQuote_lt (h : '"'.toUInt8 ∈ name) :
    (behindLastQuote name).length < name.length := by
  obtain ⟨a, b, rfl, hb⟩ := exists_last h
  rw [behindLastQuote, cutLast_append_cons hb, Option.elim_some]
  simp only [List.length_append, List.length_cons]
  omega

/-- The line of a folder, as the client cuts it. -/
def folderLine (name : Bytes) : Bytes :=
  lit "* LIST (\\HasNoChildren) \"/\" \"" ++ name ++ lit "\""

/-- From a line of the listing the client reads what is behind the last quote. -/
theorem folderName_folderLine (name : Bytes) :
    folderName (folderLine name) = some (behindLastQuote name) := by
  have hopen : lit "* LIST (\\HasNoChildren) \"/\" \"" =
      lit "* LIST (\\HasNoChildren) \"/\" " ++ ['"'.toUInt8] := rfl
  have hlast : cutLast '"'.toUInt8 (folderLine name) =
      some (lit "* LIST (\\HasNoChildren) \"/\" \"" ++ name, []) :=
    cutLast_append_cons List.not_mem_nil
  have hbehind : (cutLast '"'.toUInt8 (lit "* LIST (\\HasNoChildren) \"/\" \"" ++ name)).map
      Prod.snd = some (behindLastQuote name) := by
    by_cases h : '"'.toUInt8 ∈ name
    · obtain ⟨a, b, rfl, hb⟩ := exists_last h
      rw [behindLastQuote, ← List.append_assoc, cutLast_append_cons hb, cutLast_append_cons hb]
      rfl
    · rw [behindLastQuote_of_notMem h, hopen, List.append_assoc, List.singleton_append,
        cutLast_append_cons h]
      rfl
  rw [folderName, hlast]
  exact hbehind

/-- A name without line breaks is listed on one line. -/
theorem frameLines_mailbox (h : NoBreak name) :
    frameLines (mailbox "LIST" name "HasNoChildren") = [folderLine name] := by
  have hline : mailbox "LIST" name "HasNoChildren" =
      (folderLine name ++ ['\r'.toUInt8]) ++ '\n'.toUInt8 :: [] := by
    simp only [mailbox, folderLine, List.append_assoc]
    rfl
  have hlf : '\n'.toUInt8 ∉ folderLine name ++ ['\r'.toUInt8] :=
    List.not_mem_append (List.not_mem_append (List.not_mem_append (by decide) h.2) (by decide))
      (by decide +kernel)
  rw [frameLines, hline, getlines_append_cons _ hlf]
  simp only [getlines, List.map_cons, List.map_nil, List.getLast?_concat, if_true,
    List.dropLast_concat]

/-- So the client sees what is behind the last quote of the name. -/
theorem fetchFolders_mailbox (h : NoBreak name) :
    fetchFolders (frameLines (mailbox "LIST" name "HasNoChildren")) = [behindLastQuote name] := by
  rw [frameLines_mailbox h, fetchFolders, List.filterMap_cons, folderName_folderLine]
  rfl

/-- A C string is cut at its first zero. -/
theorem cstr_eq_self_iff : cstr name = name ↔ 0 ∉ name := by
  rw [cstr, List.takeWhile_eq_self_iff]
  simp only [decide_eq_true_eq]
  exact ⟨fun h h₀ => h 0 h₀ rfl, fun h x hx hx₀ => h (hx₀ ▸ hx)⟩

/-- **A name is read back exactly when it has no quote**, and no NUL that the database cut it at. -/
theorem fetchFolders_cstr_iff (h : NoBreak name) :
    fetchFolders (frameLines (mailbox "LIST" (cstr name) "HasNoChildren")) = [name] ↔
      '"'.toUInt8 ∉ name ∧ 0 ∉ name := by
  have hsub : cstr name ⊆ name := (List.takeWhile_prefix _).subset
  have hle : (cstr name).length ≤ name.length := (List.takeWhile_prefix _).length_le
  have hbreak : NoBreak (cstr name) := ⟨fun hx => h.1 (hsub hx), fun hx => h.2 (hsub hx)⟩
  rw [fetchFolders_mailbox hbreak, List.singleton_inj]
  constructor
  · intro hname
    have hlength := congrArg List.length hname
    have hquote : '"'.toUInt8 ∉ cstr name := fun hq => by
      have hlt := length_behindLastQuote_lt hq
      omega
    rw [behindLastQuote_of_notMem hquote] at hname
    exact ⟨hname ▸ hquote, cstr_eq_self_iff.mp hname⟩
  · rintro ⟨hquote, hnul⟩
    rw [cstr_eq_self_iff.mpr hnul, behindLastQuote_of_notMem hquote]

end Folders

/-! ## The subject of a mail -/

section Subjects

variable {email : Mime.Email} {pre t tag : Bytes} {k : ℕ} {more : List Bytes}

/-- The text in front of the first quote, or the whole of it. -/
def beforeFirstQuote (subject : Bytes) : Bytes := subject.takeWhile (· ≠ '"'.toUInt8)

/-- A subject is whole if it has no quote. -/
theorem beforeFirstQuote_eq_self_iff {subject : Bytes} :
    beforeFirstQuote subject = subject ↔ '"'.toUInt8 ∉ subject := by
  rw [beforeFirstQuote, List.takeWhile_eq_self_iff]
  simp only [decide_eq_true_eq]
  exact ⟨fun h hq => h _ hq rfl, fun h x hx hxq => h (hxq ▸ hx)⟩

/-- The next quoted text ends at the first quote in it. -/
theorem nextQuoted_append {a : Bytes} (ha : '"'.toUInt8 ∉ a) (s t : Bytes) :
    ∃ rest, nextQuoted (a ++ '"'.toUInt8 :: (s ++ '"'.toUInt8 :: t)) =
      some (beforeFirstQuote s, rest) ∧ ('"'.toUInt8 ∉ s → rest = t) := by
  have hopen : cut '"'.toUInt8 (a ++ '"'.toUInt8 :: (s ++ '"'.toUInt8 :: t)) =
      some (a, s ++ '"'.toUInt8 :: t) := cut_eq_some_iff.mpr ⟨rfl, ha⟩
  by_cases hs : '"'.toUInt8 ∈ s
  · obtain ⟨x, y, rfl, hx⟩ := List.eq_append_cons_of_mem hs
    have hbefore : beforeFirstQuote (x ++ '"'.toUInt8 :: y) = x := by
      rw [beforeFirstQuote, List.takeWhile_append_of_pos fun z hz => ?_,
        List.takeWhile_cons_of_neg (by simp), List.append_nil]
      exact decide_eq_true fun hzq => hx (hzq ▸ hz)
    refine ⟨y ++ '"'.toUInt8 :: t, ?_, fun h => absurd hs h⟩
    simp only [nextQuoted, hopen, Option.bind_eq_bind, Option.bind_some, hbefore]
    exact cut_eq_some_iff.mpr ⟨by simp, hx⟩
  · refine ⟨t, ?_, fun _ => rfl⟩
    simp only [nextQuoted, hopen, Option.bind_eq_bind, Option.bind_some,
      beforeFirstQuote_eq_self_iff.mpr hs]
    exact cut_eq_some_iff.mpr ⟨rfl, hs⟩

/-- The first line of what shows a message. -/
def messageLine (k : ℕ) (pre : Bytes) (email : Mime.Email) (t : Bytes) : Bytes :=
  lit "* " ++ decimal k ++ lit " FETCH " ++ pre ++ envelopeStart email ++ t

/-- The number of a `FETCH` line stands before the keyword. -/
theorem cutSub_fetch (k : ℕ) (s : Bytes) :
    cutSub (lit " FETCH ") (lit "* " ++ decimal k ++ (lit " FETCH " ++ s)) =
      some (lit "* " ++ decimal k, s) := by
  have hword : lit " FETCH " = [' '.toUInt8] ++ 'F'.toUInt8 :: lit "ETCH " := rfl
  exact cutSub_marked hword (by decide) s
    (List.not_mem_append (by decide) (notMem_decimal k (by decide) (by decide)))

theorem messageLine_eq (k : ℕ) (pre : Bytes) (email : Mime.Email) (t : Bytes) :
    messageLine k pre email t =
      lit "* " ++ decimal k ++ (lit " FETCH " ++ (pre ++ (envelopeStart email ++ t))) := by
  simp only [messageLine, List.append_assoc]

/-- The client reads the number that the server wrote. -/
theorem seqId_messageLine (hk : (k : ℤ) ≤ int64Max) :
    seqId (messageLine k pre email t) = some k := by
  have hdrop : (lit "* " ++ decimal k).drop 2 = decimal k := rfl
  have hlong : ¬ (lit "* " ++ decimal k).length < 2 := by simp [lit]
  rw [messageLine_eq]
  simp only [seqId, cutSub_fetch, Option.bind_eq_bind, Option.bind_some, if_neg hlong, hdrop]
  rw [stoll_decimal (by omega) hk]
  rfl

/-- The line begins the answer for a message. -/
theorem isFetchStart_messageLine : isFetchStart (messageLine k pre email t) = true := by
  have hstart : lit "* " <+: messageLine k pre email t := by
    rw [messageLine_eq, List.append_assoc]
    exact List.prefix_append _ _
  rw [isFetchStart, List.isPrefixOf_iff_prefix.mpr hstart, Bool.true_and, contains, messageLine_eq,
    cutSub_fetch]
  rfl

theorem envelopeStart_append (email : Mime.Email) (s : Bytes) :
    envelopeStart email ++ s = lit "ENVELOPE (" ++ ([] ++ '"'.toUInt8 :: (email.date ++
      '"'.toUInt8 :: (lit " " ++ '"'.toUInt8 :: (email.subject ++ '"'.toUInt8 ::
        (lit " " ++ s))))) := by
  have hopen : lit "ENVELOPE (\"" = lit "ENVELOPE (" ++ ['"'.toUInt8] := rfl
  have hmiddle : lit "\" \"" = '"'.toUInt8 :: (lit " " ++ ['"'.toUInt8]) := rfl
  have hclose : lit "\" " = '"'.toUInt8 :: lit " " := rfl
  rw [envelopeStart, hopen, hmiddle, hclose]
  simp only [List.append_assoc, List.cons_append, List.nil_append]

/-- **The subject that the client reads.** -/
theorem dateAndSubject_messageLine (hpre : 'V'.toUInt8 ∉ pre) (hdate : '"'.toUInt8 ∉ email.date) :
    (dateAndSubject (messageLine k pre email t :: more)).2 = beforeFirstQuote email.subject := by
  have hword : lit "ENVELOPE (" = lit "EN" ++ 'V'.toUInt8 :: lit "ELOPE (" := rfl
  have hfront : 'V'.toUInt8 ∉ lit "* " ++ decimal k ++ lit " FETCH " ++ pre :=
    List.not_mem_append (List.not_mem_append (List.not_mem_append (by decide)
      (notMem_decimal k (by decide) (by decide))) (by decide)) hpre
  have htext : unlines (messageLine k pre email t :: more) =
      (lit "* " ++ decimal k ++ lit " FETCH " ++ pre) ++
        (envelopeStart email ++ (t ++ lit "\r\n" ++ unlines more)) := by
    simp only [unlines_cons, messageLine, List.append_assoc]
  rw [envelopeStart_append] at htext
  generalize t ++ lit "\r\n" ++ unlines more = tail at htext
  obtain ⟨rest, hfirst, hrest⟩ := nextQuoted_append (a := []) List.not_mem_nil email.date
    (lit " " ++ '"'.toUInt8 :: (email.subject ++ '"'.toUInt8 :: (lit " " ++ tail)))
  obtain rfl := hrest hdate
  obtain ⟨rest', hsecond, -⟩ := nextQuoted_append (a := lit " ") (by decide) email.subject
    (lit " " ++ tail)
  rw [dateAndSubject, htext, cutSub_marked hword (by decide) _ hfront]
  dsimp only
  rw [hfirst]
  dsimp only
  rw [hsecond, Option.elim_some]

/-- Of one message the client sees the number and its subject up to a quote. -/
theorem fetchMails_messageLine (hk : (k : ℤ) ≤ int64Max) (hpre : 'V'.toUInt8 ∉ pre)
    (hdate : '"'.toUInt8 ∉ email.date) :
    (fetchMails (messageLine k pre email t :: more)).head?.map (·.subject) =
      some (beforeFirstQuote email.subject) := by
  have hsummary : ∀ ls : List Bytes, (mailSummary (messageLine k pre email t :: ls)).map
      (·.subject) = some (dateAndSubject (messageLine k pre email t :: ls)).2 := by
    intro ls
    simp only [mailSummary, seqId_messageLine hk, Option.bind_eq_bind, Option.bind_some,
      Option.pure_def, Option.map_some]
  obtain ⟨s, hs, hsubject⟩ := Option.map_eq_some_iff.mp
    (hsummary (more.takeWhile fun l => !isFetchStart l))
  rw [fetchMails, fetchBlocks, if_pos isFetchStart_messageLine, List.filterMap_cons, hs,
    List.head?_cons, Option.map_some, hsubject, dateAndSubject_messageLine hpre hdate]

/-- What `handleFetchMails` is answered for a page that starts with a message whose file was parsed
to this email. -/
def PageLines (email : Mime.Email) (lines : List Bytes) : Prop :=
  ∃ (S : Services) (d : Dispatcher) (db : DB) (u inbox : ℤ) (first last : ℕ) (m : Message)
    (cmd : ImapCommand) (raw reply frame : Bytes),
    InMailbox u inbox d db ∧ first ≤ last ∧ (last : ℤ) < int64Max ∧
    nthMessage db inbox first = some m ∧ cmd.args = [pageRange first last, summaryItems] ∧
    ' '.toUInt8 ∉ cmd.tag ∧ '\n'.toUInt8 ∉ cmd.tag ∧ Mime.parseEmail raw {} = (true, email) ∧
    Prints S m email ∧ Returns (handleFetch S cmd) d db reply ∧ Delivered reply frame ∧
    readReply cmd.tag [] [frame] = some (true, lines)

/-- An exchange that succeeded was not answered `BAD`. -/
theorem not_read_bad {what : Bytes} {lines : List Bytes} (htag : '\n'.toUInt8 ∉ tag) :
    readReply tag [] [stripLineEnd (bad tag what)] ≠ some (true, lines) := by
  intro hread
  have hframe : stripLineEnd (bad tag what) = (tag ++ lit " BAD ") ++ what := by
    rw [bad, stripLineEnd_crlf]
  obtain ⟨t, rest, hlines⟩ := exists_frameLines (append_ne_nil (s := tag) (t := lit " BAD ") (by decide))
    (List.not_mem_append htag (by decide))
    (by rw [List.getLast?_append_of_ne_nil _ (by decide)]; decide) what
  have hfirst : verdict tag ((tag ++ lit " BAD " ++ t) :: rest) = some false := by
    rw [verdict, if_neg, if_pos]
    · rw [Bool.or_eq_true]
      refine .inr (List.isPrefixOf_iff_prefix.mpr ⟨lit " " ++ t, ?_⟩)
      simp only [List.append_assoc]
      rfl
    · rw [List.append_assoc, isPrefixOf_append_left]
      exact Bool.false_ne_true
  rw [hframe, readReply, hlines, hfirst] at hread
  exact absurd (Prod.mk.inj (Option.some.inj hread)).1 Bool.false_ne_true

/-- **The first line the client is left with.** -/
theorem exists_of_pageLines {lines : List Bytes} (h : PageLines email lines)
    (hsubject : '\n'.toUInt8 ∉ email.subject) :
    ∃ (k : ℕ) (pre t : Bytes) (more : List Bytes), lines = messageLine k pre email t :: more ∧
      (k : ℤ) ≤ int64Max ∧ 'V'.toUInt8 ∉ pre := by
  obtain ⟨S, d, db, u, inbox, first, last, m, cmd, raw, reply, frame, hd, hle, hlast, hk, hargs,
    hspace, hlf, hparse, hS, hreply, hframe, hread⟩ := h
  obtain ⟨-, rfl⟩ := delivered_iff.mp hframe
  have hlength : 2 ≤ cmd.args.length := by rw [hargs]; exact le_rfl
  rcases returns_handleFetch_cases hd hlength hreply with ⟨texts, htexts, rfl⟩ | ⟨what, rfl⟩
  · obtain ⟨pre, rest, htext, hV, hpre⟩ := exists_of_returns_page hd hle hlast hk hargs hS htexts
    have hdate : '\n'.toUInt8 ∉ email.date := by
      have hraw : raw ≠ [] := by
        rintro rfl
        exact absurd (Prod.mk.inj hparse).1 Bool.false_ne_true
      have hheader := Mime.date_parseEmail_of_headers hraw {}
      rw [hparse] at hheader
      rw [hheader]
      exact Mime.notMem_getHeaderValue _ _
    have hstart : '\n'.toUInt8 ∉ envelopeStart email :=
      List.not_mem_append (List.not_mem_append (List.not_mem_append (List.not_mem_append (by decide)
        hdate) (by decide)) hsubject) (by decide)
    have hline : '\n'.toUInt8 ∉ messageLine first pre email [] := by
      refine List.not_mem_append (List.not_mem_append (List.not_mem_append (List.not_mem_append
        (List.not_mem_append (by decide) ?_) (by decide)) hpre) hstart) List.not_mem_nil
      exact notMem_decimal first (by decide) (by decide)
    have hends : (messageLine first pre email []).getLast? ≠ some '\r'.toUInt8 := by
      rw [messageLine, List.append_nil, envelopeStart, ← List.append_assoc,
        List.getLast?_append_of_ne_nil _ (by decide)]
      decide
    have hframe : stripLineEnd (texts.flatten ++ ok cmd.tag (lit "Fetch completed")) =
        messageLine first pre email [] ++ (rest ++ (cmd.tag ++ lit " OK " ++
          lit "Fetch completed")) := by
      rw [ok, ← List.append_assoc, stripLineEnd_crlf, htext]
      simp only [messageLine, List.append_assoc, List.append_nil]
    obtain ⟨t, more, hlines⟩ := exists_frameLines (by simp [messageLine, lit]) hline hends
      (rest ++ (cmd.tag ++ lit " OK " ++ lit "Fetch completed"))
    have hmessage : messageLine first pre email [] ++ t = messageLine first pre email t := by
      rw [messageLine, messageLine, List.append_nil]
    have huntagged : verdict cmd.tag [messageLine first pre email t] = none := by
      rw [verdict_eq_none_iff, messageLine_eq]
      exact not_tagged_response hspace first _
    have hread' := lines_of_readReply hread
    rw [hframe, hlines, hmessage, untaggedLines,
      List.takeWhile_cons_of_pos (by rw [huntagged]; rfl)] at hread'
    exact ⟨first, pre, t, _, hread', by omega, hV⟩
  · exact absurd hread (not_read_bad hlf)

/-- **A subject is read back exactly when it has no quote.** -/
theorem subject_iff {lines : List Bytes} (h : PageLines email lines) (hsubject : NoBreak email.subject)
    (hdate : '"'.toUInt8 ∉ email.date) :
    (fetchMails lines).head?.map (·.subject) = some email.subject ↔
      '"'.toUInt8 ∉ email.subject := by
  obtain ⟨k, pre, t, more, rfl, hk, hV⟩ := exists_of_pageLines h hsubject.2
  rw [fetchMails_messageLine hk hV hdate, Option.some_inj, beforeFirstQuote_eq_self_iff]

end Subjects

/-! ## Both -/

/-- **Names and subjects survive exactly when they have no quote**: for every name that `CREATE`
accepted (a NUL in it the database does not keep), and for every email. -/
theorem strings_survive_iff {d d' : Dispatcher} {db db' : DB} {u : ℤ} {create : ImapCommand}
    {name : Bytes} (hu : d.authenticatedUserID = some u) (hargs : create.args = [name])
    (hcreate : Serves (handleCreate create) d db (ok create.tag (lit "Create completed")) d' db')
    (hname : NoBreak name) {email : Mime.Email} {lines : List Bytes} (hlines : PageLines email lines)
    (hsubject : NoBreak email.subject) (hdate : '"'.toUInt8 ∉ email.date) :
    (∃ f, FolderDAL.findByName db' u name = some f ∧
      (fetchFolders (frameLines (mailbox "LIST" f.name "HasNoChildren")) = [name] ↔
        '"'.toUInt8 ∉ name ∧ 0 ∉ name)) ∧
    ((fetchMails lines).head?.map (·.subject) = some email.subject ↔
      '"'.toUInt8 ∉ email.subject) := by
  obtain ⟨f, hf⟩ := findByName_of_handleCreate hu hargs hcreate
  obtain ⟨r, hr, rfl⟩ := Option.map_eq_some_iff.mp hf
  have hcstr : r.2.name = cstr name := by
    have hrow := List.find?_some hr
    rw [decide_eq_true_eq] at hrow
    exact hrow.2
  refine ⟨⟨_, hf, ?_⟩, subject_iff hlines hsubject hdate⟩
  rw [← fetchFolders_cstr_iff hname, ← hcstr]
  rfl

/-! ## A mailbox of one mail -/

/-- A mail of alice's. -/
def datedRow : MessageData :=
  { pageRow 1 with
    content := {
      rawFilePath := lit "mail.eml"
      fromAddress := lit "bob"
      internalDate := lit "2024-05-01 10:00:00" } }

def datedDB : DB := { pageDB 1 with messages := Table.empty.insert datedRow }

/-- Services that print, every file holding this email. -/
def printing (email : Mime.Email) : Services :=
  { noFiles with
    getParsedEmail := fun _ => .ok (some ⟨email.sender, email.to, email.cc, email.subject,
      email.date, email.messageId⟩)
    buildEnvelope := fun m _ recipients => buildEnvelope m (some email) recipients
    dateToIMAPInternal := dateToIMAPInternal }

theorem prints_printing (m : Message) (email : Mime.Email) : Prints (printing email) m email :=
  ⟨rfl, _, rfl, fun _ => rfl⟩

/-- The client asks for the first page. -/
def firstPage : ImapCommand :=
  { tag := nextTag 3, type := .fetch, args := [pageRange 1 50, summaryItems] }

/-- A mail with that subject. -/
def mailWith (subject : String) : Bytes :=
  lit "Subject: " ++ lit subject ++ lit "\nDate: today\n\nText\n"

def emailOf (raw : Bytes) : Mime.Email := (Mime.parseEmail raw {}).2

def createFolder (name : String) : ImapCommand :=
  { tag := nextTag 2, type := .create, args := [lit name] }

/-- The answer to it. -/
def pageReply (subject : String) : Bytes :=
  lit "* 1 FETCH (FLAGS (\\Recent) " ++ lit "INTERNALDATE " ++ lit "\"01-May-2024 " ++
    lit "10:00:00 +0000\" " ++ lit "RFC822.SIZE 0 " ++ lit "ENVELOPE (\"today\" \"" ++ lit subject ++
    lit "\" NIL NIL NIL NIL NIL " ++ lit "NIL NIL \"\"))\r\n" ++ ok (nextTag 3) (lit "Fetch completed")

/-- The lines the client is left with. -/
def pageLines (subject : String) : List Bytes :=
  untaggedLines (nextTag 3) (frameLines (stripLineEnd (pageReply subject)))

theorem pageLines_mailWith {subject : String}
    (hreads : (Mime.parseEmail (mailWith subject) {}).1 = true ∧
      (serve (handleFetch (printing (emailOf (mailWith subject))) firstPage) pageSession
        datedDB).2.1 = .ok (pageReply subject) ∧
      (pageReply subject).length + (nonceSize + tagSize) ≤ maxMessageSize ∧
      readReply (nextTag 3) [] [stripLineEnd (pageReply subject)] =
        some (true, pageLines subject)) :
    PageLines (emailOf (mailWith subject)) (pageLines subject) := by
  obtain ⟨hparse, hreply, hfits, hread⟩ := hreads
  have hemail : Mime.parseEmail (mailWith subject) {} = (true, emailOf (mailWith subject)) := by
    rw [emailOf, ← hparse]
  exact ⟨_, pageSession, datedDB, 1, 1, 1, 50, MessageDAL.rowToMessage 1 datedRow, firstPage,
    mailWith subject, pageReply subject, _, ⟨rfl, rfl, rfl⟩, by decide, by decide, rfl, rfl,
    by decide, by decide, hemail, prints_printing _ _, .of_result hreply,
    delivered_iff.mpr ⟨hfits, rfl⟩, hread⟩

theorem serves_createFolder_work : ∃ d' db', Serves (handleCreate (createFolder "Work")) pageSession
    datedDB (ok (nextTag 2) (lit "Create completed")) d' db' := ⟨_, _, rfl⟩

/-- A folder and a mail without quotes. -/
theorem strings_survive_plain :
    ∃ db' f, FolderDAL.findByName db' 1 (lit "Work") = some f ∧
      fetchFolders (frameLines (mailbox "LIST" f.name "HasNoChildren")) = [lit "Work"] ∧
      (fetchMails (pageLines "hi")).head?.map (·.subject) = some (lit "hi") := by
  have hlines : PageLines (emailOf (mailWith "hi")) (pageLines "hi") :=
    pageLines_mailWith (by decide +kernel)
  have hsubject : (emailOf (mailWith "hi")).subject = lit "hi" := by decide +kernel
  obtain ⟨d', db', hcreate⟩ := serves_createFolder_work
  obtain ⟨⟨f, hf, hname⟩, hmail⟩ := strings_survive_iff (u := 1) rfl rfl hcreate (by decide) hlines
    (by decide +kernel) (by decide +kernel)
  rw [hsubject] at hmail
  exact ⟨db', f, hf, hname.mpr (by decide +kernel), hmail.mpr (by decide +kernel)⟩

/-- **A folder name and a subject with a quote**: the client shows another folder, and the subject
cut off. -/
theorem strings_cut_at_quotes :
    ∃ (d d' : Dispatcher) (db db' : DB) (create : ImapCommand) (name : Bytes) (f : Folder)
      (email : Mime.Email) (lines : List Bytes),
      d.authenticatedUserID = some 1 ∧ create.args = [name] ∧
      Serves (handleCreate create) d db (ok create.tag (lit "Create completed")) d' db' ∧
      FolderDAL.findByName db' 1 name = some f ∧ NoBreak name ∧ PageLines email lines ∧
      NoBreak email.subject ∧ '"'.toUInt8 ∉ email.date ∧
      fetchFolders (frameLines (mailbox "LIST" f.name "HasNoChildren")) = [lit "b"] ∧
      name = lit "a\"b" ∧ email.subject = lit "say \"hi\"" ∧
      (fetchMails lines).head?.map (·.subject) = some (lit "say ") := by
  have hlines : PageLines (emailOf (mailWith "say \"hi\"")) (pageLines "say \"hi\"") :=
    pageLines_mailWith (by decide +kernel)
  exact ⟨pageSession, _, datedDB, _, createFolder "a\"b", lit "a\"b", _, _, _, rfl, rfl, rfl, rfl,
    by decide +kernel, hlines, by decide +kernel, by decide +kernel, by decide +kernel, rfl,
    by decide +kernel, by decide +kernel⟩

end MailStack.Client
