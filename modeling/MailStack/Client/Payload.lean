import MailStack.Client.Exchange
import MailStack.Imap.FetchLine

/-!
# Client/Payload — `ExtractRfc822Payload`, on what `FETCH k (RFC822)` was answered

The server sends the mail as a literal: its size in braces, and then its bytes.  The client has cut
the frame into lines before it looks at the size: a CR at the end of a line of the mail is gone by
then, and a line of the mail that starts as a tagged reply has ended the reply.

`fetched_iff` says that these are the two ways to lose a mail.
-/

open Bytes

namespace MailStack.Client

open Imap Store ImapResponse

/-! ## The function -/

/-- `tryParseLiteralSize`: the digits in the last braces of the line, as far as `std::stoull` goes. -/
def literalSize (line : Bytes) : Option ℕ := do
  let (front, _) ← cutLast '}'.toUInt8 line
  let (_, value) ← cutLast '{'.toUInt8 front
  if value = [] ∨ value.all isDigit = false ∨ 2 ^ 64 ≤ digitsValue value then none
  else some (digitsValue value)

/-- The first line with a size: the size, and the lines behind it. -/
def findLiteral : List Bytes → Option (ℕ × List Bytes)
  | [] => none
  | line :: lines =>
    match literalSize line with
    | some size => some (size, lines)
    | none => findLiteral lines

/-- The loop that collects the payload. -/
def collect (size : ℕ) : (payload : Bytes) → List Bytes → Bytes
  | payload, [] => payload
  | payload, line :: lines =>
    let payload := payload ++ line ++ lit "\n"
    if size ≤ payload.length then payload else collect size payload lines

/-- `ExtractRfc822Payload`. -/
def extractRfc822Payload (lines : List Bytes) : Bytes :=
  match findLiteral lines with
  | none => []
  | some (size, lines) => if lines = [] ∨ size = 0 then [] else (collect size [] lines).take size

/-! ## The lines of a mail -/

/-- The lines as `SaveMessage` writes them. -/
def storedLines (ls : List Bytes) : Bytes := ls.flatMap (· ++ lit "\n")

theorem storedLines_cons (l : Bytes) (ls : List Bytes) :
    storedLines (l :: ls) = l ++ lit "\n" ++ storedLines ls := List.flatMap_cons

theorem storedLines_ne_nil {ls : List Bytes} (h : ls ≠ []) : storedLines ls ≠ [] := by
  obtain ⟨l, ls, rfl⟩ := List.exists_cons_of_ne_nil h
  rw [storedLines_cons, List.append_assoc]
  exact List.append_ne_nil_of_right_ne_nil _ (by simp [lit])

/-- Stored lines are read back. -/
theorem getlines_storedLines {ls : List Bytes} (h : ∀ l ∈ ls, '\n'.toUInt8 ∉ l) (rest : Bytes) :
    getlines '\n'.toUInt8 (storedLines ls ++ rest) = ls ++ getlines '\n'.toUInt8 rest := by
  induction ls with
  | nil => rfl
  | cons l ls ih =>
    have hl := h l List.mem_cons_self
    rw [storedLines_cons, List.append_assoc, List.append_assoc]
    change getlines _ (l ++ '\n'.toUInt8 :: (storedLines ls ++ rest)) = _
    rw [getlines_append_cons _ hl, ih fun l' hl' => h l' (List.mem_cons_of_mem l hl')]
    rfl

/-- The payload is a beginning of the lines behind the size. -/
theorem prefix_collect (size : ℕ) :
    ∀ (payload : Bytes) (lines : List Bytes), collect size payload lines <+: payload ++ storedLines lines
  | payload, [] => List.prefix_append payload _
  | payload, line :: lines => by
      rw [collect, storedLines_cons, ← List.append_assoc, ← List.append_assoc]
      split_ifs
      · exact List.prefix_append _ _
      · exact prefix_collect size _ lines

/-- **Lines of the given size are taken, and no more.** -/
theorem collect_append {size : ℕ} {rest : List Bytes} :
    ∀ {payload : Bytes} {ls : List Bytes}, ls ≠ [] → (payload ++ storedLines ls).length = size →
      collect size payload (ls ++ rest) = payload ++ storedLines ls
  | payload, [], h, _ => absurd rfl h
  | payload, [l], _, hsize => by
      have hone : storedLines [l] = l ++ lit "\n" := by rw [storedLines_cons]; exact List.append_nil _
      rw [hone, ← List.append_assoc] at hsize ⊢
      rw [List.singleton_append, collect]
      exact if_pos hsize.ge
  | payload, l :: l' :: ls, _, hsize => by
      rw [storedLines_cons, ← List.append_assoc, ← List.append_assoc] at hsize ⊢
      have hlt : ¬ size ≤ (payload ++ l ++ lit "\n").length := by
        have hpos := List.length_pos_of_ne_nil (storedLines_ne_nil (List.cons_ne_nil l' ls))
        rw [List.length_append] at hsize
        omega
      rw [List.cons_append, collect, if_neg hlt]
      exact collect_append (List.cons_ne_nil l' ls) hsize

/-! ## The reply -/

/-- A line without its `'\r'`. -/
def withoutCR (l : Bytes) : Bytes := if l.getLast? = some '\r'.toUInt8 then l.dropLast else l

/-- One carriage return is dropped. -/
theorem withoutCR_append_cr (l : Bytes) : withoutCR (l ++ ['\r'.toUInt8]) = l := by
  rw [withoutCR, List.getLast?_concat, if_pos rfl, List.dropLast_concat]

/-- The first line of the reply. -/
def sizeLine (k size : ℕ) : Bytes :=
  lit "* " ++ decimal k ++ lit " FETCH (RFC822 \x7b" ++ decimal size ++ lit "\x7d"

/-- What `HandleFetch` answers to `FETCH k (RFC822)`, the mail being `c`. -/
def rfc822Reply (tag : Bytes) (k : ℕ) (c : Bytes) : Bytes :=
  fetch k (lit "(" ++ literal (lit "RFC822") c ++ lit ")") ++ ok tag (lit "Fetch completed")

section Reply

variable {tag c : Bytes} {k size : ℕ} {ls : List Bytes}

/-- The size is read from its line. -/
theorem literalSize_sizeLine (h : size < 2 ^ 64) : literalSize (sizeLine k size) = some size := by
  have hback : cutLast '\x7d'.toUInt8 (sizeLine k size) =
      some (lit "* " ++ decimal k ++ lit " FETCH (RFC822 \x7b" ++ decimal size, []) :=
    cutLast_append_cons List.not_mem_nil
  have hfront : cutLast '\x7b'.toUInt8
      (lit "* " ++ decimal k ++ lit " FETCH (RFC822 \x7b" ++ decimal size) =
        some (lit "* " ++ decimal k ++ lit " FETCH (RFC822 ", decimal size) := by
    have hsplit : lit "* " ++ decimal k ++ lit " FETCH (RFC822 \x7b" ++ decimal size =
        (lit "* " ++ decimal k ++ lit " FETCH (RFC822 ") ++ '\x7b'.toUInt8 :: decimal size := by
      simp only [List.append_assoc]
      rfl
    rw [hsplit]
    exact cutLast_append_cons (notMem_decimal _ (by decide) (by decide))
  have hdigits : (decimal size).all isDigit = true :=
    List.all_eq_true.mpr fun _ hx => isDigit_of_mem_decimal hx
  simp only [literalSize, hback, hfront, Option.bind_eq_bind, Option.bind_some]
  rw [digitsValue_decimal, if_neg]
  rw [not_or, not_or, hdigits]
  exact ⟨decimal_ne_nil size, by decide, Nat.not_le.mpr h⟩

/-- **The lines the client cuts the reply into.** -/
theorem frameLines_rfc822Reply (htag : '\n'.toUInt8 ∉ tag) (hls : ∀ l ∈ ls, '\n'.toUInt8 ∉ l) :
    frameLines (Proto.stripLineEnd (rfc822Reply tag k (storedLines ls))) =
      sizeLine k (storedLines ls).length :: (ls.map withoutCR ++ [lit ")"]) ++
        [tag ++ lit " OK Fetch completed"] := by
  have hframe : Proto.stripLineEnd (rfc822Reply tag k (storedLines ls)) =
      (sizeLine k (storedLines ls).length ++ ['\r'.toUInt8]) ++ '\n'.toUInt8 :: (storedLines ls ++
        ((lit ")" ++ ['\r'.toUInt8]) ++ '\n'.toUInt8 :: (tag ++ lit " OK Fetch completed"))) := by
    rw [rfc822Reply, ok, ← List.append_assoc, stripLineEnd_crlf]
    simp only [fetch, literal, sizeLine, List.append_assoc]
    rfl
  have hsize : '\n'.toUInt8 ∉ sizeLine k (storedLines ls).length ++ ['\r'.toUInt8] := by
    simp only [sizeLine, List.mem_append, not_or]
    have hk := notMem_decimal k (x := '\n'.toUInt8) (by decide) (by decide)
    have hn := notMem_decimal (storedLines ls).length (x := '\n'.toUInt8) (by decide)
      (by decide)
    exact ⟨⟨⟨⟨⟨by decide, hk⟩, by decide⟩, hn⟩, by decide⟩, by decide⟩
  have hlast : '\n'.toUInt8 ∉ tag ++ lit " OK Fetch completed" := by
    rw [List.mem_append, not_or]
    exact ⟨htag, by decide⟩
  have hend : withoutCR (tag ++ lit " OK Fetch completed") = tag ++ lit " OK Fetch completed" := by
    rw [withoutCR, List.getLast?_append_of_ne_nil _ (by decide), if_neg (by decide)]
  rw [frameLines, hframe, getlines_append_cons _ hsize, getlines_storedLines hls,
    getlines_append_cons _ (by decide), getlines_of_notMem hlast (append_ne_nil (by decide))]
  change withoutCR _ :: (ls ++ [_, _]).map withoutCR = _
  rw [withoutCR_append_cr, List.map_append, List.map_cons, List.map_cons, withoutCR_append_cr, hend,
    List.cons_append, List.append_assoc]
  rfl

/-- **The reply of the server**, where `k` selects the message. -/
theorem reply_of_returns {S : Services} {d : Dispatcher} {db : DB} {u inbox k : ℤ} {m : Message}
    {cmd : ImapCommand} {reply : Bytes} (hd : InMailbox u inbox d db) (hlo : -2 ^ 63 ≤ k)
    (hhi : k ≤ int64Max) (hk : nthMessage db inbox k = some m)
    (hargs : cmd.args = [decimal k, lit "(RFC822)"])
    (hreply : Returns (handleFetch S cmd) d db reply) :
    reply = rfc822Reply cmd.tag (toSizeT k) (S.getBodyContent m) := by
  have hitems : fetchItems (lit "(RFC822)") = [lit "RFC822"] := by decide
  have hitem : Returns (fetchItem S cmd m (lit "RFC822")) d db
      (literal (lit "RFC822") (S.getBodyContent m) ++ lit " ") := ⟨d, db, rfl⟩
  have hdata : Returns (fetchData S cmd (lit "(") [lit "RFC822"] m) d db _ :=
    returns_fetchData.mpr ⟨_, Returns.mapM_singleton.mpr ⟨_, hitem, rfl⟩, rfl⟩
  rw [← hitems] at hdata
  have hlines := (returns_fetchLines_nth hd hlo hhi hk hargs).mpr ⟨_, hdata, rfl⟩
  rw [hreply.unique (returns_handleFetch hd (by rw [hargs]; exact le_rfl) hlines),
    List.flatten_singleton, List.flatten_singleton, ← List.append_assoc, popSpace_append (by decide)]
  have hspace : popSpace (lit " ") = [] := rfl
  rw [hspace, List.append_nil, rfc822Reply]

/-- The first line of the reply is not taken for its end. -/
theorem not_tagged_sizeLine (htag : ' '.toUInt8 ∉ tag) : ¬ Tagged tag (sizeLine k size) := by
  have hline : sizeLine k size =
      lit "* " ++ decimal k ++ (lit " FETCH (RFC822 \x7b" ++ decimal size ++ lit "\x7d") := by
    simp only [sizeLine, List.append_assoc]
  rw [hline]
  exact not_tagged_response htag k _

theorem not_tagged_paren : ¬ Tagged tag (lit ")") := by
  rintro ⟨status, hstatus, hprefix⟩
  have hlong : 3 ≤ status.length := by
    simp only [List.mem_cons, List.not_mem_nil, or_false] at hstatus
    rcases hstatus with rfl | rfl | rfl <;> decide
  have hle := hprefix.length_le
  rw [List.length_append] at hle
  have hone : (lit ")").length = 1 := rfl
  omega

/-- Lines whose text starts another text of lines are its first lines. -/
theorem prefix_of_storedLines {kept : List Bytes} (hls : ∀ l ∈ ls, '\n'.toUInt8 ∉ l)
    (hkept : ∀ l ∈ kept, '\n'.toUInt8 ∉ l) (h : storedLines ls <+: storedLines kept) :
    ls <+: kept := by
  obtain ⟨rest, hrest⟩ := h
  have hlines := getlines_storedLines hls rest
  rw [hrest, ← List.append_nil (storedLines kept), getlines_storedLines hkept] at hlines
  exact ⟨_, hlines.symm.trans (List.append_nil kept)⟩

theorem mem_withoutCR {x : UInt8} {l : Bytes} (h : x ∈ withoutCR l) : x ∈ l := by
  rw [withoutCR] at h
  split_ifs at h
  · exact (List.dropLast_sublist l).subset h
  · exact h

/-- Nothing is dropped where there is none. -/
theorem withoutCR_eq_self_iff {l : Bytes} :
    withoutCR l = l ↔ l.getLast? ≠ some '\r'.toUInt8 := by
  rw [withoutCR]
  split_ifs with hcr
  · refine iff_of_false (fun h => ?_) (not_not_intro hcr)
    have hlength := congrArg List.length h
    rw [List.length_dropLast] at hlength
    have hpos : 0 < l.length := List.length_pos_of_ne_nil (by rintro rfl; exact nomatch hcr)
    omega
  · exact iff_of_true rfl hcr

/-- No line loses anything if none ends with one. -/
theorem map_withoutCR_eq_self_iff :
    ls.map withoutCR = ls ↔ ∀ l ∈ ls, l.getLast? ≠ some '\r'.toUInt8 := by
  calc ls.map withoutCR = ls
      ↔ ls.map withoutCR = ls.map id := by rw [List.map_id]
    _ ↔ ∀ l ∈ ls, withoutCR l = l := List.map_inj_left
    _ ↔ ∀ l ∈ ls, l.getLast? ≠ some '\r'.toUInt8 := by simp only [withoutCR_eq_self_iff]

/-- The payload is collected from the lines behind the size. -/
theorem extractRfc822Payload_sizeLine {kept : List Bytes} (h : size < 2 ^ 64) :
    extractRfc822Payload (sizeLine k size :: kept) =
      if kept = [] ∨ size = 0 then [] else (collect size [] kept).take size := by
  simp only [extractRfc822Payload, findLiteral, literalSize_sizeLine h]

/-- The client reads `c` out of the frame. -/
def Fetches (tag frame c : Bytes) : Prop :=
  ∃ lines, readReply tag [] [frame] = some (true, lines) ∧ extractRfc822Payload lines = c

variable (htag : ' '.toUInt8 ∉ tag ∧ '\n'.toUInt8 ∉ tag) (hne : ls ≠ [])
  (hls : ∀ l ∈ ls, '\n'.toUInt8 ∉ l) (hsize : (storedLines ls).length < 2 ^ 64)
include htag hne hls hsize

/-- Lines that the client leaves as they are. -/
theorem fetches_of_plain
    (h : ∀ l ∈ ls, l.getLast? ≠ some '\r'.toUInt8 ∧ ¬ Tagged tag l) :
    Fetches tag (Proto.stripLineEnd (rfc822Reply tag k (storedLines ls))) (storedLines ls) := by
  have hmap : ls.map withoutCR = ls := map_withoutCR_eq_self_iff.mpr fun l hl => (h l hl).1
  have hframe := frameLines_rfc822Reply (k := k) htag.2 hls
  rw [hmap] at hframe
  refine ⟨_, readReply_singleton hframe (fun l hl => verdict_eq_none_iff.mpr ?_) ?_, ?_⟩
  · rcases List.mem_cons.mp hl with rfl | hl
    · exact not_tagged_sizeLine htag.1
    rcases List.mem_append.mp hl with hl | hl
    · exact (h l hl).2
    · obtain rfl := List.mem_singleton.mp hl
      exact not_tagged_paren
  · rw [verdict, if_pos]
    exact List.isPrefixOf_iff_prefix.mpr ⟨lit " Fetch completed", by rw [List.append_assoc]; rfl⟩
  · have hpos := List.length_pos_of_ne_nil (storedLines_ne_nil hne)
    have hcollect : collect (storedLines ls).length [] (ls ++ [lit ")"]) = [] ++ storedLines ls :=
      collect_append hne rfl
    rw [extractRfc822Payload_sizeLine hsize, if_neg, hcollect, List.nil_append, List.take_length]
    rw [not_or]
    exact ⟨List.append_ne_nil_of_left_ne_nil hne _, by omega⟩

/-- What the client has read whole was all it read. -/
theorem plain_of_fetches
    (h : Fetches tag (Proto.stripLineEnd (rfc822Reply tag k (storedLines ls))) (storedLines ls)) :
    ∀ l ∈ ls, l.getLast? ≠ some '\r'.toUInt8 ∧ ¬ Tagged tag l := by
  obtain ⟨lines, hread, hpayload⟩ := h
  have hlines := lines_of_readReply hread
  have hfirst : verdict tag [sizeLine k (storedLines ls).length] = none :=
    verdict_eq_none_iff.mpr (not_tagged_sizeLine htag.1)
  rw [frameLines_rfc822Reply htag.2 hls, List.cons_append, untaggedLines,
    List.takeWhile_cons_of_pos (by rw [hfirst]; rfl), ← untaggedLines] at hlines
  set kept := untaggedLines tag (ls.map withoutCR ++ [lit ")"] ++ [tag ++ lit " OK Fetch completed"])
    with hkept
  have hprefix : kept <+: ls.map withoutCR ++ [lit ")"] ++ [tag ++ lit " OK Fetch completed"] :=
    List.takeWhile_prefix _
  have huntagged : ∀ l ∈ kept, ¬ Tagged tag l := fun l hl =>
    by
    rw [hkept, untaggedLines] at hl
    exact verdict_eq_none_iff.mp (Option.isNone_iff_eq_none.mp
      (List.mem_takeWhile_imp (p := fun l => (verdict tag [l]).isNone) hl))
  have hlf : ∀ l ∈ kept, '\n'.toUInt8 ∉ l := by
    intro l hl
    have hl := hprefix.subset hl
    simp only [List.mem_append, List.mem_map, List.mem_singleton] at hl
    rcases hl with (⟨l₀, hl₀, rfl⟩ | rfl) | rfl
    · exact fun hx => hls l₀ hl₀ (mem_withoutCR hx)
    · decide
    · rw [List.mem_append, not_or]
      exact ⟨htag.2, by decide⟩
  rw [hlines, extractRfc822Payload_sizeLine hsize] at hpayload
  split_ifs at hpayload with hempty
  · exact absurd hpayload.symm (storedLines_ne_nil hne)
  have hall : ls <+: kept := by
    refine prefix_of_storedLines hls hlf ?_
    rw [← hpayload]
    exact (List.take_prefix _ _).trans (prefix_collect _ [] kept)
  have hmap : ls.map withoutCR = ls := by
    have hle := hall.trans hprefix
    rw [List.append_assoc] at hle
    refine (List.prefix_of_prefix_length_le hle (List.prefix_append _ _) ?_).eq_of_length ?_ |>.symm
    · rw [List.length_map]
    · rw [List.length_map]
  intro l hl
  exact ⟨map_withoutCR_eq_self_iff.mp hmap l hl, huntagged l (hall.subset hl)⟩

end Reply

/-! ## The mail, fetched -/

section Fetched

variable {S : Services} {d : Dispatcher} {db : DB} {u inbox k : ℤ} {m : Message}
  {cmd : ImapCommand} {reply frame : Bytes} {ls : List Bytes}

/-- **A mail is fetched as it is stored exactly when no line of it ends in CR, or starts as the
reply to the request**, for every mail that `k` selects and whose reply arrives. -/
theorem fetched_iff (hd : InMailbox u inbox d db) (hlo : -2 ^ 63 ≤ k) (hhi : k ≤ int64Max)
    (hk : nthMessage db inbox k = some m) (hargs : cmd.args = [decimal k, lit "(RFC822)"])
    (htag : ' '.toUInt8 ∉ cmd.tag ∧ '\n'.toUInt8 ∉ cmd.tag)
    (hcontent : S.getBodyContent m = storedLines ls) (hne : ls ≠ [])
    (hls : ∀ l ∈ ls, '\n'.toUInt8 ∉ l) (hreply : Returns (handleFetch S cmd) d db reply)
    (hframe : Delivered reply frame) :
    Fetches cmd.tag frame (S.getBodyContent m) ↔
      ∀ l ∈ ls, l.getLast? ≠ some '\r'.toUInt8 ∧ ¬ Tagged cmd.tag l := by
  obtain ⟨hfits, rfl⟩ := delivered_iff.mp hframe
  have hrfc := reply_of_returns hd hlo hhi hk hargs hreply
  rw [hcontent] at hrfc ⊢
  have hsize : (storedLines ls).length < 2 ^ 64 := by
    have hle : (storedLines ls).length ≤ reply.length := by
      rw [hrfc]
      simp only [rfc822Reply, fetch, literal, List.length_append]
      omega
    rw [Proto.maxMessageSize] at hfits
    omega
  rw [hrfc]
  exact ⟨plain_of_fetches htag hne hls hsize, fetches_of_plain htag hne hls hsize⟩

end Fetched

/-! ## A mail that comes whole, and one that does not -/

/-- Every message file has these lines. -/
def mailOf (ls : List Bytes) : Services :=
  { noFiles with getBodyContent := fun _ => storedLines ls }

/-- The fifth request of a session. -/
def fetchMail : ImapCommand :=
  { tag := nextTag 5, type := .fetch, args := [decimal 1, lit "(RFC822)"] }

/-- A short mail. -/
def shortMail : List Bytes := [lit "Subject: hi", [], lit "Bye"]

theorem fetched_shortMail :
    Fetches (nextTag 5) (Proto.stripLineEnd (rfc822Reply (nextTag 5) 1 (storedLines shortMail)))
      (storedLines shortMail) := by
  have hd : InMailbox 1 1 pageSession (pageDB 1) := ⟨rfl, rfl, rfl⟩
  have hk : nthMessage (pageDB 1) 1 1 = some (lastMessage 1) := rfl
  have hargs : fetchMail.args = [decimal 1, lit "(RFC822)"] := rfl
  have hcontent : (mailOf shortMail).getBodyContent (lastMessage 1) = storedLines shortMail := rfl
  have hreply : Returns (handleFetch (mailOf shortMail) fetchMail) pageSession (pageDB 1)
      (rfc822Reply (nextTag 5) 1 (storedLines shortMail)) := .of_result (by decide)
  exact (fetched_iff hd (by decide) (by decide) hk hargs (by decide) hcontent (by decide)
    (by decide) hreply (delivered_iff.mpr ⟨by decide, rfl⟩)).mpr (by decide)

/-- A mail whose sender knows how the client numbers its requests. -/
def forgedMail : List Bytes := [lit "Subject: hi", [], lit "A5 OK", lit "Bye"]

/-- **The forged mail is cut off**, and the client reports success. -/
theorem fetched_cut :
    ∃ (S : Services) (d : Dispatcher) (db : DB) (m : Message) (cmd : ImapCommand)
      (reply frame : Bytes) (ls : List Bytes),
      InMailbox 1 1 d db ∧ nthMessage db 1 1 = some m ∧ cmd.args = [decimal 1, lit "(RFC822)"] ∧
      cmd.tag = nextTag 5 ∧ S.getBodyContent m = storedLines ls ∧ ls ≠ [] ∧
      (∀ l ∈ ls, '\n'.toUInt8 ∉ l) ∧ Returns (handleFetch S cmd) d db reply ∧
      Delivered reply frame ∧ Fetches cmd.tag frame (lit "Subject: hi\n\n") ∧
      ¬ Fetches cmd.tag frame (S.getBodyContent m) := by
  refine ⟨mailOf forgedMail, pageSession, pageDB 1, lastMessage 1, fetchMail, _, _, forgedMail,
    ⟨rfl, rfl, rfl⟩, rfl, rfl, rfl, rfl, by decide, by decide, ⟨_, _, rfl⟩,
    delivered_iff.mpr ⟨by decide, rfl⟩, ⟨_, rfl, rfl⟩, ?_⟩
  rintro ⟨lines, hread, hpayload⟩
  obtain rfl := (Prod.mk.inj (Option.some.inj hread)).2
  exact absurd hpayload (by decide)

end MailStack.Client
