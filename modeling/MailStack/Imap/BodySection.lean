import MailStack.Imap.SeqSet
import MailStack.Mime.Structure

/-!
# Imap/BodySection — the parts that `BODYSTRUCTURE` lists, and the parts that `BODY[i]` finds

`ParsePartStructure` stops at the closing delimiter, and at a delimiter that has no other behind it.
`ExtractPartBySection` counts every delimiter, and takes the line break before the next one off the
part it finds.  `bodySection_iff` says for which message and which index the two still agree.
-/

open Bytes Search

namespace MailStack.Imap

open Mime (splitHeadersAndBody getHeaderValue extractBoundary skipChar popBack multipartParts
  partsLoop splitType partStructure parseStructure children_partStructure)

/-! ## `ExtractPartBySection` -/

/-- The line break at the end of a part, taken off. -/
def dropBreak (s : Bytes) : Bytes :=
  if s.getLast? = some '\n'.toUInt8 then popBack '\r'.toUInt8 s.dropLast else s

/-- The text behind a delimiter, its line break passed over. -/
def behindDelimiter (s : Bytes) : Bytes := skipChar '\n'.toUInt8 (skipChar '\r'.toUInt8 s)

/-- The loop of `ExtractPartBySection`, with this many parts to pass over. -/
def extractPart (delimiter : Bytes) : ℕ → Bytes → Bytes
  | n, s =>
    match cutSub delimiter s with
    | none => []
    | some (_, rest) =>
      let rest := behindDelimiter rest
      match n, cutSub delimiter rest with
      | 0, none => dropBreak rest
      | 0, some (part, _) => dropBreak part
      | _ + 1, none => []
      | n + 1, some (part, _) => extractPart delimiter n (rest.drop part.length)

/-- `ExtractPartBySection`. -/
def extractPartBySection (rawMime boundary : Bytes) (partNum : ℤ) : Bytes :=
  if partNum ≤ 0 then [] else extractPart (lit "--" ++ boundary) (partNum - 1).toNat rawMime

/-! ## `GetBodySection` -/

/-- `std::stoi`. -/
def stoi (s : Bytes) : Except Exn ℤ :=
  match stoll s with
  | .ok n =>
    if n < -2 ^ 31 ∨ 2 ^ 31 - 1 < n then .error (.outOfRange (lit "stoi")) else .ok n
  | .error (.invalidArgument _) => .error (.invalidArgument (lit "stoi"))
  | .error _ => .error (.outOfRange (lit "stoi"))

/-- `std::isalpha` in the "C" locale. -/
def isAlpha (c : UInt8) : Bool :=
  ('A'.toUInt8 ≤ c && c ≤ 'Z'.toUInt8) || ('a'.toUInt8 ≤ c && c ≤ 'z'.toUInt8)

/-- The path of a section, and what it ends with from a `.` in front of a letter on. -/
def pathAndSuffix : Bytes → Bytes × Bytes
  | [] => ([], [])
  | c :: s =>
    if c = '.'.toUInt8 ∧ s.head?.any isAlpha then ([], c :: s)
    else (c :: (pathAndSuffix s).1, (pathAndSuffix s).2)

/-- The headers and the body at the end of a path; `none` where `GetBodySection` returns `""`. -/
def followPath : List ℤ → Bytes → Bytes → Option (Bytes × Bytes)
  | [], headers, body => some (headers, body)
  | partNum :: path, headers, body =>
    let boundary := extractBoundary (getHeaderValue headers (lit "Content-Type:"))
    if boundary = [] then if path ≠ [] then none else some (headers, body)
    else
      let partContent := extractPartBySection body boundary partNum
      if partContent = [] then none
      else
        let (headers, body) := splitHeadersAndBody partContent
        followPath path headers
          (body.dropWhile fun c => c = '\r'.toUInt8 ∨ c = '\n'.toUInt8)

/-- `GetBodySection`, for a section that starts with a digit. -/
def numberedSection (headers body upperSection : Bytes) : Except Exn Bytes := do
  let (pathStr, suffix) := pathAndSuffix upperSection
  let path ← (getlines '.'.toUInt8 pathStr).mapM stoi
  if contains (lit "multipart") (getHeaderValue headers (lit "Content-Type:")) then
    match followPath path headers body with
    | none => return []
    | some (currentHeaders, currentBody) =>
      if suffix = lit ".HEADER" ∨ suffix = lit ".MIME" then
        return currentHeaders ++ lit "\r\n\r\n"
      else return currentBody
  else if path = [1] then
    if suffix = lit ".HEADER" ∨ suffix = lit ".MIME" then return headers ++ lit "\r\n\r\n"
    else return body
  else return []

/-- `GetBodySection` of a message whose file holds `rawMime`. -/
def getBodySection (rawMime sectionText : Bytes) : Except Exn Bytes :=
  if rawMime = [] then .ok []
  else
    let (headers, body) := splitHeadersAndBody rawMime
    let upperSection := toUpper sectionText
    if upperSection = lit "HEADER" then .ok (headers ++ lit "\r\n\r\n")
    else if upperSection = lit "TEXT" then .ok body
    else if upperSection = lit "MIME" then .ok (headers ++ lit "\r\n\r\n")
    else if (lit "HEADER.").isPrefixOf upperSection then .ok (headers ++ lit "\r\n\r\n")
    else if upperSection.head?.any isDigit then numberedSection headers body upperSection
    else .ok rawMime

/-! ## The texts behind the delimiters -/

/-- The texts from one delimiter to the next, on what follows a delimiter. -/
def sectionsLoop (delimiter : Bytes) : ℕ → Bytes → List Bytes
  | 0, _ => []
  | n + 1, s =>
    match cutSub delimiter (behindDelimiter s) with
    | none => [behindDelimiter s]
    | some (x, rest) => x :: sectionsLoop delimiter n rest

/-- The texts behind the delimiters of a body, each up to the next delimiter. -/
def sections (body boundary : Bytes) : List Bytes :=
  match cutSub (lit "--" ++ boundary) body with
  | none => []
  | some (_, rest) => sectionsLoop (lit "--" ++ boundary) body.length rest

/-- Such a text makes the delimiter before it the closing one. -/
def closes (x : Bytes) : Bool := (lit "--").isPrefixOf (x ++ lit "--")

/-- The texts that are parts: up to the closing delimiter, and not the last one. -/
def partTexts (body boundary : Bytes) : List Bytes :=
  (sections body boundary).dropLast.takeWhile fun x => !closes x

section Texts

variable {delimiter boundary body s : Bytes}

theorem length_behindDelimiter_le (s : Bytes) : (behindDelimiter s).length ≤ s.length :=
  (Mime.length_skipChar_le _ _).trans (Mime.length_skipChar_le _ _)

theorem sectionsLoop_ne_nil {n : ℕ} (hn : 0 < n) (s : Bytes) : sectionsLoop delimiter n s ≠ [] := by
  obtain ⟨k, rfl⟩ := Nat.exists_eq_succ_of_ne_zero hn.ne'
  rw [sectionsLoop]
  split
  · exact List.cons_ne_nil _ _
  · exact List.cons_ne_nil _ _

/-- A text in front of a delimiter starts with `--` together with what follows, or it does not. -/
theorem closes_iff (x rest : Bytes) :
    (lit "--").isPrefixOf (x ++ (lit "--" ++ boundary) ++ rest) = closes x := by
  rw [closes, Bool.eq_iff_iff, List.isPrefixOf_iff_prefix, List.isPrefixOf_iff_prefix]
  have hlonger : x ++ lit "--" <+: x ++ (lit "--" ++ boundary) ++ rest := ⟨boundary ++ rest, by simp⟩
  constructor
  · intro h
    refine List.prefix_of_prefix_length_le h hlonger ?_
    rw [List.length_append]
    omega
  · exact fun h => h.trans hlonger

/-- **The loop of `ParsePartStructure`** takes the texts up to the closing delimiter. -/
theorem partsLoop_eq :
    ∀ {n : ℕ} {s : Bytes}, s.length < n → partsLoop (lit "--" ++ boundary) n s =
      (sectionsLoop (lit "--" ++ boundary) n s).dropLast.takeWhile fun x => !closes x
  | 0, s, h => absurd h (Nat.not_lt_zero _)
  | n + 1, s, h => by
      have hskip : skipChar '\n'.toUInt8 (skipChar '\r'.toUInt8 s) = behindDelimiter s := rfl
      rw [partsLoop, sectionsLoop, hskip]
      cases hcut : cutSub (lit "--" ++ boundary) (behindDelimiter s) with
      | none => simp
      | some p =>
        obtain ⟨x, rest⟩ := p
        have hrest := (Mime.length_lt_of_cutSub (List.cons_ne_nil _ _) hcut).2
        have hlength := length_behindDelimiter_le s
        have ih : partsLoop (lit "--" ++ boundary) n rest = _ := partsLoop_eq (by omega)
        dsimp only
        rw [List.dropLast_cons_of_ne_nil (sectionsLoop_ne_nil (by omega) rest),
          List.takeWhile_cons, eq_of_cutSub hcut, closes_iff, ih]
        cases closes x with
        | true => rfl
        | false => rfl

/-- **The parts that `BODYSTRUCTURE` lists.** -/
theorem multipartParts_eq (body boundary : Bytes) :
    multipartParts body boundary = partTexts body boundary := by
  rw [multipartParts, partTexts, sections]
  cases hcut : cutSub (lit "--" ++ boundary) body with
  | none => rfl
  | some p => exact partsLoop_eq (Mime.length_lt_of_cutSub (List.cons_ne_nil _ _) hcut).2

/-- **The loop of `ExtractPartBySection`** takes the text behind any delimiter. -/
theorem extractPart_eq (hd : delimiter ≠ []) :
    ∀ {n m : ℕ} {s : Bytes}, s.length < m → extractPart delimiter n (delimiter ++ s) =
      ((sectionsLoop delimiter m s)[n]?).elim [] dropBreak := by
  intro n
  induction n with
  | zero =>
    intro m s hm
    obtain ⟨k, rfl⟩ := Nat.exists_eq_succ_of_ne_zero (Nat.ne_of_gt (Nat.zero_lt_of_lt hm))
    rw [extractPart, cutSub_of_prefix, sectionsLoop]
    dsimp only
    cases cutSub delimiter (behindDelimiter s) with
    | none => rfl
    | some p => rfl
  | succ n ih =>
    intro m s hm
    obtain ⟨k, rfl⟩ := Nat.exists_eq_succ_of_ne_zero (Nat.ne_of_gt (Nat.zero_lt_of_lt hm))
    rw [extractPart, cutSub_of_prefix, sectionsLoop]
    dsimp only
    cases hcut : cutSub delimiter (behindDelimiter s) with
    | none => rfl
    | some p =>
      obtain ⟨x, rest⟩ := p
      have hrest := (Mime.length_lt_of_cutSub hd hcut).2
      have hlength := length_behindDelimiter_le s
      have hdrop : (behindDelimiter s).drop x.length = delimiter ++ rest := by
        rw [eq_of_cutSub hcut, List.append_assoc, List.drop_left]
      dsimp only
      rw [hdrop, ih (m := k) (by omega), List.getElem?_cons_succ]

/-- **`ExtractPartBySection` finds the text behind the i-th delimiter**, whatever delimiter it is. -/
theorem extractPartBySection_eq {i : ℕ} (hi : 0 < i) :
    extractPartBySection body boundary i =
      ((sections body boundary)[i - 1]?).elim [] dropBreak := by
  have hd : lit "--" ++ boundary ≠ [] := List.cons_ne_nil _ _
  have hindex : ((i : ℤ) - 1).toNat = i - 1 := by omega
  rw [extractPartBySection, if_neg (by omega), hindex, sections]
  cases hcut : cutSub (lit "--" ++ boundary) body with
  | none =>
    rw [extractPart, hcut]
    rfl
  | some p =>
    obtain ⟨pre, rest⟩ := p
    have hstart : extractPart (lit "--" ++ boundary) (i - 1) body =
        extractPart (lit "--" ++ boundary) (i - 1) ((lit "--" ++ boundary) ++ rest) := by
      rw [extractPart, hcut, extractPart, cutSub_of_prefix]
    rw [hstart]
    exact extractPart_eq hd (Mime.length_lt_of_cutSub hd hcut).2

end Texts

/-! ## A section with a number -/

section Numbered

variable {i : ℕ} {raw headers body name suffix : Bytes}

theorem upper_of_isDigit {c : UInt8} (h : isDigit c = true) : upper c = c := by
  rw [upper, if_neg]
  rintro ⟨ha, -⟩
  have hdigit : c ≤ '9'.toUInt8 := of_decide_eq_true (Bool.and_eq_true_iff.mp h).2
  have hle : 'a'.toUInt8 ≤ '9'.toUInt8 := UInt8.le_trans ha hdigit
  exact absurd hle (by decide)

theorem toUpper_decimal (i : ℕ) : toUpper (decimal i) = decimal i :=
  (List.map_congr_left fun _ hc => upper_of_isDigit (isDigit_of_mem_decimal hc)).trans
    (List.map_id _)

/-- The name starts with a digit. -/
theorem exists_decimal_append_eq_cons (i : ℕ) (suffix : Bytes) :
    ∃ c s, decimal i ++ suffix = c :: s ∧ isDigit c = true := by
  obtain ⟨c, s, hcons⟩ := List.exists_cons_of_ne_nil (decimal_ne_nil i)
  refine ⟨c, s ++ suffix, by rw [hcons]; rfl, isDigit_of_mem_decimal (n := i) ?_⟩
  rw [hcons]
  exact List.mem_cons_self ..

/-- Nothing in front of the suffix is a dot. -/
theorem pathAndSuffix_append (hsuffix : pathAndSuffix suffix = ([], suffix)) :
    ∀ {t : Bytes}, '.'.toUInt8 ∉ t → pathAndSuffix (t ++ suffix) = (t, suffix)
  | [], _ => hsuffix
  | c :: t, ht => by
      have hc : c ≠ '.'.toUInt8 := fun h => ht (h ▸ List.mem_cons_self ..)
      rw [List.cons_append, pathAndSuffix, if_neg (fun h => hc h.1),
        pathAndSuffix_append hsuffix (List.not_mem_of_not_mem_cons ht)]

theorem stoi_decimal (i : ℕ) : stoi (decimal i) =
    if i ≤ 2 ^ 31 - 1 then .ok (i : ℤ) else .error (.outOfRange (lit "stoi")) := by
  have hstoll := stoll_digits ⟨decimal i, decimal_ne_nil i, fun _ => isDigit_of_mem_decimal⟩
  rw [digitsValue_decimal] at hstoll
  rw [stoi, hstoll, int64Max]
  split_ifs with hlarge hint hint
  · omega
  · rfl
  · dsimp only
    rw [if_neg (by omega)]
  · dsimp only
    rw [if_pos (by omega)]

/-- The end of a section's path: the header block that was found there, or the body. -/
def sectionText (suffix headers body : Bytes) : Bytes :=
  if suffix = lit ".HEADER" ∨ suffix = lit ".MIME" then headers ++ lit "\r\n\r\n" else body

/-- What a section with this number returns, if the number is an `int`. -/
def numberedText (headers body suffix : Bytes) (i : ℕ) : Bytes :=
  let contentType := getHeaderValue headers (lit "Content-Type:")
  if contains (lit "multipart") contentType then
    let part := ((sections body (extractBoundary contentType))[i - 1]?).elim [] dropBreak
    if part = [] then []
    else sectionText suffix (splitHeadersAndBody part).1
      ((splitHeadersAndBody part).2.dropWhile fun c => c = '\r'.toUInt8 ∨ c = '\n'.toUInt8)
  else if i = 1 then sectionText suffix headers body
  else []

theorem numberedSection_eq (hi : 0 < i) (hname : pathAndSuffix name = (decimal i, suffix))
    (hboundary : extractBoundary (getHeaderValue headers (lit "Content-Type:")) ≠ []) :
    numberedSection headers body name =
      if i ≤ 2 ^ 31 - 1 then .ok (numberedText headers body suffix i)
      else .error (.outOfRange (lit "stoi")) := by
  have hpath : getlines '.'.toUInt8 (decimal i) = [decimal i] :=
    getlines_of_notMem (notMem_decimal i (by decide) (by decide)) (decimal_ne_nil i)
  rw [numberedSection, hname]
  dsimp only
  rw [hpath, List.mapM_cons, List.mapM_nil, stoi_decimal]
  have hpick : ∀ h b : Bytes, (if suffix = lit ".HEADER" ∨ suffix = lit ".MIME" then
      (return h ++ lit "\r\n\r\n" : Except Exn Bytes) else return b) =
        .ok (sectionText suffix h b) := by
    intro h b
    rw [sectionText]
    split_ifs <;> rfl
  by_cases hint : i ≤ 2 ^ 31 - 1
  · rw [if_pos hint, if_pos hint, numberedText]
    change (if contains (lit "multipart") _ then _ else _ : Except Exn Bytes) = _
    by_cases hmultipart : contains (lit "multipart")
        (getHeaderValue headers (lit "Content-Type:")) = true
    · rw [if_pos hmultipart, if_pos hmultipart, followPath]
      dsimp only
      rw [if_neg hboundary, extractPartBySection_eq hi]
      generalize ((sections body _)[i - 1]?).elim [] dropBreak = part
      by_cases hpart : part = []
      · rw [if_pos hpart, if_pos hpart]
        rfl
      · rw [if_neg hpart, if_neg hpart, followPath]
        exact hpick _ _
    · rw [if_neg hmultipart, if_neg hmultipart]
      by_cases hone : i = 1
      · rw [if_pos hone, if_pos (by rw [hone]; rfl)]
        exact hpick _ _
      · have hother : [(i : ℤ)] ≠ [1] := by simpa using hone
        rw [if_neg hone, if_neg hother]
        rfl
  · rw [if_neg hint, if_neg hint]
    rfl

/-- **What a section with a number returns.** -/
theorem getBodySection_decimal_append (hi : 0 < i) (hraw : raw ≠ [])
    (hsplit : splitHeadersAndBody raw = (headers, body))
    (hboundary : extractBoundary (getHeaderValue headers (lit "Content-Type:")) ≠ [])
    (hupper : toUpper suffix = suffix) (hsuffix : pathAndSuffix suffix = ([], suffix)) :
    getBodySection raw (decimal i ++ suffix) =
      if i ≤ 2 ^ 31 - 1 then .ok (numberedText headers body suffix i)
      else .error (.outOfRange (lit "stoi")) := by
  obtain ⟨c, s, hcons, hdigit⟩ := exists_decimal_append_eq_cons i suffix
  have hname : toUpper (decimal i ++ suffix) = c :: s := by
    rw [toUpper, List.map_append, ← toUpper, ← toUpper, toUpper_decimal, hupper, hcons]
  have hletter : ∀ (x : UInt8) (t : Bytes), isDigit x = false → c :: s ≠ x :: t := by
    intro x t hx h
    obtain rfl := (List.cons.inj h).1
    rw [hdigit] at hx
    exact absurd hx (by decide)
  have hnames : c :: s ≠ lit "HEADER" ∧ c :: s ≠ lit "TEXT" ∧ c :: s ≠ lit "MIME" :=
    ⟨hletter 'H'.toUInt8 _ (by decide), hletter 'T'.toUInt8 _ (by decide),
      hletter 'M'.toUInt8 _ (by decide)⟩
  have hheader : ¬ (lit "HEADER.").isPrefixOf (c :: s) = true := by
    intro h
    obtain ⟨t, ht⟩ := List.isPrefixOf_iff_prefix.mp h
    exact hletter 'H'.toUInt8 (lit "EADER." ++ t) (by decide) ht.symm
  have hpath : pathAndSuffix (c :: s) = (decimal i, suffix) := by
    rw [← hcons]
    exact pathAndSuffix_append hsuffix (notMem_decimal i (by decide) (by decide))
  rw [getBodySection, if_neg hraw, hsplit]
  dsimp only
  rw [hname, if_neg hnames.1, if_neg hnames.2.1, if_neg hnames.2.2, if_neg hheader]
  exact (if_pos hdigit).trans (numberedSection_eq hi hpath hboundary)

end Numbered

/-! ## The section `i.MIME` -/

section MimeSection

variable {i : ℕ} {raw headers body : Bytes}

/-- The section's name. -/
def mimeName (i : ℕ) : Bytes := decimal i ++ lit ".MIME"

/-- What `BODY[i.MIME]` returns, if `i` is an `int`. -/
def mimeSection (headers body : Bytes) (i : ℕ) : Bytes :=
  let contentType := getHeaderValue headers (lit "Content-Type:")
  if contains (lit "multipart") contentType then
    let part := ((sections body (extractBoundary contentType))[i - 1]?).elim [] dropBreak
    if part = [] then [] else (splitHeadersAndBody part).1 ++ lit "\r\n\r\n"
  else if i = 1 then headers ++ lit "\r\n\r\n"
  else []

/-- **What `BODY[i.MIME]` returns.** -/
theorem getBodySection_mimeName (hi : 0 < i) (hraw : raw ≠ [])
    (hsplit : splitHeadersAndBody raw = (headers, body))
    (hboundary : extractBoundary (getHeaderValue headers (lit "Content-Type:")) ≠ []) :
    getBodySection raw (mimeName i) =
      if i ≤ 2 ^ 31 - 1 then .ok (mimeSection headers body i)
      else .error (.outOfRange (lit "stoi")) := by
  have htext : ∀ h b : Bytes, sectionText (lit ".MIME") h b = h ++ lit "\r\n\r\n" :=
    fun h b => if_pos (.inr rfl)
  have hsection : numberedText headers body (lit ".MIME") i = mimeSection headers body i := by
    rw [numberedText, mimeSection]
    simp only [htext]
  rw [mimeName, getBodySection_decimal_append hi hraw hsplit hboundary (by decide) (by decide),
    hsection]

/-- The parts are the first of the texts behind the delimiters. -/
theorem partTexts_prefix (body boundary : Bytes) :
    partTexts body boundary <+: sections body boundary :=
  (List.takeWhile_prefix _).trans (List.dropLast_prefix _)

/-- The parts of the message, as `ParsePartStructure` takes them. -/
def childTexts (headers body : Bytes) : List Bytes :=
  multipartParts body (extractBoundary (getHeaderValue headers (lit "Content-Type:")))

/-- `BODY[i.MIME]` is there exactly for the parts that `BODYSTRUCTURE` lists, and is the header block
of the part and a blank line. -/
def ListedAlike (raw headers body : Bytes) (i : ℕ) : Prop :=
  ∃ reply, getBodySection raw (mimeName i) = .ok reply ∧
    (reply ≠ [] ↔ i ≤ (partStructure raw).children.length) ∧
    ∀ p, (childTexts headers body)[i - 1]? = some p →
      reply = (splitHeadersAndBody p).1 ++ lit "\r\n\r\n"

/-- **The two agree if and only if** the index is an `int`, and the text behind the i-th delimiter is
either a part that has its header block, and no other header, without the line break at its end, or
no part and no more than a line break.  (Where the type is not written `multipart`, only the first
index finds anything, and that is the header of the message.) -/
theorem bodySection_iff (hi : 0 < i) (hraw : raw ≠ [])
    (hsplit : splitHeadersAndBody raw = (headers, body))
    (htype : (splitType (getHeaderValue headers (lit "Content-Type:"))).1 = lit "multipart")
    (hboundary : extractBoundary (getHeaderValue headers (lit "Content-Type:")) ≠ []) :
    ListedAlike raw headers body i ↔
      i ≤ 2 ^ 31 - 1 ∧
      let contentType := getHeaderValue headers (lit "Content-Type:")
      let parts := partTexts body (extractBoundary contentType)
      if contains (lit "multipart") contentType then
        ∀ x, (sections body (extractBoundary contentType))[i - 1]? = some x →
          if i ≤ parts.length then
            dropBreak x ≠ [] ∧ (splitHeadersAndBody (dropBreak x)).1 = (splitHeadersAndBody x).1
          else dropBreak x = []
      else if i ≤ parts.length then
        i = 1 ∧ ∀ x, parts[0]? = some x → (splitHeadersAndBody x).1 = headers
      else i ≠ 1 := by
  have hchildren : (partStructure raw).children.length = (childTexts headers body).length := by
    rw [children_partStructure hsplit htype hboundary, List.length_map]
    rfl
  have hget := getBodySection_mimeName hi hraw hsplit hboundary
  rw [ListedAlike, hchildren, childTexts, multipartParts_eq, hget]
  by_cases hint : i ≤ 2 ^ 31 - 1
  · rw [if_pos hint, and_iff_right hint]
    have hreply : ∀ P : Bytes → Prop, (∃ reply, Except.ok (mimeSection headers body i) =
        (Except.ok reply : Except Exn Bytes) ∧ P reply) ↔ P (mimeSection headers body i) := by
      intro P
      constructor
      · rintro ⟨reply, h, hP⟩
        rwa [Except.ok.inj h]
      · exact fun hP => ⟨_, rfl, hP⟩
    have hbehind : ∀ t : Bytes, t ++ lit "\r\n\r\n" ≠ [] := fun t => by simp [lit]
    rw [hreply, mimeSection]
    dsimp only
    generalize getHeaderValue headers (lit "Content-Type:") = contentType at *
    have hprefix := partTexts_prefix body (extractBoundary contentType)
    generalize partTexts body (extractBoundary contentType) = parts at *
    generalize sections body (extractBoundary contentType) = xs at *
    by_cases hmultipart : contains (lit "multipart") contentType = true
    · rw [if_pos hmultipart, if_pos hmultipart]
      by_cases hpart : i ≤ parts.length
      · have hsame : xs[i - 1]? = parts[i - 1]? := by
          obtain ⟨rest, rfl⟩ := hprefix
          exact List.getElem?_append_left (by omega)
        obtain ⟨x, hx⟩ : ∃ x, parts[i - 1]? = some x :=
          ⟨_, List.getElem?_eq_getElem (by omega)⟩
        rw [hsame, hx]
        simp only [Option.elim_some, Option.some.injEq, forall_eq', hpart, if_true, iff_true]
        by_cases hempty : dropBreak x = []
        · simp [hempty]
        · simp only [hempty, if_false, not_false_eq_true, ne_eq, hbehind, true_and]
          exact List.append_left_inj _
      · have hnone : parts[i - 1]? = none := List.getElem?_eq_none (by omega)
        rw [hnone]
        simp only [hpart, if_false, reduceCtorEq, false_implies, implies_true, and_true, iff_false,
          ne_eq, not_not]
        cases xs[i - 1]? with
        | none => simp
        | some x =>
          by_cases hempty : dropBreak x = []
          · simp [hempty]
          · simp [hempty, hbehind]
    · rw [if_neg hmultipart, if_neg hmultipart]
      by_cases hone : i = 1
      · subst hone
        by_cases hpart : 1 ≤ parts.length
        · simp only [hpart, if_true, ne_eq, hbehind, not_false_eq_true, true_and,
            List.append_left_inj]
          exact forall₂_congr fun x _ => eq_comm
        · simp [hpart, hbehind]
      · by_cases hpart : i ≤ parts.length
        · simp [hpart, hone]
        · have hnone : parts[i - 1]? = none := List.getElem?_eq_none (by omega)
          simp [hpart, hone, hnone]
  · rw [if_neg hint]
    constructor
    · rintro ⟨reply, h, -⟩
      cases h
    · exact fun h => absurd h.1 hint

end MimeSection

/-! ## A message of one part -/

/-- A message with one part, and what stands behind its header. -/
def onePart : Bytes := Mime.mixedMessage [Mime.plainPart "one"]

def onePartBody : Bytes := Mime.renderParts (lit "--b") [] [Mime.plainPart "one" ++ lit "\r\n"]

theorem splitHeadersAndBody_onePart :
    splitHeadersAndBody onePart = (Mime.mixedHeaders, onePartBody) := by decide +kernel

theorem bodySection_iff_one :
    ListedAlike onePart Mime.mixedHeaders onePartBody 1 ↔
      1 ≤ 2 ^ 31 - 1 ∧
      let contentType := getHeaderValue Mime.mixedHeaders (lit "Content-Type:")
      let parts := partTexts onePartBody (extractBoundary contentType)
      if contains (lit "multipart") contentType then
        ∀ x, (sections onePartBody (extractBoundary contentType))[1 - 1]? = some x →
          if 1 ≤ parts.length then
            dropBreak x ≠ [] ∧ (splitHeadersAndBody (dropBreak x)).1 = (splitHeadersAndBody x).1
          else dropBreak x = []
      else if 1 ≤ parts.length then
        1 = 1 ∧ ∀ x, parts[0]? = some x → (splitHeadersAndBody x).1 = Mime.mixedHeaders
      else 1 ≠ 1 :=
  bodySection_iff (by decide) (by decide +kernel) splitHeadersAndBody_onePart (by decide +kernel)
    (by decide +kernel)

/-- **One part is listed, and `BODY[2.MIME]` finds the closing delimiter.** -/
theorem not_bodySection_closing :
    (partStructure onePart).children.length = 1 ∧
      getBodySection onePart (mimeName 2) = .ok (lit "\r\n\r\n") ∧
      ¬ ListedAlike onePart Mime.mixedHeaders onePartBody 2 := by
  have hone : (partStructure onePart).children.length = 1 := by decide +kernel
  have hget : getBodySection onePart (mimeName 2) = .ok (lit "\r\n\r\n") := by decide +kernel
  refine ⟨hone, hget, ?_⟩
  rintro ⟨reply, hreply, hlisted, -⟩
  obtain rfl : lit "\r\n\r\n" = reply := Except.ok.inj (hget.symm.trans hreply)
  rw [hone] at hlisted
  exact absurd (hlisted.mp (by decide +kernel)) (by decide +kernel)

end MailStack.Imap
