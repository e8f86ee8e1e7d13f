import MailStack.Machinery.Traced
import MailStack.Mime.Structure

/-!
# Mime/Termination — the loops and the recursion of the parser come to an end

The functions of `Looped` are those of the parser with the loops of the source, by positions, and
with fuel.  They record every recursive call and every step of a position.  `parsing_ends` says that
the fuel never runs out, that the result is that of `parseStructure` and `parseEmail`, that every
call is made with a shorter text, and that every position moves forward.
-/

open Bytes MailStack.Base64 Search Traced

namespace MailStack.Mime

/-! ## What happens on the way -/

/-- A call of one of the parsing functions from another, each with its text; or a loop that goes on
from one position to the next. -/
inductive Event
  | call (caller callee : Bytes)
  | advance (pos next : ℕ)

/-- The callee's text is shorter, the next position further on. -/
def Event.Shrinks : Event → Prop
  | .call caller callee => callee.length < caller.length
  | .advance pos next => pos < next

/-- A call on a shorter text shrinks. -/
theorem ends_call {caller callee : Bytes} (h : callee.length < caller.length) :
    Ends Event.Shrinks (emit (.call caller callee)) () := Ends.emit h

/-- A position that moves on shrinks what is left. -/
theorem ends_advance {pos next : ℕ} (h : pos < next) :
    Ends Event.Shrinks (emit (.advance pos next)) () := Ends.emit h

/-! ## The delimiter loop -/

/-- `if (pos < body.length() && body[pos] == c) pos++`. -/
def skipAt (c : UInt8) (body : Bytes) (pos : ℕ) : ℕ := if body[pos]? = some c then pos + 1 else pos

/-- An iteration of the delimiter loop: the part behind the delimiter at this position, and the
position of the next delimiter; `none` where the loop is left. -/
def delimiterStep (body delimiter : Bytes) (startPos : ℕ) : Option (Bytes × ℕ) :=
  let startPos := startPos + delimiter.length
  let startPos := skipAt '\r'.toUInt8 body startPos
  let startPos := skipAt '\n'.toUInt8 body startPos
  if startPos + 1 < body.length ∧ slice body startPos (startPos + 2) = lit "--" then none
  else (findFrom delimiter body startPos).map fun endPos => (slice body startPos endPos, endPos)

/-- The loop of `ParseMultipartBody` and of `ParsePartStructure`. -/
def delimiterLoop {σ : Type} (handle : Bytes → σ → Traced Event σ) (body delimiter : Bytes)
    (out : σ) : Traced Event σ :=
  Traced.loop (fun (startPos, out) =>
    match startPos with
    | none => pure (.inr out)
    | some startPos =>
      match delimiterStep body delimiter startPos with
      | none => pure (.inr out)
      | some (part, endPos) => do
        let out ← handle part out
        emit (.advance startPos endPos)
        pure (.inl (some endPos, out))) (body.length + 1) (findFrom delimiter body 0, out)

section DelimiterLoop

variable {body delimiter part : Bytes} {pos endPos : ℕ}

/-- Skipping by position and skipping in the text are one thing. -/
theorem drop_skipAt (c : UInt8) (body : Bytes) (pos : ℕ) :
    body.drop (skipAt c body pos) = skipChar c (body.drop pos) := by
  rw [skipAt, skipChar, List.head?_drop]
  split_ifs
  · rw [List.drop_drop]
  · rfl

theorem le_skipAt (c : UInt8) (body : Bytes) (pos : ℕ) : pos ≤ skipAt c body pos := by
  rw [skipAt]
  split_ifs <;> omega

/-- The two dashes of the last delimiter, by position and in the text. -/
theorem isPrefixOf_drop_iff (body : Bytes) (pos : ℕ) :
    (pos + 1 < body.length ∧ slice body pos (pos + 2) = lit "--") ↔
      (lit "--").isPrefixOf (body.drop pos) = true := by
  rw [List.isPrefixOf_iff_prefix, List.prefix_iff_eq_take, slice, Nat.add_sub_cancel_left]
  refine ⟨fun h => h.2.symm, fun h => ⟨?_, h.symm⟩⟩
  have hlength := congrArg List.length h
  rw [List.length_take, List.length_drop] at hlength
  have htwo : (lit "--").length = 2 := rfl
  omega

/-- The loop takes the same parts with any fuel beyond the length of the text. -/
theorem partsLoop_fuel (hd : delimiter ≠ []) :
    ∀ {n m : ℕ} {s : Bytes}, s.length < n → s.length < m →
      partsLoop delimiter n s = partsLoop delimiter m s := by
  intro n
  induction n with
  | zero => exact fun h => absurd h (Nat.not_lt_zero _)
  | succ n ih =>
    intro m s hn hm
    obtain ⟨k, rfl⟩ := Nat.exists_eq_succ_of_ne_zero (Nat.ne_of_gt (Nat.zero_lt_of_lt hm))
    have hskip := (length_skipChar_le '\n'.toUInt8 (skipChar '\r'.toUInt8 s)).trans
      (length_skipChar_le '\r'.toUInt8 s)
    rw [partsLoop, partsLoop]
    cases hcut : cutSub delimiter (skipChar '\n'.toUInt8 (skipChar '\r'.toUInt8 s)) with
    | none => rfl
    | some p =>
      have hrest := (length_lt_of_cutSub hd hcut).2
      dsimp only
      rw [ih (m := k) (by omega) (by omega)]

/-- The parts from a delimiter on. -/
def partsFrom (body delimiter : Bytes) (pos : ℕ) : List Bytes :=
  partsLoop delimiter (body.length + 1) (body.drop (pos + delimiter.length))

/-- Where no delimiter follows, no part does. -/
theorem delimiterStep_none (h : delimiterStep body delimiter pos = none) :
    partsFrom body delimiter pos = [] := by
  rw [delimiterStep] at h
  rw [partsFrom, partsLoop, ← drop_skipAt, ← drop_skipAt]
  split_ifs at h with hdash
  · rw [if_pos ((isPrefixOf_drop_iff _ _).mp hdash)]
  · rw [if_neg (fun hdashes => hdash ((isPrefixOf_drop_iff _ _).mpr hdashes)),
      findFrom_eq_none.mp (Option.map_eq_none_iff.mp h)]

/-- **An iteration** takes one part, which is shorter than the body, and moves forward. -/
theorem delimiterStep_some (hd : delimiter ≠ [])
    (h : delimiterStep body delimiter pos = some (part, endPos)) :
    partsFrom body delimiter pos = part :: partsFrom body delimiter endPos ∧
      part.length < body.length ∧ pos < endPos ∧ endPos < body.length := by
  have hpos := List.length_pos_of_ne_nil hd
  rw [delimiterStep] at h
  split_ifs at h with hdash
  obtain ⟨p, hfind, heq⟩ := Option.map_eq_some_iff.mp h
  obtain ⟨rfl, rfl⟩ := Prod.mk.inj heq
  obtain ⟨hle, hcut⟩ := exists_cutSub_of_findFrom hfind
  have hend := findFrom_lt hd hfind
  have hstart := (le_skipAt '\r'.toUInt8 body (pos + delimiter.length)).trans
    (le_skipAt '\n'.toUInt8 body _)
  refine ⟨?_, ?_, by omega, by omega⟩
  · rw [partsFrom, partsLoop, ← drop_skipAt, ← drop_skipAt,
      if_neg (fun hdashes => hdash ((isPrefixOf_drop_iff _ _).mpr hdashes)), hcut, partsFrom]
    dsimp only
    rw [partsLoop_fuel hd (m := body.length + 1) (by rw [List.length_drop]; omega)
      (by rw [List.length_drop]; omega)]
  · rw [slice, List.length_take, List.length_drop]
    omega

/-- **The delimiter loop ends**, and goes through the parts that are there. -/
theorem ends_delimiterLoop {σ : Type} {handle : Bytes → σ → Traced Event σ} {g : σ → Bytes → σ}
    {boundary : Bytes} (hhandle : ∀ part out, part.length < body.length →
      Ends Event.Shrinks (handle part out) (g out part)) (out : σ) :
    Ends Event.Shrinks (delimiterLoop handle body (lit "--" ++ boundary) out)
      ((multipartParts body boundary).foldl g out) := by
  have hd : lit "--" ++ boundary ≠ [] := List.cons_ne_nil _ _
  have hparts : multipartParts body boundary =
      (findFrom (lit "--" ++ boundary) body 0).elim [] (partsFrom body (lit "--" ++ boundary)) := by
    rw [multipartParts]
    cases hfind : findFrom (lit "--" ++ boundary) body 0 with
    | none =>
      have hcut := findFrom_eq_none.mp hfind
      rw [List.drop_zero] at hcut
      rw [hcut]
      rfl
    | some p =>
      have hcut := (exists_cutSub_of_findFrom hfind).2
      have hend := findFrom_lt hd hfind
      have hpos := List.length_pos_of_ne_nil hd
      rw [List.drop_zero] at hcut
      rw [hcut]
      exact partsLoop_fuel hd (by rw [List.length_drop]; omega) (by rw [List.length_drop]; omega)
  rw [hparts]
  refine Ends.loop (fun s : Option ℕ × σ => s.1.elim 0 (body.length - ·))
    (fun s : Option ℕ × σ => (s.1.elim [] (partsFrom body (lit "--" ++ boundary))).foldl g s.2) ?_ ?_
  · rintro ⟨startPos, out⟩
    cases startPos with
    | none => exact .inr (Ends.pure _)
    | some pos =>
      dsimp only [Option.elim]
      cases hstep : delimiterStep body (lit "--" ++ boundary) pos with
      | none =>
        rw [delimiterStep_none hstep]
        exact .inr (Ends.pure _)
      | some p =>
        obtain ⟨part, endPos⟩ := p
        obtain ⟨hfrom, hpart, hforward, hend⟩ := delimiterStep_some hd hstep
        refine .inl ⟨(some endPos, g out part), ?_, ?_, ?_⟩
        · exact (hhandle part out hpart).bind ((ends_advance hforward).bind (Ends.pure _))
        · dsimp only
          omega
        · rw [hfrom, List.foldl_cons]
  · cases hfind : findFrom (lit "--" ++ boundary) body 0 with
    | none => exact Nat.succ_pos _
    | some p => exact Nat.lt_succ_of_le (Nat.sub_le ..)

end DelimiterLoop

/-! ## The loop of `DecodeQuotedPrintable` -/

/-- An iteration of `DecodeQuotedPrintable`: what is appended, and the next position. -/
def quotedPrintableStep (input : Bytes) (i : ℕ) : Bytes × ℕ :=
  if input[i]? = some '='.toUInt8 then
    if input[i + 1]? = some '\r'.toUInt8 ∨ input[i + 1]? = some '\n'.toUInt8 then
      ([], skipAt '\n'.toUInt8 input (skipAt '\r'.toUInt8 input (i + 1)))
    else
      match input[i + 1]?, input[i + 2]? with
      | some h0, some h1 =>
        if isHex h0 && isHex h1 then ([internalHexToChar h0 h1], i + 3) else (lit "=", i + 1)
      | _, _ => (lit "=", i + 1)
  else (input[i]?.toList, i + 1)

section QuotedPrintable

variable {input : Bytes} {i : ℕ} {c c1 : UInt8} {s : Bytes}

theorem skipChar_cons (c x : UInt8) (s : Bytes) :
    skipChar c (x :: s) = if x = c then s else x :: s := by
  rw [skipChar, List.head?_cons]
  simp only [Option.some.injEq, List.drop_succ_cons, List.drop_zero]

/-- A soft line break is passed over. -/
theorem decodeQuotedPrintable_break (hbreak : c1 = '\r'.toUInt8 ∨ c1 = '\n'.toUInt8) :
    decodeQuotedPrintable ('='.toUInt8 :: c1 :: s) =
      decodeQuotedPrintable (skipChar '\n'.toUInt8 (skipChar '\r'.toUInt8 (c1 :: s))) := by
  have hcr : '\n'.toUInt8 ≠ '\r'.toUInt8 := by decide
  rw [decodeQuotedPrintable.eq_def]
  dsimp only
  rw [if_pos rfl]
  rcases hbreak with rfl | rfl
  · rw [skipChar_cons, if_pos rfl, if_pos rfl]
    cases s with
    | nil => rfl
    | cons c2 s =>
      rw [skipChar_cons]
      dsimp only
      split_ifs <;> rfl
  · rw [skipChar_cons, if_neg hcr, if_neg hcr, skipChar_cons, if_pos rfl, if_pos rfl]

/-- **An iteration** decodes what it passes over, and moves forward. -/
theorem quotedPrintableStep_spec (hi : i < input.length) :
    decodeQuotedPrintable (input.drop i) = (quotedPrintableStep input i).1 ++
        decodeQuotedPrintable (input.drop (quotedPrintableStep input i).2) ∧
      i < (quotedPrintableStep input i).2 := by
  obtain ⟨c, s, hcons⟩ := List.exists_cons_of_length_pos
    (show 0 < (input.drop i).length by rw [List.length_drop]; omega)
  have hget : ∀ k, input[i + k]? = (c :: s)[k]? := fun k => by rw [← hcons, List.getElem?_drop]
  have hdrop : ∀ k, input.drop (i + k) = (c :: s).drop k := fun k => by
    rw [← hcons, List.drop_drop]
  have hfirst : input[i]? = some c := hget 0
  rw [quotedPrintableStep, hfirst, hget 1, hget 2, hcons]
  simp only [Option.some.injEq, List.getElem?_cons_succ]
  by_cases hc : c = '='.toUInt8
  · subst hc
    rw [if_pos rfl]
    match s with
    | [] =>
      have hend : ¬ (([] : Bytes)[0]? = some '\r'.toUInt8 ∨ ([] : Bytes)[0]? = some '\n'.toUInt8) := by
        simp
      rw [if_neg hend]
      change decodeQuotedPrintable (lit "=") =
        lit "=" ++ decodeQuotedPrintable (input.drop (i + 1)) ∧ i < i + 1
      rw [hdrop 1]
      exact ⟨rfl, Nat.lt_succ_self i⟩
    | c1 :: s =>
      simp only [List.getElem?_cons_zero, List.getElem?_cons_succ, Option.some.injEq]
      by_cases hbreak : c1 = '\r'.toUInt8 ∨ c1 = '\n'.toUInt8
      · have hforward := (le_skipAt '\r'.toUInt8 input (i + 1)).trans
          (le_skipAt '\n'.toUInt8 input _)
        rw [if_pos hbreak, drop_skipAt, drop_skipAt, hdrop 1, decodeQuotedPrintable_break hbreak]
        exact ⟨rfl, hforward⟩
      · obtain ⟨hcr, hlf⟩ := not_or.mp hbreak
        rw [if_neg hbreak, decodeQuotedPrintable.eq_def]
        dsimp only
        rw [if_pos rfl, if_neg hcr, if_neg hlf]
        match s with
        | [] =>
          change lit "=" ++ decodeQuotedPrintable [c1] =
            lit "=" ++ decodeQuotedPrintable (input.drop (i + 1)) ∧ i < i + 1
          rw [hdrop 1]
          exact ⟨rfl, Nat.lt_succ_self i⟩
        | c2 :: s =>
          dsimp only [List.getElem?_cons_zero]
          split_ifs with hhex
          · rw [hdrop 3]
            exact ⟨rfl, by omega⟩
          · rw [hdrop 1]
            exact ⟨rfl, Nat.lt_succ_self i⟩
  · rw [if_neg hc, hdrop 1, decodeQuotedPrintable.eq_def]
    dsimp only
    rw [if_neg hc]
    exact ⟨rfl, Nat.lt_succ_self i⟩

/-- What is decoded is no longer than the text. -/
theorem length_decodeQuotedPrintable_le (s : Bytes) :
    (decodeQuotedPrintable s).length ≤ s.length := by
  fun_induction decodeQuotedPrintable s <;> simp only [List.length_cons, List.length_nil] at * <;>
    omega

end QuotedPrintable

/-! ## The loop of `DecodeEncodedWord` -/

/-- An iteration of `DecodeEncodedWord`: behind an encoded word the next position and the result so
far, or the result where there is none. -/
def encodedWordStep (input : Bytes) (pos : ℕ) (foundAnyEncoded : Bool) (result : Bytes) :
    (ℕ × Bytes) ⊕ Bytes :=
  match findFrom (lit "=?") input pos with
  | none => .inr (result ++ keepGap foundAnyEncoded (input.drop pos))
  | some start =>
    let result := result ++ keepGap foundAnyEncoded (slice input pos start)
    match findFrom (lit "?") input (start + 2) with
    | none => .inr (result ++ input.drop start)
    | some q1 =>
      match findFrom (lit "?") input (q1 + 1) with
      | none => .inr (result ++ input.drop start)
      | some q2 =>
        match findFrom (lit "?=") input (q2 + 1) with
        | none => .inr (result ++ input.drop start)
        | some stop =>
          .inl (stop + 2,
            result ++ decodePart (slice input (q1 + 1) q2) (slice input (q2 + 1) stop))

section EncodedWord

variable {input s result : Bytes} {pos : ℕ} {found : Bool}

theorem cutSub_singleton (c : UInt8) : ∀ s : Bytes, cutSub [c] s = cut c s
  | [] => rfl
  | x :: s => by
      rw [cutSub, cut, cutSub_singleton c s]
      by_cases hx : x = c
      · rw [if_pos hx, hx, if_pos (by simp)]
        rfl
      · rw [if_neg hx, if_neg]
        rw [List.isPrefixOf_iff_prefix, List.cons_prefix_cons]
        exact fun h => hx h.1.symm

/-- What follows a cut is shorter. -/
theorem length_lt_of_cut {c : UInt8} {s a b : Bytes} (h : cut c s = some (a, b)) :
    b.length < s.length := by
  rw [(cut_eq_some_iff.mp h).1, List.length_append, List.length_cons]
  omega

/-- Any fuel from the length of the text on is enough. -/
theorem decodeLoop_fuel :
    ∀ {n m : ℕ} {s : Bytes} {found : Bool} {result : Bytes}, s.length ≤ n → s.length ≤ m →
      decodeLoop n s found result = decodeLoop m s found result
  | n, m, [], _, _, _, _ => by cases n <;> cases m <;> rfl
  | n + 1, m + 1, c :: s, found, result, hn, hm => by
      rw [decodeLoop, decodeLoop]
      cases hgap : cutSub (lit "=?") (c :: s) with
      | none => rfl
      | some p =>
        have hrest := (length_lt_of_cutSub (List.cons_ne_nil _ _) hgap).2
        dsimp only
        cases hcharset : cut '?'.toUInt8 p.2 with
        | none => rfl
        | some p₁ =>
          have hrest₁ := length_lt_of_cut hcharset
          dsimp only
          cases hencoding : cut '?'.toUInt8 p₁.2 with
          | none => rfl
          | some p₂ =>
            have hrest₂ := length_lt_of_cut hencoding
            dsimp only
            cases htext : cutSub (lit "?=") p₂.2 with
            | none => rfl
            | some p₃ =>
              have hrest₃ := (length_lt_of_cutSub (List.cons_ne_nil _ _) htext).2
              rw [List.length_cons] at hn hm hrest
              dsimp only
              exact decodeLoop_fuel (by omega) (by omega)

/-- **An iteration** of the loop, on what stands from the position on. -/
theorem encodedWordStep_spec (hpos : pos < input.length) (n : ℕ) :
    match encodedWordStep input pos found result with
    | .inl (next, result') => pos < next ∧ decodeLoop (n + 1) (input.drop pos) found result =
        decodeLoop n (input.drop next) true result'
    | .inr result' => decodeLoop (n + 1) (input.drop pos) found result = (result', found) := by
  obtain ⟨c, s, hcons⟩ := List.exists_cons_of_length_pos
    (show 0 < (input.drop pos).length by rw [List.length_drop]; omega)
  have hquestion : ∀ s : Bytes, cutSub (lit "?") s = cut '?'.toUInt8 s :=
    cutSub_singleton '?'.toUInt8
  rw [encodedWordStep, hcons, decodeLoop, ← hcons]
  cases hstart : findFrom (lit "=?") input pos with
  | none =>
    rw [findFrom_eq_none.mp hstart]
  | some start =>
    obtain ⟨hle, hcut⟩ := exists_cutSub_of_findFrom hstart
    have hdrop := drop_of_findFrom hstart
    have htwo : (lit "=?").length = 2 := rfl
    rw [htwo] at hcut hdrop
    rw [hcut]
    dsimp only
    rw [hdrop]
    cases hq1 : findFrom (lit "?") input (start + 2) with
    | none =>
      rw [← hquestion, findFrom_eq_none.mp hq1]
      exact congrArg (·, found) (List.append_assoc ..)
    | some q1 =>
      obtain ⟨hle₁, hcut₁⟩ := exists_cutSub_of_findFrom hq1
      have hone : (lit "?").length = 1 := rfl
      rw [hone] at hcut₁
      rw [← hquestion, hcut₁]
      dsimp only
      cases hq2 : findFrom (lit "?") input (q1 + 1) with
      | none =>
        rw [← hquestion, findFrom_eq_none.mp hq2]
        exact congrArg (·, found) (List.append_assoc ..)
      | some q2 =>
        obtain ⟨hle₂, hcut₂⟩ := exists_cutSub_of_findFrom hq2
        rw [hone] at hcut₂
        rw [← hquestion, hcut₂]
        dsimp only
        cases hstop : findFrom (lit "?=") input (q2 + 1) with
        | none =>
          rw [findFrom_eq_none.mp hstop]
          exact congrArg (·, found) (List.append_assoc ..)
        | some stop =>
          obtain ⟨hle₃, hcut₃⟩ := exists_cutSub_of_findFrom hstop
          rw [hcut₃]
          exact ⟨by omega, rfl⟩

end EncodedWord

/-! ## The parser with its loops -/

namespace Looped

/-- `MimeDecoder::DecodeEncodedWord`. -/
def decodeEncodedWord (input : Bytes) : Traced Event Bytes := do
  let (result, foundAnyEncoded) ← Traced.loop (fun (pos, foundAnyEncoded, result) =>
    if pos < input.length then
      match encodedWordStep input pos foundAnyEncoded result with
      | .inl (next, result) => do
        emit (.advance pos next)
        pure (.inl (next, true, result))
      | .inr result => pure (.inr (result, foundAnyEncoded))
    else pure (.inr (result, foundAnyEncoded))) (input.length + 1) (0, false, [])
  pure (if !foundAnyEncoded && hasQpArtifacts result then decodeQEncoding result else result)

/-- `MimeDecoder::DecodeQuotedPrintable`. -/
def decodeQuotedPrintable (input : Bytes) : Traced Event Bytes :=
  Traced.loop (fun (i, decoded) =>
    if i < input.length then do
      let (text, next) := quotedPrintableStep input i
      emit (.advance i next)
      pure (.inl (next, decoded ++ text))
    else pure (.inr decoded)) (input.length + 1) (0, [])

/-- `MimeParser::ExtractFileName`. -/
def extractFileName (partHeaders : Bytes) : Traced Event Bytes :=
  let fileName := findParam (lit "filename=") (getHeaderValue partHeaders (lit "Content-Disposition:"))
  let fileName :=
    if fileName = [] then findParam (lit "name=") (getHeaderValue partHeaders (lit "Content-Type:"))
    else fileName
  decodeEncodedWord (trim (if fileName = [] then lit "unnamed_file" else fileName))

/-- `MimeParser::ParseMainHeaders`. -/
def parseMainHeaders (topHeaders : Bytes) (out : Email) : Traced Event Email := do
  let sender ← decodeEncodedWord (getHeaderValue topHeaders (lit "From:"))
  let subject ← decodeEncodedWord (getHeaderValue topHeaders (lit "Subject:"))
  let toField ← decodeEncodedWord (getHeaderValue topHeaders (lit "To:"))
  let ccField ← decodeEncodedWord (getHeaderValue topHeaders (lit "Cc:"))
  pure
    { out with
      sender
      subject
      date := getHeaderValue topHeaders (lit "Date:")
      «to» := splitAddresses toField
      cc := splitAddresses ccField
      messageId := getHeaderValue topHeaders (lit "Message-ID:")
      inReplyTo := getHeaderValue topHeaders (lit "In-Reply-To:")
      references := getHeaderValue topHeaders (lit "References:") }

/-- `MimeParser::ParsePartStructure`. -/
def parsePartStructure : ℕ → Bytes → Traced Event MimePart
  | 0, _ => outOfFuel
  | n + 1, rawPart =>
    let (headers, body) := splitHeadersAndBody rawPart
    let contentType := getHeaderValue headers (lit "Content-Type:")
    let (type, subtype) := splitType contentType
    if type = lit "multipart" then
      let boundary := extractBoundary contentType
      if boundary = [] then pure { type, subtype }
      else do
        let children ← delimiterLoop (fun subPart children => do
            emit (.call rawPart subPart)
            let child ← parsePartStructure n subPart
            pure (children ++ [child])) body (lit "--" ++ boundary) []
        pure { type, subtype, boundary, children }
    else do
      let encoding := toLower (getHeaderValue headers (lit "Content-Transfer-Encoding:"))
      let filename ← extractFileName headers
      pure
        { type
          subtype
          charset := extractCharset contentType
          encoding := encodingOr7bit encoding
          filename := if filename = lit "unnamed_file" then [] else filename
          size := body.length
          lines := body.count '\n'.toUInt8 }

/-- `MimeParser::ParseStructure`. -/
def parseStructure (rawMime : Bytes) : Traced Event (Option MimePart) :=
  if rawMime = [] then pure none
  else do
    let root ← parsePartStructure (rawMime.length + 1) rawMime
    pure (some root)

/-- `ProcessMimePart` on a part that is no multipart. -/
def processLeaf (partHeaders partBody contentType disposition encoding : Bytes) (out : Email) :
    Traced Event Email :=
  if contains (lit "attachment") disposition ∨ contains (lit "name=") contentType ∨
      contains (lit "filename=") disposition then do
    let fileName ← extractFileName partHeaders
    let pureMime := (cut ';'.toUInt8 contentType).elim contentType Prod.fst
    let partBody := if contains (lit "base64") encoding then eraseBreaks partBody else partBody
    pure (out.addAttachment fileName pureMime partBody)
  else pure (Mime.processLeaf partHeaders partBody contentType disposition encoding out)

mutual

/-- `MimeParser::ParseMultipartBody`. -/
def parseMultipartBody : ℕ → Bytes → Bytes → Email → Traced Event Email
  | 0, _, _, _ => outOfFuel
  | n + 1, body, boundary, out =>
    delimiterLoop (fun partRaw out => do
      emit (.call body partRaw)
      processMimePart n partRaw out) body (lit "--" ++ boundary) out

/-- `MimeParser::ProcessMimePart`. -/
def processMimePart : ℕ → Bytes → Email → Traced Event Email
  | 0, _, _ => outOfFuel
  | n + 1, partRaw, out => do
    let (partHeaders, partBody) := splitHeadersAndBody partRaw
    let contentType := toLower (getHeaderValue partHeaders (lit "Content-Type:"))
    let disposition := toLower (getHeaderValue partHeaders (lit "Content-Disposition:"))
    let encoding := toLower (getHeaderValue partHeaders (lit "Content-Transfer-Encoding:"))
    let partBody ← (if contains (lit "quoted-printable") encoding then decodeQuotedPrintable partBody
      else pure partBody)
    if contains (lit "multipart") contentType then
      let nestedBoundary := extractBoundary (getHeaderValue partHeaders (lit "Content-Type:"))
      if nestedBoundary ≠ [] then
        let out :=
          if contains (lit "multipart/alternative") contentType then
            { out with boundaryAlternative := nestedBoundary }
          else out
        emit (.call partRaw partBody)
        parseMultipartBody n partBody nestedBoundary out
      else pure out
    else processLeaf partHeaders partBody contentType disposition encoding out

end

/-- `ParseEmail` on a message that is no multipart. -/
def parseSingle (contentType encoding body : Bytes) (out : Email) : Traced Event Email := do
  let out := { out with plainTextEncoding := encodingOr7bit encoding }
  let out := out.setCharset contentType
  let plainText ← (if contains (lit "quoted-printable") encoding then decodeQuotedPrintable body
    else if contains (lit "base64") encoding then
      match decodeBase64 body with
      | .ok decoded => pure decoded
      | .error _ => pure body
    else pure body)
  pure { out with plainText }

/-- `MimeParser::ParseEmail`. -/
def parseEmail (rawMime : Bytes) (out : Email) : Traced Event (Bool × Email) :=
  if rawMime = [] then pure (false, out)
  else do
    let (topHeaders, body) := splitHeadersAndBody rawMime
    let out ← parseMainHeaders topHeaders out
    let contentType := getHeaderValue topHeaders (lit "Content-Type:")
    let ctLower := toLower contentType
    if contains (lit "multipart") ctLower then
      let boundary := extractBoundary contentType
      if boundary = [] then pure (false, { out with plainText := body })
      else
        let out :=
          if contains (lit "multipart/mixed") ctLower then { out with boundaryMixed := boundary }
          else if contains (lit "multipart/alternative") ctLower then
            { out with boundaryAlternative := boundary }
          else out
        emit (.call rawMime body)
        let out ← parseMultipartBody rawMime.length body boundary out
        pure (true, out)
    else
      let encoding := toLower (getHeaderValue topHeaders (lit "Content-Transfer-Encoding:"))
      let out ← parseSingle contentType encoding body out
      pure (true, out)

end Looped

/-! ## Every function comes to an end -/

/-- The loop over encoded words ends, with what the function returns. -/
theorem ends_decodeEncodedWord (input : Bytes) :
    Ends Event.Shrinks (Looped.decodeEncodedWord input) (decodeEncodedWord input) := by
  refine Ends.bind (a := decodeLoop input.length input false []) ?_ (Ends.pure _)
  refine Ends.loop (fun s : ℕ × Bool × Bytes => input.length - s.1)
    (fun s => decodeLoop input.length (input.drop s.1) s.2.1 s.2.2) ?_ ?_
  · rintro ⟨pos, found, result⟩
    dsimp only
    by_cases hpos : pos < input.length
    · have hspec := @encodedWordStep_spec input result pos found hpos input.length
      have hfuel : decodeLoop (input.length + 1) (input.drop pos) found result =
          decodeLoop input.length (input.drop pos) found result :=
        decodeLoop_fuel (by rw [List.length_drop]; omega) (by rw [List.length_drop]; omega)
      rw [if_pos hpos]
      rw [hfuel] at hspec
      cases hstep : encodedWordStep input pos found result with
      | inl p =>
        obtain ⟨next, result'⟩ := p
        rw [hstep] at hspec
        refine .inl ⟨(next, true, result'), (ends_advance hspec.1).bind (Ends.pure _), ?_,
          hspec.2.symm⟩
        have hforward : pos < next := hspec.1
        dsimp only
        omega
      | inr result' =>
        rw [hstep] at hspec
        rw [show decodeLoop input.length (input.drop pos) found result = (result', found) from hspec]
        exact .inr (Ends.pure _)
    · rw [if_neg hpos, List.drop_eq_nil_of_le (Nat.le_of_not_lt hpos)]
      have hend : decodeLoop input.length [] found result = (result, found) := by
        cases input.length <;> rfl
      rw [hend]
      exact .inr (Ends.pure _)
  · exact Nat.lt_succ_of_le (Nat.sub_le ..)

/-- So does the loop over quoted-printable text. -/
theorem ends_decodeQuotedPrintable (input : Bytes) :
    Ends Event.Shrinks (Looped.decodeQuotedPrintable input) (decodeQuotedPrintable input) := by
  refine Ends.loop (fun s : ℕ × Bytes => input.length - s.1)
    (fun s => s.2 ++ decodeQuotedPrintable (input.drop s.1)) ?_ ?_
  · rintro ⟨i, decoded⟩
    dsimp only
    by_cases hi : i < input.length
    · obtain ⟨hdecoded, hforward⟩ := quotedPrintableStep_spec hi
      rw [if_pos hi]
      refine .inl ⟨(_, _), (ends_advance hforward).bind (Ends.pure _), ?_, ?_⟩
      · dsimp only
        omega
      · rw [hdecoded, List.append_assoc]
    · rw [if_neg hi, List.drop_eq_nil_of_le (Nat.le_of_not_lt hi)]
      have hend : decoded ++ decodeQuotedPrintable [] = decoded := List.append_nil _
      rw [hend]
      exact .inr (Ends.pure _)
  · exact Nat.lt_succ_of_le (Nat.sub_le ..)

/-- And the search for the name of a file. -/
theorem ends_extractFileName (partHeaders : Bytes) :
    Ends Event.Shrinks (Looped.extractFileName partHeaders) (extractFileName partHeaders) :=
  ends_decodeEncodedWord _

/-- And the reading of the main fields. -/
theorem ends_parseMainHeaders (topHeaders : Bytes) (out : Email) :
    Ends Event.Shrinks (Looped.parseMainHeaders topHeaders out) (parseMainHeaders topHeaders out) :=
  (ends_decodeEncodedWord _).bind <| (ends_decodeEncodedWord _).bind <|
    (ends_decodeEncodedWord _).bind <| (ends_decodeEncodedWord _).bind (Ends.pure _)

section Recursion

variable {raw headers body part : Bytes} {n m : ℕ}

theorem foldl_concat_map {α β : Type} (f : α → β) (l : List α) :
    ∀ acc : List β, l.foldl (fun acc a => acc ++ [f a]) acc = acc ++ l.map f := by
  induction l with
  | nil => exact fun acc => (List.append_nil acc).symm
  | cons a l ih =>
    intro acc
    rw [List.foldl_cons, ih, List.map_cons, List.append_assoc]
    rfl

/-- **The recursion over the structure ends**: each part is shorter than the whole. -/
theorem ends_parsePartStructure : ∀ {n : ℕ} {rawPart : Bytes}, rawPart.length < n →
    Ends Event.Shrinks (Looped.parsePartStructure n rawPart) (parsePartStructure n rawPart)
  | 0, _, hn => absurd hn (Nat.not_lt_zero _)
  | n + 1, rawPart, hn => by
      have hbody := length_body_le rawPart
      rw [Looped.parsePartStructure, parsePartStructure]
      generalize splitHeadersAndBody rawPart = split at hbody ⊢
      obtain ⟨headers, body⟩ := split
      dsimp only at hbody ⊢
      generalize getHeaderValue headers (lit "Content-Type:") = contentType
      by_cases htype : (splitType contentType).1 = lit "multipart"
      · rw [if_pos htype, if_pos htype]
        by_cases hboundary : extractBoundary contentType = []
        · rw [if_pos hboundary, if_pos hboundary]
          exact Ends.pure _
        · rw [if_neg hboundary, if_neg hboundary]
          have hhandle : ∀ (subPart : Bytes) (children : List MimePart),
              subPart.length < body.length → Ends Event.Shrinks (do
                emit (.call rawPart subPart)
                let child ← Looped.parsePartStructure n subPart
                pure (children ++ [child])) (children ++ [parsePartStructure n subPart]) :=
            fun subPart children hsub => (ends_call (hsub.trans_le hbody)).bind
              ((ends_parsePartStructure (by omega)).bind (Ends.pure _))
          have hloop := @ends_delimiterLoop body _ _
            (fun children subPart => children ++ [parsePartStructure n subPart])
            (extractBoundary contentType) hhandle []
          rw [foldl_concat_map] at hloop
          exact hloop.bind (Ends.pure _)
      · rw [if_neg htype, if_neg htype]
        exact (ends_extractFileName headers).bind (Ends.pure _)

/-- A header block with a multipart in it is followed by a blank line. -/
theorem length_body_lt_of_contains (hraw : splitHeadersAndBody raw = (headers, body))
    (hmultipart : contains (lit "multipart")
      (toLower (getHeaderValue headers (lit "Content-Type:"))) = true) :
    body.length < raw.length := by
  have hheaders : headers ≠ [] := by
    rintro rfl
    exact absurd hmultipart (by decide)
  rw [splitHeadersAndBody] at hraw
  split at hraw
  · rename_i p hcut
    subst hraw
    exact (length_lt_of_cutSub (List.cons_ne_nil _ _) hcut).2
  · split at hraw
    · rename_i p hcut
      subst hraw
      exact (length_lt_of_cutSub (List.cons_ne_nil _ _) hcut).2
    · exact absurd (Prod.mk.inj hraw).1.symm hheaders

/-- A leaf calls nothing that recurs. -/
theorem ends_processLeaf (partHeaders partBody contentType disposition encoding : Bytes)
    (out : Email) :
    Ends Event.Shrinks
      (Looped.processLeaf partHeaders partBody contentType disposition encoding out)
      (processLeaf partHeaders partBody contentType disposition encoding out) := by
  rw [Looped.processLeaf]
  by_cases hattachment : contains (lit "attachment") disposition ∨
      contains (lit "name=") contentType ∨ contains (lit "filename=") disposition
  · rw [if_pos hattachment, processLeaf, if_pos hattachment]
    exact (ends_extractFileName partHeaders).bind (Ends.pure _)
  · rw [if_neg hattachment]
    exact Ends.pure _

/-- A part that is decoded first is no longer than it was. -/
theorem ends_partBody (encoding partBody : Bytes) : ∃ decoded,
    Ends Event.Shrinks
      (if contains (lit "quoted-printable") encoding then Looped.decodeQuotedPrintable partBody
        else pure partBody) decoded ∧
      decoded = (if contains (lit "quoted-printable") encoding then decodeQuotedPrintable partBody
        else partBody) ∧ decoded.length ≤ partBody.length := by
  by_cases hqp : contains (lit "quoted-printable") encoding = true
  · rw [if_pos hqp, if_pos hqp]
    exact ⟨_, ends_decodeQuotedPrintable partBody, rfl, length_decodeQuotedPrintable_le partBody⟩
  · rw [if_neg hqp, if_neg hqp]
    exact ⟨_, Ends.pure _, rfl, Nat.le_refl _⟩

mutual

/-- The loop over the parts ends, the recursion into each of them included. -/
theorem ends_parseMultipartBody : ∀ {n m : ℕ} {body boundary : Bytes} {out : Email},
    body.length < n → body.length ≤ m →
      Ends Event.Shrinks (Looped.parseMultipartBody n body boundary out)
        (parseMultipartBody m body boundary out)
  | 0, _, _, _, _, hn, _ => absurd hn (Nat.not_lt_zero _)
  | n + 1, m, body, boundary, out, hn, hm => by
      rw [Looped.parseMultipartBody]
      exact ends_delimiterLoop (fun partRaw out hpart =>
        (ends_call hpart).bind (ends_processMimePart (by omega) (by omega))) out

/-- **The recursion over the parts ends**: each part is shorter than the whole. -/
theorem ends_processMimePart : ∀ {n m : ℕ} {partRaw : Bytes} {out : Email},
    partRaw.length < n → partRaw.length < m →
      Ends Event.Shrinks (Looped.processMimePart n partRaw out) (processMimePart m partRaw out)
  | 0, _, _, _, hn, _ => absurd hn (Nat.not_lt_zero _)
  | _, 0, _, _, _, hm => absurd hm (Nat.not_lt_zero _)
  | n + 1, m + 1, partRaw, out, hn, hm => by
      rw [Looped.processMimePart, processMimePart]
      obtain ⟨headers, body, hraw⟩ : ∃ headers body, splitHeadersAndBody partRaw = (headers, body) :=
        ⟨_, _, rfl⟩
      rw [hraw]
      dsimp only
      obtain ⟨decoded, hends, hdecoded, hlength⟩ := ends_partBody
        (toLower (getHeaderValue headers (lit "Content-Transfer-Encoding:"))) body
      rw [← hdecoded]
      refine hends.bind ?_
      by_cases hmultipart : contains (lit "multipart")
          (toLower (getHeaderValue headers (lit "Content-Type:"))) = true
      · have hbody := length_body_lt_of_contains hraw hmultipart
        rw [if_pos hmultipart, if_pos hmultipart]
        by_cases hboundary : extractBoundary (getHeaderValue headers (lit "Content-Type:")) ≠ []
        · rw [if_pos hboundary, if_pos hboundary]
          exact (ends_call (by omega)).bind (ends_parseMultipartBody (by omega) (by omega))
        · rw [if_neg hboundary, if_neg hboundary]
          exact Ends.pure _
      · rw [if_neg hmultipart, if_neg hmultipart]
        exact ends_processLeaf ..

end

/-- A single part calls nothing that recurs. -/
theorem ends_parseSingle (contentType encoding body : Bytes) (out : Email) :
    Ends Event.Shrinks (Looped.parseSingle contentType encoding body out)
      (parseSingle contentType encoding body out) := by
  rw [Looped.parseSingle, parseSingle]
  refine Ends.bind ?_ (Ends.pure _)
  by_cases hqp : contains (lit "quoted-printable") encoding = true
  · rw [if_pos hqp, if_pos hqp]
    exact ends_decodeQuotedPrintable body
  · rw [if_neg hqp, if_neg hqp]
    by_cases hbase64 : contains (lit "base64") encoding = true
    · rw [if_pos hbase64, if_pos hbase64]
      cases decodeBase64 body with
      | ok decoded => exact Ends.pure _
      | error e => exact Ends.pure _
    · rw [if_neg hbase64, if_neg hbase64]
      exact Ends.pure _

/-- `parseEmail` ends on every text. -/
theorem ends_parseEmail (rawMime : Bytes) (out : Email) :
    Ends Event.Shrinks (Looped.parseEmail rawMime out) (parseEmail rawMime out) := by
  rw [Looped.parseEmail, parseEmail]
  by_cases hempty : rawMime = []
  · rw [if_pos hempty, if_pos hempty]
    exact Ends.pure _
  rw [if_neg hempty, if_neg hempty]
  obtain ⟨headers, body, hraw⟩ : ∃ headers body, splitHeadersAndBody rawMime = (headers, body) :=
    ⟨_, _, rfl⟩
  rw [hraw]
  refine (ends_parseMainHeaders headers out).bind ?_
  dsimp only
  by_cases hmultipart : contains (lit "multipart")
      (toLower (getHeaderValue headers (lit "Content-Type:"))) = true
  · have hbody := length_body_lt_of_contains hraw hmultipart
    rw [if_pos hmultipart, if_pos hmultipart]
    by_cases hboundary : extractBoundary (getHeaderValue headers (lit "Content-Type:")) = []
    · rw [if_pos hboundary, if_pos hboundary]
      exact Ends.pure _
    · rw [if_neg hboundary, if_neg hboundary]
      exact (ends_call hbody).bind
        ((ends_parseMultipartBody hbody hbody.le).bind (Ends.pure _))
  · rw [if_neg hmultipart, if_neg hmultipart]
    exact (ends_parseSingle ..).bind (Ends.pure _)

/-- So does `parseStructure`. -/
theorem ends_parseStructure (rawMime : Bytes) :
    Ends Event.Shrinks (Looped.parseStructure rawMime) (parseStructure rawMime) := by
  rw [Looped.parseStructure, parseStructure]
  by_cases hempty : rawMime = []
  · rw [if_pos hempty, if_pos hempty]
    exact Ends.pure _
  · rw [if_neg hempty, if_neg hempty]
    exact (ends_parsePartStructure (Nat.lt_succ_self _)).bind (Ends.pure _)

/-- **`ParseStructure` and `ParseEmail` come to an end on every text**, every call is made with a
shorter text than its caller's, and every loop moves forward. -/
theorem parsing_ends (rawMime : Bytes) (out : Email) :
    Ends Event.Shrinks (Looped.parseStructure rawMime) (parseStructure rawMime) ∧
      Ends Event.Shrinks (Looped.parseEmail rawMime out) (parseEmail rawMime out) :=
  ⟨ends_parseStructure rawMime, ends_parseEmail rawMime out⟩

end Recursion

end MailStack.Mime
