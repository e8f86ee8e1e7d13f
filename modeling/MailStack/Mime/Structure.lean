import MailStack.Mime.Multipart

/-!
# Mime/Structure — `MimeParser::ParseStructure`

The tree of a message's parts.  `ParsePartStructure` finds the parts of a multipart body the way
`ParseMultipartBody` does, by a plain search for the delimiter, so both split a body into the parts
that were written if and only if no part holds the delimiter anywhere, nor starts with `--`:
`splits_iff`.
-/

open Bytes Search

namespace MailStack.Mime

/-! ## `MimePart` -/

/-- `MimePart`. -/
structure MimePart where
  type : Bytes := []
  subtype : Bytes := []
  charset : Bytes := []
  encoding : Bytes := []
  filename : Bytes := []
  size : ℕ := 0
  lines : ℕ := 0
  boundary : Bytes := []
  children : List MimePart := []

/-- The type and the subtype of a `Content-Type`. -/
def splitType (contentType : Bytes) : Bytes × Bytes :=
  let ctLower := toLower contentType
  let ctNoParams := trim ((cut ';'.toUInt8 ctLower).elim ctLower Prod.fst)
  match cut '/'.toUInt8 ctNoParams with
  | some (type, subtype) => (type, subtype)
  | none => if ctNoParams = [] then (lit "text", lit "plain") else (ctNoParams, [])

/-- `MimeParser::ParsePartStructure`. -/
def parsePartStructure : ℕ → Bytes → MimePart
  | 0, _ => {}
  | n + 1, rawPart =>
    let (headers, body) := splitHeadersAndBody rawPart
    let contentType := getHeaderValue headers (lit "Content-Type:")
    let (type, subtype) := splitType contentType
    if type = lit "multipart" then
      let boundary := extractBoundary contentType
      if boundary = [] then { type, subtype }
      else
        { type
          subtype
          boundary
          children := (multipartParts body boundary).map (parsePartStructure n) }
    else
      let encoding := toLower (getHeaderValue headers (lit "Content-Transfer-Encoding:"))
      let filename := extractFileName headers
      { type
        subtype
        charset := extractCharset contentType
        encoding := encodingOr7bit encoding
        filename := if filename = lit "unnamed_file" then [] else filename
        size := body.length
        lines := body.count '\n'.toUInt8 }

/-- `ParsePartStructure`, with fuel for every part that can be in the text. -/
def partStructure (rawPart : Bytes) : MimePart := parsePartStructure (rawPart.length + 1) rawPart

/-- `MimeParser::ParseStructure`. -/
def parseStructure (rawMime : Bytes) : Option MimePart :=
  if rawMime = [] then none else some (partStructure rawMime)

/-! ## The fuel is enough -/

theorem length_skipChar_le (c : UInt8) (s : Bytes) : (skipChar c s).length ≤ s.length := by
  unfold skipChar
  split_ifs
  · rw [List.length_drop]
    omega
  · exact le_rfl

theorem length_lt_of_cutSub {d s a b : Bytes} (hd : d ≠ []) (h : cutSub d s = some (a, b)) :
    a.length < s.length ∧ b.length < s.length := by
  have hpos := List.length_pos_of_ne_nil hd
  rw [eq_of_cutSub h]
  simp only [List.length_append]
  omega

theorem length_lt_of_mem_partsLoop {d p : Bytes} (hd : d ≠ []) :
    ∀ {n : ℕ} {s : Bytes}, p ∈ partsLoop d n s → p.length < s.length
  | 0, s, h => absurd h List.not_mem_nil
  | n + 1, s, h => by
      have hskip := (length_skipChar_le '\n'.toUInt8 (skipChar '\r'.toUInt8 s)).trans
        (length_skipChar_le '\r'.toUInt8 s)
      rw [partsLoop] at h
      split_ifs at h
      · exact absurd h List.not_mem_nil
      · split at h
        · exact absurd h List.not_mem_nil
        · rename_i part rest hcut
          obtain ⟨hpart, hrest⟩ := length_lt_of_cutSub hd hcut
          rcases List.mem_cons.mp h with rfl | h
          · omega
          · have := length_lt_of_mem_partsLoop hd h
            omega

theorem length_lt_of_mem_multipartParts {body b p : Bytes} (h : p ∈ multipartParts body b) :
    p.length < body.length := by
  have hd : lit "--" ++ b ≠ [] := List.cons_ne_nil _ _
  rw [multipartParts] at h
  split at h
  · exact absurd h List.not_mem_nil
  · rename_i rest hcut
    have hrest := (length_lt_of_cutSub hd hcut).2
    exact (length_lt_of_mem_partsLoop hd h).trans hrest

theorem length_body_le (s : Bytes) : (splitHeadersAndBody s).2.length ≤ s.length := by
  unfold splitHeadersAndBody
  split
  · rename_i p hcut
    exact (length_lt_of_cutSub (List.cons_ne_nil _ _) hcut).2.le
  · split
    · rename_i p hcut
      exact (length_lt_of_cutSub (List.cons_ne_nil _ _) hcut).2.le
    · exact le_rfl

/-- **A part is parsed alike with any fuel beyond its length.** -/
theorem parsePartStructure_eq {rawPart : Bytes} :
    ∀ {n n' : ℕ}, rawPart.length < n → rawPart.length < n' →
      parsePartStructure n rawPart = parsePartStructure n' rawPart := by
  intro n
  induction n generalizing rawPart with
  | zero => exact fun h => absurd h (Nat.not_lt_zero _)
  | succ n ih =>
    intro n' hn hn'
    obtain ⟨k, rfl⟩ := Nat.exists_eq_succ_of_ne_zero (Nat.ne_of_gt (Nat.zero_lt_of_lt hn'))
    have hparts : ∀ b, (multipartParts (splitHeadersAndBody rawPart).2 b).map
        (parsePartStructure n) = (multipartParts (splitHeadersAndBody rawPart).2 b).map
          (parsePartStructure k) := by
      intro b
      refine List.map_congr_left fun p hp => ?_
      have hlength := (length_lt_of_mem_multipartParts hp).trans_le (length_body_le rawPart)
      exact ih (by omega) (by omega)
    rw [parsePartStructure, parsePartStructure]
    simp only [hparts]

/-- **The children of a multipart** are its parts, each with its own structure. -/
theorem children_partStructure {rawPart headers body : Bytes}
    (hraw : splitHeadersAndBody rawPart = (headers, body))
    (htype : (splitType (getHeaderValue headers (lit "Content-Type:"))).1 = lit "multipart")
    (hboundary : extractBoundary (getHeaderValue headers (lit "Content-Type:")) ≠ []) :
    (partStructure rawPart).children =
      (multipartParts body (extractBoundary (getHeaderValue headers (lit "Content-Type:")))).map
        partStructure := by
  rw [partStructure, parsePartStructure, hraw]
  dsimp only
  rw [if_pos htype, if_neg hboundary]
  refine List.map_congr_left fun p hp => parsePartStructure_eq ?_ (Nat.lt_succ_self _)
  have hbody := length_body_le rawPart
  rw [hraw] at hbody
  exact (length_lt_of_mem_multipartParts hp).trans_le hbody

/-! ## The parts that were written -/

/-- Where the loop goes through the parts that were written, each is fit to be one. -/
theorem isPart_of_partsLoop {delimiter : Bytes} (hd : delimiter ≠ []) (t : Bytes) :
    ∀ {ps : List Bytes} {n : ℕ},
      partsLoop delimiter n (renderTail delimiter t ps) = ps →
      ∀ p ∈ ps, ¬ delimiter <:+: p ∧ ¬ lit "--" <+: p := by
  intro ps
  induction ps with
  | nil => exact fun _ p hp => absurd hp List.not_mem_nil
  | cons p ps ih =>
    intro n h q hq
    cases n with
    | zero => cases h
    | succ n =>
      have hskip : skipChar '\n'.toUInt8 (skipChar '\r'.toUInt8
          (lit "\r\n" ++ (p ++ (delimiter ++ renderTail delimiter t ps)))) =
          p ++ (delimiter ++ renderTail delimiter t ps) := rfl
      rw [renderTail, List.append_assoc, partsLoop, hskip] at h
      split_ifs at h with hdash
      split at h
      · cases h
      · rename_i part rest hcut
        obtain ⟨rfl, hloop⟩ := List.cons.inj h
        have hrest : rest = renderTail delimiter t ps := by
          have hsplit := eq_of_cutSub hcut
          rw [List.append_assoc] at hsplit
          exact (List.append_cancel_left (List.append_cancel_left hsplit)).symm
        rw [hrest] at hloop
        rcases List.mem_cons.mp hq with rfl | hq
        · refine ⟨notInfix_of_cutSub hd hcut, fun hdashes => hdash ?_⟩
          exact List.isPrefixOf_iff_prefix.mpr (hdashes.trans (List.prefix_append _ _))
        · exact ih hloop q hq

/-- A delimiter line: the delimiter, `--` behind it or not, and spaces. -/
def isDelimiterLine (b line : Bytes) : Bool :=
  (lit "--" ++ b).isPrefixOf line &&
    let rest := line.drop (b.length + 2)
    rest.all (· = ' '.toUInt8) ||
      ((lit "--").isPrefixOf rest && (rest.drop 2).all (· = ' '.toUInt8))

/-- The lines of a text, without their breaks. -/
def linesOf (s : Bytes) : List Bytes := (getlines '\n'.toUInt8 s).map (popBack '\r'.toUInt8)

/-- **`ParsePartStructure` and `ParseMultipartBody` split a body into the parts that were written if
and only if no part holds the delimiter, in whatever place, nor starts with `--`.** -/
theorem splits_iff {rawPart headers b : Bytes} {parts : List Bytes} (t : Bytes) (hb : NoBreak b)
    (hne : b ≠ [])
    (hraw : splitHeadersAndBody rawPart =
      (headers, renderParts (lit "--" ++ b) t (parts.map (· ++ lit "\r\n"))))
    (htype : (splitType (getHeaderValue headers (lit "Content-Type:"))).1 = lit "multipart")
    (hboundary : extractBoundary (getHeaderValue headers (lit "Content-Type:")) = b) :
    ((partStructure rawPart).children = parts.map (fun p => partStructure (p ++ lit "\r\n")) ∧
      multipartParts (renderParts (lit "--" ++ b) t (parts.map (· ++ lit "\r\n"))) b =
        parts.map (· ++ lit "\r\n")) ↔
      ∀ p ∈ parts, ¬ lit "--" ++ b <:+: p ∧ ¬ lit "--" <+: p := by
  have hdelimiter : lit "--" ++ b ≠ [] := List.cons_ne_nil _ _
  have hcr : '\r'.toUInt8 ∉ lit "--" ++ b := List.not_mem_append (by decide) hb.1
  have hlf : '\n'.toUInt8 ∉ lit "--" ++ b := List.not_mem_append (by decide) hb.2
  have hchildren : (partStructure rawPart).children =
      (multipartParts (renderParts (lit "--" ++ b) t (parts.map (· ++ lit "\r\n"))) b).map
        partStructure := by
    rw [children_partStructure hraw htype (by rw [hboundary]; exact hne), hboundary]
  rw [hchildren]
  constructor
  · rintro ⟨-, hparts⟩ p hp
    rw [multipartParts, renderParts, cutSub_of_prefix] at hparts
    obtain ⟨hoccurs, hdashes⟩ := isPart_of_partsLoop hdelimiter t hparts _
      (List.mem_map_of_mem hp)
    exact ⟨fun h => hoccurs (h.trans (List.prefix_append p _).isInfix),
      fun h => hdashes (h.trans (List.prefix_append p _))⟩
  · intro hparts
    have hsplit : multipartParts (renderParts (lit "--" ++ b) t (parts.map (· ++ lit "\r\n"))) b =
        parts.map (· ++ lit "\r\n") := multipartParts_renderParts hlf t ?_
    · rw [hsplit, List.map_map]
      exact ⟨rfl, rfl⟩
    intro q hq
    obtain ⟨p, hp, rfl⟩ := List.mem_map.mp hq
    obtain ⟨hoccurs, hdashes⟩ := hparts p hp
    refine ⟨fun h => ?_, by simp [lit], fun h => ?_⟩
    · have hsides := (infix_append_cons (a := p) (b := lit "\n") hcr).mp h
      refine hsides.elim hoccurs fun hbreak => ?_
      have hdash : '-'.toUInt8 ∈ lit "\n" :=
        hbreak.subset (List.mem_append_left b (List.mem_cons_self ..))
      exact absurd hdash (by decide)
    · exact hdashes (prefix_of_prefix_append_cons (x := '\r'.toUInt8) (b := lit "\n") (by decide) h)

/-! ## A delimiter that is not on a line of its own -/

def mixedHeaders : Bytes := lit "Content-Type: multipart/mixed; boundary=\"b\""

/-- A multipart message with the boundary `b`. -/
def mixedMessage (parts : List Bytes) : Bytes :=
  mixedHeaders ++ lit "\r\n\r\n" ++ renderParts (lit "--b") [] (parts.map (· ++ lit "\r\n"))

/-- A part with this text. -/
def plainPart (text : String) : Bytes := lit "Content-Type: text/plain\r\n\r\n" ++ lit text

theorem splits_iff_two :
    ((partStructure (mixedMessage [plainPart "one", plainPart "two"])).children =
        [plainPart "one", plainPart "two"].map (fun p => partStructure (p ++ lit "\r\n")) ∧
      multipartParts (renderParts (lit "--b") []
          ([plainPart "one", plainPart "two"].map (· ++ lit "\r\n"))) (lit "b") =
        [plainPart "one", plainPart "two"].map (· ++ lit "\r\n")) ↔
      ∀ p ∈ [plainPart "one", plainPart "two"], ¬ lit "--b" <:+: p ∧ ¬ lit "--" <+: p := by
  have hraw : splitHeadersAndBody (mixedMessage [plainPart "one", plainPart "two"]) =
      (mixedHeaders, renderParts (lit "--" ++ lit "b") []
        ([plainPart "one", plainPart "two"].map (· ++ lit "\r\n"))) := by decide
  exact splits_iff [] (by decide) (by decide) hraw (by decide) (by decide)

/-- A part with a nested multipart, whose boundary starts with the boundary around it. -/
def nestedPart : Bytes :=
  lit "Content-Type: multipart/mixed; boundary=bb\r\n\r\n--bb\r\n\r\none\r\n--bb--"

/-- **A part that mentions the delimiter in a line, and a nested multipart, are torn**, though
neither has a delimiter line. -/
theorem not_splits :
    (∀ line ∈ linesOf (plainPart "see --b here"), isDelimiterLine (lit "b") line = false) ∧
      (partStructure (mixedMessage [plainPart "see --b here"])).children.length = 2 ∧
      multipartParts (renderParts (lit "--b") [] [plainPart "see --b here" ++ lit "\r\n"])
        (lit "b") ≠ [plainPart "see --b here" ++ lit "\r\n"] ∧
      (∀ line ∈ linesOf nestedPart, isDelimiterLine (lit "b") line = false) ∧
      (partStructure (mixedMessage [nestedPart])).children.length = 3 ∧
      multipartParts (renderParts (lit "--b") [] [nestedPart ++ lit "\r\n"]) (lit "b") ≠
        [nestedPart ++ lit "\r\n"] :=
  ⟨by decide +kernel, by decide +kernel, by decide +kernel, by decide +kernel, by decide +kernel,
    by decide +kernel⟩

end MailStack.Mime
