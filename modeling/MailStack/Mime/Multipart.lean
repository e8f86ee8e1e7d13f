import MailStack.Mime.Builder
import MailStack.Mime.Fields

/-!
# Mime/Multipart — the writer's delimiters are where the reader looks for them

A part ends with a line break and does not contain the delimiter; `ParseMultipartBody` then goes
through exactly the parts that were written between the delimiters (`multipartParts_renderParts`).
The delimiters of the builder have no blank, no break and no quote in them, so whether one occurs in
a text can be told line by line and word by word.
-/

open Bytes Search

namespace MailStack.Mime

/-! ## Parts between delimiters -/

/-- What follows the first delimiter: the parts, the closing delimiter, and `t`. -/
def renderTail (delimiter t : Bytes) : List Bytes → Bytes
  | [] => lit "--\r\n" ++ t
  | p :: ps => lit "\r\n" ++ p ++ (delimiter ++ renderTail delimiter t ps)

/-- A multipart body. -/
def renderParts (delimiter t : Bytes) (ps : List Bytes) : Bytes :=
  delimiter ++ renderTail delimiter t ps

/-- A part ends with a break, does not start with `--` and does not contain the delimiter. -/
structure IsPart (delimiter p : Bytes) : Prop where
  notInfix : ¬ delimiter <:+: p
  getLast? : p.getLast? = some '\n'.toUInt8
  notPrefix : ¬ lit "--" <+: p

theorem length_lt_renderTail (delimiter t : Bytes) :
    ∀ ps, ps.length < (renderTail delimiter t ps).length
  | [] => by
      rw [renderTail, List.length_append]
      exact Nat.lt_of_lt_of_le (by decide) (Nat.le_add_right (lit "--\r\n").length _)
  | p :: ps => by
      have ih := length_lt_renderTail delimiter t ps
      have hcrlf : (lit "\r\n").length = 2 := rfl
      rw [renderTail]
      simp only [List.length_append, List.length_cons, hcrlf]
      omega

/-- One iteration takes one part. -/
theorem partsLoop_cons {delimiter s partRaw rest : Bytes} (n : ℕ) (hdash : ¬ lit "--" <+: s)
    (hcut : cutSub delimiter s = some (partRaw, rest)) :
    partsLoop delimiter (n + 1) (lit "\r\n" ++ s) = partRaw :: partsLoop delimiter n rest := by
  have hskip : skipChar '\n'.toUInt8 (skipChar '\r'.toUInt8 (lit "\r\n" ++ s)) = s := rfl
  rw [partsLoop, hskip, if_neg fun h => hdash (List.isPrefixOf_iff_prefix.mp h), hcut]

theorem partsLoop_renderTail {delimiter : Bytes} (hlf : '\n'.toUInt8 ∉ delimiter) (t : Bytes) :
    ∀ {ps : List Bytes} {n : ℕ}, (∀ p ∈ ps, IsPart delimiter p) → ps.length < n →
      partsLoop delimiter n (renderTail delimiter t ps) = ps
  | _, 0, _, hn => absurd hn (Nat.not_lt_zero _)
  | [], n + 1, _, _ => rfl
  | p :: ps, n + 1, hps, hn => by
      obtain ⟨hp, hrest⟩ := List.forall_mem_cons.mp hps
      obtain ⟨q, rfl⟩ := List.getLast?_eq_some_iff.mp hp.getLast?
      have hq : ¬ delimiter <:+: q := fun h => hp.notInfix (h.trans (List.prefix_append q _).isInfix)
      have hraw : renderTail delimiter t ((q ++ ['\n'.toUInt8]) :: ps) =
          lit "\r\n" ++ (q ++ '\n'.toUInt8 :: (delimiter ++ renderTail delimiter t ps)) := by
        rw [renderTail, List.append_assoc, List.append_assoc]
        rfl
      have hdash : ¬ lit "--" <+: q ++ '\n'.toUInt8 :: (delimiter ++ renderTail delimiter t ps) :=
        fun h => hp.notPrefix ((prefix_of_prefix_append_cons (by decide) h).trans
          (List.prefix_append q _))
      rw [hraw, partsLoop_cons n hdash (cutSub_append_cons hlf hq),
        partsLoop_renderTail hlf t hrest (Nat.lt_of_succ_lt_succ hn)]

/-- **`ParseMultipartBody` goes through the parts that were written.** -/
theorem multipartParts_renderParts {boundary : Bytes} (hlf : '\n'.toUInt8 ∉ lit "--" ++ boundary)
    (t : Bytes) {ps : List Bytes} (hps : ∀ p ∈ ps, IsPart (lit "--" ++ boundary) p) :
    multipartParts (renderParts (lit "--" ++ boundary) t ps) boundary = ps := by
  have hlen := length_lt_renderTail (lit "--" ++ boundary) t ps
  rw [multipartParts, renderParts, cutSub_of_prefix]
  dsimp only
  exact partsLoop_renderTail hlf t hps (by rw [List.length_append]; omega)

/-! ## The `boundary` parameter -/

/-- **The boundary in quotes is read back.** -/
theorem extractBoundary_quoted {pre boundary : Bytes} (hpre : 'b'.toUInt8 ∉ toLower pre)
    (hquote : '"'.toUInt8 ∉ boundary) (htrim : trim boundary = boundary) :
    extractBoundary (pre ++ lit "boundary=\"" ++ boundary ++ lit "\"") = boundary := by
  have hlower : toLower (pre ++ lit "boundary=\"" ++ boundary ++ lit "\"") =
      toLower pre ++ (lit "boundary=" ++ (lit "\"" ++ toLower boundary ++ lit "\"")) := by
    simp only [toLower_append, List.append_assoc]
    rfl
  have hdrop : (pre ++ lit "boundary=\"" ++ boundary ++ lit "\"").drop
      ((toLower pre ++ []).length + (lit "boundary=").length) =
      lit "\"" ++ (boundary ++ lit "\"") := by
    rw [List.append_nil, toLower, List.length_map, List.append_assoc, List.append_assoc,
      ← List.drop_drop, List.drop_left]
    rfl
  have hcut : cut '"'.toUInt8 (boundary ++ lit "\"") = some (boundary, []) :=
    cut_eq_some_iff.mpr ⟨rfl, hquote⟩
  have hvalue : paramValue (lit "\"" ++ (boundary ++ lit "\"")) = boundary := by
    change paramValue ('"'.toUInt8 :: (boundary ++ lit "\"")) = boundary
    rw [paramValue, if_pos rfl, hcut]
  rw [extractBoundary, extractParam, hlower, cutSub_append rfl _ hpre, cutSub_of_prefix]
  dsimp only [Option.map_some]
  rw [hdrop, hvalue, htrim]

/-! ## The builder's boundaries -/

/-- The characters of a boundary, and of its delimiters. -/
def boundaryChars : Bytes := lit "-=_Part0123456789abcdef"

theorem subset_boundaryChars (digits : Fin 24 → Fin 16) :
    lit "--" ++ generateBoundary digits ⊆ boundaryChars := by
  have hhex : ∀ d : Fin 16, (lit "0123456789abcdef").getD d 0 ∈ boundaryChars := by decide
  refine List.append_subset.mpr ⟨by decide, List.append_subset.mpr ⟨by decide, ?_⟩⟩
  intro c hc
  obtain ⟨d, -, rfl⟩ := List.mem_map.mp hc
  exact hhex d

section

variable {digits : Fin 24 → Fin 16}

theorem notMem_delimiter {c : UInt8} (hc : c ∉ boundaryChars) :
    c ∉ lit "--" ++ generateBoundary digits := fun h => hc (subset_boundaryChars digits h)

theorem notMem_generateBoundary {c : UInt8} (hc : c ∉ boundaryChars) :
    c ∉ generateBoundary digits := fun h =>
  notMem_delimiter hc (List.mem_append_right (lit "--") h)

theorem length_generateBoundary : (generateBoundary digits).length = 35 := by
  simp [generateBoundary, hexDigits, lit]

theorem generateBoundary_ne_nil : generateBoundary digits ≠ [] := List.cons_ne_nil _ _

theorem delimiter_ne_nil : lit "--" ++ generateBoundary digits ≠ [] := List.cons_ne_nil _ _

/-- `Trim` leaves a boundary as it is. -/
theorem trim_generateBoundary : trim (generateBoundary digits) = generateBoundary digits := by
  have hmem : ∀ c ∈ generateBoundary digits, isBlank c = false := by
    have hall : ∀ c ∈ boundaryChars, isBlank c = false := by decide +kernel
    exact fun c hc => hall c (subset_boundaryChars digits (List.mem_append_right (lit "--") hc))
  exact trim_of_not_blank (fun c hc => hmem c (List.mem_of_mem_head? hc))
    (fun c hc => hmem c (List.mem_of_getLast? hc))

/-! ## Where a delimiter occurs -/

/-- A delimiter occurs in a text on one side of a character it does not have. -/
theorem delimiter_infix_cons {c : UInt8} (hc : c ∉ boundaryChars) (a b : Bytes) :
    lit "--" ++ generateBoundary digits <:+: a ++ c :: b ↔
      lit "--" ++ generateBoundary digits <:+: a ∨ lit "--" ++ generateBoundary digits <:+: b :=
  infix_append_cons (notMem_delimiter hc)

/-- So it occurs before a break or after it. -/
theorem delimiter_infix_crlf (a b : Bytes) :
    lit "--" ++ generateBoundary digits <:+: a ++ lit "\r\n" ++ b ↔
      lit "--" ++ generateBoundary digits <:+: a ∨ lit "--" ++ generateBoundary digits <:+: b := by
  have hlf : lit "--" ++ generateBoundary digits <:+: [] ++ '\n'.toUInt8 :: b ↔ _ :=
    delimiter_infix_cons (by decide) [] b
  rw [List.infix_nil, or_iff_right delimiter_ne_nil] at hlf
  rw [List.append_assoc, ← hlf]
  exact delimiter_infix_cons (by decide) a _

theorem delimiter_infix_unlines (ls : List Bytes) (s : Bytes) :
    lit "--" ++ generateBoundary digits <:+: unlines ls ++ s ↔
      (∃ l ∈ ls, lit "--" ++ generateBoundary digits <:+: l) ∨
        lit "--" ++ generateBoundary digits <:+: s := by
  induction ls with
  | nil => simp
  | cons l ls ih =>
    rw [unlines_cons, List.append_assoc, delimiter_infix_crlf, ih]
    simp only [List.exists_mem_cons_iff, or_assoc]

/-- A text without `_` has no delimiter in it. -/
theorem delimiter_notIn {s : Bytes} (hs : '_'.toUInt8 ∉ s) :
    ¬ lit "--" ++ generateBoundary digits <:+: s :=
  not_infix_of_notMem (by simp [generateBoundary, lit]) hs

/-- Nor has a text that does not contain the boundary. -/
theorem delimiter_notIn_of_boundary {s : Bytes} (h : ¬ generateBoundary digits <:+: s) :
    ¬ lit "--" ++ generateBoundary digits <:+: s := fun hd =>
  h ((List.suffix_append (lit "--") (generateBoundary digits)).isInfix.trans hd)

/-- The other delimiter is no place for it. -/
theorem delimiter_notIn_delimiter {digits' : Fin 24 → Fin 16}
    (hne : generateBoundary digits ≠ generateBoundary digits') {t : Bytes} (ht : '='.toUInt8 ∉ t) :
    ¬ lit "--" ++ generateBoundary digits <:+: lit "--" ++ generateBoundary digits' ++ t := by
  intro h
  have hmark : '='.toUInt8 ∉ lit "_Part_" ++ hexDigits digits' ++ t := by
    have hhex : ∀ d : Fin 16, '='.toUInt8 ≠ (lit "0123456789abcdef").getD d.val 0 := by decide
    refine List.not_mem_append (List.not_mem_append (by decide) ?_) ht
    intro hc
    obtain ⟨d, -, hd⟩ := List.mem_map.mp hc
    exact hhex d hd.symm
  have hshape : ∀ (ds : Fin 24 → Fin 16) (u : Bytes), lit "--" ++ generateBoundary ds ++ u =
      lit "------" ++ '='.toUInt8 :: (lit "_Part_" ++ hexDigits ds ++ u) := by
    intro ds u
    simp only [generateBoundary, List.append_assoc]
    rfl
  rw [← List.append_nil (lit "--" ++ generateBoundary digits), hshape, hshape] at h
  have hstart := prefix_of_infix_marker hmark h
  rw [List.append_nil, List.append_assoc, List.prefix_append_right_inj] at hstart
  have hlen : (hexDigits digits).length = (hexDigits digits').length := by simp [hexDigits]
  have heq : hexDigits digits = hexDigits digits' :=
    (List.prefix_of_prefix_length_le hstart (List.prefix_append _ t) hlen.le).eq_of_length hlen
  exact hne (by rw [generateBoundary, generateBoundary, heq])

end

end MailStack.Mime
