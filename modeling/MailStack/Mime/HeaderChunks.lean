import Mathlib.Logic.Relation
import MailStack.Mime.EncodedWords

/-!
# Mime/HeaderChunks — the chunks of `EncodeHeader`

An iteration of `EncodeHeader` goes to where `FindUtf8SafeEnd` stops.  That is where it started if a
whole chunk of continuation bytes follows, and the iterations before it cannot jump over such a
place, so the loop ends exactly if there is none (`encodeHeader_ends_iff`).  On a valid text every
word carries whole characters, and the words give the text back (`encodeHeader_decodes`).
-/

open Bytes MailStack.Base64

namespace MailStack.Mime

/-! ## Where the loop goes -/

section Loop

variable {size : ℕ} {text : Bytes} {i k : ℕ}

/-- An iteration goes from one position to the other. -/
def GoesTo (size : ℕ) (text : Bytes) (i j : ℕ) : Prop :=
  i < text.length ∧ j = findUtf8SafeEnd text i size

/-- The loop comes to the position. -/
def Reached (size : ℕ) (text : Bytes) (i : ℕ) : Prop :=
  Relation.ReflTransGen (GoesTo size text) 0 i

/-- Every iteration goes forward. -/
def GoesForward (size : ℕ) (text : Bytes) : Prop :=
  ∀ i, Reached size text i → i < text.length → i < findUtf8SafeEnd text i size

/-- Fewer than `size` continuation bytes in a row, behind the first byte of the text. -/
def ShortContinuations (size : ℕ) (text : Bytes) : Prop :=
  ∀ front run back, text = front ++ run ++ back → front ≠ [] →
    (∀ c ∈ run, isContinuation c = true) → run.length < size

/-- A chunk of continuation bytes follows the position, and the text goes on behind it. -/
def Blocked (size : ℕ) (text : Bytes) (k : ℕ) : Prop :=
  k + size < text.length ∧ ∀ j, k < j → j ≤ k + size → isContinuation (text.getD j 0) = true

/-- Continuation bytes are gone back over. -/
theorem retreat_le_of_run {start : ℕ} (hstart : start ≤ k) : ∀ {e : ℕ}, e < text.length →
    (∀ j, k < j → j ≤ e → isContinuation (text.getD j 0) = true) → retreat text start e ≤ k
  | 0, _, _ => Nat.zero_le k
  | e + 1, he, hrun => by
      rw [retreat]
      split_ifs with hback
      · exact retreat_le_of_run hstart (by omega) fun j hj hje => hrun j hj (by omega)
      · by_contra hlt
        exact hback ⟨by omega, he, hrun (e + 1) (by omega) (Nat.le_refl _)⟩

/-- **The loop stands still exactly where it is blocked.** -/
theorem not_lt_findUtf8SafeEnd_iff (hi : i < text.length) :
    ¬ i < findUtf8SafeEnd text i size ↔ Blocked size text i := by
  constructor
  · intro hstill
    have hlen : i + size < text.length := by
      by_contra hle
      have hend : findUtf8SafeEnd text i size = text.length := by
        rw [findUtf8SafeEnd, Nat.min_eq_right (Nat.le_of_not_lt hle)]
        cases hlength : text.length with
        | zero => rfl
        | succ e => exact if_neg (by omega)
      exact hstill (hend ▸ hi)
    refine ⟨hlen, fun j hj hle => ?_⟩
    by_contra hcont
    refine hstill (Nat.lt_of_lt_of_le hj ?_)
    exact le_retreat_of_not_continuation hj.le (by simpa using hcont) (by omega)
  · rintro ⟨hlen, hrun⟩
    rw [findUtf8SafeEnd, Nat.min_eq_left hlen.le, Nat.not_lt]
    exact retreat_le_of_run (Nat.le_refl i) hlen hrun

/-- **No iteration jumps over a place where the loop is blocked.** -/
theorem findUtf8SafeEnd_le_of_blocked (h : Blocked size text k) (hle : i ≤ k) :
    findUtf8SafeEnd text i size ≤ k := by
  by_cases hshort : i + size ≤ k
  · exact (findUtf8SafeEnd_le text i size).1.trans hshort
  · rw [findUtf8SafeEnd, Nat.min_eq_left (by have := h.1; omega)]
    exact retreat_le_of_run hle (by have := h.1; omega) fun j hj hje => h.2 j hj (by omega)

theorem not_blocked_of_goesForward (hforward : GoesForward size text) (h : Blocked size text k) :
    ∀ i, Reached size text i → i ≤ k → False := by
  intro i hreached hle
  induction hgap : k - i using Nat.strong_induction_on generalizing i with
  | _ gap ih =>
    have hi : i < text.length := by
      have := h.1
      omega
    have hlt := hforward i hreached hi
    have hnext : Reached size text (findUtf8SafeEnd text i size) :=
      Relation.ReflTransGen.tail hreached ⟨hi, rfl⟩
    have hstop := findUtf8SafeEnd_le_of_blocked h hle
    exact ih _ (by omega) _ hnext hstop rfl

theorem goesForward_iff : GoesForward size text ↔ ∀ k, ¬ Blocked size text k := by
  constructor
  · exact fun hforward k h => not_blocked_of_goesForward hforward h 0 .refl (Nat.zero_le k)
  · intro hnone i _ hi
    by_contra hstill
    exact hnone i ((not_lt_findUtf8SafeEnd_iff hi).mp hstill)

theorem shortContinuations_iff : ShortContinuations size text ↔ ∀ k, ¬ Blocked size text k := by
  constructor
  · rintro hshort k ⟨hlen, hrun⟩
    have hsplit : text = text.take (k + 1) ++ (text.drop (k + 1)).take size ++
        (text.drop (k + 1)).drop size := by
      rw [List.append_assoc, List.take_append_drop, List.take_append_drop]
    have hne : text.take (k + 1) ≠ [] := List.ne_nil_of_length_pos (by
      rw [List.length_take]
      omega)
    have hcont : ∀ c ∈ (text.drop (k + 1)).take size, isContinuation c = true := by
      intro c hc
      obtain ⟨j, hj, rfl⟩ := List.getElem_of_mem hc
      rw [List.length_take, List.length_drop] at hj
      have hget := hrun (k + 1 + j) (by omega) (by omega)
      rw [List.getD_eq_getElem _ _ (by omega)] at hget
      simpa using hget
    have hlt := hshort _ _ _ hsplit hne hcont
    rw [List.length_take, List.length_drop] at hlt
    omega
  · rintro hnone front run back rfl hne hcont
    by_contra hlong
    have hfront := List.length_pos_of_ne_nil hne
    by_cases hback : front.length - 1 + size < (front ++ run ++ back).length
    · refine hnone (front.length - 1) ⟨hback, fun j hj hle => ?_⟩
      have hin : j - front.length < run.length := by omega
      rw [List.append_assoc, List.getD_append_right _ _ _ _ (by omega),
        List.getD_append _ _ _ _ hin, List.getD_eq_getElem _ _ hin]
      exact hcont _ (List.getElem_mem hin)
    · simp only [List.length_append] at hback
      omega

end Loop

/-! ## When it ends -/

section Ends

variable {size : ℕ} {text : Bytes} (separator : Bytes)

theorem encodeLoop_blocked {i : ℕ} (hi : i < text.length)
    (hstill : findUtf8SafeEnd text i size = i) (hshort : size ≤ 57) :
    ∀ (n : ℕ) (result : Bytes), encodeLoop size text separator n i result = .error .endless
  | 0, result => if_pos hi
  | n + 1, result => by
      rw [encodeLoop_piece separator hshort n result hi, hstill]
      exact encodeLoop_blocked hi hstill hshort n _

/-- A loop that comes to such a place does not end. -/
theorem encodeLoop_of_reaches {i j : ℕ} (hshort : size ≤ 57) (hi : i < text.length)
    (hstill : findUtf8SafeEnd text i size = i)
    (h : Relation.ReflTransGen (GoesTo size text) j i) :
    ∀ (n : ℕ) (result : Bytes), encodeLoop size text separator n j result = .error .endless := by
  induction h using Relation.ReflTransGen.head_induction_on with
  | refl => exact encodeLoop_blocked separator hi hstill hshort
  | @head j j' hstep _ ih =>
    obtain ⟨hj, rfl⟩ := hstep
    intro n result
    cases n with
    | zero => exact if_pos hj
    | succ n =>
      rw [encodeLoop_piece separator hshort n result hj]
      exact ih n _

/-- One that goes forward ends. -/
theorem encodeLoop_of_goesForward (hshort : size ≤ 57) (hforward : GoesForward size text) :
    ∀ {n i : ℕ} {result : Bytes}, text.length ≤ n + i → Reached size text i →
      encodeLoop size text separator n i result ≠ .error .endless := by
  intro n
  induction n with
  | zero =>
    intro i result hn _
    rw [encodeLoop, if_neg (by omega)]
    simp
  | succ n ih =>
    intro i result hn hreached
    by_cases hi : i < text.length
    · have hlt := hforward i hreached hi
      rw [encodeLoop_piece separator hshort n result hi]
      exact ih (by omega) (.tail hreached ⟨hi, rfl⟩)
    · rw [encodeLoop, if_neg hi]
      simp

/-- A text in which the loop is blocked is encoded: it has a continuation byte. -/
theorem needsEncoding_of_blocked {k : ℕ} (hsize : 0 < size) (h : Blocked size text k) :
    needsEncoding text = true := by
  obtain ⟨hlen, hrun⟩ := h
  have hin : k + 1 < text.length := by omega
  have hcont := hrun (k + 1) (by omega) (by omega)
  rw [List.getD_eq_getElem _ _ hin] at hcont
  refine List.any_eq_true.mpr ⟨text[k + 1], List.getElem_mem hin, ?_⟩
  rw [Bool.or_eq_true, decide_eq_true_eq, decide_eq_true_eq]
  refine .inr (UInt8.not_le.mp fun hle => ?_)
  have hascii : ∀ v : ℕ, v ≤ 126 → isContinuation (UInt8.ofNat v) = false := by decide
  have hbyte := hascii _ (UInt8.le_iff_toNat_le.mp hle)
  rw [UInt8.ofNat_toNat, hcont] at hbyte
  exact nomatch hbyte

/-- **`EncodeHeader` ends exactly if** no chunk of continuation bytes stands behind the first byte,
and then every iteration goes forward. -/
theorem encodeHeader_ends_iff {config : MimeConfig} (hsize : 4 ≤ config.headerChunkSize)
    (hshort : config.headerChunkSize ≤ 57) (text separator : Bytes) :
    (encodeHeader config text separator ≠ .error .endless ↔
        ShortContinuations config.headerChunkSize text) ∧
      (GoesForward config.headerChunkSize text ↔
        ShortContinuations config.headerChunkSize text) := by
  have hiff : GoesForward config.headerChunkSize text ↔
      ShortContinuations config.headerChunkSize text :=
    goesForward_iff.trans shortContinuations_iff.symm
  refine ⟨?_, hiff⟩
  rw [← hiff, encodeHeader]
  constructor
  · intro hends
    by_contra hstill
    have hneeds : needsEncoding text = true := by
      obtain ⟨k, hblocked⟩ := not_forall.mp (mt goesForward_iff.mpr hstill)
      exact needsEncoding_of_blocked (by omega) (not_not.mp hblocked)
    simp only [GoesForward, not_forall] at hstill
    obtain ⟨i, hreached, hi, hstill⟩ := hstill
    have hfix : findUtf8SafeEnd text i config.headerChunkSize = i :=
      Nat.le_antisymm (Nat.le_of_not_lt hstill) (le_retreat (by omega))
    rw [if_pos hneeds] at hends
    exact hends (encodeLoop_of_reaches separator hshort hi hfix hreached _ _)
  · intro hforward
    split_ifs
    · exact encodeLoop_of_goesForward separator hshort hforward (Nat.le_refl _) .refl
    · simp

/-- Three characters of two bytes, in chunks of four bytes. -/
def accents : Bytes := [0xC3, 0xA9, 0xC3, 0xA8, 0xC3, 0xAA]

theorem encodeHeader_ends_iff_two :
    (encodeHeader { headerChunkSize := 4 } accents [] ≠ .error .endless ↔
      ShortContinuations 4 accents) ∧ (GoesForward 4 accents ↔ ShortContinuations 4 accents) :=
  @encodeHeader_ends_iff { headerChunkSize := 4 } (by decide) (by decide) accents []

/-- A text of 46 continuation bytes. -/
theorem not_encodeHeader_ends : ∃ config : MimeConfig, 4 ≤ config.headerChunkSize ∧
    config.headerChunkSize ≤ 57 ∧ ∃ text separator,
      encodeHeader config text separator = .error .endless ∧
        ¬ GoesForward config.headerChunkSize text := by
  refine ⟨{}, by decide, by decide, List.replicate 46 0x80, [], ?_, fun hforward => ?_⟩
  · have hloop : ∀ n result,
        encodeLoop 45 (List.replicate 46 0x80) [] n 0 result = .error .endless :=
      encodeLoop_blocked [] (by decide) (by decide +kernel) (by decide)
    rw [encodeHeader, if_pos (by decide)]
    exact hloop _ _
  · exact absurd (hforward 0 .refl (by decide)) (by decide +kernel)

end Ends

/-! ## What the words carry -/

section Pieces

variable {size : ℕ} {text : Bytes} (hsize : 4 ≤ size) (htext : ValidUtf8 text)
include hsize htext

/-- Every piece of a valid text is made of whole characters. -/
theorem validUtf8_of_mem_pieces : ∀ {n i : ℕ}, ValidUtf8 (text.drop i) →
    ∀ chunk ∈ pieces size text n i, ValidUtf8 chunk
  | 0, _, _, _, hchunk => absurd hchunk List.not_mem_nil
  | n + 1, i, hdrop, chunk, hchunk => by
      rw [pieces] at hchunk
      split_ifs at hchunk with hi
      · have hlt := lt_findUtf8SafeEnd (shortRuns_of_validUtf8 htext) hsize hi
        have hstop : StartsCharacter (text.drop (findUtf8SafeEnd text i size)) :=
          (findUtf8SafeEnd_stop text i size).resolve_left (by omega)
        obtain ⟨hpiece, hrest⟩ := validUtf8_cut hdrop hlt.le hstop
        rcases List.mem_cons.mp hchunk with rfl | hchunk
        · exact hpiece
        · exact validUtf8_of_mem_pieces hrest chunk hchunk
      · exact absurd hchunk List.not_mem_nil

end Pieces

/-- **The words of a valid text give it back**, and every one carries whole characters. -/
theorem encodeHeader_decodes {config : MimeConfig} (hsize : 4 ≤ config.headerChunkSize)
    (hshort : config.headerChunkSize ≤ 57) {text separator : Bytes} (htext : ValidUtf8 text)
    (hneeds : needsEncoding text = true) (hsep : IsSeparator separator) :
    ∃ chunks, encodeHeader config text separator = .ok (words separator chunks) ∧
      (∀ chunk ∈ chunks, chunk ≠ [] ∧ ValidUtf8 chunk ∧
        decodePart (lit "B") (chunkBytes 0 chunk) = chunk) ∧
      chunks.flatten = text ∧ decodeEncodedWord (words separator chunks) = text := by
  have hruns := shortRuns_of_validUtf8 htext
  let chunks := pieces config.headerChunkSize text text.length 0
  have hflatten : chunks.flatten = text := flatten_pieces hsize hruns (Nat.le_refl _)
  have hchunks : ∀ chunk ∈ chunks, IsChunk chunk := isChunk_of_mem_pieces hsize hshort hruns
  have hvalid : ∀ chunk ∈ chunks, ValidUtf8 chunk := validUtf8_of_mem_pieces hsize htext htext
  have hne : chunks ≠ [] := by
    intro hnil
    rw [← hflatten, hnil] at hneeds
    exact absurd hneeds (by decide)
  have hdecoded := decodeEncodedWord_words hsep hne hchunks []
  rw [List.append_nil, hflatten, decodeRest, List.length_nil, decodeLoop,
    List.append_nil] at hdecoded
  exact ⟨chunks, encodeHeader_pieces separator hsize hshort htext hneeds,
    fun chunk hchunk => ⟨(hchunks chunk hchunk).1, hvalid chunk hchunk,
      decodePart_chunkBytes (hchunks chunk hchunk)⟩, hflatten, hdecoded⟩

theorem encodeHeader_decodes_two :
    encodeHeader { headerChunkSize := 4 } accents (lit "\r\n ") =
      .ok (words (lit "\r\n ") [[0xC3, 0xA9, 0xC3, 0xA8], [0xC3, 0xAA]]) ∧ ∃ chunks,
    encodeHeader { headerChunkSize := 4 } accents (lit "\r\n ") =
      .ok (words (lit "\r\n ") chunks) ∧
      (∀ chunk ∈ chunks, chunk ≠ [] ∧ ValidUtf8 chunk ∧
        decodePart (lit "B") (chunkBytes 0 chunk) = chunk) ∧
      chunks.flatten = accents ∧ decodeEncodedWord (words (lit "\r\n ") chunks) = accents :=
  ⟨by decide, @encodeHeader_decodes { headerChunkSize := 4 } (by decide) (by decide) accents
    (lit "\r\n ") ⟨['é', 'è', 'ê'], by decide⟩ (by decide)
    ⟨by decide, List.all_eq_true.mp (by decide)⟩⟩

end MailStack.Mime
