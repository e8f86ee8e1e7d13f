import MailStack.Base64.RoundTrip
import MailStack.Mime.Utf8

/-!
# Mime/Encoder — `NeedsEncoding`, `ToBase64` and `EncodeHeader`

A header text outside printable ASCII becomes a row of encoded words.  The loop of `EncodeHeader`
goes on from where `FindUtf8SafeEnd` stops; where that is the position it started from it never
ends, which is `Failure.endless`.  On valid UTF-8 it does end (`encodeHeader_spec`).
-/

open Bytes MailStack.Base64

namespace MailStack.Mime

/-- How a call fails to return: it throws, or it never ends. -/
inductive Failure
  | thrown (e : Exn)
  | endless
  deriving DecidableEq, Repr

/-- `AppConfig::MimeConfig`. -/
structure MimeConfig where
  headerChunkSize : ℕ := 45
  defaultDomain : Bytes := lit "localhost"

/-- `MimeEncoder::NeedsEncoding`. -/
def needsEncoding (text : Bytes) : Bool := text.any fun c => c < 32 || 126 < c

/-- `MimeEncoder::ToBase64`. -/
def toBase64 (text : Bytes) : Except Failure Bytes :=
  match encodeBase64 text with
  | .error e => .error (.thrown e)
  | .ok s => .ok s

/-- `"=?UTF-8?B?" + base64_chunk + "?="`. -/
def encodedWord (base64Chunk : Bytes) : Bytes := lit "=?UTF-8?B?" ++ base64Chunk ++ lit "?="

/-- The loop of `EncodeHeader`, from position `i` on. -/
def encodeLoop (chunk : ℕ) (text separator : Bytes) : ℕ → ℕ → Bytes → Except Failure Bytes
  | 0, i, result => if i < text.length then .error .endless else .ok result
  | n + 1, i, result =>
    if i < text.length then
      let stop := findUtf8SafeEnd text i chunk
      match toBase64 ((text.drop i).take (stop - i)) with
      | .error e => .error e
      | .ok base64Chunk =>
        let result := if result ≠ [] then result ++ separator else result
        encodeLoop chunk text separator n stop (result ++ encodedWord base64Chunk)
    else .ok result

/-- `MimeEncoder::EncodeHeader`. -/
def encodeHeader (config : MimeConfig) (text separator : Bytes) : Except Failure Bytes :=
  if needsEncoding text then
    encodeLoop config.headerChunkSize text separator text.length 0 []
  else .ok text

/-! ## What `EncodeHeader` returns -/

/-- The word is an encoded word with one line of base64 in it. -/
def IsEncodedWord (w : Bytes) : Prop := ∃ b, w = encodedWord b ∧ ∀ c ∈ b, isValidBase64 c = true

/-- A piece for one word: it is encoded on one line. -/
def IsChunk (chunk : Bytes) : Prop := chunk ≠ [] ∧ chunk.length ≤ 57

/-- The word for a piece of a text. -/
def wordOf (chunk : Bytes) : Bytes := encodedWord (chunkBytes 0 chunk)

/-- The words for the pieces of a text. -/
def words (separator : Bytes) : List Bytes → Bytes
  | [] => []
  | chunk :: chunks => wordOf chunk ++ chunks.flatMap (separator ++ wordOf ·)

theorem IsChunk.isValidBase64 {chunk : Bytes} (h : IsChunk chunk) :
    ∀ c ∈ chunkBytes 0 chunk, isValidBase64 c = true :=
  isValidBase64_chunkBytes 0 chunk (by have := h.2; omega)

theorem IsChunk.isEncodedWord {chunk : Bytes} (h : IsChunk chunk) : IsEncodedWord (wordOf chunk) :=
  ⟨_, rfl, h.isValidBase64⟩

section

variable {size : ℕ} {text : Bytes} (separator : Bytes)

/-- The piece for the next word. -/
def piece (size : ℕ) (text : Bytes) (i : ℕ) : Bytes :=
  (text.drop i).take (findUtf8SafeEnd text i size - i)

/-- The pieces that are encoded from a position on. -/
def pieces (size : ℕ) (text : Bytes) : ℕ → ℕ → List Bytes
  | 0, _ => []
  | n + 1, i =>
    if i < text.length then piece size text i :: pieces size text n (findUtf8SafeEnd text i size)
    else []

theorem length_piece_le (size : ℕ) (text : Bytes) (i : ℕ) : (piece size text i).length ≤ size := by
  have hle := (findUtf8SafeEnd_le text i size).1
  rw [piece, List.length_take]
  omega

/-- An iteration writes the word for one piece. -/
theorem encodeLoop_piece (hshort : size ≤ 57) (n : ℕ) {i : ℕ} (result : Bytes)
    (hi : i < text.length) :
    encodeLoop size text separator (n + 1) i result =
      encodeLoop size text separator n (findUtf8SafeEnd text i size)
        ((if result ≠ [] then result ++ separator else result) ++ wordOf (piece size text i)) := by
  have hlength := length_piece_le size text i
  have hencoded : toBase64 (piece size text i) = .ok (chunkBytes 0 (piece size text i)) := by
    rw [toBase64, encodeBase64, if_neg (by rw [maxFileSize]; omega)]
  rw [piece] at hencoded
  rw [encodeLoop, if_pos hi]
  dsimp only
  rw [hencoded]
  rfl

section Pieces

variable (hsize : 4 ≤ size) (hshort : size ≤ 57) (htext : ShortRuns 3 text)
include hsize htext

theorem flatten_pieces : ∀ {n i : ℕ}, text.length ≤ n + i →
    (pieces size text n i).flatten = text.drop i
  | 0, i, hn => (List.drop_eq_nil_of_le (by omega)).symm
  | n + 1, i, hn => by
      rw [pieces]
      split_ifs with hi
      · have hstop := lt_findUtf8SafeEnd htext hsize hi
        rw [List.flatten_cons, flatten_pieces (by omega), piece, ← Nat.add_sub_cancel' hstop.le,
          ← List.drop_drop, Nat.add_sub_cancel_left, List.take_append_drop]
      · exact (List.drop_eq_nil_of_le (Nat.le_of_not_lt hi)).symm

include hshort

theorem isChunk_of_mem_pieces : ∀ {n i : ℕ}, ∀ chunk ∈ pieces size text n i, IsChunk chunk
  | 0, _, _, hchunk => absurd hchunk List.not_mem_nil
  | n + 1, i, chunk, hchunk => by
      rw [pieces] at hchunk
      split_ifs at hchunk with hi
      · rcases List.mem_cons.mp hchunk with rfl | hchunk
        · refine ⟨List.ne_nil_of_length_pos ?_, (length_piece_le size text i).trans hshort⟩
          have hstop := lt_findUtf8SafeEnd htext hsize hi
          rw [piece, List.length_take, List.length_drop]
          omega
        · exact isChunk_of_mem_pieces chunk hchunk
      · exact absurd hchunk List.not_mem_nil

/-- The rest of the loop writes the other words, each after a separator. -/
theorem encodeLoop_pieces : ∀ {n i : ℕ} {result : Bytes}, text.length ≤ n + i → result ≠ [] →
    encodeLoop size text separator n i result =
      .ok (result ++ (pieces size text n i).flatMap (separator ++ wordOf ·))
  | 0, i, result, hn, _ => by
      rw [encodeLoop, if_neg (by omega), pieces, List.flatMap_nil, List.append_nil]
  | n + 1, i, result, hn, hresult => by
      rw [pieces]
      split_ifs with hi
      · have hstop := lt_findUtf8SafeEnd htext hsize hi
        have hne : result ++ separator ++ wordOf (piece size text i) ≠ [] := by simp [hresult]
        rw [encodeLoop_piece separator hshort n result hi, if_pos hresult,
          encodeLoop_pieces (by omega) hne, List.flatMap_cons]
        simp only [List.append_assoc]
      · rw [encodeLoop, if_neg hi, List.flatMap_nil, List.append_nil]

end Pieces

end

/-- **What `EncodeHeader` writes for a valid text that is not printable**: a word for each piece. -/
theorem encodeHeader_pieces {config : MimeConfig} {text : Bytes} (separator : Bytes)
    (hsize : 4 ≤ config.headerChunkSize) (hshort : config.headerChunkSize ≤ 57)
    (htext : ValidUtf8 text) (hneeds : needsEncoding text = true) :
    encodeHeader config text separator =
      .ok (words separator (pieces config.headerChunkSize text text.length 0)) := by
  have hruns := shortRuns_of_validUtf8 htext
  have hpos : 0 < text.length := by
    cases text with
    | nil => exact absurd hneeds (by simp [needsEncoding])
    | cons c text => exact Nat.succ_pos _
  obtain ⟨n, hn⟩ := Nat.exists_eq_add_of_lt hpos
  have hstop := lt_findUtf8SafeEnd hruns hsize hpos
  have hne : wordOf (piece config.headerChunkSize text 0) ≠ [] := List.cons_ne_nil _ _
  rw [encodeHeader, if_pos hneeds, hn, Nat.zero_add, pieces, if_pos hpos,
    encodeLoop_piece separator hshort n [] hpos, if_neg (by simp), List.nil_append,
    encodeLoop_pieces separator hsize hshort hruns (by omega) hne]
  rfl

theorem encodeHeader_words {config : MimeConfig} {text : Bytes} (separator : Bytes)
    (hsize : 4 ≤ config.headerChunkSize) (hshort : config.headerChunkSize ≤ 57)
    (htext : ValidUtf8 text) (hneeds : needsEncoding text = true) :
    ∃ chunks, chunks ≠ [] ∧ chunks.flatten = text ∧ (∀ chunk ∈ chunks, IsChunk chunk) ∧
      encodeHeader config text separator = .ok (words separator chunks) := by
  have hruns := shortRuns_of_validUtf8 htext
  have hflatten : (pieces config.headerChunkSize text text.length 0).flatten = text :=
    flatten_pieces hsize hruns (Nat.le_refl _)
  refine ⟨_, fun hnil => ?_, hflatten, isChunk_of_mem_pieces hsize hshort hruns,
    encodeHeader_pieces separator hsize hshort htext hneeds⟩
  rw [hnil] at hflatten
  rw [← hflatten] at hneeds
  exact absurd hneeds (by simp [needsEncoding])

/-- **`EncodeHeader` returns on valid UTF-8**: the text as it is, where it is printable, and
encoded words otherwise, with the separator between them. -/
theorem encodeHeader_spec {config : MimeConfig} {text : Bytes} (separator : Bytes)
    (hsize : 4 ≤ config.headerChunkSize) (hshort : config.headerChunkSize ≤ 57)
    (htext : ValidUtf8 text) :
    ∃ w ws, encodeHeader config text separator = .ok (w ++ ws.flatMap (separator ++ ·)) ∧
      (needsEncoding text = false ∧ w = text ∧ ws = [] ∨ ∀ v ∈ w :: ws, IsEncodedWord v) := by
  cases hneeds : needsEncoding text with
  | false => exact ⟨text, [], by simp [encodeHeader, hneeds], .inl ⟨rfl, rfl, rfl⟩⟩
  | true =>
    obtain ⟨chunks, hne, -, hchunks, hencoded⟩ :=
      encodeHeader_words separator hsize hshort htext hneeds
    obtain ⟨chunk, chunks, rfl⟩ := List.exists_cons_of_ne_nil hne
    obtain ⟨hchunk, hchunks⟩ := List.forall_mem_cons.mp hchunks
    refine ⟨wordOf chunk, chunks.map wordOf, ?_, .inr (List.forall_mem_cons.mpr
      ⟨hchunk.isEncodedWord, List.forall_mem_map.mpr fun c hc => (hchunks c hc).isEncodedWord⟩)⟩
    rw [hencoded, words, List.flatMap_map]

/-- A text that needs no encoding is printable. -/
theorem noBreak_of_not_needsEncoding {text : Bytes} (h : needsEncoding text = false) :
    NoBreak text := by
  rw [needsEncoding, List.any_eq_false] at h
  exact ⟨fun hc => h _ hc (by decide), fun hc => h _ hc (by decide)⟩

theorem IsEncodedWord.noBreak {w : Bytes} (h : IsEncodedWord w) : NoBreak w := by
  obtain ⟨b, rfl, hb⟩ := h
  exact noBreak_append.mpr
    ⟨noBreak_append.mpr ⟨by decide, noBreak_of_isValidBase64 hb⟩, by decide⟩

/-- An encoded word has none of the characters that are in no part of it. -/
theorem IsEncodedWord.notMem {w : Bytes} (h : IsEncodedWord w) {c : UInt8}
    (hc : c ∉ lit "=?UTF-8?B?") (hbase : isValidBase64 c = false) : c ∉ w := by
  obtain ⟨b, rfl, hb⟩ := h
  have hend : c ∉ lit "?=" := fun hmem => hc ((by decide : lit "?=" ⊆ lit "=?UTF-8?B?") hmem)
  have hmid : c ∉ b := fun hmem => by simp [hb c hmem] at hbase
  simp [encodedWord, hc, hend, hmid]

end MailStack.Mime
