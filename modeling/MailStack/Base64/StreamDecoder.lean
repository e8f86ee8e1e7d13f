import MailStack.Base64.Format

/-!
# Base64/StreamDecoder — `Base64StreamDecoder`: the decoder that is fed chunk by chunk

It skips white space, gathers four characters and decodes them by a test of its own.  How the text is
cut makes no difference (`streamDecoded_eq`); but the test lets any character pass at the third and
fourth place of a group, which `DecodeBase64` does not (`agrees_iff`).
-/

open Bytes

namespace MailStack.Base64

/-! ## The decoder -/

/-- `DecodePart`, of four characters. A value below zero is taken in two's complement. -/
def decodePart (part : Bytes) : Except Exn Bytes :=
  let value0 := decodeTable (part.getD 0 0)
  let value1 := decodeTable (part.getD 1 0)
  let value2 := if part.getD 2 0 = '='.toUInt8 then 0 else decodeTable (part.getD 2 0)
  let value3 := if part.getD 3 0 = '='.toUInt8 then 0 else decodeTable (part.getD 3 0)
  if value0 < 0 ∨ value1 < 0 ∨ value2 < -2 ∨ value3 < -2 then
    .error (.runtimeError (lit "Invalid Base64 character"))
  else
    let block := BitVec.ofInt 32 value0 <<< 18 ||| BitVec.ofInt 32 value1 <<< 12 |||
      BitVec.ofInt 32 value2 <<< 6 ||| BitVec.ofInt 32 value3
    .ok (UInt8.ofBitVec ((block >>> 16).setWidth 8) ::
      ((if part.getD 2 0 = '='.toUInt8 then [] else [UInt8.ofBitVec ((block >>> 8).setWidth 8)]) ++
        if part.getD 3 0 = '='.toUInt8 then [] else [UInt8.ofBitVec (block.setWidth 8)]))

/-- What `DecodeStream` skips. -/
def isSkipped (c : UInt8) : Bool :=
  c = '\r'.toUInt8 || c = '\n'.toUInt8 || c = ' '.toUInt8 || c = '\t'.toUInt8

/-- The members of `Base64StreamDecoder`, between two characters: the first `m_buffer_size`
characters of `m_buffer`. -/
structure StreamDecoder where
  buffer : Bytes := []
  size_lt : buffer.length < 4 := by decide

namespace StreamDecoder

/-- The body of the loop of `DecodeStream`, behind the test for white space. -/
def push (d : StreamDecoder) (c : UInt8) : Except Exn (Bytes × StreamDecoder) :=
  if h : (d.buffer ++ [c]).length = 4 then (decodePart (d.buffer ++ [c])).map fun out => (out, {})
  else .ok ([], ⟨d.buffer ++ [c], by
    have := d.size_lt
    rw [List.length_append, List.length_singleton] at h ⊢
    omega⟩)

/-- `DecodeStream`: what it writes, and the decoder after it. -/
def decodeStream : StreamDecoder → Bytes → Except Exn (Bytes × StreamDecoder)
  | d, [] => .ok ([], d)
  | d, c :: data =>
    if isSkipped c then decodeStream d data
    else match d.push c with
      | .error e => .error e
      | .ok r => (decodeStream r.2 data).map fun r' => (r.1 ++ r'.1, r'.2)

/-- `Finalize`. -/
def finalize (d : StreamDecoder) : Except Exn Bytes :=
  if d.buffer.length ≠ 0 then
    if d.buffer.length = 4 then decodePart d.buffer
    else .error (.runtimeError (lit "Invalid Base64 stream"))
  else .ok []

/-- The chunks, one call of `DecodeStream` for each. -/
def decodeChunks : StreamDecoder → List Bytes → Except Exn (Bytes × StreamDecoder)
  | d, [] => .ok ([], d)
  | d, chunk :: chunks =>
    match d.decodeStream chunk with
    | .error e => .error e
    | .ok r => (decodeChunks r.2 chunks).map fun r' => (r.1 ++ r'.1, r'.2)

end StreamDecoder

/-- What a new decoder writes for the chunks, `Finalize` included. -/
def streamDecoded (chunks : List Bytes) : Except Exn Bytes :=
  match StreamDecoder.decodeChunks {} chunks with
  | .error e => .error e
  | .ok r => r.2.finalize.map (r.1 ++ ·)

/-- The text without CR, LF, spaces and tabs. -/
def unspaced (s : Bytes) : Bytes := s.filter fun c => !isSkipped c

example : streamDecoded [lit "SGVs\r\n", lit "bG8="] = .ok (lit "Hello") := by decide

/-! ## However the text is cut -/

/-- All groups of four, and nothing behind them. -/
def decodeParts : Bytes → Except Exn Bytes
  | [] => .ok []
  | c0 :: c1 :: c2 :: c3 :: s =>
    match decodePart [c0, c1, c2, c3] with
    | .error e => .error e
    | .ok out => (decodeParts s).map (out ++ ·)
  | _ => .error (.runtimeError (lit "Invalid Base64 stream"))

namespace StreamDecoder

theorem decodeStream_append : ∀ (d : StreamDecoder) (a b : Bytes),
    d.decodeStream (a ++ b) =
      match d.decodeStream a with
      | .error e => .error e
      | .ok r => (r.2.decodeStream b).map fun r' => (r.1 ++ r'.1, r'.2)
  | d, [], b => by
      change d.decodeStream b = (d.decodeStream b).map fun r' => ([] ++ r'.1, r'.2)
      cases d.decodeStream b with
      | error e => rfl
      | ok r => rfl
  | d, c :: a, b => by
      rw [List.cons_append, decodeStream, decodeStream]
      split_ifs with hc
      · exact decodeStream_append d a b
      · cases hpush : d.push c with
        | error e => rfl
        | ok r =>
          dsimp only
          rw [decodeStream_append r.2 a b]
          cases r.2.decodeStream a with
          | error e => rfl
          | ok r' =>
            dsimp only [Except.map]
            cases r'.2.decodeStream b with
            | error e => rfl
            | ok r'' => exact congrArg Except.ok (Prod.ext (List.append_assoc ..).symm rfl)

theorem decodeChunks_eq : ∀ (d : StreamDecoder) (chunks : List Bytes),
    d.decodeChunks chunks = d.decodeStream chunks.flatten
  | d, [] => rfl
  | d, chunk :: chunks => by
      rw [decodeChunks, List.flatten_cons, decodeStream_append]
      cases d.decodeStream chunk with
      | error e => rfl
      | ok r =>
        dsimp only
        rw [decodeChunks_eq r.2 chunks]

theorem decodeStream_unspaced : ∀ (d : StreamDecoder) (data : Bytes),
    d.decodeStream (unspaced data) = d.decodeStream data
  | d, [] => rfl
  | d, c :: data => by
      by_cases hc : isSkipped c = true
      · rw [unspaced, List.filter_cons_of_neg (by simp [hc]), decodeStream, if_pos hc]
        exact decodeStream_unspaced d data
      · rw [unspaced, List.filter_cons_of_pos (by simp [hc]), decodeStream, decodeStream, if_neg hc,
          if_neg hc]
        cases d.push c with
        | error e => rfl
        | ok r =>
          dsimp only
          rw [← decodeStream_unspaced r.2 data]
          rfl

/-- From an empty buffer, and `Finalize` behind it. -/
theorem decodeStream_finalize : ∀ {s : Bytes}, (∀ c ∈ s, isSkipped c = false) →
    (match decodeStream {} s with
      | .error e => .error e
      | .ok r => r.2.finalize.map (r.1 ++ ·)) = decodeParts s
  | [], _ => rfl
  | [c0], h => by
      simp only [List.forall_mem_cons] at h
      simp [decodeStream, push, h, finalize, decodeParts, Except.map]
  | [c0, c1], h => by
      simp only [List.forall_mem_cons] at h
      simp [decodeStream, push, h, finalize, decodeParts, Except.map]
  | [c0, c1, c2], h => by
      simp only [List.forall_mem_cons] at h
      simp [decodeStream, push, h, finalize, decodeParts, Except.map]
  | c0 :: c1 :: c2 :: c3 :: s, h => by
      simp only [List.forall_mem_cons] at h
      obtain ⟨h0, h1, h2, h3, hs⟩ := h
      have hrest := decodeStream_finalize hs
      rw [decodeParts, ← hrest]
      simp only [decodeStream, push, h0, h1, h2, h3]
      cases hpart : decodePart [c0, c1, c2, c3] with
      | error e => simp [Except.map, hpart]
      | ok out =>
        simp [Except.map, hpart]
        cases decodeStream {} s with
        | error e => rfl
        | ok r =>
          dsimp only
          cases r.2.finalize with
          | error e => rfl
          | ok last => simp

end StreamDecoder

/-- **How the text is cut makes no difference.** -/
theorem streamDecoded_eq (chunks : List Bytes) :
    streamDecoded chunks = decodeParts (unspaced chunks.flatten) := by
  have hspaced : ∀ c ∈ unspaced chunks.flatten, isSkipped c = false := fun c hc => by
    simpa using (List.mem_filter.mp hc).2
  rw [streamDecoded, StreamDecoder.decodeChunks_eq, ← StreamDecoder.decodeStream_unspaced]
  exact StreamDecoder.decodeStream_finalize hspaced

/-! ## The two decoders -/

theorem decodeTable_ge (c : UInt8) : -2 ≤ decodeTable c := by
  rw [decodeTable]
  split
  · exact Int.le_refl _
  · split
    · omega
    · decide

/-- A group that begins with two characters of the alphabet is decoded, whatever follows them. -/
theorem exists_decodePart_iff {c0 c1 c2 c3 : UInt8} :
    (∃ out, decodePart [c0, c1, c2, c3] = .ok out) ↔ c0 ∈ alphabet ∧ c1 ∈ alphabet := by
  have hlow : ∀ c, ¬ (if c = '='.toUInt8 then 0 else decodeTable c) < -2 := by
    intro c
    split_ifs
    · decide
    · exact Int.not_lt.mpr (decodeTable_ge c)
  constructor
  · rintro ⟨out, h⟩
    rw [decodePart] at h
    constructor
    · exact mem_alphabet_of_decodeTable fun hneg => nomatch h.symm.trans (if_pos (.inl hneg))
    · exact mem_alphabet_of_decodeTable fun hneg => nomatch h.symm.trans (if_pos (.inr (.inl hneg)))
  · rintro ⟨h0, h1⟩
    rw [decodePart]
    refine ⟨_, if_neg ?_⟩
    rintro (h | h | h | h)
    · exact decodeTable_nonneg h0 h
    · exact decodeTable_nonneg h1 h
    · exact hlow c2 h
    · exact hlow c3 h

theorem exists_decodeParts_iff : ∀ {s : Bytes}, (∃ out, decodeParts s = .ok out) ↔ Framed s
  | [] => iff_of_true ⟨[], rfl⟩ trivial
  | [_] | [_, _] | [_, _, _] => iff_of_false (fun ⟨_, h⟩ => nomatch h) id
  | c0 :: c1 :: c2 :: c3 :: s => by
      rw [decodeParts, Framed, ← and_assoc, ← @exists_decodePart_iff c0 c1 c2 c3,
        ← exists_decodeParts_iff (s := s)]
      cases decodePart [c0, c1, c2, c3] with
      | error e => simp
      | ok out =>
        cases decodeParts s with
        | error e => simp [Except.map]
        | ok out' => simp [Except.map]

/-- The low byte of a block, in the two ways it is put together. -/
theorem ofBitVec_block (n0 n1 n2 n3 k : ℕ) (hk : k ≤ 16) :
    UInt8.ofBitVec (((BitVec.ofInt 32 n0 <<< 18 ||| BitVec.ofInt 32 n1 <<< 12 |||
      BitVec.ofInt 32 n2 <<< 6 ||| BitVec.ofInt 32 n3) >>> k).setWidth 8) =
      UInt8.ofNat ((n0 <<< 18 ||| n1 <<< 12 ||| n2 <<< 6 ||| n3) >>> k) := by
  simp only [BitVec.ofInt_natCast]
  apply UInt8.toBitVec_inj.mp
  apply BitVec.eq_of_getLsbD_eq
  intro i hi
  have h32 : k + i < 32 := by omega
  simp only [UInt8.toBitVec_ofNat', BitVec.getLsbD_setWidth, BitVec.getLsbD_ushiftRight,
    BitVec.getLsbD_or, BitVec.getLsbD_shiftLeft, BitVec.getLsbD_ofNat, Nat.testBit_shiftRight,
    Nat.testBit_or, Nat.testBit_shiftLeft, hi, h32]
  grind

theorem exists_value {c : UInt8} (h : isValidBase64 c = true) :
    ∃ n : ℕ, (if c = '='.toUInt8 then 0 else decodeTable c) = n := by
  split_ifs with hc
  · exact ⟨0, rfl⟩
  · exact Int.eq_ofNat_of_zero_le
      (Int.not_lt.mp (decodeTable_nonneg (mem_alphabet_iff.mpr ⟨h, hc⟩)))

/-- **On valid characters the two tests, and the bytes, are the same.** -/
theorem decodePart_eq {c0 c1 c2 c3 : UInt8} (h0 : c0 ∈ alphabet) (h1 : c1 ∈ alphabet)
    (h2 : isValidBase64 c2 = true) (h3 : isValidBase64 c3 = true) :
    decodePart [c0, c1, c2, c3] = decodeGroup c0 c1 c2 c3 := by
  obtain ⟨n0, hn0⟩ := Int.eq_ofNat_of_zero_le (Int.not_lt.mp (decodeTable_nonneg h0))
  obtain ⟨n1, hn1⟩ := Int.eq_ofNat_of_zero_le (Int.not_lt.mp (decodeTable_nonneg h1))
  obtain ⟨n2, hn2⟩ := exists_value h2
  obtain ⟨n3, hn3⟩ := exists_value h3
  rw [decodePart, decodeGroup]
  simp only [List.getD_cons_zero, List.getD_cons_succ, hn0, hn1, hn2, hn3, Int.toNat_natCast]
  have hpart : ¬ ((n0 : ℤ) < 0 ∨ (n1 : ℤ) < 0 ∨ (n2 : ℤ) < -2 ∨ (n3 : ℤ) < -2) := by omega
  have hgroup : ¬ ((n0 : ℤ) < 0 ∨ (n1 : ℤ) < 0 ∨ (c2 ≠ '='.toUInt8 ∧ (n2 : ℤ) < 0) ∨
      (c3 ≠ '='.toUInt8 ∧ (n3 : ℤ) < 0)) := by
    rintro (h | h | ⟨-, h⟩ | ⟨-, h⟩) <;> omega
  rw [if_neg hpart, if_neg hgroup, ofBitVec_block n0 n1 n2 n3 16 (by decide),
    ofBitVec_block n0 n1 n2 n3 8 (by decide)]
  have hlow := ofBitVec_block n0 n1 n2 n3 0 (by decide)
  rw [BitVec.ushiftRight_zero, Nat.shiftRight_zero] at hlow
  rw [hlow]

theorem decodeParts_eq_decodeGroups : ∀ {s : Bytes}, Framed s →
    (∀ c ∈ s, isValidBase64 c = true) → decodeParts s = decodeGroups s
  | [], _, _ => rfl
  | c0 :: c1 :: c2 :: c3 :: s, hframed, hvalid => by
      simp only [List.forall_mem_cons] at hvalid
      obtain ⟨-, -, h2, h3, hs⟩ := hvalid
      have hpart := decodePart_eq hframed.1 hframed.2.1 h2 h3
      have hrest := decodeParts_eq_decodeGroups hframed.2.2 hs
      cases hgroup : decodeGroup c0 c1 c2 c3 with
      | error e =>
        rw [hgroup] at hpart
        simp only [decodeParts, decodeGroups, hpart, hgroup]
      | ok out =>
        rw [hgroup] at hpart
        simp only [decodeParts, decodeGroups, hpart, hgroup, hrest]

/-- The two decoders agree on the chunks: they complete with the same output, or neither does. -/
def Agrees (chunks : List Bytes) : Prop :=
  ∀ out, streamDecoded chunks = .ok out ↔ decodeBase64 (unspaced chunks.flatten) = .ok out

/-- **They agree exactly where the stream lets no invalid character pass**, at the third or fourth
place of a group. -/
theorem agrees_iff (chunks : List Bytes) :
    Agrees chunks ↔ (Framed (unspaced chunks.flatten) →
      ∀ c ∈ unspaced chunks.flatten, isValidBase64 c = true) := by
  rw [Agrees, streamDecoded_eq]
  constructor
  · intro hagree hframed
    obtain ⟨out, hout⟩ := exists_decodeParts_iff.mpr hframed
    exact (decodes_iff.mp ⟨out, (hagree out).mp hout⟩).2
  · intro hvalid out
    constructor
    · intro h
      have hframed := exists_decodeParts_iff.mp ⟨out, h⟩
      rw [decodeBase64_of_valid hframed.length (hvalid hframed),
        ← decodeParts_eq_decodeGroups hframed (hvalid hframed)]
      exact h
    · intro h
      obtain ⟨hframed, hall⟩ := decodes_iff.mp ⟨out, h⟩
      rw [decodeParts_eq_decodeGroups hframed hall, ← decodeBase64_of_valid hframed.length hall]
      exact h

theorem not_agrees_exclamation : ¬ Agrees [lit "QU!!"] := by
  intro h
  obtain ⟨out, hout⟩ : ∃ out, streamDecoded [lit "QU!!"] = .ok out := by
    rw [streamDecoded_eq]
    exact exists_decodeParts_iff.mpr ⟨by decide, by decide, trivial⟩
  have hrefused : decodeBase64 (unspaced [lit "QU!!"].flatten) ≠ .ok out :=
    decodeBase64_ne_ok (c := '!'.toUInt8) (by decide) (by decide) out
  exact hrefused ((h out).mp hout)

end MailStack.Base64
