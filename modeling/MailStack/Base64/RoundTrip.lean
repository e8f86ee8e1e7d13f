import Mathlib.Data.Nat.Bitwise
import Mathlib.Tactic.Ring
import MailStack.Base64.Codec

/-!
# Base64/RoundTrip — the decoder takes back what the encoder writes

The decoder throws on CR and LF, so the line breaks of the encoder have to go first
(`decodeBase64_chunkBytes`).  A text of at most 57 bytes is encoded without any, and no longer one
(`roundTrips_iff`).
-/

open Bytes

namespace MailStack.Base64

/-! ## One group -/

/-- Two fields side by side, the lower one `k` bits wide. -/
theorem shiftLeft_or {b k : ℕ} (a m : ℕ) (h : b < 2 ^ k) :
    a <<< (k + m) ||| b <<< m = (a * 2 ^ k + b) <<< m := by
  rw [Nat.shiftLeft_add, ← Nat.shiftLeft_or_distrib, ← Nat.shiftLeft_add_eq_or_of_lt h,
    Nat.shiftLeft_eq a k]

/-- The three bytes of a group, as the number they are packed in. -/
theorem packBytes {b0 b1 b2 : ℕ} (h1 : b1 < 256) (h2 : b2 < 256) :
    b0 <<< 16 ||| b1 <<< 8 ||| b2 = b0 * 65536 + b1 * 256 + b2 := by
  rw [shiftLeft_or b0 8 h1, ← Nat.shiftLeft_add_eq_or_of_lt h2, Nat.shiftLeft_eq]
  omega

/-- The four values of a group. -/
theorem packValues {v0 v1 v2 v3 : ℕ} (h1 : v1 < 64) (h2 : v2 < 64) (h3 : v3 < 64) :
    v0 <<< 18 ||| v1 <<< 12 ||| v2 <<< 6 ||| v3 = v0 * 262144 + v1 * 4096 + v2 * 64 + v3 := by
  rw [shiftLeft_or v0 12 h1, shiftLeft_or _ 6 h2, ← Nat.shiftLeft_add_eq_or_of_lt h3,
    Nat.shiftLeft_eq]
  omega

/-- What the decoder sees in a character of the alphabet. -/
theorem alphabetAt_spec (n : ℕ) : decodeTable (alphabetAt n) = (n % 64 : ℕ) ∧
    isValidBase64 (alphabetAt n) = true ∧ alphabetAt n ≠ '='.toUInt8 := by
  have hall : ∀ k < 64, decodeTable (alphabet.getD k 0) = (k : ℕ) ∧
      isValidBase64 (alphabet.getD k 0) = true ∧ alphabet.getD k 0 ≠ '='.toUInt8 := by decide +kernel
  have hmod : n &&& 0x3F = n % 64 := Nat.and_two_pow_sub_one_eq_mod n 6
  rw [alphabetAt, hmod]
  exact hall _ (Nat.mod_lt n (by decide))

/-- The six bits of a value at each of its places. -/
theorem decodeGroup_alphabetAt (n0 n1 n2 n3 : ℕ) :
    decodeGroup (alphabetAt n0) (alphabetAt n1) (alphabetAt n2) (alphabetAt n3) =
      let block := n0 % 64 * 262144 + n1 % 64 * 4096 + n2 % 64 * 64 + n3 % 64
      .ok [UInt8.ofNat (block >>> 16), UInt8.ofNat (block >>> 8), UInt8.ofNat block] := by
  obtain ⟨hv0, -, -⟩ := alphabetAt_spec n0
  obtain ⟨hv1, -, -⟩ := alphabetAt_spec n1
  obtain ⟨hv2, -, he2⟩ := alphabetAt_spec n2
  obtain ⟨hv3, -, he3⟩ := alphabetAt_spec n3
  rw [decodeGroup]
  dsimp only
  rw [if_neg he2, if_neg he3, if_neg he2, if_neg he3, hv0, hv1, hv2, hv3, if_neg (by omega)]
  simp only [Int.toNat_natCast]
  rw [packValues (Nat.mod_lt _ (by decide)) (Nat.mod_lt _ (by decide)) (Nat.mod_lt _ (by decide))]
  rfl

/-- **A group of three bytes is taken back.** -/
theorem decodeGroup_three (b0 b1 b2 : UInt8) :
    let block := b0.toNat <<< 16 ||| b1.toNat <<< 8 ||| b2.toNat
    decodeGroup (alphabetAt (block >>> 18)) (alphabetAt (block >>> 12)) (alphabetAt (block >>> 6))
      (alphabetAt block) = .ok [b0, b1, b2] := by
  intro block
  have h0 := b0.toNat_lt
  have h1 := b1.toNat_lt
  have h2 := b2.toNat_lt
  have hblock : block = b0.toNat * 65536 + b1.toNat * 256 + b2.toNat := packBytes h1 h2
  have hparts : block >>> 18 % 64 * 262144 + block >>> 12 % 64 * 4096 + block >>> 6 % 64 * 64 +
      block % 64 = block := by
    simp only [Nat.shiftRight_eq_div_pow]
    omega
  rw [decodeGroup_alphabetAt]
  dsimp only
  rw [hparts]
  refine congrArg Except.ok (List.cons_eq_cons.mpr ⟨?_, List.cons_eq_cons.mpr ⟨?_,
    List.cons_eq_cons.mpr ⟨?_, rfl⟩⟩⟩)
  all_goals
    refine UInt8.toNat_inj.mp ?_
    simp only [UInt8.toNat_ofNat', Nat.shiftRight_eq_div_pow]
    omega

/-- A last group of two bytes. -/
theorem decodeGroup_two (b0 b1 : UInt8) :
    let block := b0.toNat <<< 16 ||| b1.toNat <<< 8
    decodeGroup (alphabetAt (block >>> 18)) (alphabetAt (block >>> 12)) (alphabetAt (block >>> 6))
      '='.toUInt8 = .ok [b0, b1] := by
  intro block
  have h0 := b0.toNat_lt
  have h1 := b1.toNat_lt
  have hblock : block = b0.toNat * 65536 + b1.toNat * 256 := by
    have h := @packBytes b0.toNat b1.toNat 0 h1 (by decide)
    rwa [Nat.or_zero, Nat.add_zero] at h
  obtain ⟨hv0, -, -⟩ := alphabetAt_spec (block >>> 18)
  obtain ⟨hv1, -, -⟩ := alphabetAt_spec (block >>> 12)
  obtain ⟨hv2, -, he2⟩ := alphabetAt_spec (block >>> 6)
  have hparts : block >>> 18 % 64 * 262144 + block >>> 12 % 64 * 4096 + block >>> 6 % 64 * 64 + 0 =
      block := by
    simp only [Nat.shiftRight_eq_div_pow]
    omega
  rw [decodeGroup]
  dsimp only
  rw [if_neg he2, if_neg he2, if_pos rfl, if_pos rfl, hv0, hv1, hv2, if_neg (by omega)]
  simp only [Int.toNat_natCast, Int.toNat_zero]
  rw [packValues (Nat.mod_lt _ (by decide)) (Nat.mod_lt _ (by decide)) (by decide), hparts]
  refine congrArg Except.ok (List.cons_eq_cons.mpr ⟨?_, List.cons_eq_cons.mpr ⟨?_, rfl⟩⟩)
  all_goals
    refine UInt8.toNat_inj.mp ?_
    simp only [UInt8.toNat_ofNat', Nat.shiftRight_eq_div_pow]
    omega

/-- A last group of one byte. -/
theorem decodeGroup_one (b0 : UInt8) :
    let block := b0.toNat <<< 16
    decodeGroup (alphabetAt (block >>> 18)) (alphabetAt (block >>> 12)) '='.toUInt8 '='.toUInt8 =
      .ok [b0] := by
  intro block
  have h0 := b0.toNat_lt
  have hblock : block = b0.toNat * 65536 := Nat.shiftLeft_eq _ _
  obtain ⟨hv0, -, -⟩ := alphabetAt_spec (block >>> 18)
  obtain ⟨hv1, -, -⟩ := alphabetAt_spec (block >>> 12)
  have hparts : block >>> 18 % 64 * 262144 + block >>> 12 % 64 * 4096 + 0 * 64 + 0 = block := by
    simp only [Nat.shiftRight_eq_div_pow]
    omega
  rw [decodeGroup]
  dsimp only
  rw [if_pos rfl, if_pos rfl, hv0, hv1, if_neg (by omega)]
  simp only [Int.toNat_natCast, Int.toNat_zero]
  rw [packValues (Nat.mod_lt _ (by decide)) (by decide) (by decide), hparts]
  refine congrArg Except.ok (List.cons_eq_cons.mpr ⟨?_, rfl⟩)
  refine UInt8.toNat_inj.mp ?_
  simp only [UInt8.toNat_ofNat', Nat.shiftRight_eq_div_pow]
  omega

/-! ## The whole text -/

/-- What a group is made of. -/
theorem isValidBase64_alphabetAt (n : ℕ) : isValidBase64 (alphabetAt n) = true :=
  (alphabetAt_spec n).2.1

theorem ne_break_of_isValidBase64 {c : UInt8} (h : isValidBase64 c = true) :
    c ≠ '\r'.toUInt8 ∧ c ≠ '\n'.toUInt8 := by
  constructor <;> (rintro rfl; exact absurd h (by decide))

theorem noBreak_of_isValidBase64 {s : Bytes} (h : ∀ c ∈ s, isValidBase64 c = true) : NoBreak s :=
  ⟨fun hc => (ne_break_of_isValidBase64 (h _ hc)).1 rfl,
    fun hc => (ne_break_of_isValidBase64 (h _ hc)).2 rfl⟩

/-- One group, then a line break where the line is full and more follows. -/
theorem chunkBytes_cases (lineLength : ℕ) {data : Bytes} (hdata : data ≠ []) :
    ∃ c0 c1 c2 c3 brk next bytes rest,
      data = bytes ++ rest ∧ bytes ≠ [] ∧ (rest ≠ [] → bytes.length = 3) ∧
      chunkBytes lineLength data = [c0, c1, c2, c3] ++ (brk ++ chunkBytes next rest) ∧
      decodeGroup c0 c1 c2 c3 = .ok bytes ∧ (∀ c ∈ [c0, c1, c2, c3], isValidBase64 c = true) ∧
      (brk = lit "\r\n" ∧ 76 ≤ lineLength + 4 ∧ rest ≠ [] ∨ brk = [] ∧ next = lineLength + 4) := by
  have hvalid := isValidBase64_alphabetAt
  have hpad : isValidBase64 '='.toUInt8 = true := by decide
  match data, hdata with
  | [b0], _ =>
    exact ⟨_, _, _, _, [], _, [b0], [], rfl, by simp, by simp, rfl, decodeGroup_one b0,
      by simp [hvalid, hpad], .inr ⟨rfl, rfl⟩⟩
  | [b0, b1], _ =>
    exact ⟨_, _, _, _, [], _, [b0, b1], [], rfl, by simp, by simp, rfl, decodeGroup_two b0 b1,
      by simp [hvalid, hpad], .inr ⟨rfl, rfl⟩⟩
  | b0 :: b1 :: b2 :: rest, _ =>
    by_cases hbreak : 76 ≤ lineLength + 4 ∧ rest ≠ []
    · refine ⟨_, _, _, _, lit "\r\n", 0, [b0, b1, b2], rest, rfl, by simp, by simp, ?_,
        decodeGroup_three b0 b1 b2, by simp [hvalid], .inl ⟨rfl, hbreak⟩⟩
      rw [chunkBytes, if_pos hbreak]
    · refine ⟨_, _, _, _, [], lineLength + 4, [b0, b1, b2], rest, rfl, by simp, by simp, ?_,
        decodeGroup_three b0 b1 b2, by simp [hvalid], .inr ⟨rfl, rfl⟩⟩
      rw [chunkBytes, if_neg hbreak]
      rfl

/-- Every character of the output is in the alphabet, a `=` or part of a line break. -/
theorem mem_chunkBytes (lineLength : ℕ) (data : Bytes) : ∀ c ∈ chunkBytes lineLength data,
    isValidBase64 c = true ∨ c = '\r'.toUInt8 ∨ c = '\n'.toUInt8 := by
  induction hn : data.length using Nat.strong_induction_on generalizing lineLength data with
  | _ n ih =>
    rcases eq_or_ne data [] with rfl | hdata
    · simp [chunkBytes]
    · obtain ⟨c0, c1, c2, c3, brk, next, bytes, rest, rfl, hbytes, -, heq, -, hvalid, hbrk⟩ :=
        chunkBytes_cases lineLength hdata
      have hrest : rest.length < n := by
        rw [← hn, List.length_append]
        exact Nat.lt_add_of_pos_left (List.length_pos_iff.mpr hbytes)
      intro c hc
      rw [heq, List.mem_append, List.mem_append] at hc
      rcases hc with hc | hc | hc
      · exact .inl (hvalid c hc)
      · rcases hbrk with ⟨rfl, -⟩ | ⟨rfl, -⟩
        · exact .inr (by simpa [lit] using hc)
        · exact absurd hc (by simp)
      · exact ih _ hrest next rest rfl c hc

/-- **A short text is encoded on one line.** -/
theorem isValidBase64_chunkBytes (lineLength : ℕ) (data : Bytes)
    (h : 3 * lineLength + 4 * data.length ≤ 228) :
    ∀ c ∈ chunkBytes lineLength data, isValidBase64 c = true := by
  induction hn : data.length using Nat.strong_induction_on generalizing lineLength data with
  | _ n ih =>
    rcases eq_or_ne data [] with rfl | hdata
    · simp [chunkBytes]
    · obtain ⟨c0, c1, c2, c3, brk, next, bytes, rest, rfl, hbytes, hfull, heq, -, hvalid, hbrk⟩ :=
        chunkBytes_cases lineLength hdata
      have hpos := List.length_pos_iff.mpr hbytes
      rw [List.length_append] at hn h
      rcases hbrk with ⟨-, hline, hrest⟩ | ⟨rfl, rfl⟩
      · have := hfull hrest
        have := List.length_pos_iff.mpr hrest
        omega
      · rw [heq]
        refine List.forall_mem_append.mpr ⟨hvalid, ?_⟩
        rcases eq_or_ne rest [] with rfl | hrest
        · simp [chunkBytes]
        · have := hfull hrest
          exact ih _ (by omega) _ rest (by omega) rfl

/-- A `=` stands at the end only. -/
theorem exists_pad_chunkBytes : ∀ (lineLength : ℕ) (data : Bytes), ∃ chars pad,
    chunkBytes lineLength data = chars ++ pad ∧ '='.toUInt8 ∉ chars ∧ pad ∈ [[], lit "=", lit "=="]
  | _, [] => ⟨[], [], rfl, List.not_mem_nil, by simp⟩
  | _, [b0] => ⟨[_, _], lit "==", rfl, by simp [Ne.symm (alphabetAt_spec _).2.2], by simp⟩
  | _, [b0, b1] => ⟨[_, _, _], lit "=", rfl, by simp [Ne.symm (alphabetAt_spec _).2.2], by simp⟩
  | lineLength, b0 :: b1 :: b2 :: data => by
      have hne := fun n => Ne.symm (alphabetAt_spec n).2.2
      obtain ⟨group, hgroup, hnotin⟩ : ∃ group : Bytes,
          chunkBytes lineLength (b0 :: b1 :: b2 :: data) = group ++
            (if 76 ≤ lineLength + 4 ∧ data ≠ [] then lit "\r\n" ++ chunkBytes 0 data
              else chunkBytes (lineLength + 4) data) ∧ '='.toUInt8 ∉ group :=
        ⟨_, rfl, by simp [hne]⟩
      rw [hgroup]
      split_ifs
      · obtain ⟨chars, pad, hchars, hnone, hpad⟩ := exists_pad_chunkBytes 0 data
        refine ⟨group ++ (lit "\r\n" ++ chars), pad, ?_, ?_, hpad⟩
        · rw [hchars, List.append_assoc, List.append_assoc]
        · exact List.not_mem_append hnotin (List.not_mem_append (by decide) hnone)
      · obtain ⟨chars, pad, hchars, hnone, hpad⟩ := exists_pad_chunkBytes (lineLength + 4) data
        refine ⟨group ++ chars, pad, ?_, List.not_mem_append hnotin hnone, hpad⟩
        rw [hchars, List.append_assoc]

/-- And none at the start. -/
theorem exists_cons_chunkBytes (lineLength : ℕ) {data : Bytes} (hdata : data ≠ []) :
    ∃ c s, chunkBytes lineLength data = c :: s ∧ c ≠ '='.toUInt8 := by
  match data, hdata with
  | [b0], _ => exact ⟨_, _, rfl, (alphabetAt_spec _).2.2⟩
  | [b0, b1], _ => exact ⟨_, _, rfl, (alphabetAt_spec _).2.2⟩
  | b0 :: b1 :: b2 :: data, _ =>
    rw [chunkBytes]
    exact ⟨_, _, rfl, (alphabetAt_spec _).2.2⟩

theorem decodeGroups_chunkBytes (lineLength : ℕ) (data : Bytes) :
    decodeGroups (eraseBreaks (chunkBytes lineLength data)) = .ok data ∧
      (eraseBreaks (chunkBytes lineLength data)).length % 4 = 0 := by
  induction hn : data.length using Nat.strong_induction_on generalizing lineLength data with
  | _ n ih =>
    rcases eq_or_ne data [] with rfl | hdata
    · exact ⟨rfl, rfl⟩
    · obtain ⟨c0, c1, c2, c3, brk, next, bytes, rest, rfl, hbytes, -, heq, hdec, hvalid, hbrk⟩ :=
        chunkBytes_cases lineLength hdata
      have hpos := List.length_pos_iff.mpr hbytes
      rw [List.length_append] at hn
      have hnone : eraseBreaks brk = [] := by
        rcases hbrk with ⟨rfl, -⟩ | ⟨rfl, -⟩ <;> rfl
      obtain ⟨hrest, hlen⟩ := ih _ (by omega) next rest rfl
      rw [heq, eraseBreaks_append, eraseBreaks_append, hnone, List.nil_append,
        eraseBreaks_of_noBreak (noBreak_of_isValidBase64 hvalid)]
      constructor
      · change decodeGroups (c0 :: c1 :: c2 :: c3 :: eraseBreaks (chunkBytes next rest)) = _
        rw [decodeGroups, hdec, hrest]
        rfl
      · rw [List.length_append, Nat.add_mod, hlen]
        simp

/-- **The round trip**: decoding takes back what was encoded, once the line breaks are gone. -/
theorem decodeBase64_chunkBytes (data : Bytes) :
    decodeBase64 (eraseBreaks (chunkBytes 0 data)) = .ok data := by
  obtain ⟨hdec, hlen⟩ := decodeGroups_chunkBytes 0 data
  have hnone : (eraseBreaks (chunkBytes 0 data)).find? (fun c => !isValidBase64 c) = none := by
    rw [List.find?_eq_none]
    intro c hc
    simp only [eraseBreaks, List.mem_filter, decide_eq_true_eq] at hc
    obtain ⟨⟨hc, hcr⟩, hlf⟩ := hc
    rcases mem_chunkBytes 0 data c hc with h | h | h
    · simp [h]
    · exact absurd h hcr
    · exact absurd h hlf
  rw [decodeBase64, hnone]
  dsimp only
  rw [if_pos hlen, hdec]

/-! ## The line breaks left in -/

/-- **A longer text is encoded on several lines.** -/
theorem cr_mem_chunkBytes : ∀ {lineLength : ℕ} {data : Bytes}, lineLength % 4 = 0 →
    lineLength ≤ 72 → 228 < 3 * lineLength + 4 * data.length →
      '\r'.toUInt8 ∈ chunkBytes lineLength data
  | _, [], _, hline, hlong => by simp only [List.length_nil] at hlong; omega
  | _, [_], _, hline, hlong => by simp only [List.length_cons, List.length_nil] at hlong; omega
  | _, [_, _], _, hline, hlong => by simp only [List.length_cons, List.length_nil] at hlong; omega
  | lineLength, b0 :: b1 :: b2 :: data, hfour, hline, hlong => by
      simp only [List.length_cons] at hlong
      rw [chunkBytes]
      refine List.mem_append_right _ ?_
      split_ifs with hbreak
      · exact List.mem_append_left _ (by decide)
      · rcases eq_or_ne data [] with rfl | hdata
        · simp only [List.length_nil] at hlong
          omega
        · have hroom : lineLength + 4 < 76 := Nat.lt_of_not_le fun h => hbreak ⟨h, hdata⟩
          exact cr_mem_chunkBytes (by omega) (by omega) (by omega)

/-- What is encoded can be decoded, and is what was encoded. -/
def RoundTrips (data : Bytes) : Prop :=
  ∃ encoded, encodeBase64 data = .ok encoded ∧ decodeBase64 encoded = .ok data

/-- **The decoder takes back what the encoder made exactly if it is on one line.** -/
theorem roundTrips_iff (data : Bytes) : RoundTrips data ↔ data.length ≤ 57 := by
  constructor
  · rintro ⟨encoded, hencoded, hdecoded⟩
    rw [encodeBase64] at hencoded
    split_ifs at hencoded with hsize
    obtain rfl := Except.ok.inj hencoded
    by_contra hlong
    have hcr : '\r'.toUInt8 ∈ chunkBytes 0 data := cr_mem_chunkBytes rfl (by decide) (by omega)
    exact decodeBase64_ne_ok hcr (by decide) data hdecoded
  · intro hshort
    have hsize : ¬ maxFileSize < data.length := by
      rw [maxFileSize]
      omega
    refine ⟨chunkBytes 0 data, if_neg hsize, ?_⟩
    have hvalid := isValidBase64_chunkBytes 0 data (by omega)
    have hback := decodeBase64_chunkBytes data
    rwa [eraseBreaks_of_noBreak (noBreak_of_isValidBase64 hvalid)] at hback

/-- Fifty-eight bytes. -/
theorem not_roundTrips_zeros :
    ¬ ∀ data : Bytes, data.length ≤ maxFileSize → RoundTrips data := by
  intro h
  obtain ⟨encoded, hencoded, hdecoded⟩ := h (List.replicate 58 0) (by decide)
  rw [encodeBase64, if_neg (by decide)] at hencoded
  obtain rfl := Except.ok.inj hencoded
  have hcr : '\r'.toUInt8 ∈ chunkBytes 0 (List.replicate 58 0) :=
    cr_mem_chunkBytes rfl (by decide) (by decide)
  exact decodeBase64_ne_ok hcr (by decide) _ hdecoded

end MailStack.Base64
