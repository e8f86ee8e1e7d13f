import Mathlib.Data.List.TakeWhile
import MailStack.Base64.Codec

/-!
# Base64/Format — padded base64, and what the decoder takes

A text is padded base64 if it is made of whole groups of the alphabet, but for one or two `=` at its
end.  The decoder takes each such text (`WellFormed.decodes`), and some others: a `=` is refused at the
first two places of a group only (`decodes_iff`).
-/

open Bytes

namespace MailStack.Base64

/-- Padded base64. -/
def WellFormed (s : Bytes) : Prop :=
  s.length % 4 = 0 ∧
    ∃ chars pad, s = chars ++ pad ∧ (∀ c ∈ chars, c ∈ alphabet) ∧ pad ∈ [[], lit "=", lit "=="]

theorem wellFormed_nil : WellFormed [] := ⟨rfl, [], [], rfl, by simp, by simp⟩

/-- The `n` characters from `first` on. -/
def charRun (first : UInt8) (n : ℕ) : Bytes := (List.range n).map fun k => first + UInt8.ofNat k

/-- The alphabet by its runs of characters. -/
theorem alphabet_eq : alphabet = charRun 'A'.toUInt8 26 ++ charRun 'a'.toUInt8 26 ++
    charRun '0'.toUInt8 10 ++ ['+'.toUInt8, '/'.toUInt8] := by rfl

/-- A run holds the characters from its first on. -/
theorem mem_charRun {first c : UInt8} {n : ℕ} (h : first.toNat + n ≤ 256) :
    c ∈ charRun first n ↔ first.toNat ≤ c.toNat ∧ c.toNat < first.toNat + n := by
  rw [charRun, List.mem_map]
  constructor
  · rintro ⟨k, hk, rfl⟩
    have hk := List.mem_range.mp hk
    rw [UInt8.toNat_add, UInt8.toNat_ofNat']
    omega
  · rintro ⟨hle, hlt⟩
    have hc := c.toNat_lt
    refine ⟨c.toNat - first.toNat, List.mem_range.mpr (by omega), UInt8.toNat_inj.mp ?_⟩
    rw [UInt8.toNat_add, UInt8.toNat_ofNat']
    omega

/-- The alphabet is what is valid, without the padding. -/
theorem mem_alphabet_iff {c : UInt8} :
    c ∈ alphabet ↔ isValidBase64 c = true ∧ c ≠ '='.toUInt8 := by
  have hupper : 'A'.toUInt8.toNat = 65 ∧ 'Z'.toUInt8.toNat = 90 := ⟨rfl, rfl⟩
  have hlower : 'a'.toUInt8.toNat = 97 ∧ 'z'.toUInt8.toNat = 122 := ⟨rfl, rfl⟩
  have hdigit : '0'.toUInt8.toNat = 48 ∧ '9'.toUInt8.toNat = 57 := ⟨rfl, rfl⟩
  have hrest : '+'.toUInt8.toNat = 43 ∧ '/'.toUInt8.toNat = 47 ∧ '='.toUInt8.toNat = 61 :=
    ⟨rfl, rfl, rfl⟩
  simp only [alphabet_eq, List.mem_append, List.mem_cons, List.not_mem_nil, or_false,
    mem_charRun (show 'A'.toUInt8.toNat + 26 ≤ 256 by omega),
    mem_charRun (show 'a'.toUInt8.toNat + 26 ≤ 256 by omega),
    mem_charRun (show '0'.toUInt8.toNat + 10 ≤ 256 by omega), isValidBase64, Bool.or_eq_true,
    Bool.and_eq_true, decide_eq_true_eq, UInt8.le_iff_toNat_le, ← UInt8.toNat_inj, ne_eq]
  omega

/-- The table knows the alphabet. -/
theorem decodeTable_nonneg {c : UInt8} (h : c ∈ alphabet) : ¬ decodeTable c < 0 := by
  rw [decodeTable, if_neg (mem_alphabet_iff.mp h).2]
  cases hi : alphabet.idxOf? c with
  | none => exact absurd h (List.idxOf?_eq_none_iff.mp hi)
  | some i => exact Int.not_lt.mpr (Int.natCast_nonneg i)

/-- And nothing else. -/
theorem mem_alphabet_of_decodeTable {c : UInt8} (h : ¬ decodeTable c < 0) : c ∈ alphabet := by
  rw [decodeTable] at h
  split_ifs at h
  · exact absurd (by decide) h
  · cases hi : alphabet.idxOf? c with
    | none =>
      rw [hi] at h
      exact absurd (by decide) h
    | some i =>
      by_contra hc
      rw [List.idxOf?_eq_none_iff.mpr hc] at hi
      exact nomatch hi

/-- A character that may stand at the third or the fourth place. -/
theorem decodeTable_nonneg_of_ne {c : UInt8} (h : isValidBase64 c = true) :
    ¬ (c ≠ '='.toUInt8 ∧ (if c = '='.toUInt8 then 0 else decodeTable c) < 0) := by
  rintro ⟨hc, hneg⟩
  rw [if_neg hc] at hneg
  exact decodeTable_nonneg (mem_alphabet_iff.mpr ⟨h, hc⟩) hneg

/-- **A group is decoded** if its first two characters are of the alphabet. -/
theorem exists_decodeGroup_eq_ok {c0 c1 c2 c3 : UInt8} (h0 : c0 ∈ alphabet) (h1 : c1 ∈ alphabet)
    (h2 : isValidBase64 c2 = true) (h3 : isValidBase64 c3 = true) :
    ∃ bytes, decodeGroup c0 c1 c2 c3 = .ok bytes := by
  rw [decodeGroup]
  dsimp only
  rw [if_neg]
  · exact ⟨_, rfl⟩
  · rintro (h | h | h | h)
    · exact decodeTable_nonneg h0 h
    · exact decodeTable_nonneg h1 h
    · exact decodeTable_nonneg_of_ne h2 h
    · exact decodeTable_nonneg_of_ne h3 h

/-- Groups of four, each of which begins with two characters of the alphabet. -/
def Framed : Bytes → Prop
  | [] => True
  | c0 :: c1 :: _ :: _ :: s => c0 ∈ alphabet ∧ c1 ∈ alphabet ∧ Framed s
  | _ => False

/-- A framed text is made of groups of four. -/
theorem Framed.length : ∀ {s : Bytes}, Framed s → s.length % 4 = 0
  | [], _ => rfl
  | _ :: _ :: _ :: _ :: s, h => by
      have := Framed.length h.2.2
      simp only [List.length_cons]
      omega

/-- All but the last two characters are of the alphabet. -/
theorem framed_of_chars : ∀ {s : Bytes}, s.length % 4 = 0 →
    (∀ c ∈ s.take (s.length - 2), c ∈ alphabet) → Framed s
  | [], _, _ => trivial
  | [_], hlen, _ => absurd hlen (by simp)
  | [_, _], hlen, _ => absurd hlen (by simp)
  | [_, _, _], hlen, _ => absurd hlen (by simp)
  | c0 :: c1 :: c2 :: c3 :: s, hlen, hchars => by
      have htwo : (c0 :: c1 :: c2 :: c3 :: s).length - 2 = s.length + 2 := rfl
      rw [htwo, List.take_succ_cons, List.take_succ_cons, List.forall_mem_cons,
        List.forall_mem_cons] at hchars
      obtain ⟨hc0, hc1, hchars⟩ := hchars
      have hrest : ∀ c ∈ s.take (s.length - 2), c ∈ alphabet := by
        intro c hc
        rcases Nat.lt_or_ge s.length 2 with hshort | hlong
        · rw [Nat.sub_eq_zero_of_le (Nat.le_of_lt hshort), List.take_zero] at hc
          exact absurd hc List.not_mem_nil
        · obtain ⟨n, hn⟩ := Nat.exists_eq_add_of_le' hlong
          rw [hn, List.take_succ_cons, List.take_succ_cons] at hchars
          rw [hn, Nat.add_sub_cancel] at hc
          exact hchars c (List.mem_cons_of_mem _ (List.mem_cons_of_mem _ hc))
      simp only [List.length_cons] at hlen
      exact ⟨hc0, hc1, framed_of_chars (by omega) hrest⟩

/-- A framed text of valid characters is decoded. -/
theorem exists_decodeGroups_of_framed : ∀ {s : Bytes}, Framed s →
    (∀ c ∈ s, isValidBase64 c = true) → ∃ data, decodeGroups s = .ok data
  | [], _, _ => ⟨[], rfl⟩
  | c0 :: c1 :: c2 :: c3 :: s, h, hvalid => by
      simp only [List.forall_mem_cons] at hvalid
      obtain ⟨-, -, h2, h3, hvalid⟩ := hvalid
      obtain ⟨bytes, hbytes⟩ := exists_decodeGroup_eq_ok h.1 h.2.1 h2 h3
      obtain ⟨data, hdata⟩ := exists_decodeGroups_of_framed h.2.2 hvalid
      refine ⟨bytes ++ data, ?_⟩
      rw [decodeGroups, hbytes, hdata]
      rfl

/-- Valid text of the right length goes to the groups. -/
theorem decodeBase64_of_valid {s : Bytes} (hlen : s.length % 4 = 0)
    (hvalid : ∀ c ∈ s, isValidBase64 c = true) : decodeBase64 s = decodeGroups s := by
  have hnone : s.find? (fun c => !isValidBase64 c) = none :=
    List.find?_eq_none.mpr fun c hc => by simp [hvalid c hc]
  rw [decodeBase64, hnone]
  exact if_pos hlen

/-- What is decoded was valid, of the right length, and decoded in groups. -/
theorem decodeBase64_ok {s data : Bytes} (h : decodeBase64 s = .ok data) :
    (∀ c ∈ s, isValidBase64 c = true) ∧ s.length % 4 = 0 ∧ decodeGroups s = .ok data := by
  have hvalid : ∀ c ∈ s, isValidBase64 c = true := fun c hc =>
    Bool.of_not_eq_false fun hno => decodeBase64_ne_ok hc hno data h
  have hlen : s.length % 4 = 0 := by
    by_contra hlen
    rw [decodeBase64] at h
    split at h
    · cases h
    · rw [if_neg hlen] at h
      cases h
  exact ⟨hvalid, hlen, decodeBase64_of_valid hlen hvalid ▸ h⟩

/-- **Padded base64 is decoded.** -/
theorem WellFormed.decodes {s : Bytes} (h : WellFormed s) : ∃ data, decodeBase64 s = .ok data := by
  obtain ⟨hlen, chars, pad, rfl, hchars, hpad⟩ := h
  have hshort : pad.length ≤ 2 ∧ ∀ c ∈ pad, isValidBase64 c = true := by
    have hall : ∀ pad ∈ [[], lit "=", lit "=="],
        pad.length ≤ 2 ∧ ∀ c ∈ pad, isValidBase64 c = true := by simp [lit, isValidBase64]
    exact hall pad hpad
  have hvalid : ∀ c ∈ chars ++ pad, isValidBase64 c = true := List.forall_mem_append.mpr
    ⟨fun c hc => (mem_alphabet_iff.mp (hchars c hc)).1, hshort.2⟩
  rw [decodeBase64_of_valid hlen hvalid]
  refine exists_decodeGroups_of_framed (framed_of_chars hlen fun c hc => hchars c ?_) hvalid
  rw [List.take_append_of_le_length (by rw [List.length_append]; omega)] at hc
  exact List.mem_of_mem_take hc

/-- A group has a byte at least. -/
theorem decodeGroup_ne_nil {c0 c1 c2 c3 : UInt8} : decodeGroup c0 c1 c2 c3 ≠ .ok [] := by
  rw [decodeGroup]
  dsimp only
  split_ifs <;> simp

/-- What is decoded to nothing was nothing. -/
theorem eq_nil_of_decodeBase64 {s : Bytes} (h : decodeBase64 s = .ok []) : s = [] := by
  rw [decodeBase64] at h
  split at h
  · cases h
  · split_ifs at h with hlen
    rcases s with _ | ⟨c0, _ | ⟨c1, _ | ⟨c2, _ | ⟨c3, s⟩⟩⟩⟩
    · rfl
    · exact absurd hlen (by simp)
    · exact absurd hlen (by simp)
    · exact absurd hlen (by simp)
    · rw [decodeGroups] at h
      cases hgroup : decodeGroup c0 c1 c2 c3 with
      | error e =>
        rw [hgroup] at h
        cases h
      | ok bytes =>
        rw [hgroup] at h
        cases hrest : decodeGroups s with
        | error e =>
          rw [hrest] at h
          cases h
        | ok data =>
          rw [hrest] at h
          obtain ⟨rfl, -⟩ := List.append_eq_nil_iff.mp (Except.ok.inj h)
          exact absurd hgroup decodeGroup_ne_nil

/-! ## What the decoder takes -/

/-- **What a group of four is decoded to.** -/
theorem decodeGroup_ok {c0 c1 c2 c3 : UInt8} {bytes : Bytes}
    (h : decodeGroup c0 c1 c2 c3 = .ok bytes) :
    c0 ∈ alphabet ∧ c1 ∈ alphabet ∧ bytes.length + [c2, c3].count '='.toUInt8 = 3 := by
  have hneg0 : ¬ decodeTable c0 < 0 := fun hneg => by
    rw [decodeGroup] at h
    exact nomatch h.symm.trans (if_pos (.inl hneg))
  have hneg1 : ¬ decodeTable c1 < 0 := fun hneg => by
    rw [decodeGroup] at h
    exact nomatch h.symm.trans (if_pos (.inr (.inl hneg)))
  refine ⟨mem_alphabet_of_decodeTable hneg0, mem_alphabet_of_decodeTable hneg1, ?_⟩
  rw [decodeGroup] at h
  dsimp only at h
  by_cases h2 : c2 = '='.toUInt8
  · by_cases h3 : c3 = '='.toUInt8
    · simp only [h2, h3, if_true] at h
      split_ifs at h
      obtain rfl := Except.ok.inj h
      simp [h2, h3]
    · simp only [h2, h3, if_true, if_false] at h
      split_ifs at h
      obtain rfl := Except.ok.inj h
      simp [h2, h3]
  · by_cases h3 : c3 = '='.toUInt8
    · simp only [h2, h3, if_true, if_false] at h
      split_ifs at h
      obtain rfl := Except.ok.inj h
      simp [h2, h3]
    · simp only [h2, h3, if_false] at h
      split_ifs at h
      obtain rfl := Except.ok.inj h
      simp [h2, h3]

/-- **What is decoded is in groups**, and each `=` takes one byte off. -/
theorem framed_of_decodeGroups : ∀ {s data : Bytes}, s.length % 4 = 0 →
    (∀ c ∈ s, isValidBase64 c = true) → decodeGroups s = .ok data →
      Framed s ∧ data.length + s.count '='.toUInt8 = 3 * (s.length / 4)
  | [], data, _, _, h => by
      obtain rfl := Except.ok.inj h
      exact ⟨trivial, rfl⟩
  | [_], _, hlen, _, _ => absurd hlen (by simp)
  | [_, _], _, hlen, _, _ => absurd hlen (by simp)
  | [_, _, _], _, hlen, _, _ => absurd hlen (by simp)
  | c0 :: c1 :: c2 :: c3 :: s, data, hlen, hvalid, h => by
      rw [decodeGroups] at h
      cases hgroup : decodeGroup c0 c1 c2 c3 with
      | error e =>
        rw [hgroup] at h
        exact nomatch h
      | ok bytes =>
        rw [hgroup] at h
        cases hrest : decodeGroups s with
        | error e =>
          rw [hrest] at h
          exact nomatch h
        | ok data' =>
          rw [hrest] at h
          obtain rfl : bytes ++ data' = data := Except.ok.inj h
          simp only [List.length_cons] at hlen
          simp only [List.forall_mem_cons] at hvalid
          obtain ⟨h0, h1, hbytes⟩ := decodeGroup_ok hgroup
          obtain ⟨hframed, hcount⟩ :=
            framed_of_decodeGroups (by omega) hvalid.2.2.2.2 hrest
          refine ⟨⟨h0, h1, hframed⟩, ?_⟩
          have hc0 : ¬ c0 = '='.toUInt8 := (mem_alphabet_iff.mp h0).2
          have hc1 : ¬ c1 = '='.toUInt8 := (mem_alphabet_iff.mp h1).2
          have hsplit : (c0 :: c1 :: c2 :: c3 :: s).count '='.toUInt8 =
              [c2, c3].count '='.toUInt8 + s.count '='.toUInt8 := by
            rw [List.count_cons_of_ne hc0, List.count_cons_of_ne hc1]
            exact (List.count_append : ([c2, c3] ++ s).count '='.toUInt8 = _)
          rw [hsplit, List.length_append]
          simp only [List.length_cons]
          omega

/-- **The decoder takes what is in groups**, of characters that are valid. -/
theorem decodes_iff {s : Bytes} :
    (∃ data, decodeBase64 s = .ok data) ↔ Framed s ∧ ∀ c ∈ s, isValidBase64 c = true := by
  constructor
  · rintro ⟨data, h⟩
    obtain ⟨hvalid, hlen, hgroups⟩ := decodeBase64_ok h
    exact ⟨(framed_of_decodeGroups hlen hvalid hgroups).1, hvalid⟩
  · rintro ⟨hframed, hvalid⟩
    obtain ⟨data, hdata⟩ := exists_decodeGroups_of_framed hframed hvalid
    exact ⟨data, decodeBase64_of_valid hframed.length hvalid ▸ hdata⟩

/-- A `=` is the last character, or the last but one and the last is one too. -/
def PadsAtEnd (s : Bytes) : Prop :=
  ∀ rest, '='.toUInt8 :: rest <:+ s → rest ∈ [[], lit "="]

/-- The decoder takes a text exactly if it is padded base64, and each `=` takes one byte off. -/
def DecodesExactly (s : Bytes) : Prop :=
  ((∃ data, decodeBase64 s = .ok data) ↔ WellFormed s) ∧
    ∀ data, decodeBase64 s = .ok data → data.length = 3 * s.length / 4 - s.count '='.toUInt8

/-- Of four characters come three bytes, less one for each padding. -/
theorem length_of_decodeBase64 {s data : Bytes} (h : decodeBase64 s = .ok data) :
    data.length = 3 * s.length / 4 - s.count '='.toUInt8 := by
  obtain ⟨hvalid, hlen, hgroups⟩ := decodeBase64_ok h
  have hcount := (framed_of_decodeGroups hlen hvalid hgroups).2
  omega

/-- **Padded base64** is what is in groups, valid, and padded at its end. -/
theorem wellFormed_iff {s : Bytes} :
    WellFormed s ↔ (Framed s ∧ ∀ c ∈ s, isValidBase64 c = true) ∧ PadsAtEnd s := by
  constructor
  · intro h
    refine ⟨decodes_iff.mp h.decodes, ?_⟩
    obtain ⟨-, chars, pad, rfl, hchars, hpad⟩ := h
    rintro rest ⟨front, hfront⟩
    have hin : '='.toUInt8 ∉ chars := fun hmem => (mem_alphabet_iff.mp (hchars _ hmem)).2 rfl
    have hsuffix : '='.toUInt8 :: rest <:+ pad := by
      rcases List.append_eq_append_iff.mp hfront with ⟨between, rfl, hrest⟩ | ⟨between, rfl, hrest⟩
      · cases between with
        | nil => exact ⟨[], hrest⟩
        | cons c between =>
          obtain rfl := (List.cons.inj hrest).1
          exact absurd (List.mem_append_right _ List.mem_cons_self) hin
      · exact ⟨between, hrest.symm⟩
    simp only [List.mem_cons, List.not_mem_nil, or_false] at hpad
    rcases hpad with rfl | rfl | rfl
    · exact absurd hsuffix (by simp)
    · have hrest : rest = [] := by simpa [lit, List.suffix_cons_iff] using hsuffix
      simp [hrest]
    · have hrest : rest = lit "=" ∨ rest = [] := by
        simpa [lit, List.suffix_cons_iff] using hsuffix
      rcases hrest with rfl | rfl
      · simp
      · simp
  · rintro ⟨⟨hframed, hvalid⟩, hpads⟩
    refine ⟨hframed.length, s.takeWhile (· ≠ '='.toUInt8), s.dropWhile (· ≠ '='.toUInt8),
      (List.takeWhile_append_dropWhile ..).symm, fun c hc => ?_, ?_⟩
    · have hne := List.mem_takeWhile_imp hc
      exact mem_alphabet_iff.mpr
        ⟨hvalid c ((List.takeWhile_prefix _).subset hc), by simpa using hne⟩
    · cases hrest : s.dropWhile (· ≠ '='.toUInt8) with
      | nil => simp
      | cons c rest =>
        have hne : s.dropWhile (· ≠ '='.toUInt8) ≠ [] := hrest ▸ List.cons_ne_nil c rest
        have hhead := List.head_dropWhile_not (· ≠ '='.toUInt8) hne
        simp only [hrest, List.head_cons, decide_eq_false_iff_not, not_not] at hhead
        subst hhead
        have hlast := hpads rest (hrest ▸ List.dropWhile_suffix _)
        simp only [List.mem_cons, List.not_mem_nil, or_false] at hlast
        rcases hlast with rfl | rfl
        · simp [lit]
        · simp [lit]

/-- Exactness is a matter of the padding. -/
theorem decodesExactly_iff (s : Bytes) :
    DecodesExactly s ↔ (Framed s → (∀ c ∈ s, isValidBase64 c = true) → PadsAtEnd s) := by
  constructor
  · rintro ⟨hiff, -⟩ hframed hvalid
    exact (wellFormed_iff.mp (hiff.mp (decodes_iff.mpr ⟨hframed, hvalid⟩))).2
  · intro hpads
    refine ⟨⟨fun h => ?_, WellFormed.decodes⟩, fun data => length_of_decodeBase64⟩
    have hvalid := decodes_iff.mp h
    exact wellFormed_iff.mpr ⟨hvalid, hpads hvalid.1 hvalid.2⟩

/-- Padding in the middle. -/
theorem not_decodesExactly_padded : ¬ DecodesExactly (lit "QQ==QUJD") := by
  rintro ⟨hiff, -⟩
  obtain ⟨-, chars, pad, heq, hchars, hpad⟩ := hiff.mp ⟨lit "AABC", by decide⟩
  have hsuffix : PadsAtEnd (lit "QQ==QUJD") :=
    (wellFormed_iff.mp ⟨by decide, chars, pad, heq, hchars, hpad⟩).2
  exact absurd (hsuffix (lit "=QUJD") ⟨lit "QQ", rfl⟩) (by decide)

end MailStack.Base64
