import MailStack.Base64.Format
import MailStack.Mime.Subject
import MailStack.Mime.Termination

/-!
# Mime/EncodedWords — `DecodeEncodedWord`, word by word

What the loop makes of a text is what it makes of the first encoded word, and of what follows
(`decodeRest_of_word`).  A word that `EncodeHeader` wrote is found where it stands, and the words of
a name give the name back (`decodeRest_words`).
-/

open Bytes MailStack.Base64 Search

namespace MailStack.Mime

/-! ## One word -/

/-- The encoding and the text of the word behind `=?`, and what follows it. -/
def wordBehind (s : Bytes) : Option (Bytes × Bytes × Bytes) :=
  match cut '?'.toUInt8 s with
  | none => none
  | some (_, s₁) =>
    match cut '?'.toUInt8 s₁ with
    | none => none
    | some (encoding, s₂) => (cutSub (lit "?=") s₂).map fun p => (encoding, p)

/-- What the loop of `DecodeEncodedWord` makes of the rest of a text. -/
def decodeRest (foundAnyEncoded : Bool) (s : Bytes) : Bytes :=
  (decodeLoop s.length s foundAnyEncoded []).1

section Word

variable {s gap rest rest' encoding text result : Bytes} {found : Bool} {n : ℕ}

/-- An encoded word is read from its three question marks and its end. -/
theorem wordBehind_eq_some_iff : wordBehind s = some (encoding, text, rest) ↔
    ∃ charset s₁ s₂, cut '?'.toUInt8 s = some (charset, s₁) ∧
      cut '?'.toUInt8 s₁ = some (encoding, s₂) ∧ cutSub (lit "?=") s₂ = some (text, rest) := by
  rw [wordBehind]
  cases hcharset : cut '?'.toUInt8 s with
  | none => simp
  | some p =>
    dsimp only
    cases hencoding : cut '?'.toUInt8 p.2 with
    | none =>
      refine iff_of_false (fun h => nomatch h) ?_
      rintro ⟨charset, s₁, s₂, hp, h₁, -⟩
      obtain rfl := Option.some.inj hp
      exact nomatch hencoding.symm.trans h₁
    | some q =>
      dsimp only
      rw [Option.map_eq_some_iff]
      constructor
      · rintro ⟨t, ht, heq⟩
        obtain ⟨rfl, rfl⟩ := Prod.mk.inj heq
        exact ⟨p.1, p.2, q.2, rfl, hencoding, ht⟩
      · rintro ⟨charset, s₁, s₂, hp, h₁, h₂⟩
        obtain rfl := Option.some.inj hp
        obtain rfl := Option.some.inj (hencoding.symm.trans h₁)
        exact ⟨_, h₂, rfl⟩

/-- **The word, written out.** -/
theorem eq_of_wordBehind (h : wordBehind s = some (encoding, text, rest)) : ∃ charset,
    s = charset ++ lit "?" ++ encoding ++ lit "?" ++ text ++ lit "?=" ++ rest := by
  obtain ⟨charset, s₁, s₂, h₀, h₁, h₂⟩ := wordBehind_eq_some_iff.mp h
  refine ⟨charset, ?_⟩
  rw [(cut_eq_some_iff.mp h₀).1, (cut_eq_some_iff.mp h₁).1, eq_of_cutSub h₂]
  simp [lit]

/-- What a word is read from is longer than its parts. -/
theorem length_lt_of_wordBehind (h : wordBehind s = some (encoding, text, rest)) :
    encoding.length + text.length + rest.length + 4 ≤ s.length := by
  obtain ⟨charset, rfl⟩ := eq_of_wordBehind h
  have hone : (lit "?").length = 1 := rfl
  have htwo : (lit "?=").length = 2 := rfl
  simp only [List.length_append, hone, htwo]
  omega

/-- What follows does not matter to a word that is complete. -/
theorem wordBehind_append (h : wordBehind s = some (encoding, text, rest)) (t : Bytes) :
    wordBehind (s ++ t) = some (encoding, text, rest ++ t) := by
  obtain ⟨charset, s₁, s₂, h₀, h₁, h₂⟩ := wordBehind_eq_some_iff.mp h
  obtain ⟨rfl, hcharset⟩ := cut_eq_some_iff.mp h₀
  obtain ⟨rfl, hencoding⟩ := cut_eq_some_iff.mp h₁
  refine wordBehind_eq_some_iff.mpr ⟨charset, _, s₂ ++ t, cut_eq_some_iff.mpr ⟨?_, hcharset⟩,
    cut_eq_some_iff.mpr ⟨rfl, hencoding⟩, cutSub_append_right h₂⟩
  simp only [List.append_assoc, List.cons_append]

/-- **An iteration** takes one word. -/
theorem decodeLoop_succ (hs : s ≠ []) : decodeLoop (n + 1) s found result =
    match cutSub (lit "=?") s with
    | none => (result ++ keepGap found s, found)
    | some (gap, rest) =>
      match wordBehind rest with
      | none => (result ++ keepGap found gap ++ lit "=?" ++ rest, found)
      | some (encoding, text, rest') =>
        decodeLoop n rest' true (result ++ keepGap found gap ++ decodePart encoding text) := by
  obtain ⟨c, s, rfl⟩ := List.exists_cons_of_ne_nil hs
  rw [decodeLoop]
  cases cutSub (lit "=?") (c :: s) with
  | none => rfl
  | some p =>
    dsimp only
    rw [wordBehind]
    cases cut '?'.toUInt8 p.2 with
    | none => rfl
    | some p₁ =>
      dsimp only
      cases cut '?'.toUInt8 p₁.2 with
      | none => rfl
      | some p₂ =>
        dsimp only
        cases cutSub (lit "?=") p₂.2 with
        | none => rfl
        | some p₃ => rfl

/-- The loop adds to what there is. -/
theorem decodeLoop_result : ∀ (n : ℕ) (s : Bytes) (found : Bool) (result : Bytes),
    decodeLoop n s found result =
      (result ++ (decodeLoop n s found []).1, (decodeLoop n s found []).2)
  | 0, s, found, result => by simp [decodeLoop]
  | n + 1, s, found, result => by
      rcases eq_or_ne s [] with rfl | hs
      · simp [decodeLoop]
      · rw [decodeLoop_succ hs, decodeLoop_succ hs]
        cases cutSub (lit "=?") s with
        | none => rfl
        | some p =>
          dsimp only
          cases wordBehind p.2 with
          | none => simp only [List.append_assoc, List.nil_append]
          | some w =>
            dsimp only
            rw [decodeLoop_result n, decodeLoop_result n _ _ ([] ++ _ ++ _)]
            simp only [List.append_assoc, List.nil_append]

/-- Once a word is found it stays found. -/
theorem decodeLoop_found : ∀ (n : ℕ) (s result : Bytes), (decodeLoop n s true result).2 = true
  | 0, _, _ => rfl
  | n + 1, s, result => by
      rcases eq_or_ne s [] with rfl | hs
      · rfl
      · rw [decodeLoop_succ hs]
        cases cutSub (lit "=?") s with
        | none => rfl
        | some p =>
          dsimp only
          cases wordBehind p.2 with
          | none => rfl
          | some w => exact decodeLoop_found n _ _

theorem ne_nil_of_cutSub (hcut : cutSub (lit "=?") s = some (gap, rest)) : s ≠ [] := by
  rintro rfl
  exact nomatch hcut

/-- A text without an opening is kept. -/
theorem decodeRest_of_plain (h : cutSub (lit "=?") s = none) :
    decodeRest found s = keepGap found s := by
  cases s with
  | nil => cases found <;> rfl
  | cons c s =>
    rw [decodeRest, List.length_cons, decodeLoop_succ (List.cons_ne_nil c s), h]
    rfl

/-- An opening that begins no word is kept. -/
theorem decodeRest_of_open (hcut : cutSub (lit "=?") s = some (gap, rest))
    (h : wordBehind rest = none) :
    decodeRest found s = keepGap found gap ++ lit "=?" ++ rest := by
  obtain ⟨n, hn⟩ := Nat.exists_eq_succ_of_ne_zero
    (Nat.ne_of_gt (List.length_pos_of_ne_nil (ne_nil_of_cutSub hcut)))
  rw [decodeRest, hn, decodeLoop_succ (ne_nil_of_cutSub hcut), hcut]
  dsimp only
  rw [h]
  rfl

/-- **The first word of a text**, and what follows. -/
theorem decodeRest_of_word (hcut : cutSub (lit "=?") s = some (gap, rest))
    (h : wordBehind rest = some (encoding, text, rest')) :
    decodeRest found s = keepGap found gap ++ decodePart encoding text ++ decodeRest true rest' := by
  obtain ⟨n, hn⟩ := Nat.exists_eq_succ_of_ne_zero
    (Nat.ne_of_gt (List.length_pos_of_ne_nil (ne_nil_of_cutSub hcut)))
  have hrest := (length_lt_of_cutSub (List.cons_ne_nil _ _) hcut).2
  have hword := length_lt_of_wordBehind h
  rw [decodeRest, hn, decodeLoop_succ (ne_nil_of_cutSub hcut), hcut]
  dsimp only
  rw [h]
  dsimp only
  rw [decodeLoop_result, decodeLoop_fuel (m := rest'.length) (by omega) (Nat.le_refl _)]
  rfl

/-- The whole text, where there is a word in it. -/
theorem decodeEncodedWord_of_word (hcut : cutSub (lit "=?") s = some (gap, rest))
    (h : wordBehind rest = some (encoding, text, rest')) :
    decodeEncodedWord s = decodeRest false s := by
  have hfound : (decodeLoop s.length s false []).2 = true := by
    obtain ⟨n, hn⟩ := Nat.exists_eq_succ_of_ne_zero
      (Nat.ne_of_gt (List.length_pos_of_ne_nil (ne_nil_of_cutSub hcut)))
    rw [hn, decodeLoop_succ (ne_nil_of_cutSub hcut), hcut]
    dsimp only
    rw [h]
    exact decodeLoop_found n _ _
  have hloop : decodeLoop s.length s false [] = (decodeRest false s, true) := Prod.ext rfl hfound
  rw [decodeEncodedWord, hloop]
  rfl

theorem length_keepGap_le (found : Bool) (gap : Bytes) : (keepGap found gap).length ≤ gap.length := by
  rw [keepGap]
  split_ifs
  · exact Nat.le_refl _
  · exact Nat.zero_le _

/-- A gap that is not blank is kept. -/
theorem keepGap_of_mem {c : UInt8} (hc : c ∈ gap) (hblank : isBlank c = false) :
    keepGap found gap = gap :=
  if_pos (Bool.or_eq_true_iff.mpr (.inr (List.any_eq_true.mpr ⟨c, hc, by simp [hblank]⟩)))

/-- Decoding makes no text longer. -/
theorem length_decodePart_le (encoding text : Bytes) :
    (decodePart encoding text).length ≤ text.length := by
  rw [decodePart]
  split_ifs
  · exact length_decodeQEncoding_le text
  · cases hdecoded : decodeBase64 text with
    | error e => exact Nat.le_refl _
    | ok bytes =>
      have hlength := length_of_decodeBase64 hdecoded
      dsimp only
      omega
  · exact Nat.le_refl _

/-- A text that is kept whatever was found before it, and that starts no word. -/
theorem decodeRest_append {c : UInt8} (hc : c ∈ gap) (hblank : isBlank c = false)
    (hstart : '='.toUInt8 ∉ gap) (s : Bytes) :
    decodeRest found (gap ++ s) = gap ++ decodeRest false s := by
  have hkeep : ∀ t, keepGap found (gap ++ t) = gap ++ t := fun t =>
    keepGap_of_mem (List.mem_append_left t hc) hblank
  have hcut := cutSub_append (d := lit "=?") rfl s hstart
  cases hs : cutSub (lit "=?") s with
  | none =>
    rw [hs] at hcut
    rw [decodeRest_of_plain hcut, decodeRest_of_plain hs, hkeep]
    rfl
  | some p =>
    rw [hs] at hcut
    cases hword : wordBehind p.2 with
    | none =>
      rw [decodeRest_of_open hcut hword, decodeRest_of_open hs hword, hkeep]
      simp only [List.append_assoc]
      rfl
    | some w =>
      rw [decodeRest_of_word hcut hword, decodeRest_of_word hs hword, hkeep]
      simp only [List.append_assoc]
      rfl

/-! ### Where a word is complete -/

/-- There is a complete word in the text. -/
def HoldsWord (s : Bytes) : Prop :=
  ∃ front charset encoding text back,
    s = front ++ lit "=?" ++ charset ++ lit "?" ++ encoding ++ lit "?" ++ text ++ lit "?=" ++ back

/-- A text with the separator in it is cut. -/
theorem exists_cut (c : UInt8) (t : Bytes) :
    ∀ s : Bytes, ∃ a b, cut c (s ++ c :: t) = some (a, b ++ t)
  | [] => ⟨[], [], if_pos rfl⟩
  | x :: s => by
      obtain ⟨a, b, hcut⟩ := exists_cut c t s
      rw [List.cons_append, cut]
      split_ifs
      · exact ⟨[], s ++ [c], by simp⟩
      · exact ⟨x :: a, b, by rw [hcut]; rfl⟩

/-- So is a text with the delimiter in it. -/
theorem exists_cutSub (d t : Bytes) :
    ∀ s : Bytes, ∃ a b, cutSub d (s ++ (d ++ t)) = some (a, b ++ t)
  | [] => ⟨[], [], cutSub_of_prefix d t⟩
  | x :: s => by
      obtain ⟨a, b, hcut⟩ := exists_cutSub d t s
      by_cases hstart : d <+: x :: (s ++ (d ++ t))
      · have hle : d.length ≤ (x :: s ++ d).length := by
          rw [List.length_append]
          exact Nat.le_add_left ..
        refine ⟨[], (x :: s ++ d).drop d.length, ?_⟩
        rw [List.cons_append, cutSub, if_pos (List.isPrefixOf_iff_prefix.mpr hstart),
          ← List.drop_append_of_le_length hle]
        simp only [List.cons_append, List.append_assoc]
      · exact ⟨x :: a, b, by rw [List.cons_append, cutSub_cons hstart, hcut]; rfl⟩

/-- The loop finds a word exactly where there is one. -/
theorem holdsWord_iff {s : Bytes} : HoldsWord s ↔
    ∃ gap rest word, cutSub (lit "=?") s = some (gap, rest) ∧ wordBehind rest = some word := by
  constructor
  · rintro ⟨front, charset, encoding, text, back, rfl⟩
    have hassoc : front ++ lit "=?" ++ charset ++ lit "?" ++ encoding ++ lit "?" ++ text ++
        lit "?=" ++ back = front ++ (lit "=?" ++ (charset ++ '?'.toUInt8 :: (encoding ++
          '?'.toUInt8 :: (text ++ (lit "?=" ++ back))))) := by
      simp only [List.append_assoc]
      rfl
    obtain ⟨gap, w, hgap⟩ := exists_cutSub (lit "=?") _ front
    obtain ⟨charset', w₁, h₁⟩ := exists_cut '?'.toUInt8
      (encoding ++ '?'.toUInt8 :: (text ++ (lit "?=" ++ back))) (w ++ charset)
    obtain ⟨encoding', w₂, h₂⟩ := exists_cut '?'.toUInt8 (text ++ (lit "?=" ++ back))
      (w₁ ++ encoding)
    obtain ⟨text', w₃, h₃⟩ := exists_cutSub (lit "?=") back (w₂ ++ text)
    rw [List.append_assoc] at h₁ h₂ h₃
    exact ⟨gap, _, _, hassoc ▸ hgap, wordBehind_eq_some_iff.mpr ⟨charset', _, _, h₁, h₂, h₃⟩⟩
  · rintro ⟨gap, rest, ⟨encoding, text, back⟩, hcut, hword⟩
    obtain ⟨charset, rfl⟩ := eq_of_wordBehind hword
    refine ⟨gap, charset, encoding, text, back, ?_⟩
    rw [eq_of_cutSub hcut]
    simp only [List.append_assoc]

end Word

/-! ## Text in quoted-printable -/

section Quoted

variable {c x : UInt8}

theorem hasQpArtifacts_cons (hc : c ≠ '='.toUInt8) (s : Bytes) :
    hasQpArtifacts (c :: s) = hasQpArtifacts s := by
  match s with
  | [] => rfl
  | [_] => rfl
  | c1 :: c2 :: s => rw [hasQpArtifacts, decide_eq_false hc, Bool.false_and, Bool.false_and,
      Bool.false_or]

/-- A text without an equals sign has no artifact. -/
theorem hasQpArtifacts_append (t : Bytes) : ∀ {s : Bytes}, '='.toUInt8 ∉ s →
    hasQpArtifacts (s ++ t) = hasQpArtifacts t
  | [], _ => rfl
  | c :: s, hs => by
      rw [List.mem_cons, not_or] at hs
      rw [List.cons_append, hasQpArtifacts_cons (Ne.symm hs.1), hasQpArtifacts_append t hs.2]

theorem decodeQEncoding_one (c : UInt8) :
    decodeQEncoding [c] = [if c = '_'.toUInt8 then ' '.toUInt8 else c] := by simp [decodeQEncoding]

theorem decodeQEncoding_two (c c1 : UInt8) : decodeQEncoding [c, c1] =
    (if c = '_'.toUInt8 then ' '.toUInt8 else c) :: decodeQEncoding [c1] := by
  simp [decodeQEncoding]

/-- Nothing but a blank is new, where there is nothing to decode. -/
theorem mem_of_mem_decodeQEncoding : ∀ {s : Bytes}, hasQpArtifacts s = false →
    x ∈ decodeQEncoding s → x ∈ s ∨ x = ' '.toUInt8
  | [], _, hx => absurd hx List.not_mem_nil
  | [c], _, hx => by
      rw [decodeQEncoding_one, List.mem_singleton] at hx
      split_ifs at hx
      · exact .inr hx
      · exact .inl (List.mem_singleton.mpr hx)
  | [c, c1], _, hx => by
      simp only [decodeQEncoding_two, decodeQEncoding_one, List.mem_cons, List.not_mem_nil,
        or_false] at hx ⊢
      split_ifs at hx <;> tauto
  | c :: c1 :: c2 :: s, h, hx => by
      rw [hasQpArtifacts, Bool.or_eq_false_iff] at h
      obtain ⟨hhere, hrest⟩ := h
      have ih := mem_of_mem_decodeQEncoding (s := c1 :: c2 :: s) hrest
      have hnot : ¬ (c = '='.toUInt8 ∧ isHex c1 = true ∧ isHex c2 = true) := by
        rintro ⟨rfl, h1, h2⟩
        simp [h1, h2] at hhere
      rw [decodeQEncoding, if_neg hnot] at hx
      split_ifs at hx
      · rcases List.mem_cons.mp hx with rfl | hx
        · exact .inr rfl
        · exact (ih hx).imp_left (List.mem_cons_of_mem _)
      · rcases List.mem_cons.mp hx with rfl | hx
        · exact .inl List.mem_cons_self
        · exact (ih hx).imp_left (List.mem_cons_of_mem _)

/-- A plain character stands for itself. -/
theorem decodeQEncoding_cons (hblank : c ≠ '_'.toUInt8) (hc : c ≠ '='.toUInt8) (s : Bytes) :
    decodeQEncoding (c :: s) = c :: decodeQEncoding s := by
  match s with
  | [] => rw [decodeQEncoding_one, if_neg hblank, decodeQEncoding]
  | [c1] => rw [decodeQEncoding_two, if_neg hblank]
  | c1 :: c2 :: s => rw [decodeQEncoding, if_neg hblank, if_neg fun h => hc h.1]

/-- Text is decoded on both sides of a symbol that no code has in it. -/
theorem decodeQEncoding_append_cons (hblank : c ≠ '_'.toUInt8) (hc : c ≠ '='.toUInt8)
    (hhex : isHex c = false) (t : Bytes) : ∀ s : Bytes,
      decodeQEncoding (s ++ c :: t) = decodeQEncoding s ++ c :: decodeQEncoding t
  | [] => decodeQEncoding_cons hblank hc t
  | [x] => by
      have hnot : ∀ d, ¬ (x = '='.toUInt8 ∧ isHex c = true ∧ isHex d = true) := fun d h => by
        simp [hhex] at h
      have ih := decodeQEncoding_cons hblank hc t
      rw [decodeQEncoding_one]
      cases t with
      | nil =>
        rw [List.singleton_append, decodeQEncoding_two, ih]
        rfl
      | cons d t =>
        rw [List.singleton_append, decodeQEncoding, if_neg (hnot d), ih]
        split_ifs <;> rfl
  | [x, y] => by
      have hnot : ¬ (x = '='.toUInt8 ∧ isHex y = true ∧ isHex c = true) := fun h => by
        simp [hhex] at h
      have ih := decodeQEncoding_append_cons hblank hc hhex t [y]
      rw [List.singleton_append] at ih
      rw [List.cons_append, List.singleton_append, decodeQEncoding, if_neg hnot, ih,
        decodeQEncoding_two]
      split_ifs <;> rfl
  | x :: y :: z :: s => by
      have ih := decodeQEncoding_append_cons hblank hc hhex t (y :: z :: s)
      have ihs := decodeQEncoding_append_cons hblank hc hhex t s
      simp only [List.cons_append] at ih ⊢
      rw [decodeQEncoding, decodeQEncoding, ih, ihs]
      split_ifs <;> rfl

end Quoted

/-! ## The words of a name -/

section Words

variable {chunk rest gap : Bytes} {chunks : List Bytes} {found : Bool}

/-- An encoded chunk has no character outside of the alphabet. -/
theorem notMem_chunkBytes (hchunk : IsChunk chunk) {c : UInt8} (hc : isValidBase64 c = false) :
    c ∉ chunkBytes 0 chunk := fun h =>
  absurd (hchunk.isValidBase64 c h) (by simp [hc])

/-- The word is found where it stands. -/
theorem wordBehind_chunkBytes (hchunk : IsChunk chunk) (rest : Bytes) :
    wordBehind (lit "UTF-8?B?" ++ chunkBytes 0 chunk ++ lit "?=" ++ rest) =
      some (lit "B", chunkBytes 0 chunk, rest) := by
  have htext : cutSub (lit "?=") (chunkBytes 0 chunk ++ (lit "?=" ++ rest)) =
      some (chunkBytes 0 chunk, rest) := by
    rw [cutSub_append rfl _ (notMem_chunkBytes hchunk (by decide)), cutSub_of_prefix]
    exact congrArg some (Prod.ext (List.append_nil _) rfl)
  refine wordBehind_eq_some_iff.mpr ⟨lit "UTF-8",
    lit "B?" ++ (chunkBytes 0 chunk ++ (lit "?=" ++ rest)), _, cut_eq_some_iff.mpr ⟨?_, by decide⟩,
    cut_eq_some_iff.mpr ⟨rfl, by decide⟩, htext⟩
  simp only [List.append_assoc]
  rfl

/-- **An encoded chunk decodes to itself.** -/
theorem decodePart_chunkBytes (hchunk : IsChunk chunk) :
    decodePart (lit "B") (chunkBytes 0 chunk) = chunk := by
  have hback := decodeBase64_chunkBytes chunk
  rw [eraseBreaks_of_noBreak (noBreak_of_isValidBase64 hchunk.isValidBase64)] at hback
  rw [decodePart, if_neg (by decide), if_pos (by decide), hback]

/-- A text behind which a word is found where it stands. -/
def Opens (gap : Bytes) : Prop :=
  gap = [] ∨ ∃ g c, gap = g ++ [c] ∧ isBlank c = true ∧ ¬ lit "=?" <:+: g

theorem notMem_of_isBlank {c : UInt8} (hc : isBlank c = true) : c ∉ lit "=?" := by
  intro h
  have hnone : (lit "=?").any isBlank = false := rfl
  exact absurd hc (by simpa using List.any_eq_false.mp hnone c h)

/-- **A word behind a gap.** -/
theorem decodeRest_wordOf (hchunk : IsChunk chunk) (hgap : Opens gap) (rest : Bytes) :
    decodeRest found (gap ++ (wordOf chunk ++ rest)) =
      keepGap found gap ++ chunk ++ decodeRest true rest := by
  have hword : wordOf chunk ++ rest =
      lit "=?" ++ (lit "UTF-8?B?" ++ chunkBytes 0 chunk ++ lit "?=" ++ rest) := by
    rw [wordOf, encodedWord]
    simp only [List.append_assoc]
    rfl
  have hcut : cutSub (lit "=?") (gap ++ (wordOf chunk ++ rest)) =
      some (gap, lit "UTF-8?B?" ++ chunkBytes 0 chunk ++ lit "?=" ++ rest) := by
    rw [hword]
    rcases hgap with rfl | ⟨g, c, rfl, hc, hg⟩
    · exact cutSub_of_prefix _ _
    · rw [List.append_assoc]
      exact cutSub_append_cons (notMem_of_isBlank hc) hg
  rw [decodeRest_of_word hcut (wordBehind_chunkBytes hchunk rest), decodePart_chunkBytes hchunk]

/-- What may stand between the words of a text. -/
def IsSeparator (separator : Bytes) : Prop :=
  separator ≠ [] ∧ ∀ c ∈ separator, isBlank c = true

/-- Behind a separator a word is found where it stands. -/
theorem IsSeparator.opens {separator : Bytes} (h : IsSeparator separator) : Opens separator := by
  have hlast := List.dropLast_concat_getLast h.1
  refine .inr ⟨_, _, hlast.symm, h.2 _ (List.getLast_mem h.1), fun h' => ?_⟩
  have hmem : '='.toUInt8 ∈ separator :=
    (List.dropLast_sublist separator).subset (List.IsInfix.subset h' (by decide))
  exact absurd (h.2 _ hmem) (by decide)

/-- A separator between two words is dropped. -/
theorem IsSeparator.keepGap {separator : Bytes} (h : IsSeparator separator) :
    keepGap true separator = [] := by
  have hnone : separator.any (!isBlank ·) = false :=
    List.any_eq_false.mpr fun c hc => by simp [h.2 c hc]
  rw [Mime.keepGap, hnone]
  rfl

section Separator

variable {separator : Bytes} (hsep : IsSeparator separator)
include hsep

/-- Blanks between words are dropped. -/
theorem decodeRest_flatMap : ∀ {chunks : List Bytes}, (∀ chunk ∈ chunks, IsChunk chunk) →
    ∀ rest, decodeRest true (chunks.flatMap (separator ++ wordOf ·) ++ rest) =
      chunks.flatten ++ decodeRest true rest
  | [], _, _ => rfl
  | chunk :: chunks, hchunks, rest => by
      obtain ⟨hchunk, hchunks⟩ := List.forall_mem_cons.mp hchunks
      have hword := @decodeRest_wordOf chunk separator true hchunk hsep.opens
        (chunks.flatMap (separator ++ wordOf ·) ++ rest)
      rw [List.flatMap_cons, List.append_assoc, List.append_assoc, hword,
        decodeRest_flatMap hchunks, List.flatten_cons, hsep.keepGap]
      simp only [List.append_assoc, List.nil_append]

/-- **The words of a text**, behind a gap, give the text back. -/
theorem decodeRest_words (hne : chunks ≠ []) (hchunks : ∀ chunk ∈ chunks, IsChunk chunk)
    (hgap : Opens gap) (rest : Bytes) :
    decodeRest found (gap ++ (words separator chunks ++ rest)) =
      keepGap found gap ++ chunks.flatten ++ decodeRest true rest := by
  obtain ⟨chunk, chunks, rfl⟩ := List.exists_cons_of_ne_nil hne
  obtain ⟨hchunk, hchunks⟩ := List.forall_mem_cons.mp hchunks
  rw [words, List.append_assoc, decodeRest_wordOf hchunk hgap, decodeRest_flatMap hsep hchunks,
    List.flatten_cons]
  simp only [List.append_assoc]

/-- **The words of a text give it back.** -/
theorem decodeEncodedWord_words (hne : chunks ≠ []) (hchunks : ∀ chunk ∈ chunks, IsChunk chunk)
    (rest : Bytes) : decodeEncodedWord (words separator chunks ++ rest) =
      chunks.flatten ++ decodeRest true rest := by
  have hwords : decodeRest false ([] ++ (words separator chunks ++ rest)) =
      [] ++ chunks.flatten ++ decodeRest true rest :=
    decodeRest_words hsep hne hchunks (.inl rfl) rest
  obtain ⟨chunk, chunks, rfl⟩ := List.exists_cons_of_ne_nil hne
  have hword : words separator (chunk :: chunks) ++ rest = lit "=?" ++ (lit "UTF-8?B?" ++
      chunkBytes 0 chunk ++ lit "?=" ++ (chunks.flatMap (separator ++ wordOf ·) ++ rest)) := by
    rw [words, wordOf, encodedWord]
    simp only [List.append_assoc]
    rfl
  have hcut := cutSub_of_prefix (lit "=?") (lit "UTF-8?B?" ++ chunkBytes 0 chunk ++ lit "?=" ++
    (chunks.flatMap (separator ++ wordOf ·) ++ rest))
  rw [← hword] at hcut
  rw [decodeEncodedWord_of_word hcut
    (wordBehind_chunkBytes (List.forall_mem_cons.mp hchunks).1 _)]
  exact hwords

end Separator

end Words

end MailStack.Mime
