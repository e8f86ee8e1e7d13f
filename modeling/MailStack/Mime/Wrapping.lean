import MailStack.Machinery.Lines
import MailStack.Mime.Utf8

/-!
# Mime/Wrapping — the lines of `WrapText`

A line takes from the text what it holds and what is dropped behind it, a break or a blank
(`wrapLine_spec`).  So the lines are a layout of the text: within the line length, without a break,
and all of the text but blanks (`wrapText_spec`).  A valid text is laid out in valid lines
(`wrapText_validUtf8`).  A line of just the line length is not taken for a whole one, even where
the next byte is its break (`wrapText_lines_iff`).
-/

open Bytes

namespace MailStack.Mime

variable {lineLength : ℕ} {s : Bytes}

/-! ## The loop ends -/

/-- What an iteration of the loop writes, and what is left of the text. -/
def wrapStep (lineLength : ℕ) : Bytes → Bytes × Bytes
  | [] => ([], [])
  | c :: s =>
    if isBreak c then (lit "\r\n", skipBreak (c :: s))
    else
      let line := (c :: s).takeWhile fun c => !isBreak c
      if line.length < min lineLength (c :: s).length then (line, (c :: s).drop line.length)
      else
        let (len, skip) := lineSplit lineLength (c :: s)
        ((c :: s).take len ++ lit "\r\n", (c :: s).drop (if skip then len + 1 else len))

/-- The loop ends, and has written the result. -/
inductive Wraps (lineLength : ℕ) : Bytes → Bytes → Prop
  | done : Wraps lineLength [] []
  | step {s result : Bytes} (hs : s ≠ []) (h : Wraps lineLength (wrapStep lineLength s).2 result) :
      Wraps lineLength s ((wrapStep lineLength s).1 ++ result)

/-- The loop is made of these iterations. -/
theorem wrapLoop_succ (n : ℕ) (hs : s ≠ []) : wrapLoop lineLength (n + 1) s =
    (wrapStep lineLength s).1 ++ wrapLoop lineLength n (wrapStep lineLength s).2 := by
  obtain ⟨c, s, rfl⟩ := List.exists_cons_of_ne_nil hs
  rw [wrapLoop, wrapStep]
  by_cases hc : isBreak c = true
  · rw [if_pos hc, if_pos hc]
    rfl
  · rw [if_neg hc, if_neg hc]
    dsimp only
    by_cases hlen : ((c :: s).takeWhile fun c => !isBreak c).length <
        min lineLength (c :: s).length
    · rw [if_pos hlen, if_pos hlen]
    · rw [if_neg hlen, if_neg hlen]

/-- **An iteration takes at least one byte.** -/
theorem length_wrapStep_lt (hline : 0 < lineLength) (hs : s ≠ []) :
    (wrapStep lineLength s).2.length < s.length := by
  have hsplit := lineSplit_pos hline hs
  obtain ⟨c, s, rfl⟩ := List.exists_cons_of_ne_nil hs
  rw [wrapStep]
  by_cases hc : isBreak c = true
  · have hle := (skipBreak_suffix (c :: s)).length_le
    rw [if_pos hc]
    exact Nat.lt_succ_of_le hle
  · have hpos : 0 < ((c :: s).takeWhile fun c => !isBreak c).length := by simp [hc]
    rw [if_neg hc]
    dsimp only
    by_cases hlen : ((c :: s).takeWhile fun c => !isBreak c).length <
        min lineLength (c :: s).length
    · rw [if_pos hlen, List.length_drop, List.length_cons]
      omega
    · rw [if_neg hlen, List.length_drop, List.length_cons]
      omega

/-- The loop wraps what is left of the text. -/
theorem wraps_wrapLoop (hline : 0 < lineLength) : ∀ {n : ℕ} {s : Bytes}, s.length ≤ n →
    Wraps lineLength s (wrapLoop lineLength n s)
  | _, [], _ => by
      rw [wrapLoop]
      exact .done
  | n + 1, c :: s, hn => by
      have hlt := length_wrapStep_lt hline (List.cons_ne_nil c s)
      rw [wrapLoop_succ n (List.cons_ne_nil c s)]
      exact .step (List.cons_ne_nil c s) (wraps_wrapLoop hline (by omega))

/-! ## What a line takes -/

/-- **Where a line is cut**: at its last blank, at the end of the text, or where `FindUtf8SafeEnd`
stops. -/
theorem lineSplit_cases (lineLength : ℕ) (s : Bytes) :
    (∃ front c back, s = front ++ c :: back ∧ lineSplit lineLength s = (front.length, true) ∧
        front.length < lineLength ∧ (c = ' '.toUInt8 ∨ c = '\t'.toUInt8)) ∨
      lineSplit lineLength s = (s.length, false) ∧ s.length ≤ lineLength ∨
        lineLength < s.length ∧ lineSplit lineLength s =
          (if findUtf8SafeEnd s 0 lineLength = 0 then lineLength
            else findUtf8SafeEnd s 0 lineLength, false) := by
  by_cases hlen : lineLength < s.length
  · have hlimit : min lineLength s.length = lineLength := Nat.min_eq_left hlen.le
    cases hfind : (s.take lineLength).reverse.findIdx?
        fun c => c = ' '.toUInt8 || c = '\t'.toUInt8 with
    | none =>
      refine .inr (.inr ⟨hlen, ?_⟩)
      rw [lineSplit, hlimit, hfind]
      dsimp only
      rw [if_neg (by omega)]
      split_ifs <;> rfl
    | some i =>
      obtain ⟨hi, hblank, -⟩ := List.findIdx?_eq_some_iff_getElem.mp hfind
      rw [List.length_reverse, List.length_take, hlimit] at hi
      have hin : lineLength - 1 - i < s.length := by omega
      rw [List.getElem_reverse, List.getElem_take] at hblank
      simp only [List.length_take, hlimit] at hblank
      refine .inl ⟨s.take (lineLength - 1 - i), s[lineLength - 1 - i],
        s.drop (lineLength - 1 - i + 1), ?_, ?_, ?_, by simpa using hblank⟩
      · rw [← List.drop_eq_getElem_cons hin, List.take_append_drop]
      · rw [lineSplit, hlimit, hfind, List.length_take, Nat.min_eq_left (by omega)]
        exact if_pos hlen
      · rw [List.length_take]
        omega
  · have hlimit : min lineLength s.length = s.length := Nat.min_eq_right (Nat.le_of_not_lt hlen)
    refine .inr (.inl ⟨?_, Nat.le_of_not_lt hlen⟩)
    rw [lineSplit, hlimit]
    split
    · exact if_neg (Nat.lt_irrefl _)
    · exact if_pos rfl

theorem isBreak_iff {c : UInt8} : isBreak c = true ↔ c = '\r'.toUInt8 ∨ c = '\n'.toUInt8 := by
  rw [isBreak, Bool.or_eq_true, decide_eq_true_eq, decide_eq_true_eq]

/-- A line break is a blank. -/
theorem isBlank_of_isBreak {c : UInt8} (hc : isBreak c = true) : isBlank c = true := by
  rcases isBreak_iff.mp hc with rfl | rfl
  · decide
  · decide

theorem noBreak_takeWhile (s : Bytes) : NoBreak (s.takeWhile fun c => !isBreak c) := by
  constructor
  · exact fun hc => absurd (List.mem_takeWhile_imp hc) (by decide)
  · exact fun hc => absurd (List.mem_takeWhile_imp hc) (by decide)

/-- What is skipped at a break are breaks. -/
theorem exists_skipBreak {c : UInt8} (hc : isBreak c = true) (s : Bytes) :
    ∃ gap, c :: s = gap ++ skipBreak (c :: s) ∧ gap ≠ [] ∧ ∀ b ∈ gap, isBreak b = true := by
  rw [skipBreak]
  split_ifs with hpair
  · obtain ⟨t, rfl⟩ := List.head?_eq_some_iff.mp hpair.2
    exact ⟨[c, '\n'.toUInt8], rfl, List.cons_ne_nil _ _,
      List.forall_mem_cons.mpr ⟨hc, List.forall_mem_singleton.mpr rfl⟩⟩
  · exact ⟨[c], rfl, List.cons_ne_nil _ _, List.forall_mem_singleton.mpr hc⟩

/-- The cut leaves the text in three parts: the line, a blank that goes, and the rest. -/
theorem lineSplit_spec (lineLength : ℕ) (s : Bytes) : ∃ gap,
    s = s.take (lineSplit lineLength s).1 ++ gap ++
        s.drop (if (lineSplit lineLength s).2 then (lineSplit lineLength s).1 + 1
          else (lineSplit lineLength s).1) ∧
      (lineSplit lineLength s).1 ≤ min lineLength s.length ∧ (∀ c ∈ gap, isBlank c = true) ∧
      (gap = [] → s.length ≤ (lineSplit lineLength s).1 ∨ lineLength < s.length ∧
        lineSplit lineLength s = (if findUtf8SafeEnd s 0 lineLength = 0 then lineLength
          else findUtf8SafeEnd s 0 lineLength, false)) := by
  rcases lineSplit_cases lineLength s with ⟨front, c, back, rfl, hsplit, hlt, hc⟩ | ⟨hsplit, hle⟩ |
    ⟨hlt, hsplit⟩
  · have hblank : isBlank c = true := by
      rcases hc with rfl | rfl
      · decide
      · decide
    have hback : (front ++ c :: back).drop (front.length + 1) = back := by
      rw [List.drop_append, List.drop_eq_nil_of_le (Nat.le_succ _), Nat.add_sub_cancel_left]
      rfl
    refine ⟨[c], ?_, ?_, List.forall_mem_singleton.mpr hblank, fun h => nomatch h⟩
    · rw [hsplit, if_pos rfl, List.take_left, hback, List.append_assoc]
      rfl
    · rw [hsplit, List.length_append]
      exact Nat.le_min.mpr ⟨hlt.le, Nat.le_add_right _ _⟩
  · refine ⟨[], ?_, ?_, by simp, fun _ => .inl (by rw [hsplit])⟩
    · rw [hsplit, if_neg Bool.false_ne_true, List.append_nil, List.take_append_drop]
    · rw [hsplit]
      exact Nat.le_min.mpr ⟨hle, Nat.le_refl _⟩
  · refine ⟨[], ?_, ?_, by simp, fun _ => .inr ⟨hlt, hsplit⟩⟩
    · rw [hsplit, if_neg Bool.false_ne_true, List.append_nil, List.take_append_drop]
    · have hstop := (findUtf8SafeEnd_le s 0 lineLength).1
      rw [hsplit, Nat.min_eq_left hlt.le]
      dsimp only
      split_ifs
      · exact Nat.le_refl _
      · omega

/-- **What a line takes from the text**: what it holds, and a gap of blanks behind it. -/
theorem wrapLine_spec (lineLength : ℕ) (s : Bytes) : ∃ gap,
    s = (wrapLine lineLength s).1 ++ gap ++ (wrapLine lineLength s).2 ∧
      NoBreak (wrapLine lineLength s).1 ∧ (wrapLine lineLength s).1.length ≤ lineLength ∧
      (∀ c ∈ gap, isBlank c = true) ∧
      (gap = [] → (wrapLine lineLength s).2 = [] ∨ lineLength < s.length ∧
        (wrapLine lineLength s).2 = s.drop (if findUtf8SafeEnd s 0 lineLength = 0 then lineLength
          else findUtf8SafeEnd s 0 lineLength)) := by
  by_cases hlen : (s.takeWhile fun c => !isBreak c).length < min lineLength s.length
  · obtain ⟨b, hb, hbreak⟩ := exists_break_of_line (Nat.lt_of_lt_of_le hlen (Nat.min_le_right _ _))
    obtain ⟨t, ht⟩ := List.head?_eq_some_iff.mp hb
    obtain ⟨gap, hgap, hne, hblank⟩ := exists_skipBreak hbreak t
    rw [wrapLine_of_lt hlen, ht]
    refine ⟨gap, ?_, noBreak_takeWhile s, (Nat.lt_min.mp hlen).1.le,
      fun c hc => isBlank_of_isBreak (hblank c hc), fun h => absurd h hne⟩
    rw [List.append_assoc, ← hgap, ← ht]
    conv_lhs => rw [← List.take_append_drop (s.takeWhile fun c => !isBreak c).length s]
    rw [← List.prefix_iff_eq_take.mp (List.takeWhile_prefix _)]
  · obtain ⟨gap, hgap, hle, hblank, hcut⟩ := lineSplit_spec lineLength s
    have hprefix : s.take (lineSplit lineLength s).1 <+: s.takeWhile fun c => !isBreak c :=
      List.prefix_of_prefix_length_le (List.take_prefix _ s) (List.takeWhile_prefix _) (by
        rw [List.length_take]
        omega)
    rw [wrapLine_of_not_lt hlen]
    refine ⟨gap, hgap, noBreak_of_infix (noBreak_takeWhile s) hprefix.isInfix, ?_, hblank, ?_⟩
    · rw [List.length_take]
      omega
    · intro h
      rcases hcut h with hall | ⟨hlt, hsplit⟩
      · left
        dsimp only
        split_ifs
        · exact List.drop_eq_nil_of_le (Nat.le_succ_of_le hall)
        · exact List.drop_eq_nil_of_le hall
      · right
        rw [hsplit]
        exact ⟨hlt, rfl⟩

/-! ## The layout -/

/-- The text on lines: every line fits, and what is dropped behind it is blank. -/
structure Layout (lineLength : ℕ) (text : Bytes) (pieces : List (Bytes × Bytes)) : Prop where
  text_eq : text = pieces.flatMap fun p => p.1 ++ p.2
  noBreak : ∀ p ∈ pieces, NoBreak p.1
  fits : ∀ p ∈ pieces, p.1.length ≤ lineLength
  blank : ∀ p ∈ pieces, ∀ c ∈ p.2, isBlank c = true

/-- Dropping blanks drops a gap. -/
theorem filter_blank {gap : Bytes} (h : ∀ c ∈ gap, isBlank c = true) :
    gap.filter (!isBlank ·) = [] :=
  List.filter_eq_nil_iff.mpr fun c hc => by simp [h c hc]

/-- The lines hold all of the text but blanks. -/
theorem filter_unlines : ∀ {pieces : List (Bytes × Bytes)},
    (∀ p ∈ pieces, ∀ c ∈ p.2, isBlank c = true) →
      (unlines (pieces.map Prod.fst)).filter (!isBlank ·) =
        (pieces.flatMap fun p => p.1 ++ p.2).filter (!isBlank ·)
  | [], _ => rfl
  | p :: pieces, h => by
      obtain ⟨hp, h⟩ := List.forall_mem_cons.mp h
      have hcrlf : (lit "\r\n").filter (!isBlank ·) = [] := by decide
      rw [List.map_cons, unlines_cons, List.flatMap_cons]
      simp only [List.filter_append]
      rw [filter_blank hp, hcrlf, filter_unlines h]

/-- **The lines of the loop lay the text out.** -/
theorem exists_layout (hline : 0 < lineLength) : ∀ {n : ℕ} {s : Bytes}, s.length ≤ n →
    ∃ pieces, Layout lineLength s pieces ∧ wrapLines lineLength n s = pieces.map Prod.fst
  | _, [], _ => ⟨[], ⟨rfl, by simp, by simp, by simp⟩, by rw [wrapLines, List.map_nil]⟩
  | n + 1, c :: s, hn => by
      have hlt := length_wrapLine_lt hline (List.cons_ne_nil c s)
      obtain ⟨gap, htext, hbreak, hfits, hblank, -⟩ := wrapLine_spec lineLength (c :: s)
      obtain ⟨pieces, hlayout, hlines⟩ := exists_layout (n := n) hline (Nat.le_of_lt_succ
        (Nat.lt_of_lt_of_le hlt hn))
      refine ⟨((wrapLine lineLength (c :: s)).1, gap) :: pieces, ⟨?_, ?_, ?_, ?_⟩, ?_⟩
      · rw [List.flatMap_cons, ← hlayout.text_eq]
        exact htext
      · exact List.forall_mem_cons.mpr ⟨hbreak, hlayout.noBreak⟩
      · exact List.forall_mem_cons.mpr ⟨hfits, hlayout.fits⟩
      · exact List.forall_mem_cons.mpr ⟨hblank, hlayout.blank⟩
      · rw [wrapLines, hlines, List.map_cons]

/-- The length `WrapText` makes of the one it is given. -/
theorem lineLength_eq (lineLength : ℕ) :
    max 1 (min lineLength 998) = min (max lineLength 1) 998 := by
  omega

/-- **`WrapText` ends, its lines fit, and they hold all of the text but blanks.** -/
theorem wrapText_spec (text : Bytes) (lineLength : ℕ) :
    Wraps (min (max lineLength 1) 998) text (wrapText text lineLength) ∧
      (∀ run, run <:+: wrapText text lineLength → NoBreak run →
        run.length ≤ min (max lineLength 1) 998) ∧
      (∀ front c back, wrapText text lineLength = front ++ c :: back → isBreak c = true →
        Paired front c back) ∧
      (wrapText text lineLength).filter (!isBlank ·) = text.filter (!isBlank ·) := by
  have hline : 0 < max 1 (min lineLength 998) :=
    Nat.lt_of_lt_of_le Nat.one_pos (Nat.le_max_left _ _)
  obtain ⟨pieces, hlayout, hlines⟩ := exists_layout hline (Nat.le_refl text.length)
  have hresult := wrapText_eq_unlines text lineLength
  rw [hlines] at hresult
  refine ⟨?_, ?_, ?_, ?_⟩
  · rw [← lineLength_eq]
    exact wraps_wrapLoop hline (Nat.le_refl _)
  · intro run hrun hbreak
    rw [← lineLength_eq]
    rw [hresult] at hrun
    exact length_le_of_infix_unlines hbreak (List.forall_mem_map.mpr hlayout.fits) hrun
  · intro front c back htext hc
    rw [hresult] at htext
    refine paired_of_unlines (fun hnone => ?_) (List.forall_mem_map.mpr hlayout.noBreak) htext
    rcases isBreak_iff.mp hc with rfl | rfl
    · exact hnone.1 List.mem_cons_self
    · exact hnone.2 List.mem_cons_self
  · rw [hresult, filter_unlines hlayout.blank, ← hlayout.text_eq]

/-! ## Characters -/

/-- A character that starts with an ASCII byte is that byte. -/
theorem utf8EncodeChar_of_ascii {ch : Char} {c : UInt8} {bs : Bytes}
    (h : String.utf8EncodeChar ch = c :: bs) (hc : c ≤ 0x7f) : bs = [] := by
  unfold String.utf8EncodeChar at h
  dsimp only at h
  have hhigh : ∀ {m k : ℕ}, (∀ w < m, ¬ UInt8.ofNat (w + k) ≤ 0x7f) → 0 < m → ∀ v,
      ¬ UInt8.ofNat (v % m + k) ≤ 0x7f := fun h hm v => h _ (Nat.mod_lt v hm)
  split_ifs at h
  · exact (List.cons.inj h).2.symm
  · rw [← (List.cons.inj h).1] at hc
    exact absurd hc (hhigh (by decide) (by decide) _)
  · rw [← (List.cons.inj h).1] at hc
    exact absurd hc (hhigh (by decide) (by decide) _)
  · rw [← (List.cons.inj h).1] at hc
    exact absurd hc (hhigh (by decide) (by decide) _)

/-- What follows an ASCII byte of a valid text is valid. -/
theorem ValidUtf8.tail {c : UInt8} {s : Bytes} (h : ValidUtf8 (c :: s)) (hc : c ≤ 0x7f) :
    ValidUtf8 s := by
  obtain ⟨cs, hcs⟩ := h
  cases cs with
  | nil => exact nomatch hcs
  | cons ch cs =>
    obtain ⟨b, bs, hchar, -, -, -⟩ := exists_utf8EncodeChar ch
    rw [List.flatMap_cons, hchar, List.cons_append] at hcs
    obtain ⟨rfl, hs⟩ := List.cons.inj hcs
    rw [utf8EncodeChar_of_ascii hchar hc] at hs
    exact ⟨cs, hs⟩

theorem ascii_of_isBlank {c : UInt8} (hc : isBlank c = true) :
    c ≤ 0x7f ∧ isContinuation c = false := by
  simp only [isBlank, Bool.or_eq_true, decide_eq_true_eq] at hc
  rcases hc with ((rfl | rfl) | rfl) | rfl
  · decide
  · decide
  · decide
  · decide

/-- A gap of blanks goes from a valid text. -/
theorem ValidUtf8.of_blank_append {t : Bytes} : ∀ {gap : Bytes}, (∀ c ∈ gap, isBlank c = true) →
    ValidUtf8 (gap ++ t) → ValidUtf8 t
  | [], _, h => h
  | c :: gap, hgap, h => by
      obtain ⟨hc, hgap⟩ := List.forall_mem_cons.mp hgap
      exact .of_blank_append hgap (ValidUtf8.tail h (ascii_of_isBlank hc).1)

/-- **A line of a valid text is valid**, and so is what is left. The stop is behind the first
character, so the fallback is not taken. -/
theorem validUtf8_wrapLine (hline : 4 ≤ lineLength) (hs : ValidUtf8 s) :
    ValidUtf8 (wrapLine lineLength s).1 ∧ ValidUtf8 (wrapLine lineLength s).2 := by
  obtain ⟨gap, htext, -, -, hblank, hcut⟩ := wrapLine_spec lineLength s
  have hsplit : ValidUtf8 ((wrapLine lineLength s).1 ++ (gap ++ (wrapLine lineLength s).2)) := by
    rw [← List.append_assoc, ← htext]
    exact hs
  have hstart : StartsCharacter (gap ++ (wrapLine lineLength s).2) := by
    cases gap with
    | cons c gap =>
      intro b hb
      obtain rfl := Option.some.inj hb
      exact (ascii_of_isBlank (hblank _ List.mem_cons_self)).2
    | nil =>
      rcases hcut rfl with hall | ⟨hlt, hrest⟩
      · rw [hall]
        exact fun c hc => nomatch hc
      · have hstop := lt_findUtf8SafeEnd (shortRuns_of_validUtf8 hs) hline
          (Nat.lt_of_le_of_lt (Nat.zero_le lineLength) hlt)
        rw [hrest, if_neg (Nat.ne_of_gt hstop)]
        exact (findUtf8SafeEnd_stop s 0 lineLength).resolve_left (Nat.not_le.mpr hstop)
  obtain ⟨hfirst, hrest⟩ := validUtf8_split hsplit hstart
  exact ⟨hfirst, .of_blank_append hblank hrest⟩

/-- **No character is cut**, if a line holds the longest. -/
theorem validUtf8_of_mem_wrapLines (hline : 4 ≤ lineLength) : ∀ {n : ℕ} {s : Bytes},
    ValidUtf8 s → ∀ l ∈ wrapLines lineLength n s, ValidUtf8 l
  | _, [], _, _, hl => by simp [wrapLines] at hl
  | 0, _ :: _, _, _, hl => by simp [wrapLines] at hl
  | n + 1, c :: s, hs, l, hl => by
      obtain ⟨hfirst, hrest⟩ := validUtf8_wrapLine hline hs
      rw [wrapLines] at hl
      rcases List.mem_cons.mp hl with rfl | hl
      · exact hfirst
      · exact validUtf8_of_mem_wrapLines hline hrest l hl

/-- **`WrapText` breaks no character.** -/
theorem wrapText_validUtf8 {text : Bytes} (htext : ValidUtf8 text) {lineLength : ℕ}
    (hline : 4 ≤ lineLength) : ∃ lines, wrapText text lineLength = unlines lines ∧
      ∀ l ∈ lines, NoBreak l ∧ ValidUtf8 l := by
  have hlength : 4 ≤ max 1 (min lineLength 998) := by omega
  obtain ⟨pieces, hlayout, hlines⟩ := exists_layout (Nat.lt_of_lt_of_le (by decide) hlength)
    (Nat.le_refl text.length)
  refine ⟨_, wrapText_eq_unlines text lineLength, fun l hl => ⟨?_, ?_⟩⟩
  · rw [hlines] at hl
    exact List.forall_mem_map.mpr hlayout.noBreak l hl
  · exact validUtf8_of_mem_wrapLines hlength htext l hl

/-- Three characters of two bytes: a line of five bytes has two of them. -/
theorem wrapText_validUtf8_two :
    wrapText [0xC3, 0xA9, 0xC3, 0xA8, 0xC3, 0xAA] 5 =
        unlines [[0xC3, 0xA9, 0xC3, 0xA8], [0xC3, 0xAA]] ∧
      ∃ lines, wrapText [0xC3, 0xA9, 0xC3, 0xA8, 0xC3, 0xAA] 5 = unlines lines ∧
        ∀ l ∈ lines, NoBreak l ∧ ValidUtf8 l :=
  ⟨by decide, wrapText_validUtf8 ⟨['é', 'è', 'ê'], by decide⟩ (by decide)⟩

/-! ## Lines that fit -/

section Terminated

variable {terminator line rest : Bytes}

/-- A terminator is skipped whole. -/
theorem skipBreak_terminator (h : IsTerminator terminator) (rest : Bytes) :
    skipBreak (terminator ++ rest) = rest := by
  rcases h with rfl | rfl
  · rfl
  · rfl

theorem exists_break_of_terminator (h : IsTerminator terminator) :
    ∃ c t, terminator = c :: t ∧ isBreak c = true := by
  rcases h with rfl | rfl
  · exact ⟨_, [], rfl, by decide⟩
  · exact ⟨_, [_], rfl, by decide⟩

/-- A line ends at its terminator. -/
theorem takeWhile_terminated (hterm : IsTerminator terminator) (hline : NoBreak line) :
    (line ++ (terminator ++ rest)).takeWhile (fun c => !isBreak c) = line := by
  obtain ⟨c, t, rfl, hc⟩ := exists_break_of_terminator hterm
  have hall : ∀ x ∈ line, (!isBreak x) = true := by
    intro x hx
    rw [Bool.not_eq_true', ← Bool.not_eq_true, isBreak_iff]
    rintro (rfl | rfl)
    · exact hline.1 hx
    · exact hline.2 hx
  rw [List.takeWhile_append_of_pos hall, List.cons_append,
    List.takeWhile_cons_of_neg (by simp [hc]), List.append_nil]

theorem length_lt_terminated (hterm : IsTerminator terminator) (line rest : Bytes) :
    line.length + rest.length < (line ++ (terminator ++ rest)).length := by
  obtain ⟨c, t, rfl, -⟩ := exists_break_of_terminator hterm
  simp only [List.length_append, List.length_cons]
  omega

/-- A line shorter than the line length is written as it is. -/
theorem wrapLine_short (hterm : IsTerminator terminator) (hline : NoBreak line)
    (hlt : line.length < lineLength) :
    wrapLine lineLength (line ++ (terminator ++ rest)) = (line, rest) := by
  have hwhole := @takeWhile_terminated _ _ rest hterm hline
  have hlen := length_lt_terminated hterm line rest
  rw [wrapLine_of_lt (by rw [hwhole]; omega), hwhole, List.drop_left, skipBreak_terminator hterm]

/-- **A line of just the line length is cut**, and what is left of it is one more line. -/
theorem wrapLine_full (hterm : IsTerminator terminator) (hline : NoBreak line)
    (hpos : 0 < lineLength) (hlength : line.length = lineLength) : ∃ a b,
      wrapLine lineLength (line ++ (terminator ++ rest)) = (a, b ++ (terminator ++ rest)) ∧
        NoBreak b ∧ b.length < lineLength := by
  have hwhole := @takeWhile_terminated _ _ rest hterm hline
  have hlen := length_lt_terminated hterm line rest
  have hne : line ++ (terminator ++ rest) ≠ [] := List.ne_nil_of_length_pos (by omega)
  have hsplit := lineSplit_pos hpos hne
  rw [wrapLine_of_not_lt (by rw [hwhole]; omega)]
  have hle : (if (lineSplit lineLength (line ++ (terminator ++ rest))).2 then
      (lineSplit lineLength (line ++ (terminator ++ rest))).1 + 1
      else (lineSplit lineLength (line ++ (terminator ++ rest))).1) ≤ line.length := by
    rcases lineSplit_cases lineLength (line ++ (terminator ++ rest)) with
      ⟨front, c, back, -, hcut, hlt, -⟩ | ⟨-, hall⟩ | ⟨-, hcut⟩
    · rw [hcut, if_pos rfl]
      omega
    · omega
    · have hstop := (findUtf8SafeEnd_le (line ++ (terminator ++ rest)) 0 lineLength).1
      rw [hcut, if_neg Bool.false_ne_true]
      dsimp only
      split_ifs
      · exact hlength.ge
      · omega
  rw [List.drop_append_of_le_length hle]
  refine ⟨_, _, rfl, noBreak_of_infix hline (List.drop_suffix _ _).isInfix, ?_⟩
  rw [List.length_drop]
  omega

/-- One line after the other is cut off. -/
theorem wrapLines_succ {n : ℕ} (hs : s ≠ []) : wrapLines lineLength (n + 1) s =
    (wrapLine lineLength s).1 :: wrapLines lineLength n (wrapLine lineLength s).2 := by
  obtain ⟨c, s, rfl⟩ := List.exists_cons_of_ne_nil hs
  rw [wrapLines]

/-- Lines shorter than the line length are written as they are. -/
theorem wrapLines_short (hterm : IsTerminator terminator) : ∀ {lines : List Bytes} {n : ℕ},
    (∀ l ∈ lines, NoBreak l) → (∀ l ∈ lines, l.length < lineLength) →
      (endLines terminator lines).length ≤ n →
        wrapLines lineLength n (endLines terminator lines) = lines
  | [], _, _, _, _ => by rw [endLines, List.flatMap_nil, wrapLines]
  | l :: lines, n, hbreak, hlt, hn => by
      obtain ⟨hl, hbreak⟩ := List.forall_mem_cons.mp hbreak
      obtain ⟨hllt, hlt⟩ := List.forall_mem_cons.mp hlt
      have hlen := length_lt_terminated hterm l (endLines terminator lines)
      rw [endLines_cons] at hn ⊢
      obtain ⟨n, rfl⟩ := Nat.exists_eq_succ_of_ne_zero
        (Nat.ne_zero_of_lt (Nat.lt_of_lt_of_le hlen hn))
      rw [wrapLines_succ (List.ne_nil_of_length_pos (Nat.zero_lt_of_lt hlen)),
        wrapLine_short hterm hl hllt, wrapLines_short hterm hbreak hlt (by omega)]

/-- Every line of just the line length makes one line more. -/
theorem length_wrapLines (hterm : IsTerminator terminator) (hpos : 0 < lineLength) :
    ∀ {lines : List Bytes} {n : ℕ}, (∀ l ∈ lines, NoBreak l) →
      (∀ l ∈ lines, l.length ≤ lineLength) → (endLines terminator lines).length ≤ n →
        (wrapLines lineLength n (endLines terminator lines)).length =
          lines.length + lines.countP fun l => l.length = lineLength
  | [], _, _, _, _ => by
      rw [endLines, List.flatMap_nil, wrapLines]
      rfl
  | l :: lines, n, hbreak, hfit, hn => by
      obtain ⟨hl, hbreak⟩ := List.forall_mem_cons.mp hbreak
      obtain ⟨hlfit, hfit⟩ := List.forall_mem_cons.mp hfit
      have hlen := length_lt_terminated hterm l (endLines terminator lines)
      rw [endLines_cons] at hn ⊢
      obtain ⟨n, rfl⟩ := Nat.exists_eq_succ_of_ne_zero
        (Nat.ne_zero_of_lt (Nat.lt_of_lt_of_le hlen hn))
      rw [wrapLines_succ (List.ne_nil_of_length_pos (Nat.zero_lt_of_lt hlen)), List.length_cons,
        List.length_cons]
      rcases Nat.lt_or_eq_of_le hlfit with hlt | hfull
      · rw [wrapLine_short hterm hl hlt, length_wrapLines hterm hpos hbreak hfit (by omega),
          List.countP_cons_of_neg (by simpa using hlt.ne)]
        omega
      · obtain ⟨a, b, hcut, hb, hblt⟩ :=
          @wrapLine_full _ _ _ (endLines terminator lines) hterm hl hpos hfull
        have hrest := length_wrapLine_lt hpos (List.ne_nil_of_length_pos (Nat.zero_lt_of_lt hlen))
        have hblen := length_lt_terminated hterm b (endLines terminator lines)
        rw [hcut] at hrest ⊢
        dsimp only at hrest ⊢
        obtain ⟨n, rfl⟩ : ∃ m, n = m + 1 := Nat.exists_eq_succ_of_ne_zero (by omega)
        rw [wrapLines_succ (List.ne_nil_of_length_pos (Nat.zero_lt_of_lt hblen)),
          wrapLine_short hterm hb hblt, List.length_cons,
          length_wrapLines hterm hpos hbreak hfit (by omega),
          List.countP_cons_of_pos (by simpa using hfull)]
        omega

/-- **Lines that fit are left alone exactly if** they are shorter than the line length. -/
theorem wrapText_lines_iff {lines : List Bytes} (hpos : 1 ≤ lineLength) (hmax : lineLength ≤ 998)
    (hterm : IsTerminator terminator) (hbreak : ∀ l ∈ lines, NoBreak l)
    (hfit : ∀ l ∈ lines, l.length ≤ lineLength) :
    wrapText (endLines terminator lines) lineLength = unlines lines ↔
      ∀ l ∈ lines, l.length < lineLength := by
  have hlength : max 1 (min lineLength 998) = lineLength := by omega
  rw [wrapText_eq_unlines, hlength]
  constructor
  · intro hsame l hl
    refine Nat.lt_of_le_of_ne (hfit l hl) fun hfull => ?_
    obtain ⟨pieces, hlayout, hlines⟩ :=
      exists_layout hpos (Nat.le_refl (endLines terminator lines).length)
    have hcount := count_unlines hbreak
    rw [← hsame, hlines, count_unlines (List.forall_mem_map.mpr hlayout.noBreak), ← hlines,
      length_wrapLines hterm hpos hbreak hfit (Nat.le_refl _)] at hcount
    have hsome : 0 < lines.countP fun l => l.length = lineLength :=
      List.countP_pos_iff.mpr ⟨l, hl, by simpa using hfull⟩
    omega
  · exact fun hlt => congrArg unlines (wrapLines_short hterm hbreak hlt (Nat.le_refl _))

theorem wrapText_lines_iff_two :
    wrapText (endLines (lit "\n") [lit "ab c", lit ""]) 5 = unlines [lit "ab c", lit ""] ↔
      ∀ l ∈ [lit "ab c", lit ""], l.length < 5 :=
  wrapText_lines_iff (by decide) (by decide) (.inl rfl) (by decide) (by decide)

theorem not_wrapText_lines : ∃ lines lineLength, 1 ≤ lineLength ∧ lineLength ≤ 998 ∧
    (∀ l ∈ lines, NoBreak l) ∧ (∀ l ∈ lines, l.length ≤ lineLength) ∧
      wrapText (endLines (lit "\r\n") lines) lineLength ≠ unlines lines :=
  ⟨[lit "Line1", lit "Line2"], 5, by decide, by decide, by decide, by decide, by decide +kernel⟩

end Terminated

end MailStack.Mime
