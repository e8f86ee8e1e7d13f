import Mathlib.Data.List.TakeWhile
import MailStack.Machinery.Bytes

/-!
# Mime/StringUtils — `Trim`, `FindUtf8SafeEnd` and `WrapText`

The text functions of the MIME code.  The loop of `WrapText` goes forward by at least one byte in
every iteration, so it is given the length of the text as fuel.

A text is UTF-8 when it is made of encoded characters.  No four bytes in a row of such a text are
continuation bytes, which is what `FindUtf8SafeEnd` relies on.
-/

open Bytes

namespace MailStack.Mime

/-! ## `Trim` -/

/-- `" \t\r\n"`. -/
def isBlank (c : UInt8) : Bool :=
  c = ' '.toUInt8 || c = '\t'.toUInt8 || c = '\r'.toUInt8 || c = '\n'.toUInt8

/-- `StringUtils::Trim`. -/
def trim (s : Bytes) : Bytes := ((s.dropWhile isBlank).reverse.dropWhile isBlank).reverse

/-- What is trimmed off is blank. -/
theorem exists_trim (s : Bytes) :
    ∃ a b, s = a ++ trim s ++ b ∧ (∀ c ∈ a, isBlank c = true) ∧ ∀ c ∈ b, isBlank c = true := by
  let m := s.dropWhile isBlank
  refine ⟨s.takeWhile isBlank, (m.reverse.takeWhile isBlank).reverse, ?_, ?_, ?_⟩
  · have hm : m = trim s ++ (m.reverse.takeWhile isBlank).reverse := by
      rw [trim, ← List.reverse_append, List.takeWhile_append_dropWhile, List.reverse_reverse]
    rw [List.append_assoc, ← hm, List.takeWhile_append_dropWhile]
  · exact fun c hc => List.mem_takeWhile_imp hc
  · exact fun c hc => List.mem_takeWhile_imp (List.mem_reverse.mp hc)

/-- Trimming a text that starts and ends with no blank. -/
theorem trim_of_not_blank {s : Bytes} (hhead : ∀ c ∈ s.head?, isBlank c = false)
    (hlast : ∀ c ∈ s.getLast?, isBlank c = false) : trim s = s := by
  have hdrop : ∀ {t : Bytes}, (∀ c ∈ t.head?, isBlank c = false) → t.dropWhile isBlank = t := by
    intro t ht
    cases t with
    | nil => rfl
    | cons c t => simp [ht c rfl]
  rw [trim, hdrop hhead, hdrop, List.reverse_reverse]
  rwa [List.head?_reverse]

/-- A blank in front goes. -/
theorem trim_cons {c : UInt8} (s : Bytes) (hc : isBlank c = true) : trim (c :: s) = trim s := by
  rw [trim, List.dropWhile_cons_of_pos hc, trim]

/-! ## `FindUtf8SafeEnd` -/

/-- `(c & 0xC0) == 0x80`. -/
def isContinuation (c : UInt8) : Bool := c &&& 0xC0 = 0x80

/-- The loop of `FindUtf8SafeEnd`: back to a byte that starts a character. -/
def retreat (text : Bytes) (start : ℕ) : ℕ → ℕ
  | 0 => 0
  | e + 1 =>
    if start < e + 1 ∧ e + 1 < text.length ∧ isContinuation (text.getD (e + 1) 0) then
      retreat text start e
    else e + 1

/-- `StringUtils::FindUtf8SafeEnd`. -/
def findUtf8SafeEnd (text : Bytes) (start maxBytes : ℕ) : ℕ :=
  retreat text start (min (start + maxBytes) text.length)

theorem retreat_le (text : Bytes) (start : ℕ) : ∀ e, retreat text start e ≤ e
  | 0 => Nat.le_refl 0
  | e + 1 => by
      rw [retreat]
      split_ifs
      · exact Nat.le_succ_of_le (retreat_le text start e)
      · exact Nat.le_refl _

/-- The cut is not beyond the bound, nor the text. -/
theorem findUtf8SafeEnd_le (text : Bytes) (start maxBytes : ℕ) :
    findUtf8SafeEnd text start maxBytes ≤ start + maxBytes ∧
      findUtf8SafeEnd text start maxBytes ≤ text.length :=
  Nat.le_min.mp (retreat_le text start _)

/-- The retreat stops at the start. -/
theorem le_retreat {text : Bytes} {start : ℕ} : ∀ {e : ℕ}, start ≤ e → start ≤ retreat text start e
  | 0, h => h
  | e + 1, h => by
      rw [retreat]
      split_ifs with hback
      · exact le_retreat (Nat.le_of_lt_succ hback.1)
      · exact h

/-- A byte that starts a character stops the retreat. -/
theorem le_retreat_of_not_continuation {text : Bytes} {start k : ℕ} (hstart : start ≤ k)
    (hk : isContinuation (text.getD k 0) = false) : ∀ {e : ℕ}, k ≤ e → k ≤ retreat text start e
  | 0, h => h
  | e + 1, h => by
      rw [retreat]
      split_ifs with hback
      · refine le_retreat_of_not_continuation hstart hk (Nat.le_of_lt_succ (Nat.lt_of_le_of_ne h ?_))
        rintro rfl
        exact absurd (hk.symm.trans hback.2.2) (by simp)
      · exact h

/-! ## UTF-8 -/

/-- The text is made of encoded characters. -/
def ValidUtf8 (s : Bytes) : Prop := ∃ cs : List Char, s = cs.flatMap String.utf8EncodeChar

/-- No more than `n` continuation bytes come first, and no four in a row after them. -/
def ShortRuns : ℕ → Bytes → Prop
  | _, [] => True
  | n, c :: s => if isContinuation c then 0 < n ∧ ShortRuns (n - 1) s else ShortRuns 3 s

theorem ShortRuns.mono {n : ℕ} {s : Bytes} (h : ShortRuns n s) {m : ℕ} (hm : n ≤ m) :
    ShortRuns m s := by
  induction s generalizing n m with
  | nil => trivial
  | cons c s ih =>
    rw [ShortRuns] at h ⊢
    split_ifs at h ⊢
    · exact ⟨Nat.lt_of_lt_of_le h.1 hm, ih h.2 (Nat.sub_le_sub_right hm 1)⟩
    · exact h

/-- The bytes of a character: one that starts it, and up to three more. -/
theorem exists_utf8EncodeChar (c : Char) : ∃ b bs, String.utf8EncodeChar c = b :: bs ∧
    isContinuation b = false ∧ bs.length ≤ 3 ∧ ∀ x ∈ bs, isContinuation x = true := by
  have hbyte : ∀ {m k : ℕ} {r : Bool},
      (∀ w < m, isContinuation (UInt8.ofNat (w + k)) = r) → 0 < m →
        ∀ v, isContinuation (UInt8.ofNat (v % m + k)) = r :=
    fun h hm v => h _ (Nat.mod_lt v hm)
  have hcont := hbyte (m := 0x40) (k := 0x80) (r := true) (by decide) (by decide)
  unfold String.utf8EncodeChar
  dsimp only
  split_ifs with h₁ h₂ h₃
  · have hascii : ∀ v ≤ 0x7f, isContinuation (UInt8.ofNat v) = false := by decide
    exact ⟨_, _, rfl, hascii _ h₁, by simp, by simp⟩
  · refine ⟨_, _, rfl, hbyte (by decide) (by decide) _, by simp, ?_⟩
    exact List.forall_mem_singleton.mpr (hcont _)
  · refine ⟨_, _, rfl, hbyte (by decide) (by decide) _, by simp, ?_⟩
    exact List.forall_mem_cons.mpr ⟨hcont _, List.forall_mem_singleton.mpr (hcont _)⟩
  · refine ⟨_, _, rfl, hbyte (by decide) (by decide) _, by simp, ?_⟩
    exact List.forall_mem_cons.mpr ⟨hcont _, List.forall_mem_cons.mpr ⟨hcont _,
      List.forall_mem_singleton.mpr (hcont _)⟩⟩

/-- Joined to a text that begins with no continuation, runs stay short. -/
theorem ShortRuns.append {s : Bytes} (hs : ShortRuns 3 s) :
    ∀ {bs : Bytes} {n : ℕ}, bs.length ≤ n → n ≤ 3 → (∀ x ∈ bs, isContinuation x = true) →
      (∀ c ∈ s.head?, isContinuation c = false) → ShortRuns n (bs ++ s)
  | [], n, _, hn, _, hhead => by
      cases s with
      | nil => trivial
      | cons c s =>
        rw [List.nil_append, ShortRuns, if_neg (by simp [hhead c rfl])]
        rw [ShortRuns, if_neg (by simp [hhead c rfl])] at hs
        exact hs
  | b :: bs, n, hlen, hn, hbs, hhead => by
      rw [List.length_cons] at hlen
      obtain ⟨hb, hbs⟩ := List.forall_mem_cons.mp hbs
      rw [List.cons_append, ShortRuns, if_pos hb]
      exact ⟨by omega, ShortRuns.append hs (by omega) (by omega) hbs hhead⟩

/-- **No four bytes in a row of a valid text are continuation bytes.** -/
theorem shortRuns_of_validUtf8 {s : Bytes} (h : ValidUtf8 s) : ShortRuns 3 s := by
  obtain ⟨cs, rfl⟩ := h
  have hhead : ∀ cs : List Char, ∀ x ∈ (cs.flatMap String.utf8EncodeChar).head?,
      isContinuation x = false := by
    intro cs x hx
    cases cs with
    | nil => exact absurd hx (by simp)
    | cons c cs =>
      obtain ⟨b, bs, hc, hb, -, -⟩ := exists_utf8EncodeChar c
      rw [List.flatMap_cons, hc] at hx
      obtain rfl := Option.some.inj hx
      exact hb
  induction cs with
  | nil => trivial
  | cons c cs ih =>
    obtain ⟨b, bs, hc, hb, hlen, hbs⟩ := exists_utf8EncodeChar c
    rw [List.flatMap_cons, hc, List.cons_append, ShortRuns, if_neg (by simp [hb])]
    exact ShortRuns.append ih hlen (Nat.le_refl 3) hbs (hhead cs)

/-- One of the first bytes starts a character, if there are more than `n`. -/
theorem ShortRuns.exists_start :
    ∀ {s : Bytes} {n : ℕ}, ShortRuns n s → n < s.length →
      ∃ k ≤ n, isContinuation (s.getD k 0) = false
  | c :: s, n, h, hlen => by
      rw [ShortRuns] at h
      split_ifs at h with hc
      · obtain ⟨hn, h⟩ := h
        rw [List.length_cons] at hlen
        obtain ⟨k, hk, hstart⟩ := h.exists_start (by omega)
        exact ⟨k + 1, by omega, by simpa using hstart⟩
      · exact ⟨0, Nat.zero_le n, by simpa using hc⟩

/-- A rest of a text has short runs. -/
theorem ShortRuns.drop {s : Bytes} {n : ℕ} (h : ShortRuns n s) (hn : n ≤ 3) (k : ℕ) :
    ShortRuns 3 (s.drop k) := by
  induction k generalizing s n with
  | zero => exact h.mono hn
  | succ k ih =>
    cases s with
    | nil => trivial
    | cons c s =>
      rw [ShortRuns] at h
      split_ifs at h
      · exact ih h.2 (Nat.le_trans (Nat.sub_le n 1) hn)
      · exact ih h (Nat.le_refl 3)

/-- **`FindUtf8SafeEnd` goes forward on a valid text**, from four bytes on. One of the four bytes
after the first starts a character. -/
theorem lt_findUtf8SafeEnd {text : Bytes} (h : ShortRuns 3 text) {start maxBytes : ℕ}
    (hmax : 4 ≤ maxBytes) (hstart : start < text.length) :
    start < findUtf8SafeEnd text start maxBytes := by
  rcases Nat.lt_or_ge (start + 4) text.length with hlt | hge
  · obtain ⟨k, hk, hkstart⟩ := (h.drop (Nat.le_refl 3) (start + 1)).exists_start
      (by rw [List.length_drop]; omega)
    rw [List.getD_eq_getElem?_getD, List.getElem?_drop, ← List.getD_eq_getElem?_getD] at hkstart
    have hge : start + 1 + k ≤ findUtf8SafeEnd text start maxBytes :=
      le_retreat_of_not_continuation (by omega) hkstart (by omega)
    omega
  · rw [findUtf8SafeEnd, Nat.min_eq_right (by omega)]
    cases hlen : text.length with
    | zero => omega
    | succ e =>
      rw [retreat, if_neg (by omega)]
      omega

/-! ## `WrapText` -/

/-- `text[pos] == '\r' || text[pos] == '\n'`. -/
def isBreak (c : UInt8) : Bool := c = '\r'.toUInt8 || c = '\n'.toUInt8

/-- How much of what follows goes on the line, and whether the next byte, a blank, is skipped. -/
def lineSplit (lineLength : ℕ) (s : Bytes) : ℕ × Bool :=
  let limit := min lineLength s.length
  let chunk := s.take limit
  match (chunk.reverse.findIdx? fun c => c = ' '.toUInt8 || c = '\t'.toUInt8) with
  | some i =>
    if limit < s.length then (limit - 1 - i, true)
    else (limit, false)
  | none =>
    if limit = s.length then (limit, false)
    else if findUtf8SafeEnd s 0 limit = 0 then (limit, false)
    else (findUtf8SafeEnd s 0 limit, false)

/-- The loop of `WrapText`, on what follows the position. -/
def wrapLoop (lineLength : ℕ) : ℕ → Bytes → Bytes
  | _, [] => []
  | 0, _ :: _ => []
  | n + 1, c :: s =>
    if isBreak c then
      lit "\r\n" ++ wrapLoop lineLength n
        (if c = '\r'.toUInt8 ∧ s.head? = some '\n'.toUInt8 then s.drop 1 else s)
    else
      let line := (c :: s).takeWhile fun c => !isBreak c
      if line.length < min lineLength (c :: s).length then
        line ++ wrapLoop lineLength n ((c :: s).drop line.length)
      else
        let (len, skip) := lineSplit lineLength (c :: s)
        (c :: s).take len ++ lit "\r\n" ++
          wrapLoop lineLength n ((c :: s).drop (if skip then len + 1 else len))

/-- `StringUtils::WrapText`. -/
def wrapText (text : Bytes) (lineLength : ℕ) : Bytes :=
  wrapLoop (max 1 (min lineLength 998)) text.length text

/-- A line takes at least one byte of the text. -/
theorem lineSplit_pos {lineLength : ℕ} {s : Bytes} (hline : 0 < lineLength) (hs : s ≠ []) :
    0 < if (lineSplit lineLength s).2 then (lineSplit lineLength s).1 + 1
      else (lineSplit lineLength s).1 := by
  have hlimit : 0 < min lineLength s.length :=
    Nat.lt_min.mpr ⟨hline, List.length_pos_iff.mpr hs⟩
  generalize hp : lineSplit lineLength s = p
  rw [lineSplit] at hp
  split at hp
  · split_ifs at hp
    · rw [← hp]
      exact Nat.succ_pos _
    · rw [← hp]
      exact hlimit
  · split_ifs at hp with _ hsafe
    · rw [← hp]
      exact hlimit
    · rw [← hp]
      exact hlimit
    · rw [← hp]
      exact Nat.pos_of_ne_zero hsafe

/-- A text that starts with no break is a line and what is left from its first break on. -/
theorem exists_break_of_line {s : Bytes} (h : (s.takeWhile fun c => !isBreak c).length < s.length) :
    ∃ c ∈ (s.drop (s.takeWhile fun c => !isBreak c).length).head?, isBreak c = true := by
  have hdrop : s.drop (s.takeWhile fun c => !isBreak c).length =
      s.dropWhile fun c => !isBreak c := by
    have h := @List.drop_left _ (s.takeWhile fun c => !isBreak c)
      (s.dropWhile fun c => !isBreak c)
    rwa [List.takeWhile_append_dropWhile] at h
  cases hrest : s.dropWhile fun c => !isBreak c with
  | nil =>
    have hlen := congrArg List.length
      (List.takeWhile_append_dropWhile (p := fun c => !isBreak c) (l := s))
    rw [hrest, List.append_nil] at hlen
    omega
  | cons c t =>
    have hc : (fun c => !isBreak c) c = false := by
      have := List.dropWhile_get_zero_not (fun c => !isBreak c) s (by rw [hrest]; simp)
      simpa [hrest] using this
    exact ⟨c, by rw [hdrop, hrest]; rfl, by simpa using hc⟩

/-! ### What the loop writes, line by line -/

/-- What follows the break at the start of a text: CR, LF or both. -/
def skipBreak : Bytes → Bytes
  | [] => []
  | c :: s => if c = '\r'.toUInt8 ∧ s.head? = some '\n'.toUInt8 then s.drop 1 else s

/-- The first line the loop writes, and what is left of the text. -/
def wrapLine (lineLength : ℕ) (s : Bytes) : Bytes × Bytes :=
  let line := s.takeWhile fun c => !isBreak c
  if line.length < min lineLength s.length then (line, skipBreak (s.drop line.length))
  else
    (s.take (lineSplit lineLength s).1,
      s.drop (if (lineSplit lineLength s).2 then (lineSplit lineLength s).1 + 1
        else (lineSplit lineLength s).1))

/-- The lines the loop writes. -/
def wrapLines (lineLength : ℕ) : ℕ → Bytes → List Bytes
  | _, [] => []
  | 0, _ :: _ => []
  | n + 1, c :: s =>
    (wrapLine lineLength (c :: s)).1 :: wrapLines lineLength n (wrapLine lineLength (c :: s)).2

section Lines

variable {lineLength : ℕ} {s : Bytes}

/-- A break is one character at least. -/
theorem skipBreak_suffix (s : Bytes) : skipBreak s <:+ s.drop 1 := by
  cases s with
  | nil => exact List.suffix_refl []
  | cons c s =>
    rw [skipBreak]
    split_ifs
    · exact List.drop_suffix 1 s
    · exact List.suffix_refl s

/-- A line that a break ends. -/
theorem wrapLine_of_lt
    (h : (s.takeWhile fun c => !isBreak c).length < min lineLength s.length) :
    wrapLine lineLength s = (s.takeWhile fun c => !isBreak c,
      skipBreak (s.drop (s.takeWhile fun c => !isBreak c).length)) :=
  if_pos h

/-- A line that is cut. -/
theorem wrapLine_of_not_lt
    (h : ¬ (s.takeWhile fun c => !isBreak c).length < min lineLength s.length) :
    wrapLine lineLength s = (s.take (lineSplit lineLength s).1,
      s.drop (if (lineSplit lineLength s).2 then (lineSplit lineLength s).1 + 1
        else (lineSplit lineLength s).1)) :=
  if_neg h

/-- A line that is over is empty. -/
theorem wrapLine_of_break (hline : 0 < lineLength) {c : UInt8} (hc : isBreak c = true) (s : Bytes) :
    wrapLine lineLength (c :: s) = ([], skipBreak (c :: s)) := by
  rw [wrapLine, List.takeWhile_cons_of_neg (by simp [hc])]
  exact if_pos (Nat.lt_min.mpr ⟨hline, Nat.succ_pos _⟩)

/-- **A line takes at least one byte of the text.** -/
theorem length_wrapLine_lt (hline : 0 < lineLength) (hs : s ≠ []) :
    (wrapLine lineLength s).2.length < s.length := by
  have hpos := List.length_pos_iff.mpr hs
  by_cases hlen : (s.takeWhile fun c => !isBreak c).length < min lineLength s.length
  · rw [wrapLine_of_lt hlen]
    have hle := (skipBreak_suffix (s.drop (s.takeWhile fun c => !isBreak c).length)).length_le
    rw [List.length_drop, List.length_drop] at hle
    dsimp only
    omega
  · have hsplit := lineSplit_pos hline hs
    rw [wrapLine_of_not_lt hlen, List.length_drop]
    omega

/-- **The loop writes these lines**, each ended by CRLF. A break that ends a line is the next
thing written. -/
theorem wrapLoop_eq_unlines (hline : 0 < lineLength) : ∀ {n m : ℕ} {s : Bytes}, s.length ≤ n →
    s.length ≤ m → wrapLoop lineLength n s = unlines (wrapLines lineLength m s)
  | _, _, [], _, _ => by
      rw [wrapLoop, wrapLines, unlines_nil]
  | n + 1, m + 1, c :: s, hn, hm => by
      have hlt := length_wrapLine_lt hline (List.cons_ne_nil c s)
      have hcut : (wrapLine lineLength (c :: s)).2.length ≤ n := by
        rw [List.length_cons] at hlt hn
        omega
      have hcut' : (wrapLine lineLength (c :: s)).2.length ≤ m := by
        rw [List.length_cons] at hlt hm
        omega
      have hrest := wrapLoop_eq_unlines hline hcut hcut'
      rw [wrapLoop, wrapLines, unlines_cons]
      by_cases hc : isBreak c = true
      · rw [wrapLine_of_break hline hc] at hrest ⊢
        rw [if_pos hc, ← hrest]
        rfl
      · rw [if_neg hc]
        dsimp only
        by_cases hlen : ((c :: s).takeWhile fun c => !isBreak c).length <
            min lineLength (c :: s).length
        · obtain ⟨b, hb, hbreak⟩ :=
            exists_break_of_line (Nat.lt_of_lt_of_le hlen (Nat.min_le_right _ _))
          obtain ⟨t, ht⟩ := List.head?_eq_some_iff.mp hb
          have hpos : 0 < ((c :: s).takeWhile fun c => !isBreak c).length := by simp [hc]
          have hle := congrArg List.length ht
          rw [List.length_drop, List.length_cons, List.length_cons] at hle
          have hend := wrapLoop_eq_unlines (n := n) (m := m + 1) (s := b :: t) hline
            (by rw [List.length_cons] at hn ⊢; omega) (by rw [List.length_cons] at hm ⊢; omega)
          rw [wrapLines, wrapLine_of_break hline hbreak, unlines_cons, List.nil_append] at hend
          rw [if_pos hlen, wrapLine_of_lt hlen, ht, hend, List.append_assoc]
        · rw [if_neg hlen, ← hrest, wrapLine_of_not_lt hlen]

/-- A line is a part of the text. -/
theorem wrapLine_infix (lineLength : ℕ) (s : Bytes) : (wrapLine lineLength s).1 <:+: s := by
  by_cases hlen : (s.takeWhile fun c => !isBreak c).length < min lineLength s.length
  · rw [wrapLine_of_lt hlen]
    exact (List.takeWhile_prefix _).isInfix
  · rw [wrapLine_of_not_lt hlen]
    exact (List.take_prefix _ _).isInfix

/-- What is left is an end of it. -/
theorem wrapLine_suffix (lineLength : ℕ) (s : Bytes) : (wrapLine lineLength s).2 <:+ s := by
  by_cases hlen : (s.takeWhile fun c => !isBreak c).length < min lineLength s.length
  · rw [wrapLine_of_lt hlen]
    exact ((skipBreak_suffix _).trans (List.drop_suffix _ _)).trans (List.drop_suffix _ _)
  · rw [wrapLine_of_not_lt hlen]
    exact List.drop_suffix _ _

/-- So is every line a part of the text. -/
theorem infix_of_mem_wrapLines : ∀ {n : ℕ} {s : Bytes}, ∀ l ∈ wrapLines lineLength n s, l <:+: s
  | _, [], _, hl => by simp [wrapLines] at hl
  | 0, _ :: _, _, hl => by simp [wrapLines] at hl
  | n + 1, c :: s, l, hl => by
      rw [wrapLines] at hl
      rcases List.mem_cons.mp hl with rfl | hl
      · exact wrapLine_infix lineLength (c :: s)
      · exact (infix_of_mem_wrapLines l hl).trans (wrapLine_suffix lineLength (c :: s)).isInfix

end Lines

/-- The wrapped text is its lines, each ended. -/
theorem wrapText_eq_unlines (text : Bytes) (lineLength : ℕ) : wrapText text lineLength =
    unlines (wrapLines (max 1 (min lineLength 998)) text.length text) :=
  wrapLoop_eq_unlines (Nat.lt_of_lt_of_le Nat.one_pos (Nat.le_max_left _ _)) (Nat.le_refl _)
    (Nat.le_refl _)

/-- **Wrapped text is made of lines, each a piece of the text.** -/
theorem exists_unlines_wrapText (text : Bytes) (lineLength : ℕ) :
    ∃ ls, wrapText text lineLength = unlines ls ∧ ∀ l ∈ ls, l <:+: text :=
  ⟨_, wrapText_eq_unlines text lineLength, infix_of_mem_wrapLines⟩

end MailStack.Mime
