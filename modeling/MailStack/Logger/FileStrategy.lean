import MailStack.Machinery.Lines

/-!
# Logger/FileStrategy — `FileStrategy::Read`, the last lines of the log

The file is read backwards, byte by byte, until enough LFs are found; what was read is turned round
and cut into lines.  Where the search ends at an LF, that LF was read as well, and goes.
-/

open Bytes

namespace MailStack.Logger

/-- The loop of `Read`: the bytes before `pos` backwards, until `limit` LFs are found. -/
def readBack (content : Bytes) (limit : ℕ) : ℕ → ℕ → Bytes → Bytes
  | 0, _, buffer => buffer
  | pos + 1, linesFound, buffer =>
    if linesFound < limit then
      let c := content.getD pos 0
      readBack content limit pos (if c = '\n'.toUInt8 then linesFound + 1 else linesFound)
        (buffer ++ [c])
    else buffer

/-- `if (!s.empty() && s.back() == '\n') s.pop_back();`. -/
def popNewline (s : Bytes) : Bytes := if s.getLast? = some '\n'.toUInt8 then s.dropLast else s

/-- `FileStrategy::Read`, for the content of the file, if it can be opened. -/
def read (file : Option Bytes) (limit : ℕ) : List Bytes :=
  match file with
  | none => []
  | some content =>
    if content = [] then []
    else
      let pos := if content.getLast? = some '\n'.toUInt8 then content.length - 1 else content.length
      let buffer := popNewline (readBack content limit pos 0 [])
      (getlines '\n'.toUInt8 buffer.reverse).filter (· ≠ [])

/-! ## Backwards -/

section

variable {limit linesFound : ℕ} {buffer front line rest : Bytes}

theorem readBack_full {content : Bytes} (h : ¬ linesFound < limit) (pos : ℕ) :
    readBack content limit pos linesFound buffer = buffer := by
  cases pos with
  | zero => rfl
  | succ pos => rw [readBack, if_neg h]

/-- One byte. -/
theorem readBack_cons (h : linesFound < limit) (front : Bytes) (c : UInt8) (rest : Bytes) :
    readBack (front ++ c :: rest) limit (front.length + 1) linesFound buffer =
      readBack (front ++ c :: rest) limit front.length
        (if c = '\n'.toUInt8 then linesFound + 1 else linesFound) (buffer ++ [c]) := by
  have hget : (front ++ c :: rest).getD front.length 0 = c := by
    rw [List.getD_eq_getElem?_getD, List.getElem?_append_right (Nat.le_refl _), Nat.sub_self]
    rfl
  rw [readBack, if_pos h, hget]

/-- **A line**, up to where it starts. -/
theorem readBack_line (h : linesFound < limit) (hline : '\n'.toUInt8 ∉ line) (front : Bytes) :
    ∀ buffer rest : Bytes,
      readBack (front ++ line ++ rest) limit (front ++ line).length linesFound buffer =
        readBack (front ++ line ++ rest) limit front.length linesFound
          (buffer ++ line.reverse) := by
  induction line using List.reverseRecOn with
  | nil => simp
  | append_singleton line c ih =>
    intro buffer rest
    rw [List.mem_append, not_or, List.mem_singleton] at hline
    have hcontent : front ++ (line ++ [c]) ++ rest = front ++ line ++ c :: rest := by
      simp only [List.append_assoc, List.singleton_append]
    have hlength : (front ++ (line ++ [c])).length = (front ++ line).length + 1 := by
      rw [← List.append_assoc, List.length_append, List.length_singleton]
    rw [hcontent, hlength, readBack_cons h, if_neg (Ne.symm hline.2), ih hline.1,
      List.reverse_concat, List.append_assoc buffer, List.singleton_append]

end

/-- The last `m` lines, behind the LF at which the search for them ends. -/
def tailText (m : ℕ) (lines : List Bytes) : Bytes :=
  (if m < lines.length then lit "\n" else []) ++
    (lit "\n").intercalate (lines.drop (lines.length - m))

theorem tailText_concat {lines : List Bytes} (hne : lines ≠ []) (line : Bytes) {m : ℕ}
    (hm : 0 < m) : tailText (m + 1) (lines ++ [line]) = tailText m lines ++ lit "\n" ++ line := by
  have hlength : (lines ++ [line]).length = lines.length + 1 := List.length_append
  have hdrop : (lines ++ [line]).drop (lines.length - m) =
      lines.drop (lines.length - m) ++ [line] := List.drop_append_of_le_length (Nat.sub_le _ _)
  have hsome : lines.drop (lines.length - m) ≠ [] := by
    have := List.length_pos_of_ne_nil hne
    rw [ne_eq, List.drop_eq_nil_iff]
    omega
  rw [tailText, tailText, hlength, Nat.add_sub_add_right, hdrop, intercalate_concat hsome]
  simp only [Nat.add_lt_add_iff_right, List.append_assoc]

/-- **The search stops behind the lines it is for**, or at the start of the file. The LF before
the last line is the last one that is looked for. -/
theorem readBack_lines {limit : ℕ} {lines : List Bytes} (hlines : ∀ l ∈ lines, '\n'.toUInt8 ∉ l) :
    ∀ {linesFound : ℕ} (buffer rest : Bytes), linesFound < limit → lines ≠ [] →
      readBack ((lit "\n").intercalate lines ++ rest) limit ((lit "\n").intercalate lines).length
        linesFound buffer = buffer ++ (tailText (limit - linesFound) lines).reverse := by
  induction lines using List.reverseRecOn with
  | nil => exact fun _ _ _ h => absurd rfl h
  | append_singleton lines line ih =>
    intro linesFound buffer rest hlimit _
    obtain ⟨hlines, hline⟩ := List.forall_mem_append.mp hlines
    have hline := hline line (List.mem_singleton_self line)
    rcases eq_or_ne lines [] with rfl | hne
    · have htail : tailText (limit - linesFound) [line] = line := by
        rw [tailText, if_neg (by rw [List.length_singleton]; omega), List.length_singleton,
          show 1 - (limit - linesFound) = 0 by omega, List.drop_zero, List.intercalate_singleton,
          List.nil_append]
      have hread := readBack_line hlimit hline [] buffer rest
      rw [List.nil_append, htail, List.intercalate_singleton]
      exact hread
    · let front := (lit "\n").intercalate lines
      have hjoin : (lit "\n").intercalate (lines ++ [line]) = front ++ lit "\n" ++ line :=
        intercalate_concat hne
      have hcontent : front ++ lit "\n" ++ line ++ rest =
          front ++ '\n'.toUInt8 :: (line ++ rest) := by
        rw [List.append_assoc, List.append_assoc]
        rfl
      have hlength : (front ++ lit "\n").length = front.length + 1 := List.length_append
      rw [hjoin, readBack_line hlimit hline, hcontent, hlength, readBack_cons hlimit, if_pos rfl]
      by_cases hnext : linesFound + 1 < limit
      · have hm : limit - linesFound = limit - (linesFound + 1) + 1 := by omega
        rw [ih hlines _ _ hnext hne, hm, tailText_concat hne line (by omega)]
        simp only [List.reverse_append, List.append_assoc]
        rfl
      · have hm : limit - linesFound = 1 := by omega
        have hpos := List.length_pos_of_ne_nil hne
        have hdrop : (lines ++ [line]).drop ((lines ++ [line]).length - 1) = [line] := by
          rw [List.length_append, List.length_singleton, Nat.add_sub_cancel, List.drop_left]
        rw [readBack_full hnext, hm, tailText, hdrop, List.intercalate_singleton,
          if_pos (by rw [List.length_append, List.length_singleton]; omega), List.reverse_append,
          List.append_assoc]
        rfl

/-! ## The log -/

/-- The content of a log: each line is ended by LF, or each but the last. -/
def IsLog (lines : List Bytes) (content : Bytes) : Prop :=
  content = endLines (lit "\n") lines ∨ content = (lit "\n").intercalate lines

/-- A line of the log. -/
def IsEntry (line : Bytes) : Prop := line ≠ [] ∧ '\n'.toUInt8 ∉ line

instance (line : Bytes) : Decidable (IsEntry line) := inferInstanceAs (Decidable (_ ∧ _))

theorem head?_ne_newline {lines : List Bytes} (h : ∀ l ∈ lines, IsEntry l) :
    ((lit "\n").intercalate lines).head? ≠ some '\n'.toUInt8 := by
  cases lines with
  | nil => exact nofun
  | cons l lines =>
    obtain ⟨hne, hl⟩ := h l List.mem_cons_self
    obtain ⟨c, t, rfl⟩ := List.exists_cons_of_ne_nil hne
    rw [intercalate_cons]
    exact fun hhead => hl (Option.some.inj hhead ▸ List.mem_cons_self)

theorem getLast?_ne_newline {lines : List Bytes} (h : ∀ l ∈ lines, IsEntry l) :
    ((lit "\n").intercalate lines).getLast? ≠ some '\n'.toUInt8 := by
  rcases List.eq_nil_or_concat lines with rfl | ⟨lines, line, rfl⟩
  · exact nofun
  · rw [List.concat_eq_append] at h ⊢
    obtain ⟨hne, hline⟩ := h line (by simp)
    have hlast : ∀ s : Bytes, (s ++ line).getLast? ≠ some '\n'.toUInt8 := fun s heq => by
      rw [List.getLast?_append_of_ne_nil s hne] at heq
      exact hline (List.mem_of_getLast? heq)
    rcases eq_or_ne lines [] with rfl | hlines
    · rw [List.nil_append, List.intercalate_singleton]
      exact hlast []
    · rw [intercalate_concat hlines]
      exact hlast _

/-- The LF at which the search ended goes. -/
theorem popNewline_tailText {lines : List Bytes} (h : ∀ l ∈ lines, IsEntry l) (m : ℕ) :
    popNewline (tailText m lines).reverse =
      ((lit "\n").intercalate (lines.drop (lines.length - m))).reverse := by
  rw [tailText]
  split_ifs
  · have hreverse : ∀ s : Bytes, (lit "\n" ++ s).reverse = s.reverse ++ lit "\n" := fun s =>
      List.reverse_cons
    rw [hreverse, popNewline, show lit "\n" = ['\n'.toUInt8] from rfl, List.getLast?_concat,
      if_pos rfl, List.dropLast_concat]
  · rw [List.nil_append, popNewline, List.getLast?_reverse,
      if_neg (head?_ne_newline fun l hl => h l (List.mem_of_mem_drop hl))]

/-- **The tail of the log is read**, in the order of the file. -/
theorem read_log {lines : List Bytes} {content : Bytes} (hlines : ∀ l ∈ lines, IsEntry l)
    (hlog : IsLog lines content) (limit : ℕ) :
    read (some content) limit = lines.drop (lines.length - min limit lines.length) := by
  rcases eq_or_ne lines [] with rfl | hne
  · have hnil : content = [] := hlog.elim id id
    rw [hnil, List.drop_nil]
    rfl
  · let body := (lit "\n").intercalate lines
    have hbody : body ≠ [] := by
      obtain ⟨l, ls, rfl⟩ := List.exists_cons_of_ne_nil hne
      obtain ⟨c, t, hl⟩ := List.exists_cons_of_ne_nil (hlines l List.mem_cons_self).1
      rw [show body = (lit "\n").intercalate (l :: ls) from rfl, hl, intercalate_cons]
      exact List.cons_ne_nil c _
    have hlast : body.getLast? ≠ some '\n'.toUInt8 := getLast?_ne_newline hlines
    obtain ⟨ending, hcontent, hpos⟩ : ∃ ending, content = body ++ ending ∧
        (if content.getLast? = some '\n'.toUInt8 then content.length - 1 else content.length) =
          body.length := by
      rcases hlog with rfl | rfl
      · obtain ⟨l, ls, rfl⟩ := List.exists_cons_of_ne_nil hne
        rw [endLines_eq_intercalate]
        refine ⟨lit "\n", rfl, ?_⟩
        rw [show lit "\n" = ['\n'.toUInt8] from rfl, List.getLast?_concat, if_pos rfl,
          List.length_append, List.length_singleton, Nat.add_sub_cancel]
        rfl
      · exact ⟨[], (List.append_nil _).symm, if_neg hlast⟩
    have hcontent' : content ≠ [] := hcontent ▸ List.append_ne_nil_of_left_ne_nil hbody ending
    have hbuffer : popNewline (readBack content limit body.length 0 []) =
        ((lit "\n").intercalate (lines.drop (lines.length - limit))).reverse := by
      rcases Nat.eq_zero_or_pos limit with rfl | hlimit
      · rw [readBack_full (Nat.lt_irrefl 0), Nat.sub_zero, List.drop_length]
        rfl
      · rw [hcontent, readBack_lines (fun l hl => (hlines l hl).2) [] ending hlimit hne,
          List.nil_append, Nat.sub_zero, popNewline_tailText hlines]
    have hdrop : ∀ l ∈ lines.drop (lines.length - limit), l ≠ [] ∧ '\n'.toUInt8 ∉ l := fun l hl =>
      hlines l (List.mem_of_mem_drop hl)
    have hmin : lines.length - min limit lines.length = lines.length - limit := by omega
    rw [read]
    dsimp only
    rw [if_neg hcontent', hpos, hbuffer, List.reverse_reverse, hmin,
      show lit "\n" = ['\n'.toUInt8] from rfl, getlines_join hdrop]
    exact List.filter_eq_self.mpr fun l hl => decide_eq_true (hdrop l hl).1

theorem read_log_two : read (some (lit "a\nb\nc")) 2 =
    [lit "a", lit "b", lit "c"].drop (3 - min 2 3) :=
  @read_log [lit "a", lit "b", lit "c"] (lit "a\nb\nc")
    (by decide) (.inr rfl) 2

end MailStack.Logger
