import MailStack.Machinery.Bytes
import MailStack.Machinery.Search

/-!
# Machinery/Lines — a text of lines, seen from inside

In a text of lines that are each ended by CRLF, what has no break lies on one line, and every CR and
LF is half of a CRLF.  In a text of lines that are not empty, with either ending, two endings in a
row are first found behind the last line (`cutSub_intercalate`).
-/

open Search

namespace Bytes

variable {c : UInt8} {run front back : Bytes}

theorem noBreak_of_infix {s t : Bytes} (ht : NoBreak t) (h : s <:+: t) : NoBreak s :=
  ⟨fun hc => ht.1 (h.subset hc), fun hc => ht.2 (h.subset hc)⟩

/-- Where a text does not start with such a byte, none is taken from it. -/
theorem takeWhile_dropWhile_stop {p : UInt8 → Bool} {s : Bytes} (h : ∀ c ∈ s.head?, p c = false) :
    s.takeWhile p = [] ∧ s.dropWhile p = s := by
  cases s with
  | nil => exact ⟨rfl, rfl⟩
  | cons c s =>
    have hc : ¬ p c = true := by rw [h c rfl]; exact Bool.false_ne_true
    exact ⟨List.takeWhile_cons_of_neg hc, List.dropWhile_cons_of_neg hc⟩

/-- The first line and what follows it. -/
theorem unlines_cons_eq (l : Bytes) (ls : List Bytes) :
    unlines (l :: ls) = l ++ '\r'.toUInt8 :: '\n'.toUInt8 :: unlines ls := by
  rw [unlines_cons, List.append_assoc]
  rfl

/-- **What has no break lies on one line.** -/
theorem length_le_of_infix_unlines {n : ℕ} (hbreak : NoBreak run) :
    ∀ {ls : List Bytes}, (∀ l ∈ ls, l.length ≤ n) → run <:+: unlines ls → run.length ≤ n
  | [], _, h => by
      rw [unlines_nil, List.infix_nil] at h
      rw [h]
      exact Nat.zero_le n
  | l :: ls, hls, h => by
      obtain ⟨hl, hls⟩ := List.forall_mem_cons.mp hls
      rw [unlines_cons_eq] at h
      rcases (infix_append_cons hbreak.1).mp h with h | h
      · exact Nat.le_trans h.length_le hl
      · rcases (infix_append_cons (a := []) hbreak.2).mp h with h | h
        · exact Nat.le_trans (h.trans List.nil_infix).length_le hl
        · exact length_le_of_infix_unlines hbreak hls h

/-- The byte at a place is a half of a CRLF. -/
def Paired (front : Bytes) (c : UInt8) (back : Bytes) : Prop :=
  c = '\r'.toUInt8 ∧ back.head? = some '\n'.toUInt8 ∨
    c = '\n'.toUInt8 ∧ front.getLast? = some '\r'.toUInt8

theorem Paired.append_left (h : Paired front c back) (s : Bytes) : Paired (s ++ front) c back := by
  rcases h with h | ⟨hc, h⟩
  · exact .inl h
  · refine .inr ⟨hc, ?_⟩
    rw [List.getLast?_append, h]
    rfl

/-- **Every CR and LF is half of a CRLF.** -/
theorem paired_of_unlines (hc : ¬ NoBreak [c]) : ∀ {ls : List Bytes} {front back : Bytes},
    (∀ l ∈ ls, NoBreak l) → unlines ls = front ++ c :: back → Paired front c back
  | [], front, back, _, h => by
      rw [unlines_nil] at h
      exact absurd h.symm (List.append_ne_nil_of_right_ne_nil front (List.cons_ne_nil c back))
  | l :: ls, front, back, hls, h => by
      obtain ⟨hl, hls⟩ := List.forall_mem_cons.mp hls
      rw [unlines_cons_eq] at h
      have hnot : c ∉ l := fun hmem => hc (by
        obtain ⟨s, t, rfl⟩ := List.append_of_mem hmem
        rw [← List.singleton_append, noBreak_append, noBreak_append] at hl
        exact hl.2.1)
      rcases List.append_eq_append_iff.mp h with ⟨u, rfl, hu⟩ | ⟨u, rfl, hu⟩
      · refine Paired.append_left ?_ l
        rcases u with _ | ⟨x, _ | ⟨y, u⟩⟩
        · obtain ⟨rfl, rfl⟩ := List.cons.inj hu
          exact .inl ⟨rfl, rfl⟩
        · rw [List.singleton_append] at hu
          obtain ⟨hcr, hlf⟩ := List.cons.inj hu
          exact .inr ⟨(List.cons.inj hlf).1.symm, congrArg some hcr.symm⟩
        · rw [List.cons_append, List.cons_append] at hu
          obtain ⟨-, hlf⟩ := List.cons.inj hu
          obtain ⟨-, hu⟩ := List.cons.inj hlf
          exact (paired_of_unlines hc hls hu).append_left [x, y]
      · cases u with
        | nil =>
          obtain ⟨rfl, rfl⟩ := List.cons.inj hu
          exact .inl ⟨rfl, rfl⟩
        | cons x u =>
          obtain ⟨rfl, -⟩ := List.cons.inj hu
          exact absurd (List.mem_append_right _ List.mem_cons_self) hnot

/-- The lines are counted by their ends. -/
theorem count_unlines : ∀ {ls : List Bytes}, (∀ l ∈ ls, NoBreak l) →
    (unlines ls).count '\n'.toUInt8 = ls.length
  | [], _ => rfl
  | l :: ls, hls => by
      obtain ⟨hl, hls⟩ := List.forall_mem_cons.mp hls
      rw [unlines_cons_eq, List.count_append, List.count_eq_zero_of_not_mem hl.2,
        List.count_cons_of_ne (by decide), List.count_cons_self, count_unlines hls, Nat.zero_add,
        List.length_cons]

/-! ## Joined texts -/

/-- Joined texts, the first apart. -/
theorem intercalate_eq_flatMap (sep a : Bytes) : ∀ l : List Bytes,
    sep.intercalate (a :: l) = a ++ l.flatMap (sep ++ ·)
  | [] => by rw [List.intercalate_singleton, List.flatMap_nil, List.append_nil]
  | b :: l => by
      rw [List.intercalate_cons_cons, intercalate_eq_flatMap sep b l, List.flatMap_cons]
      simp only [List.append_assoc]

/-- Joined texts, the last apart. -/
theorem intercalate_concat {sep a : Bytes} {l : List Bytes} (hne : l ≠ []) :
    sep.intercalate (l ++ [a]) = sep.intercalate l ++ sep ++ a := by
  obtain ⟨b, l, rfl⟩ := List.exists_cons_of_ne_nil hne
  rw [List.cons_append, intercalate_eq_flatMap, intercalate_eq_flatMap, List.flatMap_append,
    List.flatMap_singleton]
  simp only [List.append_assoc]

/-- Texts that are joined by a delimiter are got back. -/
theorem getlines_join {d : UInt8} : ∀ {ls : List Bytes}, (∀ l ∈ ls, l ≠ [] ∧ d ∉ l) →
    getlines d ([d].intercalate ls) = ls
  | [], _ => rfl
  | [l], hls => by
      obtain ⟨hne, hd⟩ := hls l List.mem_cons_self
      rw [List.intercalate_singleton, getlines_of_notMem hd hne]
  | l :: l' :: ls, hls => by
      obtain ⟨⟨-, hd⟩, hls⟩ := List.forall_mem_cons.mp hls
      rw [List.intercalate_cons_cons, List.append_assoc, List.singleton_append,
        getlines_append_cons _ hd, getlines_join hls]

theorem notMem_intercalate {sep : Bytes} (hc : c ∉ sep) : ∀ {ls : List Bytes},
    (∀ l ∈ ls, c ∉ l) → c ∉ sep.intercalate ls
  | [], _ => List.not_mem_nil
  | [l], hls => by
      rw [List.intercalate_singleton]
      exact hls l List.mem_cons_self
  | l :: l' :: ls, hls => by
      obtain ⟨hl, hls⟩ := List.forall_mem_cons.mp hls
      rw [List.intercalate_cons_cons]
      exact List.not_mem_append (List.not_mem_append hl hc) (notMem_intercalate hc hls)

/-! ## Either ending -/

section Ending

variable {terminator : Bytes}

/-- The end of a line, LF or CRLF. -/
def IsTerminator (terminator : Bytes) : Prop := terminator = lit "\n" ∨ terminator = lit "\r\n"

/-- The lines, each ended so. -/
def endLines (terminator : Bytes) (lines : List Bytes) : Bytes := lines.flatMap (· ++ terminator)

theorem endLines_cons (terminator l : Bytes) (lines : List Bytes) :
    endLines terminator (l :: lines) = l ++ (terminator ++ endLines terminator lines) := by
  rw [endLines, List.flatMap_cons, List.append_assoc, endLines]

theorem endLines_eq_intercalate (terminator l : Bytes) : ∀ lines : List Bytes,
    endLines terminator (l :: lines) = terminator.intercalate (l :: lines) ++ terminator
  | [] => by rw [endLines_cons, endLines, List.flatMap_nil, List.intercalate_singleton,
      List.append_nil]
  | l' :: lines => by
      rw [endLines_cons, endLines_eq_intercalate, List.intercalate_cons_cons]
      simp only [List.append_assoc]

theorem intercalate_cons (terminator : Bytes) (c : UInt8) (t : Bytes) (lines : List Bytes) :
    terminator.intercalate ((c :: t) :: lines) = c :: terminator.intercalate (t :: lines) := by
  cases lines with
  | nil => rw [List.intercalate_singleton, List.intercalate_singleton]
  | cons l lines => rw [List.intercalate_cons_cons, List.intercalate_cons_cons]; rfl

/-- One ending is not two. -/
theorem not_infix_ending (hterm : IsTerminator terminator) {l : Bytes} (hl : NoBreak l) :
    ¬ terminator ++ terminator <:+: l ++ terminator := by
  have hcount : terminator.count '\n'.toUInt8 = 1 := by
    rcases hterm with rfl | rfl
    · decide
    · decide
  intro h
  have hle := h.sublist.count_le '\n'.toUInt8
  rw [List.count_append, List.count_append, List.count_eq_zero_of_not_mem hl.2, hcount] at hle
  omega

/-- **Two endings in a row are first found behind the last line.** -/
theorem cutSub_intercalate (hterm : IsTerminator terminator) (body : Bytes) :
    ∀ {lines : List Bytes} {l : Bytes}, NoBreak l → (∀ l' ∈ lines, l' ≠ [] ∧ NoBreak l') →
      cutSub (terminator ++ terminator)
          (terminator.intercalate (l :: lines) ++ (terminator ++ terminator ++ body)) =
        some (terminator.intercalate (l :: lines), body)
  | [], l, hl, _ => by
      obtain ⟨c, t, ht, hc⟩ : ∃ c t, terminator ++ terminator = c :: t ∧ c ∉ l := by
        rcases hterm with rfl | rfl
        · exact ⟨_, _, rfl, hl.2⟩
        · exact ⟨_, _, rfl, hl.1⟩
      rw [List.intercalate_singleton, cutSub_append (by rw [ht]; rfl) _ hc, cutSub_of_prefix]
      exact congrArg some (Prod.ext (List.append_nil l) rfl)
  | l' :: lines, l, hl, hlines => by
      obtain ⟨⟨hne, hl'⟩, hrest⟩ := List.forall_mem_cons.mp hlines
      obtain ⟨c, t, rfl⟩ := List.exists_cons_of_ne_nil hne
      have hc : c ∉ terminator ++ terminator := by
        have hout : c ∉ terminator := by
          rcases hterm with rfl | rfl
          · exact List.not_mem_cons_of_ne_of_not_mem (fun h => hl'.2 (h ▸ List.mem_cons_self))
              List.not_mem_nil
          · exact List.not_mem_cons_of_ne_of_not_mem (fun h => hl'.1 (h ▸ List.mem_cons_self))
              (List.not_mem_cons_of_ne_of_not_mem (fun h => hl'.2 (h ▸ List.mem_cons_self))
                List.not_mem_nil)
        exact List.not_mem_append hout hout
      have ht : NoBreak t :=
        ⟨List.not_mem_of_not_mem_cons hl'.1, List.not_mem_of_not_mem_cons hl'.2⟩
      rw [List.intercalate_cons_cons, intercalate_cons, List.append_assoc, List.cons_append,
        cutSub_append_of_notMem hc _ (not_infix_ending hterm hl),
        cutSub_intercalate hterm body ht hrest]
      rfl

end Ending

end Bytes
