import MailStack.Machinery.Lines

/-!
# Machinery/Endings — one text with either line ending

`crlf` writes CRLF for every LF.  On texts without a CR this is a prefix code: a word is found in the
text exactly where its code is found in the code of the text (`cutSub_crlf`), and the lines are the
same up to a CR at their ends (`map_getlines_crlf`).

`Varies t s` is looser: some of the LFs of `s` are CRLFs in `t`.
-/

open Search

namespace Bytes

variable {c : UInt8} {d s t s' t' : Bytes}

/-- CRLF for every LF. -/
def crlf (s : Bytes) : Bytes := s.flatMap fun c => if c = '\n'.toUInt8 then lit "\r\n" else [c]

@[simp] theorem crlf_nil : crlf [] = [] := rfl

theorem crlf_lf (s : Bytes) : crlf ('\n'.toUInt8 :: s) = '\r'.toUInt8 :: '\n'.toUInt8 :: crlf s := rfl

theorem crlf_cons (hc : c ≠ '\n'.toUInt8) (s : Bytes) : crlf (c :: s) = c :: crlf s := by
  rw [crlf, List.flatMap_cons, if_neg hc]
  rfl

theorem crlf_append (s t : Bytes) : crlf (s ++ t) = crlf s ++ crlf t := List.flatMap_append

/-- A text without a line feed is left as it is. -/
theorem crlf_of_notMem : ∀ {s : Bytes}, '\n'.toUInt8 ∉ s → crlf s = s
  | [], _ => rfl
  | c :: s, h => by
      rw [crlf_cons fun hc => h (hc ▸ List.mem_cons_self),
        crlf_of_notMem (List.not_mem_of_not_mem_cons h)]

theorem crlf_eq_nil_iff : crlf s = [] ↔ s = [] := by
  cases s with
  | nil => exact iff_of_true rfl rfl
  | cons c s =>
    by_cases hc : c = '\n'.toUInt8
    · rw [hc, crlf_lf]
      simp
    · rw [crlf_cons hc]
      simp

/-- No text gets shorter. -/
theorem length_le_crlf : ∀ s : Bytes, s.length ≤ (crlf s).length
  | [] => Nat.le_refl 0
  | c :: s => by
      have ih := length_le_crlf s
      by_cases hc : c = '\n'.toUInt8
      · rw [hc, crlf_lf]
        simp only [List.length_cons]
        omega
      · rw [crlf_cons hc]
        simp only [List.length_cons]
        omega

/-- No character but the carriage return comes in. -/
theorem mem_crlf {x : UInt8} (hx : x ≠ '\r'.toUInt8) : x ∈ crlf s ↔ x ∈ s := by
  induction s with
  | nil => exact Iff.rfl
  | cons c s ih =>
    by_cases hc : c = '\n'.toUInt8
    · rw [hc, crlf_lf, List.mem_cons, or_iff_right hx, List.mem_cons, List.mem_cons, ih]
    · rw [crlf_cons hc, List.mem_cons, List.mem_cons, ih]

/-- **A beginning of the code is the code of a beginning.** -/
theorem crlf_prefix_iff : ∀ {d s : Bytes}, '\r'.toUInt8 ∉ d → '\r'.toUInt8 ∉ s →
    (crlf d <+: crlf s ↔ d <+: s)
  | [], s, _, _ => iff_of_true List.nil_prefix List.nil_prefix
  | c :: d, [], _, _ => by
      rw [crlf_nil, List.prefix_nil, List.prefix_nil, crlf_eq_nil_iff]
  | c :: d, x :: s, hd, hs => by
      have ih := crlf_prefix_iff (List.not_mem_of_not_mem_cons hd) (List.not_mem_of_not_mem_cons hs)
      have hc : c ≠ '\r'.toUInt8 := fun h => hd (h ▸ List.mem_cons_self)
      have hx : x ≠ '\r'.toUInt8 := fun h => hs (h ▸ List.mem_cons_self)
      by_cases hclf : c = '\n'.toUInt8 <;> by_cases hxlf : x = '\n'.toUInt8
      · rw [hclf, hxlf, crlf_lf, crlf_lf]
        simp only [List.cons_prefix_cons, true_and, ih]
      · rw [hclf, crlf_lf, crlf_cons hxlf]
        simp [List.cons_prefix_cons, Ne.symm hx, Ne.symm hxlf]
      · rw [hxlf, crlf_lf, crlf_cons hclf]
        simp [List.cons_prefix_cons, hc, hclf]
      · rw [crlf_cons hclf, crlf_cons hxlf, List.cons_prefix_cons, List.cons_prefix_cons, ih]

/-- No code starts with an LF. -/
theorem not_crlf_prefix_lf (hd : d ≠ []) (t : Bytes) : ¬ crlf d <+: '\n'.toUInt8 :: t := by
  obtain ⟨c, d, rfl⟩ := List.exists_cons_of_ne_nil hd
  by_cases hc : c = '\n'.toUInt8
  · rw [hc, crlf_lf]
    exact fun h => absurd (List.cons_prefix_cons.mp h).1 (by decide)
  · rw [crlf_cons hc]
    exact fun h => hc (List.cons_prefix_cons.mp h).1

/-- **A word is found in the code where it is found in the text.** -/
theorem cutSub_crlf (hne : d ≠ []) (hd : '\r'.toUInt8 ∉ d) : ∀ {s : Bytes}, '\r'.toUInt8 ∉ s →
    cutSub (crlf d) (crlf s) = (cutSub d s).map fun p => (crlf p.1, crlf p.2)
  | [], _ => by
      rw [crlf_nil, cutSub, cutSub, if_neg hne, if_neg (mt crlf_eq_nil_iff.mp hne)]
      rfl
  | x :: s, hs => by
      have ih := cutSub_crlf hne hd (List.not_mem_of_not_mem_cons hs)
      by_cases hstart : d <+: x :: s
      · obtain ⟨rest, hrest⟩ := hstart
        rw [← hrest, crlf_append, cutSub_of_prefix, cutSub_of_prefix]
        rfl
      · have hcode := mt (crlf_prefix_iff hd hs).mp hstart
        rw [cutSub_cons hstart, Option.map_map]
        by_cases hx : x = '\n'.toUInt8
        · rw [hx, crlf_lf] at hcode ⊢
          rw [cutSub_cons hcode, cutSub_cons (not_crlf_prefix_lf hne _), ih, Option.map_map,
            Option.map_map]
          rfl
        · rw [crlf_cons hx] at hcode ⊢
          rw [cutSub_cons hcode, ih, Option.map_map]
          refine Option.map_congr fun p _ => ?_
          simp only [Function.comp_apply, crlf_cons hx]

/-- One without line ends is its own code. -/
theorem cutSub_crlf_of_noBreak (hne : d ≠ []) (hd : NoBreak d) (hs : '\r'.toUInt8 ∉ s) :
    cutSub d (crlf s) = (cutSub d s).map fun p => (crlf p.1, crlf p.2) := by
  have h := cutSub_crlf hne hd.1 hs
  rwa [crlf_of_notMem hd.2] at h

/-- The pieces of a text have no bytes but its own. -/
theorem mem_of_mem_getlines {delim x : UInt8} : ∀ {s l : Bytes}, l ∈ getlines delim s → x ∈ l → x ∈ s
  | [], l, hl, _ => absurd hl List.not_mem_nil
  | c :: s, l, hl, hx => by
      have ih := @mem_of_mem_getlines delim x s
      rw [getlines] at hl
      split_ifs at hl
      · rcases List.mem_cons.mp hl with rfl | hl
        · exact absurd hx List.not_mem_nil
        · exact List.mem_cons_of_mem c (ih hl hx)
      · split at hl
        · obtain rfl := List.mem_singleton.mp hl
          obtain rfl := List.mem_singleton.mp hx
          exact List.mem_cons_self
        · rename_i first rest hlines
          rw [hlines] at ih
          rcases List.mem_cons.mp hl with rfl | hl
          · rcases List.mem_cons.mp hx with rfl | hx
            · exact List.mem_cons_self
            · exact List.mem_cons_of_mem c (ih List.mem_cons_self hx)
          · exact List.mem_cons_of_mem c (ih (List.mem_cons_of_mem first hl) hx)

/-- **The lines of the code** are those of the text, for all that a CR at the end of a line counts. -/
theorem map_getlines_crlf {α : Type*} {f : Bytes → α}
    (hf : ∀ l, '\r'.toUInt8 ∉ l → f (l ++ ['\r'.toUInt8]) = f l) {s : Bytes}
    (hs : '\r'.toUInt8 ∉ s) :
    (getlines '\n'.toUInt8 (crlf s)).map f = (getlines '\n'.toUInt8 s).map f := by
  cases hcut : cut '\n'.toUInt8 s with
  | none =>
    have hlf : '\n'.toUInt8 ∉ s := fun hmem => by
      obtain ⟨a, b, rfl, ha⟩ := List.eq_append_cons_of_mem hmem
      rw [cut_eq_some_iff.mpr ⟨rfl, ha⟩] at hcut
      cases hcut
    rw [crlf_of_notMem hlf]
  | some p =>
    obtain ⟨hsplit, hline⟩ := cut_eq_some_iff.mp hcut
    have hlt : p.2.length < s.length := by
      rw [hsplit, List.length_append, List.length_cons]
      omega
    rw [hsplit] at hs ⊢
    obtain ⟨hcr₁, hcr₂⟩ := not_or.mp (mt List.mem_append.mpr hs)
    have hcode : crlf (p.1 ++ '\n'.toUInt8 :: p.2) =
        (p.1 ++ ['\r'.toUInt8]) ++ '\n'.toUInt8 :: crlf p.2 := by
      rw [crlf_append, crlf_lf, crlf_of_notMem hline, List.append_assoc]
      rfl
    rw [hcode, getlines_append_cons _ (List.not_mem_append hline (by decide)),
      getlines_append_cons _ hline, List.map_cons, List.map_cons, hf _ hcr₁,
      map_getlines_crlf hf (List.not_mem_of_not_mem_cons hcr₂)]
termination_by s.length
decreasing_by exact hlt

/-- Two LFs are never next to each other in a code. -/
theorem not_infix_crlf (s : Bytes) : ¬ lit "\n\n" <:+: crlf s := by
  induction s with
  | nil => decide
  | cons c s ih =>
    by_cases hc : c = '\n'.toUInt8
    · rw [hc, crlf_lf, List.infix_cons_iff, List.infix_cons_iff]
      rintro (h | h | h)
      · exact absurd (List.cons_prefix_cons.mp h).1 (by decide)
      · have hfirst : lit "\n" <+: crlf s := (List.cons_prefix_cons.mp h).2
        cases s with
        | nil => exact absurd hfirst (by decide)
        | cons x s =>
          obtain ⟨rest, hrest⟩ := hfirst
          exact not_crlf_prefix_lf (List.cons_ne_nil x s) rest (hrest ▸ List.prefix_rfl)
      · exact ih h
    · rw [crlf_cons hc, List.infix_cons_iff]
      rintro (h | h)
      · exact hc (List.cons_prefix_cons.mp h).1.symm
      · exact ih h

/-! ## Some of the line ends -/

/-- The first text is the second with CRLF for some of its LFs. -/
inductive Varies : Bytes → Bytes → Prop
  | nil : Varies [] []
  | byte (c : UInt8) {t s : Bytes} (h : Varies t s) : Varies (c :: t) (c :: s)
  | ending {t s : Bytes} (h : Varies t s) :
      Varies ('\r'.toUInt8 :: '\n'.toUInt8 :: t) ('\n'.toUInt8 :: s)

theorem Varies.refl : ∀ s : Bytes, Varies s s
  | [] => .nil
  | c :: s => .byte c (Varies.refl s)

/-- Texts that vary in their ends do so when joined. -/
theorem Varies.append (h : Varies t s) (h' : Varies t' s') : Varies (t ++ t') (s ++ s') := by
  induction h with
  | nil => exact h'
  | byte c _ ih => exact .byte c ih
  | ending _ ih => exact .ending ih

/-- The rewritten text varies in its ends. -/
theorem varies_crlf : ∀ s : Bytes, Varies (crlf s) s
  | [] => .nil
  | c :: s => by
      by_cases hc : c = '\n'.toUInt8
      · rw [hc, crlf_lf]
        exact .ending (varies_crlf s)
      · rw [crlf_cons hc]
        exact .byte c (varies_crlf s)

/-- Without the breaks there is no difference. -/
theorem Varies.eraseBreaks_eq (h : Varies t s) : eraseBreaks t = eraseBreaks s := by
  induction h with
  | nil => rfl
  | @byte c t s _ ih =>
    have hleft := eraseBreaks_append [c] t
    have hright := eraseBreaks_append [c] s
    exact hleft.trans (ih ▸ hright.symm)
  | @ending t s _ ih =>
    have hleft := eraseBreaks_append (lit "\r\n") t
    have hright := eraseBreaks_append (lit "\n") s
    exact hleft.trans (ih ▸ hright.symm)

/-- Nothing varies where there is no LF. -/
theorem Varies.eq_of_notMem (h : Varies t s) (hs : '\n'.toUInt8 ∉ s) : t = s := by
  induction h with
  | nil => rfl
  | byte c _ ih => exact congrArg (c :: ·) (ih (List.not_mem_of_not_mem_cons hs))
  | ending => exact absurd List.mem_cons_self hs

end Bytes
