import MailStack.Client.Exchange
import MailStack.Machinery.Lines

/-!
# Client/SmtpReply — the replies `ReadSmtpResponse` puts together

A reply is a number of lines with its code and a hyphen, and a last one with its code and a space.
The plain channel delivers it line by line, the secure one as a whole; the client takes the lines as
they come, and reads on until it has the last one.
-/

open Bytes

namespace MailStack.Client

open Imap

/-! ## The client -/

/-- `TryParseSmtpCode`. -/
def tryParseSmtpCode : Bytes → Option ℕ
  | a :: b :: c :: _ =>
    if isDigit a && isDigit b && isDigit c then
      some ((a - '0'.toUInt8).toNat * 100 + (b - '0'.toUInt8).toNat * 10 + (c - '0'.toUInt8).toNat)
    else none
  | _ => none

/-- `appendLogicalLines`: the lines of a chunk that are not empty. -/
def logicalLines (chunk : Bytes) : List Bytes := (frameLines chunk).filter (· ≠ [])

/-- What `ReadSmtpResponse` returns, its `lines`, and what it leaves to be received. -/
structure SmtpRead where
  ok : Bool
  lines : List Bytes
  chunks : List Bytes
  deriving DecidableEq, Repr

/-- `std::to_string(code) + " "`. -/
def finalPrefix (code : ℕ) : Bytes := decimal code ++ lit " "

/-- One of the lines starts with `finalPrefix`. -/
def hasFinal (code : ℕ) (lines : List Bytes) : Bool := lines.any (finalPrefix code).isPrefixOf

/-- The `while (true)` loop of `ReadSmtpResponse`. -/
def readContinued (code : ℕ) : List Bytes → List Bytes → SmtpRead
  | lines, [] => ⟨false, lines, []⟩
  | lines, chunk :: chunks =>
    let more := logicalLines chunk
    if hasFinal code more then ⟨true, lines ++ more, chunks⟩
    else readContinued code (lines ++ more) chunks

/-- `ReadSmtpResponse`, on the chunks as they are received; the channel fails behind the last. -/
def readSmtpResponse : List Bytes → SmtpRead
  | [] => ⟨false, [], []⟩
  | chunk :: chunks =>
    match logicalLines chunk with
    | [] => ⟨false, [], chunks⟩
    | front :: lines =>
      match tryParseSmtpCode front with
      | none => ⟨true, front :: lines, chunks⟩
      | some code =>
        if front.length < 4 ∨ front[3]? ≠ some '-'.toUInt8 then ⟨true, front :: lines, chunks⟩
        else if hasFinal code (front :: lines) then ⟨true, front :: lines, chunks⟩
        else readContinued code (front :: lines) chunks

/-- `GetSmtpCode`. -/
def getSmtpCode (responseLines : List Bytes) : ℤ :=
  match responseLines.getLast? with
  | none => -1
  | some line => (tryParseSmtpCode line).elim (-1) Nat.cast

/-! ## A reply -/

/-- A text that stands at the end of one line. -/
def IsLineEnd (t : Bytes) : Prop := '\n'.toUInt8 ∉ t ∧ t.getLast? ≠ some '\r'.toUInt8

instance (t : Bytes) : Decidable (IsLineEnd t) := inferInstanceAs (Decidable (_ ∧ _))

/-- A reply, by the texts of its lines. -/
structure SmtpReply where
  code : ℕ
  texts : List Bytes
  last : Bytes
  le_code : 200 ≤ code
  code_le : code ≤ 599
  isLineEnd : ∀ t ∈ last :: texts, IsLineEnd t

namespace SmtpReply

variable (r : SmtpReply)

/-- The lines but the last. -/
def continued : List Bytes := r.texts.map (decimal r.code ++ lit "-" ++ ·)

def finalLine : Bytes := decimal r.code ++ lit " " ++ r.last

def lines : List Bytes := r.continued ++ [r.finalLine]

end SmtpReply

/-- The lines as one chunk. -/
def chunkOf (lines : List Bytes) : Bytes := (lit "\r\n").intercalate lines

/-! ## Its lines -/

/-- A code of three digits is read whatever follows. -/
theorem tryParseSmtpCode_append {code : ℕ} (hlo : 100 ≤ code) (hhi : code ≤ 999) (t : Bytes) :
    tryParseSmtpCode (decimal code ++ t) = some code := by
  have hlength : (decimal code).length = 3 := length_decimal (k := 2) hlo (by omega)
  obtain ⟨a, b, c, habc⟩ := List.length_eq_three.mp hlength
  have hdigit : ∀ x ∈ [a, b, c], isDigit x = true := by
    rw [← habc]
    exact fun x hx => isDigit_of_mem_decimal hx
  have hvalue : digitsValue [a, b, c] = code := by rw [← habc, digitsValue_decimal]
  simp only [digitsValue, List.foldl_cons, List.foldl_nil] at hvalue
  have hall : (isDigit a && isDigit b && isDigit c) = true := by simp [hdigit]
  rw [habc, List.cons_append, List.cons_append, List.cons_append, tryParseSmtpCode, if_pos hall]
  exact congrArg some (by omega)

/-- The end of a line is one with a text before it. -/
theorem isLineEnd_append {s t : Bytes} (hs : '\n'.toUInt8 ∉ s) (ht : IsLineEnd t) (hne : t ≠ []) :
    IsLineEnd (s ++ t) := by
  refine ⟨List.not_mem_append hs ht.1, ?_⟩
  rw [List.getLast?_append_of_ne_nil s hne]
  exact ht.2

theorem isLineEnd_line {code : ℕ} {c : UInt8} (hc : IsLineEnd [c]) {t : Bytes} (ht : IsLineEnd t) :
    IsLineEnd (decimal code ++ [c] ++ t) := by
  have hcode : '\n'.toUInt8 ∉ decimal code := notMem_decimal _ (by decide) (by decide)
  rcases eq_or_ne t [] with rfl | hne
  · rw [List.append_nil]
    exact isLineEnd_append hcode hc (List.cons_ne_nil c [])
  · exact isLineEnd_append (List.not_mem_append hcode hc.1) ht hne

namespace SmtpReply

variable (r : SmtpReply)

/-- The lines of a reply are lines. -/
theorem isLineEnd_of_mem {l : Bytes} (h : l ∈ r.lines) : l ≠ [] ∧ IsLineEnd l := by
  have hne : ∀ (c : UInt8) (t : Bytes), decimal r.code ++ [c] ++ t ≠ [] := fun c t =>
    List.append_ne_nil_of_left_ne_nil (List.append_ne_nil_of_left_ne_nil (decimal_ne_nil _) _) t
  obtain ⟨hlast, htexts⟩ := List.forall_mem_cons.mp r.isLineEnd
  rcases List.mem_append.mp h with h | h
  · obtain ⟨t, ht, rfl⟩ := List.mem_map.mp h
    exact ⟨hne _ t, isLineEnd_line (by decide) (htexts t ht)⟩
  · obtain rfl := List.mem_singleton.mp h
    exact ⟨hne _ r.last, isLineEnd_line (by decide) hlast⟩

/-- Each begins with the code. -/
theorem tryParse_of_mem {l : Bytes} (h : l ∈ r.lines) : tryParseSmtpCode l = some r.code := by
  have hlo : 100 ≤ r.code := Nat.le_trans (by decide) r.le_code
  have hhi : r.code ≤ 999 := Nat.le_trans r.code_le (by decide)
  rcases List.mem_append.mp h with h | h
  · obtain ⟨t, -, rfl⟩ := List.mem_map.mp h
    rw [List.append_assoc]
    exact tryParseSmtpCode_append hlo hhi _
  · obtain rfl := List.mem_singleton.mp h
    rw [finalLine, List.append_assoc]
    exact tryParseSmtpCode_append hlo hhi _

/-- The byte behind the code. -/
theorem getElem?_line {code : ℕ} (hlo : 100 ≤ code) (hhi : code ≤ 999) (c : UInt8) (t : Bytes) :
    (decimal code ++ [c] ++ t)[3]? = some c := by
  have hlength : (decimal code).length = 3 := length_decimal (k := 2) hlo (by omega)
  rw [List.append_assoc, List.getElem?_append_right hlength.le, hlength]
  rfl

/-- A line with a hyphen is not the last. -/
theorem hasFinal_continued {lines : List Bytes} (h : ∀ l ∈ lines, l ∈ r.continued) :
    hasFinal r.code lines = false := by
  refine List.any_eq_false.mpr fun l hl => ?_
  obtain ⟨t, -, rfl⟩ := List.mem_map.mp (h l hl)
  rw [finalPrefix, List.append_assoc, isPrefixOf_append_left]
  exact Bool.false_ne_true

/-- The last line is final. -/
theorem hasFinal_append (lines : List Bytes) : hasFinal r.code (lines ++ [r.finalLine]) = true := by
  rw [hasFinal, List.any_append, finalLine, finalPrefix]
  simp [List.isPrefixOf_iff_prefix]

end SmtpReply

/-! ## Its chunks -/

/-- The last line of a chunk is not ended. -/
theorem chunkOf_append (last : Bytes) : ∀ lines : List Bytes,
    chunkOf (lines ++ [last]) = lines.flatMap (· ++ lit "\r\n") ++ last
  | [] => List.intercalate_singleton
  | l :: lines => by
      have hne : lines ++ [last] ≠ [] := List.append_ne_nil_of_right_ne_nil _ (List.cons_ne_nil _ _)
      have ih := chunkOf_append last lines
      obtain ⟨l', ls, hls⟩ := List.exists_cons_of_ne_nil hne
      rw [hls] at ih
      rw [List.cons_append, hls, chunkOf, List.intercalate_cons_cons, ← chunkOf, ih,
        List.flatMap_cons]
      simp only [List.append_assoc]

/-- **A chunk is cut into its lines.** -/
theorem logicalLines_chunkOf {lines : List Bytes} (hne : lines ≠ [])
    (hlines : ∀ l ∈ lines, l ≠ [] ∧ IsLineEnd l) : logicalLines (chunkOf lines) = lines := by
  obtain ⟨front, last, rfl⟩ := (List.eq_nil_or_concat lines).resolve_left hne
  rw [List.concat_eq_append] at hlines ⊢
  have hlast := hlines last (by simp)
  rw [logicalLines, chunkOf_append, frameLines_crlf hlast.1 hlast.2.1 hlast.2.2
    fun l hl => (hlines l (List.mem_append_left _ hl)).2.1]
  exact List.filter_eq_self.mpr fun l hl => decide_eq_true (hlines l hl).1

/-- Groups without lines are none. -/
theorem eq_nil_of_flatten {groups : List (List Bytes)} (hne : ∀ g ∈ groups, g ≠ [])
    (h : groups.flatten = []) : groups = [] := by
  cases groups with
  | nil => rfl
  | cons g _ => exact absurd (List.append_eq_nil_iff.mp h).1 (hne g List.mem_cons_self)

/-- The chunks of a reply: its lines, grouped. -/
structure IsGrouping (groups : List (List Bytes)) (lines : List Bytes) : Prop where
  ne_nil : ∀ g ∈ groups, g ≠ []
  flatten : groups.flatten = lines

namespace SmtpReply

variable (r : SmtpReply)

/-- **The loop stops at the last line**, wherever the chunks end. -/
theorem readContinued_groups (rest : List Bytes) :
    ∀ {groups : List (List Bytes)} {lines : List Bytes} (before : List Bytes),
      (∀ l ∈ lines, l ∈ r.continued) → IsGrouping groups (lines ++ [r.finalLine]) →
        readContinued r.code before (groups.map chunkOf ++ rest) =
          ⟨true, before ++ (lines ++ [r.finalLine]), rest⟩
  | [], lines, _, _, h => by
      have hflatten := h.flatten
      simp at hflatten
  | g :: groups, lines, before, hlines, h => by
      obtain ⟨hg, hgroups⟩ := List.forall_mem_cons.mp h.ne_nil
      have hflatten := h.flatten
      rw [List.flatten_cons] at hflatten
      have hmem : ∀ l ∈ g, l ∈ r.lines := fun l hl => by
        have hl' : l ∈ lines ++ [r.finalLine] := hflatten ▸ List.mem_append_left _ hl
        exact List.mem_append.mpr ((List.mem_append.mp hl').imp_left (hlines l))
      have hcut := logicalLines_chunkOf hg fun l hl => r.isLineEnd_of_mem (hmem l hl)
      rw [List.map_cons, List.cons_append, readContinued, hcut]
      rcases List.eq_nil_or_concat groups.flatten with hnil | ⟨front, last, hconcat⟩
      · have hempty := eq_nil_of_flatten hgroups hnil
        rw [hnil, List.append_nil] at hflatten
        rw [hempty, hflatten, if_pos (r.hasFinal_append lines)]
        rfl
      · rw [List.concat_eq_append] at hconcat
        rw [hconcat, ← List.append_assoc] at hflatten
        obtain ⟨hfront, hlast⟩ := List.append_inj' hflatten rfl
        obtain rfl := List.singleton_inj.mp hlast
        have hg' : ∀ l ∈ g, l ∈ r.continued := fun l hl =>
          hlines l (hfront ▸ List.mem_append_left _ hl)
        have hfront' : ∀ l ∈ front, l ∈ r.continued := fun l hl =>
          hlines l (hfront ▸ List.mem_append_right _ hl)
        rw [if_neg (by rw [r.hasFinal_continued hg']; exact Bool.false_ne_true),
          readContinued_groups rest (before ++ g) hfront' ⟨hgroups, hconcat⟩, ← hfront]
        simp only [List.append_assoc]

end SmtpReply

/-- **A reply whose first line is not its last** is read by the loop alone. -/
theorem readSmtpResponse_continued {chunk front : Bytes} {lines : List Bytes} {code : ℕ}
    (hlines : logicalLines chunk = front :: lines) (hcode : tryParseSmtpCode front = some code)
    (hminus : front[3]? = some '-'.toUInt8) (chunks : List Bytes) :
    readSmtpResponse (chunk :: chunks) = readContinued code [] (chunk :: chunks) := by
  have hlength : ¬ front.length < 4 := Nat.not_lt.mpr (List.getElem?_eq_some_iff.mp hminus).1
  rw [readSmtpResponse, hlines]
  dsimp only
  rw [hcode]
  dsimp only
  rw [if_neg (not_or.mpr ⟨hlength, not_not.mpr hminus⟩), readContinued, hlines, List.nil_append]

namespace SmtpReply

variable (r : SmtpReply) {groups : List (List Bytes)}

/-- The code is that of the lines. -/
theorem getSmtpCode_lines : getSmtpCode r.lines = r.code := by
  have hfinal : r.finalLine ∈ r.lines := List.mem_append_right _ List.mem_cons_self
  rw [getSmtpCode, lines, List.getLast?_concat]
  dsimp only
  rw [r.tryParse_of_mem hfinal]
  rfl

/-- A reply of one line comes as one chunk. -/
theorem readSmtpResponse_single (h : IsGrouping groups [r.finalLine]) (rest : List Bytes) :
    readSmtpResponse (groups.map chunkOf ++ rest) = ⟨true, [r.finalLine], rest⟩ := by
  have hline := r.isLineEnd_of_mem (List.mem_append_right _ List.mem_cons_self)
  have hcode := r.tryParse_of_mem (List.mem_append_right _ List.mem_cons_self)
  have hspace : r.finalLine[3]? = some ' '.toUInt8 :=
    getElem?_line (Nat.le_trans (by decide) r.le_code) (Nat.le_trans r.code_le (by decide)) _ _
  have hgroups : groups = [[r.finalLine]] := by
    cases groups with
    | nil => exact nomatch h.flatten
    | cons g groups =>
      obtain ⟨hg, hgroups⟩ := List.forall_mem_cons.mp h.ne_nil
      rcases List.append_eq_singleton_iff.mp h.flatten with ⟨hnil, -⟩ | ⟨rfl, hnil⟩
      · exact absurd hnil hg
      · rw [eq_nil_of_flatten hgroups hnil]
  have hcut : logicalLines (chunkOf [r.finalLine]) = [r.finalLine] :=
    logicalLines_chunkOf (List.cons_ne_nil _ _) (List.forall_mem_singleton.mpr hline)
  rw [hgroups, List.map_singleton, List.singleton_append, readSmtpResponse, hcut]
  dsimp only
  rw [hcode]
  dsimp only
  rw [if_pos (.inr (by rw [hspace]; decide))]

/-- **A reply is put together from its lines, however they are grouped**, and nothing behind them is
received. -/
theorem readSmtpResponse_groups (h : IsGrouping groups r.lines) (rest : List Bytes) :
    readSmtpResponse (groups.map chunkOf ++ rest) = ⟨true, r.lines, rest⟩ ∧
      getSmtpCode r.lines = r.code := by
  refine ⟨?_, r.getSmtpCode_lines⟩
  rcases eq_or_ne r.continued [] with hnil | hne
  · rw [lines, hnil, List.nil_append] at h ⊢
    exact r.readSmtpResponse_single h rest
  · rw [lines] at h ⊢
    have hloop := r.readContinued_groups rest [] (fun _ => id) h
    obtain ⟨l, ls, hcont⟩ := List.exists_cons_of_ne_nil hne
    cases groups with
    | nil => exact absurd h.flatten.symm (List.append_ne_nil_of_left_ne_nil hne _)
    | cons g groups =>
      obtain ⟨hg, -⟩ := List.forall_mem_cons.mp h.ne_nil
      obtain ⟨front, g, rfl⟩ := List.exists_cons_of_ne_nil hg
      have hflatten := h.flatten
      rw [List.flatten_cons, hcont, List.cons_append, List.cons_append] at hflatten
      obtain ⟨rfl, hflatten⟩ := List.cons.inj hflatten
      have hmem : ∀ l' ∈ front :: g, l' ∈ r.lines := fun l' hl' => by
        rw [lines, ← h.flatten, List.flatten_cons]
        exact List.mem_append_left _ hl'
      have hcut := logicalLines_chunkOf hg fun l' hl' => r.isLineEnd_of_mem (hmem l' hl')
      obtain ⟨t, -, ht⟩ : ∃ t ∈ r.texts, decimal r.code ++ lit "-" ++ t = front :=
        List.mem_map.mp (show front ∈ r.continued from hcont ▸ List.mem_cons_self)
      have hminus : front[3]? = some '-'.toUInt8 := by
        rw [← ht]
        exact getElem?_line (Nat.le_trans (by decide) r.le_code)
          (Nat.le_trans r.code_le (by decide)) _ _
      rw [List.map_cons, List.cons_append] at hloop ⊢
      have hparse := r.tryParse_of_mem (hmem front List.mem_cons_self)
      rw [readSmtpResponse_continued hcut hparse hminus, hloop, List.nil_append]

/-- `250-a`, `250-` and `250 b`, the last two in one chunk. -/
def sample : SmtpReply where
  code := 250
  texts := [lit "a", []]
  last := lit "b"
  le_code := by decide
  code_le := by decide
  isLineEnd := by decide

theorem readSmtpResponse_groups_sample :
    readSmtpResponse ([[lit "250-a"], [lit "250-", lit "250 b"]].map chunkOf ++ [lit "220 c"]) =
        ⟨true, sample.lines, [lit "220 c"]⟩ ∧ getSmtpCode sample.lines = sample.code :=
  readSmtpResponse_groups sample ⟨by decide, rfl⟩ [lit "220 c"]

end SmtpReply

end MailStack.Client
