import MailStack.Imap.Parser
import Mathlib.Logic.Function.Iterate

/-!
# Imap/Termination — when `ImapParser::Parse` returns

`ParseElement` sends every character outside `"`, `(`, `{` to `ParseAtom`, and `ParseAtom` stops
*in front of* a `)`.  A closing parenthesis met where an element starts is therefore never
consumed, and the loop of `ParseArgs` stays in front of it for good.

`strayClose` finds such a parenthesis by one scan of the argument text that knows nothing of
elements: it only tracks whether the scan is inside a quoted string, a literal or a list.  An
iteration of the loop does not change its verdict (`strayClose_parseArgsStep`), which gives both
directions of `returnsOn_iff`.
-/

open Bytes

namespace MailStack.Imap

/-! ## A stray closing parenthesis -/

/-- Where a scan of the argument text stands: between and inside atoms, inside a quoted string,
inside a literal, or inside a list. -/
inductive ScanCtx
  | args
  | quoted (esc : Bool)
  | literal
  | list (mode : ListMode) (depth : ℕ)
  deriving DecidableEq, Repr

/-- The context behind a character; `none` is a `)` outside strings, literals and lists. -/
def ScanCtx.next : ScanCtx → UInt8 → Option ScanCtx
  | .args, c =>
    if c = '"'.toUInt8 then some (.quoted false)
    else if c = '('.toUInt8 then some (.list .plain 0)
    else if c = '{'.toUInt8 then some .literal
    else if c = ')'.toUInt8 then none
    else some .args
  | .quoted esc, c =>
    if esc then some (.quoted false)
    else if c = '"'.toUInt8 then some .args
    else some (.quoted (c = '\\'.toUInt8))
  | .literal, c => if c = '}'.toUInt8 then some .args else some .literal
  | .list .plain depth, c =>
    if c = '('.toUInt8 then some (.list .plain (depth + 1))
    else if c = ')'.toUInt8 then
      match depth with
      | 0 => some .args
      | d + 1 => some (.list .plain d)
    else if c = '['.toUInt8 then some (.list (.bracket 0) depth)
    else if c = '"'.toUInt8 then some (.list (.quoted false) depth)
    else some (.list .plain depth)
  | .list (.bracket b) depth, c =>
    if c = '['.toUInt8 then some (.list (.bracket (b + 1)) depth)
    else if c = ']'.toUInt8 then
      match b with
      | 0 => some (.list .plain depth)
      | b + 1 => some (.list (.bracket b) depth)
    else some (.list (.bracket b) depth)
  | .list (.quoted esc) depth, c =>
    if esc then some (.list (.quoted false) depth)
    else if c = '"'.toUInt8 then some (.list .plain depth)
    else some (.list (.quoted (c = '\\'.toUInt8)) depth)

/-- The text holds a `)` outside quoted strings, literals and lists, read from a context. -/
def strayClose : ScanCtx → Bytes → Bool
  | _, [] => false
  | ctx, c :: s =>
    match ctx.next c with
    | none => true
    | some ctx' => strayClose ctx' s

/-! ## Every element parser stops in the context it started in -/

/-- A quoted text ends where the scan of the states says. -/
theorem strayClose_parseQuotedLoop :
    ∀ (esc : Bool) (s : Bytes),
      strayClose .args (parseQuotedLoop esc s).2 = strayClose (.quoted esc) s
  | _, [] => rfl
  | true, c :: s => by
      simpa [parseQuotedLoop, emit, strayClose, ScanCtx.next]
        using strayClose_parseQuotedLoop false s
  | false, c :: s => by
      by_cases hq : c = '"'.toUInt8
      · simp [parseQuotedLoop, strayClose, ScanCtx.next, hq]
      · by_cases hb : c = '\\'.toUInt8
        · have ih := strayClose_parseQuotedLoop true s
          simp only [parseQuotedLoop, strayClose, ScanCtx.next, if_neg hq, if_pos hb]
          simpa [hb] using ih
        · have ih := strayClose_parseQuotedLoop false s
          simp only [parseQuotedLoop, strayClose, ScanCtx.next, if_neg hq, if_neg hb, emit]
          simpa [hb] using ih

/-- So does a list. -/
theorem strayClose_parseListLoop :
    ∀ (mode : ListMode) (depth : ℕ) (s : Bytes),
      strayClose .args (parseListLoop mode (depth + 1) s).2 = strayClose (.list mode depth) s
  | .plain, _, [] => rfl
  | .bracket _, _, [] => rfl
  | .quoted _, _, [] => rfl
  | .plain, depth, c :: s => by
      have ih := fun m d => strayClose_parseListLoop m d s
      simp only [parseListLoop, strayClose, ScanCtx.next]
      split_ifs
      · exact ih .plain (depth + 1)
      · cases depth with
        | zero => simp [emit, parseListLoop]
        | succ d => exact ih .plain d
      · exact ih (.bracket 0) depth
      · exact ih (.quoted false) depth
      · exact ih .plain depth
  | .bracket b, depth, c :: s => by
      have ih := fun m => strayClose_parseListLoop m depth s
      simp only [parseListLoop, strayClose, ScanCtx.next]
      split_ifs
      · exact ih (.bracket (b + 1))
      · cases b with
        | zero => exact ih .plain
        | succ b => exact ih (.bracket b)
      · exact ih (.bracket b)
  | .quoted esc, depth, c :: s => by
      have ih := fun m => strayClose_parseListLoop m depth s
      simp only [parseListLoop, strayClose, ScanCtx.next]
      split_ifs with _ _ hb
      · exact ih (.quoted false)
      · exact ih .plain
      · simpa [hb] using ih (.quoted true)
      · simpa [hb, emit] using ih (.quoted false)

/-- So does the size of a literal. -/
theorem strayClose_parseLiteralLoop :
    ∀ s : Bytes, strayClose .args (parseLiteralLoop s).2 = strayClose .literal s
  | [] => rfl
  | c :: s => by
      simp only [parseLiteralLoop, strayClose, ScanCtx.next]
      split_ifs
      · rfl
      · exact strayClose_parseLiteralLoop s

/-- Dropping characters that leave the scan between elements does not change its verdict. -/
theorem strayClose_dropWhile {p : UInt8 → Bool}
    (hp : ∀ c, p c = true → ScanCtx.next .args c = some .args) :
    ∀ s : Bytes, strayClose .args (s.dropWhile p) = strayClose .args s
  | [] => rfl
  | c :: s => by
      rw [List.dropWhile_cons]
      split
      · next hc => rw [strayClose_dropWhile hp s, strayClose, hp c hc]
      · rfl

@[simp] theorem strayClose_skipWhitespace (s : Bytes) :
    strayClose .args (skipWhitespace s) = strayClose .args s := by
  refine strayClose_dropWhile (fun c hc => ?_) s
  obtain rfl : c = ' '.toUInt8 := by simpa using hc
  decide

/-- An atom goes on to where it stops. -/
theorem strayClose_parseAtom (s : Bytes) :
    strayClose .args (parseAtom s).2 = strayClose .args s := by
  refine strayClose_dropWhile (fun c hc => ?_) s
  simp only [stopsAtom, Bool.not_eq_true', Bool.or_eq_false_iff, decide_eq_false_iff_not] at hc
  obtain ⟨⟨⟨⟨-, hl⟩, hr⟩, hq⟩, hb⟩ := hc
  simp only [ScanCtx.next, if_neg hq, if_neg hl, if_neg hb, if_neg hr]

/-- **An element parser consumes a piece whose scan ends where it began.** -/
theorem strayClose_parseElement (s : Bytes) :
    strayClose .args (parseElement s).2 = strayClose .args s := by
  cases s with
  | nil => rfl
  | cons c t =>
    by_cases hq : c = '"'.toUInt8
    · have h := strayClose_parseQuotedLoop false t
      simpa only [parseElement, parseQuoted, if_pos hq, strayClose, ScanCtx.next] using h
    by_cases hl : c = '('.toUInt8
    · have h := strayClose_parseListLoop .plain 0 t
      simpa only [parseElement, parseList, if_neg hq, if_pos hl, strayClose, ScanCtx.next, emit]
        using h
    by_cases hb : c = '{'.toUInt8
    · have h := strayClose_parseLiteralLoop t
      simpa only [parseElement, parseLiteral, if_neg hq, if_neg hl, if_pos hb, strayClose,
        ScanCtx.next, emit] using h
    simpa only [parseElement, if_neg hq, if_neg hl, if_neg hb] using strayClose_parseAtom (c :: t)

/-! ## Which elements make progress -/

/-- No loop goes back. -/
theorem length_parseQuotedLoop_le :
    ∀ (esc : Bool) (s : Bytes), (parseQuotedLoop esc s).2.length ≤ s.length
  | _, [] => by simp [parseQuotedLoop]
  | esc, c :: s => by
      have ht := length_parseQuotedLoop_le true s
      have hf := length_parseQuotedLoop_le false s
      simp only [parseQuotedLoop, emit]
      split_ifs <;> simp only [List.length_cons] <;> omega

theorem length_parseListLoop_le :
    ∀ (mode : ListMode) (depth : ℕ) (s : Bytes), (parseListLoop mode depth s).2.length ≤ s.length
  | .plain, 0, s => by simp [parseListLoop]
  | .plain, _ + 1, [] => by simp [parseListLoop]
  | .bracket _, _, [] => by simp [parseListLoop]
  | .quoted _, _, [] => by simp [parseListLoop]
  | .plain, depth + 1, c :: s => by
      have ih := fun m d => length_parseListLoop_le m d s
      simp only [parseListLoop, emit, List.length_cons]
      split_ifs
      · exact Nat.le_succ_of_le (ih .plain (depth + 2))
      · exact Nat.le_succ_of_le (ih .plain depth)
      · exact Nat.le_succ_of_le (ih (.bracket 0) (depth + 1))
      · exact Nat.le_succ_of_le (ih (.quoted false) (depth + 1))
      · exact Nat.le_succ_of_le (ih .plain (depth + 1))
  | .bracket b, depth, c :: s => by
      have ih := fun m => length_parseListLoop_le m depth s
      simp only [parseListLoop, emit, List.length_cons]
      split_ifs
      · exact Nat.le_succ_of_le (ih (.bracket (b + 1)))
      · cases b with
        | zero => exact Nat.le_succ_of_le (ih .plain)
        | succ b => exact Nat.le_succ_of_le (ih (.bracket b))
      · exact Nat.le_succ_of_le (ih (.bracket b))
  | .quoted esc, depth, c :: s => by
      have ih := fun m => length_parseListLoop_le m depth s
      simp only [parseListLoop, emit, List.length_cons]
      split_ifs
      · exact Nat.le_succ_of_le (ih (.quoted false))
      · exact Nat.le_succ_of_le (ih .plain)
      · exact Nat.le_succ_of_le (ih (.quoted true))
      · exact Nat.le_succ_of_le (ih (.quoted false))

theorem length_parseLiteralLoop_le :
    ∀ s : Bytes, (parseLiteralLoop s).2.length ≤ s.length
  | [] => by simp [parseLiteralLoop]
  | c :: s => by
      have ih := length_parseLiteralLoop_le s
      simp only [parseLiteralLoop, emit, List.length_cons]
      split_ifs
      · exact Nat.le_succ _
      · exact Nat.le_succ_of_le ih

/-- **An element that starts with neither a space nor a `)` consumes something.** -/
theorem length_parseElement_lt {c : UInt8} {t : Bytes} (hs : c ≠ ' '.toUInt8)
    (hr : c ≠ ')'.toUInt8) : (parseElement (c :: t)).2.length < (c :: t).length := by
  rw [List.length_cons, Nat.lt_succ_iff]
  simp only [parseElement]
  split_ifs with hq hl hb
  · simpa only [parseQuoted, if_pos hq] using length_parseQuotedLoop_le false t
  · simpa only [parseList, if_pos hl, emit] using length_parseListLoop_le .plain 1 t
  · simpa only [parseLiteral, if_pos hb, emit] using length_parseLiteralLoop_le t
  · have hstop : stopsAtom c = false := by
      simp only [stopsAtom, Bool.or_eq_false_iff, decide_eq_false_iff_not]
      exact ⟨⟨⟨⟨hs, hl⟩, hr⟩, hq⟩, hb⟩
    simpa [parseAtom, List.dropWhile_cons, hstop] using
      (List.dropWhile_sublist (fun x => !stopsAtom x)).length_le

/-! ## The loop of `ParseArgs` -/

/-- **An iteration does not change whether a stray parenthesis lies ahead.** -/
theorem strayClose_parseArgsStep (s : Bytes) (args : List Bytes) :
    strayClose .args (parseArgsStep s args).1 = strayClose .args s := by
  rw [← strayClose_skipWhitespace s, parseArgsStep]
  cases skipWhitespace s with
  | nil => rfl
  | cons c t =>
    simp only [strayClose_skipWhitespace]
    exact strayClose_parseElement (c :: t)

theorem length_skipWhitespace_le (s : Bytes) : (skipWhitespace s).length ≤ s.length :=
  (List.dropWhile_sublist _).length_le

/-- **Without a stray parenthesis ahead, an iteration moves the cursor.** -/
theorem length_parseArgsStep_lt {s : Bytes} (hs : s ≠ []) (h : strayClose .args s = false)
    (args : List Bytes) : (parseArgsStep s args).1.length < s.length := by
  have hle := length_skipWhitespace_le s
  rw [← strayClose_skipWhitespace s] at h
  unfold parseArgsStep
  cases hsk : skipWhitespace s with
  | nil => simpa using List.length_pos_of_ne_nil hs
  | cons c t =>
    rw [hsk] at h hle
    have hsp : c ≠ ' '.toUInt8 := by
      have := List.head?_dropWhile_not (· = ' '.toUInt8) s
      rw [← skipWhitespace, hsk] at this
      simpa using this
    have hcl : c ≠ ')'.toUInt8 := by
      rintro rfl
      have hnext : ScanCtx.next .args ')'.toUInt8 = none := by decide
      simp [strayClose, hnext] at h
    have hlt := length_parseElement_lt (t := t) hsp hcl
    have hsk2 := length_skipWhitespace_le (parseElement (c :: t)).2
    simp only
    omega

/-- **Without a stray parenthesis the loop ends**, within one iteration per character. -/
theorem exists_parseArgs_eq_some :
    ∀ (n : ℕ) {s : Bytes} (args : List Bytes), s.length ≤ n → strayClose .args s = false →
      ∃ r, parseArgs n s args = some r
  | _, [], args, _, _ => ⟨args, by simp [parseArgs]⟩
  | 0, _ :: _, _, hn, _ => by simp at hn
  | n + 1, c :: s, args, hn, h => by
      have hlt := length_parseArgsStep_lt (List.cons_ne_nil c s) h args
      simp only [parseArgs]
      exact exists_parseArgs_eq_some n _ (by omega) ((strayClose_parseArgsStep _ _).trans h)

/-- **With a stray parenthesis ahead the loop never ends.** -/
theorem parseArgs_eq_none :
    ∀ (n : ℕ) {s : Bytes} (args : List Bytes), strayClose .args s = true →
      parseArgs n s args = none
  | _, [], _, h => by simp [strayClose] at h
  | 0, _ :: _, _, _ => rfl
  | n + 1, c :: s, args, h => by
      simp only [parseArgs]
      exact parseArgs_eq_none n _ ((strayClose_parseArgsStep _ _).trans h)

/-! ## `Parse` -/

/-- The loop of `ParseArgs` after `n` iterations: the remaining text and the arguments. -/
def loopState (n : ℕ) (args : Bytes) : Bytes × List Bytes :=
  (fun st => parseArgsStep st.1 st.2)^[n] (args, [])

/-- `Parse` returns on the line, and every iteration of its argument loop that starts with text
left leaves less of it, that is, moves `m_pos` forward. -/
def ReturnsOn (line : Bytes) : Prop :=
  (∃ n cmd, parse n line = some cmd) ∧
    ∀ args, argumentText line = some args → ∀ n, (loopState n args).1 ≠ [] →
      (parseArgsStep (loopState n args).1 (loopState n args).2).1.length <
        (loopState n args).1.length

/-- The loop over the arguments follows the scan. -/
theorem strayClose_loopState (args : Bytes) (n : ℕ) :
    strayClose .args (loopState n args).1 = strayClose .args args := by
  induction n with
  | zero => rfl
  | succ n ih =>
    rw [loopState, Function.iterate_succ_apply', strayClose_parseArgsStep]
    exact ih

/-- A line without arguments is parsed without entering the loop. -/
theorem parse_of_argumentText_none {line : Bytes} (h : argumentText line = none) (n : ℕ) :
    (parse n line).isSome := by
  unfold parse
  unfold argumentText at h
  split
  · rfl
  · cases hc : cut ' '.toUInt8 line with
    | none => rfl
    | some p =>
      simp only [hc, Option.bind_some] at h ⊢
      split at h
      · next hu =>
        rw [if_pos hu]
        cases hs : cut ' '.toUInt8 (splitCommand p.2).2 with
        | none => rfl
        | some q =>
          simp only [hs, Option.bind_some, Option.map_eq_none_iff] at h
          simp only [h]
          rfl
      · exact absurd h (by simp)

/-- A line with arguments is parsed exactly when its argument loop ends. -/
theorem isSome_parse_of_argumentText_some {line args : Bytes}
    (h : argumentText line = some args) (n : ℕ) :
    (parse n line).isSome = (parseArguments n args).isSome := by
  have hline : line ≠ [] := by
    rintro rfl
    exact absurd h (by simp [argumentText, cut])
  unfold parse
  unfold argumentText at h
  rw [if_neg hline]
  cases hc : cut ' '.toUInt8 line with
  | none => simp [hc] at h
  | some p =>
    simp only [hc, Option.bind_some] at h ⊢
    split at h
    · next hu =>
      rw [if_pos hu]
      cases hs : cut ' '.toUInt8 (splitCommand p.2).2 with
      | none => simp [hs] at h
      | some q =>
        simp only [hs, Option.bind_some, Option.map_eq_some_iff] at h
        obtain ⟨type, ht, rfl⟩ := h
        simp [ht]
    · next hu =>
      obtain rfl : (splitCommand p.2).2 = args := by simpa using h
      simp [if_neg hu]

/-- **`Parse` returns on a line exactly when its argument text has no `)` outside quoted strings,
literals and lists**, and then every iteration of the loop moves the cursor. -/
theorem returnsOn_iff (line : Bytes) :
    ReturnsOn line ↔ ∀ args, argumentText line = some args → strayClose .args args = false := by
  constructor
  · rintro ⟨⟨n, cmd, hcmd⟩, -⟩ args hargs
    by_contra hstray
    have hnone : parseArguments n args = none :=
      parseArgs_eq_none n [] (by simpa using hstray)
    have hsome := isSome_parse_of_argumentText_some hargs n
    rw [hcmd, hnone] at hsome
    exact absurd hsome (by simp)
  · intro h
    refine ⟨?_, fun args hargs n hne =>
      length_parseArgsStep_lt hne ((strayClose_loopState args n).trans (h args hargs)) _⟩
    cases hargs : argumentText line with
    | none => exact ⟨0, Option.isSome_iff_exists.mp (parse_of_argumentText_none hargs 0)⟩
    | some args =>
      obtain ⟨r, hr⟩ := exists_parseArgs_eq_some args.length [] (Nat.le_refl _) (h args hargs)
      refine ⟨args.length, Option.isSome_iff_exists.mp ?_⟩
      rw [isSome_parse_of_argumentText_some hargs]
      exact Option.isSome_iff_exists.mpr ⟨r, hr⟩

/-- The line `a LIST )` keeps the loop in front of its parenthesis. -/
theorem not_returnsOn_stray_close : ¬ ReturnsOn (lit "a LIST )") := by
  rintro ⟨⟨n, cmd, hcmd⟩, -⟩
  have hargs : argumentText (lit "a LIST )") = some (lit ")") := by decide
  have hnone : parseArguments n (lit ")") = none := parseArgs_eq_none n [] (by decide)
  have hsome := isSome_parse_of_argumentText_some hargs n
  rw [hcmd, hnone] at hsome
  exact absurd hsome (by simp)

end MailStack.Imap
