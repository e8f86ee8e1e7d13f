import MailStack.Imap.Termination
import MailStack.Imap.Utils

/-!
# Imap/Items — how the arguments of a `FETCH` line are read

The parser cuts the line into atoms and lists, and `FETCH` cuts its second argument into words and
puts the words of a `BODY[HEADER.FIELDS` section together again.  Both are said here of texts that
are made of words: `parseArgs_atom` and `parseArgs_list` for the first, `splitArgs_joinWords` and
`combineSections_words` for the second.
-/

open Bytes

namespace MailStack.Imap

/-! ## Atoms and lists -/

theorem parseArgs_succ {n : ℕ} {s : Bytes} (hs : s ≠ []) (args : List Bytes) :
    parseArgs (n + 1) s args = parseArgs n (parseArgsStep s args).1 (parseArgsStep s args).2 := by
  obtain ⟨c, t, rfl⟩ := List.exists_cons_of_ne_nil hs
  rfl

theorem parseArgs_nil (n : ℕ) (args : List Bytes) : parseArgs n [] args = some args := by
  cases n <;> rfl

/-- More iterations change nothing once the loop has ended. -/
theorem parseArgs_mono : ∀ {n m : ℕ} {s : Bytes} {args r : List Bytes}, n ≤ m →
    parseArgs n s args = some r → parseArgs m s args = some r
  | n, m, [], args, r, _, h => by
      rw [parseArgs_nil] at h ⊢
      exact h
  | 0, _, _ :: _, _, _, _, h => nomatch h
  | n + 1, 0, _ :: _, _, _, hle, _ => absurd hle (Nat.not_succ_le_zero n)
  | n + 1, m + 1, c :: s, _, _, hle, h => by
      rw [parseArgs] at h ⊢
      exact parseArgs_mono (Nat.le_of_succ_le_succ hle) h

/-- The line is parsed to this command. -/
def Parses (line : Bytes) (cmd : ImapCommand) : Prop := ∃ n, parse n line = some cmd

/-- More fuel gives the same command. -/
theorem parse_mono {n m : ℕ} {line : Bytes} {cmd : ImapCommand} (hle : n ≤ m)
    (h : parse n line = some cmd) : parse m line = some cmd := by
  have hargs : ∀ {args : Bytes} {f : List Bytes → ImapCommand},
      (parseArguments n args).map f = some cmd → (parseArguments m args).map f = some cmd := by
    intro args f hf
    obtain ⟨r, hr, rfl⟩ := Option.map_eq_some_iff.mp hf
    exact Option.map_eq_some_iff.mpr ⟨r, parseArgs_mono hle hr, rfl⟩
  unfold parse at h ⊢
  split_ifs at h ⊢ with hempty
  · exact h
  · cases hline : cut ' '.toUInt8 line with
    | none => rwa [hline] at h
    | some p =>
      simp only [hline] at h ⊢
      split_ifs at h ⊢ with huid
      · cases hsub : cut ' '.toUInt8 (splitCommand p.2).2 with
        | none => rwa [hsub] at h
        | some q =>
          simp only [hsub] at h ⊢
          cases htype : uidSubCommand q.1 with
          | none => rwa [htype] at h
          | some type =>
            simp only [htype] at h ⊢
            exact hargs h
      · exact hargs h

/-- A line is parsed to one command. -/
theorem Parses.unique {line : Bytes} {cmd cmd' : ImapCommand} (h : Parses line cmd)
    (h' : Parses line cmd') : cmd = cmd' := by
  obtain ⟨n, hn⟩ := h
  obtain ⟨m, hm⟩ := h'
  have hmax := parse_mono (Nat.le_max_left n m) hn
  rw [parse_mono (Nat.le_max_right n m) hm] at hmax
  exact (Option.some.inj hmax).symm

/-- The arguments are a part of the line. -/
theorem length_argumentText_le {line args : Bytes} (h : argumentText line = some args) :
    args.length ≤ line.length := by
  have hcut : ∀ {s a b : Bytes}, cut ' '.toUInt8 s = some (a, b) → b.length ≤ s.length := by
    intro s a b hs
    obtain ⟨rfl, -⟩ := cut_eq_some_iff.mp hs
    rw [List.length_append, List.length_cons]
    omega
  have hsplit : ∀ s : Bytes, (splitCommand s).2.length ≤ s.length := by
    intro s
    rw [splitCommand]
    cases hs : cut ' '.toUInt8 s with
    | none => exact Nat.zero_le _
    | some p => exact hcut hs
  rw [argumentText] at h
  obtain ⟨⟨tag, rest⟩, hline, h⟩ := Option.bind_eq_some_iff.mp h
  have hrest := (hsplit rest).trans (hcut hline)
  split_ifs at h with huid
  · obtain ⟨⟨sub, text⟩, hsub, h⟩ := Option.bind_eq_some_iff.mp h
    obtain ⟨-, -, rfl⟩ := Option.map_eq_some_iff.mp h
    exact (hcut hsub).trans hrest
  · obtain rfl := Option.some.inj h
    exact hrest

/-- **`Parse` returns within one iteration per character, if at all.** -/
theorem Parses.parse_length {line : Bytes} {cmd : ImapCommand} (h : Parses line cmd) :
    parse line.length line = some cmd := by
  have hsome : (parse line.length line).isSome := by
    cases hargs : argumentText line with
    | none => exact parse_of_argumentText_none hargs _
    | some args =>
      rw [isSome_parse_of_argumentText_some hargs]
      cases hstray : strayClose .args args with
      | false =>
        obtain ⟨r, hr⟩ := exists_parseArgs_eq_some line.length [] (length_argumentText_le hargs) hstray
        exact Option.isSome_iff_exists.mpr ⟨r, hr⟩
      | true =>
        obtain ⟨n, hn⟩ := h
        have hnone : parseArguments n args = none := parseArgs_eq_none n [] hstray
        have hparse := isSome_parse_of_argumentText_some hargs n
        rw [hn, hnone] at hparse
        exact nomatch hparse
  obtain ⟨cmd', hcmd'⟩ := Option.isSome_iff_exists.mp hsome
  rw [hcmd', Parses.unique ⟨_, hcmd'⟩ h]

section Elements

variable {n : ℕ} {w rest : Bytes} {args : List Bytes}

/-- An element is taken where it starts with a byte that is not skipped. -/
theorem parseArgs_element {c : UInt8} {t elem : Bytes} (hc : c ≠ ' '.toUInt8)
    (helem : parseElement (c :: t) = (elem, rest)) (hlt : rest.length < (c :: t).length) :
    parseArgs (n + 1) (c :: t) args = parseArgs n (skipWhitespace rest) (args ++ [elem]) := by
  have hskip : skipWhitespace (c :: t) = c :: t := by
    rw [skipWhitespace, List.dropWhile_cons_of_neg (by simpa using hc)]
  rw [parseArgs_succ (List.cons_ne_nil c t), parseArgsStep, hskip]
  simp only [helem, if_pos hlt]

/-- **An atom is read up to what stops it.** -/
theorem parseArgs_atom (hne : w ≠ []) (hw : ∀ c ∈ w, stopsAtom c = false)
    (hrest : ∀ c ∈ rest.head?, stopsAtom c = true) :
    parseArgs (n + 1) (w ++ rest) args = parseArgs n (skipWhitespace rest) (args ++ [w]) := by
  have hstop : ∀ t : Bytes, (∀ c ∈ t.head?, stopsAtom c = true) →
      t.takeWhile (!stopsAtom ·) = [] ∧ t.dropWhile (!stopsAtom ·) = t := by
    intro t ht
    cases t with
    | nil => exact ⟨rfl, rfl⟩
    | cons c t =>
      have hc : stopsAtom c = true := ht c rfl
      exact ⟨List.takeWhile_cons_of_neg (by simp [hc]), List.dropWhile_cons_of_neg (by simp [hc])⟩
  have hatom : parseAtom (w ++ rest) = (w, rest) := by
    have hall : ∀ c ∈ w, (!stopsAtom c) = true := fun c hc => by rw [hw c hc]; rfl
    rw [parseAtom, List.takeWhile_append_of_pos hall, List.dropWhile_append_of_pos hall,
      (hstop rest hrest).1, (hstop rest hrest).2, List.append_nil]
  obtain ⟨c, t, rfl⟩ := List.exists_cons_of_ne_nil hne
  have hc : stopsAtom c = false := hw c List.mem_cons_self
  simp only [stopsAtom, Bool.or_eq_false_iff, decide_eq_false_iff_not] at hc
  obtain ⟨⟨⟨⟨hspace, hopen⟩, -⟩, hquote⟩, hbrace⟩ := hc
  rw [List.cons_append] at hatom ⊢
  refine parseArgs_element hspace ?_ ?_
  · rw [← hatom, parseElement]
    simp only [if_neg hquote, if_neg hopen, if_neg hbrace]
  · simp only [List.length_cons, List.length_append]
    omega

/-- An atom before a space is an argument. -/
theorem parseArgs_atom_space (hne : w ≠ []) (hw : ∀ c ∈ w, stopsAtom c = false) :
    parseArgs (n + 1) (w ++ ' '.toUInt8 :: rest) args =
      parseArgs n (skipWhitespace rest) (args ++ [w]) := by
  have hrest : ∀ c ∈ (' '.toUInt8 :: rest).head?, stopsAtom c = true := by
    intro c hc
    obtain rfl := Option.some.inj hc
    decide
  exact parseArgs_atom hne hw hrest

/-- So is one at the end. -/
theorem parseArgs_atom_end (hne : w ≠ []) (hw : ∀ c ∈ w, stopsAtom c = false) :
    parseArgs (n + 1) w args = some (args ++ [w]) := by
  have hatom : parseArgs (n + 1) (w ++ []) args = parseArgs n [] (args ++ [w]) :=
    parseArgs_atom hne hw fun c hc => nomatch hc
  rw [← List.append_nil w, hatom, parseArgs_nil, List.append_nil]

/-- **A list is read to its end.** -/
theorem parseArgs_list {s elem : Bytes} (h : parseListLoop .plain 1 s = (elem, rest))
    (hle : rest.length ≤ s.length) :
    parseArgs (n + 1) ('('.toUInt8 :: s) args =
      parseArgs n (skipWhitespace rest) (args ++ ['('.toUInt8 :: elem]) := by
  refine parseArgs_element (by decide) ?_ (Nat.lt_succ_of_le hle)
  rw [parseElement, if_neg (by decide), if_pos rfl, parseList, if_pos rfl, h]
  rfl

end Elements

/-- The scan of a list goes on behind a text that neither opens nor closes anything. -/
theorem parseListLoop_plain {depth : ℕ} (t : Bytes) :
    ∀ s : Bytes, (∀ c ∈ s, c ≠ '('.toUInt8 ∧ c ≠ ')'.toUInt8 ∧ c ≠ '['.toUInt8 ∧ c ≠ '"'.toUInt8) →
      parseListLoop .plain (depth + 1) (s ++ t) =
        (s ++ (parseListLoop .plain (depth + 1) t).1, (parseListLoop .plain (depth + 1) t).2)
  | [], _ => rfl
  | c :: s, h => by
      obtain ⟨hopen, hclose, hbracket, hquote⟩ := h c List.mem_cons_self
      rw [List.cons_append, parseListLoop, if_neg hopen, if_neg hclose, if_neg hbracket,
        if_neg hquote, parseListLoop_plain t s fun c hc => h c (List.mem_cons_of_mem _ hc)]
      rfl

/-- In a bracketed section nothing is looked at but brackets. -/
theorem parseListLoop_bracket {b depth : ℕ} (t : Bytes) :
    ∀ s : Bytes, (∀ c ∈ s, c ≠ '['.toUInt8 ∧ c ≠ ']'.toUInt8) →
      parseListLoop (.bracket b) depth (s ++ t) =
        (s ++ (parseListLoop (.bracket b) depth t).1, (parseListLoop (.bracket b) depth t).2)
  | [], _ => rfl
  | c :: s, h => by
      obtain ⟨hopen, hclose⟩ := h c List.mem_cons_self
      rw [List.cons_append, parseListLoop.eq_def]
      simp only [if_neg hopen, if_neg hclose]
      rw [parseListLoop_bracket t s fun c hc => h c (List.mem_cons_of_mem _ hc)]
      rfl

/-- A word in parentheses at the end of the line is read whole, whatever brackets it has. -/
theorem parseListLoop_word : ∀ (w : Bytes) (mode : ListMode), (∀ esc, mode ≠ .quoted esc) →
    (∀ c ∈ w, c ≠ '('.toUInt8 ∧ c ≠ ')'.toUInt8 ∧ c ≠ '"'.toUInt8) →
      parseListLoop mode 1 (w ++ lit ")") = (w ++ lit ")", []) := by
  intro w
  induction w with
  | nil =>
    intro mode hmode _
    cases mode with
    | plain => rfl
    | bracket b => rfl
    | quoted esc => exact absurd rfl (hmode esc)
  | cons c w ih =>
    intro mode hmode h
    obtain ⟨⟨hopen, hclose, hquote⟩, hw⟩ := List.forall_mem_cons.mp h
    have hplain := ih .plain (by simp) hw
    have hbracket := fun b => ih (.bracket b) (by simp) hw
    cases mode with
    | plain =>
      rw [List.cons_append, parseListLoop, if_neg hopen, if_neg hclose, if_neg hquote, hplain,
        hbracket, ite_self]
      rfl
    | bracket b =>
      cases b with
      | zero =>
        rw [List.cons_append, parseListLoop, hbracket, hbracket, hplain, ite_self, ite_self]
        rfl
      | succ b =>
        rw [List.cons_append, parseListLoop, hbracket, hbracket, hbracket, ite_self, ite_self]
        rfl
    | quoted esc => exact absurd rfl (hmode esc)

/-! ## Words -/

/-- Words with one space between any two. -/
def joinWords (ws : List Bytes) : Bytes := (lit " ").intercalate ws

theorem joinWords_cons_cons (w v : Bytes) (ws : List Bytes) :
    joinWords (w :: v :: ws) = w ++ ' '.toUInt8 :: joinWords (v :: ws) := by
  rw [joinWords, List.intercalate_cons_cons, List.append_assoc]
  rfl

@[simp] theorem joinWords_singleton (w : Bytes) : joinWords [w] = w := by simp [joinWords]

/-- What is written behind the last word is behind the words. -/
theorem joinWords_concat_append (w e : Bytes) :
    ∀ ws : List Bytes, joinWords (ws ++ [w ++ e]) = joinWords (ws ++ [w]) ++ e
  | [] => by simp
  | [v] => by simp [joinWords_cons_cons]
  | v :: v' :: ws => by
      have hrest := joinWords_concat_append w e (v' :: ws)
      rw [List.cons_append, List.cons_append] at hrest
      rw [List.cons_append, List.cons_append, joinWords_cons_cons, hrest, List.cons_append,
        List.cons_append, joinWords_cons_cons, List.append_assoc, List.cons_append]

/-- Joining brings in spaces only. -/
theorem mem_joinWords {c : UInt8} : ∀ {ws : List Bytes}, c ∈ joinWords ws →
    c = ' '.toUInt8 ∨ ∃ w ∈ ws, c ∈ w
  | [], h => absurd h (by simp [joinWords])
  | [w], h => .inr ⟨w, List.mem_singleton.mpr rfl, by simpa using h⟩
  | w :: v :: ws, h => by
      rw [joinWords_cons_cons, List.mem_append, List.mem_cons] at h
      rcases h with h | h | h
      · exact .inr ⟨w, List.mem_cons_self .., h⟩
      · exact .inl h
      · exact (mem_joinWords h).imp_right fun ⟨u, hu, hc⟩ => ⟨u, List.mem_cons_of_mem _ hu, hc⟩

/-- Not empty, and without white space. -/
def IsWord (w : Bytes) : Prop := w ≠ [] ∧ ∀ c ∈ w, isSpace c = false

/-- **`SplitArgs` finds the words.** -/
theorem splitArgs_joinWords : ∀ {ws : List Bytes}, (∀ w ∈ ws, IsWord w) →
    splitArgs (joinWords ws) = ws
  | [], _ => by simp [splitArgs, joinWords]
  | [w], h => by
      obtain ⟨hne, hw⟩ := h w List.mem_cons_self
      rw [joinWords_singleton, splitArgs, List.splitOnP_eq_singleton hw,
        List.filter_cons_of_pos (by simpa using hne), List.filter_nil]
  | w :: v :: ws, h => by
      obtain ⟨hne, hw⟩ := h w List.mem_cons_self
      have hrest : splitArgs (joinWords (v :: ws)) = v :: ws :=
        splitArgs_joinWords fun u hu => h u (List.mem_cons_of_mem _ hu)
      rw [splitArgs] at hrest
      rw [joinWords_cons_cons, splitArgs,
        List.splitOnP_append_cons_of_forall_mem hw _ (by decide),
        List.filter_cons_of_pos (by simpa using hne), hrest]

/-- The bracket that ends a section, written where it is missing. -/
def closeSection (content : Bytes) : Bytes :=
  if content.getLast? = some ']'.toUInt8 then content else content ++ lit "]"

/-- **An open section takes up the words that follow**, where only the last of them can end it. -/
theorem combineSections_words (start : Bytes) : ∀ {ws : List Bytes} (content w : Bytes),
    w ≠ [] → (∀ v ∈ ws, v ≠ [] ∧ ']'.toUInt8 ∉ v) →
      combineSections (some (start, content)) (ws ++ [w]) =
        [start ++ closeSection (content ++ ' '.toUInt8 :: joinWords (ws ++ [w]))]
  | [], content, w, hw, _ => by
      rw [List.nil_append, joinWords_singleton, combineSections, closeSection]
      split_ifs with h h' h'
      · simp [lit, combineSections]
      · exact absurd (by simpa [lit] using h) h'
      · exact absurd (by simpa [lit] using h') h
      · simp [lit, combineSections]
  | v :: ws, content, w, hw, h => by
      obtain ⟨hv, hlast⟩ := h v List.mem_cons_self
      have hopen : (content ++ lit " " ++ v).getLast? ≠ some ']'.toUInt8 := by
        rw [List.getLast?_append_of_ne_nil _ hv]
        exact fun hmem => hlast (List.mem_of_getLast? hmem)
      have hrest := combineSections_words start (content ++ lit " " ++ v) w hw
        fun u hu => h u (List.mem_cons_of_mem _ hu)
      rw [List.cons_append, combineSections, if_neg hopen, hrest]
      congr 2
      obtain ⟨u, us, hus⟩ := List.exists_cons_of_ne_nil
        (List.append_ne_nil_of_right_ne_nil ws (List.cons_ne_nil w []))
      rw [hus, joinWords_cons_cons]
      simp [lit]

end MailStack.Imap
