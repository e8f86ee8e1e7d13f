import MailStack.Imap.Parser

/-!
# Client/Quote — `QuoteImap`, and what the server's parser makes of it

The client quotes every argument of a command; the server's element parser takes the quotes and the
backslashes off again.  `parse_quoteImap` says that the two are inverse on every list of arguments:
one iteration of `ParseArgs` for each of them.
-/

open Bytes

namespace MailStack.Client

open Imap

/-- The characters `QuoteImap` puts a backslash in front of. -/
def needsBackslash (c : UInt8) : Bool := c = '\\'.toUInt8 || c = '"'.toUInt8

/-- The loop of `QuoteImap`. -/
def escape : Bytes → Bytes
  | [] => []
  | c :: value => if needsBackslash c then '\\'.toUInt8 :: c :: escape value else c :: escape value

/-- `QuoteImap`. -/
def quoteImap (value : Bytes) : Bytes := '"'.toUInt8 :: (escape value ++ lit "\"")

/-- The arguments of a command, quoted and joined by single spaces. -/
def quoteArgs (args : List Bytes) : Bytes := (lit " ").intercalate (args.map quoteImap)

/-! ## One argument -/

/-- **`ParseQuoted` undoes the loop of `QuoteImap`**, and stops behind the closing quote. -/
theorem parseQuotedLoop_escape (rest : Bytes) :
    ∀ value : Bytes, parseQuotedLoop false (escape value ++ '"'.toUInt8 :: rest) = (value, rest)
  | [] => rfl
  | c :: value => by
      have ih := parseQuotedLoop_escape rest value
      rw [escape]
      split_ifs with hc
      · have hback : ¬ '\\'.toUInt8 = '"'.toUInt8 := by decide
        rw [List.cons_append, List.cons_append, parseQuotedLoop, if_neg Bool.false_ne_true,
          if_neg hback, if_pos rfl, parseQuotedLoop, if_pos rfl, ih]
        rfl
      · rw [needsBackslash, Bool.or_eq_true, decide_eq_true_eq, decide_eq_true_eq, not_or] at hc
        rw [List.cons_append, parseQuotedLoop, if_neg Bool.false_ne_true, if_neg hc.2, if_neg hc.1,
          ih]
        rfl

theorem quoteImap_append (value rest : Bytes) :
    quoteImap value ++ rest = '"'.toUInt8 :: (escape value ++ '"'.toUInt8 :: rest) := by
  rw [quoteImap, List.cons_append, List.append_assoc]
  rfl

/-- An element that starts with a quoted argument is that argument. -/
theorem parseElement_quoteImap (value rest : Bytes) :
    parseElement (quoteImap value ++ rest) = (value, rest) := by
  rw [quoteImap_append, parseElement, if_pos rfl, parseQuoted, if_pos rfl, parseQuotedLoop_escape]

theorem skipWhitespace_quoteImap (value rest : Bytes) :
    skipWhitespace (quoteImap value ++ rest) = quoteImap value ++ rest := by
  rw [quoteImap_append]
  rfl

/-- One iteration of `ParseArgs` takes one quoted argument. -/
theorem parseArgsStep_quoteImap (value rest : Bytes) (args : List Bytes) :
    parseArgsStep (quoteImap value ++ rest) args = (skipWhitespace rest, args ++ [value]) := by
  have helem := parseElement_quoteImap value rest
  rw [parseArgsStep, skipWhitespace_quoteImap]
  rw [quoteImap_append] at helem ⊢
  dsimp only
  rw [helem, if_pos]
  simp only [List.length_cons, List.length_append]
  omega

/-! ## All of them -/

theorem quoteArgs_cons_cons (a b : Bytes) (args : List Bytes) :
    quoteArgs (a :: b :: args) = quoteImap a ++ ' '.toUInt8 :: quoteArgs (b :: args) := by
  rw [quoteArgs, List.map_cons, List.map_cons, List.intercalate_cons_cons, List.append_assoc]
  rfl

theorem quoteArgs_singleton (a : Bytes) : quoteArgs [a] = quoteImap a ++ [] := by
  simp [quoteArgs]

/-- The quoted arguments start with a quote. -/
theorem skipWhitespace_quoteArgs :
    ∀ args : List Bytes, skipWhitespace (quoteArgs args) = quoteArgs args
  | [] => rfl
  | [a] => by rw [quoteArgs_singleton, skipWhitespace_quoteImap]
  | a :: b :: args => by rw [quoteArgs_cons_cons, skipWhitespace_quoteImap]

/-- **`ParseArgs` reads the quoted arguments back**, in as many iterations as there are. -/
theorem parseArgs_quoteArgs :
    ∀ {n : ℕ} {args : List Bytes} (acc : List Bytes), args.length ≤ n →
      parseArgs n (quoteArgs args) acc = some (acc ++ args)
  | n, [], acc, _ => by
      have hnil : quoteArgs [] = [] := rfl
      rw [hnil, parseArgs, List.append_nil]
  | n + 1, [a], acc, _ => by
      rw [quoteArgs_singleton, quoteImap_append, parseArgs, ← quoteImap_append,
        parseArgsStep_quoteImap]
      have hnil : parseArgs n [] (acc ++ [a]) = some (acc ++ [a]) := by cases n <;> rfl
      exact hnil
  | n + 1, a :: b :: args, acc, h => by
      have htail : parseArgs n (quoteArgs (b :: args)) (acc ++ [a]) = some (acc ++ [a] ++ b :: args) :=
        parseArgs_quoteArgs (acc ++ [a]) (Nat.le_of_succ_le_succ h)
      have hskip : skipWhitespace (' '.toUInt8 :: quoteArgs (b :: args)) =
          skipWhitespace (quoteArgs (b :: args)) := rfl
      rw [quoteArgs_cons_cons, quoteImap_append, parseArgs, ← quoteImap_append,
        parseArgsStep_quoteImap, hskip, skipWhitespace_quoteArgs, htail, List.append_assoc]
      rfl

/-- The line of a command: tag, command word, quoted arguments. -/
def commandLine (tag command : Bytes) (args : List Bytes) : Bytes :=
  tag ++ lit " " ++ command ++ lit " " ++ quoteArgs args

/-- **What the client quotes, the server reads**: of a line of a tag, a command word and quoted
arguments, `Parse` returns the tag, the type of the command and the arguments, whatever bytes these
hold.  The command word is not `UID`, which the parser knows in any letter case and reads a
subcommand after. -/
theorem parse_quoteImap {tag command : Bytes} (args : List Bytes) (htag : ' '.toUInt8 ∉ tag)
    (hcommand : ' '.toUInt8 ∉ command) (huid : toUpper command ≠ lit "UID") {n : ℕ}
    (hn : args.length ≤ n) :
    parse n (commandLine tag command args) =
      some { tag, type := stringToCommandType command, args } := by
  have hline : commandLine tag command args =
      tag ++ ' '.toUInt8 :: (command ++ ' '.toUInt8 :: quoteArgs args) := by
    simp only [commandLine, List.append_assoc]
    rfl
  have hne : commandLine tag command args ≠ [] := by
    rw [hline]
    exact List.append_ne_nil_of_right_ne_nil _ (List.cons_ne_nil _ _)
  have hsplit : splitCommand (command ++ ' '.toUInt8 :: quoteArgs args) =
      (command, quoteArgs args) := by
    rw [splitCommand, cut_eq_some_iff.mpr ⟨rfl, hcommand⟩, Option.getD_some]
  rw [parse, if_neg hne, hline, cut_eq_some_iff.mpr ⟨rfl, htag⟩]
  dsimp only
  rw [hsplit, if_neg huid, parseArguments, parseArgs_quoteArgs [] hn, List.nil_append,
    Option.map_some]

theorem parse_quoteImap_login :
    parse 2 (commandLine (lit "a1") (lit "LOGIN") [lit "al\"ice", lit "p w\\"]) =
      some ⟨lit "a1", .login, [lit "al\"ice", lit "p w\\"]⟩ :=
  parse_quoteImap _ (by decide) (by decide) (by decide) (Nat.le_refl 2)

end MailStack.Client
