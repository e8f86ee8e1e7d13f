import Mathlib.Data.List.Basic
import Mathlib.Tactic.Common
import MailStack.Machinery.Bytes

/-!
# Machinery/Path — the lexical normal form of a relative path

A relative path is a walk through directories: each part stays, goes up, or goes down to a name.  Its
normal form is a `Location`: so many steps up, and then down some names.  `under a` is where that is
for someone who starts in the directory `a` rather than in `.`, and `under_walk` says that this may
be taken before the walk or after it.
-/

open Bytes

namespace Path

variable {α : Type*}

/-- What a part of a path does. -/
inductive Move (α : Type*)
  | stay
  | up
  | down (name : α)

/-- A normal form: steps up, and then names, the innermost first. -/
structure Location (α : Type*) where
  ups : ℕ := 0
  names : List α := []
  deriving DecidableEq, Repr

namespace Location

def move (l : Location α) : Move α → Location α
  | .stay => l
  | .up =>
    match l.names with
    | [] => { l with ups := l.ups + 1 }
    | _ :: names => { l with names }
  | .down a => { l with names := a :: l.names }

def walk (l : Location α) (moves : List (Move α)) : Location α := moves.foldl move l

/-- The location, seen from the directory that holds `a`. -/
def under (a : α) (l : Location α) : Location α :=
  match l.ups with
  | 0 => { l with names := l.names ++ [a] }
  | k + 1 => { l with ups := k }

theorem under_move (a : α) (l : Location α) (m : Move α) :
    (l.under a).move m = (l.move m).under a := by
  obtain ⟨ups, names⟩ := l
  cases m with
  | stay => rfl
  | down b => cases ups <;> rfl
  | up => cases ups <;> cases names <;> rfl

/-- **Starting in `a` is going where `a` is.** -/
theorem under_walk (a : α) (moves : List (Move α)) (l : Location α) :
    (l.under a).walk moves = (l.walk moves).under a := by
  induction moves generalizing l with
  | nil => rfl
  | cons m moves ih =>
    have hstep : (l.under a).walk (m :: moves) = ((l.move m).under a).walk moves :=
      congrArg (walk · moves) (under_move a l m)
    rw [hstep, ih]
    rfl

/-- Strictly below the directory `a`. -/
def StrictlyBelow (a : α) (l : Location α) : Prop :=
  l.ups = 0 ∧ ∃ names, names ≠ [] ∧ l.names = names ++ [a]

/-- Below `a` is what never leaves it, or leaves it once and comes back through it. -/
theorem strictlyBelow_under_iff {a : α} {l : Location α} : StrictlyBelow a (l.under a) ↔
    l.ups = 0 ∧ l.names ≠ [] ∨ l.ups = 1 ∧ ∃ names, names ≠ [] ∧ l.names = names ++ [a] := by
  obtain ⟨ups, names⟩ := l
  match ups with
  | 0 => simp [StrictlyBelow, under]
  | 1 => simp [StrictlyBelow, under]
  | k + 2 => simp [StrictlyBelow, under]

/-- The second leaves `a` and comes back through it, and then goes where the first goes. -/
def Returns (a : α) (l l' : Location α) : Prop :=
  l.ups = 0 ∧ l'.ups = 1 ∧ l'.names = l.names ++ [a]

theorem under_eq_under_iff {a : α} {l l' : Location α} :
    l.under a = l'.under a ↔ l = l' ∨ Returns a l l' ∨ Returns a l' l := by
  obtain ⟨ups, names⟩ := l
  obtain ⟨ups', names'⟩ := l'
  cases ups with
  | zero =>
    cases ups' with
    | zero => simp [under, Returns]
    | succ k => cases k <;> simp [under, Returns, eq_comm]
  | succ k =>
    cases ups' with
    | zero => cases k <;> simp [under, Returns, eq_comm]
    | succ k' => simp [under, Returns]

end Location

/-! ## Paths of bytes -/

/-- The part between two separators: nothing and `.` stay, `..` goes up. -/
def part (s : Bytes) : Move Bytes :=
  if s = [] ∨ s = lit "." then .stay
  else if s = lit ".." then .up
  else .down s

/-- The lexical normal form of a relative path. -/
def normalize (path : Bytes) : Location Bytes :=
  Location.walk {} ((path.splitOn '/'.toUInt8).map part)

/-- **A path below a directory.** -/
theorem normalize_below {dir : Bytes} (hdir : '/'.toUInt8 ∉ dir) (hname : part dir = .down dir)
    (path : Bytes) : normalize (dir ++ '/'.toUInt8 :: path) = (normalize path).under dir := by
  rw [normalize, List.splitOn_append_cons_self, List.splitOn_eq_singleton hdir, List.map_append,
    List.map_singleton, hname]
  exact Location.under_walk dir _ {}

end Path
