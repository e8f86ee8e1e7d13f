import Mathlib.Data.Int.Order.Basic
import MailStack.Machinery.Run
import MailStack.Logger.FileStrategy

/-!
# Logger/Rotation — `FileStrategy::Write`, `Flush` and `Rotate`: what the two log files keep

    Write ──▸ m_file's buffer ──▸ log.txt ──Rotate──▸ old_log.txt ──Rotate──▸ removed

A message goes into the buffer of the stream, and from there, sooner or later, to the end of the
current file; where it would not fit, the current file becomes the old one first and the old one
goes.  Every call of the file system may fail.  `Write` returns true also where writing out fails;
then the stream has failed, and no later call returns true.  A failure at the `close` in `Rotate` is
forgotten as soon as the file is opened again.

As long as `close` does not fail, the two files and the buffer hold the end of what was written in
every run, and once something was removed they hold more than `MaxFileSize` of it: `kept_of_run`.  No
one else touches the two files.
-/

open Bytes

namespace MailStack.Logger

/-- `ISXLoggerConfig::MaxFileSize`. -/
def maxFileSize : ℕ := 10 * 1024 * 1024

/-- A conversion to `int`. -/
def toInt (n : ℤ) : ℤ := Int.bmod n (2 ^ 32)

theorem toInt_of_lt {n : ℕ} (h : n < 2 ^ 31) : toInt n = n :=
  Int.bmod_eq_of_le (by omega) (by omega)

/-- Adding before or after the conversion makes no difference. -/
theorem toInt_add (m n : ℤ) : toInt (toInt m + n) = toInt (m + n) := Int.bmod_add_bmod

/-- What the file system and the stream do in one call: whether the old file is removed, the current
one renamed and opened, how much of what the stream has is written out and whether that fails, and
after how many bytes `close` fails, if it does. -/
structure Fate where
  removes : Bool := true
  renames : Bool := true
  opens : Bool := true
  writes : ℕ := 0
  fails : Bool := false
  tears : Option ℕ := none

/-- `FileStrategy`, with what its stream has not written out yet, and the two files, where they
exist. -/
structure FileStrategy where
  current : Option Bytes
  old : Option Bytes
  buffer : Bytes := []
  isOpen : Bool := true
  failed : Bool := false
  size : ℤ
  lastError : Bytes := []
  deriving DecidableEq

/-- The calls of a strategy that may write. -/
inductive LogCall
  | write (message : Bytes)
  | flush

/-- What a call is to write. -/
def LogCall.text : LogCall → Bytes
  | write message => message
  | flush => []

namespace FileStrategy

/-- `IsValid`. -/
def isValid (s : FileStrategy) : Bool := s.isOpen && !s.failed

/-- `OpenFile`, and what its callers do where it fails. -/
def openFile (s : FileStrategy) (opens : Bool) : FileStrategy :=
  if opens then { s with current := some (s.current.getD []), isOpen := true, failed := false }
  else { s with isOpen := false, failed := true, lastError := lit "Can`t open log file: log.txt" }

/-- The constructor. -/
def start (current old : Option Bytes) (opens : Bool) : FileStrategy :=
  openFile { current, old, size := toInt (current.getD []).length } opens

/-- The first bytes of the buffer are written to the current file. -/
def writeOut (s : FileStrategy) (n : ℕ) : FileStrategy :=
  { s with current := some (s.current.getD [] ++ s.buffer.take n), buffer := s.buffer.drop n }

/-- `Flush`, which does nothing to a stream that is not open or has failed. -/
def flush (s : FileStrategy) (fate : Fate) : FileStrategy :=
  if ¬ s.isValid then s
  else if fate.fails then { s.writeOut fate.writes with failed := true }
  else s.writeOut s.buffer.length

/-- `m_file.close()` of an open file: what is not written out then is gone. -/
def close (s : FileStrategy) (fate : Fate) : FileStrategy :=
  { s.writeOut (fate.tears.getD s.buffer.length) with
    buffer := []
    isOpen := false
    failed := s.failed || fate.tears.isSome }

/-- `CanWrite`: the sum is compared as a `size_t`. -/
def canWrite (s : FileStrategy) (messageSize : ℤ) : Bool :=
  0 ≤ s.size + messageSize ∧ s.size + messageSize ≤ maxFileSize

/-- `Rotate` after its `close`; no result where removing the old file throws. -/
def rotate (s : FileStrategy) (fate : Fate) : Option FileStrategy :=
  if s.old.isSome ∧ ¬ fate.removes then none
  else
    let s : FileStrategy := { s with old := none }
    let s : FileStrategy :=
      match s.current with
      | none => { s with size := 0 }
      | some text =>
        if fate.renames then { s with old := some text, current := none, size := 0 }
        else { s with lastError := lit "Renamed failed" }
    some (s.openFile fate.opens)

/-- What `operator<<` does with the message. -/
def append (s : FileStrategy) (message : Bytes) (fate : Fate) : FileStrategy :=
  { ({ s with buffer := s.buffer ++ message } : FileStrategy).writeOut fate.writes with
    failed := fate.fails
    size := toInt (s.size + message.length) }

/-- `Write`: what it returns, none where it throws, and what it leaves. -/
def write (s : FileStrategy) (message : Bytes) (fate : Fate) : Option Bool × FileStrategy :=
  if ¬ s.isValid then (some false, { s with lastError := lit "Current file is not open or failed" })
  else if s.canWrite (toInt message.length) then (some true, s.append message fate)
  else
    match (s.close fate).rotate fate with
    | none => (none, s.close fate)
    | some s =>
      if ¬ s.isValid then
        (some false,
          { s with lastError := lit "Rotation failed. Couldn`t create or open new log file" })
      else (some true, s.append message fate)

/-- What the two files hold. -/
def kept (s : FileStrategy) : Bytes := s.old.getD [] ++ s.current.getD []

/-- What the two files and the stream hold. -/
def held (s : FileStrategy) : Bytes := s.kept ++ s.buffer

/-- One call: what it says it wrote, and what it leaves. -/
def call (s : FileStrategy) (fate : Fate) : LogCall → Bytes × FileStrategy
  | .write message =>
    ((if (s.write message fate).1 = some true then message else []), (s.write message fate).2)
  | .flush => ([], s.flush fate)

/-- Calls, each with its fate: all that they say they wrote, and what they leave. -/
def calls (s : FileStrategy) : List (LogCall × Fate) → Bytes × FileStrategy
  | [] => ([], s)
  | (c, fate) :: rest =>
    let r := s.call fate c
    let t := r.2.calls rest
    (r.1 ++ t.1, t.2)

/-! ## One call -/

variable {s s' : FileStrategy} {message whole : Bytes} {fate : Fate}

theorem isValid_iff : s.isValid = true ↔ s.isOpen = true ∧ s.failed = false := by simp [isValid]

/-- Writing out moves bytes from the buffer to the file. -/
@[simp] theorem held_writeOut (s : FileStrategy) (n : ℕ) : (s.writeOut n).held = s.held := by
  simp [writeOut, held, kept, List.append_assoc]

/-- Writing out moves bytes and loses none. -/
theorem length_writeOut (s : FileStrategy) (n : ℕ) :
    ((s.writeOut n).current.getD []).length + (s.writeOut n).buffer.length =
      (s.current.getD []).length + s.buffer.length := by
  simp only [writeOut, Option.getD_some, List.length_append, List.length_take, List.length_drop]
  omega

@[simp] theorem held_append (s : FileStrategy) (message : Bytes) (fate : Fate) :
    (s.append message fate).held = s.held ++ message := by
  change ((FileStrategy.writeOut { s with buffer := s.buffer ++ message } fate.writes).held) = _
  rw [held_writeOut]
  simp [held, kept, List.append_assoc]

/-- A message adds its length at most. -/
theorem length_append (s : FileStrategy) (message : Bytes) (fate : Fate) :
    ((s.append message fate).current.getD []).length + (s.append message fate).buffer.length =
      (s.current.getD []).length + s.buffer.length + message.length := by
  have h := length_writeOut { s with buffer := s.buffer ++ message } fate.writes
  rw [List.length_append, ← Nat.add_assoc] at h
  exact h

@[simp] theorem held_flush (s : FileStrategy) (fate : Fate) : (s.flush fate).held = s.held := by
  rw [flush]
  split_ifs
  · exact held_writeOut s _
  · exact held_writeOut s _
  · rfl

/-- A `close` that does not fail leaves everything in the files. -/
theorem close_spec (h : fate.tears = none) : (s.close fate).kept = s.held ∧
    ((s.close fate).current.getD []).length = (s.current.getD []).length + s.buffer.length := by
  simp [close, h, writeOut, kept, held]

/-- One that fails loses a part of the buffer. -/
theorem kept_close_sublist (s : FileStrategy) (fate : Fate) :
    (s.close fate).kept.Sublist s.held := by
  change (s.old.getD [] ++ (s.current.getD [] ++ s.buffer.take _)).Sublist _
  rw [← List.append_assoc]
  exact (List.take_sublist _ _).append_left _

/-- **What `Rotate` leaves**: the old file is gone, and the current one is the old one or, where it
was not renamed, still the current one. -/
theorem rotate_spec (h : s.rotate fate = some s') : s'.kept = s.current.getD [] ∧
    s'.buffer = s.buffer ∧ (s'.isOpen = true → s'.isValid = true) ∧
    (s'.isValid = true → s'.size = s.size ∧ s'.current = s.current ∨
      s'.size = 0 ∧ s'.current = some []) ∧
    (fate.renames = true → s'.current.getD [] = [] ∧ s'.old.getD [] = s.current.getD []) := by
  obtain ⟨current, old, buffer, isOpen, failed, size, lastError⟩ := s
  obtain ⟨removes, renames, opens, writes, fails, tears⟩ := fate
  rw [rotate] at h
  by_cases hthrows : old.isSome = true ∧ ¬ removes = true
  · rw [if_pos hthrows] at h
    cases h
  · rw [if_neg hthrows] at h
    obtain rfl := Option.some.inj h
    cases current with
    | none => cases opens <;> simp [openFile, kept, isValid]
    | some text => cases renames <;> cases opens <;> simp [openFile, kept, isValid]

/-- What one `Write` returns and leaves. -/
inductive Wrote (s : FileStrategy) (message : Bytes) (fate : Fate) (s' : FileStrategy) :
    Option Bool → Prop
  /-- The stream was not open, or had failed before. -/
  | refused (hvalid : ¬ s.isValid = true) (lastError : Bytes) (h : s' = { s with lastError }) :
      Wrote s message fate s' (some false)
  | fits (hvalid : s.isValid = true) (hcan : s.canWrite (toInt message.length) = true)
      (h : s' = s.append message fate) : Wrote s message fate s' (some true)
  | throws (hvalid : s.isValid = true) (h : s' = s.close fate) : Wrote s message fate s' none
  | shut {s₁ : FileStrategy} (hrotate : (s.close fate).rotate fate = some s₁)
      (hshut : ¬ s₁.isValid = true) (lastError : Bytes) (h : s' = { s₁ with lastError }) :
      Wrote s message fate s' (some false)
  | rotated {s₁ : FileStrategy} (hvalid : s.isValid = true)
      (hcan : s.canWrite (toInt message.length) = false)
      (hrotate : (s.close fate).rotate fate = some s₁) (hopen : s₁.isValid = true)
      (h : s' = s₁.append message fate) : Wrote s message fate s' (some true)

/-- The outcomes of `Write` are those of `Wrote`. -/
theorem wrote (s : FileStrategy) (message : Bytes) (fate : Fate) :
    Wrote s message fate (s.write message fate).2 (s.write message fate).1 := by
  rw [write]
  split_ifs with hvalid hcan
  · exact .fits hvalid hcan rfl
  · cases hrotate : (s.close fate).rotate fate with
    | none => exact .throws hvalid rfl
    | some s₁ =>
      dsimp only
      split_ifs with hopen
      · exact .rotated hvalid (by simpa using hcan) hrotate hopen rfl
      · exact .shut hrotate hopen _ rfl
  · exact .refused hvalid _ rfl

/-- **Nothing is altered, doubled or put in another place**, whatever fails. -/
theorem held_write_sublist (h : s.held.Sublist whole) (message : Bytes) (fate : Fate) :
    (s.call fate (.write message)).2.held.Sublist
      (whole ++ (s.call fate (.write message)).1) := by
  have hclose : (s.close fate).held.Sublist whole := by
    rw [held, show (s.close fate).buffer = [] from rfl, List.append_nil]
    exact (kept_close_sublist s fate).trans h
  have hrotated : ∀ {s₁ : FileStrategy}, (s.close fate).rotate fate = some s₁ →
      s₁.held.Sublist whole := by
    intro s₁ hrotate
    obtain ⟨hkept, hbuffer, -⟩ := rotate_spec hrotate
    rw [held, hkept, hbuffer, show (s.close fate).buffer = [] from rfl, List.append_nil]
    refine List.Sublist.trans ?_ hclose
    rw [held, kept, List.append_assoc]
    exact (List.sublist_append_left _ _).trans (List.sublist_append_right _ _)
  have hwrote := wrote s message fate
  rw [call]
  generalize s.write message fate = r at hwrote
  obtain ⟨result, after⟩ := r
  cases hwrote with
  | refused _ lastError hafter =>
    rw [hafter, if_neg (by simp), List.append_nil]
    exact h
  | fits _ _ hafter =>
    rw [hafter, if_pos rfl, held_append]
    exact h.append_right message
  | throws _ hafter =>
    rw [hafter, if_neg (by simp), List.append_nil]
    exact hclose
  | shut hrotate _ lastError hafter =>
    rw [hafter, if_neg (by simp), List.append_nil]
    have hsublist := hrotated hrotate
    exact hsublist
  | rotated _ _ hrotate _ hafter =>
    rw [hafter, if_pos rfl, held_append]
    exact (hrotated hrotate).append_right message

/-- `whole` is what was written: the files and the stream hold the end of it, and all of it or more
than a file may have. -/
structure Keeps (whole : Bytes) (s : FileStrategy) : Prop where
  suffix : s.held <:+ whole
  enough : s.isOpen = true → s.held = whole ∨ maxFileSize < s.held.length
  size : s.isValid = true → s.size = toInt ↑((s.current.getD []).length + s.buffer.length)

/-- **A message that is appended is kept.** -/
theorem keeps_append (hsuffix : s.held <:+ whole)
    (hsize : s.size = toInt ↑((s.current.getD []).length + s.buffer.length))
    (henough : s.held = whole ∨ maxFileSize < (s.held ++ message).length) :
    (s.append message fate).Keeps (whole ++ message) := by
  refine ⟨?_, fun _ => ?_, fun _ => ?_⟩
  · rw [held_append]
    obtain ⟨front, rfl⟩ := hsuffix
    exact ⟨front, by simp⟩
  · rw [held_append]
    exact henough.imp_left fun h => by rw [h]
  · rw [length_append, Int.natCast_add, ← toInt_add, ← hsize]
    rfl

/-- Where `CanWrite` says no, the message does not fit. -/
theorem lt_of_canWrite_eq_false {n : ℕ} (hsize : s.size = toInt n)
    (h : s.canWrite (toInt message.length) = false) : maxFileSize < n + message.length := by
  by_contra hle
  rw [Nat.not_lt, maxFileSize] at hle
  rw [canWrite, hsize, toInt_of_lt (by omega), toInt_of_lt (by omega), decide_eq_false_iff_not] at h
  exact h ⟨by omega, by rw [maxFileSize]; omega⟩

/-- A closed file keeps what it has. -/
theorem keeps_closed (hsuffix : s.held <:+ whole) (hopen : s.isOpen = false) : s.Keeps whole where
  suffix := hsuffix
  enough h := by
    rw [hopen] at h
    cases h
  size h := by
    rw [(isValid_iff.mp h).1] at hopen
    cases hopen

/-- **One `Write`** keeps what was kept, and what it says it wrote. -/
theorem Keeps.write (h : s.Keeps whole) (hclose : fate.tears = none) (message : Bytes) :
    (s.call fate (.write message)).2.Keeps (whole ++ (s.call fate (.write message)).1) := by
  obtain ⟨hkept, hlength⟩ := close_spec (s := s) hclose
  have hheld : (s.close fate).held = s.held := by
    rw [held, hkept, show (s.close fate).buffer = [] from rfl, List.append_nil]
  have hrotated : ∀ {s₁ : FileStrategy}, (s.close fate).rotate fate = some s₁ →
      s₁.held = (s.close fate).current.getD [] ∧ s₁.held <:+ whole := by
    intro s₁ hrotate
    obtain ⟨hkept₁, hbuffer, -⟩ := rotate_spec hrotate
    have heq : s₁.held = (s.close fate).current.getD [] := by
      rw [held, hkept₁, hbuffer, show (s.close fate).buffer = [] from rfl, List.append_nil]
    refine ⟨heq, List.IsSuffix.trans ?_ h.suffix⟩
    rw [heq, ← hheld, held, kept, show (s.close fate).buffer = [] from rfl, List.append_nil]
    exact List.suffix_append _ _
  have hwrote := wrote s message fate
  rw [call]
  generalize s.write message fate = r at hwrote
  obtain ⟨result, after⟩ := r
  cases hwrote with
  | refused hvalid lastError hafter =>
    rw [hafter, if_neg (by simp), List.append_nil]
    exact ⟨h.suffix, h.enough, fun hv => absurd hv hvalid⟩
  | fits hvalid hcan hafter =>
    rw [hafter, if_pos rfl]
    refine keeps_append h.suffix (h.size hvalid) ?_
    refine (h.enough (isValid_iff.mp hvalid).1).imp_right fun hlt => ?_
    rw [List.length_append]
    omega
  | throws hvalid hafter =>
    rw [hafter, if_neg (by simp), List.append_nil]
    exact keeps_closed (hheld ▸ h.suffix) rfl
  | @shut s₁ hrotate hshut lastError hafter =>
    rw [hafter, if_neg (by simp), List.append_nil]
    obtain ⟨-, -, hstays, -⟩ := rotate_spec hrotate
    exact keeps_closed (s := { s₁ with lastError }) (hrotated hrotate).2
      (Bool.eq_false_iff.mpr fun hopen => hshut (hstays hopen))
  | @rotated s₁ hvalid hcan hrotate hopen hafter =>
    rw [hafter, if_pos rfl]
    obtain ⟨-, hbuffer, -, hsize, -⟩ := rotate_spec hrotate
    obtain ⟨heq, hsuffix⟩ := hrotated hrotate
    refine keeps_append hsuffix ?_ (.inr ?_)
    · rw [hbuffer, show (s.close fate).buffer = [] from rfl, List.length_nil, Nat.add_zero]
      rcases hsize hopen with ⟨hs, hc⟩ | ⟨hs, hc⟩
      · rw [hs, hc, hlength]
        exact h.size hvalid
      · rw [hs, hc]
        rfl
    · rw [heq, List.length_append, hlength]
      exact lt_of_canWrite_eq_false (h.size hvalid) hcan

/-- **One call** keeps what was kept, and what it says it wrote. -/
theorem Keeps.call (h : s.Keeps whole) (hclose : fate.tears = none) (c : LogCall) :
    (s.call fate c).2.Keeps (whole ++ (s.call fate c).1) := by
  cases c with
  | write message => exact h.write hclose message
  | flush =>
    rw [FileStrategy.call, List.append_nil, flush]
    split_ifs with hvalid hfails
    · exact ⟨(held_writeOut s _).symm ▸ h.suffix, (held_writeOut s _).symm ▸ h.enough,
        fun hv => by simp [isValid] at hv⟩
    · refine ⟨(held_writeOut s _).symm ▸ h.suffix, (held_writeOut s _).symm ▸ h.enough, fun hv => ?_⟩
      rw [length_writeOut]
      exact h.size hv
    · exact h

/-- Neither file is larger than a file may be, nor will be. -/
def Bounded (s : FileStrategy) : Prop :=
  (s.current.getD []).length + s.buffer.length ≤ maxFileSize ∧ (s.old.getD []).length ≤ maxFileSize

/-- **A message that is not too large leaves the files so**, where the file system renames. -/
theorem Bounded.write (h : s.Bounded) (hkeeps : s.Keeps whole)
    (hsize : message.length ≤ maxFileSize) (hrenames : fate.renames = true) :
    (s.write message fate).2.Bounded := by
  have happend : ∀ {s : FileStrategy}, (s.old.getD []).length ≤ maxFileSize →
      (s.current.getD []).length + s.buffer.length + message.length ≤ maxFileSize →
        (s.append message fate).Bounded :=
    fun hold hfits => ⟨(length_append _ _ _).trans_le hfits, hold⟩
  have hclose : (s.close fate).Bounded := by
    refine ⟨?_, h.2⟩
    have hmax := h.1
    simp only [close, writeOut, Option.getD_some, List.length_append, List.length_take,
      List.length_nil]
    omega
  have hwrote := wrote s message fate
  generalize s.write message fate = r at hwrote ⊢
  obtain ⟨result, after⟩ := r
  have hrotated : ∀ {s₁ : FileStrategy}, (s.close fate).rotate fate = some s₁ →
      (s₁.current.getD []).length + s₁.buffer.length = 0 ∧
        (s₁.old.getD []).length ≤ maxFileSize := by
    intro s₁ hrotate
    obtain ⟨-, hbuffer, -, -, hrenamed⟩ := rotate_spec hrotate
    obtain ⟨hcurrent, hold⟩ := hrenamed hrenames
    rw [hcurrent, hbuffer, hold]
    exact ⟨rfl, (Nat.le_add_right _ _).trans hclose.1⟩
  cases hwrote with
  | refused _ _ hafter =>
    rw [hafter]
    exact h
  | fits hvalid hcan hafter =>
    rw [hafter]
    refine happend h.2 ?_
    have hmax := h.1
    rw [maxFileSize] at hmax hsize
    rw [canWrite, hkeeps.size hvalid, toInt_of_lt (by omega), toInt_of_lt (by omega),
      decide_eq_true_iff] at hcan
    omega
  | throws _ hafter =>
    rw [hafter]
    exact hclose
  | shut hrotate _ _ hafter =>
    rw [hafter]
    obtain ⟨hzero, hold⟩ := hrotated hrotate
    exact ⟨hzero.trans_le (Nat.zero_le _), hold⟩
  | rotated _ _ hrotate _ hafter =>
    rw [hafter]
    obtain ⟨hzero, hold⟩ := hrotated hrotate
    exact happend hold (by omega)

/-- Flushing keeps the bound on the file. -/
theorem Bounded.flush (h : s.Bounded) (fate : Fate) : (s.flush fate).Bounded := by
  rw [FileStrategy.flush]
  split_ifs
  · exact ⟨(length_writeOut s _).trans_le h.1, h.2⟩
  · exact ⟨(length_writeOut s _).trans_le h.1, h.2⟩
  · exact h

/-! ## Whole runs -/

/-- At the start the two files are all there is. -/
theorem held_start (current old : Option Bytes) (opens : Bool) :
    (start current old opens).held = old.getD [] ++ current.getD [] := by
  cases opens <;> simp [start, openFile, held, kept]

theorem keeps_start (current old : Option Bytes) (opens : Bool) :
    (start current old opens).Keeps (old.getD [] ++ current.getD []) := by
  have hheld := held_start current old opens
  cases opens with
  | true =>
    exact ⟨hheld ▸ List.suffix_rfl, fun _ => .inl hheld, fun _ => by simp [start, openFile]⟩
  | false => exact keeps_closed (hheld ▸ List.suffix_rfl) rfl

/-- What is held after a run are bytes that were there or were written, in order. -/
theorem held_calls_sublist (h : s.held.Sublist whole) (run : List (LogCall × Fate)) :
    (s.calls run).2.held.Sublist (whole ++ (s.calls run).1) := by
  induction run generalizing s whole with
  | nil => simpa [calls] using h
  | cons c run ih =>
    obtain ⟨c, fate⟩ := c
    rw [calls]
    dsimp only
    rw [← List.append_assoc]
    refine ih ?_
    cases c with
    | write message => exact held_write_sublist h message fate
    | flush => simpa [call] using h

/-- **While closing tears nothing, a run keeps the end of what it wrote.** -/
theorem Keeps.calls (h : s.Keeps whole) {run : List (LogCall × Fate)}
    (hclose : ∀ c ∈ run, c.2.tears = none) :
    (s.calls run).2.Keeps (whole ++ (s.calls run).1) := by
  induction run generalizing s whole with
  | nil => simpa [FileStrategy.calls] using h
  | cons c run ih =>
    obtain ⟨hfirst, hrest⟩ := List.forall_mem_cons.mp hclose
    rw [FileStrategy.calls]
    dsimp only
    rw [← List.append_assoc]
    exact ih (h.call hfirst c.1) hrest

/-- **While closing tears nothing, the file stays within its limit.** -/
theorem Bounded.calls (h : s.Bounded) (hkeeps : s.Keeps whole) {run : List (LogCall × Fate)}
    (hclose : ∀ c ∈ run, c.2.tears = none)
    (hrun : ∀ c ∈ run, c.1.text.length ≤ maxFileSize ∧ c.2.renames = true) :
    (s.calls run).2.Bounded := by
  induction run generalizing s whole with
  | nil => exact h
  | cons c run ih =>
    obtain ⟨hfirst, hclose⟩ := List.forall_mem_cons.mp hclose
    obtain ⟨⟨hsize, hrenames⟩, hrun⟩ := List.forall_mem_cons.mp hrun
    refine ih ?_ (hkeeps.call hfirst c.1) hclose hrun
    obtain ⟨c, fate⟩ := c
    cases c with
    | write message => exact h.write hkeeps hsize hrenames
    | flush => exact h.flush fate

/-- A run that ends with a call. -/
theorem calls_append_singleton (s : FileStrategy) (run : List (LogCall × Fate)) (c : LogCall)
    (fate : Fate) : (s.calls (run ++ [(c, fate)])).2 = ((s.calls run).2.call fate c).2 := by
  induction run generalizing s with
  | nil => rfl
  | cons c' run ih => exact ih _

/-- A full log, a message that no longer fits, and a flush. -/
def rotating : List (LogCall × Fate) := [(.write (lit "b"), {}), (.flush, {})]

/-- The full log becomes the old one, and the message is alone in the new one. -/
theorem calls_rotating {full : Bytes} (h : full.length = maxFileSize) :
    (start (some full) none true).calls rotating =
      (lit "b", { current := some (lit "b"), old := some full, size := 1 }) := by
  have hfull : toInt full.length = maxFileSize := by
    rw [h]
    exact toInt_of_lt (by decide)
  have hone : toInt ((lit "b").length : ℕ) = 1 := toInt_of_lt (n := 1) (by decide)
  have hcan : (start (some full) none true).canWrite (toInt (lit "b").length) = false := by
    rw [hone]
    simp only [canWrite, start, openFile, if_true, Option.getD_some, hfull, decide_eq_false_iff_not]
    omega
  have hrotate : ((start (some full) none true).close {}).rotate {} =
      some { current := some [], old := some full, size := 0 } := by
    simp [start, openFile, close, writeOut, rotate]
  have hwrite : (start (some full) none true).write (lit "b") {} =
      (some true, { current := some [], old := some full, buffer := lit "b", size := 1 }) := by
    rw [write, if_neg (by simp [start, openFile, isValid]), hcan, if_neg (by simp), hrotate]
    simp [isValid, append, writeOut, hone]
  rw [rotating, calls, call, hwrite]
  simp [calls, call, flush, isValid, writeOut]

end FileStrategy

end MailStack.Logger
