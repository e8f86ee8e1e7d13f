import Mathlib.Algebra.BigOperators.Group.Finset.Basic
import Mathlib.Algebra.Order.BigOperators.Group.Finset
import Mathlib.Data.Fintype.BigOperators
import Mathlib.Data.Multiset.AddSub
import Mathlib.Logic.Function.Basic
import Mathlib.Logic.Relation
import Mathlib.Algebra.Order.Group.Multiset

/-!
# Machinery/Threads — threads over one shared state, with mutexes and a condition variable

    ⟨shared state | owner of each mutex | control point of each thread⟩ ──Step──▸ …

A `ThreadCode` says what a thread does at each of its control points; the steps of any number of
threads interleave in any order.  A thread that waits sleeps until it is notified, or for no reason,
and has to take its mutex again.

A thread's step is one access, so what is said of runs is said of code whose accesses do not meet:
where they may, of its `RaceFreeRun`s.

Three rules for whole runs: mutual exclusion (`Locks.exclusive`), a proof outline with an assertion
at every control point (`Outline.holds_of_run`), and what the shared state counts against what the
threads have (`Balance.balanced_of_run`).
-/

/-- What a thread does at a control point, over shared states `σ`, mutexes `μ` and control points
`κ`.  `act` is one access of the shared state, and blocks where it gives `none`. -/
inductive Instr (σ μ κ : Type*)
  | rest
  | act (f : σ → Option (σ × κ))
  | lock (m : μ) (k : κ)
  | unlock (m : μ) (k : κ)
  | wait (m : μ) (k : κ)
  | notifyOne (k : κ)
  | notifyAll (k : κ)

/-- The code of the threads: what they do at each point, and the operations `ω` that may be called
of one that rests. -/
structure ThreadCode (σ μ κ ω : Type*) where
  call : κ → ω → Option κ
  instr : κ → Instr σ μ κ

/-- A thread runs, or sleeps on the condition variable, or was woken and has yet to take the mutex
it gave up. -/
inductive Thread (μ κ : Type*)
  | awake (k : κ)
  | asleep (m : μ) (k : κ)
  | woken (m : μ) (k : κ)

namespace Thread

variable {μ κ : Type*}

/-- Where the thread is, or goes on once it has its mutex. -/
def point : Thread μ κ → κ
  | awake k | asleep _ k | woken _ k => k

/-- The thread is notified. -/
def notified : Thread μ κ → Thread μ κ
  | asleep m k => woken m k
  | t => t

@[simp] theorem point_notified : ∀ t : Thread μ κ, t.notified.point = t.point
  | awake _ | asleep _ _ | woken _ _ => rfl

theorem notified_ne_asleep (t : Thread μ κ) (m : μ) (k : κ) : t.notified ≠ asleep m k := by
  cases t <;> simp [notified]

@[simp] theorem notified_eq_awake {t : Thread μ κ} {k : κ} : t.notified = awake k ↔ t = awake k := by
  cases t <;> simp [notified]

/-- The mutexes a thread has, where `holds` says what is held at each point. -/
def Holds (holds : κ → μ → Prop) : Thread μ κ → μ → Prop
  | awake k, m => holds k m
  | asleep m' k, m | woken m' k, m => m ≠ m' ∧ holds k m

@[simp] theorem holds_notified (holds : κ → μ → Prop) (m : μ) :
    ∀ t : Thread μ κ, t.notified.Holds holds m ↔ t.Holds holds m
  | awake _ | asleep _ _ | woken _ _ => Iff.rfl

end Thread

/-- The shared state, who has each mutex, and the threads `ι`. -/
structure Threads (σ μ κ ι : Type*) where
  shared : σ
  owner : μ → Option ι := fun _ => none
  thread : ι → Thread μ κ

namespace Threads

variable {σ μ κ ι : Type*}

/-- Every thread at a point of its own, no mutex taken. -/
def start (s : σ) (at₀ : ι → κ) : Threads σ μ κ ι where
  shared := s
  thread i := .awake (at₀ i)

variable [DecidableEq ι]

/-- Thread `i` moves. -/
def move (n : Threads σ μ κ ι) (i : ι) (t : Thread μ κ) : Threads σ μ κ ι :=
  { n with thread := Function.update n.thread i t }

variable {n : Threads σ μ κ ι} {i j : ι} {t : Thread μ κ}

@[simp] theorem move_shared : (n.move i t).shared = n.shared := rfl

@[simp] theorem move_owner : (n.move i t).owner = n.owner := rfl

@[simp] theorem move_thread_self : (n.move i t).thread i = t := Function.update_self ..

theorem move_thread_of_ne (h : j ≠ i) : (n.move i t).thread j = n.thread j :=
  Function.update_of_ne h ..

end Threads

namespace ThreadCode

variable {σ μ κ ω ι : Type*} [DecidableEq ι] [DecidableEq μ]

/-- One step of one thread. -/
inductive Step (P : ThreadCode σ μ κ ω) (n : Threads σ μ κ ι) : Threads σ μ κ ι → Prop
  | call {i : ι} {k k' : κ} {o : ω} (hi : n.thread i = .awake k) (hk : P.call k o = some k') :
      Step P n (n.move i (.awake k'))
  | act {i : ι} {k k' : κ} {f : σ → Option (σ × κ)} {s : σ} (hi : n.thread i = .awake k)
      (hk : P.instr k = .act f) (hf : f n.shared = some (s, k')) :
      Step P n { n.move i (.awake k') with shared := s }
  | lock {i : ι} {k k' : κ} {m : μ} (hi : n.thread i = .awake k) (hk : P.instr k = .lock m k')
      (hm : n.owner m = none) :
      Step P n { n.move i (.awake k') with owner := Function.update n.owner m (some i) }
  | unlock {i : ι} {k k' : κ} {m : μ} (hi : n.thread i = .awake k)
      (hk : P.instr k = .unlock m k') :
      Step P n { n.move i (.awake k') with owner := Function.update n.owner m none }
  | wait {i : ι} {k k' : κ} {m : μ} (hi : n.thread i = .awake k) (hk : P.instr k = .wait m k') :
      Step P n { n.move i (.asleep m k') with owner := Function.update n.owner m none }
  | wake {i : ι} {k : κ} {m : μ} (hi : n.thread i = .asleep m k) :
      Step P n (n.move i (.woken m k))
  | retake {i : ι} {k : κ} {m : μ} (hi : n.thread i = .woken m k) (hm : n.owner m = none) :
      Step P n { n.move i (.awake k) with owner := Function.update n.owner m (some i) }
  | notifyOne {i j : ι} {k k' l : κ} {m : μ} (hi : n.thread i = .awake k)
      (hk : P.instr k = .notifyOne k') (hj : n.thread j = .asleep m l) :
      Step P n ((n.move i (.awake k')).move j (.woken m l))
  | notifyNone {i : ι} {k k' : κ} (hi : n.thread i = .awake k) (hk : P.instr k = .notifyOne k')
      (hno : ∀ j m l, n.thread j ≠ .asleep m l) :
      Step P n (n.move i (.awake k'))
  | notifyAll {i : ι} {k k' : κ} (hi : n.thread i = .awake k) (hk : P.instr k = .notifyAll k') :
      Step P n { n with thread := fun j => ((n.move i (.awake k')).thread j).notified }

/-- A thread that sleeps, or was woken, got there by a `wait`. -/
def Awaits (P : ThreadCode σ μ κ ω) : Thread μ κ → Prop
  | .awake _ => True
  | .asleep m k | .woken m k => ∃ k₀, P.instr k₀ = .wait m k

omit [DecidableEq ι] [DecidableEq μ] in
/-- A notified thread awaits at the same point. -/
theorem awaits_notified {P : ThreadCode σ μ κ ω} :
    ∀ t : Thread μ κ, P.Awaits t.notified ↔ P.Awaits t
  | .awake _ | .asleep _ _ | .woken _ _ => Iff.rfl

omit [DecidableEq μ] in
/-- A move to a point that awaits keeps every thread where it awaits. -/
theorem awaits_move {P : ThreadCode σ μ κ ω} {n : Threads σ μ κ ι}
    (h : ∀ i, P.Awaits (n.thread i)) {i : ι} {t : Thread μ κ} (ht : P.Awaits t) (j : ι) :
    P.Awaits ((n.move i t).thread j) := by
  by_cases hj : j = i
  · subst hj
    rwa [Threads.move_thread_self]
  · rw [Threads.move_thread_of_ne hj]
    exact h j

/-- Threads fall asleep only where their code awaits. -/
theorem Step.awaits {P : ThreadCode σ μ κ ω} {n n' : Threads σ μ κ ι} (hs : P.Step n n')
    (h : ∀ i, P.Awaits (n.thread i)) (i : ι) : P.Awaits (n'.thread i) := by
  have hawake : ∀ {i : ι} {k : κ} (j : ι), P.Awaits ((n.move i (.awake k)).thread j) :=
    awaits_move h trivial
  cases hs with
  | call hi hk => exact hawake i
  | act hi hk hf => exact hawake i
  | lock hi hk hm => exact hawake i
  | unlock hi hk => exact hawake i
  | @wait j k k' m hi hk => exact awaits_move h (t := .asleep m k') ⟨k, hk⟩ i
  | @wake j k m hj =>
    have hwait := h j
    rw [hj] at hwait
    exact awaits_move h (t := .woken m k) hwait i
  | retake hi hm => exact hawake i
  | @notifyOne j j' k k' l m hi hk hj' =>
    have hwait := h j'
    rw [hj'] at hwait
    exact awaits_move hawake (t := .woken m l) hwait i
  | notifyNone hi hk hno => exact hawake i
  | notifyAll hi hk => exact (awaits_notified _).mpr (hawake i)

/-- A run: any number of steps, of any threads in any order. -/
def Run (P : ThreadCode σ μ κ ω) : Threads σ μ κ ι → Threads σ μ κ ι → Prop :=
  Relation.ReflTransGen P.Step

/-- **An invariant of every step holds at the end of every run.** -/
theorem Run.invariant {P : ThreadCode σ μ κ ω} {I : Threads σ μ κ ι → Prop}
    (hstep : ∀ n n', I n → P.Step n n' → I n') {n n' : Threads σ μ κ ι} (h : P.Run n n')
    (hn : I n) : I n' := by
  induction h with
  | refl => exact hn
  | tail _ hs ih => exact hstep _ _ ih hs

/-- Two threads are about to touch the data that is touched at these points. -/
def Races (touches : κ → Prop) (n : Threads σ μ κ ι) : Prop :=
  ∃ i j k l, i ≠ j ∧ n.thread i = .awake k ∧ touches k ∧ n.thread j = .awake l ∧ touches l

/-- A run without a data race: no thread touches the data while another is about to. -/
def RaceFreeRun (P : ThreadCode σ μ κ ω) (touches : κ → Prop) :
    Threads σ μ κ ι → Threads σ μ κ ι → Prop :=
  Relation.ReflTransGen fun n n' => ¬ Races touches n ∧ P.Step n n'

/-- A run without races is a run. -/
theorem RaceFreeRun.run {P : ThreadCode σ μ κ ω} {touches : κ → Prop} {n n' : Threads σ μ κ ι}
    (h : P.RaceFreeRun touches n n') : P.Run n n' := by
  induction h with
  | refl => exact .refl
  | tail _ hs ih => exact ih.tail hs.2

end ThreadCode

/-! ## Mutual exclusion -/

section Locks

variable {σ μ κ ω ι : Type*}

/-- `holds` says which mutexes a thread has at each point. -/
structure Locks (P : ThreadCode σ μ κ ω) (holds : κ → μ → Prop) : Prop where
  call : ∀ {k k' : κ} {o : ω}, P.call k o = some k' → ∀ m, holds k' m ↔ holds k m
  act : ∀ {k k' : κ} {f : σ → Option (σ × κ)} {s s' : σ}, P.instr k = .act f →
    f s = some (s', k') → ∀ m, holds k' m ↔ holds k m
  lock : ∀ {k k' : κ} {m : μ}, P.instr k = .lock m k' →
    ¬ holds k m ∧ ∀ m', holds k' m' ↔ m' = m ∨ holds k m'
  unlock : ∀ {k k' : κ} {m : μ}, P.instr k = .unlock m k' →
    holds k m ∧ ∀ m', holds k' m' ↔ m' ≠ m ∧ holds k m'
  wait : ∀ {k k' : κ} {m : μ}, P.instr k = .wait m k' → holds k m ∧ ∀ m', holds k' m' ↔ holds k m'
  notifyOne : ∀ {k k' : κ}, P.instr k = .notifyOne k' → ∀ m, holds k' m ↔ holds k m
  notifyAll : ∀ {k k' : κ}, P.instr k = .notifyAll k' → ∀ m, holds k' m ↔ holds k m

/-- Who has a mutex is where it is held. -/
structure Threads.Owned (n : Threads σ μ κ ι) (P : ThreadCode σ μ κ ω) (holds : κ → μ → Prop) :
    Prop where
  owner : ∀ i m, n.owner m = some i ↔ (n.thread i).Holds holds m
  awaits : ∀ i, P.Awaits (n.thread i)

namespace Threads

variable {n : Threads σ μ κ ι} {P : ThreadCode σ μ κ ω} {holds : κ → μ → Prop}

/-- At the start no mutex is held. -/
theorem owned_start {s : σ} {at₀ : ι → κ} (h : ∀ i m, ¬ holds (at₀ i) m) :
    (start s at₀ : Threads σ μ κ ι).Owned P holds where
  owner i m := iff_of_false (by simp [start]) (h i m)
  awaits _ := trivial

/-- **No two threads hold one mutex.** -/
theorem Owned.unique (h : n.Owned P holds) {i j : ι} {m : μ} (hi : (n.thread i).Holds holds m)
    (hj : (n.thread j).Holds holds m) : i = j :=
  Option.some.inj (((h.owner i m).mpr hi).symm.trans ((h.owner j m).mpr hj))

/-- Of two threads that race, one does without the mutex. -/
theorem Owned.exists_of_races (h : n.Owned P holds) {touches : κ → Prop} (m : μ)
    (hr : ThreadCode.Races touches n) : ∃ i k, n.thread i = .awake k ∧ touches k ∧ ¬ holds k m := by
  obtain ⟨i, j, k, l, hne, hi, hk, hj, hl⟩ := hr
  by_cases hheld : holds k m
  · refine ⟨j, l, hj, hl, fun hheld' => hne (h.unique (m := m) ?_ ?_)⟩
    · rwa [hi]
    · rwa [hj]
  · exact ⟨i, k, hi, hk, hheld⟩

/-- Nobody is at a point that holds a free mutex. -/
theorem Owned.not_holds_of_free (h : n.Owned P holds) {m : μ} (hm : n.owner m = none) (i : ι) :
    ¬ (n.thread i).Holds holds m := fun hi => by
  have howner := (h.owner i m).mpr hi
  rw [hm] at howner
  cases howner

/-- A thread moves and keeps its mutexes. -/
theorem Owned.owner_move [DecidableEq ι] (h : n.Owned P holds) {i : ι} {t : Thread μ κ}
    (ht : ∀ m, t.Holds holds m ↔ (n.thread i).Holds holds m) (j : ι) (m : μ) :
    n.owner m = some j ↔ ((n.move i t).thread j).Holds holds m := by
  by_cases hj : j = i
  · subst hj
    rw [move_thread_self, ht]
    exact h.owner j m
  · rw [move_thread_of_ne hj]
    exact h.owner j m

/-- A thread that runs goes on with the mutexes it has. -/
theorem Owned.owner_pass [DecidableEq ι] (h : n.Owned P holds) {i : ι} {k k' : κ}
    (hi : n.thread i = .awake k) (hk : ∀ m, holds k' m ↔ holds k m) (j : ι) (m : μ) :
    n.owner m = some j ↔ ((n.move i (.awake k')).thread j).Holds holds m :=
  h.owner_move (t := .awake k') (fun m => by rw [hi]; exact hk m) j m

variable [DecidableEq ι] [DecidableEq μ]

/-- A thread takes a free mutex. -/
theorem Owned.owner_taken (h : n.Owned P holds) {i : ι} {m : μ} {t : Thread μ κ}
    (hm : n.owner m = none) (ht : ∀ m', t.Holds holds m' ↔ m' = m ∨ (n.thread i).Holds holds m')
    (j : ι) (m' : μ) : Function.update n.owner m (some i) m' = some j ↔
      ((n.move i t).thread j).Holds holds m' := by
  by_cases hm' : m' = m
  · subst hm'
    by_cases hj : j = i
    · subst hj
      simp [ht]
    · simp [move_thread_of_ne hj, Ne.symm hj, h.not_holds_of_free hm]
  · by_cases hj : j = i
    · subst hj
      simp [hm', ht, h.owner j m']
    · simp [hm', move_thread_of_ne hj, h.owner j m']

/-- A thread gives up a mutex it has. -/
theorem Owned.owner_given (h : n.Owned P holds) {i : ι} {m : μ} {t : Thread μ κ}
    (hm : (n.thread i).Holds holds m)
    (ht : ∀ m', t.Holds holds m' ↔ m' ≠ m ∧ (n.thread i).Holds holds m') (j : ι) (m' : μ) :
    Function.update n.owner m none m' = some j ↔ ((n.move i t).thread j).Holds holds m' := by
  by_cases hm' : m' = m
  · subst hm'
    by_cases hj : j = i
    · subst hj
      simp [ht]
    · have hother : ¬ (n.thread j).Holds holds m' := fun hj' => hj (h.unique hj' hm)
      simp [move_thread_of_ne hj, hother]
  · by_cases hj : j = i
    · subst hj
      simp [hm', ht, h.owner j m']
    · simp [hm', move_thread_of_ne hj, h.owner j m']

end Threads

namespace Locks

variable [DecidableEq ι] [DecidableEq μ] {P : ThreadCode σ μ κ ω} {holds : κ → μ → Prop}

omit [DecidableEq ι] [DecidableEq μ] in
/-- Who waits is to have its mutex again. -/
theorem holds_of_awaits (hP : Locks P holds) {m : μ} {k : κ}
    (h : ∃ k₀, P.instr k₀ = .wait m k) : holds k m := by
  obtain ⟨k₀, hk₀⟩ := h
  obtain ⟨hm, hsame⟩ := hP.wait hk₀
  exact (hsame m).mpr hm

/-- **One step keeps the mutexes with their owners.** -/
theorem step (hP : Locks P holds) {n n' : Threads σ μ κ ι} (h : n.Owned P holds)
    (hs : P.Step n n') : n'.Owned P holds := by
  refine ⟨?_, hs.awaits h.awaits⟩
  cases hs with
  | call hi hk => exact h.owner_pass hi (hP.call hk)
  | act hi hk hf => exact h.owner_pass hi (hP.act hk hf)
  | lock hi hk hm => exact h.owner_taken hm fun m' => by rw [hi]; exact (hP.lock hk).2 m'
  | unlock hi hk =>
    refine h.owner_given ?_ fun m' => ?_
    · rw [hi]
      exact (hP.unlock hk).1
    · rw [hi]
      exact (hP.unlock hk).2 m'
  | wait hi hk =>
    obtain ⟨hm, hsame⟩ := hP.wait hk
    refine h.owner_given ?_ fun m' => ?_
    · rw [hi]
      exact hm
    · rw [hi]
      exact and_congr_right fun _ => hsame m'
  | wake hi => exact h.owner_move fun m' => by rw [hi]; rfl
  | @retake i k m hi hm =>
    have hawaits := h.awaits i
    rw [hi] at hawaits
    refine h.owner_taken hm fun m' => ?_
    rw [hi]
    by_cases hm' : m' = m
    · subst hm'
      exact iff_of_true (hP.holds_of_awaits hawaits) (.inl rfl)
    · simp [Thread.Holds, hm']
  | @notifyOne i j k k' l m hi hk hj =>
    intro j' m'
    refine (h.owner_pass hi (hP.notifyOne hk) j' m').trans ?_
    by_cases hj' : j' = j
    · subst hj'
      rw [Threads.move_thread_self, Threads.move_thread_of_ne (by rintro rfl; simp [hi] at hj), hj]
      rfl
    · rw [Threads.move_thread_of_ne hj']
  | notifyNone hi hk hno => exact h.owner_pass hi (hP.notifyOne hk)
  | notifyAll hi hk =>
    intro j m
    rw [Thread.holds_notified]
    exact h.owner_pass hi (hP.notifyAll hk) j m

end Locks

end Locks

/-! ## Assertions at the control points -/

section Outline

variable {σ μ κ ω ι : Type*}

/-- Where a thread goes on without an access of the shared state. -/
def Instr.target : Instr σ μ κ → Option κ
  | rest | act _ => none
  | lock _ k | unlock _ k | wait _ k | notifyOne k | notifyAll k => some k

/-- A proof outline: `inv` holds of the shared state at all times, `assert i k` when thread `i` is
at `k`.  What is asserted at one thread's point is not lost by another's access, unless one mutex
keeps them apart; a thread that sleeps has none. -/
structure Outline (P : ThreadCode σ μ κ ω) (holds : κ → μ → Prop) (inv : σ → Prop)
    (assert : ι → κ → σ → Prop) : Prop where
  call : ∀ {i : ι} {k k' : κ} {o : ω} {s : σ}, P.call k o = some k' → inv s → assert i k s →
    assert i k' s
  act : ∀ {i : ι} {k k' : κ} {f : σ → Option (σ × κ)} {s s' : σ}, P.instr k = .act f → inv s →
    assert i k s → f s = some (s', k') → inv s' ∧ assert i k' s'
  others : ∀ {i j : ι} {k k' l : κ} {f : σ → Option (σ × κ)} {s s' : σ}, i ≠ j →
    P.instr k = .act f → inv s → assert i k s → f s = some (s', k') →
    (∀ m, holds k m → holds l m → ∃ k₀ m', P.instr k₀ = .wait m' l) → assert j l s → assert j l s'
  step : ∀ {i : ι} {k k' : κ} {s : σ}, (P.instr k).target = some k' → inv s → assert i k s →
    assert i k' s

/-- The invariant and every thread's assertion. -/
structure Threads.Meets (n : Threads σ μ κ ι) (inv : σ → Prop) (assert : ι → κ → σ → Prop) :
    Prop where
  state : inv n.shared
  thread : ∀ i, assert i (n.thread i).point n.shared

variable {n : Threads σ μ κ ι} {inv : σ → Prop} {assert : ι → κ → σ → Prop}

/-- The start meets an invariant that holds of it. -/
theorem Threads.meets_start {s : σ} {at₀ : ι → κ} (hs : inv s) (h : ∀ i, assert i (at₀ i) s) :
    (start s at₀ : Threads σ μ κ ι).Meets inv assert :=
  ⟨hs, h⟩

/-- A move to a point whose assertion holds. -/
theorem Threads.Meets.move [DecidableEq ι] (h : n.Meets inv assert) {i : ι} {t : Thread μ κ}
    (ht : assert i t.point n.shared) : (n.move i t).Meets inv assert where
  state := h.state
  thread j := by
    by_cases hj : j = i
    · subst hj
      rw [move_thread_self]
      exact ht
    · rw [move_thread_of_ne hj]
      exact h.thread j

/-- A thread that is awake is where its assertion holds. -/
theorem Threads.Meets.awake (h : n.Meets inv assert) {i : ι} {k : κ}
    (hi : n.thread i = .awake k) : assert i k n.shared := by
  have hassert := h.thread i
  rw [hi] at hassert
  exact hassert

namespace Outline

variable [DecidableEq ι] [DecidableEq μ] {P : ThreadCode σ μ κ ω} {holds : κ → μ → Prop}

/-- **One step keeps the outline.** -/
theorem next (hP : Outline P holds inv assert) {n' : Threads σ μ κ ι} (ho : n.Owned P holds)
    (h : n.Meets inv assert) (hs : P.Step n n') : n'.Meets inv assert := by
  have hpass : ∀ {i : ι} {k k' : κ} {t : Thread μ κ}, n.thread i = .awake k →
      (P.instr k).target = some k' → t.point = k' → (n.move i t).Meets inv assert :=
    fun hi hk ht => h.move (by rw [ht]; exact hP.step hk h.state (h.awake hi))
  have hsame : ∀ {i : ι} {t : Thread μ κ}, t.point = (n.thread i).point →
      (n.move i t).Meets inv assert := fun {i t} ht => h.move (by rw [ht]; exact h.thread i)
  cases hs with
  | call hi hk => exact h.move (t := .awake _) (hP.call hk h.state (h.awake hi))
  | @act i k k' f s hi hk hf =>
    obtain ⟨hinv, hself⟩ := hP.act hk h.state (h.awake hi) hf
    refine ⟨hinv, fun j => ?_⟩
    by_cases hj : j = i
    · subst hj
      simpa [Thread.point] using hself
    · simp only [Threads.move_thread_of_ne hj]
      refine hP.others (Ne.symm hj) hk h.state (h.awake hi) hf (fun m hm hl => ?_) (h.thread j)
      have hawaits := ho.awaits j
      cases ht : n.thread j with
      | awake l =>
        rw [ht] at hl
        exact absurd (ho.unique (by rw [ht]; exact hl) (by rw [hi]; exact hm)) hj
      | asleep m' l | woken m' l =>
        rw [ht] at hawaits
        obtain ⟨k₀, hk₀⟩ := hawaits
        exact ⟨k₀, m', hk₀⟩
  | lock hi hk hm =>
    have hnext := hpass (t := .awake _) hi (by rw [hk]; rfl) rfl
    exact ⟨hnext.state, hnext.thread⟩
  | unlock hi hk =>
    have hnext := hpass (t := .awake _) hi (by rw [hk]; rfl) rfl
    exact ⟨hnext.state, hnext.thread⟩
  | @wait i k k' m hi hk =>
    have hnext := hpass (t := .asleep m k') hi (by rw [hk]; rfl) rfl
    exact ⟨hnext.state, hnext.thread⟩
  | wake hi => exact hsame (by rw [hi]; rfl)
  | @retake i k m hi hm =>
    have hnext := hsame (i := i) (t := .awake k) (by rw [hi]; rfl)
    exact ⟨hnext.state, hnext.thread⟩
  | @notifyOne i j k k' l m hi hk hj =>
    have hassert := h.thread j
    rw [hj] at hassert
    exact (hpass (t := .awake _) hi (by rw [hk]; rfl) rfl).move hassert
  | notifyNone hi hk hno => exact hpass hi (by rw [hk]; rfl) rfl
  | @notifyAll i k k' hi hk =>
    have hnext := hpass (t := .awake k') hi (by rw [hk]; rfl) rfl
    exact ⟨hnext.state, fun j => by rw [Thread.point_notified]; exact hnext.thread j⟩

/-- **The outline holds at the end of every run.** -/
theorem meets_of_run (hP : Outline P holds inv assert) (hl : Locks P holds) {n' : Threads σ μ κ ι}
    (ho : n.Owned P holds) (h : n.Meets inv assert) (hrun : P.Run n n') :
    n'.Owned P holds ∧ n'.Meets inv assert :=
  hrun.invariant (I := fun n => n.Owned P holds ∧ n.Meets inv assert)
    (fun _ _ h hs => ⟨hl.step h.1 hs, hP.next h.1 h.2 hs⟩) ⟨ho, h⟩

end Outline

end Outline

/-! ## What the state counts is what the threads have -/

section Balance

variable {σ μ κ ω ι α M : Type*} [Fintype ι]

/-- What the threads come to between them. -/
def Threads.total [AddCommMonoid M] (n : Threads σ μ κ ι) (value : Thread μ κ → M) : M :=
  ∑ i, value (n.thread i)

/-- Between them the threads come to what thread `i` does, and what the others do. -/
theorem Threads.total_move [AddCommMonoid M] [DecidableEq ι] (n : Threads σ μ κ ι)
    (value : Thread μ κ → M) (i : ι) (t : Thread μ κ) :
    (n.move i t).total value + value (n.thread i) = n.total value + value t := by
  have hrest : ∀ n : Threads σ μ κ ι, n.total value =
      value (n.thread i) + ∑ j ∈ Finset.univ.erase i, value (n.thread j) := fun n =>
    (Finset.add_sum_erase _ (fun j => value (n.thread j)) (Finset.mem_univ i)).symm
  have hothers : ∑ j ∈ Finset.univ.erase i, value ((n.move i t).thread j) =
      ∑ j ∈ Finset.univ.erase i, value (n.thread j) :=
    Finset.sum_congr rfl fun j hj => by rw [move_thread_of_ne (Finset.ne_of_mem_erase hj)]
  rw [hrest, hrest n, hothers, move_thread_self]
  ac_rfl

/-- What the threads have at their points. -/
def Threads.belongings (n : Threads σ μ κ ι) (has : κ → Multiset α) : Multiset α :=
  n.total fun t => has t.point

/-- Notifying moves no belongings. -/
theorem Threads.belongings_notified (n : Threads σ μ κ ι) (has : κ → Multiset α) :
    Threads.belongings { n with thread := fun j => (n.thread j).notified } has = n.belongings has :=
  Finset.sum_congr rfl fun j _ => congrArg has (Thread.point_notified (n.thread j))

/-- What one thread has is a part of all belongings. -/
theorem Threads.le_belongings (n : Threads σ μ κ ι) (has : κ → Multiset α) (i : ι) :
    has (n.thread i).point ≤ n.belongings has :=
  Finset.single_le_sum (f := fun i => has (n.thread i).point) (fun _ _ => Multiset.zero_le _)
    (Finset.mem_univ i)

variable [DecidableEq ι]

/-- What two threads have is part of what there is. -/
theorem Threads.add_le_belongings (n : Threads σ μ κ ι) (has : κ → Multiset α) {i j : ι}
    (h : i ≠ j) : has (n.thread i).point + has (n.thread j).point ≤ n.belongings has := by
  rw [← Finset.sum_pair (f := fun i => has (n.thread i).point) h]
  exact Finset.sum_le_sum_of_subset (Finset.subset_univ _)

/-- `gets` is what has come in, `gives` what has gone out, and `has` what a thread has at a point. -/
structure Balance (P : ThreadCode σ μ κ ω) (inv : σ → Prop) (assert : ι → κ → σ → Prop)
    (gets gives : σ → Multiset α) (has : κ → Multiset α) : Prop where
  call : ∀ {k k' : κ} {o : ω}, P.call k o = some k' → has k' = has k
  act : ∀ {i : ι} {k k' : κ} {f : σ → Option (σ × κ)} {s s' : σ}, P.instr k = .act f → inv s →
    assert i k s → gives s + has k ≤ gets s → f s = some (s', k') →
    gets s' + (gives s + has k) = gets s + (gives s' + has k')
  step : ∀ {k k' : κ}, (P.instr k).target = some k' → has k' = has k

/-- What has come in has gone out, or is with a thread. -/
def Threads.Balanced (n : Threads σ μ κ ι) (gets gives : σ → Multiset α) (has : κ → Multiset α) :
    Prop :=
  gets n.shared = gives n.shared + n.belongings has

variable [DecidableEq μ] {P : ThreadCode σ μ κ ω} {holds : κ → μ → Prop} {inv : σ → Prop}
  {assert : ι → κ → σ → Prop} {gets gives : σ → Multiset α} {has : κ → Multiset α}

namespace Balance

/-- **One step keeps the balance.** -/
theorem next (hP : Balance P inv assert gets gives has) {n n' : Threads σ μ κ ι}
    (hm : n.Meets inv assert) (h : n.Balanced gets gives has) (hs : P.Step n n') :
    n'.Balanced gets gives has := by
  have hmove : ∀ {i : ι} {t : Thread μ κ}, has t.point = has (n.thread i).point →
      (n.move i t).belongings has = n.belongings has := fun {i t} ht => by
    have htotal := n.total_move (fun t => has t.point) i t
    rwa [ht, Multiset.add_left_inj] at htotal
  have hpass : ∀ {i : ι} {k k' : κ} {t : Thread μ κ}, n.thread i = .awake k →
      (P.instr k).target = some k' → t.point = k' → (n.move i t).belongings has = n.belongings has :=
    fun hi hk ht => hmove (by rw [hi, ht]; exact hP.step hk)
  have hsame : ∀ {n' : Threads σ μ κ ι}, n'.shared = n.shared →
      n'.belongings has = n.belongings has → n'.Balanced gets gives has := fun hshared hhas => by
    rw [Threads.Balanced, hshared, hhas]
    exact h
  cases hs with
  | call hi hk => exact hsame rfl (hmove (by rw [hi]; exact hP.call hk))
  | @act i k k' f s hi hk hf =>
    have hle : gives n.shared + has k ≤ gets n.shared := by
      rw [show gets n.shared = _ from h]
      gcongr
      simpa [hi, Thread.point] using n.le_belongings has i
    have hact := hP.act hk hm.state (hm.awake hi) hle hf
    have htotal := n.total_move (fun t => has t.point) i (.awake k')
    rw [hi] at htotal
    change gets s = gives s + (n.move i (.awake k')).belongings has
    have hbelong : (n.move i (.awake k')).belongings has + has k = n.belongings has + has k' := htotal
    refine Multiset.add_left_inj.mp (hact.trans ?_)
    rw [show gets n.shared = _ from h]
    calc gives n.shared + n.belongings has + (gives s + has k')
        = gives s + gives n.shared + (n.belongings has + has k') := by ac_rfl
      _ = gives s + (n.move i (.awake k')).belongings has + (gives n.shared + has k) := by
        rw [← hbelong]
        ac_rfl
  | lock hi hk hm => exact hsame rfl (hpass hi (by rw [hk]; rfl) rfl)
  | unlock hi hk => exact hsame rfl (hpass hi (by rw [hk]; rfl) rfl)
  | wait hi hk => exact hsame rfl (hpass hi (by rw [hk]; rfl) rfl)
  | wake hi => exact hsame rfl (hmove (by rw [hi]; rfl))
  | retake hi hm => exact hsame rfl (hmove (by rw [hi]; rfl))
  | @notifyOne i j k k' l m hi hk hj =>
    have hne : j ≠ i := by
      rintro rfl
      simp [hi] at hj
    have htotal := (n.move i (.awake k')).total_move (fun t => has t.point) j (.woken m l)
    rw [Threads.move_thread_of_ne hne, hj] at htotal
    exact hsame rfl ((Multiset.add_left_inj.mp htotal).trans (hpass hi (by rw [hk]; rfl) rfl))
  | notifyNone hi hk hno => exact hsame rfl (hpass hi (by rw [hk]; rfl) rfl)
  | @notifyAll i k k' hi hk =>
    refine hsame rfl ((Threads.belongings_notified (n.move i (.awake k')) has).trans ?_)
    exact hpass hi (by rw [hk]; rfl) rfl

/-- **The balance is kept in every run.** -/
theorem of_run (hP : Balance P inv assert gets gives has) (ho : Outline P holds inv assert)
    (hl : Locks P holds) {n n' : Threads σ μ κ ι} (hown : n.Owned P holds)
    (hm : n.Meets inv assert) (h : n.Balanced gets gives has) (hrun : P.Run n n') :
    n'.Balanced gets gives has := by
  refine (hrun.invariant (I := fun n => (n.Owned P holds ∧ n.Meets inv assert) ∧
    n.Balanced gets gives has) (fun _ _ h hs => ?_) ⟨⟨hown, hm⟩, h⟩).2
  exact ⟨⟨hl.step h.1.1 hs, ho.next h.1.1 h.1.2 hs⟩, hP.next h.1.2 h.2 hs⟩

end Balance

end Balance
