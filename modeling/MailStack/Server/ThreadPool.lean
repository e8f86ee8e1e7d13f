import MailStack.Machinery.Wakeups

/-!
# Server/ThreadPool — the workers of the servers, and who gives them tasks

    add_task ──▸ ⟨priority queue⟩ ──routine──▸ a worker runs the task
    pause, unpause, terminate ──▸ ⟨flags⟩

The workers and `add_task` use the queue under `m_queue_mutex`; the flags are atomic, and set under
`m_pool_state_mutex` only.  A worker looks at them under the other mutex, one after the other, so a
flag may change between two looks of one predicate; that is why `unpause` and `terminate` notify
under the queue's mutex.

`terminate` clears the queue under `m_pool_state_mutex`, and an `add_task` that has looked at the
flags before may push meanwhile: a data race, and the only one on the queue (`Races.clear_enqueue`).
What is said of runs is said of those without it.

`std::priority_queue` gives a task of the highest priority; which of them is not said, and `Pops` is
all that is assumed of it.  The model begins where `initialize` has returned, and does not call it
again; a task returns, and calls nothing of the pool.
-/

namespace MailStack.Server

inductive Priority
  | low
  | normal
  | high
  deriving DecidableEq, Repr

/-- `static_cast<int>`. -/
def Priority.toNat : Priority → ℕ
  | low => 0
  | normal => 1
  | high => 2

/-- `Task`; what its function does is not looked at. -/
structure Task where
  id : ℕ
  priority : Priority
  deriving DecidableEq, Repr

/-- What `top` and `pop` of `std::priority_queue` do between them. -/
structure Pops (pick : List Task → Option (Task × List Task)) : Prop where
  none_iff : ∀ q, pick q = none ↔ q = []
  perm : ∀ {q t rest}, pick q = some (t, rest) → (t :: rest).Perm q
  top : ∀ {q t rest}, pick q = some (t, rest) → ∀ t' ∈ rest, t'.priority.toNat ≤ t.priority.toNat

/-- The members of `ThreadPool`; `working` is how many threads of `m_workers` have not returned.  For
proofs: what was pushed, taken (with what was left), finished and cleared away, and how many tasks
were taken since the pool was paused last. -/
structure ThreadPool where
  queue : List Task := []
  terminated : Bool := false
  initialized : Bool := true
  paused : Bool := false
  totalTasks : ℕ := 0
  working : ℕ
  pushed : Multiset Task := 0
  taken : List (Task × List Task) := []
  finished : Multiset Task := 0
  cleared : Multiset Task := 0
  since : ℕ := 0

/-- The two mutexes. -/
inductive PoolMutex
  | queue
  | state
  deriving DecidableEq

/-- Where a thread is.  From `routine` to `ended` it is a worker; the others are between two calls
where they are `idle`. -/
inductive PoolPoint
  | routine
  | testTerminated
  | testPaused
  | testEmpty
  | wait
  | ifTerminated
  | ifPaused
  | ifEmpty
  | pop
  | continue
  | popped (t : Task)
  | run (t : Task)
  | broken
  | leave
  | ended
  | idle
  | addTask (p : Priority)
  | ifReady (p : Priority)
  | fetchId (p : Priority)
  | push (t : Task)
  | enqueue (t : Task)
  | pushed
  | notify
  | pause
  | setPaused
  | unpause
  | clearPaused
  | unpaused
  | terminate
  | setTerminated
  | resetPaused
  | terminated
  | lockNotify (joins : Bool)
  | notifyAll (joins : Bool)
  | notified (joins : Bool)
  | join
  | final
  | clear
  | unlockState

/-- What may be called of the pool. -/
inductive PoolOp
  | addTask (p : Priority)
  | pause
  | unpause
  | terminate

namespace ThreadPool

/-- `is_working_unsafe`. -/
def isWorking (s : ThreadPool) : Bool := s.initialized && !s.terminated

/-- `TasksQueue::pop`. -/
def take (s : ThreadPool) (t : Task) (queue : List Task) : ThreadPool :=
  { s with
    queue
    taken := (t, queue) :: s.taken
    since := if s.paused then s.since + 1 else s.since }

/-- `TasksQueue::push`. -/
def push (s : ThreadPool) (t : Task) : ThreadPool :=
  { s with queue := t :: s.queue, pushed := t ::ₘ s.pushed }

/-- What `terminate` does after the joins. -/
def clear (s : ThreadPool) : ThreadPool :=
  { s with
    queue := []
    cleared := s.cleared + s.queue
    initialized := false
    paused := false
    totalTasks := 0 }

end ThreadPool

/-- The code of the pool. `routine` tests the predicate of its wait twice over; `add_task` reads
the flags without a mutex. -/
def poolCode (pick : List Task → Option (Task × List Task)) :
    ThreadCode ThreadPool PoolMutex PoolPoint PoolOp where
  call
    | .idle, .addTask p => some (.addTask p)
    | .idle, .pause => some .pause
    | .idle, .unpause => some .unpause
    | .idle, .terminate => some .terminate
    | _, _ => none
  instr
    | .routine => .lock .queue .testTerminated
    | .testTerminated => .act fun s => some (s, if s.terminated then .ifTerminated else .testPaused)
    | .testPaused => .act fun s => some (s, if s.paused then .wait else .testEmpty)
    | .testEmpty => .act fun s => some (s, if s.queue.isEmpty then .wait else .ifTerminated)
    | .wait => .wait .queue .testTerminated
    | .ifTerminated => .act fun s => some (s, if s.terminated then .broken else .ifPaused)
    | .ifPaused => .act fun s => some (s, if s.paused then .continue else .ifEmpty)
    | .ifEmpty => .act fun s => some (s, if s.queue.isEmpty then .continue else .pop)
    | .pop => .act fun s =>
      match pick s.queue with
      | none => some (s, .continue)
      | some (t, queue) => some (s.take t queue, .popped t)
    | .continue => .unlock .queue .routine
    | .popped t => .unlock .queue (.run t)
    | .run t => .act fun s => some ({ s with finished := t ::ₘ s.finished }, .routine)
    | .broken => .unlock .queue .leave
    | .leave => .act fun s => some ({ s with working := s.working - 1 }, .ended)
    | .ended | .idle => .rest
    | .addTask p => .act fun s => some (s, if s.initialized then .ifReady p else .idle)
    | .ifReady p => .act fun s => some (s, if s.terminated then .idle else .fetchId p)
    | .fetchId p => .act fun s =>
      some ({ s with totalTasks := s.totalTasks + 1 }, .push ⟨s.totalTasks, p⟩)
    | .push t => .lock .queue (.enqueue t)
    | .enqueue t => .act fun s => some (s.push t, .pushed)
    | .pushed => .unlock .queue .notify
    | .notify => .notifyOne .idle
    | .pause => .lock .state .setPaused
    | .setPaused => .act fun s =>
      some (if s.isWorking then { s with paused := true, since := 0 } else s, .unlockState)
    | .unpause => .lock .state .clearPaused
    | .clearPaused => .act fun s =>
      if s.isWorking && s.paused then some ({ s with paused := false }, .unpaused)
      else some (s, .unlockState)
    | .unpaused => .unlock .state (.lockNotify false)
    | .terminate => .lock .state .setTerminated
    | .setTerminated => .act fun s =>
      if s.isWorking then some ({ s with terminated := true }, .resetPaused)
      else some (s, .unlockState)
    | .resetPaused => .act fun s => some ({ s with paused := false }, .terminated)
    | .terminated => .unlock .state (.lockNotify true)
    | .lockNotify joins => .lock .queue (.notifyAll joins)
    | .notifyAll joins => .notifyAll (.notified joins)
    | .notified joins => .unlock .queue (if joins then .join else .idle)
    | .join => .act fun s => if s.working = 0 then some (s, .final) else none
    | .final => .lock .state .clear
    | .clear => .act fun s => some (s.clear, .unlockState)
    | .unlockState => .unlock .state .idle

variable {pick : List Task → Option (Task × List Task)}

/-! ## What one step can be -/

/-- An access of the pool's members, and where it leads. -/
inductive PoolAccess (pick : List Task → Option (Task × List Task)) (s : ThreadPool) :
    PoolPoint → ThreadPool → PoolPoint → Prop
  | seesTerminated (h : s.terminated = true) : PoolAccess pick s .testTerminated s .ifTerminated
  | seesWorking (h : s.terminated = false) : PoolAccess pick s .testTerminated s .testPaused
  | seesPaused (h : s.paused = true) : PoolAccess pick s .testPaused s .wait
  | seesUnpaused (h : s.paused = false) : PoolAccess pick s .testPaused s .testEmpty
  | seesEmpty (h : s.queue = []) : PoolAccess pick s .testEmpty s .wait
  | seesTask : PoolAccess pick s .testEmpty s .ifTerminated
  | breaks (h : s.terminated = true) : PoolAccess pick s .ifTerminated s .broken
  | goesOn : PoolAccess pick s .ifTerminated s .ifPaused
  | backPaused : PoolAccess pick s .ifPaused s .continue
  | notPaused (h : s.paused = false) : PoolAccess pick s .ifPaused s .ifEmpty
  | backEmpty : PoolAccess pick s .ifEmpty s .continue
  | notEmpty : PoolAccess pick s .ifEmpty s .pop
  | takeNone : PoolAccess pick s .pop s .continue
  | take {t : Task} {queue : List Task} (h : pick s.queue = some (t, queue)) :
      PoolAccess pick s .pop (s.take t queue) (.popped t)
  | run (t : Task) : PoolAccess pick s (.run t) { s with finished := t ::ₘ s.finished } .routine
  | leave : PoolAccess pick s .leave { s with working := s.working - 1 } .ended
  | initialized (p : Priority) : PoolAccess pick s (.addTask p) s (.ifReady p)
  | notInitialized (p : Priority) : PoolAccess pick s (.addTask p) s .idle
  | ready (p : Priority) : PoolAccess pick s (.ifReady p) s (.fetchId p)
  | notReady (p : Priority) : PoolAccess pick s (.ifReady p) s .idle
  | fetchId (p : Priority) : PoolAccess pick s (.fetchId p)
      { s with totalTasks := s.totalTasks + 1 } (.push ⟨s.totalTasks, p⟩)
  | enqueue (t : Task) : PoolAccess pick s (.enqueue t) (s.push t) .pushed
  | setPaused (h : s.terminated = false) :
      PoolAccess pick s .setPaused { s with paused := true, since := 0 } .unlockState
  | setPausedNot : PoolAccess pick s .setPaused s .unlockState
  | clearPaused : PoolAccess pick s .clearPaused { s with paused := false } .unpaused
  | clearPausedNot : PoolAccess pick s .clearPaused s .unlockState
  | setTerminated : PoolAccess pick s .setTerminated { s with terminated := true } .resetPaused
  | setTerminatedNot : PoolAccess pick s .setTerminated s .unlockState
  | resetPaused : PoolAccess pick s .resetPaused { s with paused := false } .terminated
  | join (h : s.working = 0) : PoolAccess pick s .join s .final
  | clear : PoolAccess pick s .clear s.clear .unlockState

/-- A test leaves the pool as it is, and goes on one way or the other. -/
theorem PoolAccess.of_test {k k' k₁ k₂ : PoolPoint} {s s' : ThreadPool} {b : Bool}
    (htrue : b = true → PoolAccess pick s k s k₁) (hfalse : b = false → PoolAccess pick s k s k₂)
    (h : some (s, if b then k₁ else k₂) = some (s', k')) : PoolAccess pick s k s' k' := by
  cases h
  cases b with
  | true => exact htrue rfl
  | false => exact hfalse rfl

/-- What is done only if a test succeeds. -/
theorem PoolAccess.of_guard {k k' k₁ k₂ : PoolPoint} {s s' s₁ : ThreadPool} {b : Bool}
    (htrue : b = true → PoolAccess pick s k s₁ k₁) (hfalse : PoolAccess pick s k s k₂)
    (h : (if b then some (s₁, k₁) else some (s, k₂)) = some (s', k')) :
    PoolAccess pick s k s' k' := by
  cases b with
  | true =>
    cases h
    exact htrue rfl
  | false =>
    cases h
    exact hfalse

/-- What a worker takes from the queue, if there is anything. -/
theorem PoolAccess.of_pop {k' : PoolPoint} {s s' : ThreadPool}
    (h : (match pick s.queue with
      | none => some (s, PoolPoint.continue)
      | some (t, queue) => some (s.take t queue, .popped t)) = some (s', k')) :
    PoolAccess pick s .pop s' k' := by
  cases hpop : pick s.queue with
  | none =>
    simp only [hpop] at h
    cases h
    exact .takeNone
  | some r =>
    simp only [hpop] at h
    cases h
    exact .take hpop

/-- The accesses of the pool's code are those of `PoolAccess`. -/
theorem poolAccess_of_act {k k' : PoolPoint} {s s' : ThreadPool}
    {f : ThreadPool → Option (ThreadPool × PoolPoint)} (hk : (poolCode pick).instr k = .act f)
    (hf : f s = some (s', k')) : PoolAccess pick s k s' k' := by
  cases k with
  | testTerminated => cases hk; exact .of_test .seesTerminated .seesWorking hf
  | testPaused => cases hk; exact .of_test .seesPaused .seesUnpaused hf
  | testEmpty =>
    cases hk
    exact .of_test (fun h => .seesEmpty (List.isEmpty_iff.mp h)) (fun _ => .seesTask) hf
  | ifTerminated => cases hk; exact .of_test .breaks (fun _ => .goesOn) hf
  | ifPaused => cases hk; exact .of_test (fun _ => .backPaused) .notPaused hf
  | ifEmpty => cases hk; exact .of_test (fun _ => .backEmpty) (fun _ => .notEmpty) hf
  | pop => cases hk; exact .of_pop hf
  | run t => cases hk; cases hf; exact .run t
  | leave => cases hk; cases hf; exact .leave
  | addTask p => cases hk; exact .of_test (fun _ => .initialized p) (fun _ => .notInitialized p) hf
  | ifReady p => cases hk; exact .of_test (fun _ => .notReady p) (fun _ => .ready p) hf
  | fetchId p => cases hk; cases hf; exact .fetchId p
  | enqueue t => cases hk; cases hf; exact .enqueue t
  | setPaused =>
    cases hk
    cases hf
    split_ifs with h
    · exact .setPaused (by simpa using (Bool.and_eq_true_iff.mp h).2)
    · exact .setPausedNot
  | clearPaused => cases hk; exact .of_guard (fun _ => .clearPaused) .clearPausedNot hf
  | setTerminated => cases hk; exact .of_guard (fun _ => .setTerminated) .setTerminatedNot hf
  | resetPaused => cases hk; cases hf; exact .resetPaused
  | join =>
    cases hk
    dsimp only at hf
    split_ifs at hf with h
    cases hf
    exact .join h
  | clear =>
    cases hk
    cases hf
    exact .clear
  | _ => cases hk

/-- What a call begins with. -/
theorem poolCode_call {k k' : PoolPoint} {o : PoolOp} (hk : (poolCode pick).call k o = some k') :
    k = .idle ∧ ((∃ p, k' = .addTask p) ∨ k' = .pause ∨ k' = .unpause ∨ k' = .terminate) := by
  cases k with
  | idle =>
    cases o with
    | addTask p => exact ⟨rfl, .inl ⟨p, (Option.some.inj hk).symm⟩⟩
    | pause => exact ⟨rfl, .inr (.inl (Option.some.inj hk).symm)⟩
    | unpause => exact ⟨rfl, .inr (.inr (.inl (Option.some.inj hk).symm))⟩
    | terminate => exact ⟨rfl, .inr (.inr (.inr (Option.some.inj hk).symm))⟩
  | _ => cases o <;> cases hk

namespace PoolPoint

/-- The mutex that is held at the point. -/
def mutex : PoolPoint → Option PoolMutex
  | testTerminated | testPaused | testEmpty | wait | ifTerminated | ifPaused | ifEmpty | pop
  | .continue | popped _ | broken | enqueue _ | pushed | notifyAll _ | notified _ => some .queue
  | setPaused | clearPaused | unpaused | setTerminated | resetPaused | terminated | clear
  | unlockState => some .state
  | _ => none

/-- The members of the queue are read or written at the point. -/
def TouchesQueue : PoolPoint → Prop
  | testEmpty | ifEmpty | pop | enqueue _ | clear => True
  | _ => False

/-- The point is one of a worker. -/
def OfWorker : PoolPoint → Prop
  | routine | testTerminated | testPaused | testEmpty | wait | ifTerminated | ifPaused | ifEmpty
  | pop | .continue | popped _ | run _ | broken | leave | ended => True
  | _ => False

/-- The worker has not returned. -/
def alive : PoolPoint → Multiset Unit
  | routine | testTerminated | testPaused | testEmpty | wait | ifTerminated | ifPaused | ifEmpty
  | pop | .continue | popped _ | run _ | broken | leave => {()}
  | _ => 0

/-- The task a worker has taken and not finished. -/
def inHand : PoolPoint → Multiset Task
  | popped t | run t => {t}
  | _ => 0

/-- The notifications still to be sent, and one for a worker that is to look for itself. -/
def credit : PoolPoint → ℕ∞
  | routine | testTerminated | testPaused | testEmpty | ifTerminated | ifPaused | ifEmpty | pop
  | .continue | pushed | notify => 1
  | unpaused | resetPaused | terminated | lockNotify _ | notifyAll _ => ⊤
  | _ => 0

/-- A flag was set that all workers are yet to hear of. -/
def Late : PoolPoint → Prop
  | unpaused | resetPaused | terminated | lockNotify _ | notifyAll _ => True
  | _ => False

end PoolPoint

/-- What each point holds is what the code has locked on the way there. -/
theorem locks_poolCode (pick : List Task → Option (Task × List Task)) :
    Locks (poolCode pick) fun k m => k.mutex = some m where
  call hk m := by
    obtain ⟨rfl, ⟨p, rfl⟩ | rfl | rfl | rfl⟩ := poolCode_call hk
    all_goals exact Iff.rfl
  act hk hf m := by cases poolAccess_of_act hk hf <;> exact Iff.rfl
  lock {k k' m} hk := by
    cases k <;> cases hk <;>
      exact ⟨by simp [PoolPoint.mutex], fun _ => by simp [PoolPoint.mutex, eq_comm]⟩
  unlock {k k' m} hk := by
    cases k with
    | notified joins =>
      cases hk
      refine ⟨rfl, fun m => ?_⟩
      cases joins <;> cases m <;> simp [PoolPoint.mutex]
    | _ => cases hk <;> exact ⟨rfl, fun m => by cases m <;> simp [PoolPoint.mutex]⟩
  wait {k k' m} hk := by
    cases k <;> cases hk
    exact ⟨rfl, fun _ => Iff.rfl⟩
  notifyOne {k k'} hk m := by
    cases k <;> cases hk
    exact Iff.rfl
  notifyAll {k k'} hk m := by
    cases k <;> cases hk
    exact Iff.rfl

/-! ## What holds at every point -/

/-- What holds of the pool at all times. -/
structure ThreadPool.Inv (s : ThreadPool) : Prop where
  tasks : s.pushed = (s.queue : Multiset Task) + (s.taken.map (·.1) : List Task) + s.cleared
  top : ∀ r ∈ s.taken, ∀ t ∈ r.2, t.priority.toNat ≤ r.1.priority.toNat
  since : s.paused = true → s.since ≤ 1
  cleared : s.terminated = false → s.cleared = 0
  left : s.initialized = false → s.working = 0

/-- What a thread knows of the pool where it is. -/
def PoolPoint.Knows : PoolPoint → ThreadPool → Prop
  | ifEmpty, s | pop, s => s.paused = true → s.since = 0
  | broken, s | leave, s | ended, s | resetPaused, s | terminated, s | lockNotify true, s
  | notifyAll true, s | notified true, s | join, s => s.terminated = true
  | final, s | clear, s => s.terminated = true ∧ s.working = 0
  | _, _ => True

/-- What is asserted of thread `i`. -/
structure PoolPoint.Asserts {ι : Type*} (workers : ι → Prop) (i : ι) (k : PoolPoint)
    (s : ThreadPool) : Prop where
  worker : k.OfWorker ↔ workers i
  knows : k.Knows s

/-- Taking a task keeps the count of what is in hand. -/
theorem ThreadPool.Inv.take (hpick : Pops pick) {s : ThreadPool} (h : s.Inv)
    (hsince : s.paused = true → s.since = 0) {t : Task} {queue : List Task}
    (ht : pick s.queue = some (t, queue)) : (s.take t queue).Inv where
  tasks := by
    have hqueue : (s.queue : Multiset Task) = t ::ₘ (queue : Multiset Task) :=
      (Multiset.coe_eq_coe.mpr (hpick.perm ht)).symm
    have htasks := h.tasks
    rw [hqueue] at htasks
    rw [ThreadPool.take, List.map_cons, ← Multiset.cons_coe, htasks, Multiset.cons_add,
      Multiset.add_cons]
  top r hr := by
    rcases List.mem_cons.mp hr with rfl | hr
    · exact hpick.top ht
    · exact h.top r hr
  since hpaused := by
    rw [ThreadPool.take] at hpaused ⊢
    rw [if_pos hpaused, hsince hpaused]
  cleared := h.cleared
  left := h.left

/-- Adding a task keeps the invariant. -/
theorem ThreadPool.Inv.push {s : ThreadPool} (h : s.Inv) (t : Task) : (s.push t).Inv where
  tasks := by
    rw [ThreadPool.push, ← Multiset.cons_coe, h.tasks, Multiset.cons_add, Multiset.cons_add]
  top := h.top
  since := h.since
  cleared := h.cleared
  left := h.left

/-- Clearing the queue keeps it, once nobody is at work any more. -/
theorem ThreadPool.Inv.clear {s : ThreadPool} (h : s.Inv) (hterm : s.terminated = true)
    (hleft : s.working = 0) : s.clear.Inv where
  tasks := by
    change s.pushed = ((s.taken.map (·.1) : List Task) : Multiset Task) + (s.cleared + s.queue)
    rw [h.tasks]
    ac_rfl
  top := h.top
  since hp := by cases hp
  cleared hp := by
    rw [ThreadPool.clear, hterm] at hp
    cases hp
  left _ := hleft

/-- **Every access keeps the invariant.** -/
theorem ThreadPool.Inv.access (hpick : Pops pick) {s s' : ThreadPool} {k k' : PoolPoint}
    (h : s.Inv) (hknows : k.Knows s) (ha : PoolAccess pick s k s' k') : s'.Inv := by
  cases ha with
  | take ht => exact h.take hpick hknows ht
  | enqueue t => exact h.push t
  | setPaused hterm => exact ⟨h.tasks, h.top, fun _ => Nat.zero_le _, h.cleared, h.left⟩
  | clearPaused | resetPaused => exact ⟨h.tasks, h.top, Bool.noConfusion, h.cleared, h.left⟩
  | setTerminated => exact ⟨h.tasks, h.top, h.since, Bool.noConfusion, h.left⟩
  | clear => exact h.clear hknows.1 hknows.2
  | run t => exact ⟨h.tasks, h.top, h.since, h.cleared, h.left⟩
  | leave =>
    refine ⟨h.tasks, h.top, h.since, h.cleared, fun hinit => ?_⟩
    exact Nat.sub_eq_zero_of_le ((h.left hinit).trans_le (Nat.zero_le _))
  | fetchId p => exact ⟨h.tasks, h.top, h.since, h.cleared, h.left⟩
  | _ => exact h

/-- A pool that was terminated stays so. -/
theorem PoolAccess.terminated {s s' : ThreadPool} {k k' : PoolPoint}
    (ha : PoolAccess pick s k s' k') (h : s.terminated = true) : s'.terminated = true := by
  cases ha with
  | setTerminated => rfl
  | _ => exact h

/-- No worker comes back. -/
theorem PoolAccess.working {s s' : ThreadPool} {k k' : PoolPoint} (ha : PoolAccess pick s k s' k')
    (h : s.working = 0) : s'.working = 0 := by
  cases ha with
  | leave => exact Nat.sub_eq_zero_of_le (h.trans_le (Nat.zero_le _))
  | _ => exact h

/-- Where the access is not that of a worker that takes a task, the pool is either not paused, or
was paused this moment, or is as it was. -/
theorem PoolAccess.since {s s' : ThreadPool} {k k' : PoolPoint} (ha : PoolAccess pick s k s' k')
    (hk : k ≠ .pop) : s'.paused = false ∨ s'.since = 0 ∨
      (s'.paused = s.paused ∧ s'.since = s.since) := by
  cases ha with
  | takeNone | take => exact absurd rfl hk
  | setPaused => exact .inr (.inl rfl)
  | clearPaused | resetPaused | clear => exact .inl rfl
  | _ => exact .inr (.inr ⟨rfl, rfl⟩)

/-- What a thread knows it still knows at its next point. -/
theorem PoolPoint.Knows.step {k k' : PoolPoint} {s : ThreadPool}
    (hk : ((poolCode pick).instr k).target = some k') (h : k.Knows s) : k'.Knows s := by
  cases k with
  | notified joins =>
    cases hk
    cases joins
    · trivial
    · exact h
  | lockNotify joins | notifyAll joins =>
    cases hk
    cases joins
    · trivial
    · exact h
  | _ => cases hk <;> exact h

/-- What an access tells the thread that makes it. -/
theorem PoolPoint.Knows.access {k k' : PoolPoint} {s s' : ThreadPool}
    (ha : PoolAccess pick s k s' k') (h : k.Knows s) : k'.Knows s' := by
  cases ha with
  | breaks hterm => exact hterm
  | notPaused hp => exact fun hp' => absurd hp' (by simp [hp])
  | notEmpty => exact h
  | leave => exact h
  | setTerminated => rfl
  | resetPaused => exact h
  | join hleft => exact ⟨h, hleft⟩
  | _ => trivial

/-- The proof outline of the pool's code. -/
theorem outline_poolCode {ι : Type*} (workers : ι → Prop) (hpick : Pops pick) :
    Outline (poolCode pick) (fun k m => k.mutex = some m) ThreadPool.Inv
      (PoolPoint.Asserts workers) where
  call hk _ h := by
    obtain ⟨rfl, ⟨p, rfl⟩ | rfl | rfl | rfl⟩ := poolCode_call hk
    all_goals exact ⟨h.worker, trivial⟩
  act {i k k' f s s'} hk hinv h hf := by
    have ha := poolAccess_of_act hk hf
    refine ⟨hinv.access hpick h.knows ha, ?_, h.knows.access ha⟩
    rw [← h.worker]
    cases ha <;> exact Iff.rfl
  others {i j k k' l f s s'} _ hk _ h hf hapart hother := by
    have ha := poolAccess_of_act hk hf
    refine ⟨hother.worker, ?_⟩
    have hknows := hother.knows
    cases l with
    | ifEmpty | pop =>
      have hk' : k ≠ .pop := by
        rintro rfl
        obtain ⟨k₀, m, hk₀⟩ := hapart .queue rfl rfl
        cases k₀ <;> cases hk₀
      intro hp
      rcases ha.since hk' with hp' | hs | ⟨hp', hs⟩
      · rw [hp'] at hp
        cases hp
      · exact hs
      · exact hs.trans (hknows (hp'.symm.trans hp))
    | broken | leave | ended | resetPaused | terminated | join => exact ha.terminated hknows
    | final | clear => exact ⟨ha.terminated hknows.1, ha.working hknows.2⟩
    | lockNotify joins | notifyAll joins | notified joins =>
      cases joins
      · trivial
      · exact ha.terminated hknows
    | _ => trivial
  step {_ k k' _} hk _ h := by
    refine ⟨?_, h.knows.step hk⟩
    rw [← h.worker]
    cases k with
    | notified joins =>
      cases hk
      cases joins <;> exact Iff.rfl
    | _ => cases hk <;> exact Iff.rfl

variable {ι : Type*} {workers : ι → Prop}

/-- The counter of workers is the number of them that have not left. -/
theorem balance_working : Balance (poolCode pick) ThreadPool.Inv
    (PoolPoint.Asserts workers) (fun s => Multiset.replicate s.working ()) (fun _ => 0)
    PoolPoint.alive where
  call hk := by
    obtain ⟨rfl, ⟨p, rfl⟩ | rfl | rfl | rfl⟩ := poolCode_call hk
    all_goals rfl
  act {i k k' f s s'} hk _ _ hle hf := by
    rw [zero_add] at hle ⊢
    rw [zero_add]
    cases poolAccess_of_act hk hf with
    | leave =>
      have hone : 1 ≤ s.working := by
        simpa [PoolPoint.alive] using Multiset.card_le_card hle
      have hsucc : s.working - 1 + 1 = s.working := Nat.sub_add_cancel hone
      calc Multiset.replicate (s.working - 1) () + {()}
          = Multiset.replicate (s.working - 1 + 1) () := by
            rw [Multiset.replicate_succ, ← Multiset.singleton_add, add_comm]
        _ = Multiset.replicate s.working () + 0 := by rw [hsucc, add_zero]
    | _ => rfl
  step {k k'} hk := by
    cases k with
    | notified joins =>
      cases hk
      cases joins <;> rfl
    | _ => cases hk <;> rfl

/-- A task that was taken is in a worker's hand or finished. -/
theorem balance_tasks : Balance (poolCode pick) ThreadPool.Inv
    (PoolPoint.Asserts workers) (fun s => ((s.taken.map (·.1) : List Task) : Multiset Task))
    (fun s => s.finished) PoolPoint.inHand where
  call hk := by
    obtain ⟨rfl, ⟨p, rfl⟩ | rfl | rfl | rfl⟩ := poolCode_call hk
    all_goals rfl
  act {i k k' f s s'} hk _ _ hle hf := by
    cases poolAccess_of_act hk hf with
    | @take t queue h =>
      change (t ::ₘ ((s.taken.map (·.1) : List Task) : Multiset Task)) + (s.finished + 0) =
        ((s.taken.map (·.1) : List Task) : Multiset Task) + (s.finished + {t})
      rw [← Multiset.singleton_add]
      ac_rfl
    | run t =>
      exact congrArg _ ((add_comm _ _).trans ((Multiset.singleton_add ..).trans (add_zero _).symm))
    | _ => rfl
  step {k k'} hk := by
    cases k with
    | notified joins =>
      cases hk
      cases joins <;> rfl
    | _ => cases hk <;> rfl

/-! ## No notification is lost -/

/-- What the pool has for its workers; `⊤` where they are to return. -/
def ThreadPool.need (s : ThreadPool) : ℕ∞ :=
  if s.terminated then ⊤ else if s.paused then 0 else s.queue.length

/-- A terminated pool has to wake everyone. -/
theorem ThreadPool.need_of_terminated {s : ThreadPool} (h : s.terminated = true) : s.need = ⊤ :=
  if_pos h

/-- A pool has nobody to wake while it is paused or has no task. -/
theorem ThreadPool.need_eq_zero_iff {s : ThreadPool} :
    s.need = 0 ↔ s.terminated = false ∧ (s.paused = true ∨ s.queue = []) := by
  cases hterm : s.terminated <;> cases hpaused : s.paused <;> simp [need, hterm, hpaused]

/-- What a worker has seen on its way to sleep is no longer so. -/
def PoolPoint.Stale (k : PoolPoint) (s : ThreadPool) : Prop :=
  match k with
  | testPaused | testEmpty => s.terminated = true
  | wait => s.need ≠ 0
  | _ => False

/-- Taking a task takes one off the need. -/
theorem ThreadPool.need_take_le (hpick : Pops pick) {s : ThreadPool} {t : Task} {queue : List Task}
    (h : pick s.queue = some (t, queue)) :
    (s.take t queue).need = 0 ∨ (s.take t queue).need + 1 ≤ s.need := by
  have hlength : s.queue.length = queue.length + 1 := (hpick.perm h).length_eq.symm
  cases hterm : s.terminated <;> cases hpaused : s.paused <;>
    simp [need, ThreadPool.take, hterm, hpaused, hlength]

/-- Adding a task adds one to the need. -/
theorem ThreadPool.need_push_le (s : ThreadPool) (t : Task) : (s.push t).need ≤ s.need + 1 := by
  cases hterm : s.terminated <;> cases hpaused : s.paused <;>
    simp [need, ThreadPool.push, hterm, hpaused]

/-- A worker that finds the pool paused, or the queue empty, has nothing to do unless it is to
return. -/
theorem ThreadPool.terminated_of_need {s : ThreadPool} (h : s.paused = true ∨ s.queue = [])
    (hneed : s.need ≠ 0) : s.terminated = true := by
  by_contra hterm
  exact hneed (need_eq_zero_iff.mpr ⟨by simpa using hterm, h⟩)

/-- Who changes what the pool has for its workers owes them the notifications. -/
theorem PoolAccess.need (hpick : Pops pick) {s s' : ThreadPool} {k k' : PoolPoint}
    (ha : PoolAccess pick s k s' k') (hknows : k.Knows s) :
    s'.need = 0 ∨ k'.credit = ⊤ ∨ (k.credit ≠ ⊤ ∧ s'.need + k.credit ≤ s.need + k'.credit) := by
  have hsleep : s.paused = true ∨ s.queue = [] → s.need = 0 ∨ (1 : ℕ∞) ≠ ⊤ ∧ s.need + 1 ≤ s.need + 0 :=
    fun h => (em _).imp_right fun hneed => by
      simp [ThreadPool.need_of_terminated (ThreadPool.terminated_of_need h hneed)]
  cases ha with
  | seesPaused h => exact (hsleep (.inl h)).imp_right .inr
  | seesEmpty h => exact (hsleep (.inr h)).imp_right .inr
  | breaks h =>
    exact .inr (.inr ⟨by simp [PoolPoint.credit], by simp [ThreadPool.need_of_terminated h]⟩)
  | take h =>
    refine (ThreadPool.need_take_le hpick h).imp_right fun hle => ?_
    exact .inr ⟨by simp [PoolPoint.credit], hle.trans_eq (add_zero _).symm⟩
  | enqueue t =>
    exact .inr (.inr ⟨by simp [PoolPoint.credit],
      (add_zero _).trans_le (ThreadPool.need_push_le s t)⟩)
  | setPaused h => exact .inl (ThreadPool.need_eq_zero_iff.mpr ⟨h, .inl rfl⟩)
  | clearPaused | setTerminated | resetPaused => exact .inr (.inl rfl)
  | clear =>
    exact .inr (.inr ⟨by simp [PoolPoint.credit], by
      rw [ThreadPool.need_of_terminated (s := s) hknows.1]
      simp [PoolPoint.credit]⟩)
  | run t =>
    refine .inr (.inr ⟨by simp [PoolPoint.credit], ?_⟩)
    exact (add_zero _).trans_le (le_self_add (a := s.need))
  | _ => exact .inr (.inr ⟨by simp [PoolPoint.credit], le_rfl⟩)

/-- What a worker has seen goes out of date only by its own slowness, or where all will be
notified. -/
theorem PoolAccess.stale {s s' : ThreadPool} {k k' l : PoolPoint} (ha : PoolAccess pick s k s' k')
    (hknows : k.Knows s) (hfree : k.mutex ≠ some .queue) (hstale : l.Stale s') :
    l.Stale s ∨ k'.Late := by
  cases ha with
  | clearPaused | setTerminated | resetPaused => exact .inr trivial
  | setPaused h =>
    refine .inl ?_
    cases l with
    | wait => exact (hstale (ThreadPool.need_eq_zero_iff.mpr ⟨h, .inl rfl⟩)).elim
    | _ => exact hstale
  | clear =>
    refine .inl ?_
    cases l with
    | wait =>
      rw [PoolPoint.Stale, ThreadPool.need_of_terminated (s := s) hknows.1]
      exact ENat.top_ne_zero
    | _ => exact hstale
  | run | leave | fetchId =>
    refine .inl ?_
    cases l <;> exact hstale
  | initialized | notInitialized | ready | notReady | setPausedNot | clearPausedNot
  | setTerminatedNot | join => exact .inl hstale
  | _ => exact absurd rfl hfree

/-- Every access that raises the need is followed by its wake-ups. -/
theorem wakeups_poolCode {ι : Type*} (workers : ι → Prop) (hpick : Pops pick) :
    Wakeups (poolCode pick) (fun k m => k.mutex = some m) ThreadPool.Inv
      (PoolPoint.Asserts workers) .queue ThreadPool.need PoolPoint.credit PoolPoint.Late
      PoolPoint.Stale where
  top {k} h := by cases k <;> first | exact h.elim | rfl
  mutex {k _} h := by cases k <;> first | exact h.elim | rfl
  call hk := by
    obtain ⟨rfl, ⟨p, rfl⟩ | rfl | rfl | rfl⟩ := poolCode_call hk
    all_goals exact ⟨le_rfl, id, id⟩
  act {i k k' f s s'} hk hinv h hf := by
    have ha := poolAccess_of_act hk hf
    refine ⟨ha.need hpick h.knows, ?_, ?_⟩
    · cases ha <;> first | exact False.elim | exact fun _ => trivial
    · cases ha with
      | seesWorking hterm => exact fun hstale => absurd hstale (by simp [PoolPoint.Stale, hterm])
      | seesUnpaused hpaused => exact id
      | seesPaused hpaused => exact ThreadPool.terminated_of_need (.inl hpaused)
      | seesEmpty hqueue => exact ThreadPool.terminated_of_need (.inr hqueue)
      | _ => exact False.elim
  others hk _ h hf hfree hstale := (poolAccess_of_act hk hf).stale h.knows hfree hstale
  lock {k k' m _} hk := by
    cases k <;> cases hk <;> exact ⟨by simp [PoolPoint.credit], id, id⟩
  unlock {k k' m _} hk := by
    cases k with
    | notified joins =>
      cases hk
      cases joins <;> exact ⟨by simp [PoolPoint.credit], id, id⟩
    | _ => cases hk <;> exact ⟨by simp [PoolPoint.credit], id, id⟩
  wait {k k' m s} hk := by
    cases k <;> cases hk
    exact ⟨id, id, le_rfl, id⟩
  notifyOne {k k' _} hk := by
    cases k <;> cases hk
    exact ⟨by simp [PoolPoint.credit], id, id⟩
  notifyAll {k k' _} hk := by
    cases k <;> cases hk
    exact ⟨fun _ => rfl, id⟩

/-- No thread has two mutexes, and none where it rests. -/
theorem oneLock_poolCode {ι : Type*} (workers : ι → Prop) :
    OneLock (poolCode pick) (fun k m => k.mutex = some m) (PoolPoint.Asserts workers) where
  one h h' := Option.some.inj (h.symm.trans h')
  rest {k m} hk h := by cases k <;> first | cases hk; done | cases h
  act {i k f m s} hk h _ := by
    cases k with
    | pop =>
      cases hk
      cases hpick : pick s.queue <;> simp [hpick]
    | clearPaused | setTerminated =>
      cases hk
      dsimp only
      split_ifs <;> simp
    | testTerminated | testPaused | testEmpty | ifTerminated | ifPaused | ifEmpty | enqueue | setPaused
    | resetPaused | clear =>
      cases hk
      simp
    | join | run | leave | addTask | ifReady | fetchId => cases h
    | _ => cases hk

/-! ## Every run -/

section Run

variable {ι : Type*} [DecidableEq ι] {workers : Finset ι}

/-- The workers have just been started, the others are yet to call. -/
def poolStart (workers : Finset ι) : Threads ThreadPool PoolMutex PoolPoint ι :=
  .start { working := workers.card } fun i => if i ∈ workers then .routine else .idle

/-- At the start no mutex is held. -/
theorem owned_poolStart :
    (poolStart workers).Owned (poolCode pick) fun k m => k.mutex = some m :=
  Threads.owned_start fun i m => by split_ifs <;> simp [PoolPoint.mutex]

/-- At the start the invariant holds, and every thread's assertion. -/
theorem meets_poolStart : (poolStart workers).Meets ThreadPool.Inv
    (PoolPoint.Asserts (· ∈ workers)) := by
  refine Threads.meets_start ⟨rfl, by simp, by simp, fun _ => rfl, by simp⟩ fun i => ?_
  by_cases hi : i ∈ workers
  · simp only [hi, if_true]
    exact ⟨iff_of_true trivial hi, trivial⟩
  · simp only [hi, if_false]
    exact ⟨iff_of_false id hi, trivial⟩

variable {n : Threads ThreadPool PoolMutex PoolPoint ι} (hpick : Pops pick)
  (hrun : (poolCode pick).Run (poolStart workers) n)

include hpick hrun

/-- Both hold in every run. -/
theorem pool_meets : n.Owned (poolCode pick) (fun k m => k.mutex = some m) ∧
    n.Meets ThreadPool.Inv (PoolPoint.Asserts (· ∈ workers)) :=
  (outline_poolCode _ hpick).meets_of_run (locks_poolCode pick) owned_poolStart meets_poolStart hrun

variable [Fintype ι]

/-- In every run the counter of workers is right. -/
theorem pool_working : Multiset.replicate n.shared.working () = n.belongings PoolPoint.alive := by
  have hstart : (poolStart workers).Balanced (fun s => Multiset.replicate s.working ())
      (fun _ => 0) PoolPoint.alive := by
    have halive : ∀ i, ((poolStart workers).thread i).point.alive = if i ∈ workers then {()} else 0 :=
      fun i => by
        simp only [poolStart, Threads.start, Thread.point]
        split_ifs <;> rfl
    rw [Threads.Balanced, zero_add, Threads.belongings, Threads.total,
      Finset.sum_congr rfl fun i _ => halive i]
    simp [Finset.sum_ite_mem, Multiset.nsmul_singleton, poolStart, Threads.start]
  have hend := balance_working.of_run (outline_poolCode _ hpick) (locks_poolCode pick)
    owned_poolStart meets_poolStart hstart hrun
  rwa [Threads.Balanced, zero_add] at hend

/-- In every run a task that was taken is in hand or finished. -/
theorem pool_tasks : ((n.shared.taken.map (·.1) : List Task) : Multiset Task) =
    n.shared.finished + n.belongings PoolPoint.inHand := by
  have hstart : (poolStart workers).Balanced
      (fun s => ((s.taken.map (·.1) : List Task) : Multiset Task)) (fun s => s.finished)
      PoolPoint.inHand := by
    refine ((zero_add _).trans (Finset.sum_eq_zero fun i _ => ?_)).symm
    simp only [poolStart, Threads.start, Thread.point]
    split_ifs <;> rfl
  exact balance_tasks.of_run (outline_poolCode _ hpick) (locks_poolCode pick)
    owned_poolStart meets_poolStart hstart hrun

/-- In every run whoever sleeps is owed a wake-up when there is need of it. -/
theorem pool_heard : n.Heard ThreadPool.need PoolPoint.credit PoolPoint.Late PoolPoint.Stale :=
  (wakeups_poolCode _ hpick).heard_of_run (outline_poolCode _ hpick) (locks_poolCode pick)
    owned_poolStart meets_poolStart
    (Threads.heard_start fun i => by split_ifs <;> exact id) hrun

/-- Where none of the workers is counted, each has returned. -/
theorem ended_of_working (hzero : n.shared.working = 0) {i : ι} (hi : i ∈ workers) :
    n.thread i = .awake .ended := by
  obtain ⟨hown, hmeets⟩ := pool_meets hpick hrun
  have hworker : (n.thread i).point.OfWorker := (hmeets.thread i).worker.mpr hi
  have halive : (n.thread i).point.alive = 0 := by
    have hle := n.le_belongings PoolPoint.alive i
    rw [← pool_working hpick hrun, hzero, Multiset.replicate_zero] at hle
    exact Multiset.le_zero.mp hle
  have hawaits := hown.awaits i
  cases ht : n.thread i with
  | awake k =>
    rw [ht] at hworker halive
    cases k <;> first | rfl | exact hworker.elim | exact absurd halive (by simp [PoolPoint.alive, Thread.point])
  | asleep m k | woken m k =>
    rw [ht] at halive hawaits
    obtain ⟨k₀, hk₀⟩ := hawaits
    cases k₀ with
    | wait =>
      cases hk₀
      exact absurd halive (by simp [PoolPoint.alive, Thread.point])
    | _ => cases hk₀

/-- **The one data race of the queue** is between `terminate`, which clears it, and `add_task`. -/
theorem Races.clear_enqueue (hraces : ThreadCode.Races PoolPoint.TouchesQueue n) :
    ∃ i j t, n.thread i = .awake .clear ∧ n.thread j = .awake (.enqueue t) := by
  obtain ⟨hown, hmeets⟩ := pool_meets hpick hrun
  obtain ⟨i, k, hi, htouches, hfree⟩ := hown.exists_of_races .queue hraces
  have hclear : n.thread i = .awake .clear := by
    cases k with
    | clear => exact hi
    | testEmpty | ifEmpty | pop | enqueue => exact absurd rfl hfree
    | _ => exact htouches.elim
  obtain ⟨j, l, hne, hj, htouches'⟩ : ∃ j l, i ≠ j ∧ n.thread j = .awake l ∧ l.TouchesQueue := by
    obtain ⟨i₁, i₂, k₁, k₂, hne, h₁, hk₁, h₂, hk₂⟩ := hraces
    by_cases hi₁ : i = i₁
    · exact ⟨i₂, k₂, fun h => hne (hi₁.symm.trans h), h₂, hk₂⟩
    · exact ⟨i₁, k₁, hi₁, h₁, hk₁⟩
  have hzero : n.shared.working = 0 := (hmeets.awake hclear).knows.2
  have hout : ¬ l.OfWorker := fun hl => by
    have hend := ended_of_working hpick hrun hzero ((hmeets.awake hj).worker.mp hl)
    rw [hj] at hend
    cases hend
    exact htouches'
  cases l with
  | enqueue t => exact ⟨i, j, t, hclear, hj⟩
  | clear =>
    refine absurd (hown.unique (m := .state) ?_ ?_) hne
    · rw [hclear]
      rfl
    · rw [hj]
      rfl
  | testEmpty | ifEmpty | pop => exact absurd trivial hout
  | _ => exact htouches'.elim

omit [Fintype ι] in
/-- Where no thread can go on, each is at one of these points. -/
theorem pool_quiet (hstuck : ∀ i, ¬ (n.thread i).CanStep (poolCode pick) n) (i : ι) :
    n.thread i = .asleep .queue .testTerminated ∨ n.thread i = .awake .ended ∨
      n.thread i = .awake .idle ∨ (n.thread i = .awake .join ∧ n.shared.working ≠ 0) := by
  obtain ⟨hown, hmeets⟩ := pool_meets hpick hrun
  rcases (oneLock_poolCode _).quiet_of_stuck (locks_poolCode pick) hown hmeets hstuck i with
    ⟨m, k, hi⟩ | ⟨k, hi, hrest | ⟨f, hf, hnone, hfree⟩⟩
  · have hawaits := hown.awaits i
    rw [hi] at hawaits
    obtain ⟨k₀, hk₀⟩ := hawaits
    cases k₀ with
    | wait =>
      cases hk₀
      exact .inl hi
    | _ => cases hk₀
  · cases k with
    | ended => exact .inr (.inl hi)
    | idle => exact .inr (.inr (.inl hi))
    | _ => cases hrest
  · cases k with
    | join =>
      cases hf
      dsimp only at hnone
      split_ifs at hnone with hzero
      exact .inr (.inr (.inr ⟨hi, hzero⟩))
    | run | leave | addTask | ifReady | fetchId =>
      cases hf
      cases hnone
    | testTerminated | testPaused | testEmpty | ifTerminated | ifPaused | ifEmpty | pop | enqueue =>
      exact absurd rfl (hfree .queue)
    | setPaused | clearPaused | setTerminated | resetPaused | clear =>
      exact absurd rfl (hfree .state)
    | _ => cases hf

omit hrun

variable (hfree : (poolCode pick).RaceFreeRun PoolPoint.TouchesQueue (poolStart workers) n)

include hfree

/-- **No task is lost and none is run twice**, in every run without the race: those pushed are queued, in the hands of a
worker, finished, or cleared away by `terminate`.  No task is taken while one of a higher priority
is queued; after `pause` at most one is; and once `terminate` has cleared the pool, every worker
has returned. -/
theorem tasks_accounted :
    n.shared.pushed = (n.shared.queue : Multiset Task) + n.belongings PoolPoint.inHand +
        n.shared.finished + n.shared.cleared ∧
      (∀ r ∈ n.shared.taken, ∀ t ∈ r.2, t.priority.toNat ≤ r.1.priority.toNat) ∧
      (n.shared.paused = true → n.shared.since ≤ 1) ∧
      (n.shared.initialized = false → ∀ i ∈ workers, n.thread i = .awake .ended) := by
  have hrun := hfree.run
  obtain ⟨-, hmeets⟩ := pool_meets hpick hrun
  refine ⟨?_, hmeets.state.top, hmeets.state.since, fun hinit i hi =>
    ended_of_working hpick hrun (hmeets.state.left hinit) hi⟩
  rw [hmeets.state.tasks, pool_tasks hpick hrun]
  ac_rfl

/-- **Nothing is left undone.**  Where no thread can go on, every call has returned, `terminate`
included.  If the pool was not terminated, its workers sleep, and unless it is paused every task
pushed is finished; if it was, the workers have returned. Who joins has terminated the pool. -/
theorem finished_of_stuck (hstuck : ∀ i, ¬ (n.thread i).CanStep (poolCode pick) n)
    (hworkers : workers.Nonempty) :
    (∀ i, i ∉ workers → n.thread i = .awake .idle) ∧
      (n.shared.terminated = false →
        (∀ i ∈ workers, n.thread i = .asleep .queue .testTerminated) ∧
          (n.shared.paused = false → n.shared.finished = n.shared.pushed)) ∧
      (n.shared.terminated = true → ∀ i ∈ workers, n.thread i = .awake .ended) := by
  have hrun := hfree.run
  obtain ⟨-, hmeets⟩ := pool_meets hpick hrun
  have hquiet := pool_quiet hpick hrun hstuck
  have hpoint : ∀ i, i ∈ workers ↔ (n.thread i).point.OfWorker := fun i =>
    (hmeets.thread i).worker.symm
  have hasleep : ∀ i, n.thread i = .asleep .queue .testTerminated → n.shared.terminated = false ∧
      (n.shared.paused = true ∨ n.shared.queue = []) := fun i hi =>
    ThreadPool.need_eq_zero_iff.mp <| (pool_heard hpick hrun).need_eq_zero hi fun j => by
      rcases hquiet j with hj | hj | hj | ⟨hj, -⟩ <;> rw [hj] <;> rfl
  have hworker : ∀ i ∈ workers, n.thread i = .asleep .queue .testTerminated ∨
      n.thread i = .awake .ended := by
    intro i hi
    rw [hpoint] at hi
    rcases hquiet i with h | h | h | ⟨h, -⟩
    · exact .inl h
    · exact .inr h
    · rw [h] at hi
      exact hi.elim
    · rw [h] at hi
      exact hi.elim
  have hended : n.shared.terminated = true → ∀ i ∈ workers, n.thread i = .awake .ended :=
    fun hterm i hi => (hworker i hi).resolve_left fun h => by
      rw [(hasleep i h).1] at hterm
      cases hterm
  refine ⟨fun i hi => ?_, fun hterm => ?_, hended⟩
  · rw [hpoint] at hi
    rcases hquiet i with h | h | h | ⟨h, hworking⟩
    · rw [h] at hi
      exact absurd trivial hi
    · rw [h] at hi
      exact absurd trivial hi
    · exact h
    · refine absurd ?_ hworking
      have hall := hended (hmeets.awake h).knows
      have hzero : n.belongings PoolPoint.alive = 0 := Finset.sum_eq_zero fun j _ => by
        rcases hquiet j with hj | hj | hj | ⟨hj, -⟩
        · have hj' := hall j ((hpoint j).mpr (by rw [hj]; trivial))
          rw [hj] at hj'
          cases hj'
        · rw [hj]
          rfl
        · rw [hj]
          rfl
        · rw [hj]
          rfl
      rw [← pool_working hpick hrun] at hzero
      simpa using congrArg Multiset.card hzero
  · have hsleep : ∀ i ∈ workers, n.thread i = .asleep .queue .testTerminated := fun i hi =>
      (hworker i hi).resolve_right fun h => by
        have hterm' : n.shared.terminated = true := (hmeets.awake h).knows
        rw [hterm] at hterm'
        cases hterm'
    refine ⟨hsleep, fun hpaused => ?_⟩
    obtain ⟨i, hi⟩ := hworkers
    have hqueue : n.shared.queue = [] :=
      (hasleep i (hsleep i hi)).2.resolve_left (by simp [hpaused])
    have hhand : n.belongings PoolPoint.inHand = 0 := Finset.sum_eq_zero fun j _ => by
      rcases hquiet j with hj | hj | hj | ⟨hj, -⟩ <;> rw [hj] <;> rfl
    rw [(tasks_accounted hpick hfree).1, hqueue, hhand, hmeets.state.cleared hterm]
    simp

end Run

/-! ## One worker and one task -/

/-- The first of the tasks of the highest priority. -/
def pickFirst : List Task → Option (Task × List Task)
  | [] => none
  | t :: queue =>
    match pickFirst queue with
    | none => some (t, [])
    | some (t', rest) =>
      if t'.priority.toNat ≤ t.priority.toNat then some (t, queue) else some (t', t :: rest)

theorem pickFirst_eq_none_iff (q : List Task) : pickFirst q = none ↔ q = [] := by
  cases q with
  | nil => simp [pickFirst]
  | cons t queue =>
    rw [pickFirst]
    split
    · simp
    · split_ifs <;> simp

/-- The first of the highest priority is a task of the highest priority. -/
theorem pickFirst_spec : ∀ {q : List Task} {t : Task} {rest : List Task},
    pickFirst q = some (t, rest) →
      (t :: rest).Perm q ∧ ∀ t' ∈ q, t'.priority.toNat ≤ t.priority.toNat
  | t :: queue, u, rest, h => by
      rw [pickFirst] at h
      split at h
      next hnone =>
        obtain rfl := (pickFirst_eq_none_iff queue).mp hnone
        cases h
        exact ⟨List.Perm.refl _, by simp⟩
      next t' rest' hsome =>
        obtain ⟨hperm, htop⟩ := pickFirst_spec hsome
        split_ifs at h with hle
        · cases h
          refine ⟨List.Perm.refl _, fun v hv => ?_⟩
          rcases List.mem_cons.mp hv with rfl | hv
          · exact le_rfl
          · exact (htop v hv).trans hle
        · cases h
          refine ⟨(List.Perm.swap ..).trans (hperm.cons t), fun v hv => ?_⟩
          rcases List.mem_cons.mp hv with rfl | hv
          · exact (not_le.mp hle).le
          · exact htop v hv

theorem pops_pickFirst : Pops pickFirst where
  none_iff := pickFirst_eq_none_iff
  perm h := (pickFirst_spec h).1
  top h t' ht' := (pickFirst_spec h).2 t' ((pickFirst_spec h).1.subset (List.mem_cons_of_mem _ ht'))

/-- One more step of two threads, of which one stays off the queue. -/
theorem raceFree_head {n n' n'' : Threads ThreadPool PoolMutex PoolPoint Bool}
    (h : ∃ i, ¬ (n.thread i).point.TouchesQueue) (hs : (poolCode pick).Step n n')
    (hrest : (poolCode pick).RaceFreeRun PoolPoint.TouchesQueue n' n'') :
    (poolCode pick).RaceFreeRun PoolPoint.TouchesQueue n n'' := by
  refine .head ⟨?_, hs⟩ hrest
  rintro ⟨i, j, k, l, hne, hi, hk, hj, hl⟩
  obtain ⟨m, hm⟩ := h
  by_cases hmi : m = i
  · subst hmi
    rw [hi] at hm
    exact hm hk
  · obtain rfl : m = j := by
      cases m <;> cases i <;> cases j <;> first | rfl | exact absurd rfl hmi | exact absurd rfl hne
    rw [hj] at hm
    exact hm hl

/-- The worker sleeps, is woken by a task, runs it, and sleeps again. -/
theorem exists_finished : ∃ n : Threads ThreadPool PoolMutex PoolPoint Bool,
    (poolCode pickFirst).RaceFreeRun PoolPoint.TouchesQueue (poolStart {true}) n ∧
      n.shared.terminated = false ∧ n.shared.paused = false ∧ n.shared.pushed = {⟨0, .high⟩} ∧
      ∀ i, ¬ (n.thread i).CanStep (poolCode pickFirst) n := by
  have hcaller : ∀ {n : Threads ThreadPool PoolMutex PoolPoint Bool},
      ¬ (n.thread false).point.TouchesQueue → ∃ i, ¬ (n.thread i).point.TouchesQueue :=
    fun h => ⟨false, h⟩
  have hworker : ∀ {n : Threads ThreadPool PoolMutex PoolPoint Bool},
      ¬ (n.thread true).point.TouchesQueue → ∃ i, ¬ (n.thread i).point.TouchesQueue :=
    fun h => ⟨true, h⟩
  refine ⟨_, raceFree_head (hcaller id) (.lock (i := true) rfl rfl rfl)
    <| raceFree_head (hcaller id) (.act (i := true) rfl rfl rfl)
    <| raceFree_head (hcaller id) (.act (i := true) rfl rfl rfl)
    <| raceFree_head (hcaller id) (.act (i := true) rfl rfl rfl)
    <| raceFree_head (hcaller id) (.wait (i := true) rfl rfl)
    <| raceFree_head (hworker id) (.call (i := false) (o := .addTask .high) rfl rfl)
    <| raceFree_head (hworker id) (.act (i := false) rfl rfl rfl)
    <| raceFree_head (hworker id) (.act (i := false) rfl rfl rfl)
    <| raceFree_head (hworker id) (.act (i := false) rfl rfl rfl)
    <| raceFree_head (hworker id) (.lock (i := false) rfl rfl rfl)
    <| raceFree_head (hworker id) (.act (i := false) rfl rfl rfl)
    <| raceFree_head (hworker id) (.unlock (i := false) rfl rfl)
    <| raceFree_head (hworker id) (.notifyOne (i := false) (j := true) rfl rfl rfl)
    <| raceFree_head (hcaller id) (.retake (i := true) rfl rfl)
    <| raceFree_head (hcaller id) (.act (i := true) rfl rfl rfl)
    <| raceFree_head (hcaller id) (.act (i := true) rfl rfl rfl)
    <| raceFree_head (hcaller id) (.act (i := true) rfl rfl rfl)
    <| raceFree_head (hcaller id) (.act (i := true) rfl rfl rfl)
    <| raceFree_head (hcaller id) (.act (i := true) rfl rfl rfl)
    <| raceFree_head (hcaller id) (.act (i := true) rfl rfl rfl)
    <| raceFree_head (hcaller id) (.act (i := true) rfl rfl rfl)
    <| raceFree_head (hcaller id) (.unlock (i := true) rfl rfl)
    <| raceFree_head (hcaller id) (.act (i := true) rfl rfl rfl)
    <| raceFree_head (hcaller id) (.lock (i := true) rfl rfl rfl)
    <| raceFree_head (hcaller id) (.act (i := true) rfl rfl rfl)
    <| raceFree_head (hcaller id) (.act (i := true) rfl rfl rfl)
    <| raceFree_head (hcaller id) (.act (i := true) rfl rfl rfl)
    <| raceFree_head (hcaller id) (.wait (i := true) rfl rfl)
    <| .refl, rfl, rfl, rfl, fun i h => ?_⟩
  cases i <;> exact h

theorem tasks_accounted_one : ∃ n : Threads ThreadPool PoolMutex PoolPoint Bool,
    n.shared.pushed = {⟨0, .high⟩} ∧
      n.shared.pushed = (n.shared.queue : Multiset Task) + n.belongings PoolPoint.inHand +
        n.shared.finished + n.shared.cleared := by
  obtain ⟨n, hrun, -, -, hpushed, -⟩ := exists_finished
  exact ⟨n, hpushed, (tasks_accounted pops_pickFirst hrun).1⟩

theorem finished_of_stuck_one : ∃ n : Threads ThreadPool PoolMutex PoolPoint Bool,
    n.shared.pushed = {⟨0, .high⟩} ∧ n.shared.finished = n.shared.pushed := by
  obtain ⟨n, hrun, hterm, hpaused, hpushed, hstuck⟩ := exists_finished
  have hall := finished_of_stuck pops_pickFirst hrun hstuck (Finset.singleton_nonempty true)
  exact ⟨n, hpushed, (hall.2.1 hterm).2 hpaused⟩

end MailStack.Server
