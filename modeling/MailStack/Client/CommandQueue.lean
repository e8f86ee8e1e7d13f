import MailStack.Client.Selected
import MailStack.Machinery.Run
import MailStack.Machinery.Wakeups

/-!
# Client/CommandQueue — the queue between the bridge and the worker's thread

    any threads ──push, stop──▸ ⟨m_queue, m_stopped⟩ ──pop──▸ MailWorker::run

The threads of the user interface push commands and one of them stops the worker and waits for its
thread to end.  What the worker is, `W`, and what one command makes of it, `next`, are parameters;
`exec_handled` puts the runs of the whole under the runs of `next` alone.
-/

namespace MailStack.Client

/-- `CommandQueue`, the worker whose thread takes from it, and whether that thread has ended.  For
proofs: what was pushed, what has been handled, and what had been pushed when the queue was stopped
first. -/
structure CommandQueue (A W : Type*) where
  queue : List A := []
  stopped : Bool := false
  worker : W
  ended : Bool := false
  pushed : List A := []
  handled : List A := []
  before : Option (List A) := none

/-- Where a thread is.  `idle` is between two calls; from `pop` on it is in `MailWorker::run`. -/
inductive QueuePoint (A : Type*)
  | idle
  | push (command : A)
  | enqueue (command : A)
  | pushed
  | notifyPush
  | stop
  | setStopped
  | stopped
  | notifyStop
  | join
  | pop
  | check
  | wait
  | take
  | taken (command : A)
  | handle (command : A)
  | nullopt
  | leave
  | ended

/-- `CommandQueue::push`, and `MailWorker::stop`. -/
inductive QueueOp (A : Type*)
  | push (command : A)
  | stop

section

variable {A W : Type*}

namespace CommandQueue

/-- The predicate `pop` waits for. -/
def ready (q : CommandQueue A W) : Bool := !q.queue.isEmpty || q.stopped

/-- The critical section of `push`. -/
def enqueue (command : A) (q : CommandQueue A W) : CommandQueue A W :=
  { q with queue := q.queue ++ [command], pushed := q.pushed ++ [command] }

/-- The critical section of `stop`. -/
def setStopped (q : CommandQueue A W) : CommandQueue A W :=
  { q with stopped := true, before := q.before <|> some q.pushed }

/-- What `pop` does after its wait. -/
def take (q : CommandQueue A W) : Option (CommandQueue A W × QueuePoint A) :=
  if q.stopped && q.queue.isEmpty then some (q, .nullopt)
  else
    match q.queue with
    | [] => none
    | command :: queue => some ({ q with queue }, .taken command)

/-- The visitor of `run`, with what `next` does. -/
def handle (next : W → A → Option W) (command : A) (q : CommandQueue A W) :
    Option (CommandQueue A W × QueuePoint A) :=
  (next q.worker command).map fun worker =>
    ({ q with worker, handled := q.handled ++ [command] }, .pop)

end CommandQueue

namespace QueuePoint

/-- The queue's mutex is held at the point. -/
def Locked : QueuePoint A → Prop
  | enqueue _ | pushed | setStopped | stopped | check | wait | take | taken _ | nullopt => True
  | _ => False

/-- The point is one of the worker's thread. -/
def OfWorker : QueuePoint A → Prop
  | pop | check | wait | take | taken _ | handle _ | nullopt | leave | ended => True
  | _ => False

/-- The command a thread has taken and not yet handled. -/
def inHand : QueuePoint A → List A
  | taken command | handle command => [command]
  | _ => []

/-- The notifications still to be sent, and one for a thread that is to look for itself. -/
def credit : QueuePoint A → ℕ∞
  | pushed | notifyPush | check | take => 1
  | stopped | notifyStop => ⊤
  | _ => 0

end QueuePoint

/-- The code of the queue and of `MailWorker::run`. -/
def queueCode (next : W → A → Option W) :
    ThreadCode (CommandQueue A W) Unit (QueuePoint A) (QueueOp A) where
  call
    | .idle, .push command => some (.push command)
    | .idle, .stop => some .stop
    | _, _ => none
  instr
    | .idle => .rest
    | .push command => .lock () (.enqueue command)
    | .enqueue command => .act fun q => some (q.enqueue command, .pushed)
    | .pushed => .unlock () .notifyPush
    | .notifyPush => .notifyOne .idle
    | .stop => .lock () .setStopped
    | .setStopped => .act fun q => some (q.setStopped, .stopped)
    | .stopped => .unlock () .notifyStop
    | .notifyStop => .notifyAll .join
    | .join => .act fun q => if q.ended then some (q, .idle) else none
    | .pop => .lock () .check
    | .check => .act fun q => some (q, if q.ready then .take else .wait)
    | .wait => .wait () .check
    | .take => .act CommandQueue.take
    | .taken command => .unlock () (.handle command)
    | .handle command => .act (CommandQueue.handle next command)
    | .nullopt => .unlock () .leave
    | .leave => .act fun q => some ({ q with ended := true }, .ended)
    | .ended => .rest

/-! ## What one step can be -/

/-- An access of the queue, and where it leads. -/
inductive QueueAccess (next : W → A → Option W) (q : CommandQueue A W) :
    QueuePoint A → CommandQueue A W → QueuePoint A → Prop
  | enqueue (command : A) : QueueAccess next q (.enqueue command) (q.enqueue command) .pushed
  | setStopped : QueueAccess next q .setStopped q.setStopped .stopped
  | join (h : q.ended = true) : QueueAccess next q .join q .idle
  | ready (h : q.ready = true) : QueueAccess next q .check q .take
  | notReady (h : q.ready = false) : QueueAccess next q .check q .wait
  | nullopt (hstopped : q.stopped = true) (hqueue : q.queue = []) :
      QueueAccess next q .take q .nullopt
  | take {command : A} {queue : List A} (hqueue : q.queue = command :: queue) :
      QueueAccess next q .take { q with queue } (.taken command)
  | handle {command : A} {worker : W} (hnext : next q.worker command = some worker) :
      QueueAccess next q (.handle command)
        { q with worker, handled := q.handled ++ [command] } .pop
  | leave : QueueAccess next q .leave { q with ended := true } .ended

variable {next : W → A → Option W} {q q' : CommandQueue A W} {k k' : QueuePoint A}

/-- The accesses of the queue's code are those of `QueueAccess`. -/
theorem queueAccess_of_act {f : CommandQueue A W → Option (CommandQueue A W × QueuePoint A)}
    (hk : (queueCode next).instr k = .act f) (hf : f q = some (q', k')) :
    QueueAccess next q k q' k' := by
  cases k with
  | enqueue command =>
    cases hk
    cases hf
    exact .enqueue command
  | setStopped =>
    cases hk
    cases hf
    exact .setStopped
  | join =>
    cases hk
    dsimp only at hf
    split_ifs at hf with hended
    cases hf
    exact .join hended
  | check =>
    cases hk
    cases hf
    cases hready : q.ready with
    | true => exact .ready hready
    | false => exact .notReady hready
  | take =>
    cases hk
    rw [CommandQueue.take] at hf
    split_ifs at hf with hnull
    · cases hf
      rw [Bool.and_eq_true, List.isEmpty_iff] at hnull
      exact .nullopt hnull.1 hnull.2
    · cases hqueue : q.queue with
      | nil => simp [hqueue] at hf
      | cons command queue =>
        rw [hqueue] at hf
        cases hf
        exact .take hqueue
  | handle command =>
    cases hk
    obtain ⟨worker, hnext, heq⟩ := Option.map_eq_some_iff.mp hf
    cases heq
    exact .handle hnext
  | leave =>
    cases hk
    cases hf
    exact .leave
  | _ => cases hk

/-- What a call begins with. -/
theorem queueCode_call {o : QueueOp A} (hk : (queueCode next).call k o = some k') :
    k = .idle ∧ (k' = .stop ∨ ∃ command, k' = .push command) := by
  cases k with
  | idle =>
    cases o with
    | push command => exact ⟨rfl, .inr ⟨command, (Option.some.inj hk).symm⟩⟩
    | stop => exact ⟨rfl, .inl (Option.some.inj hk).symm⟩
  | _ => cases o <;> cases hk

/-- What each point holds is what the code has locked on the way there. -/
theorem locks_queueCode (next : W → A → Option W) :
    Locks (queueCode next) fun k _ => k.Locked where
  call hk m := by
    obtain ⟨rfl, rfl | ⟨command, rfl⟩⟩ := queueCode_call hk
    all_goals exact Iff.rfl
  act hk hf m := by cases queueAccess_of_act hk hf <;> exact Iff.rfl
  lock {k k' m} hk := by
    cases k <;> cases hk <;> exact ⟨id, fun _ => by simp [QueuePoint.Locked]⟩
  unlock {k k' m} hk := by
    cases k <;> cases hk <;> exact ⟨trivial, fun _ => by simp [QueuePoint.Locked]⟩
  wait {k k' m} hk := by
    cases k <;> cases hk
    exact ⟨trivial, fun _ => Iff.rfl⟩
  notifyOne {k k'} hk m := by
    cases k <;> cases hk
    exact Iff.rfl
  notifyAll {k k'} hk m := by
    cases k <;> cases hk
    exact Iff.rfl

/-! ## What holds at every point -/

/-- What holds of the queue at all times; the worker began as `w`. -/
structure CommandQueue.Inv (next : W → A → Option W) (w : W) (q : CommandQueue A W) : Prop where
  exec : Run.exec next w q.handled = some q.worker
  stopped : q.stopped = true ↔ ∃ l, q.before = some l
  before : ∀ l, q.before = some l → l <+: q.pushed

/-- What a thread knows of the queue where it is. -/
def QueuePoint.Knows : QueuePoint A → CommandQueue A W → Prop
  | take, q => q.ready = true
  | stopped, q | notifyStop, q | join, q => q.stopped = true
  | nullopt, q | leave, q => ∃ l, q.before = some l ∧ l <+: q.handled
  | ended, q => q.ended = true ∧ ∃ l, q.before = some l ∧ l <+: q.handled
  | _, _ => True

/-- What is asserted of thread `i`, where the worker's is `t`. -/
structure QueuePoint.Asserts {ι : Type*} (t i : ι) (k : QueuePoint A) (q : CommandQueue A W) :
    Prop where
  worker : k.OfWorker ↔ i = t
  order : k.OfWorker → q.pushed = q.handled ++ k.inHand ++ q.queue
  knows : k.Knows q

namespace CommandQueue

variable {w : W} {command : A}

/-- A command that is pushed comes last. -/
theorem Inv.enqueue (h : q.Inv next w) : (q.enqueue command).Inv next w where
  exec := h.exec
  stopped := h.stopped
  before l hl := (h.before l hl).trans (List.prefix_append _ _)

/-- Stopping handles nothing. -/
theorem Inv.setStopped (h : q.Inv next w) : q.setStopped.Inv next w where
  exec := h.exec
  stopped := by
    cases hbefore : q.before <;> simp [CommandQueue.setStopped, hbefore]
  before l hl := by
    cases hbefore : q.before with
    | none =>
      simp only [CommandQueue.setStopped, hbefore] at hl ⊢
      cases hl
      exact List.prefix_rfl
    | some l' =>
      simp only [CommandQueue.setStopped, hbefore] at hl ⊢
      cases hl
      exact h.before _ hbefore

/-- A command that is handled is the next of the run. -/
theorem Inv.handle (h : q.Inv next w) {worker : W} (hnext : next q.worker command = some worker) :
    Inv next w { q with worker, handled := q.handled ++ [command] } where
  exec := by
    rw [Run.exec_append, h.exec]
    exact Run.exec_cons_eq_some_iff.mpr ⟨worker, hnext, rfl⟩
  stopped := h.stopped
  before := h.before

end CommandQueue

/-- The accesses of the threads that push and stop. -/
theorem QueueAccess.of_not_worker (h : QueueAccess next q k q' k') (hk : ¬ k.OfWorker) :
    (∃ command, q' = q.enqueue command) ∨ q' = q.setStopped ∨ q' = q := by
  cases h with
  | enqueue command => exact .inl ⟨command, rfl⟩
  | setStopped => exact .inr (.inl rfl)
  | join hended => exact .inr (.inr rfl)
  | _ => exact absurd trivial hk

/-- Nobody takes back that the queue was stopped, or what had been pushed by then. -/
theorem QueueAccess.keeps (h : QueueAccess next q k q' k') :
    (q.stopped = true → q'.stopped = true) ∧ ∀ l, q.before = some l → q'.before = some l := by
  cases h with
  | setStopped =>
    refine ⟨fun _ => rfl, fun l hl => ?_⟩
    simp [CommandQueue.setStopped, hl]
  | _ => exact ⟨id, fun _ => id⟩

/-- The proof outline of the queue's code. -/
theorem outline_queueCode {ι : Type*} (next : W → A → Option W) (w : W) (t : ι) :
    Outline (queueCode next) (fun k _ => k.Locked) (CommandQueue.Inv next w)
      (QueuePoint.Asserts t) where
  call hk _ h := by
    obtain ⟨rfl, rfl | ⟨command, rfl⟩⟩ := queueCode_call hk
    all_goals exact ⟨h.worker, fun hw => hw.elim, trivial⟩
  act {i k k' f q q'} hk hinv h hf := by
    cases queueAccess_of_act hk hf with
    | enqueue command => exact ⟨hinv.enqueue, h.worker, fun hw => hw.elim, trivial⟩
    | setStopped => exact ⟨hinv.setStopped, h.worker, fun hw => hw.elim, rfl⟩
    | join hended => exact ⟨hinv, h.worker, fun hw => hw.elim, trivial⟩
    | ready hready => exact ⟨hinv, h.worker, fun _ => h.order trivial, hready⟩
    | notReady hready => exact ⟨hinv, h.worker, fun _ => h.order trivial, trivial⟩
    | nullopt hstopped hqueue =>
      obtain ⟨l, hl⟩ := hinv.stopped.mp hstopped
      have horder : q.pushed = q.handled := by simpa [hqueue, QueuePoint.inHand] using h.order trivial
      exact ⟨hinv, h.worker, fun _ => h.order trivial, l, hl, horder ▸ hinv.before l hl⟩
    | @take command queue hqueue =>
      refine ⟨⟨hinv.exec, hinv.stopped, hinv.before⟩, h.worker, fun _ => ?_, trivial⟩
      have horder := h.order trivial
      rw [hqueue] at horder
      simpa [QueuePoint.inHand] using horder
    | @handle command worker hnext =>
      refine ⟨hinv.handle hnext, h.worker, fun _ => ?_, trivial⟩
      simpa [QueuePoint.inHand] using h.order trivial
    | leave => exact ⟨⟨hinv.exec, hinv.stopped, hinv.before⟩, h.worker, fun _ => h.order trivial, rfl,
        h.knows⟩
  others {i j k k' l f q q'} hne hk hinv h hf _ hother := by
    have haccess := queueAccess_of_act hk hf
    have hapart : l.OfWorker → ¬ k.OfWorker := fun hl hk =>
      hne ((h.worker.mp hk).trans (hother.worker.mp hl).symm)
    have hidle : ¬ k.OfWorker → q'.handled = q.handled ∧ q'.ended = q.ended := fun hwk => by
      rcases haccess.of_not_worker hwk with ⟨command, rfl⟩ | rfl | rfl <;> exact ⟨rfl, rfl⟩
    refine ⟨hother.worker, fun hw => ?_, ?_⟩
    · rcases haccess.of_not_worker (hapart hw) with ⟨command, rfl⟩ | rfl | rfl
      · simp [CommandQueue.enqueue, hother.order hw]
      · exact hother.order hw
      · exact hother.order hw
    · obtain ⟨hstopped, hbefore⟩ := haccess.keeps
      have hknows := hother.knows
      cases l with
      | stopped | notifyStop | join => exact hstopped hknows
      | take =>
        rcases haccess.of_not_worker (hapart trivial) with ⟨command, rfl⟩ | rfl | rfl
        · simp [QueuePoint.Knows, CommandQueue.ready, CommandQueue.enqueue]
        · simp [QueuePoint.Knows, CommandQueue.ready, CommandQueue.setStopped]
        · exact hknows
      | nullopt | leave =>
        obtain ⟨before, hsome, hprefix⟩ := hknows
        exact ⟨before, hbefore before hsome, (hidle (hapart trivial)).1 ▸ hprefix⟩
      | ended =>
        obtain ⟨hended, before, hsome, hprefix⟩ := hknows
        obtain ⟨hhandled, hsame⟩ := hidle (hapart trivial)
        exact ⟨hsame.trans hended, before, hbefore before hsome, hhandled ▸ hprefix⟩
      | _ => trivial
  step {_ k k' _} hk _ h := by
    cases k <;> cases hk
    all_goals exact ⟨h.worker, h.order, h.knows⟩

/-- What the queue has for the worker; `⊤` once it is stopped. -/
def CommandQueue.need (q : CommandQueue A W) : ℕ∞ := if q.stopped then ⊤ else q.queue.length

/-- A stopped queue has to wake everyone. -/
theorem CommandQueue.need_of_stopped (h : q.stopped = true) : q.need = ⊤ := if_pos h

theorem CommandQueue.need_of_not_stopped (h : q.stopped = false) : q.need = q.queue.length := by
  simp [CommandQueue.need, h]

/-- Nobody is needed while the queue is empty and goes on. -/
theorem CommandQueue.need_eq_zero_iff :
    q.need = 0 ↔ q.stopped = false ∧ q.queue = [] := by
  cases h : q.stopped with
  | true => simp [CommandQueue.need_of_stopped h]
  | false => simp [CommandQueue.need_of_not_stopped h]

/-- The worker has nothing to do where `pop` waits. -/
theorem CommandQueue.need_eq_zero_of_not_ready (h : q.ready = false) : q.need = 0 := by
  refine CommandQueue.need_eq_zero_iff.mpr ?_
  simpa [CommandQueue.ready, and_comm] using h

/-- A command that is pushed adds one to the need. -/
theorem CommandQueue.need_enqueue_le (command : A) : (q.enqueue command).need ≤ q.need + 1 := by
  cases h : q.stopped with
  | true => simp [CommandQueue.need_of_stopped h]
  | false =>
    rw [CommandQueue.need_of_not_stopped h,
      CommandQueue.need_of_not_stopped (q := q.enqueue command) h]
    simp [CommandQueue.enqueue]

/-- The worker is about to sleep though there is something for it. -/
def QueuePoint.Stale (k : QueuePoint A) (q : CommandQueue A W) : Prop :=
  match k with
  | wait => q.need ≠ 0
  | _ => False

/-- Every access that raises the need is followed by its wake-up. -/
theorem wakeups_queueCode {ι : Type*} (next : W → A → Option W) (w : W) (t : ι) :
    Wakeups (queueCode next) (fun k _ => k.Locked) (CommandQueue.Inv next w)
      (QueuePoint.Asserts t) () CommandQueue.need QueuePoint.credit (fun _ => False)
      QueuePoint.Stale where
  top h := h.elim
  mutex {k _} h := by cases k <;> first | exact h.elim | trivial
  call hk := by
    obtain ⟨rfl, rfl | ⟨command, rfl⟩⟩ := queueCode_call hk
    all_goals exact ⟨le_rfl, id, id⟩
  act {i k k' f q q'} hk hinv h hf := by
    have haccess := queueAccess_of_act hk hf
    refine ⟨?_, id, ?_⟩
    · cases haccess with
      | enqueue command =>
        exact .inr (.inr ⟨by simp [QueuePoint.credit],
          (add_zero _).trans_le (CommandQueue.need_enqueue_le command)⟩)
      | setStopped => exact .inr (.inl rfl)
      | join hended => exact .inr (.inr ⟨by simp [QueuePoint.credit], le_rfl⟩)
      | ready hready => exact .inr (.inr ⟨by simp [QueuePoint.credit], le_rfl⟩)
      | notReady hready => exact .inl (CommandQueue.need_eq_zero_of_not_ready hready)
      | nullopt hstopped hqueue =>
        exact .inr (.inr ⟨by simp [QueuePoint.credit],
          by simp [CommandQueue.need_of_stopped hstopped]⟩)
      | @take command queue hqueue =>
        refine .inr (.inr ⟨by simp [QueuePoint.credit], ?_⟩)
        rcases Bool.eq_false_or_eq_true q.stopped with hstopped | hstopped
        · simp [CommandQueue.need_of_stopped hstopped]
        · have hneed : ({ q with queue } : CommandQueue A W).need = queue.length :=
            CommandQueue.need_of_not_stopped hstopped
          rw [hneed, CommandQueue.need_of_not_stopped hstopped, hqueue]
          simp [QueuePoint.credit]
      | handle hnext => exact .inr (.inr ⟨by simp [QueuePoint.credit], le_rfl⟩)
      | leave => exact .inr (.inr ⟨by simp [QueuePoint.credit], le_rfl⟩)
    · cases haccess with
      | notReady hready =>
        exact fun hstale => hstale (CommandQueue.need_eq_zero_of_not_ready hready)
      | _ => exact False.elim
  others {i k k' l f q q'} hk hinv h hf hfree hstale := by
    have hsame : q'.need = q.need := by
      cases queueAccess_of_act hk hf with
      | join | handle | leave => rfl
      | _ => exact absurd trivial hfree
    refine .inl ?_
    cases l with
    | wait => exact fun hzero => hstale (hsame.trans hzero)
    | _ => exact hstale
  lock {k k' m _} hk := by
    cases k <;> cases hk <;> exact ⟨by simp [QueuePoint.credit], id, id⟩
  unlock {k k' m _} hk := by
    cases k <;> cases hk <;> exact ⟨by simp [QueuePoint.credit], id, id⟩
  wait {k k' m q} hk := by
    cases k <;> cases hk
    exact ⟨id, id, le_rfl, id⟩
  notifyOne {k k' _} hk := by
    cases k <;> cases hk
    exact ⟨by simp [QueuePoint.credit], id, id⟩
  notifyAll {k k' _} hk := by
    cases k <;> cases hk
    exact ⟨False.elim, id⟩

/-- The queue has one mutex, and nobody rests with it. -/
theorem oneLock_queueCode {ι : Type*} (next : W → A → Option W) (t : ι) :
    OneLock (queueCode next) (fun k _ => k.Locked) (QueuePoint.Asserts (W := W) t) where
  one _ _ := rfl
  rest {k m} hk := by cases k <;> cases hk <;> exact id
  act {i k f m q} hk hlocked h := by
    cases k with
    | take =>
      cases hk
      have hready : q.ready = true := h.knows
      rw [CommandQueue.take]
      split_ifs with hnull
      · simp
      · cases hqueue : q.queue with
        | nil => simp_all [CommandQueue.ready]
        | cons command queue => simp
    | enqueue | setStopped | check => cases hk; simp
    | join | handle | leave => exact absurd hlocked id
    | _ => cases hk

/-! ## Every run -/

section Run

variable {ι : Type*} [DecidableEq ι] {t : ι} {w : W}

/-- The worker's thread has just started, the others are yet to call. -/
def queueStart (w : W) (t : ι) : Threads (CommandQueue A W) Unit (QueuePoint A) ι :=
  .start { worker := w } fun i => if i = t then .pop else .idle

/-- At the start no mutex is held. -/
theorem owned_queueStart : (queueStart w t).Owned (queueCode next) fun k _ => k.Locked :=
  Threads.owned_start fun i m => by
    split_ifs <;> exact id

/-- At the start nothing is handled. -/
theorem meets_queueStart : (queueStart (A := A) w t).Meets (CommandQueue.Inv next w)
    (QueuePoint.Asserts t) := by
  refine Threads.meets_start ⟨rfl, by simp, by simp⟩ fun i => ?_
  by_cases hi : i = t
  · simp only [hi, if_true]
    exact ⟨iff_of_true trivial rfl, fun _ => rfl, trivial⟩
  · simp only [hi, if_false]
    exact ⟨iff_of_false id hi, fun hw => hw.elim, trivial⟩

variable {n : Threads (CommandQueue A W) Unit (QueuePoint A) ι}

/-- Invariant and assertions hold in every run. -/
theorem queue_meets (hrun : (queueCode next).Run (queueStart w t) n) :
    n.Owned (queueCode next) (fun k _ => k.Locked) ∧
      n.Meets (CommandQueue.Inv next w) (QueuePoint.Asserts t) :=
  (outline_queueCode next w t).meets_of_run (locks_queueCode next) owned_queueStart
    meets_queueStart hrun

/-- **The commands are handled one after the other, in the order they were pushed, none twice and
none left out**, however many threads push them: those handled, the one in hand and those queued are
those pushed, and the worker is where handling them alone would have brought it. -/
theorem handled_in_order (hrun : (queueCode next).Run (queueStart w t) n) :
    n.shared.pushed = n.shared.handled ++ (n.thread t).point.inHand ++ n.shared.queue ∧
      Run.exec next w n.shared.handled = some n.shared.worker := by
  obtain ⟨-, hmeets⟩ := queue_meets hrun
  have hworker := hmeets.thread t
  exact ⟨hworker.order (hworker.worker.mpr rfl), hmeets.state.exec⟩

/-- In every run whoever sleeps is owed a wake-up when there is a command. -/
theorem queue_heard [Fintype ι] (hrun : (queueCode next).Run (queueStart w t) n) :
    n.Heard CommandQueue.need QueuePoint.credit (fun _ => False) QueuePoint.Stale :=
  (wakeups_queueCode next w t).heard_of_run (outline_queueCode next w t) (locks_queueCode next)
    owned_queueStart meets_queueStart (Threads.heard_start fun i => by split_ifs <;> exact id) hrun

/-- Where no thread can go on, each is at one of these points. -/
theorem queue_quiet (hrun : (queueCode next).Run (queueStart w t) n)
    (hstuck : ∀ i, ¬ (n.thread i).CanStep (queueCode next) n)
    (hnext : ∀ command, n.thread t = .awake (.handle command) → next n.shared.worker command ≠ none)
    (i : ι) : n.thread i = .asleep () .check ∨ n.thread i = .awake .idle ∨
      n.thread i = .awake .ended ∨ (n.thread i = .awake .join ∧ n.shared.ended = false) := by
  obtain ⟨hown, hmeets⟩ := queue_meets hrun
  rcases (oneLock_queueCode next t).quiet_of_stuck (locks_queueCode next) hown hmeets hstuck i with
    ⟨_, k, hi⟩ | ⟨k, hi, hrest | ⟨f, hf, hnone, hfree⟩⟩
  · have hawaits := hown.awaits i
    rw [hi] at hawaits
    obtain ⟨k₀, hk₀⟩ := hawaits
    cases k₀ <;> cases hk₀
    exact .inl hi
  · cases k with
    | idle => exact .inr (.inl hi)
    | ended => exact .inr (.inr (.inl hi))
    | _ => cases hrest
  · cases k with
    | join =>
      cases hf
      dsimp only at hnone
      split_ifs at hnone with hended
      exact .inr (.inr (.inr ⟨hi, by simpa using hended⟩))
    | handle command =>
      cases hf
      obtain rfl : i = t := (hmeets.awake hi).worker.mp trivial
      exact absurd (Option.map_eq_none_iff.mp hnone) (hnext command hi)
    | leave => cases hf; cases hnone
    | enqueue | setStopped | check | take => exact absurd trivial (hfree ())
    | _ => cases hf

end Run

end

/-! ## A command of the real worker -/

open Imap

theorem exists_next_connects : ∃ w, newWorker.next plainServices connects = some w :=
  Option.isSome_iff_exists.mp (by decide +kernel)

/-- The worker's thread sleeps, is woken by a command, handles it, and sleeps again. -/
theorem exists_handled :
    ∃ n : Threads (CommandQueue WorkerAct Worker) Unit (QueuePoint WorkerAct) Bool,
    (queueCode (Worker.next plainServices)).Run (queueStart newWorker true) n ∧
      n.thread true = .asleep () .check ∧ n.shared.handled = [connects] ∧
      ∀ i, ¬ (n.thread i).CanStep (queueCode (Worker.next plainServices)) n := by
  obtain ⟨w, hw⟩ := exists_next_connects
  refine ⟨_, .head (.lock (i := true) rfl rfl rfl) <| .head (.act (i := true) rfl rfl rfl)
    <| .head (.wait (i := true) rfl rfl) <| .head (.call (i := false) (o := .push connects) rfl rfl)
    <| .head (.lock (i := false) rfl rfl rfl) <| .head (.act (i := false) rfl rfl rfl)
    <| .head (.unlock (i := false) rfl rfl) <| .head (.notifyOne (i := false) (j := true) rfl rfl rfl)
    <| .head (.retake (i := true) rfl rfl) <| .head (.act (i := true) rfl rfl rfl)
    <| .head (.act (i := true) rfl rfl rfl) <| .head (.unlock (i := true) rfl rfl)
    <| .head (.act (i := true) rfl rfl (Option.map_eq_some_iff.mpr ⟨w, hw, rfl⟩))
    <| .head (.lock (i := true) rfl rfl rfl) <| .head (.act (i := true) rfl rfl rfl)
    <| .head (.wait (i := true) rfl rfl) .refl, rfl, rfl, fun i h => ?_⟩
  cases i <;> exact h

theorem handled_in_order_connects : ∃ w : Worker,
    Run.exec (Worker.next plainServices) newWorker [connects] = some w := by
  obtain ⟨n, hrun, -, hhandled, -⟩ := exists_handled
  exact ⟨n.shared.worker, hhandled ▸ (handled_in_order hrun).2⟩

end MailStack.Client
