import Mathlib.Algebra.Ring.Defs
import Mathlib.Algebra.Order.BigOperators.Group.Finset
import Mathlib.Algebra.Order.Monoid.WithTop
import Mathlib.Data.ENat.Basic
import MailStack.Machinery.Threads

/-!
# Machinery/Wakeups — no wake-up is lost

A thread sleeps until the shared state has something for it; `need` says how many threads that
could be, `⊤` where it is for all.  Every thread that is awake has some `credit`: the notifications
it is still to send, and one more where it is on its way to look for itself.  The rule
(`Wakeups.need_le_of_run`): while any thread sleeps, the credits cover the need.

The state may change without the mutex the sleepers use, and then a thread that has just looked goes
to sleep on what is no longer so.  Who makes such a change is `late`: the notification has to be sent
under that mutex, when nobody is about to fall asleep.
-/

variable {σ μ κ ω ι : Type*}

/-- What a thread still does for those who sleep. -/
def Thread.credit (credit : κ → ℕ∞) : Thread μ κ → ℕ∞
  | awake k | woken _ k => credit k
  | asleep _ _ => 0

/-- Who changes `need` owes the notifications, and pays them with its `credit`.  `stale k s` says
that a thread at `k` goes to sleep on something it has seen and that is no longer so. -/
structure Wakeups (P : ThreadCode σ μ κ ω) (holds : κ → μ → Prop) (inv : σ → Prop)
    (assert : ι → κ → σ → Prop) (m₀ : μ) (need : σ → ℕ∞) (credit : κ → ℕ∞) (late : κ → Prop)
    (stale : κ → σ → Prop) : Prop where
  top : ∀ {k : κ}, late k → credit k = ⊤
  mutex : ∀ {k : κ} {s : σ}, stale k s → holds k m₀
  call : ∀ {k k' : κ} {o : ω} {s : σ}, P.call k o = some k' →
    credit k ≤ credit k' ∧ (late k → late k') ∧ (stale k' s → stale k s)
  act : ∀ {i : ι} {k k' : κ} {f : σ → Option (σ × κ)} {s s' : σ}, P.instr k = .act f → inv s →
    assert i k s → f s = some (s', k') →
    (need s' = 0 ∨ credit k' = ⊤ ∨ (credit k ≠ ⊤ ∧ need s' + credit k ≤ need s + credit k')) ∧
      (late k → late k') ∧ (stale k' s' → stale k s)
  others : ∀ {i : ι} {k k' l : κ} {f : σ → Option (σ × κ)} {s s' : σ}, P.instr k = .act f →
    inv s → assert i k s → f s = some (s', k') → ¬ holds k m₀ → stale l s' → stale l s ∨ late k'
  lock : ∀ {k k' : κ} {m : μ} {s : σ}, P.instr k = .lock m k' →
    credit k ≤ credit k' ∧ (late k → late k') ∧ (stale k' s → stale k s)
  unlock : ∀ {k k' : κ} {m : μ} {s : σ}, P.instr k = .unlock m k' →
    credit k ≤ credit k' ∧ (late k → late k') ∧ (stale k' s → stale k s)
  wait : ∀ {k k' : κ} {m : μ} {s : σ}, P.instr k = .wait m k' →
    (need s ≠ 0 → stale k s) ∧ ¬ late k ∧ 1 ≤ credit k' ∧ ¬ stale k' s
  notifyOne : ∀ {k k' : κ} {s : σ}, P.instr k = .notifyOne k' →
    credit k ≤ credit k' + 1 ∧ (late k → late k') ∧ (stale k' s → stale k s)
  notifyAll : ∀ {k k' : κ} {s : σ}, P.instr k = .notifyAll k' →
    (late k → holds k m₀) ∧ ¬ stale k' s

section

variable {P : ThreadCode σ μ κ ω} {holds : κ → μ → Prop} {inv : σ → Prop}
  {assert : ι → κ → σ → Prop} {m₀ : μ} {need : σ → ℕ∞} {credit : κ → ℕ∞} {late : κ → Prop}
  {stale : κ → σ → Prop} {n n' : Threads σ μ κ ι} [DecidableEq ι] [DecidableEq μ]

/-! ## Who falls asleep has missed nothing -/

/-- Where a thread goes to sleep on what is no longer so, a notification of all is still to come. -/
def Threads.Missed (n : Threads σ μ κ ι) (late : κ → Prop) (stale : κ → σ → Prop) : Prop :=
  ∀ i k, n.thread i = .awake k → stale k n.shared → ∃ j l, n.thread j = .awake l ∧ late l

omit [DecidableEq μ] in
theorem Threads.Missed.move (h : n.Missed late stale) {i : ι} {t : Thread μ κ}
    (hlate : ∀ l, n.thread i = .awake l → late l → ∃ l', t = .awake l' ∧ late l')
    (hstale : ∀ l, t = .awake l → stale l n.shared →
      ∃ l', n.thread i = .awake l' ∧ stale l' n.shared) : (n.move i t).Missed late stale := by
  have hkeep : (∃ j l, n.thread j = .awake l ∧ late l) →
      ∃ j l, (n.move i t).thread j = .awake l ∧ late l := by
    rintro ⟨j, l, hj, hl⟩
    by_cases hji : j = i
    · subst hji
      obtain ⟨l', rfl, hl'⟩ := hlate l hj hl
      exact ⟨j, l', move_thread_self, hl'⟩
    · exact ⟨j, l, by rwa [move_thread_of_ne hji], hl⟩
  intro j l hj hl
  by_cases hji : j = i
  · subst hji
    rw [move_thread_self] at hj
    obtain ⟨l', hl', hstale'⟩ := hstale l hj hl
    exact hkeep (h j l' hl' hstale')
  · rw [move_thread_of_ne hji] at hj
    exact hkeep (h j l hj hl)

omit [DecidableEq μ] in
/-- A thread that is awake goes on as late as it was, and has missed no more. -/
theorem Threads.Missed.pass (h : n.Missed late stale) {i : ι} {k k' : κ}
    (hi : n.thread i = .awake k) (hlate : late k → late k')
    (hstale : stale k' n.shared → stale k n.shared) :
    (n.move i (.awake k')).Missed late stale := by
  refine h.move (fun l hl hl' => ⟨k', rfl, ?_⟩) fun l hl hl' => ⟨k, hi, ?_⟩
  · obtain rfl : k = l := Thread.awake.inj (hi.symm.trans hl)
    exact hlate hl'
  · obtain rfl := Thread.awake.inj hl
    exact hstale hl'

/-- A late notification is sent under the mutex. -/
theorem Wakeups.missed_next (hP : Wakeups P holds inv assert m₀ need credit late stale)
    (ho : n.Owned P holds) (hm : n.Meets inv assert) (h : n.Missed late stale)
    (hs : P.Step n n') : n'.Missed late stale := by
  cases hs with
  | call hi hk => exact h.pass hi (hP.call (s := n.shared) hk).2.1 (hP.call hk).2.2
  | @act i k k' f s hi hk hf =>
    obtain ⟨-, hlate, hown⟩ := hP.act hk hm.state (hm.awake hi) hf
    have hkeep : (∃ j l, n.thread j = .awake l ∧ late l) →
        ∃ j l, (n.move i (.awake k')).thread j = .awake l ∧ late l := by
      rintro ⟨j, l, hj, hl⟩
      by_cases hji : j = i
      · subst hji
        obtain rfl := Thread.awake.inj (hi.symm.trans hj)
        exact ⟨j, k', Threads.move_thread_self, hlate hl⟩
      · exact ⟨j, l, by rwa [Threads.move_thread_of_ne hji], hl⟩
    intro j l hj hl
    by_cases hji : j = i
    · subst hji
      obtain rfl := Thread.awake.inj (Threads.move_thread_self.symm.trans hj)
      exact hkeep (h j k hi (hown hl))
    · have hjl : n.thread j = .awake l := (Threads.move_thread_of_ne hji).symm.trans hj
      have hfree : ¬ holds k m₀ := fun hk₀ =>
        hji (ho.unique (by rw [hjl]; exact hP.mutex hl) (by rw [hi]; exact hk₀))
      rcases hP.others hk hm.state (hm.awake hi) hf hfree hl with hstale | hlate'
      · exact hkeep (h j l hjl hstale)
      · exact ⟨i, k', Threads.move_thread_self, hlate'⟩
  | lock hi hk hm => exact h.pass hi (hP.lock (s := n.shared) hk).2.1 (hP.lock hk).2.2
  | unlock hi hk => exact h.pass hi (hP.unlock (s := n.shared) hk).2.1 (hP.unlock hk).2.2
  | @wait i k k' m hi hk =>
    refine h.move (t := .asleep m k') (fun l hl hl' => ?_) fun l hl => by cases hl
    obtain rfl := Thread.awake.inj (hi.symm.trans hl)
    exact absurd hl' (hP.wait (s := n.shared) hk).2.1
  | @wake i k m hi =>
    refine h.move (fun l hl _ => ?_) fun l hl => by cases hl
    rw [hi] at hl
    cases hl
  | @retake i k m hi hm =>
    have hawaits := ho.awaits i
    rw [hi] at hawaits
    obtain ⟨k₀, hk₀⟩ := hawaits
    refine h.move (t := .awake k) (fun l hl _ => ?_) fun l hl hl' => ?_
    · rw [hi] at hl
      cases hl
    · obtain rfl := Thread.awake.inj hl
      exact absurd hl' (hP.wait hk₀).2.2.2
  | @notifyOne i j k k' l m hi hk hj =>
    refine (h.pass hi (hP.notifyOne (s := n.shared) hk).2.1 (hP.notifyOne hk).2.2).move
      (fun l' hl' _ => ?_) fun l' hl' => by cases hl'
    rw [Threads.move_thread_of_ne (by rintro rfl; simp [hi] at hj), hj] at hl'
    cases hl'
  | notifyNone hi hk hno =>
    exact h.pass hi (hP.notifyOne (s := n.shared) hk).2.1 (hP.notifyOne hk).2.2
  | @notifyAll i k k' hi hk =>
    obtain ⟨hlate, hnot⟩ := hP.notifyAll (s := n.shared) hk
    intro j l hj hl
    have hjl : (n.move i (.awake k')).thread j = .awake l := Thread.notified_eq_awake.mp hj
    have hji : j ≠ i := by
      rintro rfl
      obtain rfl := Thread.awake.inj (Threads.move_thread_self.symm.trans hjl)
      exact hnot hl
    rw [Threads.move_thread_of_ne hji] at hjl
    obtain ⟨j', l', hj', hl'⟩ := h j l hjl hl
    have hj'i : j' ≠ i := by
      rintro rfl
      obtain rfl := Thread.awake.inj (hi.symm.trans hj')
      exact hji (ho.unique (by rw [hjl]; exact hP.mutex hl) (by rw [hi]; exact hlate hl'))
    exact ⟨j', l', Thread.notified_eq_awake.mpr (by rwa [Threads.move_thread_of_ne hj'i]), hl'⟩

/-! ## The credits cover the need -/

variable [Fintype ι]

/-- While a thread sleeps, the credits cover the need. -/
def Threads.Covered (n : Threads σ μ κ ι) (need : σ → ℕ∞) (credit : κ → ℕ∞) : Prop :=
  ∀ i m k, n.thread i = .asleep m k → need n.shared ≤ n.total (Thread.credit credit)

omit [DecidableEq ι] [DecidableEq μ] in
theorem Threads.credit_le_total (n : Threads σ μ κ ι) (credit : κ → ℕ∞) (i : ι) :
    (n.thread i).credit credit ≤ n.total (Thread.credit credit) :=
  Finset.single_le_sum (f := fun i => (n.thread i).credit credit) (fun _ _ => zero_le)
    (Finset.mem_univ i)

omit [DecidableEq ι] [DecidableEq μ] in
theorem Threads.total_eq_top {i : ι} {k : κ} (hi : n.thread i = .awake k) (hk : credit k = ⊤) :
    n.total (Thread.credit credit) = ⊤ := by
  refine top_le_iff.mp (le_trans ?_ (n.credit_le_total credit i))
  rw [hi, Thread.credit, hk]

omit [DecidableEq ι] [DecidableEq μ] in
theorem Threads.total_credit_mono
    (h : ∀ j, (n.thread j).credit credit ≤ (n'.thread j).credit credit) :
    n.total (Thread.credit credit) ≤ n'.total (Thread.credit credit) :=
  Finset.sum_le_sum fun j _ => h j

omit [DecidableEq μ] in
theorem Threads.total_credit_move {i : ι} {t : Thread μ κ}
    (ht : (n.thread i).credit credit ≤ t.credit credit) :
    n.total (Thread.credit credit) ≤ (n.move i t).total (Thread.credit credit) := by
  refine total_credit_mono fun j => ?_
  by_cases hj : j = i
  · subst hj
    rwa [move_thread_self]
  · rw [move_thread_of_ne hj]

omit [DecidableEq μ] in
/-- A thread that does not fall asleep moves on with no less credit. -/
theorem Threads.Covered.move (h : n.Covered need credit) {i : ι} {t : Thread μ κ}
    (hsleep : ∀ m k, t ≠ .asleep m k) (ht : (n.thread i).credit credit ≤ t.credit credit) :
    (n.move i t).Covered need credit := by
  intro j m k hj
  have hne : j ≠ i := by
    rintro rfl
    rw [move_thread_self] at hj
    exact hsleep m k hj
  rw [move_thread_of_ne hne] at hj
  exact (h j m k hj).trans (total_credit_move ht)

omit [DecidableEq μ] in
theorem Threads.Covered.pass (h : n.Covered need credit) {i : ι} {k k' : κ}
    (hi : n.thread i = .awake k) (hk : credit k ≤ credit k') :
    (n.move i (.awake k')).Covered need credit :=
  h.move (by simp) (by rwa [hi])

/-- What is spent on a notification comes back with the thread that it wakes. -/
theorem Wakeups.covered_next (hP : Wakeups P holds inv assert m₀ need credit late stale)
    (ho : n.Owned P holds) (hm : n.Meets inv assert)
    (hmissed : n.Missed late stale) (h : n.Covered need credit) (hs : P.Step n n') :
    n'.Covered need credit := by
  cases hs with
  | call hi hk => exact h.pass hi (hP.call (s := n.shared) hk).1
  | @act i k k' f s hi hk hf =>
    intro j m l hj
    have hne : j ≠ i := by
      rintro rfl
      simp at hj
    simp only [Threads.move_thread_of_ne hne] at hj
    have htotal := n.total_move (Thread.credit credit) i (.awake k')
    rw [hi] at htotal
    change need s ≤ (n.move i (.awake k')).total (Thread.credit credit)
    rcases (hP.act hk hm.state (hm.awake hi) hf).1 with hzero | htop | ⟨hfin, hle⟩
    · rw [hzero]
      exact zero_le
    · rw [Threads.total_eq_top Threads.move_thread_self htop]
      exact le_top
    · refine (ENat.add_le_add_iff_right hfin).mp ?_
      calc need s + credit k ≤ need n.shared + credit k' := hle
        _ ≤ n.total (Thread.credit credit) + credit k' := by gcongr; exact h j m l hj
        _ = _ := htotal.symm
  | lock hi hk hm => exact h.pass hi (hP.lock (s := n.shared) hk).1
  | unlock hi hk => exact h.pass hi (hP.unlock (s := n.shared) hk).1
  | @wait i k k' m hi hk =>
    obtain ⟨hstale, hlate, -⟩ := hP.wait (s := n.shared) hk
    by_cases hzero : need n.shared = 0
    · exact fun j m l hj => hzero.le.trans zero_le
    · obtain ⟨j, l, hj, hl⟩ := hmissed i k hi (hstale hzero)
      intro j' m' l' hj'
      have hne : j ≠ i := by
        rintro rfl
        obtain rfl := Thread.awake.inj (hi.symm.trans hj)
        exact hlate hl
      rw [Threads.total_eq_top (i := j) (k := l) (by simpa [Threads.move_thread_of_ne hne] using hj)
        (hP.top hl)]
      exact le_top
  | @wake i k m hi => exact h.move (by simp) (by rw [hi]; exact zero_le)
  | @retake i k m hi hm =>
    exact h.move (t := .awake k) (by simp) (by rw [hi]; exact le_rfl)
  | @notifyOne i j k k' l m hi hk hj =>
    have hne : j ≠ i := by
      rintro rfl
      simp [hi] at hj
    have hone : 1 ≤ credit l := by
      have hawaits := ho.awaits j
      rw [hj] at hawaits
      obtain ⟨k₀, hk₀⟩ := hawaits
      exact (hP.wait (s := n.shared) hk₀).2.2.1
    have hfirst := n.total_move (Thread.credit credit) i (.awake k')
    have hsecond := (n.move i (.awake k')).total_move (Thread.credit credit) j (.woken m l)
    rw [hi] at hfirst
    rw [Threads.move_thread_of_ne hne, hj, Thread.credit, Thread.credit, add_zero] at hsecond
    intro j' m' l' _
    have hcover : need n.shared ≤ n.total (Thread.credit credit) := h j m l hj
    refine hcover.trans ?_
    change _ ≤ ((n.move i (.awake k')).move j (.woken m l)).total (Thread.credit credit)
    rw [hsecond]
    by_cases htop : credit k' = ⊤
    · rw [Threads.total_eq_top Threads.move_thread_self htop]
      exact le_top.trans le_self_add
    · refine (ENat.add_le_add_iff_right htop).mp ?_
      calc n.total (Thread.credit credit) + credit k'
          = (n.move i (.awake k')).total (Thread.credit credit) + credit k := hfirst.symm
        _ ≤ (n.move i (.awake k')).total (Thread.credit credit) + (credit k' + credit l) := by
          gcongr
          exact (hP.notifyOne (s := n.shared) hk).1.trans (by gcongr)
        _ = _ := by ac_rfl
  | @notifyNone i k k' hi hk hno =>
    intro j m l hj
    have hne : j ≠ i := by
      rintro rfl
      simp at hj
    rw [Threads.move_thread_of_ne hne] at hj
    exact absurd hj (hno j m l)
  | @notifyAll i k k' hi hk => exact fun j m l hj => absurd hj (Thread.notified_ne_asleep _ m l)

/-- Nothing anyone sleeps for goes unnoticed. -/
structure Threads.Heard (n : Threads σ μ κ ι) (need : σ → ℕ∞) (credit : κ → ℕ∞)
    (late : κ → Prop) (stale : κ → σ → Prop) : Prop where
  missed : n.Missed late stale
  covered : n.Covered need credit

omit [DecidableEq ι] [DecidableEq μ] in
theorem Threads.heard_start {s : σ} {at₀ : ι → κ} (h : ∀ i, ¬ stale (at₀ i) s) :
    (start s at₀ : Threads σ μ κ ι).Heard need credit late stale where
  missed i k hi hk := by
    obtain rfl := Thread.awake.inj hi
    exact absurd hk (h i)
  covered i m k hi := by cases hi

/-- **No wake-up is lost**: in every run, while a thread sleeps the credits of the others cover the
need. -/
theorem Wakeups.heard_of_run (hP : Wakeups P holds inv assert m₀ need credit late stale)
    (hout : Outline P holds inv assert) (hl : Locks P holds) (ho : n.Owned P holds)
    (hm : n.Meets inv assert) (h : n.Heard need credit late stale) (hrun : P.Run n n') :
    n'.Heard need credit late stale := by
  refine (hrun.invariant (I := fun n => (n.Owned P holds ∧ n.Meets inv assert) ∧
    n.Heard need credit late stale) (fun n n' h hs => ?_) ⟨⟨ho, hm⟩, h⟩).2
  obtain ⟨⟨ho, hm⟩, h⟩ := h
  exact ⟨⟨hl.step ho hs, hout.next ho hm hs⟩, hP.missed_next ho hm h.missed hs,
    hP.covered_next ho hm h.missed h.covered hs⟩

omit [DecidableEq ι] [DecidableEq μ] in
/-- Where no thread is left with any credit, who sleeps has nothing to be woken for. -/
theorem Threads.Heard.need_eq_zero (h : n.Heard need credit late stale) {i : ι} {m : μ} {k : κ}
    (hi : n.thread i = .asleep m k) (hzero : ∀ j, (n.thread j).credit credit = 0) :
    need n.shared = 0 := by
  refine le_zero_iff.mp ((h.covered i m k hi).trans_eq ?_)
  exact Finset.sum_eq_zero fun j _ => hzero j

end

/-! ## Where nobody can go on -/

section Stuck

variable {P : ThreadCode σ μ κ ω} {holds : κ → μ → Prop} {inv : σ → Prop}
  {assert : ι → κ → σ → Prop} {n : Threads σ μ κ ι}

/-- The instruction can be carried out: it is none to rest, no access that blocks, and the mutex it
takes is free. -/
def Instr.Enabled (s : σ) (owner : μ → Option ι) : Instr σ μ κ → Prop
  | rest => False
  | act f => f s ≠ none
  | lock m _ => owner m = none
  | unlock .. | wait .. | notifyOne _ | notifyAll _ => True

/-- The thread can take its next step. -/
def Thread.CanStep (P : ThreadCode σ μ κ ω) (n : Threads σ μ κ ι) : Thread μ κ → Prop
  | asleep _ _ => False
  | woken m _ => n.owner m = none
  | awake k => (P.instr k).Enabled n.shared n.owner

/-- A thread never has two mutexes, and has none where it rests or blocks. -/
structure OneLock (P : ThreadCode σ μ κ ω) (holds : κ → μ → Prop) (assert : ι → κ → σ → Prop) :
    Prop where
  one : ∀ {k : κ} {m m' : μ}, holds k m → holds k m' → m = m'
  rest : ∀ {k : κ} {m : μ}, P.instr k = .rest → ¬ holds k m
  act : ∀ {i : ι} {k : κ} {f : σ → Option (σ × κ)} {m : μ} {s : σ}, P.instr k = .act f →
    holds k m → assert i k s → f s ≠ none

variable (hP : OneLock P holds assert) (hl : Locks P holds) (ho : n.Owned P holds)
  (hm : n.Meets inv assert) (hstuck : ∀ i, ¬ (n.thread i).CanStep P n)

include hP hl ho hm hstuck

theorem OneLock.free_of_stuck (m : μ) : n.owner m = none := by
  by_contra hfree
  obtain ⟨i, hi⟩ := Option.ne_none_iff_exists'.mp hfree
  have hholds := (ho.owner i m).mp hi
  have hstep := hstuck i
  have hawaits := ho.awaits i
  cases ht : n.thread i with
  | asleep m' k | woken m' k =>
    rw [ht] at hholds hawaits
    exact hholds.1 (hP.one hholds.2 (hl.holds_of_awaits hawaits))
  | awake k =>
    rw [ht] at hholds hstep
    rw [Thread.CanStep] at hstep
    cases hk : P.instr k with
    | rest => exact hP.rest hk hholds
    | act f =>
      rw [hk] at hstep
      exact hstep (hP.act hk hholds (hm.awake ht))
    | lock m' k' =>
      obtain ⟨hnot, hnext⟩ := hl.lock hk
      have hsame := hP.one ((hnext m).mpr (.inr hholds)) ((hnext m').mpr (.inl rfl))
      subst hsame
      exact hnot hholds
    | unlock | wait | notifyOne | notifyAll =>
      rw [hk] at hstep
      exact hstep trivial

/-- **Where nobody can go on, everyone sleeps, rests, or blocks without a mutex.** -/
theorem OneLock.quiet_of_stuck (i : ι) : (∃ m k, n.thread i = .asleep m k) ∨
    ∃ k, n.thread i = .awake k ∧
      (P.instr k = .rest ∨ ∃ f, P.instr k = .act f ∧ f n.shared = none ∧ ∀ m, ¬ holds k m) := by
  have hfree := hP.free_of_stuck hl ho hm hstuck
  have hstep := hstuck i
  cases ht : n.thread i with
  | asleep m k => exact .inl ⟨m, k, rfl⟩
  | woken m k =>
    rw [ht] at hstep
    exact absurd (hfree m) hstep
  | awake k =>
    rw [ht, Thread.CanStep] at hstep
    refine .inr ⟨k, rfl, ?_⟩
    cases hk : P.instr k with
    | rest => exact .inl rfl
    | act f =>
      rw [hk] at hstep
      have hnone := not_not.mp hstep
      exact .inr ⟨f, rfl, hnone, fun m hk' => hP.act (m := m) hk hk' (hm.awake ht) hnone⟩
    | lock m k' =>
      rw [hk] at hstep
      exact absurd (hfree m) hstep
    | unlock | wait | notifyOne | notifyAll =>
      rw [hk] at hstep
      exact absurd trivial hstep

end Stuck
