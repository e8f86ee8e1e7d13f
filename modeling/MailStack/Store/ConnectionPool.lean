import MailStack.Machinery.Wakeups

/-!
# Store/ConnectionPool — the read connections and the threads that share them

`acquire` waits under the pool's mutex for a slot that is not in use; `release` frees the slot and
notifies one waiter after it has given the mutex back.  A `ReadGuard` acquires in its constructor
and releases in its destructor, and a thread may have several.
-/

namespace MailStack.Store

/-- A connection `C` of the pool, and whether a guard has it. -/
structure Slot (C : Type*) where
  conn : C
  inUse : Bool := false

section Slots

variable {C : Type*}

/-- The pool after its constructor: every connection opened, none in use. -/
def connectionPool (conns : List C) : List (Slot C) := conns.map fun c => { conn := c }

/-- The predicate `acquire` waits for. -/
def anyFree (slots : List (Slot C)) : Bool := slots.any fun s => !s.inUse

/-- The first slot that is not in use is taken. -/
def takeSlot : List (Slot C) → Option (List (Slot C) × C)
  | [] => none
  | s :: slots =>
    if !s.inUse then some ({ s with inUse := true } :: slots, s.conn)
    else (takeSlot slots).map fun r => (s :: r.1, r.2)

/-- The first slot of the connection is free again. -/
def freeSlot [DecidableEq C] (conn : C) : List (Slot C) → List (Slot C)
  | [] => []
  | s :: slots =>
    if s.conn = conn then { s with inUse := false } :: slots else s :: freeSlot conn slots

/-- The connections of the pool. -/
def conns (slots : List (Slot C)) : List C := slots.map (·.conn)

/-- The connections in use. -/
def inUse : List (Slot C) → Multiset C
  | [] => 0
  | s :: slots => if s.inUse then s.conn ::ₘ inUse slots else inUse slots

/-- How many slots are free. -/
def countFree (slots : List (Slot C)) : ℕ := slots.countP fun s => !s.inUse

variable {slots slots' : List (Slot C)} {conn : C}

@[simp] theorem conns_cons (s : Slot C) : conns (s :: slots) = s.conn :: conns slots := rfl

/-- A slot in use lends its connection. -/
theorem inUse_cons_of_used {s : Slot C} (h : s.inUse = true) :
    inUse (s :: slots) = s.conn ::ₘ inUse slots := if_pos h

/-- A free slot lends nothing. -/
theorem inUse_cons_of_free {s : Slot C} (h : s.inUse = false) : inUse (s :: slots) = inUse slots := by
  simp [inUse, h]

theorem countFree_cons_of_used {s : Slot C} (h : s.inUse = true) :
    countFree (s :: slots) = countFree slots := by
  simp [countFree, h]

theorem countFree_cons_of_free {s : Slot C} (h : s.inUse = false) :
    countFree (s :: slots) = countFree slots + 1 := by
  simp [countFree, h]

@[simp] theorem conns_connectionPool (l : List C) : conns (connectionPool l) = l := by
  simp [conns, connectionPool, Function.comp_def]

@[simp] theorem inUse_connectionPool : ∀ l : List C, inUse (connectionPool l) = 0
  | [] => rfl
  | _ :: l => inUse_connectionPool l

/-- What is lent are connections of the pool. -/
theorem inUse_le_conns : ∀ slots : List (Slot C), inUse slots ≤ (conns slots : Multiset C)
  | [] => le_rfl
  | s :: slots => by
      have ih := inUse_le_conns slots
      rw [conns_cons, ← Multiset.cons_coe]
      cases hs : s.inUse with
      | true => exact (inUse_cons_of_used hs).trans_le (Multiset.cons_le_cons _ ih)
      | false => exact (inUse_cons_of_free hs).trans_le (ih.trans (Multiset.le_cons_self _ _))

/-- The count of free slots is zero when none is free. -/
theorem countFree_eq_zero_iff : countFree slots = 0 ↔ anyFree slots = false := by
  simp [countFree, anyFree]

/-- Where no slot is free, every connection is in use. -/
theorem inUse_of_countFree_eq_zero : ∀ {slots : List (Slot C)}, countFree slots = 0 →
    inUse slots = (conns slots : Multiset C)
  | [], _ => rfl
  | s :: slots, h => by
      cases hs : s.inUse with
      | true =>
        rw [countFree_cons_of_used hs] at h
        rw [inUse_cons_of_used hs, inUse_of_countFree_eq_zero h, conns_cons, Multiset.cons_coe]
      | false => simp [countFree_cons_of_free hs] at h

/-- With a free slot `acquire` gets one. -/
theorem takeSlot_isSome (h : anyFree slots = true) : (takeSlot slots).isSome := by
  induction slots with
  | nil => simp [anyFree] at h
  | cons s slots ih =>
    rw [takeSlot]
    split_ifs with hs
    · rfl
    · rw [Option.isSome_map]
      refine ih ?_
      rw [anyFree, List.any_cons] at h
      exact (Bool.or_eq_true_iff.mp h).resolve_left hs

/-- **What is taken was free, and nothing else changes.** -/
theorem takeSlot_eq_some (h : takeSlot slots = some (slots', conn)) :
    conns slots' = conns slots ∧ inUse slots' = conn ::ₘ inUse slots ∧
      countFree slots' + 1 = countFree slots := by
  induction slots generalizing slots' with
  | nil => cases h
  | cons s slots ih =>
    rw [takeSlot] at h
    split_ifs at h with hs
    · cases h
      have hfree : s.inUse = false := by simpa using hs
      exact ⟨rfl, by rw [inUse_cons_of_used rfl, inUse_cons_of_free hfree],
        by rw [countFree_cons_of_used rfl, countFree_cons_of_free hfree]⟩
    · obtain ⟨⟨rest, c⟩, hrest, heq⟩ := Option.map_eq_some_iff.mp h
      cases heq
      have hused : s.inUse = true := by simpa using hs
      obtain ⟨hconns, huse, hcount⟩ := ih hrest
      refine ⟨by rw [conns_cons, conns_cons, hconns], ?_, ?_⟩
      · rw [inUse_cons_of_used hused, inUse_cons_of_used hused, huse, Multiset.cons_swap]
      · rw [countFree_cons_of_used hused, countFree_cons_of_used hused, hcount]

variable [DecidableEq C]

@[simp] theorem conns_freeSlot : ∀ slots : List (Slot C), conns (freeSlot conn slots) = conns slots
  | [] => rfl
  | s :: slots => by
      rw [freeSlot]
      split_ifs
      · rfl
      · rw [conns_cons, conns_cons, conns_freeSlot slots]

/-- A release frees one slot at most. -/
theorem countFree_freeSlot_le : ∀ slots : List (Slot C),
    countFree (freeSlot conn slots) ≤ countFree slots + 1
  | [] => Nat.zero_le _
  | s :: slots => by
      have ih := countFree_freeSlot_le slots
      rw [freeSlot]
      cases hs : s.inUse with
      | true =>
        split_ifs
        · rw [countFree_cons_of_free rfl, countFree_cons_of_used hs]
        · rwa [countFree_cons_of_used hs, countFree_cons_of_used hs]
      | false =>
        split_ifs
        · rw [countFree_cons_of_free rfl, countFree_cons_of_free hs]
          exact Nat.le_succ _
        · rw [countFree_cons_of_free hs, countFree_cons_of_free hs]
          exact Nat.succ_le_succ ih

/-- A connection in use is free again, if it has one slot. -/
theorem inUse_freeSlot (h : conn ∈ inUse slots) (hnodup : (conns slots).Nodup) :
    conn ::ₘ inUse (freeSlot conn slots) = inUse slots := by
  induction slots with
  | nil => simp [inUse] at h
  | cons s slots ih =>
    obtain ⟨hs, hnodup⟩ := List.nodup_cons.mp hnodup
    rw [freeSlot]
    split_ifs with hconn
    · subst hconn
      have hrest : s.conn ∉ inUse slots := fun hmem =>
        hs (Multiset.mem_coe.mp (Multiset.mem_of_le (inUse_le_conns slots) hmem))
      cases huse : s.inUse with
      | true => rw [inUse_cons_of_free rfl, inUse_cons_of_used huse]
      | false =>
        rw [inUse_cons_of_free huse] at h
        exact absurd h hrest
    · cases huse : s.inUse with
      | true =>
        rw [inUse_cons_of_used huse, Multiset.mem_cons] at h
        rw [inUse_cons_of_used huse, inUse_cons_of_used huse, Multiset.cons_swap,
          ih (h.resolve_left (Ne.symm hconn)) hnodup]
      | false =>
        rw [inUse_cons_of_free huse] at h
        rw [inUse_cons_of_free huse, inUse_cons_of_free huse, ih h hnodup]

end Slots

/-! ## The threads -/

section

variable {C : Type*}

/-- Where a thread is in `acquire` and `release`; `held` are the connections its guards have. -/
inductive PoolPoint (C : Type*)
  | idle (held : List C)
  | acquire (held : List C)
  | check (held : List C)
  | wait (held : List C)
  | take (held : List C)
  | taken (held : List C) (conn : C)
  | logicError (held : List C)
  | failed (held : List C)
  | release (held : List C) (conn : C)
  | free (held : List C) (conn : C)
  | freed (held : List C)
  | notify (held : List C)

/-- A `ReadGuard` is made, or that of a connection is destroyed. -/
inductive GuardOp (C : Type*)
  | guard
  | drop (conn : C)

/-- The connections a thread has at a point. -/
def PoolPoint.held : PoolPoint C → Multiset C
  | idle held | acquire held | check held | wait held | take held | logicError held | failed held
  | freed held | notify held => held
  | taken held conn | release held conn | free held conn => conn ::ₘ (held : Multiset C)

/-- The pool's mutex is held at the point. -/
def PoolPoint.Locked : PoolPoint C → Prop
  | check _ | wait _ | take _ | taken .. | logicError _ | free .. | freed _ => True
  | idle _ | acquire _ | failed _ | release .. | notify _ => False

/-- What a thread knows of the slots. -/
def PoolPoint.Knows : PoolPoint C → List (Slot C) → Prop
  | take _, slots => anyFree slots = true
  | logicError _, _ | failed _, _ => False
  | _, _ => True

/-- What a thread does for those that wait: it has a notification to send, or is about to look. -/
def PoolPoint.credit : PoolPoint C → ℕ∞
  | check _ | take _ | freed _ | notify _ => 1
  | _ => 0

variable [DecidableEq C]

/-- The code of `acquire`, of `release` and of the guards. -/
def poolCode : ThreadCode (List (Slot C)) Unit (PoolPoint C) (GuardOp C) where
  call
    | .idle held, .guard => some (.acquire held)
    | .idle held, .drop conn =>
      if conn ∈ held then some (.release (held.erase conn) conn) else none
    | _, _ => none
  instr
    | .idle _ => .rest
    | .acquire held => .lock () (.check held)
    | .check held => .act fun slots =>
      some (slots, if anyFree slots then .take held else .wait held)
    | .wait held => .wait () (.check held)
    | .take held => .act fun slots =>
      match takeSlot slots with
      | some (slots', conn) => some (slots', .taken held conn)
      | none => some (slots, .logicError held)
    | .taken held conn => .unlock () (.idle (conn :: held))
    | .logicError held => .unlock () (.failed held)
    | .failed _ => .rest
    | .release held conn => .lock () (.free held conn)
    | .free held conn => .act fun slots => some (freeSlot conn slots, .freed held)
    | .freed held => .unlock () (.notify held)
    | .notify held => .notifyOne (.idle held)

/-- What a guard begins with. -/
theorem poolCode_call {k k' : PoolPoint C} {o : GuardOp C} (hk : poolCode.call k o = some k') :
    ∃ held, k = .idle held ∧
      (k' = .acquire held ∨ ∃ conn ∈ held, k' = .release (held.erase conn) conn) := by
  cases k with
  | idle held =>
    refine ⟨held, rfl, ?_⟩
    cases o with
    | guard => exact .inl (Option.some.inj hk).symm
    | drop conn =>
      by_cases hconn : conn ∈ held
      · exact .inr ⟨conn, hconn, (Option.some.inj ((if_pos hconn).symm.trans hk)).symm⟩
      · cases (if_neg hconn).symm.trans hk
  | _ => cases o <;> cases hk

/-- What an access of the slots can be: a look at them, a slot taken, or one given back. -/
theorem poolCode_act {k k' : PoolPoint C} {f : List (Slot C) → Option (List (Slot C) × PoolPoint C)}
    {slots slots' : List (Slot C)} (hk : poolCode.instr k = .act f) (hf : f slots = some (slots', k')) :
    (∃ held, k = .check held ∧ slots' = slots ∧
      ((anyFree slots = true ∧ k' = .take held) ∨ (anyFree slots = false ∧ k' = .wait held))) ∨
    (∃ held, k = .take held ∧ ((∃ conn, takeSlot slots = some (slots', conn) ∧ k' = .taken held conn) ∨
      (takeSlot slots = none ∧ slots' = slots ∧ k' = .logicError held))) ∨
    ∃ held conn, k = .free held conn ∧ slots' = freeSlot conn slots ∧ k' = .freed held := by
  cases k with
  | check held =>
    cases hk
    cases hf
    refine .inl ⟨held, rfl, rfl, ?_⟩
    cases hfree : anyFree slots with
    | true => exact .inl ⟨rfl, rfl⟩
    | false => exact .inr ⟨rfl, rfl⟩
  | take held =>
    cases hk
    refine .inr (.inl ⟨held, rfl, ?_⟩)
    cases htake : takeSlot slots with
    | none =>
      simp only [htake] at hf
      cases hf
      exact .inr ⟨rfl, rfl, rfl⟩
    | some r =>
      simp only [htake] at hf
      cases hf
      exact .inl ⟨_, rfl, rfl⟩
  | free held conn =>
    cases hk
    cases hf
    exact .inr (.inr ⟨held, conn, rfl, rfl, rfl⟩)
  | _ => cases hk

/-- What each point holds is what the code has locked on the way there. -/
theorem locks_poolCode : Locks (poolCode (C := C)) fun k _ => k.Locked where
  call hk m := by
    obtain ⟨held, rfl, rfl | ⟨conn, -, rfl⟩⟩ := poolCode_call hk
    all_goals exact Iff.rfl
  act hk hf m := by
    rcases poolCode_act hk hf with ⟨held, rfl, -, ⟨-, rfl⟩ | ⟨-, rfl⟩⟩ |
      ⟨held, rfl, ⟨conn, -, rfl⟩ | ⟨-, -, rfl⟩⟩ | ⟨held, conn, rfl, -, rfl⟩
    all_goals exact Iff.rfl
  lock {k k' m} hk := by
    cases k <;> cases hk <;> exact ⟨id, fun _ => by simp [PoolPoint.Locked]⟩
  unlock {k k' m} hk := by
    cases k <;> cases hk <;> exact ⟨trivial, fun _ => by simp [PoolPoint.Locked]⟩
  wait {k k' m} hk := by
    cases k <;> cases hk
    exact ⟨trivial, fun _ => Iff.rfl⟩
  notifyOne {k k'} hk m := by
    cases k <;> cases hk
    exact Iff.rfl
  notifyAll {k k'} hk m := by cases k <;> cases hk

/-- Every access of the slots is made under the mutex. -/
theorem locked_of_act {k : PoolPoint C} {f : List (Slot C) → Option (List (Slot C) × PoolPoint C)}
    (hk : poolCode.instr k = .act f) : k.Locked := by
  cases k <;> cases hk <;> trivial

omit [DecidableEq C] in
/-- What is known without the mutex is known of any slots. -/
theorem knows_of_not_locked {k : PoolPoint C} (hk : ¬ k.Locked) {slots slots' : List (Slot C)}
    (h : k.Knows slots) : k.Knows slots' := by
  cases k <;> first | exact h | exact absurd trivial hk

variable {l : List C}

/-- The proof outline: the connections stay the same. -/
theorem outline_poolCode {ι : Type*} : Outline (poolCode (C := C)) (fun k _ => k.Locked)
    (fun slots => conns slots = l) (fun (_ : ι) k slots => k.Knows slots) where
  call hk _ _ := by
    obtain ⟨held, rfl, rfl | ⟨conn, -, rfl⟩⟩ := poolCode_call hk
    all_goals trivial
  act hk hinv hknows hf := by
    rcases poolCode_act hk hf with ⟨held, rfl, rfl, ⟨hfree, rfl⟩ | ⟨-, rfl⟩⟩ |
      ⟨held, rfl, ⟨conn, htake, rfl⟩ | ⟨hnone, -, rfl⟩⟩ | ⟨held, conn, rfl, rfl, rfl⟩
    · exact ⟨hinv, hfree⟩
    · exact ⟨hinv, trivial⟩
    · exact ⟨(takeSlot_eq_some htake).1.trans hinv, trivial⟩
    · have hsome := takeSlot_isSome hknows
      rw [hnone] at hsome
      cases hsome
    · exact ⟨(conns_freeSlot _).trans hinv, trivial⟩
  others {_ _ k _ p _ s _} _ hk _ _ _ hapart h := by
    by_cases hl : p.Locked
    · obtain ⟨k₀, m, hk₀⟩ := hapart () (locked_of_act hk) hl
      cases k₀ <;> cases hk₀
      trivial
    · exact knows_of_not_locked hl h
  step {_ k k' _} hk _ h := by
    cases k <;> cases hk <;> exact h

variable (hl : l.Nodup)

include hl in
/-- The connections in use are those that the threads hold. -/
theorem balance_poolCode {ι : Type*} : Balance (poolCode (C := C)) (fun slots => conns slots = l)
    (fun (_ : ι) k slots => k.Knows slots) inUse (fun _ => 0) PoolPoint.held where
  call hk := by
    obtain ⟨held, rfl, rfl | ⟨conn, hconn, rfl⟩⟩ := poolCode_call hk
    · rfl
    · exact (congrArg _ (Multiset.coe_erase held conn).symm).trans
        (Multiset.cons_erase (Multiset.mem_coe.mpr hconn))
  act {i k k' f s s'} hk hinv hknows hle hf := by
    rw [zero_add] at hle ⊢
    rw [zero_add]
    rcases poolCode_act hk hf with ⟨held, rfl, rfl, ⟨-, rfl⟩ | ⟨-, rfl⟩⟩ |
      ⟨held, rfl, ⟨conn, htake, rfl⟩ | ⟨hnone, rfl, rfl⟩⟩ | ⟨held, conn, rfl, rfl, rfl⟩
    · rfl
    · rfl
    · rw [(takeSlot_eq_some htake).2.1]
      exact (Multiset.cons_add ..).trans (Multiset.add_cons ..).symm
    · rfl
    · have hmem : conn ∈ inUse s := Multiset.mem_of_le hle (Multiset.mem_cons_self conn held)
      calc inUse (freeSlot conn s) + conn ::ₘ (held : Multiset C)
          = conn ::ₘ inUse (freeSlot conn s) + ↑held := by
            rw [Multiset.add_cons, Multiset.cons_add]
        _ = inUse s + ↑held := by rw [inUse_freeSlot hmem (by rw [hinv]; exact hl)]
  step {k k'} hk := by cases k <;> cases hk <;> rfl

/-- A thread is about to sleep though a slot is free. -/
def PoolPoint.Stale (k : PoolPoint C) (slots : List (Slot C)) : Prop :=
  match k with
  | wait _ => countFree slots ≠ 0
  | _ => False

/-- Every release is followed by its wake-up. -/
theorem wakeups_poolCode {ι : Type*} : Wakeups (poolCode (C := C)) (fun k _ => k.Locked)
    (fun slots => conns slots = l) (fun (_ : ι) k slots => k.Knows slots) ()
    (fun slots => (countFree slots : ℕ∞)) PoolPoint.credit (fun _ => False) PoolPoint.Stale where
  top h := h.elim
  mutex {k _} h := by cases k <;> first | exact h.elim | trivial
  call hk := by
    obtain ⟨held, rfl, rfl | ⟨conn, -, rfl⟩⟩ := poolCode_call hk
    all_goals exact ⟨le_rfl, id, id⟩
  act hk hinv hknows hf := by
    refine ⟨?_, id, ?_⟩
    · rcases poolCode_act hk hf with ⟨held, rfl, rfl, ⟨-, rfl⟩ | ⟨hnone, rfl⟩⟩ |
        ⟨held, rfl, ⟨conn, htake, rfl⟩ | ⟨hnone, rfl, rfl⟩⟩ | ⟨held, conn, rfl, rfl, rfl⟩
      · exact .inr (.inr ⟨by simp [PoolPoint.credit], le_rfl⟩)
      · exact .inl (by simpa using countFree_eq_zero_iff.mpr hnone)
      · refine .inr (.inr ⟨by simp [PoolPoint.credit], ?_⟩)
        have hcount := (takeSlot_eq_some htake).2.2
        simpa [PoolPoint.credit] using congrArg (Nat.cast (R := ℕ∞)) hcount |>.le
      · have hsome := takeSlot_isSome hknows
        rw [hnone] at hsome
        cases hsome
      · refine .inr (.inr ⟨by simp [PoolPoint.credit], ?_⟩)
        simpa [PoolPoint.credit] using Nat.cast_le (α := ℕ∞) |>.mpr (countFree_freeSlot_le _)
    · rcases poolCode_act hk hf with ⟨held, rfl, rfl, ⟨-, rfl⟩ | ⟨hnone, rfl⟩⟩ |
        ⟨held, rfl, ⟨conn, htake, rfl⟩ | ⟨hnone, rfl, rfl⟩⟩ | ⟨held, conn, rfl, rfl, rfl⟩
      · exact id
      · exact fun hstale => hstale (countFree_eq_zero_iff.mpr hnone)
      · exact id
      · exact id
      · exact id
  others hk _ _ _ hfree := absurd (locked_of_act hk) hfree
  lock {k k' m _} hk := by
    cases k <;> cases hk <;> exact ⟨by simp [PoolPoint.credit], id, id⟩
  unlock {k k' m _} hk := by
    cases k <;> cases hk <;> exact ⟨by simp [PoolPoint.credit], id, id⟩
  wait {k k' m slots} hk := by
    cases k <;> cases hk
    exact ⟨fun hneed hzero => hneed (by simp [hzero]), id, le_rfl, id⟩
  notifyOne {k k' _} hk := by
    cases k <;> cases hk
    exact ⟨by simp [PoolPoint.credit], id, id⟩
  notifyAll {k k' _} hk := by cases k <;> cases hk

/-- The pool has one mutex, and nobody rests with it. -/
theorem oneLock_poolCode {ι : Type*} : OneLock (poolCode (C := C)) (fun k _ => k.Locked)
    (fun (_ : ι) k slots => k.Knows slots) where
  one _ _ := rfl
  rest {k m} hk := by cases k <;> cases hk <;> exact id
  act {_ k f m s} hk _ _ := by
    cases k with
    | take held =>
      cases hk
      cases htake : takeSlot s <;> simp [htake]
    | check held | free held conn => cases hk; simp
    | _ => cases hk

/-! ## Every run -/

/-- A pool just made, and threads without a guard. -/
def poolStart {ι : Type*} (l : List C) : Threads (List (Slot C)) Unit (PoolPoint C) ι :=
  .start (connectionPool l) fun _ => .idle []

section Run

variable {ι : Type*} [DecidableEq ι] {n : Threads (List (Slot C)) Unit (PoolPoint C) ι}

omit [DecidableEq ι] in
theorem owned_poolStart : (poolStart l : Threads _ _ _ ι).Owned poolCode fun k _ => k.Locked :=
  Threads.owned_start fun _ _ => id

omit [DecidableEq C] [DecidableEq ι] in
theorem meets_poolStart : (poolStart l : Threads _ _ _ ι).Meets (fun slots => conns slots = l)
    fun _ k slots => k.Knows slots :=
  Threads.meets_start (conns_connectionPool l) fun _ => trivial

theorem pool_meets (hrun : poolCode.Run (poolStart l) n) :
    n.Owned poolCode (fun k _ => k.Locked) ∧
      n.Meets (fun slots => conns slots = l) fun _ k slots => k.Knows slots :=
  outline_poolCode.meets_of_run locks_poolCode owned_poolStart meets_poolStart hrun

variable [Fintype ι]

include hl in
/-- In every run the connections in use are those that the threads hold. -/
theorem pool_balance (hrun : poolCode.Run (poolStart l) n) :
    inUse n.shared = n.belongings PoolPoint.held := by
  have hstart : (poolStart l : Threads _ _ _ ι).Balanced inUse (fun _ => 0) PoolPoint.held :=
    (inUse_connectionPool l).trans ((zero_add _).trans (Finset.sum_eq_zero fun _ _ => rfl)).symm
  have hend := (balance_poolCode hl).of_run outline_poolCode locks_poolCode owned_poolStart
    meets_poolStart hstart hrun
  rwa [Threads.Balanced, zero_add] at hend

/-- In every run whoever sleeps is owed a wake-up when a connection is free. -/
theorem pool_heard (hrun : poolCode.Run (poolStart l) n) :
    n.Heard (fun slots => (countFree slots : ℕ∞)) PoolPoint.credit (fun _ => False)
      PoolPoint.Stale :=
  wakeups_poolCode.heard_of_run outline_poolCode locks_poolCode owned_poolStart meets_poolStart
    (Threads.heard_start fun _ => id) hrun

include hl in
/-- **No connection is with two guards**, whatever the threads do: the slots in use are the
connections the guards have, each once, and `acquire` never comes to its `logic error`. -/
theorem guards_exclusive (hrun : poolCode.Run (poolStart l) n) :
    inUse n.shared = n.belongings PoolPoint.held ∧ n.belongings PoolPoint.held ≤ l ∧
      (∀ i, (n.thread i).point.held.Nodup) ∧
      (∀ i j, i ≠ j → Disjoint (n.thread i).point.held (n.thread j).point.held) ∧
      ∀ i held, n.thread i ≠ .awake (.logicError held) ∧ n.thread i ≠ .awake (.failed held) := by
  have hbalance := pool_balance hl hrun
  have hmeets := (pool_meets hrun).2
  have hle : n.belongings PoolPoint.held ≤ l := by
    rw [← hbalance]
    exact (inUse_le_conns n.shared).trans_eq (congrArg _ hmeets.state)
  have hnodup : (n.belongings PoolPoint.held).Nodup :=
    Multiset.nodup_of_le hle (Multiset.coe_nodup.mpr hl)
  refine ⟨hbalance, hle, fun i => Multiset.nodup_of_le (n.le_belongings _ i) hnodup,
    fun i j hij => ?_, fun i held => ⟨fun hi => hmeets.awake hi, fun hi => hmeets.awake hi⟩⟩
  exact (Multiset.nodup_add.mp (Multiset.nodup_of_le (n.add_le_belongings _ hij) hnodup)).2.2

/-- One thread has the only connection, the other sleeps. -/
theorem exists_waiting : ∃ n : Threads (List (Slot ℕ)) Unit (PoolPoint ℕ) Bool,
    poolCode.Run (poolStart [7]) n ∧ n.thread true = .awake (.idle [7]) ∧
      n.thread false = .asleep () (.check []) ∧ ∀ i, ¬ (n.thread i).CanStep poolCode n := by
  refine ⟨_, .head (.call (i := true) (o := .guard) rfl rfl) <| .head (.lock (i := true) rfl rfl rfl)
    <| .head (.act (i := true) rfl rfl rfl) <| .head (.act (i := true) rfl rfl rfl)
    <| .head (.unlock (i := true) rfl rfl) <| .head (.call (i := false) (o := .guard) rfl rfl)
    <| .head (.lock (i := false) rfl rfl rfl) <| .head (.act (i := false) rfl rfl rfl)
    <| .head (.wait (i := false) rfl rfl) .refl, rfl, rfl, fun i h => ?_⟩
  cases i <;> exact h

theorem guards_exclusive_waiting : ∃ n : Threads (List (Slot ℕ)) Unit (PoolPoint ℕ) Bool,
    n.thread true = .awake (.idle [7]) ∧ inUse n.shared = n.belongings PoolPoint.held := by
  obtain ⟨n, hrun, htrue, -, -⟩ := exists_waiting
  exact ⟨n, htrue, (guards_exclusive (by decide) hrun).1⟩

include hl in
/-- **No `release` is lost on who waits**: while a thread sleeps in `acquire`, every free slot has a
thread that is about to notify or to look; and where no thread can go on, all connections are with
guards of threads that are between two operations or asleep themselves. -/
theorem sleeper_awaits_guards (hrun : poolCode.Run (poolStart l) n) {i : ι} {k : PoolPoint C}
    (hi : n.thread i = .asleep () k) :
    (countFree n.shared : ℕ∞) ≤ n.total (Thread.credit PoolPoint.credit) ∧
      ((∀ j, ¬ (n.thread j).CanStep poolCode n) →
        (∀ j, (∃ k, n.thread j = .asleep () k) ∨ ∃ held, n.thread j = .awake (.idle held)) ∧
          ∀ conn ∈ l, ∃ j, conn ∈ (n.thread j).point.held) := by
  have hheard := pool_heard hrun
  obtain ⟨hown, hmeets⟩ := pool_meets hrun
  refine ⟨hheard.covered i () k hi, fun hstuck => ?_⟩
  have hquiet : ∀ j, (∃ k, n.thread j = .asleep () k) ∨
      ∃ held, n.thread j = .awake (.idle held) := by
    intro j
    rcases oneLock_poolCode.quiet_of_stuck locks_poolCode hown hmeets hstuck j with
      ⟨_, k, hj⟩ | ⟨k, hj, hrest | ⟨f, hf, -, hfree⟩⟩
    · exact .inl ⟨k, hj⟩
    · cases k with
      | idle held => exact .inr ⟨held, hj⟩
      | failed held => exact (hmeets.awake hj).elim
      | _ => cases hrest
    · exact absurd (locked_of_act hf) (hfree ())
  refine ⟨hquiet, fun conn hconn => ?_⟩
  have hzero := hheard.need_eq_zero hi fun j => by
    rcases hquiet j with ⟨k, hj⟩ | ⟨held, hj⟩ <;> rw [hj] <;> rfl
  have hall := inUse_of_countFree_eq_zero (Nat.cast_eq_zero.mp hzero)
  rw [pool_balance hl hrun, hmeets.state] at hall
  have hmem : conn ∈ n.belongings PoolPoint.held := by rwa [hall]
  obtain ⟨j, -, hj⟩ := Multiset.mem_sum.mp hmem
  exact ⟨j, hj⟩

theorem sleeper_awaits_guards_waiting : ∃ n : Threads (List (Slot ℕ)) Unit (PoolPoint ℕ) Bool,
    n.thread false = .asleep () (.check []) ∧ ∃ j, 7 ∈ (n.thread j).point.held := by
  obtain ⟨n, hrun, -, hfalse, hstuck⟩ := exists_waiting
  exact ⟨n, hfalse, ((sleeper_awaits_guards (by decide) hrun hfalse).2 hstuck).2 7 (by decide)⟩

end Run

end

end MailStack.Store
