import Mathlib.Data.List.Basic
import Mathlib.Tactic.Common

/-!
# Machinery/Transaction — statements on a connection, any of which may fail

A statement that fails changes nothing.  One that succeeds changes the store at once, or, where a
transaction is open, what the transaction has made of the store so far; `COMMIT` puts that in the
store's place and `ROLLBACK` forgets it.  Queries go to the committed store.  A query that fails has
delivered some of its rows by then.

`Within` is reasoning about the code inside a transaction, and `Atomic` about the code around it: it
succeeds, or the store is as it was.
-/

namespace Sql

/-- What a statement fails with, and how many rows a query had delivered by then. -/
structure Fault (ε : Type) where
  error : ε
  rows : ℕ := 0
  deriving DecidableEq, Repr

/-- A connection to a store; `faults` says of each statement to come whether it fails. -/
structure Connection (σ ε : Type) where
  committed : σ
  /-- What an open transaction has made of the store. -/
  working : Option σ := none
  faults : ℕ → Option (Fault ε) := fun _ => none

variable {σ ε δ α β γ : Type}

namespace Connection

/-- The connection behind the next statement. -/
def next (c : Connection σ ε) : Connection σ ε := { c with faults := fun n => c.faults (n + 1) }

/-- The store that a statement finds. -/
def current (c : Connection σ ε) : σ := c.working.getD c.committed

/-- A statement has made `s` of it. -/
def put (c : Connection σ ε) (s : σ) : Connection σ ε :=
  if c.working.isSome then { c with working := some s } else { c with committed := s }

/-- `ROLLBACK`. -/
def rollback (c : Connection σ ε) : Connection σ ε := { c with working := none }

/-- `COMMIT`, where it succeeds. -/
def commit (c : Connection σ ε) : Connection σ ε :=
  { c with committed := c.current, working := none }

end Connection

/-- Code on a connection, which an error may leave early. -/
abbrev SqlM (σ ε δ : Type) := ExceptT δ (StateM (Connection σ ε))

/-- What the code does from a connection on. -/
def exec (h : SqlM σ ε δ α) (c : Connection σ ε) : Except δ α × Connection σ ε := h.run.run c

/-- A statement that changes the store; where it fails, the code is left with `failed`. -/
def statement (failed : ε → δ) (f : σ → Except ε (σ × β)) : SqlM σ ε δ β := ExceptT.mk fun c =>
  match c.faults 0 with
  | some e => (.error (failed e.error), c.next)
  | none =>
    match f c.current with
    | .error e => (.error (failed e), c.next)
    | .ok (s, b) => (.ok b, c.next.put s)

/-- The rows of a query that are delivered. -/
def delivered (rows : List α) : Option (Fault ε) → List α
  | some e => rows.take e.rows
  | none => rows

/-- A query.  No one learns that it failed. -/
def select (f : σ → List α) : SqlM σ ε δ (List α) := ExceptT.mk fun c =>
  (.ok (delivered (f c.committed) (c.faults 0)), c.next)

/-- A query for one row. -/
def lookup (f : σ → Option α) : SqlM σ ε δ (Option α) := do
  return (← select fun s => (f s).toList).head?

/-- `BEGIN`, the code, and `COMMIT`; and `ROLLBACK` when the code is left before that or `COMMIT`
fails. None begins inside another one. -/
def transaction (invalid failed : δ) (body : SqlM σ ε δ α) : SqlM σ ε δ α := ExceptT.mk fun c =>
  match c.faults 0, c.working with
  | none, none =>
    match exec body { c.next with working := some c.committed } with
    | (.error e, c) => (.error e, c.rollback)
    | (.ok a, c) =>
      match c.faults 0 with
      | some _ => (.error failed, c.next.rollback)
      | none => (.ok a, c.next.commit)
  | _, _ => (.error invalid, c.next)

@[simp] theorem exec_pure (a : α) (c : Connection σ ε) :
    exec (pure a : SqlM σ ε δ α) c = (.ok a, c) := rfl

@[simp] theorem exec_throw (e : δ) (c : Connection σ ε) :
    exec (throw e : SqlM σ ε δ α) c = (.error e, c) := rfl

/-- A sequence goes on with what its first part leaves. -/
theorem exec_bind (h : SqlM σ ε δ α) (f : α → SqlM σ ε δ γ) (c : Connection σ ε) :
    exec (h >>= f) c =
      match exec h c with
      | (.error e, c) => (.error e, c)
      | (.ok a, c) => exec (f a) c := by
  rw [exec, exec, ExceptT.run_bind, StateT.run_bind]
  match h.run.run c with
  | (.error e, c) => rfl
  | (.ok a, c) => rfl

/-- After an answer the rest goes on. -/
theorem exec_bind_ok {h : SqlM σ ε δ α} {f : α → SqlM σ ε δ γ} {c c' : Connection σ ε} {a : α}
    (hh : exec h c = (.ok a, c')) : exec (h >>= f) c = exec (f a) c' := by
  rw [exec_bind, hh]

/-- After an error the rest is not run. -/
theorem exec_bind_error {h : SqlM σ ε δ α} {f : α → SqlM σ ε δ γ} {c c' : Connection σ ε} {e : δ}
    (hh : exec h c = (.error e, c')) : exec (h >>= f) c = (.error e, c') := by
  rw [exec_bind, hh]

/-- A statement fails by the fault at hand or does what it does. -/
theorem exec_statement (failed : ε → δ) (f : σ → Except ε (σ × β)) (c : Connection σ ε) :
    exec (statement failed f) c =
      match c.faults 0 with
      | some e => (.error (failed e.error), c.next)
      | none =>
        match f c.current with
        | .error e => (.error (failed e), c.next)
        | .ok (s, b) => (.ok b, c.next.put s) := rfl

/-- A select delivers the rows before its fault. -/
theorem exec_select (f : σ → List α) (c : Connection σ ε) :
    exec (select f : SqlM σ ε δ (List α)) c =
      (.ok (delivered (f c.committed) (c.faults 0)), c.next) := rfl

/-- A transaction opens, runs its body, and commits or rolls back. -/
theorem exec_transaction (invalid failed : δ) (body : SqlM σ ε δ α) (c : Connection σ ε) :
    exec (transaction invalid failed body) c =
      match c.faults 0, c.working with
      | none, none =>
        match exec body { c.next with working := some c.committed } with
        | (.error e, c) => (.error e, c.rollback)
        | (.ok a, c) =>
          match c.faults 0 with
          | some _ => (.error failed, c.next.rollback)
          | none => (.ok a, c.next.commit)
      | _, _ => (.error invalid, c.next) := rfl

/-- The first rows arrive. -/
theorem delivered_first (rows : List α) (e : Option (Fault ε)) : delivered rows e <+: rows := by
  cases e with
  | some e => exact List.take_prefix _ _
  | none => exact List.prefix_rfl

/-- A lookup is the first row of a select. -/
theorem exec_lookup (f : σ → Option α) (c : Connection σ ε) :
    exec (lookup f : SqlM σ ε δ (Option α)) c =
      (.ok (delivered (f c.committed).toList (c.faults 0)).head?, c.next) := rfl

/-- The row is found, or nothing is. -/
theorem head?_delivered (o : Option α) (e : Option (Fault ε)) :
    (delivered o.toList e).head? = none ∨ (delivered o.toList e).head? = o := by
  cases o with
  | none =>
    have h : delivered ([] : List α) e = [] := List.prefix_nil.mp (delivered_first [] e)
    exact .inl (congrArg List.head? h)
  | some a =>
    rcases List.prefix_cons_iff.mp (delivered_first [a] e) with h | ⟨rest, h, -⟩
    · exact .inl (congrArg List.head? h)
    · exact .inr (congrArg List.head? h)

/-- A lookup finds what is there, or, by a fault, nothing. -/
theorem exec_lookup_cases (f : σ → Option α) (c : Connection σ ε) :
    ∃ o, (o = none ∨ o = f c.committed) ∧
      exec (lookup f : SqlM σ ε δ (Option α)) c = (.ok o, c.next) :=
  ⟨_, head?_delivered _ _, exec_lookup f c⟩

/-! ## Without faults -/

section Clean

variable {db s : σ}

/-- A statement that goes through, in a transaction. -/
theorem exec_statement_clean {failed : ε → δ} {f : σ → Except ε (σ × β)} {s' : σ} {b : β}
    (hf : f s = .ok (s', b)) :
    exec (statement failed f : SqlM σ ε δ β) { committed := db, working := some s } =
      (.ok b, { committed := db, working := some s' }) := by
  rw [exec_statement]
  simp only [Connection.current, Option.getD_some, hf]
  rfl

/-- A transaction that goes through. -/
theorem exec_transaction_clean {invalid failed : δ} {body : SqlM σ ε δ α} {a : α}
    (hbody : exec body { committed := db, working := some db } =
      (.ok a, { committed := db, working := some s })) :
    exec (transaction invalid failed body) { committed := db } = (.ok a, { committed := s }) := by
  rw [exec_transaction]
  simp only [Connection.next, hbody]
  rfl

end Clean

@[simp] theorem committed_next (c : Connection σ ε) : c.next.committed = c.committed := rfl

@[simp] theorem working_next (c : Connection σ ε) : c.next.working = c.working := rfl

@[simp] theorem faults_next (c : Connection σ ε) (n : ℕ) : c.next.faults n = c.faults (n + 1) := rfl

@[simp] theorem current_next (c : Connection σ ε) : c.next.current = c.current := rfl

@[simp] theorem faults_put (c : Connection σ ε) (s : σ) : (c.put s).faults = c.faults := by
  unfold Connection.put
  split_ifs <;> rfl

@[simp] theorem current_put (c : Connection σ ε) (s : σ) : (c.put s).current = s := by
  unfold Connection.put Connection.current
  split_ifs with h
  · rfl
  · simp [Option.not_isSome_iff_eq_none.mp h]

/-- Outside a transaction, what a statement makes is there at once. -/
theorem exec_statement_of_ok {failed : ε → δ} {f : σ → Except ε (σ × β)} {c : Connection σ ε}
    {s : σ} {b : β} (hw : c.working = none) (h0 : c.faults 0 = none)
    (hf : f c.committed = .ok (s, b)) :
    exec (statement failed f) c = (.ok b, { c.next with committed := s }) := by
  have hcurrent : c.current = c.committed := by rw [Connection.current, hw]; rfl
  have hput : c.next.put s = { c.next with committed := s } := if_neg (by rw [working_next, hw]; simp)
  rw [exec_statement, h0, hcurrent, hf]
  exact congrArg _ hput

/-! ## Inside a transaction -/

/-- Inside a transaction on the store `db` that has made `s` of it so far, the code leaves the store
alone; where it returns, `post` holds of what the transaction has made by then. -/
def Within (db s : σ) (h : SqlM σ ε δ α) (post : α → σ → Prop) : Prop :=
  ∀ c, c.committed = db → c.working = some s →
    (exec h c).2.committed = db ∧
      ∀ a, (exec h c).1 = .ok a → ∃ s', (exec h c).2.working = some s' ∧ post a s'

namespace Within

variable {db s : σ} {h : SqlM σ ε δ α} {post post' : α → σ → Prop}

/-- A weaker postcondition. -/
theorem mono (hh : Within db s h post) (himp : ∀ a s', post a s' → post' a s') :
    Within db s h post' := by
  intro c hdb hs
  obtain ⟨hdb', hok⟩ := hh c hdb hs
  refine ⟨hdb', fun a ha => ?_⟩
  obtain ⟨s', hs', hpost⟩ := hok a ha
  exact ⟨s', hs', himp a s' hpost⟩

theorem pure {a : α} (hpost : post a s) : Within db s (pure a : SqlM σ ε δ α) post := by
  intro c hdb hs
  refine ⟨hdb, fun b hb => ⟨s, hs, ?_⟩⟩
  obtain rfl : a = b := Except.ok.inj hb
  exact hpost

theorem throw {e : δ} : Within db s (throw e : SqlM σ ε δ α) post :=
  fun _ hdb _ => ⟨hdb, fun _ hb => nomatch hb⟩

/-- The second part is judged after every answer of the first. -/
theorem bind {f : α → SqlM σ ε δ γ} {goal : γ → σ → Prop} (hh : Within db s h post)
    (hf : ∀ a s', post a s' → Within db s' (f a) goal) : Within db s (h >>= f) goal := by
  intro c hdb hs
  obtain ⟨hdb', hok⟩ := hh c hdb hs
  rw [exec_bind]
  match hr : exec h c with
  | (.error e, c') =>
    rw [hr] at hdb'
    exact ⟨hdb', fun _ hb => nomatch hb⟩
  | (.ok a, c') =>
    rw [hr] at hdb' hok
    obtain ⟨s', hs', hpost⟩ := hok a rfl
    exact hf a s' hpost c' hdb' hs'

/-- **A statement** changes what the transaction has made. -/
theorem statement {failed : ε → δ} {f : σ → Except ε (σ × α)} {Q : α → σ → Prop}
    (hpost : ∀ s' a, f s = .ok (s', a) → Q a s') : Within db s (statement failed f) Q := by
  intro c hdb hs
  have hcurrent : c.current = s := by rw [Connection.current, hs]; rfl
  rw [exec_statement, hcurrent]
  cases c.faults 0 with
  | some e => exact ⟨hdb, fun _ hb => nomatch hb⟩
  | none =>
    cases hf : f s with
    | error e => exact ⟨hdb, fun _ hb => nomatch hb⟩
    | ok r =>
      have hput : c.next.put r.1 = { c.next with working := some r.1 } :=
        if_pos (by rw [working_next, hs]; rfl)
      dsimp only
      rw [hput]
      refine ⟨hdb, fun a ha => ⟨r.1, rfl, hpost _ _ ?_⟩⟩
      obtain rfl : r.2 = a := Except.ok.inj ha
      exact hf

/-- A query does not see what the transaction has made. -/
theorem lookup_bind {f : σ → Option γ} {k : Option γ → SqlM σ ε δ α} (hnone : Within db s (k none) post)
    (hsome : ∀ a, f db = some a → Within db s (k (some a)) post) :
    Within db s (lookup f >>= k) post := by
  intro c hdb hs
  obtain ⟨o, ho, hexec⟩ := exec_lookup_cases (δ := δ) f c
  rw [exec_bind, hexec]
  rw [hdb] at ho
  cases o with
  | none => exact hnone c.next hdb hs
  | some a =>
    rcases ho with ho | ho
    · exact nomatch ho
    · exact hsome a ho.symm c.next hdb hs

end Within

/-! ## Around a transaction -/

/-- With no transaction open on the store `db`, the code leaves none open.  It returns and `post` holds
of the store, or the store is as it was. -/
def Atomic (db : σ) (h : SqlM σ ε δ α) (post : α → σ → Prop) : Prop :=
  ∀ c, c.committed = db → c.working = none →
    (exec h c).2.working = none ∧
      match (exec h c).1 with
      | .ok a => post a (exec h c).2.committed
      | .error _ => (exec h c).2.committed = db

/-- Where the code fails, the store is as it was. -/
def NoTrace (db : σ) (h : SqlM σ ε δ α) : Prop :=
  ∀ c, c.committed = db → c.working = none →
    ∀ e, (exec h c).1 = .error e → (exec h c).2.committed = db

/-- Where the code returns, `post` holds of the store. -/
def OnSuccess (db : σ) (h : SqlM σ ε δ α) (post : α → σ → Prop) : Prop :=
  ∀ c, c.committed = db → c.working = none →
    ∀ a, (exec h c).1 = .ok a → post a (exec h c).2.committed

namespace Atomic

variable {db : σ} {h : SqlM σ ε δ α} {post post' : α → σ → Prop}

/-- A weaker postcondition. -/
theorem mono (hh : Atomic db h post) (himp : ∀ a s, post a s → post' a s) :
    Atomic db h post' := by
  intro c hdb hw
  obtain ⟨hw', hend⟩ := hh c hdb hw
  refine ⟨hw', ?_⟩
  cases hr : (exec h c).1 with
  | error e => rwa [hr] at hend
  | ok a =>
    rw [hr] at hend
    exact himp a _ hend

/-- An error leaves the committed database as it is. -/
theorem throw {e : δ} : Atomic db (throw e : SqlM σ ε δ α) post := fun _ hdb hw => ⟨hw, hdb⟩

/-- What a select delivers is a beginning of the rows. -/
theorem select_bind {f : σ → List γ} {k : List γ → SqlM σ ε δ α}
    (hk : ∀ rows, rows <+: f db → Atomic db (k rows) post) : Atomic db (select f >>= k) post := by
  intro c hdb hw
  rw [exec_bind, exec_select]
  exact hk _ (hdb ▸ delivered_first _ _) c.next hdb hw

/-- What a lookup finds is there. -/
theorem lookup_bind {f : σ → Option γ} {k : Option γ → SqlM σ ε δ α} (hnone : Atomic db (k none) post)
    (hsome : ∀ a, f db = some a → Atomic db (k (some a)) post) :
    Atomic db (lookup f >>= k) post := by
  intro c hdb hw
  obtain ⟨o, ho, hexec⟩ := exec_lookup_cases (δ := δ) f c
  rw [exec_bind, hexec]
  rw [hdb] at ho
  cases o with
  | none => exact hnone c.next hdb hw
  | some a =>
    rcases ho with ho | ho
    · exact nomatch ho
    · exact hsome a ho.symm c.next hdb hw

/-- **A transaction is made whole or not at all.** -/
theorem transaction {invalid failed : δ} (hbody : Within db db h post) :
    Atomic db (transaction invalid failed h) post := by
  intro c hdb hw
  rw [exec_transaction, hw]
  cases c.faults 0 with
  | some e => exact ⟨hw, hdb⟩
  | none =>
    obtain ⟨hdb', hok⟩ := hbody { c.next with working := some c.committed } hdb (congrArg _ hdb)
    dsimp only
    match hr : exec h { c.next with working := some c.committed } with
    | (.error e, c') =>
      rw [hr] at hdb'
      exact ⟨rfl, hdb'⟩
    | (.ok a, c') =>
      rw [hr] at hdb' hok
      dsimp only
      cases c'.faults 0 with
      | some e => exact ⟨rfl, hdb'⟩
      | none =>
        obtain ⟨s', hs', hpost⟩ := hok a rfl
        refine ⟨rfl, ?_⟩
        have hcommit : c'.next.commit.committed = s' := by
          rw [Connection.commit, current_next, Connection.current, hs']
          rfl
        dsimp only
        rw [hcommit]
        exact hpost

/-- A failure leaves no trace. -/
theorem noTrace (hh : Atomic db h post) : NoTrace db h := by
  intro c hdb hw e he
  have hend := (hh c hdb hw).2
  rwa [he] at hend

/-- What is atomic is right when it succeeds. -/
theorem onSuccess (hh : Atomic db h post) : OnSuccess db h post := by
  intro c hdb hw a ha
  have hend := (hh c hdb hw).2
  rwa [ha] at hend

end Atomic

end Sql
