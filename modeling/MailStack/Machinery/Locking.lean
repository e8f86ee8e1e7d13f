import Mathlib.Logic.Function.Basic
import MailStack.Machinery.Prog

/-!
# Machinery/Locking — programs that take a write lock and open transactions

Where `Prog` has one locked write, a `LockProg` has its parts: it takes the lock, begins a
transaction, executes statements, commits or rolls back, and releases the lock, one step at a time
and among the steps of others.  Reads go through another connection: they see the committed store,
whoever holds the lock.

`LockProg.Ok` describes a program by what it holds: without the lock the committed store may be any
that satisfies the invariant; with it, nothing moves but by the program's own hand.
`LockDiscipline.Holds.exec` is the rule for a whole run.
-/

/-- A program over a store `σ` with statements `ω`, answered by `Except ε β`; a commit is logged
under a name in `ν`. -/
inductive LockProg (σ ω ε β ν : Type*) (α : Type*)
  | ret (a : α)
  | read (k : σ → LockProg σ ω ε β ν α)
  | lock (p : LockProg σ ω ε β ν α)
  | «begin» (k : Bool → LockProg σ ω ε β ν α)
  | exec (w : ω) (k : Except ε β → LockProg σ ω ε β ν α)
  | commit (e : ν) (k : Bool → LockProg σ ω ε β ν α)
  | rollback (p : LockProg σ ω ε β ν α)
  | unlock (p : LockProg σ ω ε β ν α)

namespace LockProg

universe v

variable {σ ω ε β ν : Type*} {α γ : Type v}

/-- Sequencing. -/
def bind (f : α → LockProg σ ω ε β ν γ) : LockProg σ ω ε β ν α → LockProg σ ω ε β ν γ
  | ret a => f a
  | read k => read fun s => bind f (k s)
  | lock p => lock (bind f p)
  | «begin» k => «begin» fun b => bind f (k b)
  | exec w k => exec w fun r => bind f (k r)
  | commit e k => commit e fun b => bind f (k b)
  | rollback p => rollback (bind f p)
  | unlock p => unlock (bind f p)

instance : Monad (LockProg σ ω ε β ν) where
  pure := ret
  bind p f := p.bind f

/-- One query of the committed store. -/
def query (f : σ → α) : LockProg σ ω ε β ν α := read fun s => ret (f s)

/-- The lock is taken; others wait. -/
def acquire : LockProg σ ω ε β ν Unit := lock (ret ())

/-- The lock is given back. -/
def release : LockProg σ ω ε β ν Unit := unlock (ret ())

/-- A transaction begins; `false` where it could not. -/
def beginTx : LockProg σ ω ε β ν Bool := «begin» ret

/-- One statement, part of the open transaction or committed at once. -/
def statement (w : ω) : LockProg σ ω ε β ν (Except ε β) := exec w ret

/-- The transaction is committed; `false` where it was not. -/
def commitTx (e : ν) : LockProg σ ω ε β ν Bool := commit e ret

/-- The transaction is given up. -/
def rollbackTx : LockProg σ ω ε β ν Unit := rollback (ret ())

section

variable (f : α → LockProg σ ω ε β ν γ)

@[simp] theorem pure_eq (a : α) : (pure a : LockProg σ ω ε β ν α) = ret a := rfl

@[simp] theorem ret_bind (a : α) : (ret a : LockProg σ ω ε β ν α) >>= f = f a := rfl

@[simp] theorem query_bind (g : σ → α) : query g >>= f = read fun s => f (g s) := rfl

end

section

variable {γ : Type} (w : ω) (e : ν)

@[simp] theorem acquire_bind (f : Unit → LockProg σ ω ε β ν γ) : acquire >>= f = lock (f ()) := rfl

@[simp] theorem release_bind (f : Unit → LockProg σ ω ε β ν γ) : release >>= f = unlock (f ()) :=
  rfl

@[simp] theorem beginTx_bind (f : Bool → LockProg σ ω ε β ν γ) : beginTx >>= f = «begin» f := rfl

@[simp] theorem commitTx_bind (f : Bool → LockProg σ ω ε β ν γ) :
    commitTx e >>= f = commit e f := rfl

@[simp] theorem rollbackTx_bind (f : Unit → LockProg σ ω ε β ν γ) :
    rollbackTx >>= f = rollback (f ()) := rfl

end

@[simp] theorem statement_bind {σ ω ν : Type*} {ε β γ : Type} (w : ω)
    (f : Except ε β → LockProg σ ω ε β ν γ) : statement w >>= f = exec w f := rfl

/-! ## Programs of one locked write at a time -/

/-- Each write of the program under a lock of its own. -/
def ofProg : Prog σ ω ε β α → LockProg σ ω ε β ν α
  | .ret a => ret a
  | .read k => read fun s => ofProg (k s)
  | .write w k => lock (exec w fun r => unlock (ofProg (k r)))

/-- The program without its locks and transactions. -/
def forget : LockProg σ ω ε β ν α → Prog σ ω ε β α
  | ret a => .ret a
  | read k => .read fun s => forget (k s)
  | lock p => forget p
  | «begin» k => forget (k true)
  | exec w k => .write w fun r => forget (k r)
  | commit _ k => forget (k true)
  | rollback p => forget p
  | unlock p => forget p

/-- A program without the lock is what it was. -/
theorem forget_ofProg : ∀ p : Prog σ ω ε β α, (ofProg p : LockProg σ ω ε β ν α).forget = p
  | .ret _ => rfl
  | .read k => congrArg Prog.read (funext fun s => forget_ofProg (k s))
  | .write w k => congrArg (Prog.write w) (funext fun r => forget_ofProg (k r))

/-- Forgetting the lock goes through a sequence. -/
theorem forget_bind (f : α → LockProg σ ω ε β ν γ) :
    ∀ p : LockProg σ ω ε β ν α, (p >>= f).forget = p.forget >>= fun a => (f a).forget
  | ret _ => rfl
  | read k => congrArg Prog.read (funext fun s => forget_bind f (k s))
  | lock p => forget_bind f p
  | «begin» k => forget_bind f (k true)
  | exec w k => congrArg (Prog.write w) (funext fun r => forget_bind f (k r))
  | commit _ k => forget_bind f (k true)
  | rollback p => forget_bind f p
  | unlock p => forget_bind f p

end LockProg

/-! ## Any number of clients -/

/-- The programs of a system: `prog l c` is what a client with local state `l` runs for the command
`c`; it returns the new local state. -/
structure LockSystem (σ ω ε β ν τ κ : Type*) where
  store : SharedStore σ ω ε β
  prog : τ → κ → LockProg σ ω ε β ν τ

/-- A client waits for a command, or has come to `p` in the command `c` it began in state `l`. -/
inductive LockClient (σ ω ε β ν τ κ : Type*)
  | idle (l : τ)
  | busy (l : τ) (c : κ) (p : LockProg σ ω ε β ν τ)

/-- The committed store, what the writing connection sees while a transaction is open, who holds
the lock, and the clients.  `log` is for proofs: what was committed, and by whom. -/
structure LockNet (σ ω ε β ν τ κ ι : Type*) where
  db : σ
  tx : Option σ := none
  owner : Option ι := none
  log : List (ι × ν) := []
  client : ι → LockClient σ ω ε β ν τ κ

/-- A step of a run: a client begins a command, takes its next step, or has the statement it comes
to fail. -/
inductive LockAct (ι κ ε : Type*)
  | start (i : ι) (c : κ)
  | step (i : ι)
  | fail (i : ι) (e : ε)

namespace LockNet

variable {σ ω ε β ν τ κ ι : Type*}

/-- Every client waits in state `l`. -/
def start (db : σ) (l : τ) : LockNet σ ω ε β ν τ κ ι := { db, client := fun _ => .idle l }

/-- What the writing connection sees. -/
def seen (n : LockNet σ ω ε β ν τ κ ι) : σ := n.tx.getD n.db

/-- What a statement wrote: it waits for the commit if a transaction is open. -/
def wrote (n : LockNet σ ω ε β ν τ κ ι) (s : σ) : LockNet σ ω ε β ν τ κ ι :=
  match n.tx with
  | none => { n with db := s }
  | some _ => { n with tx := some s }

/-- A write outside a transaction is committed at once. -/
theorem wrote_of_none {n : LockNet σ ω ε β ν τ κ ι} {s : σ} (h : n.tx = none) :
    n.wrote s = { n with db := s } := by
  rw [wrote, h]

/-- A write inside one is not. -/
theorem wrote_of_some {n : LockNet σ ω ε β ν τ κ ι} {s t : σ} (h : n.tx = some t) :
    n.wrote s = { n with tx := some s } := by
  rw [wrote, h]

variable [DecidableEq ι]

/-- Client `i` moves. -/
def move (n : LockNet σ ω ε β ν τ κ ι) (i : ι) (x : LockClient σ ω ε β ν τ κ) :
    LockNet σ ω ε β ν τ κ ι :=
  { n with client := Function.update n.client i x }

/-- The stores client `i` works with under the lock. -/
def hold (n : LockNet σ ω ε β ν τ κ ι) (i : ι) : Option (σ × Option σ) :=
  if n.owner = some i then some (n.db, n.tx) else none

/-- What client `i` has committed. -/
def committed (n : LockNet σ ω ε β ν τ κ ι) (i : ι) : List ν :=
  (n.log.filter (·.1 = i)).map (·.2)

variable {n : LockNet σ ω ε β ν τ κ ι} {i j : ι}

/-- The owner of the lock sees the database and its transaction. -/
theorem hold_of_owner (h : n.owner = some i) : n.hold i = some (n.db, n.tx) := if_pos h

/-- Nobody else sees either. -/
theorem hold_of_ne (h : n.owner ≠ some i) : n.hold i = none := if_neg h

@[simp] theorem hold_move (x : LockClient σ ω ε β ν τ κ) : (n.move i x).hold j = n.hold j := rfl

@[simp] theorem committed_move (x : LockClient σ ω ε β ν τ κ) :
    (n.move i x).committed j = n.committed j := rfl

/-- Whoever sees them is the owner. -/
theorem owner_of_hold {s : σ} {t : Option σ} (h : n.hold i = some (s, t)) :
    n.owner = some i ∧ n.db = s ∧ n.tx = t := by
  rw [hold] at h
  split_ifs at h with ho
  obtain ⟨hs, ht⟩ := Prod.mk.inj (Option.some.inj h)
  exact ⟨ho, hs, ht⟩

/-- What a client adds to the log comes last in its own. -/
theorem committed_append {log : List (ι × ν)} {es : List ν}
    (h : n.log = log ++ es.map (Prod.mk i)) :
    n.committed i = (log.filter (·.1 = i)).map (·.2) ++ es := by
  have hfilter : (es.map (Prod.mk i)).filter (·.1 = i) = es.map (Prod.mk i) :=
    List.filter_eq_self.mpr fun e he => by
      obtain ⟨a, -, rfl⟩ := List.mem_map.mp he
      exact decide_eq_true rfl
  rw [committed, h, List.filter_append, List.map_append, hfilter, List.map_map]
  exact congrArg _ (List.map_id' es)

/-- And leaves the log of the others as it was. -/
theorem committed_append_of_ne {log : List (ι × ν)} {es : List ν} (hj : j ≠ i)
    (h : n.log = log ++ es.map (Prod.mk i)) :
    n.committed j = (log.filter (·.1 = j)).map (·.2) := by
  have hfilter : (es.map (Prod.mk i)).filter (·.1 = j) = [] :=
    List.filter_eq_nil_iff.mpr fun e he => by
      obtain ⟨a, -, rfl⟩ := List.mem_map.mp he
      simpa using hj.symm
  rw [committed, h, List.filter_append, hfilter, List.append_nil]

end LockNet

namespace LockSystem

variable {σ ω ε β ν τ κ ι : Type*} [DecidableEq ι]

/-- The next step of client `i`, which has come to `p` and goes on as `go`. -/
def advance (Y : LockSystem σ ω ε β ν τ κ) (n : LockNet σ ω ε β ν τ κ ι) (i : ι)
    (go : LockProg σ ω ε β ν τ → LockClient σ ω ε β ν τ κ) :
    LockProg σ ω ε β ν τ → Option (LockNet σ ω ε β ν τ κ ι)
  | .ret l => some (n.move i (.idle l))
  | .read k => some (n.move i (go (k n.db)))
  | .lock p => if n.owner = none then some { n.move i (go p) with owner := some i } else none
  | .begin k =>
    match n.tx with
    | none => some { n.move i (go (k true)) with tx := some n.db }
    | some _ => some (n.move i (go (k false)))
  | .exec w k =>
    match Y.store.apply w n.seen with
    | .ok (s, b) => some ((n.wrote s).move i (go (k (.ok b))))
    | .error e => some (n.move i (go (k (.error e))))
  | .commit e k =>
    match n.tx with
    | some t =>
      some { n.move i (go (k true)) with db := t, tx := none, log := n.log ++ [(i, e)] }
    | none => some (n.move i (go (k false)))
  | .rollback p => some { n.move i (go p) with tx := none }
  | .unlock p => some { n.move i (go p) with owner := none }

/-- The statement client `i` has come to fails. -/
def refuse (n : LockNet σ ω ε β ν τ κ ι) (i : ι) (e : ε)
    (go : LockProg σ ω ε β ν τ → LockClient σ ω ε β ν τ κ) :
    LockProg σ ω ε β ν τ → Option (LockNet σ ω ε β ν τ κ ι)
  | .begin k => some (n.move i (go (k false)))
  | .exec _ k => some (n.move i (go (k (.error e))))
  | .commit _ k => some (n.move i (go (k false)))
  | _ => none

/-- One step of the system; `none` where it is not enabled. -/
def next (Y : LockSystem σ ω ε β ν τ κ) (n : LockNet σ ω ε β ν τ κ ι) :
    LockAct ι κ ε → Option (LockNet σ ω ε β ν τ κ ι)
  | .start i c =>
    match n.client i with
    | .idle l => some (n.move i (.busy l c (Y.prog l c)))
    | .busy .. => none
  | .step i =>
    match n.client i with
    | .idle _ => none
    | .busy l c p => Y.advance n i (.busy l c) p
  | .fail i e =>
    match n.client i with
    | .idle _ => none
    | .busy l c p => refuse n i e (.busy l c) p

end LockSystem

/-! ## What holds among others -/

/-- A discipline for the clients of a system.  `inv` holds of every committed store; `calls` and
`allow` are assumed of the commands and of the statements when they are executed; `faulty` says
whether one may fail without a reason in the store.  `writes` and `commits` say what becomes of the
committed store, by a statement outside of a transaction and by a commit.  `loc l es` is what the
local state `l` tells of the client's commits `es`. -/
structure LockDiscipline (σ ω ν τ κ : Type*) where
  inv : σ → Prop
  calls : κ → Prop
  allow : κ → σ → ω → Prop
  faulty : Prop
  writes : σ → σ → Prop
  commits : ν → σ → σ → Prop
  loc : τ → List ν → Prop

namespace LockDiscipline

universe v

variable {σ ω ε β ν τ κ ι : Type*} {α γ : Type v} {D : LockDiscipline σ ω ν τ κ}
  {S : SharedStore σ ω ε β} {c : κ}

/-- The program keeps the discipline.  `none` stands for a program without the lock, `some (s, t)`
for one that holds it while `s` is committed and `t` is the open transaction; `es` is what the
client has committed. -/
def Ok (D : LockDiscipline σ ω ν τ κ) (S : SharedStore σ ω ε β) (c : κ)
    (post : α → Option (σ × Option σ) → List ν → Prop) :
    LockProg σ ω ε β ν α → Option (σ × Option σ) → List ν → Prop
  | .ret a, h, es => post a h es
  | .read k, none, es => ∀ s, D.inv s → Ok D S c post (k s) none es
  | .read k, some (s, t), es => Ok D S c post (k s) (some (s, t)) es
  | .lock p, none, es => ∀ s, D.inv s → Ok D S c post p (some (s, none)) es
  | .begin k, some (s, none), es =>
    Ok D S c post (k true) (some (s, some s)) es ∧
      (D.faulty → Ok D S c post (k false) (some (s, none)) es)
  | .exec w k, some (s, none), es =>
    (∀ e, D.faulty ∨ (D.allow c s w ∧ S.apply w s = .error e) →
      Ok D S c post (k (.error e)) (some (s, none)) es) ∧
    ∀ s' b, D.allow c s w → S.apply w s = .ok (s', b) →
      D.inv s' ∧ D.writes s s' ∧ Ok D S c post (k (.ok b)) (some (s', none)) es
  | .exec w k, some (s, some t), es =>
    (∀ e, D.faulty ∨ (D.allow c t w ∧ S.apply w t = .error e) →
      Ok D S c post (k (.error e)) (some (s, some t)) es) ∧
    ∀ t' b, D.allow c t w → S.apply w t = .ok (t', b) →
      Ok D S c post (k (.ok b)) (some (s, some t')) es
  | .commit e k, some (s, some t), es =>
    D.inv t ∧ D.commits e s t ∧ Ok D S c post (k true) (some (t, none)) (es ++ [e]) ∧
      (D.faulty → Ok D S c post (k false) (some (s, some t)) es)
  | .rollback p, some (s, some _), es => Ok D S c post p (some (s, none)) es
  | .unlock p, some (_, none), es => Ok D S c post p none es
  | _, _, _ => False

/-- **The rule of sequencing.** -/
theorem Ok.bind {post : α → Option (σ × Option σ) → List ν → Prop}
    {post' : γ → Option (σ × Option σ) → List ν → Prop} {f : α → LockProg σ ω ε β ν γ}
    (hf : ∀ a h es, post a h es → D.Ok S c post' (f a) h es) {p : LockProg σ ω ε β ν α}
    {h : Option (σ × Option σ)} {es : List ν} (hp : D.Ok S c post p h es) :
    D.Ok S c post' (p >>= f) h es := by
  induction p generalizing h es with
  | ret a => exact hf a h es hp
  | read k ih =>
    match h, hp with
    | none, hp => exact fun s hs => ih s (hp s hs)
    | some (s, _), hp => exact ih s hp
  | lock p ih =>
    match h, hp with
    | none, hp => exact fun s hs => ih (hp s hs)
  | «begin» k ih =>
    match h, hp with
    | some (_, none), hp => exact ⟨ih true hp.1, fun hfault => ih false (hp.2 hfault)⟩
  | exec w k ih =>
    match h, hp with
    | some (_, none), hp =>
      refine ⟨fun e he => ih _ (hp.1 e he), fun s' b ha hw => ?_⟩
      obtain ⟨hi, hd, hk⟩ := hp.2 s' b ha hw
      exact ⟨hi, hd, ih _ hk⟩
    | some (_, some _), hp =>
      exact ⟨fun e he => ih _ (hp.1 e he), fun t' b ha hw => ih _ (hp.2 t' b ha hw)⟩
  | commit e k ih =>
    match h, hp with
    | some (_, some _), hp =>
      exact ⟨hp.1, hp.2.1, ih true hp.2.2.1, fun hfault => ih false (hp.2.2.2 hfault)⟩
  | rollback p ih =>
    match h, hp with
    | some (_, some _), hp => exact ih (h := some (_, none)) hp
  | unlock p ih =>
    match h, hp with
    | some (_, none), hp => exact ih (h := none) hp

/-- **The rule of a program of one locked write at a time.** -/
theorem Ok.ofProg {P : ω → Prop} {post : α → Option (σ × Option σ) → List ν → Prop} {es : List ν}
    (hP : ∀ w s s' b, P w → D.inv s → D.allow c s w → S.apply w s = .ok (s', b) →
      D.inv s' ∧ D.writes s s') (hpost : ∀ a, post a none es) :
    ∀ {p : Prog σ ω ε β α}, p.Writes P → D.Ok S c post (.ofProg p) none es
  | .ret a, _ => hpost a
  | .read _, h => fun s _ => Ok.ofProg hP hpost (h s)
  | .write w _, h => fun s hs =>
      ⟨fun e _ => Ok.ofProg hP hpost (h.2 (.error e)), fun s' b ha hw =>
        let ⟨hi, hd⟩ := hP w s s' b h.1 hs ha hw
        ⟨hi, hd, Ok.ofProg hP hpost (h.2 (.ok b))⟩⟩

/-- Under the lock a read sees the committed store, as it was when the lock was taken. -/
@[simp] theorem ok_read_held {post : α → Option (σ × Option σ) → List ν → Prop}
    {k : σ → LockProg σ ω ε β ν α} {s : σ} {t : Option σ} {es : List ν} :
    D.Ok S c post (.read k) (some (s, t)) es ↔ D.Ok S c post (k s) (some (s, t)) es := Iff.rfl

/-- A statement of a transaction that nothing refuses. -/
theorem Ok.exec_of_ok {post : α → Option (σ × Option σ) → List ν → Prop} {w : ω} {s t t' : σ} {b : β}
    {k : Except ε β → LockProg σ ω ε β ν α} {es : List ν} (hfault : ¬ D.faulty)
    (hw : S.apply w t = .ok (t', b)) (hk : D.Ok S c post (k (.ok b)) (some (s, some t')) es) :
    D.Ok S c post (.exec w k) (some (s, some t)) es := by
  refine ⟨fun e he => ?_, fun t₁ b₁ _ hw₁ => ?_⟩
  · rcases he with he | ⟨-, he⟩
    · exact absurd he hfault
    · exact absurd (hw.symm.trans he) (by simp)
  · obtain ⟨rfl, rfl⟩ := Prod.mk.inj (Except.ok.inj (hw.symm.trans hw₁))
    exact hk

/-- What became of the committed store `s₀`: the commits, with the other writes between them. -/
inductive Chain (D : LockDiscipline σ ω ν τ κ) (s₀ : σ) : List ν → σ → Prop
  | nil : Chain D s₀ [] s₀
  | write {es : List ν} {s t : σ} (h : Chain D s₀ es s) (hw : D.writes s t) : Chain D s₀ es t
  | commit {es : List ν} {e : ν} {s t : σ} (h : Chain D s₀ es s) (hc : D.commits e s t) :
      Chain D s₀ (es ++ [e]) t

/-- Where a client stands that holds `h` and has committed `es`, the discipline holds. -/
def At (D : LockDiscipline σ ω ν τ κ) (S : SharedStore σ ω ε β) (h : Option (σ × Option σ))
    (es : List ν) : LockClient σ ω ε β ν τ κ → Prop
  | .idle l => h = none ∧ D.loc l es
  | .busy l c p =>
    (∃ pre, pre <+: es ∧ D.loc l pre) ∧ D.Ok S c (fun l h es => h = none ∧ D.loc l es) p h es

/-- The system keeps the discipline: every command does when it starts. -/
def Kept (D : LockDiscipline σ ω ν τ κ) (Y : LockSystem σ ω ε β ν τ κ) : Prop :=
  ∀ l c es, D.calls c → D.loc l es →
    D.Ok Y.store c (fun l h es => h = none ∧ D.loc l es) (Y.prog l c) none es

variable [DecidableEq ι]

/-- The discipline holds of the stores and of every client, `s₀` being what the run began with. -/
structure Holds (D : LockDiscipline σ ω ν τ κ) (S : SharedStore σ ω ε β) (s₀ : σ)
    (n : LockNet σ ω ε β ν τ κ ι) : Prop where
  inv : D.inv n.db
  free : n.owner = none → n.tx = none
  chain : D.Chain s₀ (n.log.map (·.2)) n.db
  at' : ∀ i, D.At S (n.hold i) (n.committed i) (n.client i)

/-- The step is one the discipline allows. -/
def Allowed (D : LockDiscipline σ ω ν τ κ) (n : LockNet σ ω ε β ν τ κ ι) : LockAct ι κ ε → Prop
  | .start _ c => D.calls c
  | .step i => ∀ l c w k, n.client i = .busy l c (.exec w k) → D.allow c n.seen w
  | .fail _ _ => D.faulty

section Step

variable {Y : LockSystem σ ω ε β ν τ κ} {s₀ : σ} {n n' : LockNet σ ω ε β ν τ κ ι} {i : ι}

/-- A client moves and everything else stays. -/
theorem Holds.move (hn : D.Holds S s₀ n) {x : LockClient σ ω ε β ν τ κ}
    (hx : D.At S (n.hold i) (n.committed i) x) : D.Holds S s₀ (n.move i x) := by
  refine ⟨hn.inv, hn.free, hn.chain, fun j => ?_⟩
  rw [LockNet.hold_move, LockNet.committed_move, LockNet.move]
  by_cases hj : j = i
  · subst hj
    simpa using hx
  · simpa [hj] using hn.at' j

/-- Where no other client holds the lock, before or after, the others do not notice. -/
theorem Holds.owned (hn : D.Holds S s₀ n) {x : LockClient σ ω ε β ν τ κ} (es : List ν)
    (ho : ∀ j, n.owner = some j → j = i) (ho' : ∀ j, n'.owner = some j → j = i)
    (hlog : n'.log = n.log ++ es.map (Prod.mk i))
    (hclient : n'.client = Function.update n.client i x) (hinv : D.inv n'.db)
    (hfree : n'.owner = none → n'.tx = none) (hchain : D.Chain s₀ (n'.log.map (·.2)) n'.db)
    (hx : D.At S (n'.hold i) (n.committed i ++ es) x) : D.Holds S s₀ n' := by
  refine ⟨hinv, hfree, hchain, fun j => ?_⟩
  by_cases hj : j = i
  · subst hj
    rw [hclient, Function.update_self, LockNet.committed_append hlog]
    exact hx
  · rw [hclient, Function.update_of_ne hj, LockNet.committed_append_of_ne hj hlog,
      LockNet.hold_of_ne fun h => hj (ho' j h)]
    have := hn.at' j
    rwa [LockNet.hold_of_ne fun h => hj (ho j h)] at this

/-- The owner of the lock changes the stores, and commits nothing. -/
theorem Holds.keeping (hn : D.Holds S s₀ n) {x : LockClient σ ω ε β ν τ κ} (ho : n.owner = some i)
    (ho' : n'.owner = some i) (hlog : n'.log = n.log)
    (hclient : n'.client = Function.update n.client i x) (hinv : D.inv n'.db)
    (hchain : D.Chain s₀ (n.log.map (·.2)) n'.db)
    (hx : D.At S (some (n'.db, n'.tx)) (n.committed i) x) : D.Holds S s₀ n' := by
  refine hn.owned [] (fun j hj => Option.some.inj (hj.symm.trans ho))
    (fun j hj => Option.some.inj (hj.symm.trans ho')) (by simp [hlog]) hclient hinv
    (fun h => absurd (ho'.symm.trans h) (by simp)) (hlog ▸ hchain) ?_
  rwa [LockNet.hold_of_owner ho', List.append_nil]

/-- A client takes the lock that nobody has. -/
theorem Holds.takes (hn : D.Holds S s₀ n) {x : LockClient σ ω ε β ν τ κ} (ho : n.owner = none)
    (hx : D.At S (some (n.db, none)) (n.committed i) x) :
    D.Holds S s₀ { n.move i x with owner := some i } := by
  refine hn.owned [] (by simp [ho]) (by simp) (List.append_nil _).symm rfl hn.inv (by simp) hn.chain
    ?_
  rw [LockNet.hold_of_owner rfl, List.append_nil]
  exact (hn.free ho).symm ▸ hx

/-- The owner opens a transaction, writes in it, or rolls it back. -/
theorem Holds.transacts (hn : D.Holds S s₀ n) {x : LockClient σ ω ε β ν τ κ} {t : Option σ}
    (ho : n.owner = some i) (hx : D.At S (some (n.db, t)) (n.committed i) x) :
    D.Holds S s₀ { n.move i x with tx := t } :=
  hn.keeping ho ho rfl rfl hn.inv hn.chain hx

/-- The owner writes outside of a transaction. -/
theorem Holds.writes (hn : D.Holds S s₀ n) {x : LockClient σ ω ε β ν τ κ} {s : σ}
    (ho : n.owner = some i) (hinv : D.inv s) (hw : D.writes n.db s)
    (hx : D.At S (some (s, n.tx)) (n.committed i) x) :
    D.Holds S s₀ ({ n with db := s }.move i x) :=
  hn.keeping ho ho rfl rfl hinv (hn.chain.write hw) hx

/-- The owner commits the transaction. -/
theorem Holds.commits (hn : D.Holds S s₀ n) {x : LockClient σ ω ε β ν τ κ} {t : σ} {e : ν}
    (ho : n.owner = some i) (hinv : D.inv t) (hc : D.commits e n.db t)
    (hx : D.At S (some (t, none)) (n.committed i ++ [e]) x) :
    D.Holds S s₀ { n.move i x with db := t, tx := none, log := n.log ++ [(i, e)] } := by
  refine hn.owned [e] (by simp [ho]) (by simp [LockNet.move, ho]) rfl rfl hinv
    (by simp [LockNet.move, ho]) ?_ ?_
  · rw [List.map_append]
    exact hn.chain.commit hc
  · rwa [LockNet.hold_of_owner (by exact ho)]

/-- The owner gives the lock back. -/
theorem Holds.unlocks (hn : D.Holds S s₀ n) {x : LockClient σ ω ε β ν τ κ} (ho : n.owner = some i)
    (ht : n.tx = none) (hx : D.At S none (n.committed i) x) :
    D.Holds S s₀ { n.move i x with owner := none } := by
  refine hn.owned [] (by simp [ho]) (by simp) (List.append_nil _).symm rfl hn.inv (fun _ => ht)
    hn.chain ?_
  rwa [LockNet.hold_of_ne (by simp), List.append_nil]

/-- What a client has committed before goes on being what it is known for. -/
theorem At.goOn {l : τ} {p q : LockProg σ ω ε β ν τ} {h h' : Option (σ × Option σ)} {es : List ν}
    (hx : D.At S h es (.busy l c p)) (es' : List ν)
    (hq : D.Ok S c (fun l h es => h = none ∧ D.loc l es) q h' (es ++ es')) :
    D.At S h' (es ++ es') (.busy l c q) := by
  obtain ⟨⟨pre, hpre, hl⟩, -⟩ := hx
  exact ⟨⟨pre, hpre.trans (List.prefix_append _ _), hl⟩, hq⟩

/-- **A statement keeps the discipline.** -/
theorem Holds.advance_exec (hn : D.Holds Y.store s₀ n) {l : τ} {w : ω}
    {k : Except ε β → LockProg σ ω ε β ν τ}
    (hx : D.At Y.store (n.hold i) (n.committed i) (.busy l c (.exec w k)))
    (hallow : D.allow c n.seen w) (h : Y.advance n i (.busy l c) (.exec w k) = some n') :
    D.Holds Y.store s₀ n' := by
  obtain ⟨hpre, hp⟩ := hx
  match hh : n.hold i, hp with
  | some (s, none), hp =>
    obtain ⟨ho, rfl, ht⟩ := LockNet.owner_of_hold hh
    have hseen : n.seen = n.db := by rw [LockNet.seen, ht, Option.getD_none]
    rw [hseen] at hallow
    simp only [LockSystem.advance, hseen] at h
    split at h
    · rename_i s' b hw
      obtain rfl := Option.some.inj h
      obtain ⟨hi, hd, hk⟩ := hp.2 s' b hallow hw
      rw [LockNet.wrote_of_none ht]
      exact hn.writes ho hi hd ⟨hpre, ht.symm ▸ hk⟩
    · rename_i e hw
      obtain rfl := Option.some.inj h
      exact hn.move ⟨hpre, hh ▸ hp.1 e (.inr ⟨hallow, hw⟩)⟩
  | some (s, some t), hp =>
    obtain ⟨ho, rfl, ht⟩ := LockNet.owner_of_hold hh
    have hseen : n.seen = t := by rw [LockNet.seen, ht, Option.getD_some]
    rw [hseen] at hallow
    simp only [LockSystem.advance, hseen] at h
    split at h
    · rename_i t' b hw
      obtain rfl := Option.some.inj h
      rw [LockNet.wrote_of_some ht]
      exact hn.transacts ho ⟨hpre, hp.2 t' b hallow hw⟩
    · rename_i e hw
      obtain rfl := Option.some.inj h
      exact hn.move ⟨hpre, hh ▸ hp.1 e (.inr ⟨hallow, hw⟩)⟩

/-- **A client's own step keeps the discipline.** -/
theorem Holds.advance (hn : D.Holds Y.store s₀ n) {l : τ} {c : κ} {p : LockProg σ ω ε β ν τ}
    (hc : n.client i = .busy l c p) (hallow : ∀ w k, p = .exec w k → D.allow c n.seen w)
    (h : Y.advance n i (.busy l c) p = some n') : D.Holds Y.store s₀ n' := by
  have hx : D.At Y.store (n.hold i) (n.committed i) (.busy l c p) := hc ▸ hn.at' i
  obtain ⟨hpre, hp⟩ := id hx
  cases p with
  | ret a =>
    obtain rfl := Option.some.inj h
    exact hn.move hp
  | read k =>
    obtain rfl := Option.some.inj h
    refine hn.move ⟨hpre, ?_⟩
    match hh : n.hold i, hp with
    | none, hp => exact hp n.db hn.inv
    | some (s, t), hp =>
      obtain ⟨-, rfl, -⟩ := LockNet.owner_of_hold hh
      exact hp
  | lock p =>
    match hh : n.hold i, hp with
    | none, hp =>
      simp only [LockSystem.advance] at h
      split_ifs at h with ho
      obtain rfl := Option.some.inj h
      exact hn.takes ho ⟨hpre, hp n.db hn.inv⟩
  | «begin» k =>
    match hh : n.hold i, hp with
    | some (s, none), hp =>
      obtain ⟨ho, rfl, ht⟩ := LockNet.owner_of_hold hh
      simp only [LockSystem.advance, ht] at h
      obtain rfl := Option.some.inj h
      exact hn.transacts ho ⟨hpre, hp.1⟩
  | exec w k => exact hn.advance_exec hx (hallow w k rfl) h
  | commit e k =>
    match hh : n.hold i, hp with
    | some (s, some t), hp =>
      obtain ⟨ho, rfl, ht⟩ := LockNet.owner_of_hold hh
      obtain ⟨hi, hd, hk, -⟩ := hp
      simp only [LockSystem.advance, ht] at h
      obtain rfl := Option.some.inj h
      exact hn.commits ho hi hd (hx.goOn [e] hk)
  | rollback p =>
    match hh : n.hold i, hp with
    | some (s, some t), hp =>
      obtain ⟨ho, rfl, ht⟩ := LockNet.owner_of_hold hh
      obtain rfl := Option.some.inj h
      exact hn.transacts ho ⟨hpre, hp⟩
  | unlock p =>
    match hh : n.hold i, hp with
    | some (s, none), hp =>
      obtain ⟨ho, rfl, ht⟩ := LockNet.owner_of_hold hh
      obtain rfl := Option.some.inj h
      exact hn.unlocks ho ht ⟨hpre, hp⟩

/-- A statement that fails leaves the stores as they were. -/
theorem Holds.refuse (hn : D.Holds S s₀ n) {l : τ} {c : κ} {p : LockProg σ ω ε β ν τ} {e : ε}
    (hc : n.client i = .busy l c p) (hfault : D.faulty)
    (h : LockSystem.refuse n i e (.busy l c) p = some n') : D.Holds S s₀ n' := by
  obtain ⟨hpre, hp⟩ : D.At S (n.hold i) (n.committed i) (.busy l c p) := hc ▸ hn.at' i
  cases p with
  | ret | read | lock | rollback | unlock => exact absurd h (by simp [LockSystem.refuse])
  | «begin» k =>
    obtain rfl := Option.some.inj h
    refine hn.move ⟨hpre, ?_⟩
    match hh : n.hold i, hp with
    | some (s, none), hp => exact hp.2 hfault
  | exec w k =>
    obtain rfl := Option.some.inj h
    refine hn.move ⟨hpre, ?_⟩
    match hh : n.hold i, hp with
    | some (s, none), hp => exact hp.1 e (.inl hfault)
    | some (s, some t), hp => exact hp.1 e (.inl hfault)
  | commit f k =>
    obtain rfl := Option.some.inj h
    refine hn.move ⟨hpre, ?_⟩
    match hh : n.hold i, hp with
    | some (s, some t), hp => exact hp.2.2.2 hfault

/-- **An allowed step keeps the discipline.** -/
theorem Holds.next (hD : D.Kept Y) (hn : D.Holds Y.store s₀ n) {a : LockAct ι κ ε}
    (ha : D.Allowed n a) (h : Y.next n a = some n') : D.Holds Y.store s₀ n' := by
  cases a with
  | start i c =>
    simp only [LockSystem.next] at h
    split at h
    · rename_i l hc
      obtain rfl := Option.some.inj h
      obtain ⟨hhold, hl⟩ : D.At Y.store (n.hold i) (n.committed i) (.idle l) := hc ▸ hn.at' i
      refine hn.move ⟨⟨_, List.prefix_refl _, hl⟩, ?_⟩
      rw [hhold]
      exact hD l c _ ha hl
    · exact absurd h (by simp)
  | step i =>
    simp only [LockSystem.next] at h
    split at h
    · exact absurd h (by simp)
    · rename_i l c p hc
      exact hn.advance hc (fun w k hp => ha l c w k (hp ▸ hc)) h
  | fail i e =>
    simp only [LockSystem.next] at h
    split at h
    · exact absurd h (by simp)
    · rename_i l c p hc
      exact hn.refuse hc ha h

/-- **The discipline holds at the end of every run of allowed steps.** -/
theorem Holds.exec (hD : D.Kept Y) (hn : D.Holds Y.store s₀ n) {as : List (LockAct ι κ ε)}
    (ha : Run.Along Y.next D.Allowed n as) (h : Run.exec Y.next n as = some n') :
    D.Holds Y.store s₀ n' :=
  Run.exec_invariant_of_along (fun _ _ _ hm ha hstep => hm.next hD ha hstep) hn ha h

/-- Where all wait and nothing was committed, the discipline is about the store and what the
clients know. -/
theorem holds_start {l : τ} (hinv : D.inv s₀) (hl : D.loc l []) :
    D.Holds S s₀ (LockNet.start s₀ l : LockNet σ ω ε β ν τ κ ι) :=
  ⟨hinv, fun _ => rfl, .nil, fun _ => ⟨rfl, hl⟩⟩

end Step

end LockDiscipline
