import Mathlib.Logic.Function.Basic
import MailStack.Machinery.Prog

/-!
# Machinery/Clients — any number of clients over one store

Each client of a `System` runs one program after another.  Its steps interleave with those of all
the others in any order, a write may fail for reasons of its own, and the environment may act.

`sound` is the rely–guarantee rule: if every program meets its contract when it starts, then along
any run whose writes are allowed, every program in progress goes on meeting it.
-/

/-- The programs of a system: `prog l c` is what a client with local state `l` runs for the command
`c`; it returns the new local state and a result.  `env` is what others may do to the store. -/
structure System (σ ω ε β τ κ ρ η : Type*) where
  store : SharedStore σ ω ε β
  prog : τ → κ → Prog σ ω ε β (τ × ρ)
  env : η → σ → σ

/-- A client waits for a command, or has come to `p` in the command `c` it began in state `l`. -/
inductive Client (σ ω ε β τ κ ρ : Type*)
  | idle (l : τ)
  | busy (l : τ) (c : κ) (p : Prog σ ω ε β (τ × ρ))

/-- The store and the clients. -/
structure Net (σ ω ε β τ κ ρ ι : Type*) where
  db : σ
  client : ι → Client σ ω ε β τ κ ρ

/-- A step of a run: a client begins a command, takes its next step, has its next write fail; or
the environment acts. -/
inductive Act (ι κ ε η : Type*)
  | start (i : ι) (c : κ)
  | step (i : ι)
  | fail (i : ι) (e : ε)
  | env (x : η)

namespace Net

variable {σ ω ε β τ κ ρ η ι : Type*} {n : Net σ ω ε β τ κ ρ ι} {a : Act ι κ ε η}

/-- The write that the action attempts, with the state and the command of its client. -/
def writeOf (n : Net σ ω ε β τ κ ρ ι) : Act ι κ ε η → Option (τ × κ × ω)
  | .step i =>
    match n.client i with
    | .busy l c (.write w _) => some (l, c, w)
    | _ => none
  | _ => none

theorem writeOf_eq_some_iff {l : τ} {c : κ} {w : ω} :
    n.writeOf a = some (l, c, w) ↔ ∃ i k, a = .step i ∧ n.client i = .busy l c (.write w k) := by
  constructor
  · intro h
    unfold writeOf at h
    split at h
    · split at h
      · obtain ⟨rfl, rfl, rfl⟩ : _ ∧ _ ∧ _ := by simpa using h
        exact ⟨_, _, rfl, ‹_›⟩
      · exact absurd h (by simp)
    · exact absurd h (by simp)
  · rintro ⟨i, k, rfl, hc⟩
    rw [writeOf, hc]

end Net

namespace System

variable {σ ω ε β τ κ ρ η ι : Type*} [DecidableEq ι]

/-- One step of the system; `none` where it is not enabled. -/
def next (Y : System σ ω ε β τ κ ρ η) (n : Net σ ω ε β τ κ ρ ι) :
    Act ι κ ε η → Option (Net σ ω ε β τ κ ρ ι)
  | .start i c =>
    match n.client i with
    | .idle l => some { n with client := Function.update n.client i (.busy l c (Y.prog l c)) }
    | .busy .. => none
  | .step i =>
    match n.client i with
    | .idle _ => none
    | .busy _ _ (.ret a) => some { n with client := Function.update n.client i (.idle a.1) }
    | .busy l c (.read k) =>
      some { n with client := Function.update n.client i (.busy l c (k n.db)) }
    | .busy l c (.write w k) =>
      match Y.store.apply w n.db with
      | .ok (db, b) => some ⟨db, Function.update n.client i (.busy l c (k (.ok b)))⟩
      | .error e => some { n with client := Function.update n.client i (.busy l c (k (.error e))) }
  | .fail i e =>
    match n.client i with
    | .busy l c (.write _ k) =>
      some { n with client := Function.update n.client i (.busy l c (k (.error e))) }
    | _ => none
  | .env x => some { n with db := Y.env x n.db }

/-- What one step can be. -/
inductive Next (Y : System σ ω ε β τ κ ρ η) (n : Net σ ω ε β τ κ ρ ι) :
    Act ι κ ε η → Net σ ω ε β τ κ ρ ι → Prop
  | start {i : ι} {c : κ} {l : τ} (h : n.client i = .idle l) :
      Next Y n (.start i c) ⟨n.db, Function.update n.client i (.busy l c (Y.prog l c))⟩
  | finish {i : ι} {l : τ} {c : κ} {a : τ × ρ} (h : n.client i = .busy l c (.ret a)) :
      Next Y n (.step i) ⟨n.db, Function.update n.client i (.idle a.1)⟩
  | read {i : ι} {l : τ} {c : κ} {k : σ → Prog σ ω ε β (τ × ρ)}
      (h : n.client i = .busy l c (.read k)) :
      Next Y n (.step i) ⟨n.db, Function.update n.client i (.busy l c (k n.db))⟩
  | write {i : ι} {l : τ} {c : κ} {w : ω} {k : Except ε β → Prog σ ω ε β (τ × ρ)} {db : σ} {b : β}
      (h : n.client i = .busy l c (.write w k)) (hw : Y.store.apply w n.db = .ok (db, b)) :
      Next Y n (.step i) ⟨db, Function.update n.client i (.busy l c (k (.ok b)))⟩
  | refuse {i : ι} {l : τ} {c : κ} {w : ω} {k : Except ε β → Prog σ ω ε β (τ × ρ)} {e : ε}
      (h : n.client i = .busy l c (.write w k)) (hw : Y.store.apply w n.db = .error e) :
      Next Y n (.step i) ⟨n.db, Function.update n.client i (.busy l c (k (.error e)))⟩
  | fail {i : ι} {l : τ} {c : κ} {w : ω} {k : Except ε β → Prog σ ω ε β (τ × ρ)} {e : ε}
      (h : n.client i = .busy l c (.write w k)) :
      Next Y n (.fail i e) ⟨n.db, Function.update n.client i (.busy l c (k (.error e)))⟩
  | env {x : η} : Next Y n (.env x) ⟨Y.env x n.db, n.client⟩

/-- **Every step is one of these.** -/
theorem next_cases {Y : System σ ω ε β τ κ ρ η} {n n' : Net σ ω ε β τ κ ρ ι} {a : Act ι κ ε η}
    (h : Y.next n a = some n') : Next Y n a n' := by
  unfold next at h
  split at h
  · split at h
    · obtain rfl := Option.some.inj h
      exact .start ‹_›
    · exact absurd h (by simp)
  · split at h
    · exact absurd h (by simp)
    · obtain rfl := Option.some.inj h
      exact .finish ‹_›
    · obtain rfl := Option.some.inj h
      exact .read ‹_›
    · split at h
      · obtain rfl := Option.some.inj h
        exact .write ‹_› ‹_›
      · obtain rfl := Option.some.inj h
        exact .refuse ‹_› ‹_›
  · split at h
    · obtain rfl := Option.some.inj h
      exact .fail ‹_›
    · exact absurd h (by simp)
  · obtain rfl := Option.some.inj h
    exact .env

/-- Every write still to come of a command satisfies what `P` asks of that command's writes. -/
def Writing (P : κ → ω → Prop) (n : Net σ ω ε β τ κ ρ ι) : Prop :=
  ∀ i l c p, n.client i = .busy l c p → p.Writes (P c)

/-- A client moves on within what `P` asks. -/
theorem Writing.update {P : κ → ω → Prop} {n : Net σ ω ε β τ κ ρ ι} (h : Writing P n) {db : σ}
    {i : ι} {x : Client σ ω ε β τ κ ρ} (hx : ∀ l c p, x = .busy l c p → p.Writes (P c)) :
    Writing P ⟨db, Function.update n.client i x⟩ := by
  intro j l c p hj
  by_cases hji : j = i
  · subst hji
    exact hx l c p (by simpa using hj)
  · exact h j l c p (by simpa [hji] using hj)

theorem Writing.next {Y : System σ ω ε β τ κ ρ η} {P : κ → ω → Prop}
    (hprog : ∀ l c, (Y.prog l c).Writes (P c)) {n n' : Net σ ω ε β τ κ ρ ι} {a : Act ι κ ε η}
    (h : Writing P n) (hn : Y.next n a = some n') : Writing P n' := by
  cases next_cases hn with
  | start hc =>
    refine h.update fun l c p hp => ?_
    obtain ⟨rfl, rfl, rfl⟩ := Client.busy.inj hp
    exact hprog _ _
  | finish hc => exact h.update fun l c p hp => nomatch hp
  | @read i l c k hc =>
    refine h.update fun l' c' p hp => ?_
    obtain ⟨rfl, rfl, rfl⟩ := Client.busy.inj hp
    exact h i l c (.read k) hc n.db
  | @write i l c w k db b hc hw =>
    refine h.update fun l' c' p hp => ?_
    obtain ⟨rfl, rfl, rfl⟩ := Client.busy.inj hp
    exact (h i l c (.write w k) hc).2 _
  | @refuse i l c w k e hc hw =>
    refine h.update fun l' c' p hp => ?_
    obtain ⟨rfl, rfl, rfl⟩ := Client.busy.inj hp
    exact (h i l c (.write w k) hc).2 _
  | @fail i l c w k e hc =>
    refine h.update fun l' c' p hp => ?_
    obtain ⟨rfl, rfl, rfl⟩ := Client.busy.inj hp
    exact (h i l c (.write w k) hc).2 _
  | env => exact h

end System

/-! ## Rely and guarantee, over a whole run -/

/-- A discipline for the clients of a system: the contract of each command, what `loc l` a client
that waits in state `l` knows of the store, and what `post` holds of a result. -/
structure Discipline (σ ω τ κ ρ : Type*) where
  inv : σ → Prop
  rely : σ → σ → Prop
  allow : σ → ω → Prop
  faulty : Prop
  view : τ → σ → σ → Prop
  guar : τ → σ → σ → Prop
  loc : τ → σ → Prop
  post : τ → κ → τ × ρ → σ → Prop

namespace Discipline

open Prog System

variable {σ ω ε β τ κ ρ η ι : Type*} {D : Discipline σ ω τ κ ρ} {Y : System σ ω ε β τ κ ρ η}

/-- The contract of a command begun in state `l`. -/
def contract (D : Discipline σ ω τ κ ρ) (l : τ) : Contract σ ω :=
  ⟨D.inv, D.rely, D.view l, D.allow, D.faulty, D.guar l⟩

/-- The program `p` of the command `c`, begun in state `l`, meets its contract. -/
def Meets (D : Discipline σ ω τ κ ρ) (Y : System σ ω ε β τ κ ρ η) (l : τ) (c : κ)
    (p : Prog σ ω ε β (τ × ρ)) (s : σ) : Prop :=
  Ok Y.store (D.contract l) (fun a s => D.loc a.1 s ∧ D.post l c a s) p s

/-- The system keeps the discipline: every command meets its contract when it starts, and what is
known of the store is not lost when others act. -/
structure Kept (D : Discipline σ ω τ κ ρ) (Y : System σ ω ε β τ κ ρ η) : Prop where
  refl : ∀ s, D.rely s s
  trans : ∀ s₁ s₂ s₃, D.rely s₁ s₂ → D.rely s₂ s₃ → D.rely s₁ s₃
  loc_stable : ∀ l s s', D.rely s s' → D.inv s' → D.loc l s → D.loc l s'
  post_stable : ∀ l c a s s', D.rely s s' → D.inv s' → D.post l c a s → D.post l c a s'
  start : ∀ l c s, D.inv s → D.loc l s → D.Meets Y l c (Y.prog l c) s

/-- Where a client stands, the discipline holds. -/
def At (D : Discipline σ ω τ κ ρ) (Y : System σ ω ε β τ κ ρ η) (s : σ) :
    Client σ ω ε β τ κ ρ → Prop
  | .idle l => D.loc l s
  | .busy l c p => D.Meets Y l c p s

/-- The discipline holds of the store and of every client. -/
def Holds (D : Discipline σ ω τ κ ρ) (Y : System σ ω ε β τ κ ρ η) (n : Net σ ω ε β τ κ ρ ι) :
    Prop :=
  D.inv n.db ∧ ∀ i, D.At Y n.db (n.client i)

/-- The step is one the discipline allows: its write is allowed, a fault is of a faulty store, the
environment keeps the rely. -/
def Allowed (D : Discipline σ ω τ κ ρ) (Y : System σ ω ε β τ κ ρ η) (n : Net σ ω ε β τ κ ρ ι) :
    Act ι κ ε η → Prop
  | .start _ _ => True
  | .step i => ∀ l c w k, n.client i = .busy l c (.write w k) → D.allow n.db w
  | .fail _ _ => D.faulty
  | .env x => D.rely n.db (Y.env x n.db) ∧ D.inv (Y.env x n.db)

theorem At.stable (hD : D.Kept Y) {s s' : σ} (hr : D.rely s s') (hi : D.inv s') :
    ∀ {c : Client σ ω ε β τ κ ρ}, D.At Y s c → D.At Y s' c
  | .idle l, h => hD.loc_stable l s s' hr hi h
  | .busy l c _, h => Ok.stable (C := D.contract l) hD.trans
      (fun a s s' hr hi h => ⟨hD.loc_stable _ s s' hr hi h.1, hD.post_stable l c a s s' hr hi h.2⟩)
      hr hi h

/-- A step that moves client `i` and leaves every other where it was. -/
theorem Holds.update [DecidableEq ι] (hD : D.Kept Y) {n : Net σ ω ε β τ κ ρ ι} (h : D.Holds Y n)
    {db : σ} {i : ι} {c : Client σ ω ε β τ κ ρ} (hr : D.rely n.db db) (hi : D.inv db)
    (hc : D.At Y db c) : D.Holds Y ⟨db, Function.update n.client i c⟩ := by
  refine ⟨hi, fun j => ?_⟩
  by_cases hj : j = i
  · subst hj
    simpa using hc
  · simpa [hj] using At.stable hD hr hi (h.2 j)

/-- **An allowed step keeps the discipline**, and to every other client it is a rely step. -/
theorem Holds.next [DecidableEq ι] (hD : D.Kept Y) {n n' : Net σ ω ε β τ κ ρ ι}
    {a : Act ι κ ε η} (h : D.Holds Y n) (ha : D.Allowed Y n a) (hn : Y.next n a = some n') :
    D.Holds Y n' ∧ D.rely n.db n'.db := by
  have hrefl := hD.refl n.db
  cases next_cases hn with
  | @start i c l hc =>
    have hl := h.2 i
    rw [hc] at hl
    exact ⟨h.update hD hrefl h.1 (hD.start l c n.db h.1 hl), hrefl⟩
  | @finish i l c a hc =>
    have hp := h.2 i
    rw [hc] at hp
    exact ⟨h.update hD hrefl h.1 hp.1, hrefl⟩
  | @read i l c k hc =>
    have hp := h.2 i
    rw [hc] at hp
    exact ⟨h.update hD hrefl h.1 (hp.2 n.db hrefl h.1), hrefl⟩
  | @write i l c w k db b hc hw =>
    have hp := h.2 i
    rw [hc] at hp
    obtain ⟨-, hi, hr, hk⟩ := (hp n.db hrefl h.1).2 db b (ha l c w k hc) hw
    exact ⟨h.update hD hr hi hk, hr⟩
  | @refuse i l c w k e hc hw =>
    have hp := h.2 i
    rw [hc] at hp
    exact ⟨h.update hD hrefl h.1 ((hp n.db hrefl h.1).1 e (.inr ⟨ha l c w k hc, hw⟩)), hrefl⟩
  | @fail i l c w k e hc =>
    have hp := h.2 i
    rw [hc] at hp
    exact ⟨h.update hD hrefl h.1 ((hp n.db hrefl h.1).1 e (.inl ha)), hrefl⟩
  | env => exact ⟨⟨ha.2, fun j => At.stable hD ha.1 ha.2 (h.2 j)⟩, ha.1⟩

/-- **The discipline holds at the end of every run of allowed steps**, and the whole run is one
rely step. -/
theorem Holds.exec [DecidableEq ι] (hD : D.Kept Y) {n n' : Net σ ω ε β τ κ ρ ι}
    {as : List (Act ι κ ε η)} (h : D.Holds Y n) (ha : Run.Along Y.next (D.Allowed Y) n as)
    (hn : Run.exec Y.next n as = some n') : D.Holds Y n' ∧ D.rely n.db n'.db := by
  refine Run.exec_invariant_of_along (I := fun m => D.Holds Y m ∧ D.rely n.db m.db) ?_
    ⟨h, hD.refl n.db⟩ ha hn
  intro m a m' hm ha hstep
  obtain ⟨hm', hr⟩ := hm.1.next hD ha hstep
  exact ⟨hm', hD.trans _ _ _ hm.2 hr⟩

/-- A write of a client does what its contract guarantees. -/
theorem Holds.guar (hD : D.Kept Y) {n : Net σ ω ε β τ κ ρ ι} (h : D.Holds Y n) {i : ι} {l : τ}
    {c : κ} {w : ω} {k : Except ε β → Prog σ ω ε β (τ × ρ)} {db : σ} {b : β}
    (hc : n.client i = .busy l c (.write w k)) (ha : D.allow n.db w)
    (hw : Y.store.apply w n.db = .ok (db, b)) : D.guar l n.db db := by
  have hp := h.2 i
  rw [hc] at hp
  exact ((hp n.db (hD.refl n.db) h.1).2 db b ha hw).1

/-- A read of a client depends on the store only up to its view. -/
theorem Holds.view (hD : D.Kept Y) {n : Net σ ω ε β τ κ ρ ι} (h : D.Holds Y n) {i : ι} {l : τ}
    {c : κ} {k : σ → Prog σ ω ε β (τ × ρ)} (hc : n.client i = .busy l c (.read k)) {s : σ}
    (hr : D.rely n.db s) (hi : D.inv s) (hv : D.view l n.db s) : k n.db = k s := by
  have hp := h.2 i
  rw [hc] at hp
  exact hp.1 n.db s (hD.refl n.db) hr h.1 hi hv

end Discipline
