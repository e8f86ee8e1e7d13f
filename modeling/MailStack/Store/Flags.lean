import MailStack.Store.Repository

/-!
# Store/Flags — which flag updates survive each other

`markSeen` and `markDeleted` write one column.  The other calls read the message without the lock
and then write all six columns, so a call also writes back, as it read them, the flags it was not
asked to change.  `survives_of_exec` holds of the runs where these are still current when the call
gets the lock; `survives_lost` is a run where they are not.
-/

open Bytes Prog

namespace MailStack.Store

open MessageRepository

@[simp] theorem Flags.get_set (f : Flags) (v : Bool) (c c' : Flag) :
    (f.set v c).get c' = if c' = c then v else f.get c' := by
  cases c <;> cases c' <;> rfl

/-! ## The calls -/

/-- A call that changes flags. -/
inductive FlagCall
  | setFlags (id : ℤ) (flags : List Bytes)
  | markFlagged (id : ℤ) (flagged : Bool)
  | markAnswered (id : ℤ) (answered : Bool)
  | markDraft (id : ℤ) (draft : Bool)
  | markSeen (id : ℤ) (seen : Bool)
  | markDeleted (id : ℤ) (deleted : Bool)

/-- The operation a call stands for. -/
def flagProg : FlagCall → DbM Bool
  | .setFlags id flags => succeeded (setFlags id flags)
  | .markFlagged id flagged => succeeded (markFlagged id flagged)
  | .markAnswered id answered => succeeded (markAnswered id answered)
  | .markDraft id draft => succeeded (markDraft id draft)
  | .markSeen id seen => succeeded (markSeen id seen)
  | .markDeleted id deleted => succeeded (markDeleted id deleted)

/-- Any number of clients that make such calls. -/
def flagClients : System DB Write Bytes Answer Unit FlagCall Bool Empty where
  store := store
  prog _ call := do return ((), ← flagProg call)
  env := nofun

/-- The value the last argument that names `c` asks for. -/
def lastValue (c : Flag) : List Bytes → Option Bool
  | [] => none
  | flag :: flags =>
    (lastValue c flags).or
      (if Flag.ofName (splitFlag flag).2 = some c then some (splitFlag flag).1 else none)

/-- The value a call is to give the flag `c` of the message `id`; `none` if it does not address it.
A `setFlags` without prefixes replaces, and so addresses every flag. -/
def FlagCall.addresses : FlagCall → ℤ → Flag → Option Bool
  | .setFlags id flags, i, c =>
    if i = id then
      if flags.any isPrefixed then lastValue c flags else some ((lastValue c flags).getD false)
    else none
  | .markFlagged id flagged, i, c => if i = id ∧ c = .flagged then some flagged else none
  | .markAnswered id answered, i, c => if i = id ∧ c = .answered then some answered else none
  | .markDraft id draft, i, c => if i = id ∧ c = .draft then some draft else none
  | .markSeen id seen, i, c => if i = id ∧ c = .seen then some seen else none
  | .markDeleted id deleted, i, c => if i = id ∧ c = .deleted then some deleted else none

/-! ## What a call may write -/

theorem applyFlags_get {c : Flag} :
    ∀ {flags : List Bytes} {f f' : Flags}, applyFlags f flags = .ok f' →
      f'.get c = (lastValue c flags).getD (f.get c)
  | [], f, f', h => by
      obtain rfl := Except.ok.inj h
      rfl
  | flag :: flags, f, f', h => by
      rw [applyFlags] at h
      split at h
      · exact absurd h (by simp)
      · rename_i c' hc'
        rw [applyFlags_get h, lastValue, hc']
        cases lastValue c flags with
        | some v => rfl
        | none =>
          rw [Flags.get_set]
          by_cases hc : c = c'
          · simp [hc]
          · simp [hc, Ne.symm hc]

/-- A write of a call sets the flags the call addresses as it asks, in the message it asks for. -/
def Serves (call : FlagCall) : Write → Prop
  | .updateFlags id flags =>
    (∀ c v, call.addresses id c = some v → flags.get c = v) ∧
      ∀ i c, i ≠ id → call.addresses i c = none
  | .updateSeen id seen =>
    ∀ i c, call.addresses i c = if i = id ∧ c = .seen then some seen else none
  | .updateDeleted id deleted =>
    ∀ i c, call.addresses i c = if i = id ∧ c = .deleted then some deleted else none
  | _ => False

theorem serves_of_newFlags {id : ℤ} {flags : List Bytes} {f f' : Flags}
    (h : newFlags f flags = .ok f') : Serves (.setFlags id flags) (.updateFlags id f') := by
  refine ⟨fun c v hv => ?_, fun i c hi => if_neg hi⟩
  rw [applyFlags_get h]
  rw [FlagCall.addresses, if_pos rfl] at hv
  split_ifs at hv ⊢ with hpre
  · rw [hv]
    rfl
  · rw [← Option.some.inj hv]
    cases c <;> rfl

/-- A call that addresses one flag, and writes the flags it read with that one set. -/
theorem serves_set {call : FlagCall} {id : ℤ} {c : Flag} {b : Bool}
    (h : ∀ i c', call.addresses i c' = if i = id ∧ c' = c then some b else none) (f : Flags) :
    Serves call (.updateFlags id (f.set b c)) := by
  refine ⟨fun c' v hv => ?_, fun i c' hi => ?_⟩
  · rw [h] at hv
    split_ifs at hv with hc
    rw [Flags.get_set, if_pos hc.2]
    exact Option.some.inj hv
  · rw [h, if_neg fun hc => hi hc.1]

theorem writes_rewriteFlags {P : Write → Prop} {name : String} {id : ℤ} {g : Flags → Flags}
    (h : ∀ f, P (.updateFlags id (g f))) : (rewriteFlags name id g).Writes P :=
  writes_lookup (writes_pure _) fun msg => writes_unchecked (h msg.flags)

theorem writes_setFlags {P : Write → Prop} {id : ℤ} {flags : List Bytes}
    (h : ∀ f f', newFlags f flags = .ok f' → P (.updateFlags id f')) :
    (setFlags id flags).Writes P := by
  refine writes_lookup (writes_pure _) fun msg => ?_
  dsimp only
  split
  · exact writes_pure _
  · rename_i f hf
    exact writes_unchecked (h msg.flags f hf)

/-- **Each call makes only writes that serve it.** -/
theorem writes_flagProg (call : FlagCall) : (flagProg call).Writes (Serves call) := by
  have done : ∀ {p : DbM (Result Answer)}, p.Writes (Serves call) →
      (succeeded p).Writes (Serves call) := fun h => h.bind fun _ => writes_pure _
  cases call with
  | setFlags id flags => exact done (writes_setFlags fun f f' hf => serves_of_newFlags hf)
  | markFlagged id b =>
    exact done (writes_rewriteFlags (serves_set (c := .flagged) fun _ _ => rfl))
  | markAnswered id b =>
    exact done (writes_rewriteFlags (serves_set (c := .answered) fun _ _ => rfl))
  | markDraft id b =>
    exact done (writes_rewriteFlags (serves_set (c := .draft) fun _ _ => rfl))
  | markSeen id b => exact done (writes_unchecked fun _ _ => rfl)
  | markDeleted id b => exact done (writes_unchecked fun _ _ => rfl)

/-! ## A run -/

section Runs

variable {ι : Type} [DecidableEq ι]

/-- The clients that change flags, and their database. -/
abbrev FlagClients (ι : Type) := Net DB Write Bytes Answer Unit FlagCall Bool ι

/-- The call whose write a step commits. -/
def commit (n : FlagClients ι) : Act ι FlagCall Bytes Empty → Option FlagCall
  | .step i =>
    match n.client i with
    | .busy _ call (.write w _) => if (w.apply n.db).isOk then some call else none
    | _ => none
  | _ => none

/-- The calls that a run commits, in their order. -/
def commits (n : FlagClients ι) : List (Act ι FlagCall Bytes Empty) → List FlagCall
  | [] => []
  | a :: as =>
    (commit n a).toList ++ (flagClients.next n a).elim [] fun n' => commits n' as

/-- The flags a read-modify-write does not address still are what it read: it writes them as they
are. -/
def Current (n : FlagClients ι) (a : Act ι FlagCall Bytes Empty) : Prop :=
  ∀ i call id flags k m, a = .step i →
    n.client i = .busy () call (.write (.updateFlags id flags) k) →
    n.db.messages.get? id = some m →
      ∀ c, call.addresses id c = none → flags.get c = m.flags.get c

/-- The row that a write replaces the flags of, and by which. -/
def rewritten : Write → Option (ℤ × Flags)
  | .updateFlags id flags => some (id, flags)
  | _ => none

theorem rewritten_eq_some_iff {w : Write} {id : ℤ} {flags : Flags} :
    rewritten w = some (id, flags) ↔ w = .updateFlags id flags := by
  cases w <;> simp [rewritten]

/-- The six flags. -/
def Flag.all : List Flag := [.seen, .deleted, .draft, .answered, .flagged, .recent]

instance (n : FlagClients ι) : DecidablePred (Current n) := fun a =>
  decidable_of_iff (∀ x ∈ n.writeOf a, ∀ p ∈ rewritten x.2.2,
      ∀ m ∈ n.db.messages.get? p.1, ∀ c ∈ Flag.all, x.2.1.addresses p.1 c = none →
        p.2.get c = m.flags.get c)
    ⟨fun h i call id flags k m ha hc hm c hnone =>
      h ((), call, .updateFlags id flags) (Net.writeOf_eq_some_iff.mpr ⟨i, k, ha, hc⟩)
        (id, flags) rfl m hm c (by cases c <;> decide) hnone, by
      rintro h ⟨l, call, w⟩ hx ⟨id, flags⟩ hp m hm c - hnone
      obtain ⟨i, k, ha, hc⟩ := Net.writeOf_eq_some_iff.mp hx
      obtain rfl := rewritten_eq_some_iff.mp hp
      exact h i call _ _ k m ha hc hm c hnone⟩

/-- **No update is lost**: a flag has the value some call that addresses it gave it, if there is
one, and its initial value otherwise. -/
def Survives (calls : List FlagCall) (id : ℤ) (initial final : Flags) : Prop :=
  ∀ c, (∃ call ∈ calls, call.addresses id c = some (final.get c)) ∨
    ((∀ call ∈ calls, call.addresses id c = none) ∧ final.get c = initial.get c)

/-- One committed write, on one message. -/
theorem flags_of_serves {call : FlagCall} {w : Write} {db db' : DB} {b : Answer}
    (hs : Serves call w) (hw : w.apply db = .ok (db', b)) {id : ℤ} {m : MessageData}
    (hm : db.messages.get? id = some m)
    (hcur : ∀ flags, w = .updateFlags id flags → ∀ c, call.addresses id c = none →
      flags.get c = m.flags.get c) :
    ∃ m', db'.messages.get? id = some m' ∧
      ∀ c, m'.flags.get c = (call.addresses id c).getD (m.flags.get c) := by
  cases w with
  | updateFlags id' flags =>
    obtain ⟨rfl, rfl⟩ := Prod.mk.inj (Except.ok.inj hw)
    simp only [MessageDAL.updateFlags, MessageDAL.setFlags_messages, Table.get?_modify, hm]
    by_cases hid : id = id'
    · subst hid
      refine ⟨_, if_pos rfl, fun c => ?_⟩
      cases hc : call.addresses id c with
      | some v => exact hs.1 c v hc
      | none => exact hcur flags rfl c hc
    · exact ⟨m, if_neg hid, fun c => by rw [hs.2 id c hid]; rfl⟩
  | updateSeen id' seen =>
    obtain ⟨rfl, rfl⟩ := Prod.mk.inj (Except.ok.inj hw)
    simp only [MessageDAL.updateSeen, MessageDAL.setFlags_messages, Table.get?_modify, hm]
    by_cases hid : id = id'
    · refine ⟨_, if_pos hid, fun c => ?_⟩
      rw [hs id c]
      cases c <;> simp [hid, Flags.get]
    · exact ⟨m, if_neg hid, fun c => by rw [hs id c]; simp [hid]⟩
  | updateDeleted id' deleted =>
    obtain ⟨rfl, rfl⟩ := Prod.mk.inj (Except.ok.inj hw)
    simp only [MessageDAL.updateDeleted, MessageDAL.setFlags_messages, Table.get?_modify, hm]
    by_cases hid : id = id'
    · refine ⟨_, if_pos hid, fun c => ?_⟩
      rw [hs id c]
      cases c <;> simp [hid, Flags.get]
    · exact ⟨m, if_neg hid, fun c => by rw [hs id c]; simp [hid]⟩
  | assignUID | moveToFolder | expunge | hardDelete | copy | insertFolder | updateFolder
  | deleteFolder | incrementNextUID | clearRecentByFolder | setSubscribed => exact hs.elim

/-- **One step**: what it commits is what changes. -/
theorem flags_of_next {n n' : FlagClients ι} {a : Act ι FlagCall Bytes Empty}
    (hs : System.Writing Serves n) (hcur : Current n a) (hn : flagClients.next n a = some n')
    {id : ℤ} {m : MessageData} (hm : n.db.messages.get? id = some m) :
    ∃ m', n'.db.messages.get? id = some m' ∧
      ∀ c, m'.flags.get c = ((commit n a).bind (·.addresses id c)).getD (m.flags.get c) := by
  cases System.next_cases hn with
  | start hc => exact ⟨m, hm, fun c => rfl⟩
  | finish hc => exact ⟨m, hm, fun c => by simp [commit, hc]⟩
  | read hc => exact ⟨m, hm, fun c => by simp [commit, hc]⟩
  | @write i l call w k db b hc hw =>
    have hcommit : commit n (.step i) = some call := by
      simp only [commit, hc]
      rw [show w.apply n.db = .ok (db, b) from hw]
      rfl
    rw [hcommit]
    refine flags_of_serves (hs i l call _ hc).1 hw hm fun flags hflags c hnone => ?_
    subst hflags
    exact hcur i call id flags k m rfl hc hm c hnone
  | @refuse i l call w k e hc hw =>
    have hcommit : commit n (.step i) = none := by
      simp only [commit, hc]
      rw [show w.apply n.db = .error e from hw]
      rfl
    exact ⟨m, hm, fun c => by rw [hcommit]; rfl⟩
  | fail hc => exact ⟨m, hm, fun c => rfl⟩
  | @env x => exact x.elim

/-- **The whole run.** A flag that no later call addresses is decided by this step. -/
theorem survives_of_writing :
    ∀ {as : List (Act ι FlagCall Bytes Empty)} {n n' : FlagClients ι},
      System.Writing Serves n → Run.Along flagClients.next Current n as →
      Run.exec flagClients.next n as = some n' →
      ∀ {id : ℤ} {m : MessageData}, n.db.messages.get? id = some m →
        ∃ m', n'.db.messages.get? id = some m' ∧ Survives (commits n as) id m.flags m'.flags
  | [], n, n', _, _, hrun, id, m, hm => by
      obtain rfl : n = n' := Option.some.inj hrun
      exact ⟨m, hm, fun c => .inr ⟨by simp [commits], rfl⟩⟩
  | a :: as, n, n', hs, hcur, hrun, id, m, hm => by
      obtain ⟨n₁, h₁, h₂⟩ := Run.exec_cons_eq_some_iff.mp hrun
      obtain ⟨m₁, hm₁, hflags⟩ := flags_of_next hs hcur.1 h₁ hm
      have hs₁ : System.Writing Serves n₁ := System.Writing.next
        (fun _ call => (writes_flagProg call).bind fun _ => writes_pure _) hs h₁
      obtain ⟨m', hm', hsurv⟩ := survives_of_writing hs₁ (hcur.2 n₁ h₁) h₂ hm₁
      refine ⟨m', hm', fun c => ?_⟩
      have hcalls : commits n (a :: as) = (commit n a).toList ++ commits n₁ as := by
        rw [commits, h₁]
        rfl
      rw [hcalls]
      rcases hsurv c with ⟨call, hmem, hcall⟩ | ⟨hnone, hsame⟩
      · exact .inl ⟨call, List.mem_append_right _ hmem, hcall⟩
      · rw [hflags c] at hsame
        cases hcommit : commit n a with
        | none =>
          rw [hcommit] at hsame
          exact .inr ⟨by simpa using hnone, hsame⟩
        | some call =>
          rw [hcommit] at hsame
          cases hcall : call.addresses id c with
          | some v =>
            refine .inl ⟨call, by simp, ?_⟩
            rw [hcall, hsame]
            simp [hcall]
          | none =>
            refine .inr ⟨?_, by simpa [hcall] using hsame⟩
            intro call' hmem
            rcases List.mem_append.mp hmem with hmem | hmem
            · obtain rfl : call' = call := by simpa using hmem
              exact hcall
            · exact hnone call' hmem

/-- **No flag update is lost in a run whose read-modify-writes write back current values.** -/
theorem survives_of_exec {n n' : FlagClients ι} {as : List (Act ι FlagCall Bytes Empty)}
    (hidle : ∀ i, n.client i = .idle ()) (hcur : Run.Along flagClients.next Current n as)
    (hrun : Run.exec flagClients.next n as = some n') {id : ℤ} {m : MessageData}
    (hm : n.db.messages.get? id = some m) :
    ∃ m', n'.db.messages.get? id = some m' ∧ Survives (commits n as) id m.flags m'.flags := by
  refine survives_of_writing (fun i l call p hc => ?_) hcur hrun hm
  rw [hidle i] at hc
  exact nomatch hc

end Runs

/-! ## One update, and two concurrent ones -/

/-- One user, one folder, one unread message. -/
def mailDB : DB where
  users := Table.empty.insert ⟨lit "alice", []⟩
  folders := Table.empty.insert
    { userId := 1, parentId := none, name := lit "INBOX", nextUid := 2 }
  messages := Table.empty.insert
    { userId := 1, folderId := 1, uid := 1,
      content := { rawFilePath := lit "mailstore/alice/1.eml", fromAddress := lit "bob" } }
  recipients := .empty

def mailClients : FlagClients Bool := ⟨mailDB, fun _ => .idle ()⟩

/-- `+\Seen` of one client and `+\Flagged` of the other, which reads when the first has written, and
writes before the first returns. -/
def orderedUpdates : List (Act Bool FlagCall Bytes Empty) :=
  [.start true (.setFlags 1 [lit "+\\Flagged"]), .start false (.setFlags 1 [lit "+\\Seen"]),
    .step false, .step false, .step true, .step true, .step false, .step true]

theorem survives_orderedUpdates :
    ∃ n' m m', Run.exec flagClients.next mailClients orderedUpdates = some n' ∧
      mailClients.db.messages.get? 1 = some m ∧ n'.db.messages.get? 1 = some m' ∧
      m'.flags = { m.flags with seen := true, flagged := true } ∧
      Survives (commits mailClients orderedUpdates) 1 m.flags m'.flags := by
  have hm : mailClients.db.messages.get? 1 = some _ := rfl
  obtain ⟨m', hm', h⟩ := survives_of_exec (fun _ => rfl)
    (by decide : Run.Along flagClients.next Current mailClients orderedUpdates) rfl hm
  refine ⟨_, _, m', rfl, rfl, hm', ?_, h⟩
  obtain rfl := Option.some.inj hm'
  rfl

/-- `+\Seen` of one client and `+\Flagged` of the other, both read before either writes. -/
def crossedUpdates : List (Act Bool FlagCall Bytes Empty) :=
  [.start false (.setFlags 1 [lit "+\\Seen"]), .start true (.setFlags 1 [lit "+\\Flagged"]),
   .step false, .step true, .step false, .step true, .step false, .step true]

/-- **The later of two crossed updates takes the earlier one back.** -/
theorem survives_lost :
    ∃ (n n' : FlagClients Bool) (as : List (Act Bool FlagCall Bytes Empty)) (id : ℤ)
      (m m' : MessageData),
      (∀ i, n.client i = .idle ()) ∧ Run.exec flagClients.next n as = some n' ∧
      (∀ i, n'.client i = .idle ()) ∧ n.db.messages.get? id = some m ∧
      n'.db.messages.get? id = some m' ∧ ¬ Survives (commits n as) id m.flags m'.flags := by
  refine ⟨mailClients, _, crossedUpdates, 1, _, _, fun _ => rfl, rfl, ?_, rfl, rfl, ?_⟩
  · intro i
    cases i <;> rfl
  · have hcommits : commits mailClients crossedUpdates =
        [.setFlags 1 [lit "+\\Seen"], .setFlags 1 [lit "+\\Flagged"]] := rfl
    intro h
    rw [hcommits] at h
    rcases h .seen with ⟨call, hmem, hcall⟩ | ⟨hnone, -⟩
    · rcases List.mem_cons.mp hmem with rfl | hmem
      · exact absurd hcall (by decide)
      · obtain rfl := List.mem_singleton.mp hmem
        exact absurd hcall (by decide)
    · exact absurd (hnone _ (List.mem_cons_self ..)) (by decide)

end MailStack.Store
