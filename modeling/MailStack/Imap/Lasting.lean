import MailStack.Imap.Alone
import MailStack.Imap.FetchLine
import MailStack.Imap.Walk
import MailStack.Machinery.Run
import MailStack.Store.Lasting

/-!
# Imap/Lasting — what the commands of a session leave

But for `RENAME`, what a handler writes leaves every message and every folder name where it is, and
rests on what was read for it.  So, with any number of sessions that are served one command at a time
and whoever else writes between them, the number of a message falls by as many as were removed before
it, and what comes to the folder comes behind it: `numbers_of_exec`.
-/

open Bytes

namespace MailStack.Imap

open Store Prog

/-- The write is timely, and moves nothing. -/
def Settled (db : DB) (w : Write) : Prop := Timely db (.message w) ∧ InPlace (.message w)

theorem composes_performs {W : Write → Prop} {P : DB → Write → Prop}
    (hW : ∀ w, W w → ∀ db, P db w) : Composes W fun _ h => Performs store P h where
  pure _ := Performs.pure
  throw _ := Performs.throw
  undefined := Performs.throw
  get := Performs.get
  lastError _ := Performs.modify
  badAccess := Performs.modify
  ask hp := Performs.lift fun _ => Makes.of_writes hW hp
  bind := Performs.bind
  catching hbody hhandler := Performs.tryCatch hbody fun e => by
    cases e with
    | throw e => exact hhandler e
    | undefined => exact Performs.throw
    | missing i => exact Performs.throw

theorem settled_of_standing {w : Write} (h : Standing w) (db : DB) : Settled db w := by
  cases w with
  | updateFlags | hardDelete | setSubscribed => exact ⟨trivial, trivial⟩
  | insertFolder f => exact ⟨h, trivial⟩
  | _ => exact h.elim

/-- A copy is given the `next_uid` that was read for it. -/
theorem performs_copy (id folderId : ℤ) :
    Performs store Settled (attempt (MessageRepository.copy id folderId)) := by
  have hP : Composes (fun _ => False) fun _ h => Performs store Settled h :=
    composes_performs fun _ hw => hw.elim
  refine hP.bind (Performs.lift fun db => ?_) fun r => ?_
  · exact (makesTimely_copy id folderId).and_writes
      (Composes.writes_copy (fun _ _ _ => trivial) id folderId)
  · match r with
    | .ok a => exact hP.pure (some a)
    | .error none => exact hP.pure none
    | .error (some e) => exact hP.bind (hP.lastError e) fun _ => hP.pure none

theorem performs_arg {P : DB → Write → Prop} (cmd : ImapCommand) (i : ℕ) :
    Performs store P (arg cmd i) := by
  unfold arg
  split
  · exact Performs.pure
  · exact Performs.throw

/-- **Every command but `RENAME` writes what is timely, and moves nothing.** -/
theorem performs_handleCommand (S : Services) {cmd : ImapCommand} (hrename : cmd.type ≠ .rename) :
    Performs store Settled (handleCommand S cmd) := by
  have hP : Composes (fun w => ∀ db, Settled db w) fun _ h => Performs store Settled h :=
    composes_performs fun _ hw => hw
  have hW : ∀ {w}, Standing w → ∀ db, Settled db w := fun h => settled_of_standing h
  have hmodify : ∀ g : Dispatcher → Dispatcher,
      Performs store Settled (modify g : HandlerM Unit) := fun _ => Performs.modify
  refine hP.ite (hP.pure _) (hP.get_bind fun d => hP.ite (hP.pure _) ?_)
  refine hP.catching ?_ fun _ => hP.pure _
  unfold dispatch
  split
  · exact hP.handleLogin hmodify S _
  · exact hP.pure _
  · exact hP.pure _
  · exact hP.pure _
  · exact hP.handleSelect hmodify (fun _ _ => ⟨trivial, trivial⟩) _
  · exact hP.handleListing _ _ _ _
  · exact hP.handleListing _ _ _ _
  · exact hP.handleStatus _
  · exact hP.handleFetch S (performs_arg _ 2)
  · exact hP.handleStore hW _
  · exact hP.handleCreate hW _
  · exact hP.handleDelete (fun _ _ => ⟨trivial, trivial⟩) _
  · exact absurd ‹_› hrename
  · exact hP.handleCopy performs_copy _
  · exact hP.handleExpunge hW _
  · exact hP.handleUidFetch S (performs_arg _ 2)
  · exact hP.handleUidStore hW _
  · exact hP.handleUidCopy performs_copy _
  · exact hP.handleSubscription hW _ _ _
  · exact hP.handleSubscription hW _ _ _
  · exact hP.handleClose hmodify (fun _ _ => ⟨trivial, trivial⟩) _
  · exact hP.whenSelected (hP.pure _)
  · exact hP.ite (hP.pure _) (hP.pure _)
  · exact hP.pure _

/-- **A command that is served alone** leaves a database that follows on the one before. -/
theorem followsOn_handleCommand (S : Services) {cmd : ImapCommand} (hrename : cmd.type ≠ .rename)
    (d : Dispatcher) (db : DB) : FollowsOn db (serve (handleCommand S cmd) d db).1 := by
  obtain ⟨ws, hrun⟩ := runs_run (S := store) ((handleCommand S cmd).run.run d) db
  exact (performs_handleCommand S hrename d db).rel (fun _ => .refl) .trans
    (fun hw happly => .single ⟨_, _, .message (Write.effect happly), hw⟩) hrun

/-! ## Whole runs -/

/-- What happens next: a session serves a command, or others leave another database. -/
inductive Turn (ι : Type)
  | serve (i : ι) (cmd : ImapCommand)
  | write (db : DB)

/-- The sessions and their database. -/
abbrev Served (ι : Type) := (ι → Dispatcher) × DB

/-- One command at a time; where its behaviour is undefined, nothing is said of what follows. -/
def turn {ι : Type} [DecidableEq ι] (S : Services) (n : Served ι) : Turn ι → Option (Served ι)
  | .serve i cmd =>
    match serve (handleCommand S cmd) (n.1 i) n.2 with
    | (db, .ok _, d) => some (Function.update n.1 i d, db)
    | (_, .error _, _) => none
  | .write db => some (n.1, db)

/-- No command renames a folder, and what others do is timely too. -/
def Settling {ι : Type} (n : Served ι) : Turn ι → Prop
  | .serve _ cmd => cmd.type ≠ .rename
  | .write db => FollowsOn n.2 db

section Runs

variable {ι : Type} [DecidableEq ι] {S : Services} {n n' : Served ι} {turns : List (Turn ι)}

theorem followsOn_turn {t : Turn ι} (hs : Settling n t) (ht : turn S n t = some n') :
    FollowsOn n.2 n'.2 := by
  cases t with
  | serve i cmd =>
    have hfollows := followsOn_handleCommand S hs (n.1 i) n.2
    rw [turn] at ht
    split at ht
    next db reply d hserve =>
      obtain rfl := Option.some.inj ht
      rwa [hserve] at hfollows
    next => cases ht
  | write db =>
    obtain rfl := Option.some.inj ht
    exact hs

theorem followsOn_of_exec (hturns : Run.Along (turn S) Settling n turns)
    (hrun : Run.exec (turn S) n turns = some n') : FollowsOn n.2 n'.2 :=
  Run.exec_invariant_of_along (C := Settling) (I := fun m => FollowsOn n.2 m.2)
    (fun _ _ _ h hs ht => h.trans (followsOn_turn hs ht)) .refl hturns hrun

/-- **The numbers of the messages**, over any run of any number of sessions.  A message that is left
has the folder and the uid it had, and its number has fallen by exactly as many as were removed
before it; by these numbers `FETCH`, `STORE` and `COPY` find it on their page before and after.
What is new in its folder has a larger uid; and a folder that is left is found by the name it had. -/
theorem numbers_of_exec {l : List Placement} (hl : Ledger l n.2)
    (hturns : Run.Along (turn S) Settling n turns)
    (hrun : Run.exec (turn S) n turns = some n') :
    (∀ i m m', n.2.messages.get? i = some m → n'.2.messages.get? i = some m' →
      (m'.folderId = m.folderId ∧ m'.uid = m.uid) ∧
      (position n'.2 (MessageDAL.rowToMessage i m') + goneBefore n.2 n'.2 m =
        position n.2 (MessageDAL.rowToMessage i m)) ∧
      (position n.2 (MessageDAL.rowToMessage i m) ≤ 50 →
        nthMessage n.2 m.folderId (position n.2 (MessageDAL.rowToMessage i m)) =
            some (MessageDAL.rowToMessage i m) ∧
          nthMessage n'.2 m.folderId (position n'.2 (MessageDAL.rowToMessage i m')) =
            some (MessageDAL.rowToMessage i m')) ∧
      ∀ j new, n.2.messages.get? j = none → n'.2.messages.get? j = some new →
        new.folderId = m.folderId → m.uid < new.uid) ∧
    ∀ u i name, (FolderDAL.findByName n.2 u name).bind (·.id) = some i →
      (n'.2.folders.get? i).isSome = true →
        (FolderDAL.findByName n'.2 u name).bind (·.id) = some i := by
  have hfollows := followsOn_of_exec hturns hrun
  obtain ⟨l', hl'⟩ := hfollows.ledger hl
  have hlasts := hfollows.lasts
  refine ⟨fun i m m' hm hm' => ?_, fun u i name => hlasts.findByName⟩
  have hsame := hlasts.same hm hm'
  have hposition := hlasts.position_add hl.consistent hm hm'
  refine ⟨hsame, hposition, fun hpage => ?_, fun j new => hlasts.behind hl.consistent hm⟩
  have hrow : ∀ {db : DB} {r : MessageData}, db.messages.get? i = some r →
      r.folderId = m.folderId → InFolder db m.folderId (MessageDAL.rowToMessage i r) :=
    fun hr hfolder => ⟨hfolder, i, rfl, hr⟩
  constructor
  · exact nthMessage_position hl.consistent.distinct (hrow hm rfl) hpage
  · exact nthMessage_position hl'.consistent.distinct (hrow hm' hsame.1) (by omega)

end Runs

/-! ## Two messages -/

theorem ledger_pageDB_two : Ledger [⟨1, 1, 1⟩, ⟨2, 1, 2⟩] (pageDB 2) := by
  have hrow : ∀ i m, (pageDB 2).messages.get? i = some m →
      (i, m) = (1, pageRow 1) ∨ (i, m) = (2, pageRow 2) := by
    intro i m hm
    have hmem : (i, m) ∈ [((1 : ℤ), pageRow 1), (2, pageRow 2)] := Table.mem_rows_iff.mpr hm
    simpa using hmem
  have hfolder : ∀ i f, (pageDB 2).folders.get? i = some f →
      (i, f) = (1, { userId := 1, parentId := none, name := lit "INBOX", nextUid := 3 }) := by
    intro i f hf
    exact List.mem_singleton.mp (Table.mem_rows_iff.mpr hf)
  refine ⟨⟨fun i m hm => ?_, fun i m hm => ?_, fun i r hr => (by cases hr)⟩, fun i f hf => ?_,
    fun i m hm => ?_, fun p hp => ?_, by simp⟩
  · rcases hrow i m hm with h | h <;> cases h <;> rfl
  · rcases hrow i m hm with h | h <;> cases h <;> rfl
  · cases hfolder i f hf
    decide
  · rcases hrow i m hm with h | h <;> cases h <;> simp [place, pageRow]
  · have hone : p.folderId = 1 ∧ 1 ≤ p.uid ∧ p.uid < 3 := by
      simp only [List.mem_cons, List.not_mem_nil, or_false] at hp
      rcases hp with rfl | rfl <;> decide
    obtain ⟨hp, huid, hlt⟩ := hone
    refine ⟨huid, by rw [hp]; decide, fun f hf => ?_⟩
    obtain ⟨-, rfl⟩ := Prod.mk.inj (hfolder _ f hf)
    exact hlt

/-- The first message is flagged and expunged. -/
def flagAndExpunge : List (Turn Unit) :=
  [.serve () { tag := lit "a", type := .store, args := [lit "1", lit "+FLAGS", lit "(\\Deleted)"] },
    .serve () { tag := lit "b", type := .expunge, args := [] }]

/-- Alice in her mailbox of two messages. -/
def served : Served Unit := (fun _ => pageSession, pageDB 2)

/-- **The second of two messages is the first** once that is expunged. -/
theorem numbers_of_exec_expunge : ∃ n' m m',
    Run.exec (turn noFiles) served flagAndExpunge = some n' ∧
      (pageDB 2).messages.get? 2 = some m ∧ n'.2.messages.get? 2 = some m' ∧
      position (pageDB 2) (MessageDAL.rowToMessage 2 m) = 2 ∧
      nthMessage n'.2 m.folderId 1 = some (MessageDAL.rowToMessage 2 m') := by
  have hrun : ∃ n', Run.exec (turn noFiles) served flagAndExpunge = some n' ∧
      (n'.2.messages.get? 2).isSome = true ∧ goneBefore (pageDB 2) n'.2 (pageRow 2) = 1 := by
    have hsome : (Run.exec (turn noFiles) served flagAndExpunge).any (fun n' =>
        (n'.2.messages.get? 2).isSome && goneBefore (pageDB 2) n'.2 (pageRow 2) == 1) = true := by
      decide +kernel
    obtain ⟨n', hn', hall⟩ := (Option.any_eq_true _ _).mp hsome
    rw [Bool.and_eq_true, beq_iff_eq] at hall
    exact ⟨n', hn', hall⟩
  obtain ⟨n', hrun, hleft, hgone⟩ := hrun
  obtain ⟨m', hm'⟩ := Option.isSome_iff_exists.mp hleft
  have hm : (pageDB 2).messages.get? 2 = some (pageRow 2) := by rfl
  obtain ⟨-, hposition, hpage, -⟩ := (numbers_of_exec (S := noFiles) (n := served) ledger_pageDB_two
    (Run.along_of_forall (by simp [flagAndExpunge, Settling]) served) hrun).1 2 _ m' hm hm'
  have htwo : position (pageDB 2) (MessageDAL.rowToMessage 2 (pageRow 2)) = 2 := by decide +kernel
  have hone : position n'.2 (MessageDAL.rowToMessage 2 m') = 1 := by
    change _ + goneBefore (pageDB 2) n'.2 (pageRow 2) = position (pageDB 2) _ at hposition
    omega
  refine ⟨n', _, m', hrun, hm, hm', htwo, ?_⟩
  have := (hpage (by change position (pageDB 2) _ ≤ 50; omega)).2
  rwa [hone] at this

end MailStack.Imap
