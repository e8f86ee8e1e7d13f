import MailStack.Imap.Dispatcher
import MailStack.Machinery.Handler

/-!
# Imap/Triple — the rules of the handlers' primitives

The triples of `Machinery/Handler` at the session of the dispatcher: one rule for each primitive of
`HandlerM`.  An assertion about the session is `Quiet` when neither the others nor a failed call,
which leaves its text in `m_last_error`, can undo it; `E` is what an exception is to leave behind.

`Lists` is what a contract has to provide about the selected mailbox; from it follow the triples of
the handlers that go through its messages, `STORE` and `EXPUNGE`, for any such contract.
-/

namespace MailStack.Imap

open Store Prog

variable {C : Contract DB Write} {E A B : Dispatcher → DB → Prop} {s : DB} {α : Type}

/-- Neither what others do nor the text of an error undoes the assertion, and it is no less than
what is to hold when an exception leaves. -/
structure Quiet (C : Contract DB Write) (E A : Dispatcher → DB → Prop) : Prop where
  stable : Stable C A
  lastError : ∀ d e s, A d s → A { d with lastError := e } s
  throws : ∀ d s, A d s → E d s

theorem quiet_true : Quiet C (fun _ _ => True) fun _ _ => True :=
  ⟨fun _ _ _ _ _ => trivial, fun _ _ _ _ => trivial, fun _ _ _ => trivial⟩

/-- The triple of a handler. -/
abbrev Handles (C : Contract DB Write) (E A : Dispatcher → DB → Prop) (s : DB) (h : HandlerM α)
    (B : Dispatcher → DB → Prop) (post : α → DB → Prop) : Prop :=
  Triple store C E A s h B post

namespace Handles

/-- A call of the store that keeps its specification. -/
theorem ask [C.Lawful] {p : DbM α} {post : α → DB → Prop} (hA : Quiet C E A)
    (hp : Spec store C s p post) : Handles C E A s (ask p) A post :=
  Triple.lift hA.stable hp

/-- A call that may fail: what is known of its outcome is known, though `attempt` reports less. -/
theorem attempt [C.Lawful] {p : DbM (Result α)} {post : Result α → DB → Prop} (hA : Quiet C E A)
    (hpost : ∀ r s₁ s₂, C.Later s₁ s₂ → post r s₁ → post r s₂) (hp : Spec store C s p post) :
    Handles C E A s (attempt p) A fun o s' => ∃ r, r.toOption = o ∧ post r s' := by
  refine (ask hA hp).bind fun r s₁ h₁ hr => ?_
  match r with
  | .ok a => exact Triple.pure fun s' h => ⟨_, rfl, hpost _ s₁ s' h hr⟩
  | .error none => exact Triple.pure fun s' h => ⟨_, rfl, hpost _ s₁ s' h hr⟩
  | .error (some e) =>
    refine (Triple.modify fun d s' _ => hA.lastError d e s').bind ?_
    exact fun _ s₂ h₂ _ => Triple.pure fun s' h => ⟨_, rfl, hpost _ s₁ s' (h₂.trans h) hr⟩

/-- A value that is there is handed on; otherwise an exception leaves. -/
theorem value {o : Option α} {a : α} (h : o = some a) :
    Handles C E A s (value o) A fun x _ => x = a := by
  subst h
  exact Triple.pure fun _ _ => rfl

/-- An argument that is read is the command's. -/
theorem arg (hA : Quiet C E A) (cmd : ImapCommand) (i : ℕ) :
    Handles C E A s (arg cmd i) A fun x _ => cmd.args[i]? = some x := by
  unfold Imap.arg
  split
  · exact Triple.pure fun _ _ => ‹_›
  · exact Triple.throw fun d s' _ => hA.throws d s'

/-- A result is handed on or thrown. -/
theorem orThrow (hA : Quiet C E A) (r : Except Exn α) :
    Handles C E A s (orThrow r) A fun _ _ => True := by
  unfold Imap.orThrow
  split
  · exact Triple.pure fun _ _ => trivial
  · exact Triple.throw fun d s' _ => hA.throws d s'

/-- A set is parsed or thrown at. -/
theorem sequenceSet (hA : Quiet C E A) (t : Bytes) (maxValue : ℤ) :
    Handles C E A s (sequenceSet t maxValue) A fun _ _ => True := by
  unfold Imap.sequenceSet
  split
  · exact Triple.pure fun _ _ => trivial
  · exact Triple.throw fun d s' _ => hA.throws d s'

/-- `try … catch`: what no clause catches goes on as it is. -/
theorem catching [C.Lawful] {body : HandlerM α} {handler : Exn → HandlerM α} {post : α → DB → Prop}
    (ht : Handles C E A s body B post)
    (hc : ∀ e s₁, C.Later s s₁ → Handles C E E s₁ (handler e) B post) :
    Handles C E A s (catching body handler) B post := by
  refine Triple.tryCatch ht fun e s₁ h₁ => ?_
  match e with
  | .throw e => exact hc e s₁ h₁
  | .undefined => exact Triple.throw fun _ _ _ h => h
  | .missing i => exact Triple.throw fun _ _ _ h => h

/-- A member of the dispatcher that may be empty. -/
theorem member_or_throw (g : Dispatcher → Option α)
    (hE : ∀ d s', A d s' → E { d with badAccess := true } s') :
    Handles C E A s (do Imap.value (g (← get))) A fun a s' => ∃ d, A d s' ∧ g d = some a := by
  refine Triple.get_bind fun d => ?_
  rintro d' s' hs ⟨rfl, ha⟩
  have hends : ∀ a, g d' = some a → A d' s' ∧ ∃ d, A d s' ∧ g d = some a :=
    fun a hg => ⟨ha, d', ha, hg⟩
  cases hg : g d' with
  | some a => exact hends a hg
  | none => exact hE d' s' ha

/-- A member of the dispatcher that the assertion says is there. -/
theorem member {g : Dispatcher → Option α} {post : α → DB → Prop}
    (h : ∀ d s', A d s' → ∃ a, g d = some a ∧ post a s') :
    Handles C E A s (do Imap.value (g (← get))) A post := by
  refine Triple.get_bind fun d => ?_
  rintro d' s' hs ⟨rfl, ha⟩
  obtain ⟨a, hg, hpost⟩ := h d' s' ha
  rw [hg]
  exact ⟨ha, hpost⟩

/-- The guard of the commands that need a selected mailbox. -/
theorem guarded [C.Lawful] {reply : α} {body : HandlerM α} {post : α → DB → Prop}
    (hbody : Handles C E (fun d s' => A d s' ∧ d.state = .selected) s body B post)
    (hB : ∀ d s', C.Later s s' → A d s' → B d s') (hpost : ∀ s', C.Later s s' → post reply s') :
    Handles C E A s (do if (← get).state ≠ .selected then return reply else body) B post := by
  refine Triple.get_bind fun d => ?_
  by_cases hstate : d.state = .selected
  · rw [if_neg (not_not_intro hstate)]
    refine hbody.pre ?_
    rintro d' s' - ⟨rfl, ha⟩
    exact ⟨ha, hstate⟩
  · rw [if_pos hstate]
    rintro d' s' hs ⟨rfl, ha⟩
    exact ⟨hB d' s' hs ha, hpost s' hs⟩

end Handles

/-! ## The messages of the selected mailbox -/

/-- The assertion holds, and the session has a mailbox selected. -/
def Selected (E : Dispatcher → DB → Prop) (d : Dispatcher) (s : DB) : Prop :=
  E d s ∧ d.state = .selected

/-- An assertion that is quiet is so for a session with a mailbox. -/
theorem Quiet.selected (hE : Quiet C E E) : Quiet C E (Selected E) where
  stable d s s' hl h := ⟨hE.stable d s s' hl h.1, h.2⟩
  lastError d e s h := ⟨hE.lastError d e s h.1, h.2⟩
  throws _ _ h := h.1

/-- What is known of the id of the selected mailbox, and of the messages that are found in it. -/
structure Lists (C : Contract DB Write) (E : Dispatcher → DB → Prop) (mailbox : ℤ → DB → Prop)
    (mail : Message → DB → Prop) : Prop where
  quiet : Quiet C E E
  mailboxID : ∀ s, Handles C E (Selected E) s mailboxID (Selected E) mailbox
  findByFolder : ∀ s id, mailbox id s →
    Spec store C s (MessageRepository.findByFolder id) fun l s' => ∀ m ∈ l, mail m s'
  findByUID : ∀ s id uid, mailbox id s →
    Spec store C s (MessageRepository.findByUID id uid) fun o s' => ∀ m, o = some m → mail m s'
  stable : ∀ m s s', C.Later s s' → mail m s → mail m s'
  id : ∀ m s, mail m s → ∃ id, m.id = some id

namespace Lists

variable {mailbox : ℤ → DB → Prop} {mail : Message → DB → Prop}

/-- A part of a handler that leaves the mailbox selected. -/
abbrev Walks (C : Contract DB Write) (E : Dispatcher → DB → Prop) (s : DB) (h : HandlerM α) :
    Prop :=
  Handles C E (Selected E) s h (Selected E) fun _ _ => True

theorem walks_pure {a : α} : Walks C E s (pure a) := Triple.pure fun _ _ => trivial

theorem sequenceSet (hL : Lists C E mailbox mail) (t : Bytes) (maxValue : ℤ) :
    Walks C E s (Imap.sequenceSet t maxValue) :=
  Handles.sequenceSet hL.quiet.selected t maxValue

variable [C.Lawful]

theorem arg (hL : Lists C E mailbox mail) (cmd : ImapCommand) (i : ℕ) :
    Walks C E s (Imap.arg cmd i) :=
  (Handles.arg hL.quiet.selected cmd i).post_mono fun _ _ _ _ => trivial

theorem attempt (hL : Lists C E mailbox mail) {p : DbM (Result α)}
    (hp : Spec store C s p fun _ _ => True) : Walks C E s (Imap.attempt p) :=
  (Handles.attempt hL.quiet.selected (fun _ _ _ _ h => h) hp).post_mono fun _ _ _ _ => trivial

/-- A handler of the selected mailbox. -/
theorem guarded {reply : α} {body : HandlerM α}
    (h : Handles C E (Selected E) s body E fun _ _ => True) :
    Handles C E E s (do if (← get).state ≠ .selected then return reply else body) E
      fun _ _ => True :=
  Handles.guarded h (fun _ _ _ h => h) fun _ _ => trivial

/-- It may leave the mailbox selected. -/
theorem leave {h : HandlerM α} (hh : Walks C E s h) :
    Handles C E (Selected E) s h E fun _ _ => True :=
  hh.conseq (fun _ _ _ h => h) (fun _ _ _ h => h.1) fun _ _ _ h => h

/-- The body of a handler, and the `catch` clauses that reply. -/
theorem catching {body : HandlerM α} {handler : Exn → HandlerM α} (hbody : Walks C E s body)
    (hhandler : ∀ e s₁, Handles C E E s₁ (handler e) E fun _ _ => True) :
    Handles C E (Selected E) s (Imap.catching body handler) E fun _ _ => True :=
  Handles.catching (leave hbody) fun e s₁ _ => hhandler e s₁

/-- The messages of the mailbox. -/
theorem messages (hL : Lists C E mailbox mail) {k : List Message → HandlerM α}
    (hk : ∀ s₁ l, C.Later s s₁ → (∀ m ∈ l, mail m s₁) → Walks C E s₁ (k l)) :
    Walks C E s (do k (← ask (MessageRepository.findByFolder (← Imap.mailboxID)))) := by
  refine (hL.mailboxID s).bind fun id s₁ h₁ hid => ?_
  exact (Handles.ask hL.quiet.selected (hL.findByFolder s₁ id hid)).bind
    fun l s₂ h₂ hl => hk s₂ l (h₁.trans h₂) hl

/-- The message with a uid. -/
theorem message (hL : Lists C E mailbox mail) {uid : ℤ} {k : Option Message → HandlerM α}
    (hnone : ∀ s₁, C.Later s s₁ → Walks C E s₁ (k none))
    (hsome : ∀ s₁ m, C.Later s s₁ → mail m s₁ → Walks C E s₁ (k (some m))) :
    Walks C E s (do k (← ask (MessageRepository.findByUID (← Imap.mailboxID) uid))) := by
  refine (hL.mailboxID s).bind fun id s₁ h₁ hid => ?_
  refine (Handles.ask hL.quiet.selected (hL.findByUID s₁ id uid hid)).bind fun o s₂ h₂ ho => ?_
  cases o with
  | none => exact hnone s₂ (h₁.trans h₂)
  | some m => exact hsome s₂ m (h₁.trans h₂) (ho m rfl)

section Store

variable (hL : Lists C E mailbox mail)
  (hset : ∀ s m id flags, mail m s → m.id = some id →
    Spec store C s (MessageRepository.setFlags id flags) fun _ _ => True)
  (hfind : ∀ s m id, mail m s → m.id = some id →
    Spec store C s (MessageRepository.findByID id) fun _ _ => True)

include hL hset hfind

/-- A message of the mailbox gets its flags. -/
theorem storeOne {item : Bytes} {rawFlags : List Bytes} {report : Message → Bytes} {msg : Message}
    (hmsg : mail msg s) : Walks C E s (storeOne item rawFlags report msg) := by
  obtain ⟨id, hid⟩ := hL.id msg s hmsg
  refine (Handles.value hid).bind fun x s₁ h₁ hx => ?_
  rw [hx]
  refine (hL.attempt (hset s₁ msg id _ (hL.stable _ _ _ h₁ hmsg) hid)).bind fun o s₂ h₂ _ => ?_
  cases o with
  | none => exact walks_pure
  | some a =>
    refine Triple.ite walks_pure ((Handles.value hid).bind fun x s₃ h₃ hx => ?_)
    rw [hx]
    have hmsg₃ := hL.stable _ _ _ ((h₁.trans h₂).trans h₃) hmsg
    refine (Handles.ask hL.quiet.selected (hfind s₃ msg id hmsg₃ hid)).bind fun o s₄ _ _ => ?_
    cases o with
    | none => exact walks_pure
    | some updated => exact walks_pure

/-- `STORE` walks the messages it selects on the page. -/
theorem handleStore (cmd : ImapCommand) :
    Handles C E E s (handleStore cmd) E fun _ _ => True := by
  refine guarded (Triple.ite (leave walks_pure) ?_)
  refine catching ?_ fun _ _ => Triple.pure fun _ _ => trivial
  refine (hL.arg cmd 2).bind fun flags s₁ _ _ => ?_
  dsimp only
  split
  · exact walks_pure
  · refine (hL.arg cmd 1).bind fun item s₂ _ _ => ?_
    refine hL.messages fun s₃ l _ hl => ?_
    refine (hL.arg cmd 0).bind fun set s₄ h₄ _ => ?_
    refine (hL.sequenceSet _ _).bind fun ids s₅ h₅ _ => ?_
    refine Triple.bind (Triple.mapM fun n _ s₆ h₆ => ?_) fun _ _ _ _ => walks_pure
    split
    · exact walks_pure
    · rename_i msg hmsg
      split_ifs at hmsg
      have hmail := hl msg (List.mem_of_getElem? hmsg)
      exact hL.storeOne hset hfind (hL.stable _ _ _ ((h₄.trans h₅).trans h₆) hmail)

/-- `UID STORE` walks the messages it finds by their uids. -/
theorem handleUidStore (cmd : ImapCommand) :
    Handles C E E s (handleUidStore cmd) E fun _ _ => True := by
  refine guarded (Triple.ite (leave walks_pure) ?_)
  refine catching ?_ fun _ _ => Triple.pure fun _ _ => trivial
  refine (hL.arg cmd 2).bind fun flags s₁ _ _ => ?_
  dsimp only
  split
  · exact walks_pure
  · refine (hL.arg cmd 1).bind fun item s₂ _ _ => ?_
    refine (hL.arg cmd 0).bind fun set s₃ _ _ => ?_
    refine (hL.sequenceSet _ _).bind fun uids s₄ _ _ => ?_
    refine Triple.bind (Triple.mapM fun p _ s₅ _ => ?_) fun _ _ _ _ => walks_pure
    exact hL.message (fun _ _ => walks_pure) fun s₆ msg _ hmsg => hL.storeOne hset hfind hmsg

end Store

section Expunge

variable (hL : Lists C E mailbox mail)
  (hdelete : ∀ s m id, mail m s → m.flags.deleted = true → m.id = some id →
    Spec store C s (MessageRepository.hardDelete id) fun _ _ => True)

include hL hdelete

/-- The walk of an `EXPUNGE` over its list. -/
theorem expungeAll :
    ∀ {l : List (Message × ℕ)} {s : DB}, (∀ p ∈ l, mail p.1 s ∧ p.1.flags.deleted = true) →
      Walks C E s (expungeAll l)
  | [], _, _ => walks_pure
  | p :: l, s, hl => by
      obtain ⟨hp, hl⟩ := List.forall_mem_cons.mp hl
      obtain ⟨id, hid⟩ := hL.id p.1 s hp.1
      refine (Handles.value hid).bind fun x s₁ h₁ hx => ?_
      rw [hx]
      have hspec := hdelete s₁ p.1 id (hL.stable _ _ _ h₁ hp.1) hp.2 hid
      refine (hL.attempt hspec).bind fun o s₂ h₂ _ => ?_
      refine Triple.bind (expungeAll fun q hq => ?_) fun _ _ _ _ => walks_pure
      exact ⟨hL.stable _ _ _ (h₁.trans h₂) (hl q hq).1, (hl q hq).2⟩

/-- `EXPUNGE` walks the messages of the page that are marked deleted. -/
theorem handleExpunge (cmd : ImapCommand) :
    Handles C E E s (handleExpunge cmd) E fun _ _ => True := by
  refine guarded (leave (Triple.ite walks_pure ?_))
  refine hL.messages fun s₁ l _ hl => ?_
  refine Triple.bind (hL.expungeAll hdelete fun p hp => ?_) fun _ _ _ _ => walks_pure
  obtain ⟨hmem, hdeleted⟩ := List.mem_filter.mp (List.mem_reverse.mp hp)
  exact ⟨hl p.1 (List.fst_mem_of_mem_zipIdx hmem), hdeleted⟩

end Expunge

end Lists

end MailStack.Imap
