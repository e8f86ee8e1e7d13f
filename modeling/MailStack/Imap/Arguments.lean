import MailStack.Imap.FetchLine
import MailStack.Imap.Items
import MailStack.Imap.Walk
import MailStack.Machinery.Faults

/-!
# Imap/Arguments — the arguments that a handler reads

Every handler compares the number of its arguments before it reads one, and for all of them but the
two `FETCH` handlers that is enough (`supplied_dispatch`).  These compare with two, and the branch
for `BODY[HEADER.FIELDS]` reads a third, inside a loop over the items of a loop over the messages:
it is reached unless another item, or another message, makes an exception before.
`readsPresent_iff` says when it is not.
-/

open Bytes

namespace MailStack.Imap

open Store Prog ImapResponse

/-! ## Handlers that read no argument their command lacks -/

/-- Whatever it reads of the database and however its writes are answered. -/
def Supplied {α : Type} (h : HandlerM α) : Prop :=
  ∀ d, (h.run.run d).Results fun r => ∀ i, r.1 ≠ .error (.missing i)

namespace Supplied

variable {α γ : Type} {h : HandlerM α}

/-- Arguments are there in both parts. -/
theorem bind {f : α → HandlerM γ} (hh : Supplied h) (hf : ∀ a, Supplied (f a)) :
    Supplied (h >>= f) := by
  refine fun d => Results.bind (fun r hr => ?_) (hh d)
  obtain ⟨r, d₁⟩ := r
  cases r with
  | ok a => exact hf a d₁
  | error e => exact fun i he => hr i (congrArg Except.error (Except.error.inj he))

theorem lift (p : DbM α) : Supplied (ask p) := by
  intro d
  have hlift : ((StateT.lift p : StateT Dispatcher _ α).run d).Results fun r =>
      ∀ i, (Except.ok r.1 : Except Stop α) ≠ .error (.missing i) :=
    results_of_forall (fun r i => nofun) _
  exact Results.bind (fun r hr => hr) hlift

theorem catching {c : Exn → HandlerM α} (hh : Supplied h) (hc : ∀ e, Supplied (c e)) :
    Supplied (catching h c) := by
  refine fun d => Results.bind (fun r hr => ?_) (hh d)
  obtain ⟨r, d₁⟩ := r
  match r with
  | .ok a => exact fun i => nofun
  | .error (.throw e) => exact hc e d₁
  | .error .undefined => exact fun i => nofun
  | .error (.missing i) => exact absurd rfl (hr i)

end Supplied

/-- What has its arguments is composed of parts that have them. -/
theorem composes_supplied : Composes (fun _ => True) fun _ h => Supplied h where
  pure _ _ _ := nofun
  throw _ _ _ := nofun
  undefined _ _ := nofun
  get _ _ := nofun
  lastError _ _ _ := nofun
  badAccess _ _ := nofun
  ask _ := Supplied.lift _
  bind := Supplied.bind
  catching := Supplied.catching

/-- **Every handler's guard is enough**, if the commands that fetch have a third argument. -/
theorem supplied_dispatch (S : Services) (cmd : ImapCommand)
    (hfetch : cmd.type = .fetch ∨ cmd.type = .uidFetch → 2 < cmd.args.length) :
    Supplied (dispatch S cmd) := by
  have hP := composes_supplied
  have hrows : Composes KeepsRows fun _ h => Supplied h := hP.mono fun _ _ => trivial
  have hmodify : ∀ g : Dispatcher → Dispatcher, Supplied (modify g) := fun _ _ _ => nofun
  obtain ⟨tag, type, args⟩ := cmd
  cases type with
  | login => exact hrows.handleLogin hmodify S _
  | logout | capability | noop | unknown => exact hP.pure _
  | startTLS => exact hP.ite (hP.pure _) (hP.pure _)
  | select => exact hrows.handleSelect hmodify (fun _ => trivial) _
  | list | lsub => exact hrows.handleListing _ _ _ _
  | status => exact hrows.handleStatus _
  | fetch => exact hrows.handleFetch S (hP.arg (hfetch (.inl rfl)))
  | store => exact hrows.handleStore Standing.keepsRows _
  | create => exact hrows.handleCreate Standing.keepsRows _
  | delete => exact hP.handleDelete (fun _ => trivial) _
  | rename => exact hP.handleRename _
  | copy => exact hrows.handleCopy hrows.attempt_copy _
  | expunge => exact hrows.handleExpunge Standing.keepsRows _
  | uidFetch => exact hrows.handleUidFetch S (hP.arg (hfetch (.inr rfl)))
  | uidStore => exact hrows.handleUidStore Standing.keepsRows _
  | uidCopy => exact hrows.handleUidCopy hrows.attempt_copy _
  | subscribe | unsubscribe => exact hrows.handleSubscription Standing.keepsRows _ _ _
  | close => exact hrows.handleClose hmodify (fun _ => trivial) _
  | check => exact hP.whenSelected (hP.pure _)

/-! ## Handlers that only read -/

/-- What only reads is composed of parts that only read. -/
theorem composes_reads : Composes (fun _ => False) fun _ h => Emits (fun _ : Write => False) h where
  pure _ := Emits.pure
  throw _ := Emits.throw
  undefined := Emits.throw
  get := fun _ => trivial
  lastError _ := Emits.modify
  badAccess := Emits.modify
  ask := Emits.lift
  bind := Emits.bind
  catching hbody hhandler := Emits.tryCatch hbody fun e => match e with
    | .throw e => hhandler e
    | .undefined => Emits.throw
    | .missing _ => Emits.throw

theorem reads_arg (cmd : ImapCommand) (i : ℕ) : Emits (fun _ : Write => False) (arg cmd i) := by
  unfold arg
  split
  · exact Emits.pure
  · exact Emits.throw

/-! ## Where a handler misses an argument -/

/-- Served alone, the handler reads an argument that its command does not have. -/
def Misses {α : Type} (h : HandlerM α) (d : Dispatcher) (db : DB) : Prop :=
  ∃ i d' db', Stops h d db (.missing i) d' db'

/-- Served alone, the handler returns and changes nothing if `b`, and stops if not. -/
def Resolves {α : Type} (h : HandlerM α) (d : Dispatcher) (db : DB) (b : Bool) : Prop :=
  match b with
  | true => ∃ a, Serves h d db a d db
  | false => ∃ e d' db', Stops h d db e d' db'

section Rules

variable {α γ : Type} {h : HandlerM α} {f : α → HandlerM γ} {a : α} {d d₁ : Dispatcher}
  {db db₁ : DB} {b b' : Bool}

/-- Where the arguments are there, none is missed. -/
theorem Supplied.not_misses (hh : Supplied h) : ¬ Misses h d db := by
  rintro ⟨i, d', db', hs⟩
  have hr := Results.run store (hh d) db
  have hs' : Prog.run store (h.run.run d) db = (db', .error (.missing i), d') := hs
  rw [hs'] at hr
  exact hr i rfl

namespace Misses

/-- A handler that serves missed no argument. -/
theorem of_serves (hs : Serves h d db a d₁ db₁) : ¬ Misses h d db := by
  rintro ⟨i, d', db', ht⟩
  exact ht.not_serves hs

/-- After a part that returns, it is the rest that matters. -/
theorem bind_iff (hs : Serves h d db a d₁ db₁) : Misses (h >>= f) d db ↔ Misses (f a) d₁ db₁ := by
  simp only [Misses, Stops, hs.serve_bind f]

/-- After a part that stops, it is that part. -/
theorem bind_iff_of_stops {e : Stop} (ht : Stops h d db e d₁ db₁) :
    Misses (h >>= f) d db ↔ Misses h d db := by
  have hbind : serve (h >>= f) d db = (db₁, .error e, d₁) := ht.bind f
  have hstop : serve h d db = (db₁, .error e, d₁) := ht
  simp only [Misses, Stops, hbind, hstop, Prod.mk.injEq, Except.error.injEq]

/-- A function of the answer misses no argument. -/
theorem bind_pure_iff {g : α → γ} : Misses (h >>= fun a => pure (g a)) d db ↔ Misses h d db := by
  match hr : serve h d db with
  | (db₁, .ok a, d₁) =>
    have hs : Serves h d db a d₁ db₁ := hr
    rw [bind_iff hs]
    exact iff_of_false (of_serves (.pure _)) (of_serves hs)
  | (db₁, .error e, d₁) => exact bind_iff_of_stops (show Stops h d db e d₁ db₁ from hr)

/-- No exception is a missing argument. -/
theorem catching_iff {c : Exn → HandlerM α} (hc : ∀ x, Supplied (c x)) :
    Misses (catching h c) d db ↔ Misses h d db := by
  match hr : serve h d db with
  | (db₁, .ok a, d₁) =>
    have hs : Serves h d db a d₁ db₁ := hr
    exact iff_of_false (of_serves hs.catching) (of_serves hs)
  | (db₁, .error (.throw x), d₁) =>
    have hstop : serve h d db = (db₁, .error (.throw x), d₁) := hr
    refine iff_of_false ?_ ?_
    · rintro ⟨i, d', db', ht⟩
      have hrun : serve (catching h c) d db = serve (c x) d₁ db₁ := by
        have hrun : serve (catching h c) d db = _ := run_bind store _ (h.run.run d) db
        have ht' : Prog.run store (h.run.run d) db = (db₁, .error (.throw x), d₁) := hr
        rw [hrun, ht']
        rfl
      exact (hc x).not_misses ⟨i, d', db', hrun.symm.trans ht⟩
    · rintro ⟨i, d', db', ht⟩
      exact nomatch (Prod.mk.inj (Prod.mk.inj (hstop.symm.trans ht)).2).1
  | (db₁, .error .undefined, d₁) =>
    have hstop : Stops h d db .undefined d₁ db₁ := hr
    refine iff_of_false ?_ ?_
    · rintro ⟨i, d', db', ht⟩
      exact nomatch (Prod.mk.inj (Prod.mk.inj ((hstop.uncaught nofun).symm.trans ht)).2).1
    · rintro ⟨i, d', db', ht⟩
      exact nomatch (Prod.mk.inj (Prod.mk.inj (hstop.symm.trans ht)).2).1
  | (db₁, .error (.missing i), d₁) =>
    have hstop : Stops h d db (.missing i) d₁ db₁ := hr
    exact iff_of_true ⟨i, d₁, db₁, hstop.uncaught nofun⟩ ⟨i, d₁, db₁, hstop⟩

end Misses

namespace Resolves

theorem pure (a : α) : Resolves (pure a) d db true := ⟨a, .pure a⟩

theorem throw (e : Stop) : Resolves (throw e : HandlerM α) d db false := ⟨e, d, db, rfl⟩

theorem orThrow (r : Except Exn α) : Resolves (orThrow r) d db r.isOk := by
  cases r with
  | ok a => exact pure a
  | error e => exact throw _

/-- Both parts have to come to an end, the second after each answer of the first. -/
theorem bind (hh : Resolves h d db b) (hf : ∀ a, Serves h d db a d db → Resolves (f a) d db b') :
    Resolves (h >>= f) d db (b && b') := by
  cases b with
  | true =>
    obtain ⟨a, hs⟩ := hh
    cases b' with
    | true =>
      obtain ⟨c, ht⟩ := hf a hs
      exact ⟨c, hs.bind ht⟩
    | false =>
      obtain ⟨e, d', db', ht⟩ := hf a hs
      exact ⟨e, d', db', .of_bind hs ht⟩
  | false =>
    obtain ⟨e, d', db', ht⟩ := hh
    exact ⟨e, d', db', ht.bind f⟩

/-- After a part that returns and changes nothing. -/
theorem of_serves (hs : Serves h d db a d db) (hf : Resolves (f a) d db b) :
    Resolves (h >>= f) d db b := by
  rw [← Bool.true_and b]
  refine bind (b := true) ⟨a, hs⟩ fun a' hs' => ?_
  rwa [hs'.unique hs]

theorem bind_pure {g : α → γ} (hh : Resolves h d db b) :
    Resolves (h >>= fun a => Pure.pure (g a)) d db b := by
  rw [← Bool.and_true b]
  exact hh.bind fun a _ => pure (g a)

theorem ite {c : Prop} [Decidable c] {h' : HandlerM α} (hh : Resolves h d db b)
    (hh' : Resolves h' d db b') :
    Resolves (if c then h else h') d db (if c then b else b') := by
  split_ifs
  · exact hh
  · exact hh'

variable {δ : Type} {g : δ → HandlerM α} {c : δ → Bool}

/-- A list is walked to its end if each of its elements is printed. -/
theorem mapM (hg : ∀ x, Resolves (g x) d db (c x)) :
    ∀ l : List δ, Resolves (l.mapM g) d db (l.all c)
  | [] => by
      rw [List.mapM_nil]
      exact pure []
  | x :: l => by
      rw [List.mapM_cons, List.all_cons]
      exact (hg x).bind fun a _ => (mapM hg l).bind_pure

/-- **A loop misses an argument where the first element that stops it does.** -/
theorem misses_mapM (hg : ∀ x, Resolves (g x) d db (c x)) :
    ∀ l : List δ, Misses (l.mapM g) d db ↔ ∃ x, l.find? (fun x => !c x) = some x ∧ Misses (g x) d db
  | [] => by
      rw [List.mapM_nil]
      exact iff_of_false (Misses.of_serves (.pure [])) (by simp)
  | x :: l => by
      have hx := hg x
      rw [List.mapM_cons, List.find?_cons]
      cases hc : c x with
      | true =>
        rw [hc] at hx
        obtain ⟨a, hs⟩ := hx
        rw [Misses.bind_iff hs, Misses.bind_pure_iff, misses_mapM hg l]
        rfl
      | false =>
        rw [hc] at hx
        obtain ⟨e, d', db', ht⟩ := hx
        rw [Misses.bind_iff_of_stops ht]
        simp

end Resolves

end Rules

/-! ## The items of a `FETCH` with two arguments -/

/-- The items whose branch reads the third argument. -/
def NamesFields (item : Bytes) : Prop :=
  item = lit "BODY[HEADER.FIELDS]" ∨ item = lit "BODY.PEEK[HEADER.FIELDS]"

instance : DecidablePred NamesFields := fun _ => inferInstanceAs (Decidable (_ ∨ _))

/-- The section that the item names can be read. -/
def readsSection (S : Services) (start item : Bytes) (msg : Message) : Bool :=
  (cut ']'.toUInt8 (item.drop start.length)).any fun p => (S.getBodySection msg p.1).isOk

/-- The item can be printed of the message, by a command of two arguments. -/
def prints (S : Services) (db : DB) (msg : Message) (item : Bytes) : Bool :=
  if item = lit "FLAGS" then true
  else if item = lit "INTERNALDATE" then (S.dateToIMAPInternal msg.content.internalDate).isOk
  else if item = lit "RFC822.SIZE" then true
  else if item = lit "ENVELOPE" then
    (S.getParsedEmail msg).toOption.any fun email => msg.id.any fun id =>
      (S.buildEnvelope msg email (RecipientDAL.findByMessage db id)).isOk
  else if item = lit "BODY[]" ∨ item = lit "RFC822" ∨ item = lit "RFC822.TEXT" then true
  else if item = lit "RFC822.HEADER" then
    (S.getParsedEmail msg).toOption.any fun email => email.isSome || msg.id.isSome
  else if item = lit "BODYSTRUCTURE" then (S.buildBodystructure msg).isOk
  else if item = lit "BODY" then (S.buildBodystructure msg).isOk
  else if item = lit "BODY[HEADER.FIELDS]" ∨ item = lit "BODY.PEEK[HEADER.FIELDS]" then false
  else if (lit "BODY.PEEK[").isPrefixOf item then readsSection S (lit "BODY.PEEK[") item msg
  else if (lit "BODY[").isPrefixOf item then readsSection S (lit "BODY[") item msg
  else if item = lit "UID" then true
  else false

section Items

variable {S : Services} {cmd : ImapCommand} {d : Dispatcher} {db : DB} {m : Message} {item : Bytes}

/-- The header of a message is printed if its file is read, or it has an id. -/
theorem resolves_rfc822Header (S : Services) (d : Dispatcher) (db : DB) (m : Message) :
    Resolves (rfc822Header S m) d db
      ((S.getParsedEmail m).toOption.any fun email => email.isSome || m.id.isSome) := by
  rw [rfc822Header]
  cases hparsed : S.getParsedEmail m with
  | error e => exact ⟨.throw e, d, db, rfl⟩
  | ok email =>
    cases email with
    | some email => exact ⟨_, rfl⟩
    | none =>
      cases hid : m.id with
      | none => exact ⟨_, _, _, rfl⟩
      | some id => exact ⟨_, rfl⟩

theorem resolves_envelope (S : Services) (d : Dispatcher) (db : DB) (m : Message) :
    Resolves (do
      let email ← orThrow (S.getParsedEmail m)
      let recipients ← ask (MessageRepository.findRecipientsByMessage (← value m.id))
      return lit "ENVELOPE " ++ (← orThrow (S.buildEnvelope m email recipients)) ++ lit " ") d db
      ((S.getParsedEmail m).toOption.any fun email => m.id.any fun id =>
        (S.buildEnvelope m email (RecipientDAL.findByMessage db id)).isOk) := by
  cases hparsed : S.getParsedEmail m with
  | error e => exact ⟨.throw e, d, db, rfl⟩
  | ok email =>
    cases hid : m.id with
    | none => exact ⟨_, _, _, rfl⟩
    | some id =>
      have hread : Serves (ask (MessageRepository.findRecipientsByMessage id)) d db
          (RecipientDAL.findByMessage db id) d db := .ask _
      have hbuild : Resolves (orThrow (S.buildEnvelope m email (RecipientDAL.findByMessage db id)))
          d db _ := .orThrow _
      exact .of_serves (.pure email) (.of_serves (.pure id) (.of_serves hread hbuild.bind_pure))

/-- A section is printed if it can be read. -/
theorem resolves_bodySection (S : Services) (d : Dispatcher) (db : DB) (start item : Bytes)
    (m : Message) : Resolves (bodySection S start item m) d db (readsSection S start item m) := by
  rw [bodySection, readsSection]
  cases cut ']'.toUInt8 (item.drop start.length) with
  | none => exact .throw _
  | some p => exact (Resolves.orThrow _).bind_pure

/-- With two arguments a list of header fields stops at the missing third. -/
theorem stops_headerFields (S : Services) (hargs : cmd.args.length = 2) (d : Dispatcher) (db : DB)
    (m : Message) (item : Bytes) : ∃ e, Stops (headerFields S cmd item m) d db e d db ∧
      ((∃ i, e = .missing i) ↔ S.getBodyContent m ≠ []) := by
  rw [headerFields]
  by_cases hraw : S.getBodyContent m = []
  · rw [if_pos hraw]
    exact ⟨_, rfl, iff_of_false (by rintro ⟨i, hi⟩; cases hi) (not_not_intro hraw)⟩
  · have harg : Stops (arg cmd 2) d db (.missing 2) d db := by
      rw [arg, List.getElem?_eq_none (Nat.le_of_eq hargs)]
      rfl
    rw [if_neg hraw]
    exact ⟨_, harg.bind _, iff_of_true ⟨2, rfl⟩ hraw⟩

/-- **An item is printed, or stops the handler.** -/
theorem resolves_fetchItem (S : Services) (hargs : cmd.args.length = 2) (d : Dispatcher) (db : DB)
    (m : Message) (item : Bytes) :
    Resolves (fetchItem S cmd m item) d db (prints S db m item) := by
  obtain ⟨e, hfields, -⟩ := stops_headerFields S hargs d db m item
  refine .ite (.pure _) <| .ite (Resolves.orThrow _).bind_pure <| .ite (.pure _) <|
    .ite (resolves_envelope S d db m) <| .ite (.pure _) <|
    .ite (resolves_rfc822Header S d db m).bind_pure <| .ite (Resolves.orThrow _).bind_pure <|
    .ite (Resolves.orThrow _).bind_pure <| .ite ⟨e, d, db, hfields⟩ <|
    .ite (resolves_bodySection S d db _ item m) <| .ite (resolves_bodySection S d db _ item m) <|
    .ite (.pure _) (.throw _)

/-- Of a list of header fields only its two names are read by `fetchItem`. -/
theorem fetchItem_of_namesFields (S : Services) (cmd : ImapCommand) (m : Message)
    (h : NamesFields item) : fetchItem S cmd m item = headerFields S cmd item m := by
  rcases h with rfl | rfl
  · rfl
  · rfl

/-- **It misses the third argument in the branch that reads it**, if there is a file to read. -/
theorem misses_fetchItem_iff (hargs : cmd.args.length = 2) :
    Misses (fetchItem S cmd m item) d db ↔ NamesFields item ∧ S.getBodyContent m ≠ [] := by
  by_cases hitem : NamesFields item
  · obtain ⟨e, hstop, he⟩ := stops_headerFields S hargs d db m item
    rw [fetchItem_of_namesFields S cmd m hitem, ← he, and_iff_right hitem]
    constructor
    · rintro ⟨i, d', db', ht⟩
      exact ⟨i, Except.error.inj (Prod.mk.inj (Prod.mk.inj (hstop.symm.trans ht)).2).1⟩
    · rintro ⟨i, rfl⟩
      exact ⟨i, d, db, hstop⟩
  · refine iff_of_false (Supplied.not_misses ?_) fun h => hitem h.1
    exact composes_supplied.fetchItem S fun h => absurd h hitem

/-- The line of one message. -/
theorem resolves_fetchData (S : Services) (hargs : cmd.args.length = 2) (d : Dispatcher) (db : DB)
    (start : Bytes) (items : List Bytes) (m : Message) :
    Resolves (fetchData S cmd start items m) d db (items.all (prints S db m)) :=
  (Resolves.mapM (resolves_fetchItem S hargs d db m) items).bind_pure

/-- The first item that is not printed is the one that decides. -/
theorem misses_fetchData_iff (hargs : cmd.args.length = 2) {start : Bytes} {items : List Bytes} :
    Misses (fetchData S cmd start items m) d db ↔
      ∃ item, items.find? (fun item => !prints S db m item) = some item ∧ NamesFields item ∧
        S.getBodyContent m ≠ [] := by
  rw [fetchData, Misses.bind_pure_iff, Resolves.misses_mapM (resolves_fetchItem S hargs d db m)]
  simp only [misses_fetchItem_iff hargs]

end Items

/-! ## Commands -/

/-- The messages whose lines a `FETCH` or a `UID FETCH` prints, in that order. -/
def fetched (cmd : ImapCommand) (db : DB) (inbox : ℤ) : List Message :=
  match cmd.type, cmd.args with
  | .fetch, set :: _ =>
    (parseSequenceSet set (page db inbox).length).toOption.elim []
      (selectMessages (page db inbox))
  | .uidFetch, set :: _ =>
    (parseSequenceSet set int64Max).toOption.elim []
      (List.filterMap (MessageDAL.findByUID db inbox))
  | _, _ => []

/-- The first of the messages that is not printed in full has content, and the first of the items
that is not printed of it names header fields. -/
def FailsAtFields (S : Services) (db : DB) (items : List Bytes) (messages : List Message) : Prop :=
  ∃ m, messages.find? (fun m => !items.all (prints S db m)) = some m ∧
    ∃ item, items.find? (fun item => !prints S db m item) = some item ∧ NamesFields item ∧
      S.getBodyContent m ≠ []

/-- A command of two arguments comes to the names of the header fields. -/
def ComesToFields (S : Services) (cmd : ImapCommand) (d : Dispatcher) (db : DB) : Prop :=
  d.state = .selected ∧ ∃ set list inbox, cmd.args = [set, list] ∧
    d.currentMailbox.id = some inbox ∧
    FailsAtFields S db (fetchItems list) (fetched cmd db inbox)

section Commands

variable {S : Services} {cmd : ImapCommand} {d : Dispatcher} {db : DB} {inbox : ℤ}
  {set list : Bytes}

/-- A set that cannot be read ends the command in another way. -/
theorem misses_sequenceSet {maxValue : ℤ} {e : Stop}
    (hset : parseSequenceSet set maxValue = .error e) :
    ¬ Misses (sequenceSet set maxValue) d db := by
  rintro ⟨i, d', db', ht⟩
  have he := (Prod.mk.inj (Prod.mk.inj ((Stops.sequenceSet hset).symm.trans ht)).2).1
  exact parseSequenceSet_ne_missing set maxValue i (Except.error.inj he ▸ hset)

theorem not_failsAtFields_nil {items : List Bytes} : ¬ FailsAtFields S db items [] := by
  rintro ⟨m, hm, -⟩
  exact nomatch hm

/-- `FETCH` misses an argument where the first message not printed fails at its fields. -/
theorem misses_fetchLines_iff (htype : cmd.type = .fetch) (hargs : cmd.args = [set, list])
    (hinbox : d.currentMailbox.id = some inbox) :
    Misses (fetchLines S cmd) d db ↔
      FailsAtFields S db (fetchItems list) (fetched cmd db inbox) := by
  have hlen : cmd.args.length = 2 := by rw [hargs]; rfl
  have harg₀ : cmd.args[0]? = some set := by rw [hargs]; rfl
  have harg₁ : cmd.args[1]? = some list := by rw [hargs]; rfl
  have hmailbox : Serves mailboxID d db inbox d db := .get_bind (.value hinbox)
  have hpage : Serves (ask (MessageRepository.findByFolder inbox)) d db (page db inbox) d db :=
    serves_findByFolder inbox
  rw [fetchLines, Misses.bind_iff hmailbox, Misses.bind_iff hpage, Misses.bind_iff (.arg harg₀),
    fetched, htype, hargs]
  dsimp only
  cases hset : parseSequenceSet set (page db inbox).length with
  | error e =>
    rw [Misses.bind_iff_of_stops (Stops.sequenceSet hset)]
    exact iff_of_false (misses_sequenceSet hset) not_failsAtFields_nil
  | ok ids =>
    have hzip : ((selectMessages (page db inbox) ids).zip ids).map Prod.fst =
        selectMessages (page db inbox) ids := List.map_fst_zip (List.length_filterMap_le _ _)
    have hline : ∀ p : Message × ℤ, Resolves (do
        return fetch (toSizeT p.2) (← fetchData S cmd (lit "(") (fetchItems list) p.1)) d db
        ((fetchItems list).all (prints S db p.1)) := fun p =>
      (resolves_fetchData S hlen d db (lit "(") (fetchItems list) p.1).bind_pure
    rw [Misses.bind_iff (.sequenceSet hset), Misses.bind_iff (.arg harg₁),
      Resolves.misses_mapM hline, Except.toOption, Option.elim_some, FailsAtFields]
    nth_rewrite 2 [← hzip]
    rw [List.find?_map]
    simp only [Misses.bind_pure_iff, misses_fetchData_iff hlen, Option.map_eq_some_iff]
    constructor
    · rintro ⟨p, hp, h⟩
      exact ⟨p.1, ⟨p, hp, rfl⟩, h⟩
    · rintro ⟨m, ⟨p, hp, rfl⟩, h⟩
      exact ⟨p, hp, h⟩

/-- So does `UID FETCH`. -/
theorem misses_uidFetchLines_iff (htype : cmd.type = .uidFetch) (hargs : cmd.args = [set, list])
    (hinbox : d.currentMailbox.id = some inbox) :
    Misses (uidFetchLines S cmd) d db ↔
      FailsAtFields S db (fetchItems list) (fetched cmd db inbox) := by
  have hlen : cmd.args.length = 2 := by rw [hargs]; rfl
  have harg₀ : cmd.args[0]? = some set := by rw [hargs]; rfl
  have harg₁ : cmd.args[1]? = some list := by rw [hargs]; rfl
  rw [uidFetchLines, Misses.bind_iff (.arg harg₀), fetched, htype, hargs]
  dsimp only
  cases hset : parseSequenceSet set int64Max with
  | error e =>
    rw [Misses.bind_iff_of_stops (Stops.sequenceSet hset)]
    exact iff_of_false (misses_sequenceSet hset) not_failsAtFields_nil
  | ok uids =>
    have hmailbox : Serves mailboxID d db inbox d db := .get_bind (.value hinbox)
    have hpage : Serves (ask (MessageRepository.findByFolder inbox)) d db (page db inbox) d db :=
      serves_findByFolder inbox
    have hfound : ∀ uid, Serves (ask (MessageRepository.findByUID inbox uid)) d db
        (MessageDAL.findByUID db inbox uid) d db := serves_findByUID inbox
    rw [Misses.bind_iff (.sequenceSet hset), Misses.bind_iff hmailbox, Misses.bind_iff hpage,
      Misses.bind_iff (.arg harg₁), Resolves.misses_mapM (c := fun uid =>
        !(MessageDAL.findByUID db inbox uid).any fun m => !(fetchItems list).all (prints S db m))]
    · rw [Except.toOption, Option.elim_some, FailsAtFields, List.find?_filterMap]
      simp only [Bool.not_not, Option.bind_eq_some_iff]
      constructor
      · rintro ⟨uid, huid, hmiss⟩
        have hany := List.find?_some huid
        obtain ⟨m, hm, -⟩ := (Option.any_eq_true _ _).mp hany
        rw [Misses.bind_iff hmailbox, Misses.bind_iff (hfound uid), hm] at hmiss
        exact ⟨m, ⟨uid, huid, hm⟩, (misses_fetchData_iff hlen).mp (Misses.bind_pure_iff.mp hmiss)⟩
      · rintro ⟨m, ⟨uid, huid, hm⟩, hitem⟩
        refine ⟨uid, huid, ?_⟩
        rw [Misses.bind_iff hmailbox, Misses.bind_iff (hfound uid), hm]
        exact Misses.bind_pure_iff.mpr ((misses_fetchData_iff hlen).mpr hitem)
    · intro uid
      refine .of_serves hmailbox (.of_serves (hfound uid) ?_)
      cases MessageDAL.findByUID db inbox uid with
      | none => exact .pure []
      | some m =>
        rw [Option.any_some, Bool.not_not]
        exact (resolves_fetchData S hlen d db _ (fetchItems list) m).bind_pure

/-- What the two handlers have in common: the guards, and a loop over lines. -/
theorem misses_guarded {lines : HandlerM (List Bytes)} {missing done : String}
    (hcatch : ∀ x, Supplied (fetchFailure cmd x)) :
    Misses (whenSelected cmd (if cmd.args.length < 2 then return bad cmd.tag (lit missing)
      else catching (do return (← lines).flatten ++ ok cmd.tag (lit done)) (fetchFailure cmd)))
      d db ↔ d.state = .selected ∧ 2 ≤ cmd.args.length ∧ Misses lines d db := by
  have hget : Serves get d db d d db := rfl
  rw [whenSelected, Misses.bind_iff hget]
  split_ifs with hstate hlen
  · exact iff_of_false (Misses.of_serves (.pure _)) fun h => hstate h.1
  · exact iff_of_false (Misses.of_serves (.pure _)) fun h => by omega
  · rw [Misses.catching_iff hcatch, Misses.bind_pure_iff]
    exact ⟨fun h => ⟨not_not.mp hstate, Nat.le_of_not_lt hlen, h⟩, fun h => h.2.2⟩

/-- Of the handlers that fetch, where the command has two arguments. -/
theorem misses_handler_iff {lines : HandlerM (List Bytes)} (done : String)
    (hsupplied : 2 < cmd.args.length → Supplied (dispatch S cmd))
    (hdispatch : dispatch S cmd = whenSelected cmd
      (if cmd.args.length < 2 then return bad cmd.tag (lit "Missing arguments")
      else catching (do return (← lines).flatten ++ ok cmd.tag (lit done)) (fetchFailure cmd)))
    (hlines : ∀ {set list inbox}, cmd.args = [set, list] → d.currentMailbox.id = some inbox →
      (Misses lines d db ↔ FailsAtFields S db (fetchItems list) (fetched cmd db inbox)))
    (hinbox : ∀ {set list}, cmd.args = [set, list] → Misses lines d db →
      ∃ inbox, d.currentMailbox.id = some inbox) :
    Misses (dispatch S cmd) d db ↔ ComesToFields S cmd d db := by
  by_cases hlong : 2 < cmd.args.length
  · refine iff_of_false (hsupplied hlong).not_misses ?_
    rintro ⟨-, set, list, inbox, hargs, -⟩
    rw [hargs] at hlong
    exact absurd hlong (by simp)
  · rw [hdispatch, misses_guarded (composes_supplied.fetchFailure cmd)]
    constructor
    · rintro ⟨hstate, hlen, hmiss⟩
      obtain ⟨set, list, hargs⟩ := List.length_eq_two.mp (show cmd.args.length = 2 by omega)
      obtain ⟨inbox, hid⟩ := hinbox hargs hmiss
      exact ⟨hstate, set, list, inbox, hargs, hid, (hlines hargs hid).mp hmiss⟩
    · rintro ⟨hstate, set, list, inbox, hargs, hid, hfails⟩
      exact ⟨hstate, by rw [hargs]; rfl, (hlines hargs hid).mpr hfails⟩

/-- Without a mailbox the lines stop at that. -/
theorem mailbox_of_misses {f : ℤ → HandlerM (List Bytes)}
    (h : Misses (mailboxID >>= f) d db) : ∃ inbox, d.currentMailbox.id = some inbox := by
  refine Option.isSome_iff_exists.mp ?_
  by_contra hnone
  have hid : d.currentMailbox.id = none := Option.not_isSome_iff_eq_none.mp hnone
  have hstop : ∃ d', Stops mailboxID d db (.throw .badOptionalAccess) d' db := by
    refine ⟨{ d with badAccess := true }, ?_⟩
    change serve (value d.currentMailbox.id) d db = _
    rw [hid]
    rfl
  obtain ⟨d', ht⟩ := hstop
  rw [Misses.bind_iff_of_stops ht] at h
  exact composes_supplied.mailboxID.not_misses h

/-- **A handler misses an argument only on its way to the names of header fields.** -/
theorem misses_dispatch_iff (S : Services) (cmd : ImapCommand) (d : Dispatcher) (db : DB) :
    Misses (dispatch S cmd) d db ↔ ComesToFields S cmd d db := by
  have hsupplied := supplied_dispatch S cmd
  by_cases htype : cmd.type = .fetch ∨ cmd.type = .uidFetch
  · rcases htype with htype | htype
    · refine misses_handler_iff "Fetch completed" (fun h => hsupplied fun _ => h) ?_
        (fun hargs hid => misses_fetchLines_iff htype hargs hid) fun _ h => mailbox_of_misses h
      rw [dispatch, htype]
      exact handleFetch_eq S cmd
    · refine misses_handler_iff "Uid Fetch completed" (fun h => hsupplied fun _ => h) ?_
        (fun hargs hid => misses_uidFetchLines_iff htype hargs hid) fun hargs h => ?_
      · rw [dispatch, htype]
        exact handleUidFetch_eq S cmd
      · rename_i set list
        have harg₀ : cmd.args[0]? = some set := by rw [hargs]; rfl
        rw [uidFetchLines, Misses.bind_iff (.arg harg₀)] at h
        cases hset : parseSequenceSet set int64Max with
        | error e =>
          rw [Misses.bind_iff_of_stops (Stops.sequenceSet hset)] at h
          exact absurd h (misses_sequenceSet hset)
        | ok uids =>
          rw [Misses.bind_iff (.sequenceSet hset)] at h
          exact mailbox_of_misses h
  · refine iff_of_false (hsupplied fun h => absurd h htype).not_misses ?_
    rintro ⟨-, set, list, inbox, hargs, -, hfails⟩
    have hnone : fetched cmd db inbox = [] := by
      rw [fetched]
      split
      · exact absurd (.inl ‹_›) htype
      · exact absurd (.inr ‹_›) htype
      · rfl
    rw [hnone] at hfails
    exact not_failsAtFields_nil hfails

/-! ## Lines -/

/-- Whatever command the line is parsed to, and whichever writes fail, no run of its handler reads
an argument that the command lacks. -/
def ReadsPresent (S : Services) (line : Bytes) (d : Dispatcher) (db : DB) : Prop :=
  ∀ cmd, Parses line cmd → ∀ ws r d' db',
    Prog.Runs store ((dispatch S cmd).run.run d) db ws (r, d') db' → ∀ i, r ≠ .error (.missing i)

/-- A run that misses an argument is the one without failures: only handlers that read do. -/
theorem exists_runs_iff_misses :
    (∃ ws d' db' i, Prog.Runs store ((dispatch S cmd).run.run d) db ws (.error (.missing i), d') db') ↔
      Misses (dispatch S cmd) d db := by
  have hfetch : Emits (fun _ : Write => False) (dispatch S cmd) →
      ((∃ ws d' db' i, Prog.Runs store ((dispatch S cmd).run.run d) db ws
        (.error (.missing i), d') db') ↔ Misses (dispatch S cmd) d db) := by
    intro hreads
    constructor
    · rintro ⟨ws, d', db', i, hrun⟩
      exact ⟨i, d', db', (runs_iff_of_reads (hreads d)).mp ⟨ws, hrun⟩⟩
    · rintro ⟨i, d', db', hstop⟩
      obtain ⟨ws, hrun⟩ := (runs_iff_of_reads (hreads d)).mpr hstop
      exact ⟨ws, d', db', i, hrun⟩
  by_cases htype : cmd.type = .fetch ∨ cmd.type = .uidFetch
  · refine hfetch ?_
    rcases htype with htype | htype
    · rw [dispatch, htype]
      exact composes_reads.handleFetch S (reads_arg cmd 2)
    · rw [dispatch, htype]
      exact composes_reads.handleUidFetch S (reads_arg cmd 2)
  · have hsupplied := supplied_dispatch S cmd fun h => absurd h htype
    refine iff_of_false ?_ hsupplied.not_misses
    rintro ⟨ws, d', db', i, hrun⟩
    exact (hsupplied d).runs hrun i rfl

/-- A line reads what is present if its command misses no argument. -/
theorem readsPresent_iff_not_misses {line : Bytes} :
    ReadsPresent S line d db ↔ ∀ cmd, Parses line cmd → ¬ Misses (dispatch S cmd) d db := by
  refine forall₂_congr fun cmd _ => ?_
  rw [← exists_runs_iff_misses]
  constructor
  · rintro h ⟨ws, d', db', i, hrun⟩
    exact h ws _ d' db' hrun i rfl
  · rintro h ws r d' db' hrun i rfl
    exact h ⟨ws, d', db', i, hrun⟩

end Commands

end MailStack.Imap
