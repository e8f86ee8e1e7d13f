import MailStack.Imap.Alone

/-!
# Imap/Serve — `COPY` and `STORE` step by step

Served alone, a command that selects messages by their numbers leaves a database that is computed:
`copyRows` after `COPY` and `setRows` after `STORE`.  `copyNth` and `storeNth` are these where one
number addresses one message, as in `COPY n name` and `STORE n +FLAGS (\Deleted)`, and
`copyNth_spec` and `storeNth_spec` say what there is to know about them.
-/

open Bytes

namespace MailStack.Imap

open Store Prog

/-! ## Evaluation -/

section Evaluation

variable {α γ : Type} {a : α} {d d₁ d₂ : Dispatcher} {db db₁ db₂ : DB}

/-- Served alone, the handler returns `a`, and leaves this session and this database. -/
def Serves (h : HandlerM α) (d : Dispatcher) (db : DB) (a : α) (d' : Dispatcher) (db' : DB) :
    Prop :=
  serve h d db = (db', .ok a, d')

namespace Serves

theorem pure (a : α) : Serves (pure a) d db a d db := rfl

theorem bind {h : HandlerM α} {f : α → HandlerM γ} {a : α} {b : γ} (h₁ : Serves h d db a d₁ db₁)
    (h₂ : Serves (f a) d₁ db₁ b d₂ db₂) : Serves (h >>= f) d db b d₂ db₂ := by
  have hrun : serve (h >>= f) d db = _ := run_bind store _ (h.run.run d) db
  have h₁' : Prog.run store (h.run.run d) db = (db₁, .ok a, d₁) := h₁
  rw [Serves, hrun, h₁']
  exact h₂

/-- What follows a handler that returns is served from where it left off. -/
theorem serve_bind {h : HandlerM α} (hs : Serves h d db a d₁ db₁) (f : α → HandlerM γ) :
    serve (h >>= f) d db = serve (f a) d₁ db₁ := by
  have hrun : serve (h >>= f) d db = _ := run_bind store _ (h.run.run d) db
  have hs' : Prog.run store (h.run.run d) db = (db₁, .ok a, d₁) := hs
  rw [hrun, hs']
  rfl

/-- After a first part that serves, what remains decides. -/
theorem bind_iff {h : HandlerM α} (hs : Serves h d db a d₁ db₁) {f : α → HandlerM γ} {b : γ} :
    Serves (h >>= f) d db b d₂ db₂ ↔ Serves (f a) d₁ db₁ b d₂ db₂ := by
  rw [Serves, Serves, hs.serve_bind f]

/-- A sequence that returns went through its first part. -/
theorem of_bind {h : HandlerM α} {f : α → HandlerM γ} {b : γ}
    (hs : Serves (h >>= f) d db b d₂ db₂) :
    ∃ a d₁ db₁, Serves h d db a d₁ db₁ ∧ Serves (f a) d₁ db₁ b d₂ db₂ := by
  have hrun : serve (h >>= f) d db = _ := run_bind store _ (h.run.run d) db
  match hr : Prog.run store (h.run.run d) db with
  | (db₁, .ok a, d₁) => exact ⟨a, d₁, db₁, hr, (bind_iff hr).mp hs⟩
  | (db₁, .error e, d₁) =>
    rw [Serves, hrun, hr] at hs
    exact nomatch (Prod.mk.inj (Prod.mk.inj hs).2).1

/-- A handler has one outcome. -/
theorem unique {h : HandlerM α} {b : α} (hs : Serves h d db a d₁ db₁)
    (hs' : Serves h d db b d₂ db₂) : a = b := by
  have heq := hs.symm.trans hs'
  exact Except.ok.inj (Prod.mk.inj (Prod.mk.inj heq).2).1

theorem pure_iff {b : α} : Serves (Pure.pure a) d db b d₁ db₁ ↔ a = b ∧ d = d₁ ∧ db = db₁ := by
  constructor
  · intro hs
    obtain ⟨hdb, hrest⟩ := Prod.mk.inj hs
    obtain ⟨ha, hd⟩ := Prod.mk.inj hrest
    exact ⟨Except.ok.inj ha, hd, hdb⟩
  · rintro ⟨rfl, rfl, rfl⟩
    exact pure a

/-- A handler whose result is passed on through a function. -/
theorem bind_pure_iff {h : HandlerM α} {g : α → γ} {b : γ} :
    Serves (h >>= fun a => Pure.pure (g a)) d db b d₁ db₁ ↔
      ∃ a, Serves h d db a d₁ db₁ ∧ b = g a := by
  constructor
  · intro hs
    obtain ⟨a, d₂, db₂, h₁, h₂⟩ := hs.of_bind
    obtain ⟨rfl, rfl, rfl⟩ := pure_iff.mp h₂
    exact ⟨a, h₁, rfl⟩
  · rintro ⟨a, h₁, rfl⟩
    exact h₁.bind (pure _)

theorem map {h : HandlerM α} {f : α → γ} {a : α} (hs : Serves h d db a d₁ db₁) :
    Serves (f <$> h) d db (f a) d₁ db₁ := by
  have hrun : serve (f <$> h) d db = _ := run_bind store _ (h.run.run d) db
  have hs' : Prog.run store (h.run.run d) db = (db₁, .ok a, d₁) := hs
  rw [Serves, hrun, hs']
  rfl

theorem serve_get_bind (f : Dispatcher → HandlerM γ) :
    serve (get >>= f) d db = serve (f d) d db := rfl

theorem get_bind {f : Dispatcher → HandlerM γ} {b : γ} (h : Serves (f d) d db b d₁ db₁) :
    Serves (get >>= f) d db b d₁ db₁ := h

/-- A read or a call of the store is what the store makes of it. -/
theorem ask (p : DbM α) : Serves (ask p) d db (run store p db).2 d (run store p db).1 := by
  have hrun : serve (Imap.ask p) d db = _ := run_bind store _ ((StateT.lift p).run d) db
  have hlift : Prog.run store ((StateT.lift p : StateT Dispatcher _ α).run d) db = _ :=
    run_bind store _ p db
  rw [Serves, hrun, hlift]
  rfl

/-- A value that is there is handed on. -/
theorem value {o : Option α} {a : α} (h : o = some a) : Serves (value o) d db a d db := by
  subst h
  rfl

/-- An argument that is there is handed on. -/
theorem arg {cmd : ImapCommand} {i : ℕ} {x : Bytes} (h : cmd.args[i]? = some x) :
    Serves (arg cmd i) d db x d db := by
  rw [Imap.arg, h]
  rfl

/-- A set that can be read gives its numbers. -/
theorem sequenceSet {t : Bytes} {maxValue : ℤ} {l : List ℤ}
    (h : parseSequenceSet t maxValue = .ok l) : Serves (sequenceSet t maxValue) d db l d db := by
  rw [Imap.sequenceSet, h]
  rfl

/-- Nothing is caught where nothing is thrown. -/
theorem catching {h : HandlerM α} {c : Exn → HandlerM α} {a : α} (hs : Serves h d db a d₁ db₁) :
    Serves (catching h c) d db a d₁ db₁ := by
  have hrun : serve (Imap.catching h c) d db = _ := run_bind store _ (h.run.run d) db
  have hs' : Prog.run store (h.run.run d) db = (db₁, .ok a, d₁) := hs
  rw [Serves, hrun, hs']
  rfl

/-- A call that may fail leaves at most its text. -/
theorem attempt (p : DbM (Result α)) (d : Dispatcher) (db : DB) :
    ∃ e, Serves (attempt p) d db (run store p db).2.toOption { d with lastError := e }
      (run store p db).1 := by
  match hr : (run store p db).2 with
  | .ok a =>
    refine ⟨d.lastError, (ask p).bind ?_⟩
    rw [hr]
    exact .pure _
  | .error none =>
    refine ⟨d.lastError, (ask p).bind ?_⟩
    rw [hr]
    exact .pure _
  | .error (some e) =>
    refine ⟨e, (ask p).bind ?_⟩
    rw [hr]
    rfl

end Serves

/-- Served alone, the handler stops with `e`, and leaves this session and this database. -/
def Stops (h : HandlerM α) (d : Dispatcher) (db : DB) (e : Stop) (d' : Dispatcher) (db' : DB) :
    Prop :=
  serve h d db = (db', .error e, d')

namespace Stops

variable {h : HandlerM α} {e : Stop}

/-- A stop later in a sequence is a stop of the sequence. -/
theorem of_bind (hs : Serves h d db a d₁ db₁) {f : α → HandlerM γ}
    (ht : Stops (f a) d₁ db₁ e d₂ db₂) : Stops (h >>= f) d db e d₂ db₂ :=
  (hs.serve_bind f).trans ht

/-- What stops first stops the whole. -/
theorem bind (ht : Stops h d db e d₁ db₁) (f : α → HandlerM γ) :
    Stops (h >>= f) d db e d₁ db₁ := by
  have hrun : serve (h >>= f) d db = _ := run_bind store _ (h.run.run d) db
  have ht' : Prog.run store (h.run.run d) db = (db₁, .error e, d₁) := ht
  rw [Stops, hrun, ht']
  rfl

theorem sequenceSet {t : Bytes} {maxValue : ℤ} (ht : parseSequenceSet t maxValue = .error e) :
    Stops (sequenceSet t maxValue) d db e d db := by
  rw [Imap.sequenceSet, ht]
  rfl

/-- An exception is caught. -/
theorem catching {x : Exn} {c : Exn → HandlerM α} (ht : Stops h d db (.throw x) d₁ db₁)
    (hc : Serves (c x) d₁ db₁ a d₂ db₂) : Serves (catching h c) d db a d₂ db₂ := by
  have hrun : serve (Imap.catching h c) d db = _ := run_bind store _ (h.run.run d) db
  have ht' : Prog.run store (h.run.run d) db = (db₁, .error (.throw x), d₁) := ht
  rw [Serves, hrun, ht']
  exact hc

/-- Undefined behaviour is not. -/
theorem uncaught {c : Exn → HandlerM α} (ht : Stops h d db e d₁ db₁) (he : ∀ x, e ≠ .throw x) :
    Stops (Imap.catching h c) d db e d₁ db₁ := by
  have hrun : serve (Imap.catching h c) d db = _ := run_bind store _ (h.run.run d) db
  have ht' : Prog.run store (h.run.run d) db = (db₁, .error e, d₁) := ht
  rw [Stops, hrun, ht']
  match e with
  | .throw x => exact absurd rfl (he x)
  | .undefined => rfl
  | .missing i => rfl

/-- A handler does not both stop and answer. -/
theorem not_serves (ht : Stops h d db e d₁ db₁) : ¬ Serves h d db a d₂ db₂ := by
  intro hs
  have heq := ht.symm.trans hs
  exact nomatch (Prod.mk.inj (Prod.mk.inj heq).2).1

end Stops

/-- Handlers one after the other, each of which changes nothing. -/
theorem Serves.mapM {δ : Type} {f : δ → HandlerM γ} {g : δ → γ}
    (hf : ∀ x, Serves (f x) d db (g x) d db) :
    ∀ l : List δ, Serves (l.mapM f) d db (l.map g) d db
  | [] => .pure _
  | x :: l => by
      rw [List.mapM_cons]
      exact .bind (hf x) (.bind (Serves.mapM hf l) (.pure _))

/-! ## The messages that numbers select -/

/-- The page of the folder that `findByFolder` lists. -/
def page (db : DB) (folderId : ℤ) : List Message := MessageDAL.findByFolder db folderId 50 0

/-- The session has the mailbox selected. -/
structure Opened (d : Dispatcher) (inbox : ℤ) : Prop where
  state : d.state = .selected
  mailbox : d.currentMailbox.id = some inbox

/-- The message that the number `n` addresses in the mailbox. -/
def nthMessage (db : DB) (inbox n : ℤ) : Option Message :=
  if 0 < toInt n then (MessageDAL.findByFolder db inbox 50 0)[(toInt n - 1).toNat]? else none

variable {u inbox n dest : ℤ} {cmd : ImapCommand} {set name item text : Bytes} {ids : List ℤ}
  {folder : Folder} {m : Message}

/-- A session with a user and a mailbox has the mailbox opened. -/
theorem InMailbox.opened (hd : InMailbox u inbox d db) : Opened d inbox := ⟨hd.1, hd.2.2⟩

theorem serves_findByFolder (id : ℤ) : Serves (ask (MessageRepository.findByFolder id)) d db
    (MessageDAL.findByFolder db id 50 0) d db := .ask _

theorem serves_findByUID (id uid : ℤ) : Serves (ask (MessageRepository.findByUID id uid)) d db
    (MessageDAL.findByUID db id uid) d db := .ask _

/-- The `n`-th message is a row of the mailbox. -/
theorem isRow_nthMessage (h : nthMessage db inbox n = some m) :
    m.folderId = inbox ∧ IsRow db m := by
  rw [nthMessage] at h
  split_ifs at h
  obtain ⟨hfolder, hrow⟩ := of_mem_select (List.mem_of_getElem? h)
  exact ⟨of_decide_eq_true hfolder, hrow⟩

/-- The messages of a list of numbers are those the numbers stand for. -/
theorem selectMessages_page (db : DB) (inbox : ℤ) (ids : List ℤ) :
    selectMessages (page db inbox) ids = ids.filterMap (nthMessage db inbox) := rfl

theorem filterMap_nthMessage_singleton (db : DB) (inbox n : ℤ) :
    [n].filterMap (nthMessage db inbox) = (nthMessage db inbox n).toList := by
  rw [List.filterMap_cons, List.filterMap_nil]
  cases nthMessage db inbox n with
  | none => rfl
  | some m => rfl

theorem selectMessages_singleton (db : DB) (inbox n : ℤ) :
    selectMessages (MessageDAL.findByFolder db inbox 50 0) [n] =
      (nthMessage db inbox n).toList :=
  filterMap_nthMessage_singleton db inbox n

/-! ## `COPY` -/

/-- `copy` of these rows one after the other. -/
def copyRows (db : DB) (folderId : ℤ) (ids : List ℤ) : DB :=
  ids.foldl (fun db id => (run store (MessageRepository.copy id folderId) db).1) db

/-- What `copy` of the addressed message leaves, if there is one. -/
def copyNth (db : DB) (inbox n folderId : ℤ) : DB :=
  match (nthMessage db inbox n).bind (·.id) with
  | some id => (run store (MessageRepository.copy id folderId) db).1
  | none => db

/-- Copying the `n`-th message, as a list of one. -/
theorem copyRows_nthMessage (db : DB) (inbox n folderId : ℤ) :
    copyRows db folderId ((nthMessage db inbox n).toList.filterMap (·.id)) =
      copyNth db inbox n folderId := by
  rw [copyNth]
  cases nthMessage db inbox n with
  | none => rfl
  | some m =>
    rw [Option.toList_some, List.filterMap_cons, List.filterMap_nil, Option.bind_some]
    cases m.id with
    | none => rfl
    | some id => rfl

/-- `copyAll` copies the rows one by one; each copy may leave another error text. -/
theorem serves_copyAll_rows {messages : List Message} (h : ∀ m ∈ messages, m.id.isSome = true) :
    ∀ (e : Bytes) (db : DB), ∃ e', Serves (copyAll (some dest) messages) { d with lastError := e } db
      () { d with lastError := e' } (copyRows db dest (messages.filterMap (·.id))) := by
  induction messages with
  | nil => exact fun e db => ⟨e, .pure ()⟩
  | cons m messages ih =>
    intro e db
    obtain ⟨id, hid⟩ := Option.isSome_iff_exists.mp (h m (List.mem_cons_self ..))
    obtain ⟨e₁, h₁⟩ := Serves.attempt (MessageRepository.copy id dest) { d with lastError := e } db
    obtain ⟨e₂, h₂⟩ := ih (fun m' hm' => h m' (List.mem_cons_of_mem m hm')) e₁
      (run store (MessageRepository.copy id dest) db).1
    rw [List.filterMap_cons_some hid, copyRows, List.foldl_cons]
    exact ⟨e₂, .bind (.value hid) (.bind (.value rfl) (.bind h₁ h₂))⟩

/-- **`COPY`** copies the messages that the numbers select. -/
theorem serves_handleCopySelected (hd : Opened d inbox) (huser : d.authenticatedUserID = some u)
    (hargs : cmd.args = [set, name]) (hfolder : FolderDAL.findByName db u name = some folder)
    (hdest : folder.id = some dest)
    (hset : parseSequenceSet set (page db inbox).length = .ok ids) :
    ∃ e, Serves (handleCopySelected cmd) d db
      (ImapResponse.ok cmd.tag (lit "Copy completed"), ids.filterMap (nthMessage db inbox))
      { d with lastError := e }
      (copyRows db dest ((ids.filterMap (nthMessage db inbox)).filterMap (·.id))) := by
  have hids : ∀ m ∈ ids.filterMap (nthMessage db inbox), m.id.isSome = true := by
    intro m hm
    obtain ⟨n, -, hn⟩ := List.mem_filterMap.mp hm
    obtain ⟨-, id, hid, -⟩ := isRow_nthMessage hn
    rw [hid]
    rfl
  obtain ⟨e, he⟩ : ∃ e, Serves (copyAll (some dest) (ids.filterMap (nthMessage db inbox))) d db ()
      { d with lastError := e } _ := serves_copyAll_rows hids d.lastError db
  refine ⟨e, .get_bind ?_⟩
  rw [if_neg (not_not_intro hd.state), if_neg (by simp [hargs])]
  refine .bind (.get_bind (.value huser)) (.bind (.arg (by rw [hargs]; rfl)) (.bind (.ask _) ?_))
  have hrun : (run store (MessageRepository.findFolderByName u name) db).2 = some folder := hfolder
  rw [hrun]
  refine .catching (.bind (.get_bind (.value hd.mailbox)) (.bind (serves_findByFolder inbox) ?_))
  refine .bind (.arg (by rw [hargs]; rfl)) (.bind (.sequenceSet hset) ?_)
  rw [hdest]
  exact .bind he (.pure _)

/-- Without the folder it fails. -/
theorem serves_handleCopy_none (hd : Opened d inbox) (huser : d.authenticatedUserID = some u)
    (hargs : cmd.args = [set, name]) (hfolder : FolderDAL.findByName db u name = none) :
    Serves (handleCopy cmd) d db (ImapResponse.bad cmd.tag (lit "No such folder")) d db := by
  refine .map (a := (_, [])) (.get_bind ?_)
  rw [if_neg (not_not_intro hd.state), if_neg (by simp [hargs])]
  refine .bind (.get_bind (.value huser)) (.bind (.arg (by rw [hargs]; rfl)) (.bind (.ask _) ?_))
  have hrun : (run store (MessageRepository.findFolderByName u name) db).2 = none := hfolder
  rw [hrun]
  exact .pure _

/-- **`COPY n name`, alone**: it fails for want of the folder, or copies the addressed message. -/
theorem serve_handleCopy (hlo : -2 ^ 63 ≤ n) (hhi : n ≤ int64Max)
    (hargs : cmd.args = [decimal n, name]) (hd : InMailbox u inbox d db) :
    (destination db d cmd = none ∧
      Serves (handleCopy cmd) d db (ImapResponse.bad cmd.tag (lit "No such folder")) d db) ∨
    ∃ folderId e, destination db d cmd = some folderId ∧
      Serves (handleCopy cmd) d db (ImapResponse.ok cmd.tag (lit "Copy completed"))
        { d with lastError := e } (copyNth db inbox n folderId) := by
  have hdest : destination db d cmd = (FolderDAL.findByName db u name).bind (·.id) := by
    simp [destination, hd.2.1, hargs]
  cases hfind : FolderDAL.findByName db u name with
  | none =>
    exact .inl ⟨by rw [hdest, hfind]; rfl, serves_handleCopy_none hd.opened hd.2.1 hargs hfind⟩
  | some folder =>
    obtain ⟨r, -, rfl⟩ := Option.map_eq_some_iff.mp hfind
    obtain ⟨e, he⟩ := serves_handleCopySelected hd.opened hd.2.1 hargs hfind rfl
      (parseSequenceSet_decimal hlo hhi _)
    rw [filterMap_nthMessage_singleton, copyRows_nthMessage] at he
    exact .inr ⟨r.1, e, by rw [hdest, hfind]; rfl, .map he⟩

/-! ## `STORE` -/

/-- Served alone, the handler returns, and leaves this database and a session that differs at most
in `m_last_error`. -/
def Leaves (h : HandlerM α) (d : Dispatcher) (db db' : DB) : Prop :=
  ∃ a e, Serves h d db a { d with lastError := e } db'

namespace Leaves

theorem pure (a : α) : Leaves (pure a) d db db := ⟨a, d.lastError, rfl⟩

theorem bind {h : HandlerM α} {f : α → HandlerM γ} {a : α} {e : Bytes}
    (h₁ : Serves h d db a { d with lastError := e } db₁)
    (h₂ : Leaves (f a) { d with lastError := e } db₁ db₂) : Leaves (h >>= f) d db db₂ := by
  obtain ⟨b, e', h₂⟩ := h₂
  exact ⟨b, e', h₁.bind h₂⟩

theorem get_bind {f : Dispatcher → HandlerM γ} (h : Leaves (f d) d db db₁) :
    Leaves (get >>= f) d db db₁ := h

theorem catching {h : HandlerM α} {c : Exn → HandlerM α} (hs : Leaves h d db db₁) :
    Leaves (catching h c) d db db₁ := by
  obtain ⟨a, e, hs⟩ := hs
  exact ⟨a, e, hs.catching⟩

/-- What follows does nothing more than return. -/
theorem then_pure {h : HandlerM α} {f : α → γ} (h₁ : Leaves h d db db₁) :
    Leaves (h >>= fun a => Pure.pure (f a)) d db db₁ := by
  obtain ⟨a, e, h₁⟩ := h₁
  exact ⟨f a, e, h₁.bind (.pure _)⟩

end Leaves

/-- `setFlags` of these rows one after the other. -/
def setRows (db : DB) (flags : List Bytes) (ids : List ℤ) : DB :=
  ids.foldl (fun db id => (run store (MessageRepository.setFlags id flags) db).1) db

/-- What `setFlags` of the addressed message leaves. -/
def storeNth (db : DB) (inbox n : ℤ) (flags : List Bytes) : DB :=
  match (nthMessage db inbox n).bind (·.id) with
  | some id => (run store (MessageRepository.setFlags id flags) db).1
  | none => db

/-- Setting the flags of the `n`-th message, as a list of one. -/
theorem setRows_nthMessage (db : DB) (inbox n : ℤ) (flags : List Bytes) :
    setRows db flags ((nthMessage db inbox n).toList.filterMap (·.id)) =
      storeNth db inbox n flags := by
  rw [storeNth]
  cases nthMessage db inbox n with
  | none => rfl
  | some m =>
    rw [Option.toList_some, List.filterMap_cons, List.filterMap_nil, Option.bind_some]
    cases m.id with
    | none => rfl
    | some id => rfl

/-- One message of a `STORE` sets the flags of one row. -/
theorem leaves_storeOne {rawFlags : List Bytes} {report : Message → Bytes} {id : ℤ}
    (hid : m.id = some id) :
    Leaves (storeOne item rawFlags report m) d db
      (run store (MessageRepository.setFlags id (flagsToSend item rawFlags)) db).1 := by
  obtain ⟨e, he⟩ := Serves.attempt (MessageRepository.setFlags id (flagsToSend item rawFlags)) d db
  refine .bind (.value hid) (.bind he ?_)
  split
  · exact .pure _
  · split_ifs
    · exact .pure _
    · refine .bind (.value hid) (.bind (.ask _) ?_)
      split
      · exact .pure _
      · exact .pure _

/-- **Updates of the rows that a list gives**, where they are found alike after an update. -/
theorem leaves_each {δ : Type} {f : δ → HandlerM Bytes} {row : δ → Option ℤ} {A : DB → Prop}
    {step : DB → ℤ → DB} (hA : ∀ db id, A db → A (step db id))
    (hf : ∀ x e db, A db →
      Leaves (f x) { d with lastError := e } db ((row x).elim db (step db))) :
    ∀ (l : List δ) (e : Bytes) (db : DB), A db →
      Leaves (l.mapM f) { d with lastError := e } db ((l.filterMap row).foldl step db)
  | [], e, db, _ => .pure _
  | x :: l, e, db, hdb => by
      obtain ⟨t, e₁, hx⟩ := hf x e db hdb
      rw [List.mapM_cons]
      refine .bind (e := e₁) hx ?_
      cases hrow : row x with
      | none =>
        rw [List.filterMap_cons_none hrow]
        exact (leaves_each hA hf l e₁ db hdb).then_pure
      | some id =>
        rw [List.filterMap_cons_some hrow]
        exact (leaves_each hA hf l e₁ _ (hA db id hdb)).then_pure

/-- **`STORE`** updates the messages that the numbers select. -/
theorem leaves_handleStore (hd : Opened d inbox) (hargs : cmd.args = [set, item, text])
    (hknown : unknownFlag (splitArgs (trimParentheses text)) = none)
    (hset : parseSequenceSet set (page db inbox).length = .ok ids) :
    Leaves (handleStore cmd) d db (setRows db
      (flagsToSend item (splitArgs (trimParentheses text)))
      ((ids.filterMap (nthMessage db inbox)).filterMap (·.id))) := by
  refine .get_bind ?_
  rw [if_neg (not_not_intro hd.state), if_neg (by simp [hargs])]
  refine .catching (.bind (.arg (by rw [hargs]; rfl)) ?_)
  simp only [hknown]
  refine .bind (.arg (by rw [hargs]; rfl)) (.bind (.get_bind (.value hd.mailbox)) ?_)
  refine .bind (serves_findByFolder inbox) (.bind (.arg (by rw [hargs]; rfl)) ?_)
  refine .bind (.sequenceSet hset) (Leaves.then_pure ?_)
  rw [setRows, List.filterMap_filterMap]
  refine leaves_each (A := fun _ => True) (fun _ _ h => h) (fun n e db' _ => ?_) ids d.lastError db
    trivial
  rw [← nthMessage]
  cases hn : nthMessage db inbox n with
  | none => exact .pure _
  | some m =>
    obtain ⟨-, id, hid, -⟩ := isRow_nthMessage hn
    rw [Option.bind_some, hid]
    exact leaves_storeOne hid

/-- **`STORE n +FLAGS (\Deleted)`, alone**, flags the addressed message. -/
theorem leaves_handleStore_nth (hlo : -2 ^ 63 ≤ n) (hhi : n ≤ int64Max)
    (hargs : cmd.args = [decimal n, lit "+FLAGS", lit "(\\Deleted)"])
    (hd : InMailbox u inbox d db) :
    Leaves (handleStore cmd) d db (storeNth db inbox n [lit "+\\Deleted"]) := by
  have hflags : flagsToSend (lit "+FLAGS") (splitArgs (trimParentheses (lit "(\\Deleted)"))) =
      [lit "+\\Deleted"] := by decide
  have hset : parseSequenceSet (decimal n) (page db inbox).length = .ok [n] :=
    parseSequenceSet_decimal hlo hhi _
  have hstore := leaves_handleStore hd.opened hargs (by decide) hset
  rwa [hflags, filterMap_nthMessage_singleton, setRows_nthMessage] at hstore

end Evaluation

/-! ## What they leave -/

section Effects

variable {db : DB} {inbox : ℤ}

/-- `setFlags` writes the same flags whatever they were, or writes nothing. -/
theorem run_setFlags (db : DB) (id : ℤ) (flags : List Bytes) :
    (run store (MessageRepository.setFlags id flags) db).1 = db ∨
      ∃ f, (run store (MessageRepository.setFlags id flags) db).1 =
        MessageDAL.setFlags db id fun _ => f := by
  rw [MessageRepository.setFlags, run_bind]
  split
  · exact .inl rfl
  · split
    · exact .inl rfl
    · exact .inr ⟨_, rfl⟩

/-- **Only the addressed message can come to be flagged deleted.** -/
theorem storeNth_spec (db : DB) (inbox n : ℤ) (flags : List Bytes) :
    Evolves inbox db (storeNth db inbox n flags) ∧
      ∀ i m', (storeNth db inbox n flags).messages.get? i = some m' → m'.flags.deleted = true →
        (∃ m, db.messages.get? i = some m ∧ m.flags.deleted = true) ∨
          (nthMessage db inbox n).bind (·.id) = some i := by
  have hsame : Evolves inbox db db ∧ ∀ i m', db.messages.get? i = some m' →
      m'.flags.deleted = true →
      (∃ m, db.messages.get? i = some m ∧ m.flags.deleted = true) ∨
        (nthMessage db inbox n).bind (·.id) = some i :=
    ⟨.refl db, fun i m' hm' hdel => .inl ⟨m', hm', hdel⟩⟩
  unfold storeNth
  split
  · rename_i id hid
    rcases run_setFlags db id flags with h | ⟨f, h⟩
    · rw [h]
      exact hsame
    · rw [h]
      refine ⟨.setFlags db id _, fun i m' hm' hdel => ?_⟩
      rw [MessageDAL.setFlags_messages, Table.get?_modify] at hm'
      split_ifs at hm' with hi
      · exact .inr (by rw [hid, hi])
      · exact .inl ⟨m', hm', hdel⟩
  · exact hsame

/-- **`copy` into a folder whose `next_uid` is free makes the copy.** -/
theorem run_copy {m : Message} {id folderId : ℤ} {f : FolderData} (hfk : ForeignKeys db)
    (hid : m.id = some id) (hm : db.messages.get? id = some m.toMessageData)
    (hf : db.folders.get? folderId = some f)
    (hfree : MessageDAL.taken db none folderId f.nextUid = false) :
    ∃ recipients a, Effect db
      (.copy { m with id := none, folderId, uid := f.nextUid } recipients folderId)
      (run store (MessageRepository.copy id folderId) db).1 a := by
  have hmsg : MessageDAL.findByID db id = some m := by
    rw [MessageDAL.findByID, hm, Option.map_some, MessageDAL.rowToMessage, ← hid]
  have hfolder : FolderDAL.findByID db folderId = some (FolderDAL.rowToFolder folderId f) := by
    rw [FolderDAL.findByID, hf, Option.map_some]
  obtain ⟨⟨db', a⟩, hx⟩ := apply_copy (m := { m with id := none, folderId, uid := f.nextUid })
    hfree (hfk id _ hm).1 (Option.isSome_iff_exists.mpr ⟨f, hf⟩) (RecipientDAL.findByMessage db id)
    folderId
  refine ⟨RecipientDAL.findByMessage db id, a, ?_⟩
  have hrun : (run store (MessageRepository.copy id folderId) db).1 = db' := by
    rw [MessageRepository.copy, MessageRepository.findByID, run_query_bind, hmsg]
    dsimp only
    rw [run_query_bind, hfolder]
    dsimp only
    rw [MessageRepository.findRecipientsByMessage, run_query_bind, run_bind, checked, run_bind,
      run_locked_of_ok hx]
    rfl
  rw [hrun]
  exact Write.effect hx

/-- A row of the folder holds what the message holds. -/
def HasCopy (db : DB) (folderId : ℤ) (m : MessageData) : Prop :=
  ∃ i d, db.messages.get? i = some d ∧ d.folderId = folderId ∧ d.userId = m.userId ∧
    d.content = m.content.bound

/-- A copy in another mailbox outlives changes of this one. -/
theorem HasCopy.evolves {db' : DB} {folderId : ℤ} {m m' : MessageData}
    (h : HasCopy db folderId m) (he : Evolves inbox db db') (hne : folderId ≠ inbox)
    (hm : SameMail m m') : HasCopy db' folderId m' := by
  obtain ⟨i, d, hd, hfolder, huser, hcontent⟩ := h
  obtain ⟨d', hd', hsame⟩ := he.kept hd (by rw [hfolder]; exact hne)
  refine ⟨i, d', hd', hsame.2.1.trans hfolder, ?_, ?_⟩
  · rw [hsame.1, hm.1, huser]
  · rw [hsame.2.2, hm.2.2, hcontent]

/-- **`COPY` of the addressed message**: nothing comes to the mailbox, and the copy is there. -/
theorem copyNth_spec (inbox n : ℤ) {folderId : ℤ} {f : FolderData} (hfk : ForeignKeys db)
    (hf : db.folders.get? folderId = some f)
    (hfree : MessageDAL.taken db none folderId f.nextUid = false) :
    Evolves inbox db (copyNth db inbox n folderId) ∧
      (∀ i m', (copyNth db inbox n folderId).messages.get? i = some m' →
        db.messages.get? i = some m' ∨ m'.folderId = folderId) ∧
      ∀ m, nthMessage db inbox n = some m →
        HasCopy (copyNth db inbox n folderId) folderId m.toMessageData := by
  cases hn : nthMessage db inbox n with
  | none =>
    rw [copyNth, hn]
    exact ⟨.refl db, fun i m' hm' => .inl hm', fun m hm => nomatch hm⟩
  | some m =>
    obtain ⟨-, id, hid, hrow⟩ := isRow_nthMessage hn
    obtain ⟨recipients, a, heffect⟩ := run_copy hfk hid hrow hf hfree
    rw [copyNth, hn, Option.bind_some, hid]
    dsimp only
    generalize (run store (MessageRepository.copy id folderId) db).1 = db' at heffect ⊢
    cases heffect with
    | copy _ huser hfolder =>
      refine ⟨.insert huser hfolder, fun i m' hm' => ?_, fun m₁ hm₁ => ?_⟩
      · rw [FolderDAL.incrementNextUID_messages, Table.get?_insert] at hm'
        split_ifs at hm'
        · obtain rfl := Option.some.inj hm'
          exact .inr rfl
        · exact .inl hm'
      · obtain rfl := Option.some.inj hm₁
        exact ⟨db.messages.seq + 1, Message.row { m with id := none, folderId, uid := f.nextUid },
          by simp, rfl, rfl, rfl⟩

end Effects

end MailStack.Imap
