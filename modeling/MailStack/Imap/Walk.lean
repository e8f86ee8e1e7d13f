import MailStack.Imap.Dispatcher
import MailStack.Machinery.Handler

/-!
# Imap/Walk — what holds of every handler because it holds of the primitives

The handlers are composed of calls of the repository, of reads of the session and of two writes to
it, the text of an error and the mark of an empty optional.  A property of programs that these have
and that composition keeps is a property of every handler but `LOGIN`, `SELECT` and `CLOSE`, which
write to the session themselves.

`moves_handleCommand` takes it at the property of leaving the state and the mailbox as they are.
-/

open Bytes

namespace MailStack.Imap

open Store Prog

/-- The write neither deletes a folder nor writes a folder row back. -/
def KeepsRows : Write → Prop
  | .deleteFolder _ | .updateFolder _ => False
  | _ => True

/-- The write rests on nothing that was read for it. -/
def Standing : Write → Prop
  | .updateFlags .. | .hardDelete _ | .setSubscribed .. => True
  | .insertFolder f => 1 ≤ f.nextUid
  | _ => False

/-- A write that rests on nothing read neither deletes a folder nor writes a row back. -/
theorem Standing.keepsRows {w : Write} (h : Standing w) : KeepsRows w := by
  cases w with
  | updateFolder | deleteFolder => exact h.elim
  | _ => trivial

/-- `P` holds of the primitives, of the calls whose writes satisfy `W`, and of what is composed of
parts it holds of. -/
structure Composes (W : Write → Prop) (P : (α : Type) → HandlerM α → Prop) : Prop where
  pure {α : Type} (a : α) : P α (pure a)
  throw {α : Type} (e : Exn) : P α (throw (.throw e))
  undefined {α : Type} : P α (MonadExcept.throw Stop.undefined)
  get : P Dispatcher get
  lastError (e : Bytes) : P Unit (modify fun d => { d with lastError := e })
  badAccess : P Unit (modify fun d => { d with badAccess := true })
  ask {α : Type} {p : DbM α} : p.Writes W → P α (ask p)
  bind {α γ : Type} {h : HandlerM α} {f : α → HandlerM γ} :
    P α h → (∀ a, P γ (f a)) → P γ (h >>= f)
  catching {α : Type} {body : HandlerM α} {handler : Exn → HandlerM α} :
    P α body → (∀ e, P α (handler e)) → P α (catching body handler)

namespace Composes

section Primitives

variable {W W' : Write → Prop} {P : (α : Type) → HandlerM α → Prop} {α γ : Type}

/-- What composes for more writes composes for fewer. -/
theorem mono (hP : Composes W P) (hW : ∀ w, W' w → W w) : Composes W' P :=
  { hP with ask := fun hp => hP.ask (hp.mono hW) }

theorem ite (_ : Composes W P) {c : Prop} [Decidable c] {h h' : HandlerM α} (hh : P α h)
    (hh' : P α h') : P α (if c then h else h') := by
  split_ifs
  · exact hh
  · exact hh'

/-- What stands in a branch knows its condition. -/
theorem branch (_ : Composes W P) {c : Prop} [Decidable c] {h h' : HandlerM α} (hh : c → P α h)
    (hh' : ¬ c → P α h') : P α (if c then h else h') := by
  split_ifs with hc
  · exact hh hc
  · exact hh' hc

/-- What stands behind a guard knows that the guard let it pass. -/
theorem guard (hP : Composes W P) {c : Prop} [Decidable c] {h h' : HandlerM α} (hh : P α h)
    (hh' : ¬ c → P α h') : P α (if c then h else h') := hP.branch (fun _ => hh) hh'

variable (hP : Composes W P)

include hP

theorem read (f : DB → α) : P α (Imap.ask (query f)) := hP.ask fun _ => trivial

theorem get_bind {f : Dispatcher → HandlerM α} (hf : ∀ d, P α (f d)) : P α (MonadState.get >>= f) :=
  hP.bind hP.get hf

theorem map {f : α → γ} {h : HandlerM α} (hh : P α h) : P γ (f <$> h) := by
  rw [map_eq_pure_bind]
  exact hP.bind hh fun a => hP.pure (f a)

theorem mapM {δ : Type} {f : δ → HandlerM α} (hf : ∀ x, P α (f x)) :
    ∀ l : List δ, P (List α) (l.mapM f)
  | [] => by
      rw [List.mapM_nil]
      exact hP.pure []
  | x :: l => by
      rw [List.mapM_cons]
      exact hP.bind (hf x) fun a => hP.bind (mapM hf l) fun as => hP.pure (a :: as)

/-- A call of the repository whose exception is caught and answered with `none`. -/
theorem attempt {p : DbM (Result α)} (hp : p.Writes W) : P (Option α) (attempt p) := by
  refine hP.bind (hP.ask hp) fun r => ?_
  match r with
  | .ok a => exact hP.pure (some a)
  | .error none => exact hP.pure none
  | .error (some e) => exact hP.bind (hP.lastError e) fun _ => hP.pure none

theorem value (o : Option α) : P α (value o) := by
  cases o with
  | some a => exact hP.pure a
  | none => exact hP.bind hP.badAccess fun _ => hP.throw _

theorem orThrow (r : Except Exn α) : P α (orThrow r) := by
  cases r with
  | ok a => exact hP.pure a
  | error e => exact hP.throw _

/-- An argument that the command has. -/
theorem arg {cmd : ImapCommand} {i : ℕ} (hi : i < cmd.args.length) : P Bytes (arg cmd i) := by
  rw [Imap.arg, List.getElem?_eq_getElem hi]
  exact hP.pure _

theorem sequenceSet (t : Bytes) (maxValue : ℤ) : P (List ℤ) (sequenceSet t maxValue) := by
  unfold Imap.sequenceSet
  split
  · exact hP.pure _
  · rename_i e he
    match e with
    | .throw e => exact hP.throw e
    | .undefined => exact hP.undefined
    | .missing i => exact absurd he (parseSequenceSet_ne_missing t maxValue i)

theorem userID : P ℤ userID := hP.get_bind fun _ => hP.value _

theorem mailboxID : P ℤ mailboxID := hP.get_bind fun _ => hP.value _

theorem whenSelected {cmd : ImapCommand} {body : HandlerM Bytes} (h : P Bytes body) :
    P Bytes (whenSelected cmd body) := hP.get_bind fun _ => hP.ite (hP.pure _) h

theorem failure (reply : Bytes → Bytes → Bytes) (cmd : ImapCommand) (text : String) :
    P Bytes (failure reply cmd text) := hP.get_bind fun _ => hP.pure _

/-- The folder of the user that a command names. -/
theorem named {cmd : ImapCommand} {i : ℕ} (hi : i < cmd.args.length)
    {k : Option Folder → HandlerM α} (hnone : P α (k none)) (hsome : ∀ f, P α (k (some f))) :
    P α (do
      k (← Imap.ask (MessageRepository.findFolderByName (← Imap.userID) (← Imap.arg cmd i)))) := by
  refine hP.bind hP.userID fun u => hP.bind (hP.arg hi) fun name => ?_
  refine hP.bind (hP.read _) fun o => ?_
  cases o with
  | none => exact hnone
  | some f => exact hsome f

/-- A write that is answered by `OK`, or by a failure's text. -/
theorem write {p : DbM (Result α)} (hp : p.Writes W) {k : Option α → HandlerM Bytes}
    (hsome : ∀ a, P Bytes (k (some a))) (hnone : P Bytes (k none)) :
    P Bytes (Imap.attempt p >>= k) := by
  refine hP.bind (hP.attempt hp) fun o => ?_
  cases o with
  | some a => exact hsome a
  | none => exact hnone

end Primitives

section Reads

variable {W : Write → Prop} {P : (α : Type) → HandlerM α → Prop} (hP : Composes W P)

include hP

/-! ### Handlers that only read -/

theorem rfc822Header (S : Services) (msg : Message) : P Bytes (rfc822Header S msg) := by
  refine hP.bind (hP.orThrow _) fun o => ?_
  cases o with
  | some email => exact hP.pure _
  | none =>
    refine hP.bind (hP.read _) fun user => hP.bind (hP.value _) fun id => ?_
    exact hP.bind (hP.read _) fun _ => hP.pure _

/-- The names are the third argument, whether the command has one or not. -/
theorem headerFields (S : Services) {cmd : ImapCommand} (hnames : P Bytes (Imap.arg cmd 2))
    (item : Bytes) (msg : Message) : P Bytes (headerFields S cmd item msg) := by
  have hfields : P Bytes (do
      let names := trimParentheses (← Imap.arg cmd 2)
      let lines := (splitArgs names).flatMap fun req =>
        let v := S.getHeaderValue (S.splitHeadersAndBody (S.getBodyContent msg)).1 (req ++ lit ":")
        if v = [] then [] else req ++ lit ": " ++ v ++ lit "\r\n"
      return literal (item.dropLast ++ lit " (" ++ names ++ lit ")]") (lines ++ lit "\r\n") ++
        lit " ") := hP.bind hnames fun _ => hP.pure _
  exact hP.ite (hP.bind (hP.throw _) fun _ => hfields) hfields

theorem bodySection (S : Services) (start item : Bytes) (msg : Message) :
    P Bytes (bodySection S start item msg) := by
  unfold Imap.bodySection
  split
  · exact hP.throw _
  · exact hP.bind (hP.orThrow _) fun _ => hP.pure _

/-- One data item: only the list of header fields reads the arguments. -/
theorem fetchItem (S : Services) {cmd : ImapCommand} {msg : Message} {item : Bytes}
    (hfields : item = lit "BODY[HEADER.FIELDS]" ∨ item = lit "BODY.PEEK[HEADER.FIELDS]" →
      P Bytes (Imap.headerFields S cmd item msg)) : P Bytes (fetchItem S cmd msg item) := by
  refine hP.ite (hP.pure _) <| hP.ite (hP.bind (hP.orThrow _) fun _ => hP.pure _) <|
    hP.ite (hP.pure _) <| hP.ite ?_ <| hP.ite (hP.pure _) <|
    hP.ite (hP.bind (hP.rfc822Header S msg) fun _ => hP.pure _) <|
    hP.ite (hP.bind (hP.orThrow _) fun _ => hP.pure _) <|
    hP.ite (hP.bind (hP.orThrow _) fun _ => hP.pure _) <|
    hP.branch hfields fun _ => hP.ite (hP.bodySection S _ item msg) <|
    hP.ite (hP.bodySection S _ item msg) <|
    hP.ite (hP.pure _) (hP.throw _)
  refine hP.bind (hP.orThrow _) fun email => hP.bind (hP.value _) fun id => ?_
  exact hP.bind (hP.read _) fun recipients => hP.bind (hP.orThrow _) fun _ => hP.pure _

/-- The data items of one message, in the order they were asked for. -/
theorem fetchData (S : Services) {cmd : ImapCommand} (hnames : P Bytes (Imap.arg cmd 2))
    (start : Bytes) (items : List Bytes) (msg : Message) :
    P Bytes (fetchData S cmd start items msg) :=
  hP.bind (hP.mapM (fun item => hP.fetchItem S fun _ => hP.headerFields S hnames item msg) items)
    fun _ => hP.pure _

theorem fetchFailure (cmd : ImapCommand) (e : Exn) : P Bytes (fetchFailure cmd e) := by
  cases e <;> exact hP.pure _

/-- `FETCH` is made of reads, the page of the mailbox and the items of each message. -/
theorem handleFetch (S : Services) {cmd : ImapCommand} (hnames : P Bytes (Imap.arg cmd 2)) :
    P Bytes (handleFetch S cmd) := by
  refine hP.whenSelected (hP.guard (hP.pure _) fun hlen => hP.catching ?_ (hP.fetchFailure cmd))
  refine hP.bind hP.mailboxID fun id => hP.bind (hP.read _) fun messages => ?_
  refine hP.bind (hP.arg (by omega)) fun set => hP.bind (hP.sequenceSet _ _) fun ids => ?_
  refine hP.bind (hP.arg (by omega)) fun items => ?_
  refine hP.bind (hP.mapM (fun p => ?_) _) fun _ => hP.pure _
  exact hP.bind (hP.fetchData S hnames _ _ p.1) fun _ => hP.pure _

/-- `UID FETCH` differs from `FETCH` in how it comes by the messages. -/
theorem handleUidFetch (S : Services) {cmd : ImapCommand} (hnames : P Bytes (Imap.arg cmd 2)) :
    P Bytes (handleUidFetch S cmd) := by
  refine hP.whenSelected (hP.guard (hP.pure _) fun hlen => hP.catching ?_ (hP.fetchFailure cmd))
  refine hP.bind (hP.arg (by omega)) fun set => hP.bind (hP.sequenceSet _ _) fun uids => ?_
  refine hP.bind hP.mailboxID fun id => hP.bind (hP.read _) fun messages => ?_
  refine hP.bind (hP.arg (by omega)) fun items => ?_
  refine hP.bind (hP.mapM (fun uid => ?_) uids) fun _ => hP.pure _
  refine hP.bind hP.mailboxID fun id => hP.bind (hP.read _) fun o => ?_
  cases o with
  | none => exact hP.pure _
  | some msg => exact hP.bind (hP.fetchData S hnames _ _ msg) fun _ => hP.pure _

end Reads

section Handlers

variable {W : Write → Prop} {P : (α : Type) → HandlerM α → Prop} (hP : Composes W P)
  (hW : ∀ {w}, Standing w → W w)

include hP

/-! ### Mailboxes -/

theorem handleListing (command done : String) (keep : Folder → Bool) (cmd : ImapCommand) :
    P Bytes (handleListing command done keep cmd) := by
  refine hP.guard (hP.pure _) fun hlen => hP.bind (hP.arg (by omega)) fun pattern => ?_
  refine hP.ite (hP.pure _) ?_
  exact hP.bind hP.userID fun u => hP.bind (hP.read _) fun _ => hP.pure _

theorem statusItem (folder : Folder) (messages : List Message) (req : Bytes) :
    P (Option Bytes) (statusItem folder messages req) :=
  hP.ite (hP.pure _) <| hP.ite (hP.pure _) <| hP.ite (hP.pure _) <|
    hP.ite (hP.bind (hP.value _) fun _ => hP.pure _) <| hP.ite (hP.pure _) (hP.pure _)

theorem handleStatus (cmd : ImapCommand) : P Bytes (handleStatus cmd) := by
  refine hP.guard (hP.pure _) fun hlen => hP.named (by omega) (hP.pure _) fun folder => ?_
  refine hP.bind (hP.value _) fun id => hP.bind (hP.read _) fun messages => ?_
  refine hP.bind (hP.arg (by omega)) fun items => ?_
  refine hP.bind (hP.mapM (hP.statusItem folder messages) _) fun found => hP.ite (hP.pure _) ?_
  exact hP.bind (hP.arg (by omega)) fun _ => hP.pure _

include hW in
/-- The one write of `CREATE` puts in a folder that has a next uid. -/
theorem createReply (cmd : ImapCommand) {f : Folder} (hf : 1 ≤ f.nextUid) :
    P Bytes (createReply cmd f) := by
  refine hP.write ?_ (fun _ => hP.pure _) (hP.failure _ _ _)
  unfold MessageRepository.createFolder
  split_ifs
  · exact writes_pure _
  · exact writes_lookup (writes_unchecked (hW hf)) fun _ => writes_pure _

/-- The parents of a new mailbox are only looked up. -/
theorem findParent : ∀ (prev : Option Folder) (names : List Bytes),
    P (Except Bytes (Option Folder)) (findParent prev names)
  | _, [] => hP.pure _
  | prev, name :: names => by
      refine hP.bind hP.userID fun u => hP.bind (hP.read _) fun o => ?_
      cases o with
      | none => exact hP.pure _
      | some f => exact hP.ite (findParent (some f) names) (hP.pure _)

include hW in
theorem handleCreate (cmd : ImapCommand) : P Bytes (handleCreate cmd) := by
  have hone : (1 : ℤ) ≤ 1 := Int.le_refl 1
  refine hP.guard (hP.pure _) fun hlen => hP.bind (hP.arg (by omega)) fun name => ?_
  refine hP.ite (hP.pure _) (hP.ite (hP.bind (hP.findParent none _) fun r => ?_)
    (hP.bind hP.userID fun u => hP.createReply hW cmd hone))
  match r with
  | .error missing => exact hP.pure _
  | .ok prev =>
    dsimp only
    split
    · exact hP.pure _
    · exact hP.bind hP.userID fun u => hP.createReply hW cmd hone

include hW in
theorem handleSubscription (subscribed : Bool) (done : String) (cmd : ImapCommand) :
    P Bytes (handleSubscription subscribed done cmd) := by
  refine hP.guard (hP.pure _) fun hlen => hP.named (by omega) (hP.pure _) fun folder => ?_
  dsimp only
  split
  · exact hP.pure _
  · refine hP.write ?_ (fun _ => hP.pure _) (hP.failure _ _ _)
    exact writes_lookup (writes_pure _) fun _ => writes_checked (hW trivial)

/-! ### Messages -/

omit hP in
include hW in
/-- `setFlags` writes flags and nothing else. -/
theorem writes_setFlags (id : ℤ) (flags : List Bytes) :
    (MessageRepository.setFlags id flags).Writes W := by
  refine writes_lookup (writes_pure _) fun msg => ?_
  dsimp only
  split
  · exact writes_pure _
  · exact writes_unchecked (hW trivial)

include hW in
/-- One message of a `STORE`: the flags are written, then reported. -/
theorem storeOne (item : Bytes) (rawFlags : List Bytes) (report : Message → Bytes)
    (msg : Message) : P Bytes (storeOne item rawFlags report msg) := by
  refine hP.bind (hP.value _) fun id => hP.bind (hP.attempt (writes_setFlags hW id _)) fun o => ?_
  cases o with
  | none => exact hP.pure _
  | some a =>
    refine hP.ite (hP.pure _) (hP.bind (hP.value _) fun id => hP.bind (hP.read _) fun o => ?_)
    cases o with
    | none => exact hP.pure _
    | some updated => exact hP.pure _

include hW in
theorem handleStore (cmd : ImapCommand) : P Bytes (handleStore cmd) := by
  refine hP.whenSelected (hP.guard (hP.pure _) fun hlen => hP.catching ?_ fun _ => hP.pure _)
  refine hP.bind (hP.arg (by omega)) fun flags => ?_
  dsimp only
  split
  · exact hP.pure _
  · refine hP.bind (hP.arg (by omega)) fun item => hP.bind hP.mailboxID fun id => ?_
    refine hP.bind (hP.read _) fun messages => hP.bind (hP.arg (by omega)) fun set => ?_
    refine hP.bind (hP.sequenceSet _ _) fun ids => ?_
    refine hP.bind (hP.mapM (fun n => ?_) ids) fun _ => hP.pure _
    split
    · exact hP.pure _
    · exact hP.storeOne hW _ _ _ _

include hW in
theorem handleUidStore (cmd : ImapCommand) : P Bytes (handleUidStore cmd) := by
  refine hP.whenSelected (hP.guard (hP.pure _) fun hlen => hP.catching ?_ fun _ => hP.pure _)
  refine hP.bind (hP.arg (by omega)) fun flags => ?_
  dsimp only
  split
  · exact hP.pure _
  · refine hP.bind (hP.arg (by omega)) fun item => hP.bind (hP.arg (by omega)) fun set => ?_
    refine hP.bind (hP.sequenceSet _ _) fun uids => ?_
    refine hP.bind (hP.mapM (fun p => ?_) _) fun _ => hP.pure _
    refine hP.bind hP.mailboxID fun id => hP.bind (hP.read _) fun o => ?_
    cases o with
    | none => exact hP.pure _
    | some msg => exact hP.storeOne hW _ _ _ msg

include hW in
/-- The reports of an `EXPUNGE` are built from the messages alone. -/
theorem expungeAll : ∀ msgs : List (Message × ℕ), P Bytes (expungeAll msgs)
  | [] => hP.pure _
  | _ :: msgs => by
      refine hP.bind (hP.value _) fun id => hP.bind (hP.attempt ?_) fun _ => ?_
      · exact writes_lookup (writes_pure _) fun _ => writes_unchecked (hW trivial)
      · exact hP.bind (expungeAll msgs) fun _ => hP.pure _

include hW in
theorem handleExpunge (cmd : ImapCommand) : P Bytes (handleExpunge cmd) := by
  refine hP.whenSelected (hP.ite (hP.pure _) (hP.bind hP.mailboxID fun id => ?_))
  exact hP.bind (hP.read _) fun messages => hP.bind (hP.expungeAll hW _) fun _ => hP.pure _

/-! ### Copies -/

omit hP in
/-- `copy` writes one thing: the new row with its recipients. -/
theorem writes_copy {W : Write → Prop} (hW : ∀ m recipients f, W (.copy m recipients f))
    (id folderId : ℤ) : (MessageRepository.copy id folderId).Writes W := by
  refine writes_lookup (writes_pure _) fun msg => writes_lookup (writes_pure _) fun folder => ?_
  exact Writes.query_bind fun _ => (writes_checked (hW _ _ _)).bind fun _ => writes_pure _

omit hP in
theorem attempt_copy {P : (α : Type) → HandlerM α → Prop} (hP : Composes KeepsRows P)
    (id folderId : ℤ) : P (Option Message) (Imap.attempt (MessageRepository.copy id folderId)) :=
  hP.attempt (writes_copy (fun _ _ _ => trivial) id folderId)

variable (hcopy : ∀ id folderId,
  P (Option Message) (Imap.attempt (MessageRepository.copy id folderId)))

include hcopy

/-- `COPY` copies the messages one after the other and drops the answers. -/
theorem copyAll (folderId : Option ℤ) : ∀ msgs : List Message, P Unit (copyAll folderId msgs)
  | [] => hP.pure _
  | _ :: msgs => hP.bind (hP.value _) fun _ => hP.bind (hP.value _) fun _ =>
      hP.bind (hcopy _ _) fun _ => copyAll folderId msgs

/-- `UID COPY` looks each uid up and copies what it finds. -/
theorem copyUids (folderId : Option ℤ) : ∀ uids : List ℤ, P (List Message) (copyUids folderId uids)
  | [] => hP.pure _
  | uid :: uids => by
      refine hP.bind hP.mailboxID fun id => hP.bind (hP.read _) fun o => ?_
      cases o with
      | none => exact copyUids folderId uids
      | some msg =>
        refine hP.bind (hP.value _) fun _ => hP.bind (hP.value _) fun _ => ?_
        refine hP.bind (hcopy _ _) fun _ => ?_
        exact hP.bind (copyUids folderId uids) fun _ => hP.pure _

theorem handleCopy (cmd : ImapCommand) : P Bytes (handleCopy cmd) := by
  refine hP.map (hP.get_bind fun d => hP.ite (hP.pure _) (hP.guard (hP.pure _) fun hlen => ?_))
  refine hP.named (by omega) (hP.pure _) fun dest => hP.catching ?_ fun _ => hP.pure _
  refine hP.bind hP.mailboxID fun id => hP.bind (hP.read _) fun messages => ?_
  refine hP.bind (hP.arg (by omega)) fun set => hP.bind (hP.sequenceSet _ _) fun ids => ?_
  exact hP.bind (hP.copyAll hcopy dest.id _) fun _ => hP.pure _

theorem handleUidCopy (cmd : ImapCommand) : P Bytes (handleUidCopy cmd) := by
  refine hP.map (hP.get_bind fun d => hP.ite (hP.pure _) (hP.guard (hP.pure _) fun hlen => ?_))
  refine hP.named (by omega) (hP.pure _) fun dest => hP.catching ?_ fun _ => hP.pure _
  refine hP.bind (hP.arg (by omega)) fun set => hP.bind (hP.sequenceSet _ _) fun uids => ?_
  exact hP.bind (hP.copyUids hcopy dest.id uids) fun _ => hP.pure _

end Handlers

section Folders

variable {W : Write → Prop} {P : (α : Type) → HandlerM α → Prop}

/-- `DELETE` is the one command that writes `deleteFolder`. -/
theorem handleDelete (hP : Composes W P) (hdelete : ∀ id, W (.deleteFolder id))
    (cmd : ImapCommand) : P Bytes (handleDelete cmd) := by
  refine hP.guard (hP.pure _) fun hlen => hP.named (by omega) (hP.pure _) fun folder => ?_
  refine hP.ite (hP.pure _) ?_
  refine hP.bind (hP.value _) fun id => hP.write ?_ (fun _ => hP.pure _) (hP.failure _ _ _)
  exact writes_lookup (writes_pure _) fun _ => writes_unchecked (hdelete id)

/-- `RENAME` needs every write to be allowed: it writes the whole row of a folder. -/
theorem handleRename (hP : Composes (fun _ => True) P) (cmd : ImapCommand) :
    P Bytes (handleRename cmd) := by
  refine hP.guard (hP.pure _) fun hlen => hP.named (by omega) (hP.pure _) fun folder => ?_
  refine hP.bind (hP.value _) fun id => hP.bind (hP.arg (by omega)) fun name => ?_
  refine hP.write ?_ (fun _ => hP.pure _) (hP.failure _ _ _)
  exact writes_of_forall (fun _ => trivial) _

end Folders

section Session

variable {W : Write → Prop} {P : (α : Type) → HandlerM α → Prop} (hP : Composes W P)
  (hmodify : ∀ g : Dispatcher → Dispatcher, P Unit (modify g))

include hP hmodify

/-! ### The handlers that write to the session -/

theorem handleLogin (S : Services) (cmd : ImapCommand) : P Bytes (handleLogin S cmd) := by
  refine hP.guard (hP.pure _) fun hlen => hP.bind (hP.arg (by omega)) fun name => ?_
  refine hP.bind (hP.arg (by omega)) fun password => hP.bind (hP.read _) fun ok => ?_
  refine hP.ite (hP.bind (hP.arg (by omega)) fun name => hP.bind (hP.read _) fun o => ?_) (hP.pure _)
  cases o with
  | none => exact hP.pure _
  | some user =>
    refine hP.bind (hP.arg (by omega)) fun name => hP.bind (hmodify _) fun _ => ?_
    exact hP.bind hP.userID fun _ => hP.pure _

/-- `SELECT` clears `\Recent`, and this is all it writes. -/
theorem handleSelect (hclear : ∀ id, W (.clearRecentByFolder id)) (cmd : ImapCommand) :
    P Bytes (handleSelect cmd) := by
  refine hP.guard (hP.pure _) fun hlen => hP.named (by omega) (hP.pure _) fun folder => ?_
  refine hP.bind (hmodify _) fun _ => hP.bind (hP.value _) fun id => ?_
  refine hP.bind (hP.read _) fun messages => hP.bind (hmodify _) fun _ => ?_
  refine hP.bind (hP.value _) fun id => hP.bind (hP.attempt ?_) fun _ => ?_
  · exact writes_lookup (writes_pure _) fun _ => writes_checked (hclear _)
  · refine hP.bind (hmodify _) fun _ => hP.bind (hP.value _) fun _ => ?_
    exact hP.bind (hmodify _) fun _ => hP.pure _

/-- `CLOSE` expunges the selected mailbox. -/
theorem handleClose (hexpunge : ∀ ids, W (.expunge ids)) (cmd : ImapCommand) :
    P Bytes (handleClose cmd) := by
  refine hP.whenSelected (hP.bind hP.mailboxID fun id => hP.write ?_ (fun _ => ?_) (hP.pure _))
  · exact Writes.query_bind fun _ => writes_checked (hexpunge _)
  · exact hP.bind (hmodify _) fun _ => hP.pure _

end Session

end Composes

/-! ## The writes of a handler -/

/-- Bounds on what is written compose. -/
theorem composes_emits {W : Write → Prop} : Composes W fun _ h => Emits W h where
  pure _ := Emits.pure
  throw _ := Emits.throw
  undefined := Emits.throw
  get := fun _ => trivial
  lastError _ := Emits.modify
  badAccess := Emits.modify
  ask := Emits.lift
  bind := Emits.bind
  catching hbody hhandler := Emits.tryCatch hbody fun e => match e with
    | .throw e => hhandler e
    | .undefined => Emits.throw
    | .missing _ => Emits.throw

/-! ## The selected mailbox -/

/-- The state and the mailbox are as they were. -/
structure SameMailbox (d d' : Dispatcher) : Prop where
  state : d'.state = d.state
  currentMailbox : d'.currentMailbox = d.currentMailbox

instance : IsPreorder Dispatcher SameMailbox where
  refl _ := ⟨rfl, rfl⟩
  trans _ _ _ h h' := ⟨h'.state.trans h.state, h'.currentMailbox.trans h.currentMailbox⟩

/-- So does leaving the state and the mailbox as they were. -/
theorem composes_moves : Composes (fun _ => True) fun _ h => Moves SameMailbox h where
  pure _ := Moves.pure
  throw _ := Moves.throw
  undefined := Moves.throw
  get := Moves.get
  lastError _ := Moves.modify fun _ => ⟨rfl, rfl⟩
  badAccess := Moves.modify fun _ => ⟨rfl, rfl⟩
  ask _ := Moves.lift _
  bind := Moves.bind
  catching hbody hhandler := Moves.tryCatch hbody fun e => match e with
    | .throw e => hhandler e
    | .undefined => Moves.throw
    | .missing _ => Moves.throw

theorem moves_arg (cmd : ImapCommand) (i : ℕ) : Moves SameMailbox (arg cmd i) := by
  unfold arg
  split
  · exact Moves.pure
  · exact Moves.throw

/-- **Every command but `LOGIN`, `SELECT` and `CLOSE` leaves the state and the mailbox**, whatever
the database holds and however its writes are answered. -/
theorem moves_handleCommand (S : Services) {cmd : ImapCommand} (hlogin : cmd.type ≠ .login)
    (hselect : cmd.type ≠ .select) (hclose : cmd.type ≠ .close) :
    Moves SameMailbox (handleCommand S cmd) := by
  have hP := composes_moves
  have hrows : Composes KeepsRows fun _ h => Moves SameMailbox h := hP.mono fun _ _ => trivial
  have hcopy := hrows.attempt_copy
  refine hP.ite (hP.pure _) (hP.get_bind fun d => ?_)
  refine hP.ite (hP.pure _) ?_
  refine hP.catching ?_ fun _ => hP.pure _
  unfold dispatch
  split
  · exact absurd ‹_› hlogin
  · exact hP.pure _
  · exact hP.pure _
  · exact hP.pure _
  · exact absurd ‹_› hselect
  · exact hrows.handleListing _ _ _ _
  · exact hrows.handleListing _ _ _ _
  · exact hrows.handleStatus _
  · exact hrows.handleFetch S (moves_arg _ 2)
  · exact hrows.handleStore Standing.keepsRows _
  · exact hrows.handleCreate Standing.keepsRows _
  · exact hP.handleDelete (fun _ => trivial) _
  · exact hP.handleRename _
  · exact hrows.handleCopy hcopy _
  · exact hrows.handleExpunge Standing.keepsRows _
  · exact hrows.handleUidFetch S (moves_arg _ 2)
  · exact hrows.handleUidStore Standing.keepsRows _
  · exact hrows.handleUidCopy hcopy _
  · exact hrows.handleSubscription Standing.keepsRows _ _ _
  · exact hrows.handleSubscription Standing.keepsRows _ _ _
  · exact absurd ‹_› hclose
  · exact hP.whenSelected (hP.pure _)
  · exact hP.ite (hP.pure _) (hP.pure _)
  · exact hP.pure _

end MailStack.Imap
