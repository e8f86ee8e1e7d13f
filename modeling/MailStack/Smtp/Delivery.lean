import Mathlib.Data.Int.Interval
import MailStack.Smtp.SaveMessage

/-!
# Smtp/Delivery — which recipients `SaveMessage` delivers to

`SaveMessage` goes on with the next recipient wherever one cannot be served, and reports whether
*any* of them was.  `saveTo_iff_succeeds` says when the body of the loop serves its recipient,
`delivered_iff` that everyone has got the message exactly when all were served.

`Extends` and `Grows` are what the steps of the loop do to the database: rows are only ever added,
and a message only by `deliver`.
-/

open Bytes Prog MailStack.Store
open MailStack.Mime (Email)

namespace MailStack.Smtp

/-! ## What the steps of the loop do to the database -/

/-- Rows were added, none of them a message. -/
structure Extends (db db' : DB) : Prop where
  users : ∀ i u, db.users.get? i = some u → db'.users.get? i = some u
  folders : ∀ i f, db.folders.get? i = some f → db'.folders.get? i = some f
  messages : db'.messages = db.messages

theorem Extends.refl (db : DB) : Extends db db := ⟨fun _ _ h => h, fun _ _ h => h, rfl⟩

theorem Extends.trans {db₁ db₂ db₃ : DB} (h : Extends db₁ db₂) (h' : Extends db₂ db₃) :
    Extends db₁ db₃ where
  users i u hu := h'.users i u (h.users i u hu)
  folders i f hf := h'.folders i f (h.folders i f hf)
  messages := h'.messages.trans h.messages

/-- Rows were added; of a folder only the next uid has changed. -/
structure Grows (db db' : DB) : Prop where
  users : ∀ i u, db.users.get? i = some u → db'.users.get? i = some u
  folders : ∀ i f, db.folders.get? i = some f →
    ∃ f', db'.folders.get? i = some f' ∧ f'.userId = f.userId ∧ f'.name = f.name
  messages : ∀ i, i ≤ db.messages.seq → db'.messages.get? i = db.messages.get? i
  seq : db.messages.seq ≤ db'.messages.seq

theorem Grows.refl (db : DB) : Grows db db :=
  ⟨fun _ _ h => h, fun _ f h => ⟨f, h, rfl, rfl⟩, fun _ _ => rfl, Int.le_refl _⟩

theorem Grows.trans {db₁ db₂ db₃ : DB} (h : Grows db₁ db₂) (h' : Grows db₂ db₃) :
    Grows db₁ db₃ where
  users i u hu := h'.users i u (h.users i u hu)
  folders i f hf := by
    obtain ⟨f₁, hf₁, huser₁, hname₁⟩ := h.folders i f hf
    obtain ⟨f₂, hf₂, huser₂, hname₂⟩ := h'.folders i f₁ hf₁
    exact ⟨f₂, hf₂, huser₂.trans huser₁, hname₂.trans hname₁⟩
  messages i hi := (h'.messages i (hi.trans h.seq)).trans (h.messages i hi)
  seq := h.seq.trans h'.seq

/-- What extends a database grows it. -/
theorem Extends.grows {db db' : DB} (h : Extends db db') : Grows db db' where
  users := h.users
  folders i f hf := ⟨f, h.folders i f hf, rfl, rfl⟩
  messages i _ := by rw [h.messages]
  seq := by rw [h.messages]

/-- An insert keeps the rows there are. -/
theorem get?_insert_of_some {α : Type} {t : Table α} {a b : α} {i : ℤ} (h : t.get? i = some b) :
    (t.insert a).get? i = some b := by
  have := Table.le_seq_of_get? h
  rw [Table.get?_insert, if_neg (by omega)]
  exact h

/-- The writes of a registration. -/
inductive Adding : StoreWrite → Prop
  | user (u : User) : Adding (.insertUser u)
  | folder (f : Folder) : Adding (.message (.insertFolder f))

/-- A write that adds leaves every row as it was. -/
theorem Adding.extends {db db' : DB} {w : StoreWrite} {a : Answer} (hw : Adding w)
    (h : w.apply db = .ok (db', a)) : Extends db db' := by
  have he := StoreWrite.effect h
  cases hw with
  | user u =>
    cases he
    exact ⟨fun _ _ hu => get?_insert_of_some hu, fun _ _ hf => hf, rfl⟩
  | folder f =>
    cases he with
    | message he =>
      cases he
      exact ⟨fun _ _ hu => hu, fun _ _ hf => get?_insert_of_some hf, rfl⟩

/-- What a locked write writes. -/
theorem writes_lockedOrError {Q : StoreWrite → Prop} {w : StoreWrite} (h : Q w) :
    (lockedOrError w).Writes Q := (writes_locked h).bind fun _ => writes_pure _

/-- The default folders of a user are added. -/
theorem writes_insertFolders (userId : ℤ) :
    ∀ names, (UserRepository.insertFolders userId names).Writes Adding
  | [] => writes_pure _
  | _ :: names => by
      refine (writes_lockedOrError (.folder _)).bind fun r => ?_
      cases r with
      | error e => exact writes_pure _
      | ok a => exact writes_insertFolders userId names

/-- Registering a user only adds. -/
theorem writes_registerUser (P : PasswordHash) (user : User) (password salt : Bytes) :
    (UserRepository.registerUser P user password salt).Writes Adding := by
  refine Writes.query_bind fun o => ?_
  cases o with
  | some u => exact writes_pure _
  | none =>
    dsimp only
    split_ifs
    · exact writes_pure _
    · refine (writes_lockedOrError (.user _)).bind fun r => ?_
      cases r with
      | error e => exact writes_pure _
      | ok a =>
        refine (writes_insertFolders a.id _).bind fun r => ?_
        cases r <;> exact writes_pure _

/-- The writes that add a recipient to a message. -/
inductive AddsRecipient : ServerWrite → Prop
  | insert (r : Recipient) : AddsRecipient (.database (.insertRecipient r))

/-- A recipient is added. -/
theorem writes_addRecipient (r : Recipient) :
    (ofStore (MessageRepository.addRecipient r)).Writes AddsRecipient := by
  have hwrites : (MessageRepository.addRecipient r).Writes
      fun w => AddsRecipient (.database w) := by
    refine Writes.query_bind fun o => ?_
    cases o with
    | none => exact writes_pure _
    | some m =>
      dsimp only
      split_ifs
      · exact writes_pure _
      · refine Writes.bind (fun _ => writes_pure _) ?_
        exact writes_locked (.insert r)
  exact Writes.embed (g := ServerWrite.database) (fun _ hw => hw) hwrites

/-- The recipients of one kind are added. -/
theorem writes_addMimeRecipients (messageId : ℤ) (recipientAddr : Bytes) (type : RecipientType) :
    ∀ addrs, (addMimeRecipients messageId recipientAddr type addrs).Writes AddsRecipient
  | [] => writes_pure _
  | addr :: addrs => by
      rw [addMimeRecipients]
      split_ifs
      · exact writes_addMimeRecipients messageId recipientAddr type addrs
      · exact (writes_addRecipient _).bind fun _ =>
          writes_addMimeRecipients messageId recipientAddr type addrs

/-- So are those of every kind. -/
theorem writes_addRecipients (messageId : ℤ) (recipientAddr : Bytes) (parsed : Option Email) :
    (addRecipients messageId recipientAddr parsed).Writes AddsRecipient := by
  refine (writes_addRecipient _).bind fun _ => ?_
  cases parsed with
  | none => exact writes_pure _
  | some e =>
    exact (writes_addMimeRecipients _ _ _ _).bind fun _ =>
      (writes_addMimeRecipients _ _ _ _).bind fun _ => writes_addMimeRecipients _ _ _ _

/-! ## One operation after the other -/

section Operations

variable {s s' : Server} {ws : List (Server × Server)}

/-- An operation of a repository runs on the database and leaves the files alone. -/
theorem of_ofStore {α : Type} {p : StoreM α} {a : α}
    (h : Runs serverStore (ofStore p) s ws a s') :
    (∃ ws', Runs mailStore p s.db ws' a s'.db) ∧ s'.files = s.files :=
  Runs.of_embed (fun s db => { s with db }) Server.files (fun _ _ => rfl)
    (fun _ _ => rfl) (fun _ _ => rfl) h

/-- A run of a call of the message repository is a run over its own store. -/
theorem of_ofMessages {α : Type} {p : DbM α} {a : α} {db db' : DB} {ws : List (DB × DB)}
    (h : Runs mailStore (ofMessages p) db ws a db') : ∃ ws', Runs store p db ws' a db' := by
  rw [ofMessages, mapWrites_eq_embed] at h
  refine (Runs.of_embed (S := store) (fun _ db => db) (fun _ => ())
    (fun w db => ?_) (fun _ _ => rfl) (fun _ _ => rfl) h).1
  change w.apply db = (w.apply db).map fun p => (p.1, p.2)
  cases w.apply db <;> rfl

/-- An operation that adds no message. -/
theorem extends_of_ofStore {α : Type} {p : StoreM α} {a : α} (hp : p.Writes Adding)
    (h : Runs serverStore (ofStore p) s ws a s') : Extends s.db s'.db ∧ s'.files = s.files := by
  obtain ⟨⟨ws', hrun⟩, hfiles⟩ := of_ofStore h
  exact ⟨hp.runs Extends.refl Extends.trans (fun hw happly => hw.extends happly) hrun, hfiles⟩

/-- A lookup finds what is there, or nothing. -/
theorem of_lookup {α : Type} {f : DB → Option α} {o : Option α}
    (h : Runs serverStore (lookup f) s ws o s') : s' = s ∧ (o = none ∨ o = f s.db) := by
  rcases Runs.of_locked_bind h with ⟨s₁, a, ws₁, hw, hk, -⟩ | ⟨e, hk⟩
  · obtain ⟨rfl, -⟩ := Prod.mk.inj (Except.ok.inj hw)
    cases hk with
    | read hk =>
      obtain ⟨ho, hs, -⟩ := Runs.of_ret hk
      exact ⟨hs, .inr ho⟩
  · obtain ⟨ho, hs, -⟩ := Runs.of_ret hk
    exact ⟨hs, .inl ho⟩

/-- A row that is found has the name that was asked for. -/
theorem username_of_findByUsername {db : DB} {username : Bytes} {user : User}
    (h : UserDAL.findByUsername db username = some user) :
    ∃ i d, user.id = some i ∧ db.users.get? i = some d ∧ d.username = cstr username := by
  obtain ⟨r, hr, rfl⟩ := Option.map_eq_some_iff.mp h
  refine ⟨r.1, r.2, rfl, Table.mem_rows_iff.mp (List.mem_of_find?_eq_some hr), ?_⟩
  simpa using List.find?_some hr

/-- A folder found by its name is a row. -/
theorem folder_of_findByName {db : DB} {userId : ℤ} {name : Bytes} {folder : Folder}
    (h : FolderDAL.findByName db userId name = some folder) :
    ∃ i d, folder.id = some i ∧ db.folders.get? i = some d ∧ d.userId = userId ∧
      d.name = cstr name := by
  obtain ⟨r, hr, rfl⟩ := Option.map_eq_some_iff.mp h
  have hfound := List.find?_some hr
  simp only [decide_eq_true_eq] at hfound
  exact ⟨r.1, r.2, rfl, Table.mem_rows_iff.mp (List.mem_of_find?_eq_some hr), hfound⟩

/-- The user that is found or registered is there afterwards, under that name. -/
theorem of_findOrRegister {P : PasswordHash} {username salt : Bytes} {o : Option User}
    (h : Runs serverStore (findOrRegister P username salt) s ws o s') :
    Extends s.db s'.db ∧ s'.files = s.files ∧
      ∀ user, o = some user → UserDAL.findByUsername s'.db username = some user := by
  obtain ⟨o₁, s₁, ws₁, ws₂, hfind, hk, -⟩ := Runs.of_bind h
  obtain ⟨rfl, ho₁⟩ := of_lookup hfind
  cases o₁ with
  | some user =>
    obtain ⟨rfl, rfl, -⟩ := Runs.of_ret hk
    refine ⟨.refl _, rfl, fun user' huser' => ?_⟩
    rcases ho₁ with ho₁ | ho₁
    · exact absurd ho₁ (by simp)
    · rw [← ho₁, huser']
  | none =>
    obtain ⟨r, s₂, ws₃, ws₄, hreg, hk, -⟩ := Runs.of_bind hk
    obtain ⟨hext, hfiles⟩ := extends_of_ofStore (writes_registerUser P _ _ salt) hreg
    cases r with
    | error e =>
      obtain ⟨rfl, rfl, -⟩ := Runs.of_ret hk
      exact ⟨hext, hfiles, fun _ h => absurd h (by simp)⟩
    | ok user =>
      obtain ⟨rfl, ho⟩ := of_lookup hk
      refine ⟨hext, hfiles, fun user' huser' => ?_⟩
      rcases ho with ho | ho
      · exact absurd (ho.symm.trans huser') (by simp)
      · rw [← ho, huser']

/-- What was written out is all of the text, or less of it. -/
theorem of_writeOut {c : Chance} {path text : Bytes} {ok : Bool}
    (h : Runs serverStore (writeOut c path text) s ws ok s') :
    s'.db = s.db ∧ ∃ part, s'.files = Function.update s.files (cstr path)
        ((s.files (cstr path)).map (· ++ part)) ∧
      (ok = true → part = text) ∧ (ok = false → part.length < text.length) := by
  rw [writeOut] at h
  split_ifs at h with hnil
  · obtain ⟨rfl, rfl, -⟩ := Runs.of_ret h
    exact ⟨rfl, [], by simp, fun _ => hnil.symm, nofun⟩
  · have hpos : 0 < text.length := List.length_pos_iff.mpr hnil
    rcases Runs.of_locked_bind h with ⟨s₁, a, ws₁, hw, hk, -⟩ | ⟨e, hk⟩
    · obtain ⟨rfl, -⟩ := Prod.mk.inj (Except.ok.inj hw)
      obtain ⟨rfl, rfl, -⟩ := Runs.of_ret hk
      exact ⟨rfl, text, rfl, fun _ => rfl, nofun⟩
    · rcases Runs.of_locked_bind hk with ⟨s₁, a, ws₁, hw, hk, -⟩ | ⟨e, hk⟩
      · obtain ⟨rfl, -⟩ := Prod.mk.inj (Except.ok.inj hw)
        obtain ⟨rfl, rfl, -⟩ := Runs.of_ret hk
        refine ⟨rfl, text.dropLast.take c.torn, rfl, nofun, fun _ => ?_⟩
        rw [List.length_take, List.length_dropLast]
        omega
      · obtain ⟨rfl, rfl, -⟩ := Runs.of_ret hk
        exact ⟨rfl, [], by simp, nofun, fun _ => hpos⟩

/-- A path that is returned is that of a file of its own, which has the text exactly when the
destructor of the stream could write it. -/
theorem of_writeAndClose {c : Chance} {dir body path : Bytes} {closed : Bool}
    (h : Runs serverStore (writeAndClose c dir body) s ws (path, closed) s') :
    s'.db = s.db ∧ (path ≠ [] → path = mailPath c dir ∧ ∃ text,
      s'.files = Function.update s.files (cstr path) (some text) ∧
        (closed = true ↔ text = body)) := by
  rcases Runs.of_locked_bind h with ⟨s₁, a, ws₁, hw, hk, -⟩ | ⟨e, hk⟩
  · obtain ⟨rfl, -⟩ := Prod.mk.inj (Except.ok.inj hw)
    rcases Runs.of_locked_bind hk with ⟨s₂, a, ws₂, hw, hk, -⟩ | ⟨e, hk⟩
    · obtain ⟨rfl, -⟩ := Prod.mk.inj (Except.ok.inj hw)
      obtain ⟨ofs, s₃, ws₃, ws₄, hbody, hk, -⟩ := Runs.of_bind hk
      obtain ⟨hdb₃, part, hfiles₃, hwritten, -⟩ := of_writeOut hbody
      cases ofs with
      | false =>
        obtain ⟨heq, rfl, -⟩ := Runs.of_ret hk
        exact ⟨hdb₃, fun hne => absurd (Prod.mk.inj heq).1 hne⟩
      | true =>
        obtain ⟨ok, s₄, ws₅, ws₆, hrest, hk, -⟩ := Runs.of_bind hk
        obtain ⟨hdb₄, rest, hfiles₄, hall, hless⟩ := of_writeOut hrest
        obtain ⟨heq, rfl, -⟩ := Runs.of_ret hk
        obtain ⟨rfl, rfl⟩ := Prod.mk.inj heq
        refine ⟨hdb₄.trans hdb₃, fun _ => ⟨rfl, part ++ rest, ?_, ?_⟩⟩
        · rw [hfiles₄, hfiles₃]
          simp
        · rw [hwritten rfl]
          constructor
          · intro hclosed
            rw [hall hclosed, List.take_append_drop]
          · intro hbody
            by_contra hclosed
            have hlt := hless (by simpa using hclosed)
            have hlength := congrArg List.length hbody
            simp only [List.length_append, List.length_take, List.length_drop] at hlength hlt
            omega
    · obtain ⟨heq, rfl, -⟩ := Runs.of_ret hk
      exact ⟨rfl, fun hne => absurd (Prod.mk.inj heq).1 hne⟩
  · obtain ⟨heq, rfl, -⟩ := Runs.of_ret hk
    exact ⟨rfl, fun hne => absurd (Prod.mk.inj heq).1 hne⟩

/-- `WriteMailToFile` leaves the database alone, and returns the path it was to write at. -/
theorem of_writeMailToFile {c : Chance} {dir body path : Bytes}
    (h : Runs serverStore (writeMailToFile c dir body) s ws path s') :
    s'.db = s.db ∧ (path ≠ [] → path = mailPath c dir) := by
  obtain ⟨⟨p, closed⟩, s₁, ws₁, ws₂, hwrite, hk, -⟩ := Runs.of_bind h
  obtain ⟨rfl, rfl, -⟩ := Runs.of_ret hk
  obtain ⟨hdb, hpath⟩ := of_writeAndClose hwrite
  exact ⟨hdb, fun hne => (hpath hne).1⟩

/-- A message went into the `INBOX` of the user, under the next id. -/
def Delivers (userId : ℤ) (content : Content) (db db' : DB) : Prop :=
  ∃ i folder row, db.folders.get? i = some folder ∧ folder.userId = userId ∧
    folder.name = lit "INBOX" ∧ row.folderId = i ∧ row.userId = userId ∧
    row.content = content.bound ∧ db'.users = db.users ∧
    db'.folders = (FolderDAL.incrementNextUID db i).folders ∧
    db'.messages = db.messages.insert row

/-- A delivery leaves the rows there are and adds a message. -/
theorem Delivers.grows {userId : ℤ} {content : Content} {db db' : DB}
    (h : Delivers userId content db db') :
    Grows db db' ∧ db'.messages.seq = db.messages.seq + 1 := by
  obtain ⟨i, folder, row, -, -, -, -, -, -, husers, hfolders, hmessages⟩ := h
  refine ⟨⟨fun _ _ hu => by rwa [husers], fun j f hf => ?_, fun j hj => ?_, ?_⟩, ?_⟩
  · rw [hfolders, FolderDAL.incrementNextUID_folders, Table.get?_modify, hf]
    split_ifs
    · exact ⟨_, rfl, rfl, rfl⟩
    · exact ⟨f, rfl, rfl, rfl⟩
  · rw [hmessages, Table.get?_insert, if_neg (by omega)]
  · rw [hmessages, Table.seq_insert]
    omega
  · rw [hmessages, Table.seq_insert]

/-- `assignUID` takes `next_uid` and nothing more, or fails and takes nothing. -/
theorem of_assignUID {m : Message} {folderId : ℤ} {folder : FolderData} {r : Result Message}
    {db db' : DB} {ws : List (DB × DB)}
    (h : Runs store (MessageRepository.assignUID m folderId) db ws r db')
    (hf : db.folders.get? folderId = some folder) (huser : folder.userId = m.userId)
    (hname : folder.name = lit "INBOX") :
    (r.isOk = false → db' = db) ∧ (r.isOk = true → Delivers m.userId m.content db db') := by
  obtain ⟨r₁, db₁, ws₁, ws₂, hchecked, hk, -⟩ := Runs.of_bind h
  obtain ⟨rfl, rfl, -⟩ := Runs.of_ret hk
  rcases Runs.of_locked_bind hchecked with ⟨db₂, a, ws₃, hw, hret, -⟩ | ⟨e, hret⟩
  · obtain ⟨rfl, rfl, -⟩ := Runs.of_ret hret
    have he : Effect db (.assignUID m folderId) db' a := Write.effect hw
    cases he with
    | assignUID hf' hfree hexists =>
      obtain rfl := Option.some.inj (hf.symm.trans hf')
      exact ⟨fun h => absurd h (by simp [Except.isOk, Except.toBool, Except.mapError, Except.map]),
        fun _ => ⟨folderId, folder, { m with folderId, uid := folder.nextUid }.row, hf, huser, hname,
          rfl, rfl, rfl, rfl, rfl, rfl⟩⟩
  · obtain ⟨rfl, rfl, -⟩ := Runs.of_ret hret
    exact ⟨fun _ => rfl,
      fun h => absurd h (by simp [Except.isOk, Except.toBool, Except.mapError, Except.map])⟩

/-- `deliver` puts the message into the inbox it is given, and looks the inbox up where the id is
not positive. -/
theorem of_deliver {m : Message} {folderId : ℤ} {folder : FolderData} {r : Result Message}
    {db db' : DB} {ws : List (DB × DB)}
    (h : Runs store (MessageRepository.deliver m folderId) db ws r db')
    (hf : db.folders.get? folderId = some folder) (huser : folder.userId = m.userId)
    (hname : folder.name = lit "INBOX") :
    (r.isOk = false → db' = db) ∧ (r.isOk = true → Delivers m.userId m.content db db') := by
  rw [MessageRepository.deliver] at h
  dsimp only at h
  split_ifs at h
  · have hfound := Runs.of_query_bind h
    cases ho : FolderDAL.findByName db m.userId (lit "INBOX") with
    | none =>
      rw [ho] at hfound
      obtain ⟨rfl, rfl, -⟩ := Runs.of_ret hfound
      exact ⟨fun _ => rfl, fun h => absurd h (by simp [Except.isOk, Except.toBool])⟩
    | some inbox =>
      rw [ho] at hfound
      obtain ⟨i, d, hid, hd, hduser, hdname⟩ := folder_of_findByName ho
      simp only [hid, Option.getD_some] at hfound
      have hassign := of_assignUID hfound hd hduser hdname
      exact hassign
  · have hassign := of_assignUID h hf huser hname
    exact hassign

/-- Of a delivered message only the recipients change any more. -/
theorem of_addRecipients {messageId : ℤ} {recipientAddr : Bytes} {parsed : Option Email} {u : Unit}
    (h : Runs serverStore (addRecipients messageId recipientAddr parsed) s ws u s') :
    s' = { s with db := { s.db with recipients := s'.db.recipients } } := by
  refine (writes_addRecipients messageId recipientAddr parsed).runs
    (R := fun s s' : Server => s' = { s with db := { s.db with recipients := s'.db.recipients } })
    (fun _ => rfl) (fun {s₁ s₂ s₃} h₁ h₂ => ?_) (fun {s w s₁ b} hw happly => ?_) h
  · rw [h₂, h₁]
  · cases hw with
    | insert r =>
      obtain ⟨p, hp, heq⟩ := map_ok happly
      obtain ⟨rfl, rfl⟩ := Prod.mk.inj heq
      have he : StoreEffect s.db (.insertRecipient r) p.1 p.2 := StoreWrite.effect hp
      generalize p.1 = db', p.2 = answer at he
      cases he
      rfl

/-- Where only recipients are new, every other row is as it was. -/
theorem extends_of_recipients (h : s' = { s with db := { s.db with recipients := s'.db.recipients } }) :
    Extends s.db s'.db ∧ s'.files = s.files := by
  rw [h]
  exact ⟨⟨fun _ _ hu => hu, fun _ _ hf => hf, rfl⟩, rfl⟩

end Operations

/-! ## One recipient -/

/-- **The message was delivered to the recipient**: the row `id` is new, it is in the `INBOX` of the
user named by `ExtractUsername`, and its file has the body. -/
structure DeliveredAs (before after : Server) (body recipient : Bytes) (id : ℤ) : Prop where
  new : before.db.messages.get? id = none
  row : ∃ row folder user, after.db.messages.get? id = some row ∧
    after.db.folders.get? row.folderId = some folder ∧
    after.db.users.get? folder.userId = some user ∧ row.userId = folder.userId ∧
    folder.name = lit "INBOX" ∧ user.username = cstr (extractUsername recipient) ∧
    row.content.sizeBytes = body.length ∧ after.files row.content.rawFilePath = some body

/-- What the database says of a delivery: the row `id` is new, it is in the `INBOX` of the user named
by `ExtractUsername`, and it names the file. -/
structure RowFor (before after : DB) (body recipient file : Bytes) (id : ℤ) : Prop where
  new : before.messages.get? id = none
  row : ∃ row folder user, after.messages.get? id = some row ∧
    after.folders.get? row.folderId = some folder ∧
    after.users.get? folder.userId = some user ∧ row.userId = folder.userId ∧
    folder.name = lit "INBOX" ∧ user.username = cstr (extractUsername recipient) ∧
    row.content.sizeBytes = body.length ∧ row.content.rawFilePath = file

/-- A row stays. -/
theorem RowFor.mono {before db db' : DB} {body recipient file : Bytes} {id : ℤ}
    (h : RowFor before db body recipient file id) (hs : Grows db db') :
    RowFor before db' body recipient file id := by
  obtain ⟨row, folder, user, hrow, hfolder, huser, hrowUser, hname, husername, hsize, hfile⟩ := h.row
  obtain ⟨folder', hfolder', hfuser, hfname⟩ := hs.folders _ _ hfolder
  refine ⟨h.new, row, folder', user, ?_, hfolder', ?_, ?_, hfname.trans hname, husername, hsize,
    hfile⟩
  · rw [hs.messages id (Table.le_seq_of_get? hrow), hrow]
  · rw [hfuser]
    exact hs.users _ _ huser
  · rw [hrowUser, hfuser]

/-- A row whose file has the body is a delivery. -/
theorem RowFor.deliveredAs {before after : Server} {body recipient file : Bytes} {id : ℤ}
    (h : RowFor before.db after.db body recipient file id) (hfile : after.files file = some body) :
    DeliveredAs before after body recipient id := by
  obtain ⟨row, folder, user, hrow, hfolder, huser, hrowUser, hname, husername, hsize, rfl⟩ := h.row
  exact ⟨h.new, row, folder, user, hrow, hfolder, huser, hrowUser, hname, husername, hsize, hfile⟩

/-- The file of a delivery has the body. -/
theorem DeliveredAs.file {before after : Server} {body r recipient file : Bytes} {id : ℤ}
    (h : DeliveredAs before after body r id)
    (hrow : RowFor before.db after.db body recipient file id) : after.files file = some body := by
  obtain ⟨row, _, _, hget, _, _, _, _, _, _, hfile⟩ := h.row
  obtain ⟨row', _, _, hget', _, _, _, _, _, _, rfl⟩ := hrow.row
  rwa [Option.some.inj (hget'.symm.trans hget)]

/-- The file the loop writes for a recipient. -/
def mailFile (c : Chance) (recipientAddr : Bytes) : Bytes :=
  cstr (mailPath c (mailDir (extractUsername recipientAddr)))

section Recipient

variable {P : PasswordHash} {sender body recipientAddr : Bytes} {parsed : Option Email} {c : Chance}

/-- A message that went into an inbox, as it is found there afterwards. -/
theorem Delivers.rowFor {before db db₁ db₂ : DB} {userId : ℤ} {content : Content}
    {user : UserData} (h : Delivers userId content db db₁) (hext : Extends db₁ db₂)
    (huser : db.users.get? userId = some user)
    (husername : user.username = cstr (extractUsername recipientAddr))
    (hsize : content.sizeBytes = body.length) (hbefore : db.messages = before.messages) :
    RowFor before db₂ body recipientAddr (cstr content.rawFilePath) (before.messages.seq + 1) := by
  have hgrows := h.grows.1.trans hext.grows
  obtain ⟨i, folder, row, hfolder, hfuser, hname, rfl, hrowUser, hcontent, -, -, hmessages⟩ := h
  obtain ⟨folder', hfolder', hfuser', hname'⟩ := hgrows.folders _ _ hfolder
  refine ⟨Table.get?_eq_none_of_seq_lt (Int.lt_succ _), row, folder', user, ?_, hfolder', ?_, ?_,
    hname'.trans hname, husername, ?_, ?_⟩
  · rw [hext.messages, hmessages, ← hbefore, Table.get?_insert, if_pos rfl]
  · rw [hfuser', hfuser]
    exact hgrows.users _ _ huser
  · rw [hfuser', hfuser, hrowUser]
  · rw [hcontent]
    exact hsize
  · rw [hcontent]
    rfl

/-- **The body of the loop** adds no message where it goes on with the next recipient, and the row
of one where it runs to its end. -/
theorem of_saveTo {s s' : Server} {ws : List (Server × Server)} {saved : Bool}
    (h : Runs serverStore (saveTo P sender body parsed c recipientAddr) s ws saved s') :
    (saved = false → s'.db.messages = s.db.messages) ∧
      (saved = true → Grows s.db s'.db ∧ s'.db.messages.seq = s.db.messages.seq + 1 ∧
        RowFor s.db s'.db body recipientAddr (mailFile c recipientAddr)
          (s.db.messages.seq + 1)) := by
  obtain ⟨user, s₁, ws₁, ws₂, hfind, hk₁, -⟩ := Runs.of_bind h
  obtain ⟨hext₁, -, huser⟩ := of_findOrRegister hfind
  cases huid : user.bind (·.id) with
  | none =>
    rw [huid] at hk₁
    obtain ⟨rfl, rfl, -⟩ := Runs.of_ret hk₁
    exact ⟨fun _ => hext₁.messages, fun h => absurd h (by simp)⟩
  | some userId =>
    rw [huid] at hk₁
    obtain ⟨inbox, s₂, ws₃, ws₄, hlook, hk₂, -⟩ := Runs.of_bind hk₁
    obtain ⟨rfl, hinbox⟩ := of_lookup hlook
    cases hiid : inbox.bind (·.id) with
    | none =>
      rw [hiid] at hk₂
      obtain ⟨rfl, rfl, -⟩ := Runs.of_ret hk₂
      exact ⟨fun _ => hext₁.messages, fun h => absurd h (by simp)⟩
    | some inboxId =>
      rw [hiid] at hk₂
      obtain ⟨path, s₃, ws₅, ws₆, hwrite, hk₃, -⟩ := Runs.of_bind hk₂
      obtain ⟨hdb₃, hpath₃⟩ := of_writeMailToFile hwrite
      have hmessages₃ : s₃.db.messages = s.db.messages := by rw [hdb₃, hext₁.messages]
      dsimp only at hk₃
      split_ifs at hk₃ with hpath
      · obtain ⟨rfl, rfl, -⟩ := Runs.of_ret hk₃
        exact ⟨fun _ => hmessages₃, fun h => absurd h (by simp)⟩
      · obtain ⟨r, s₄, ws₇, ws₈, hdeliver, hk₄, -⟩ := Runs.of_bind hk₃
        obtain ⟨⟨ws₉, hdeliver⟩, -⟩ := of_ofStore hdeliver
        obtain ⟨ws₁₀, hdeliver⟩ := of_ofMessages hdeliver
        obtain ⟨user, rfl, hid⟩ := Option.bind_eq_some_iff.mp huid
        obtain ⟨inbox, rfl, hinboxId⟩ := Option.bind_eq_some_iff.mp hiid
        obtain ⟨i, d, hi, hd, hdname⟩ := username_of_findByUsername (huser user rfl)
        obtain rfl : i = userId := Option.some.inj (hi.symm.trans hid)
        obtain ⟨j, folder, hj, hfolder, hfuser, hfname⟩ :=
          folder_of_findByName ((hinbox.resolve_left (by simp)).symm)
        obtain rfl : j = inboxId := Option.some.inj (hj.symm.trans hinboxId)
        rw [← hdb₃] at hfolder hd
        obtain ⟨hfailed, hdone⟩ := of_deliver hdeliver hfolder hfuser hfname
        cases r with
        | error e =>
          obtain ⟨rfl, rfl, -⟩ := Runs.of_ret hk₄
          exact ⟨fun _ => by rw [hfailed rfl, hmessages₃], fun h => absurd h (by simp)⟩
        | ok delivered =>
          obtain ⟨_, s₅, ws₁₁, ws₁₂, hadd, hk₅, -⟩ := Runs.of_bind hk₄
          obtain ⟨rfl, rfl, -⟩ := Runs.of_ret hk₅
          obtain ⟨hext₅, -⟩ := extends_of_recipients (of_addRecipients hadd)
          have hdelivers := hdone rfl
          refine ⟨fun h => absurd h (by simp), fun _ => ⟨?_, ?_, ?_⟩⟩
          · have hgrows := hext₁.grows
            rw [← hdb₃] at hgrows
            exact (hgrows.trans hdelivers.grows.1).trans hext₅.grows
          · rw [hext₅.messages, hdelivers.grows.2, hmessages₃]
          · have hrow := hdelivers.rowFor hext₅ hd hdname rfl hmessages₃
            rwa [newMessage, hpath₃ hpath] at hrow

/-- Given which steps fail, the operation ends with that result. -/
def Gives {α : Type} (p : ServerM α) (x : Faulty Server Bytes) (a : α)
    (x' : Faulty Server Bytes) : Prop := runFaults serverStore p x = (x', a)

/-- Such an execution is a run. -/
theorem Gives.runs {α : Type} {p : ServerM α} {x x' : Faulty Server Bytes} {a : α}
    (h : Gives p x a x') : ∃ ws, Runs serverStore p x.1 ws a x'.1 := by
  have hrun := runs_runFaults serverStore p x
  rwa [show runFaults serverStore p x = (x', a) from h] at hrun

/-- **The operations `SaveMessage` makes for the recipient succeed**: the user is found or
registered, the `INBOX` is found, a path is returned, the message is delivered.  Whether the text
was in the file once the stream was closed is told apart. -/
def Succeeds (P : PasswordHash) (sender body : Bytes) (parsed : Option Email) (c : Chance)
    (recipientAddr : Bytes) (closed : Bool) (x : Faulty Server Bytes) : Prop :=
  ∃ (user : User) (userId : ℤ) (inbox : Folder) (inboxId : ℤ) (path : Bytes) (delivered : Message)
    (x₁ x₂ x₃ x₄ : Faulty Server Bytes),
    Gives (findOrRegister P (extractUsername recipientAddr) c.salt) x (some user) x₁ ∧
    user.id = some userId ∧
    Gives (lookup (FolderDAL.findByName · userId (lit "INBOX"))) x₁ (some inbox) x₂ ∧
    inbox.id = some inboxId ∧
    Gives (writeAndClose c (mailDir (extractUsername recipientAddr)) body) x₂ (path, closed) x₃ ∧
    path ≠ [] ∧
    Gives (ofStore (ofMessages (MessageRepository.deliver
      (newMessage c sender body path parsed userId) inboxId))) x₃ (.ok delivered) x₄

/-- Where they succeed, the body of the loop runs to its end, and of the files only that of the
recipient has changed. -/
theorem Succeeds.runFaults_saveTo {closed : Bool} {x : Faulty Server Bytes}
    (h : Succeeds P sender body parsed c recipientAddr closed x) :
    (runFaults serverStore (saveTo P sender body parsed c recipientAddr) x).2 = true ∧
      ∃ text, (runFaults serverStore (saveTo P sender body parsed c recipientAddr) x).1.1.files =
          Function.update x.1.files (mailFile c recipientAddr) (some text) ∧
        (closed = true ↔ text = body) := by
  obtain ⟨user, userId, inbox, inboxId, path, delivered, x₁, x₂, x₃, x₄, h₁, hid, h₂, hinboxId, h₃,
    hpath, h₄⟩ := h
  have hrun : runFaults serverStore (saveTo P sender body parsed c recipientAddr) x =
      ((runFaults serverStore (addRecipients (delivered.id.getD 0) recipientAddr parsed) x₄).1,
        true) := by
    rw [saveTo, runFaults_bind, h₁]
    simp only [Option.bind_some, hid]
    rw [runFaults_bind, h₂]
    simp only [Option.bind_some, hinboxId]
    rw [writeMailToFile, runFaults_bind, runFaults_bind, h₃]
    simp only [Prog.pure_eq, runFaults, if_neg hpath]
    rw [runFaults_bind, h₄]
    dsimp only
    rw [runFaults_bind]
    rfl
  obtain ⟨_, hfind⟩ := h₁.runs
  obtain ⟨_, hlook⟩ := h₂.runs
  obtain ⟨_, hwrite⟩ := h₃.runs
  obtain ⟨_, hdeliver⟩ := h₄.runs
  obtain ⟨_, hadd⟩ := runs_runFaults serverStore
    (addRecipients (delivered.id.getD 0) recipientAddr parsed) x₄
  have hfiles₁ := (of_findOrRegister hfind).2.1
  have hfiles₂ := congrArg Server.files (of_lookup hlook).1
  obtain ⟨rfl, text, hfiles₃, htext⟩ := (of_writeAndClose hwrite).2 hpath
  have hfiles₄ := (of_ofStore hdeliver).2
  have hfiles₅ := (extends_of_recipients (of_addRecipients hadd)).2
  rw [hrun]
  refine ⟨rfl, text, ?_, htext⟩
  rw [hfiles₅, hfiles₄, hfiles₃, hfiles₂, hfiles₁]
  rfl

/-- **The body of the loop runs to its end exactly when the operations succeed.** -/
theorem saveTo_iff_succeeds {x : Faulty Server Bytes} :
    (runFaults serverStore (saveTo P sender body parsed c recipientAddr) x).2 = true ↔
      ∃ closed, Succeeds P sender body parsed c recipientAddr closed x := by
  constructor
  · intro h
    rw [saveTo, runFaults_bind] at h
    rcases h₁ : runFaults serverStore (findOrRegister P (extractUsername recipientAddr) c.salt) x
      with ⟨x₁, user⟩
    rw [h₁] at h
    cases huid : user.bind (·.id) with
    | none =>
      simp only [huid] at h
      exact absurd h (by simp [runFaults])
    | some userId =>
      simp only [huid, runFaults_bind] at h
      rcases h₂ : runFaults serverStore (lookup (FolderDAL.findByName · userId (lit "INBOX"))) x₁
        with ⟨x₂, inbox⟩
      rw [h₂] at h
      cases hiid : inbox.bind (·.id) with
      | none =>
        simp only [hiid] at h
        exact absurd h (by simp [runFaults])
      | some inboxId =>
        simp only [hiid, writeMailToFile, runFaults_bind] at h
        rcases h₃ : runFaults serverStore
          (writeAndClose c (mailDir (extractUsername recipientAddr)) body) x₂
          with ⟨x₃, path, closed⟩
        rw [h₃] at h
        simp only [Prog.pure_eq, runFaults] at h
        by_cases hpath : path = []
        · rw [if_pos hpath] at h
          exact absurd h (by simp [runFaults])
        · rw [if_neg hpath, runFaults_bind] at h
          rcases h₄ : runFaults serverStore (ofStore (ofMessages (MessageRepository.deliver
            (newMessage c sender body path parsed userId) inboxId))) x₃ with ⟨x₄, r⟩
          rw [h₄] at h
          cases r with
          | error e => exact absurd h (by simp [runFaults])
          | ok delivered =>
            obtain ⟨user, rfl, hid⟩ := Option.bind_eq_some_iff.mp huid
            obtain ⟨inbox, rfl, hinboxId⟩ := Option.bind_eq_some_iff.mp hiid
            exact ⟨closed, user, userId, inbox, inboxId, path, delivered, x₁, x₂, x₃, x₄, h₁, hid,
              h₂, hinboxId, h₃, hpath, h₄⟩
  · rintro ⟨closed, h⟩
    exact h.runFaults_saveTo.1

end Recipient

/-! ## All recipients -/

section Loop

variable (P : PasswordHash) (sender body : Bytes) (parsed : Option Email)

/-- A delivery under way: the server, which steps are to fail, and what is to be drawn. -/
abbrev Underway := Faulty Server Bytes × (ℕ → Chance)

/-- The delivery after one turn of the loop. -/
def nextTurn (x : Underway) (recipientAddr : Bytes) : Underway :=
  ((runFaults serverStore (saveTo P sender body parsed (x.2 0) recipientAddr) x.1).1,
    fun n => x.2 (n + 1))

/-- One turn of the loop. -/
def attempt (x : Underway) (recipientAddr : Bytes) : Option Underway :=
  some (nextTurn P sender body parsed x recipientAddr)

/-- The operations for the next recipient succeed. -/
def Serves (x : Underway) (recipientAddr : Bytes) : Prop :=
  ∃ closed, Succeeds P sender body parsed (x.2 0) recipientAddr closed x.1

/-- The recipients, and the file each is to get. -/
def drawn : (ℕ → Chance) → List Bytes → List (Bytes × Bytes)
  | _, [] => []
  | chances, r :: rs => (r, mailFile (chances 0) r) :: drawn (fun n => chances (n + 1)) rs

/-- **All are served, and the text of each is in its file**: it was there once the stream was
closed, or the same file name is drawn again for a later recipient. -/
def AllServed : Underway → List Bytes → Prop
  | _, [] => True
  | x, r :: rs =>
    (∃ closed, Succeeds P sender body parsed (x.2 0) r closed x.1 ∧
      (closed = true ∨
        mailFile (x.2 0) r ∈ (drawn (fun n => x.2 (n + 1)) rs).map Prod.snd)) ∧
      AllServed (nextTurn P sender body parsed x r) rs

variable {P sender body parsed}

/-- A condition along the attempts, one recipient at a time. -/
theorem along_attempt_cons {C : Underway → Bytes → Prop} {x : Underway} {r : Bytes}
    {rs : List Bytes} :
    Run.Along (attempt P sender body parsed) C x (r :: rs) ↔
      C x r ∧ Run.Along (attempt P sender body parsed) C (nextTurn P sender body parsed x r) rs :=
  ⟨fun h => ⟨h.1, h.2 _ rfl⟩, fun h => .cons h.1 rfl h.2⟩

/-- The loop over the recipients, one turn at a time. -/
theorem runFaults_saveLoop_cons (chances : ℕ → Chance) (r : Bytes) (rs : List Bytes)
    (anySaved : Bool) (x : Faulty Server Bytes) :
    runFaults serverStore (saveLoop P sender body parsed chances (r :: rs) anySaved) x =
      runFaults serverStore (saveLoop P sender body parsed (fun n => chances (n + 1)) rs
        (anySaved || (runFaults serverStore (saveTo P sender body parsed (chances 0) r) x).2))
        (runFaults serverStore (saveTo P sender body parsed (chances 0) r) x).1 :=
  runFaults_bind ..

/-- **`any_saved` stays false exactly when no recipient is served.** -/
theorem saveLoop_eq_false_iff {rs : List Bytes} {chances : ℕ → Chance} {anySaved : Bool}
    {x : Faulty Server Bytes} :
    (runFaults serverStore (saveLoop P sender body parsed chances rs anySaved) x).2 = false ↔
      anySaved = false ∧ Run.Along (attempt P sender body parsed)
        (fun x r => ¬ Serves P sender body parsed x r) (x, chances) rs := by
  induction rs generalizing chances anySaved x with
  | nil => exact ⟨fun h => ⟨h, trivial⟩, fun h => h.1⟩
  | cons r rs ih =>
    rw [runFaults_saveLoop_cons, ih, along_attempt_cons, Bool.or_eq_false_iff, and_assoc,
      ← Bool.not_eq_true (runFaults _ _ x).2, saveTo_iff_succeeds]
    rfl

/-- The messages there were stay, and each recipient adds one at most — all of them, only if all
are served. -/
theorem messages_saveLoop {rs : List Bytes} {chances : ℕ → Chance} {anySaved : Bool}
    {x x' : Faulty Server Bytes}
    (h : (runFaults serverStore (saveLoop P sender body parsed chances rs anySaved) x).1 = x') :
    (∀ i ≤ x.1.db.messages.seq, x'.1.db.messages.get? i = x.1.db.messages.get? i) ∧
      x.1.db.messages.seq ≤ x'.1.db.messages.seq ∧
      x'.1.db.messages.seq ≤ x.1.db.messages.seq + rs.length ∧
      (x.1.db.messages.seq + rs.length ≤ x'.1.db.messages.seq →
        Run.Along (attempt P sender body parsed) (Serves P sender body parsed) (x, chances) rs) := by
  induction rs generalizing chances anySaved x with
  | nil =>
    obtain rfl : x = x' := h
    exact ⟨fun _ _ => rfl, Int.le_refl _, by simp, fun _ => trivial⟩
  | cons r rs ih =>
    rw [runFaults_saveLoop_cons] at h
    obtain ⟨hsame, hge, hle, halong⟩ := ih h
    obtain ⟨ws, hrun⟩ := runs_runFaults serverStore
      (saveTo P sender body parsed (chances 0) r) x
    obtain ⟨hskip, hsave⟩ := of_saveTo hrun
    rw [along_attempt_cons, List.length_cons]
    cases hsaved : (runFaults serverStore (saveTo P sender body parsed (chances 0) r) x).2 with
    | false =>
      rw [hskip hsaved] at hsame hge hle
      refine ⟨hsame, hge, by push_cast; omega, fun hall => ?_⟩
      push_cast at hall
      omega
    | true =>
      obtain ⟨hgrows, hseq, -⟩ := hsave hsaved
      rw [hseq] at hsame hge hle halong
      refine ⟨fun i hi => ?_, by omega, by push_cast; omega, fun hall => ?_⟩
      · rw [hsame i (by omega), hgrows.messages i hi]
      · push_cast at hall
        exact ⟨saveTo_iff_succeeds.mp hsaved, halong (by omega)⟩

/-- **Where all are served, all get a row**, each under an id of its own. -/
theorem rows_saveLoop {rs : List Bytes} {chances : ℕ → Chance} {anySaved : Bool}
    {x x' : Faulty Server Bytes}
    (h : (runFaults serverStore (saveLoop P sender body parsed chances rs anySaved) x).1 = x')
    (hall : Run.Along (attempt P sender body parsed) (Serves P sender body parsed)
      (x, chances) rs) :
    Grows x.1.db x'.1.db ∧
      ∃ ids : List ℤ, ids.Pairwise (· < ·) ∧ (∀ id ∈ ids, x.1.db.messages.seq < id) ∧
        List.Forall₂ (fun d id => RowFor x.1.db x'.1.db body d.1 d.2 id) (drawn chances rs) ids := by
  induction rs generalizing chances anySaved x with
  | nil =>
    obtain rfl : x = x' := h
    exact ⟨.refl _, [], .nil, by simp, .nil⟩
  | cons r rs ih =>
    rw [runFaults_saveLoop_cons] at h
    rw [along_attempt_cons] at hall
    obtain ⟨hrest, ids, hsorted, hnew, hids⟩ := ih h hall.2
    obtain ⟨ws, hrun⟩ := runs_runFaults serverStore
      (saveTo P sender body parsed (chances 0) r) x
    obtain ⟨hgrows, hseq, hrow⟩ := (of_saveTo hrun).2 (saveTo_iff_succeeds.mpr hall.1)
    rw [hseq] at hnew
    refine ⟨hgrows.trans hrest, (x.1.db.messages.seq + 1) :: ids, ?_, ?_, ?_⟩
    · exact List.pairwise_cons.mpr ⟨hnew, hsorted⟩
    · refine List.forall_mem_cons.mpr ⟨Int.lt_succ _, fun id hid => ?_⟩
      have := hnew id hid
      omega
    · refine .cons (hrow.mono hrest) (hids.imp fun d id hid => ⟨?_, hid.row⟩)
      by_cases hle : id ≤ x.1.db.messages.seq
      · rw [← hgrows.messages id hle]
        exact hid.new
      · exact Table.get?_eq_none_of_seq_lt (by omega)

/-- **Where all are served, the files of the recipients have the text exactly when no stream lost
it**; no other file has changed. -/
theorem files_saveLoop (anySaved : Bool) {rs : List Bytes} {chances : ℕ → Chance}
    {x x' : Faulty Server Bytes}
    (h : (runFaults serverStore (saveLoop P sender body parsed chances rs anySaved) x).1 = x')
    (hall : Run.Along (attempt P sender body parsed) (Serves P sender body parsed)
      (x, chances) rs) :
    (∀ file ∉ (drawn chances rs).map Prod.snd, x'.1.files file = x.1.files file) ∧
      ((∀ file ∈ (drawn chances rs).map Prod.snd, x'.1.files file = some body) ↔
        AllServed P sender body parsed (x, chances) rs) := by
  induction rs generalizing chances anySaved x with
  | nil =>
    obtain rfl : x = x' := h
    exact ⟨fun _ _ => rfl, by simp [drawn, AllServed]⟩
  | cons r rs ih =>
    rw [runFaults_saveLoop_cons] at h
    rw [along_attempt_cons] at hall
    obtain ⟨⟨closed, hserved⟩, hrest⟩ := hall
    obtain ⟨hother, hfiles⟩ := ih _ h hrest
    obtain ⟨text, htext, hclosed⟩ := hserved.runFaults_saveTo.2
    have hfirst : mailFile (chances 0) r ∉ (drawn (fun n => chances (n + 1)) rs).map Prod.snd →
        x'.1.files (mailFile (chances 0) r) = some text := by
      intro hnew
      rw [hother _ hnew, htext, Function.update_self]
    rw [AllServed, drawn, List.map_cons, List.forall_mem_cons, hfiles]
    refine ⟨fun file hfile => ?_, and_congr_left fun hrest => ⟨fun hbody => ?_, ?_⟩⟩
    · rw [List.mem_cons, not_or] at hfile
      rw [hother file hfile.2, htext, Function.update_of_ne hfile.1]
    · refine ⟨closed, hserved, or_iff_not_imp_right.mpr fun hnew => hclosed.mpr ?_⟩
      exact Option.some.inj ((hfirst hnew).symm.trans hbody)
    · rintro ⟨closed', hserved', hlast⟩
      by_cases hagain : mailFile (chances 0) r ∈
          (drawn (fun n => chances (n + 1)) rs).map Prod.snd
      · exact hfiles.mpr hrest _ hagain
      · obtain ⟨text', htext', hclosed'⟩ := hserved'.runFaults_saveTo.2
        have hsame : some text = some text' := by
          rw [← Function.update_self (mailFile (chances 0) r) (some text) x.1.files, ← htext, htext',
            Function.update_self]
        rw [hfirst hagain, hsame, hclosed'.mp (hlast.resolve_right hagain)]

/-- All served is every one served. -/
theorem AllServed.along {rs : List Bytes} {x : Underway}
    (h : AllServed P sender body parsed x rs) :
    Run.Along (attempt P sender body parsed) (Serves P sender body parsed) x rs := by
  induction rs generalizing x with
  | nil => trivial
  | cons r rs ih =>
    obtain ⟨⟨closed, hserved, -⟩, hrest⟩ := h
    exact along_attempt_cons.mpr ⟨⟨closed, hserved⟩, ih hrest⟩

/-- The check for an empty list changes nothing. -/
theorem saveMessage_eq_saveLoop {logger : Bool} (chances : ℕ → Chance) (sender : Bytes)
    (recipients : List Bytes)
    (body : Bytes) : saveMessage P logger chances sender recipients body =
      saveLoop P sender body (parsedBody logger body) chances recipients false := by
  rw [saveMessage]
  split_ifs with hnil
  · rw [hnil]
    rfl
  · rfl

/-- **Delivered to everyone**, with multiplicity: for each recipient a message of its own. -/
def Delivered (before after : Server) (body : Bytes) (recipients : List Bytes) : Prop :=
  ∃ ids : List ℤ, ids.Nodup ∧ List.Forall₂ (DeliveredAs before after body) recipients ids

theorem drawn_map_fst (chances : ℕ → Chance) (rs : List Bytes) :
    (drawn chances rs).map Prod.fst = rs := by
  induction rs generalizing chances with
  | nil => rfl
  | cons r rs ih => rw [drawn, List.map_cons, ih]

/-- Different numbers of an interval are no more than its length. -/
theorem length_le_of_nodup {ids : List ℤ} {m n : ℤ} (hmn : m ≤ n) (hnodup : ids.Nodup)
    (h : ∀ id ∈ ids, m < id ∧ id ≤ n) : (ids.length : ℤ) ≤ n - m := by
  have hsub : ids.toFinset ⊆ Finset.Ioc m n := by
    intro id hid
    rw [List.mem_toFinset] at hid
    exact Finset.mem_Ioc.mpr (h id hid)
  have hcard := Finset.card_le_card hsub
  rw [List.toFinset_card_of_nodup hnodup, Int.card_Ioc] at hcard
  omega

/-- Different numbers of an interval that are as many as its length are all of it. -/
theorem mem_of_nodup {ids : List ℤ} {m n : ℤ} (hnodup : ids.Nodup)
    (h : ∀ id ∈ ids, m < id ∧ id ≤ n) (hlength : n - m ≤ ids.length) {id : ℤ}
    (hid : m < id ∧ id ≤ n) : id ∈ ids := by
  have hsub : ids.toFinset ⊆ Finset.Ioc m n := by
    intro id hid
    rw [List.mem_toFinset] at hid
    exact Finset.mem_Ioc.mpr (h id hid)
  have heq : ids.toFinset = Finset.Ioc m n := by
    refine Finset.eq_of_subset_of_card_le hsub ?_
    rw [List.toFinset_card_of_nodup hnodup, Int.card_Ioc]
    omega
  rw [← List.mem_toFinset, heq, Finset.mem_Ioc]
  exact hid

/-- Whoever got the message got one of the new rows. -/
theorem Delivered.new {rs : List Bytes} {ids : List ℤ} {before after : Server}
    (hids : List.Forall₂ (DeliveredAs before after body) rs ids)
    (hsame : ∀ i ≤ before.db.messages.seq,
      after.db.messages.get? i = before.db.messages.get? i) :
    ∀ id ∈ ids, before.db.messages.seq < id ∧ id ≤ after.db.messages.seq := by
  intro id hid
  obtain ⟨k, rfl⟩ := List.mem_iff_get.mp hid
  have hk : DeliveredAs before after body _ (ids.get k) :=
    hids.get (by rw [hids.length_eq]; exact k.isLt) k.isLt
  obtain ⟨row, folder, user, hrow, -⟩ := hk.row
  refine ⟨?_, Table.le_seq_of_get? hrow⟩
  by_contra hold
  rw [hsame _ (by omega), hk.new] at hrow
  exact absurd hrow (by simp)

/-- **Everyone got the message exactly when all were served, and no stream lost the text.** -/
theorem delivered_iff {rs : List Bytes} {chances : ℕ → Chance} {anySaved : Bool}
    {x x' : Faulty Server Bytes}
    (h : (runFaults serverStore (saveLoop P sender body parsed chances rs anySaved) x).1 = x') :
    Delivered x.1 x'.1 body rs ↔ AllServed P sender body parsed (x, chances) rs := by
  obtain ⟨hsame, hseq, hle, halong⟩ := messages_saveLoop h
  constructor
  · rintro ⟨ids, hnodup, hids⟩
    have hnew := Delivered.new hids hsame
    have hlength := hids.length_eq
    have hcount := length_le_of_nodup hseq hnodup hnew
    have hall := halong (by omega)
    obtain ⟨-, hfiles⟩ := files_saveLoop anySaved h hall
    obtain ⟨-, ids', hsorted', hnew', hrows⟩ := rows_saveLoop h hall
    refine hfiles.mp fun file hfile => ?_
    obtain ⟨d, hd, rfl⟩ := List.mem_map.mp hfile
    obtain ⟨id, hrow⟩ : ∃ id, RowFor x.1.db x'.1.db body d.1 d.2 id := by
      obtain ⟨k, rfl⟩ := List.mem_iff_get.mp hd
      exact ⟨_, hrows.get k.isLt (by rw [← hrows.length_eq]; exact k.isLt)⟩
    obtain ⟨row, folder, user, hget, -⟩ := hrow.row
    have hid : x.1.db.messages.seq < id := by
      by_contra hold
      rw [hsame id (by omega), hrow.new] at hget
      exact absurd hget (by simp)
    have hmem := mem_of_nodup hnodup hnew (by omega) ⟨hid, Table.le_seq_of_get? hget⟩
    obtain ⟨k, rfl⟩ := List.mem_iff_get.mp hmem
    have hk : DeliveredAs x.1 x'.1 body _ (ids.get k) :=
      hids.get (by rw [hlength]; exact k.isLt) k.isLt
    exact hk.file hrow
  · intro hall
    obtain ⟨-, ids, hsorted, -, hrows⟩ := rows_saveLoop h hall.along
    have hfiles := (files_saveLoop anySaved h hall.along).2.mpr hall
    refine ⟨ids, hsorted.imp fun hlt => ne_of_lt hlt, ?_⟩
    rw [← drawn_map_fst chances rs, List.forall₂_map_left_iff]
    have hboth := (List.forall₂_and_left _ _).mpr
      ⟨fun d hd => hfiles d.2 (List.mem_map_of_mem hd), hrows⟩
    exact hboth.imp fun d id hd => hd.2.deliveredAs hd.1

end Loop

end MailStack.Smtp
