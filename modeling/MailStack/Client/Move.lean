import MailStack.Client.Exchange
import MailStack.Imap.Serve
import MailStack.Machinery.Run

/-!
# Client/Move — `MailWorker::handleMoveMail` beside another session

A move is `COPY n target`, `STORE n +FLAGS (\Deleted)` and `EXPUNGE`, each sent once the one before
was answered `OK`.  All three address the mail by its number, and between them another session of
the same user may change what the numbers mean.

`copied_or_marked_of_exec` holds of the runs in which the number still stands for the copied message
when `STORE` is served; in `move_loses_mail` it does not, and the move destroys a message that was
never copied.
-/

open Bytes

namespace MailStack.Client

open Store Prog Imap

/-! ## The requests -/

/-- `MoveMailCommand`, and the value of `m_tagCounter` when it is handled. `mailId` is an
`int64_t`. -/
structure Move where
  mailId : ℤ
  targetFolder : Bytes
  tagCounter : ℕ := 0
  lo : -2 ^ 63 ≤ mailId
  hi : mailId ≤ int64Max

/-- The `k`-th tag after the counter. -/
def Move.tag (mv : Move) (k : ℕ) : Bytes := lit "A" ++ decimal (mv.tagCounter + k : ℕ)

namespace Move

variable (mv : Move)

/-- What the server makes of `COPY n "target"`. -/
def copyCommand : ImapCommand :=
  { tag := mv.tag 1, type := .copy, args := [decimal mv.mailId, mv.targetFolder] }

/-- What it makes of `STORE n +FLAGS (\Deleted)`. -/
def storeCommand : ImapCommand :=
  { tag := mv.tag 2, type := .store, args := [decimal mv.mailId, lit "+FLAGS", lit "(\\Deleted)"] }

/-- What it makes of `EXPUNGE`. -/
def expungeCommand : ImapCommand := { tag := mv.tag 3, type := .expunge }

end Move

/-! ## The answers -/

/-- Whether the client takes the answer for `OK`.  A handler that an exception leaves is answered
without a tag. -/
def accepted (tag : Bytes) (r : Except Stop Bytes) : Bool :=
  match r with
  | .ok reply => verdict tag (frameLines reply) = some true
  | .error _ => verdict tag (frameLines (lit "BAD Internal server error\r\n")) = some true

theorem notMem_tag (mv : Move) (k : ℕ) : '\n'.toUInt8 ∉ mv.tag k := by
  intro h
  rcases List.mem_append.mp h with h | h
  · exact absurd h (by decide)
  · exact notMem_decimal _ (by decide) (by decide) h

/-- A `BAD` of one line is not taken for `OK`. -/
theorem not_accepted_bad (mv : Move) (k : ℕ) :
    accepted (mv.tag k) (.ok (ImapResponse.bad (mv.tag k) (lit "No such folder"))) = false := by
  have hframe : ImapResponse.bad (mv.tag k) (lit "No such folder") =
      (mv.tag k ++ lit " BAD No such folder" ++ ['\r'.toUInt8]) ++ '\n'.toUInt8 :: [] := by
    rw [ImapResponse.bad]
    simp only [List.append_assoc]
    rfl
  have hline : '\n'.toUInt8 ∉ mv.tag k ++ lit " BAD No such folder" ++ ['\r'.toUInt8] := by
    rw [List.append_assoc, List.mem_append, not_or]
    exact ⟨notMem_tag mv k, by decide⟩
  have hverdict : verdict (mv.tag k) [mv.tag k ++ lit " BAD No such folder"] = some false := by
    rw [verdict, isPrefixOf_append_left, isPrefixOf_append_left, isPrefixOf_append_left]
    rfl
  rw [accepted, frameLines, hframe, getlines_append_cons _ hline, getlines, List.map_singleton,
    List.getLast?_concat, if_pos rfl, List.dropLast_concat, hverdict]
  rfl

/-! ## The system -/

/-- How far the move has come: the request to be sent next. -/
inductive Phase
  | copying | storing | expunging | done | failed
  deriving DecidableEq, Repr

/-- The database, the two sessions and the client.  `copied` is the message that the number stood
for when `COPY` was served, and `marked` are the messages that carry `\Deleted` because of the other
session. -/
structure MoveNet where
  db : DB
  mover : Dispatcher
  other : Dispatcher
  phase : Phase := .copying
  copied : Option ℤ := none
  marked : List ℤ := []

/-- A step: the client's next request is served, mail is delivered, or the other session's command
is served. -/
inductive MoveAct
  | mover
  | deliver (userId folderId : ℤ) (content : Content)
  | store (cmd : ImapCommand)
  | uidStore (cmd : ImapCommand)
  | expunge (cmd : ImapCommand)

/-- The message carries `\Deleted`. -/
def isDeleted (db : DB) (id : ℤ) : Bool := (db.messages.get? id).any (·.flags.deleted)

/-- The messages marked by the other session after a `STORE` of it: what it newly flagged, and what
is still flagged of those before. -/
def marks (db db' : DB) (marked : List ℤ) : List ℤ :=
  (db'.messages.rows.map (·.1)).filter fun id =>
    isDeleted db' id && (!isDeleted db id || id ∈ marked)

namespace MoveNet

/-- One of the client's requests is served, and its answer decides. -/
def request (n : MoveNet) (h : ImapCommand → HandlerM Bytes) (cmd : ImapCommand) (phase : Phase) :
    MoveNet :=
  let r := serve (h cmd) n.mover n.db
  { n with db := r.1, mover := r.2.2, phase := if accepted cmd.tag r.2.1 then phase else .failed }

/-- A `STORE` of the other session. -/
def otherStore (n : MoveNet) (h : HandlerM Bytes) : MoveNet :=
  let r := serve h n.other n.db
  { n with db := r.1, other := r.2.2, marked := marks n.db r.1 n.marked }

/-- One step, with the mailbox both sessions have selected. -/
def next (mv : Move) (inbox : ℤ) (n : MoveNet) : MoveAct → Option MoveNet
  | .mover =>
    match n.phase with
    | .copying =>
      if mv.targetFolder = [] then some { n with phase := .failed }
      else
        some { n.request handleCopy mv.copyCommand .storing with
          copied := (nthMessage n.db inbox mv.mailId).bind (·.id) }
    | .storing => some (n.request handleStore mv.storeCommand .expunging)
    | .expunging => some (n.request handleExpunge mv.expungeCommand .done)
    | .done | .failed => none
  | .deliver userId folderId content =>
    let m : Message := { userId, folderId := 0, uid := 0, content }
    some { n with db := (run Store.store (MessageRepository.deliver m folderId) n.db).1 }
  | .store cmd => some (n.otherStore (handleStore cmd))
  | .uidStore cmd => some (n.otherStore (handleUidStore cmd))
  | .expunge cmd =>
    let r := serve (handleExpunge cmd) n.other n.db
    some { n with db := r.1, other := r.2.2 }

end MoveNet

/-- What the move needs: the target is another folder and its `next_uid` is free when `COPY` is
served, and the number then stands for the copied message, if for any, when `STORE` is. -/
def Steady (mv : Move) (inbox : ℤ) (n : MoveNet) : MoveAct → Prop
  | .mover =>
    match n.phase with
    | .copying =>
      ∀ folderId f, destination n.db n.mover mv.copyCommand = some folderId →
        n.db.folders.get? folderId = some f →
        folderId ≠ inbox ∧ MessageDAL.taken n.db none folderId f.nextUid = false
    | .storing => ∀ m, nthMessage n.db inbox mv.mailId = some m → n.copied = m.id
    | _ => True
  | _ => True

/-! ## The invariant -/

/-- The copied message, as long as it is there, has a copy in the target folder. -/
def Backed (mv : Move) (u inbox : ℤ) (db : DB) (copied : Option ℤ) : Prop :=
  ∃ folderId, (FolderDAL.findByName db u mv.targetFolder).bind (·.id) = some folderId ∧
    folderId ≠ inbox ∧ ∀ i, copied = some i → i ≤ db.messages.seq ∧
      ∀ m, db.messages.get? i = some m → HasCopy db folderId m

/-- What holds of the system up to the client's `EXPUNGE`. -/
structure Inv (mv : Move) (u inbox : ℤ) (n : MoveNet) : Prop where
  refs : ForeignKeys n.db
  mover : InMailbox u inbox n.mover n.db
  other : InMailbox u inbox n.other n.db
  deleted : n.phase = .copying ∨ n.phase = .storing ∨ n.phase = .expunging →
    ∀ i m, n.db.messages.get? i = some m → m.folderId = inbox → m.flags.deleted = true →
      i ∈ n.marked ∨ (n.phase = .expunging ∧ n.copied = some i)
  backed : n.phase = .storing ∨ n.phase = .expunging → Backed mv u inbox n.db n.copied

section Steps

variable {mv : Move} {u inbox : ℤ} {n n' : MoveNet} {db db' : DB}

theorem Backed.evolves {copied : Option ℤ} (h : Backed mv u inbox db copied)
    (he : Evolves inbox db db') : Backed mv u inbox db' copied := by
  obtain ⟨folderId, hname, hne, hcopy⟩ := h
  refine ⟨folderId, (he.name u _).trans hname, hne, fun i hi => ?_⟩
  obtain ⟨hle, hrow⟩ := hcopy i hi
  refine ⟨Int.le_trans hle he.seq, fun m' hm' => ?_⟩
  obtain ⟨m, hm, hsame⟩ := he.same i m' hm' hle
  exact (hrow m hm).evolves he hne hsame

theorem isDeleted_iff {i : ℤ} :
    isDeleted db i = true ↔ ∃ m, db.messages.get? i = some m ∧ m.flags.deleted = true :=
  Option.any_eq_true _ _

theorem mem_marks {marked : List ℤ} {i : ℤ} (h : isDeleted db' i = true) :
    i ∈ marks db db' marked ↔ isDeleted db i = false ∨ i ∈ marked := by
  have hrow : ∃ m, (i, m) ∈ db'.messages.rows := by
    obtain ⟨m, hm, -⟩ := isDeleted_iff.mp h
    exact ⟨m, Table.mem_rows_iff.mpr hm⟩
  simp [marks, hrow, h]

/-- A `STORE` of the other session: what it flags is marked. -/
theorem Inv.otherStore {h : HandlerM Bytes} (hn : Inv mv u inbox n)
    (hs : ∀ s, Alone (Evolves inbox) u inbox s h fun _ _ => True) :
    Inv mv u inbox (n.otherStore h) := by
  obtain ⟨he, hd⟩ := (hs n.db).serve hn.other
  refine ⟨he.refs hn.refs, hn.mover, hd, fun hphase i m' hm' hfolder hdel => ?_,
    fun hphase => (hn.backed hphase).evolves he⟩
  have hnow := isDeleted_iff.mpr ⟨m', hm', hdel⟩
  cases hwas : isDeleted n.db i with
  | false => exact .inl ((mem_marks hnow).mpr (.inl hwas))
  | true =>
    obtain ⟨m, hm, hdel₀⟩ := isDeleted_iff.mp hwas
    obtain ⟨m₀, hm₀, hsame⟩ := he.same i m' hm' (Table.le_seq_of_get? hm)
    obtain rfl : m = m₀ := Option.some.inj (hm.symm.trans hm₀)
    refine (hn.deleted hphase i m hm (hsame.2.1.symm.trans hfolder) hdel₀).imp_left fun hmark => ?_
    exact (mem_marks hnow).mpr (.inr hmark)

/-- A step of others that flags nothing. -/
theorem Inv.quiet (hn : Inv mv u inbox n) (he : Evolves inbox n.db db')
    (hrow : ∀ i m, db'.messages.get? i = some m → n.db.messages.get? i = some m ∨
      m.flags.deleted = false) {d : Dispatcher} (hd : InMailbox u inbox d db') :
    Inv mv u inbox { n with db := db', other := d } := by
  refine ⟨he.refs hn.refs, hn.mover, hd, fun hphase i m hm hfolder hdel => ?_,
    fun hphase => (hn.backed hphase).evolves he⟩
  rcases hrow i m hm with hm | hm
  · exact hn.deleted hphase i m hm hfolder hdel
  · exact absurd (hdel.symm.trans hm) (by decide)

/-- A move that has failed, or is done, has nothing more to fear. -/
theorem Inv.of_over (hn : Inv mv u inbox n) {d : Dispatcher} {copied : Option ℤ} {phase : Phase}
    (he : Evolves inbox n.db db') (hd : InMailbox u inbox d db')
    (hphase : phase = .failed ∨ phase = .done) :
    Inv mv u inbox { n with db := db', mover := d, copied := copied, phase := phase } := by
  refine ⟨he.refs hn.refs, hd, hn.other, fun h => ?_, fun h => ?_⟩
  · rcases hphase with rfl | rfl <;> simp at h
  · rcases hphase with rfl | rfl <;> simp at h

/-- A request of the client, whatever its answer: the rest is shown for an `OK`. -/
theorem Inv.request (hn : Inv mv u inbox n) {h : ImapCommand → HandlerM Bytes} {cmd : ImapCommand}
    {r : Except Stop Bytes} {d : Dispatcher} {phase : Phase} (copied : Option ℤ)
    (hs : serve (h cmd) n.mover n.db = (db', r, d)) (he : Evolves inbox n.db db')
    (hd : InMailbox u inbox d db')
    (hok : accepted cmd.tag r = true →
      Inv mv u inbox { n with db := db', mover := d, copied := copied, phase := phase }) :
    Inv mv u inbox { n.request h cmd phase with copied := copied } := by
  rw [MoveNet.request, hs]
  dsimp only
  split_ifs with hacc
  · exact hok hacc
  · exact hn.of_over he hd (.inl rfl)

/-- **`COPY`**: an `OK` means that the addressed message has its copy. -/
theorem Inv.copy (hn : Inv mv u inbox n) (hphase : n.phase = .copying)
    (hsteady : ∀ folderId f, destination n.db n.mover mv.copyCommand = some folderId →
      n.db.folders.get? folderId = some f →
      folderId ≠ inbox ∧ MessageDAL.taken n.db none folderId f.nextUid = false) :
    Inv mv u inbox { n.request handleCopy mv.copyCommand .storing with
      copied := (nthMessage n.db inbox mv.mailId).bind (·.id) } := by
  have hargs : mv.copyCommand.args = [decimal mv.mailId, mv.targetFolder] := rfl
  rcases serve_handleCopy mv.lo mv.hi hargs hn.mover with ⟨-, hs⟩ | ⟨folderId, e, hdest, hs⟩
  · refine hn.request _ hs (.refl n.db) hn.mover fun hacc => ?_
    exact absurd (hacc.symm.trans (not_accepted_bad mv 1)) (by decide)
  · have hname : (FolderDAL.findByName n.db u mv.targetFolder).bind (·.id) = some folderId := by
      rw [← hdest]
      simp [destination, hn.mover.2.1, Move.copyCommand]
    obtain ⟨folder, hfolder, hid⟩ := Option.bind_eq_some_iff.mp hname
    obtain ⟨r, hr, rfl⟩ := Option.map_eq_some_iff.mp hfolder
    obtain rfl : r.1 = folderId := Option.some.inj hid
    have hf := Table.mem_rows_iff.mp (List.mem_of_find?_eq_some hr)
    obtain ⟨hne, hfree⟩ := hsteady r.1 r.2 hdest hf
    obtain ⟨he, hrow, hcopy⟩ := copyNth_spec inbox mv.mailId hn.refs hf hfree
    refine hn.request _ hs he hn.mover fun _ =>
      ⟨he.refs hn.refs, hn.mover, hn.other, ?_, fun _ => ?_⟩
    · intro _ i m hm hfolder hdel
      rcases hrow i m hm with hm | hm
      · refine (hn.deleted (.inl hphase) i m hm hfolder hdel).imp_right fun h => ?_
        exact absurd (hphase.symm.trans h.1) (by decide)
      · exact absurd (hm.symm.trans hfolder) hne
    · refine ⟨r.1, (he.name u _).trans hname, hne, fun i hi => ?_⟩
      obtain ⟨m, hm, hmid⟩ := Option.bind_eq_some_iff.mp hi
      obtain ⟨-, i', hi', hmrow⟩ := isRow_nthMessage hm
      obtain rfl : i' = i := Option.some.inj (hi'.symm.trans hmid)
      have hle := Table.le_seq_of_get? hmrow
      refine ⟨Int.le_trans hle he.seq, fun m' hm' => ?_⟩
      obtain ⟨m₀, hm₀, hsame⟩ := he.same i' m' hm' hle
      obtain rfl : m.toMessageData = m₀ := Option.some.inj (hmrow.symm.trans hm₀)
      exact (hcopy m hm).evolves (.refl _) hne hsame

/-- **`STORE`**: what it flags is the message that was copied. -/
theorem Inv.store (hn : Inv mv u inbox n) (hphase : n.phase = .storing)
    (hsteady : ∀ m, nthMessage n.db inbox mv.mailId = some m → n.copied = m.id) :
    Inv mv u inbox (n.request handleStore mv.storeCommand .expunging) := by
  have hargs : mv.storeCommand.args = [decimal mv.mailId, lit "+FLAGS", lit "(\\Deleted)"] := rfl
  obtain ⟨reply, e, hs⟩ := leaves_handleStore_nth mv.lo mv.hi hargs hn.mover
  obtain ⟨he, hflag⟩ := storeNth_spec n.db inbox mv.mailId [lit "+\\Deleted"]
  refine hn.request n.copied hs he hn.mover fun _ =>
    ⟨he.refs hn.refs, hn.mover, hn.other, ?_, fun _ => (hn.backed (.inl hphase)).evolves he⟩
  intro _ i m' hm' hfolder hdel
  rcases hflag i m' hm' hdel with ⟨m, hm, hdel₀⟩ | hnth
  · obtain ⟨m₀, hm₀, hsame⟩ := he.same i m' hm' (Table.le_seq_of_get? hm)
    obtain rfl : m = m₀ := Option.some.inj (hm.symm.trans hm₀)
    refine (hn.deleted (.inr (.inl hphase)) i m hm (hsame.2.1.symm.trans hfolder) hdel₀).imp_right
      fun h => ?_
    exact absurd (hphase.symm.trans h.1) (by decide)
  · obtain ⟨m, hm, hid⟩ := Option.bind_eq_some_iff.mp hnth
    exact .inr ⟨rfl, (hsteady m hm).trans hid⟩

/-- **Every steady step keeps the invariant.** -/
theorem Inv.next {a : MoveAct} (hn : Inv mv u inbox n) (hsteady : Steady mv inbox n a)
    (hnext : MoveNet.next mv inbox n a = some n') : Inv mv u inbox n' := by
  cases a with
  | mover =>
    rw [Steady] at hsteady
    rw [MoveNet.next] at hnext
    split at hnext
    · rename_i hphase
      rw [hphase] at hsteady
      split_ifs at hnext
      · obtain rfl := Option.some.inj hnext
        exact hn.of_over (.refl n.db) hn.mover (.inl rfl)
      · obtain rfl := Option.some.inj hnext
        exact hn.copy hphase hsteady
    · rename_i hphase
      rw [hphase] at hsteady
      obtain rfl := Option.some.inj hnext
      exact hn.store hphase hsteady
    · obtain rfl := Option.some.inj hnext
      obtain ⟨hr, hd⟩ := (alone_handleExpunge (s := n.db) mv.expungeCommand).serve hn.mover
      refine hn.request n.copied rfl hr.toEvolves hd fun _ => ?_
      exact hn.of_over hr.toEvolves hd (.inr rfl)
    · exact absurd hnext (by simp)
    · exact absurd hnext (by simp)
  | deliver userId folderId content =>
    obtain rfl := Option.some.inj hnext
    have hspec := solo_deliver (s := n.db) inbox
      (m := { userId, folderId := 0, uid := 0, content }) folderId rfl
    have hr := (hspec.alone (fun _ _ => trivial) trivial).1.1
    exact hn.quiet hr.toEvolves hr.row hn.other
  | store cmd =>
    obtain rfl := Option.some.inj hnext
    exact hn.otherStore fun s => alone_handleStore cmd
  | uidStore cmd =>
    obtain rfl := Option.some.inj hnext
    exact hn.otherStore fun s => alone_handleUidStore cmd
  | expunge cmd =>
    obtain rfl := Option.some.inj hnext
    obtain ⟨hr, hd⟩ := (alone_handleExpunge (s := n.db) cmd).serve hn.other
    exact hn.quiet hr.toEvolves (fun i m hm => .inl (hr.row i m hm)) hd

end Steps

/-- **A steady move loses nothing**: what the client's `EXPUNGE` removes was flagged by the other
session, or has its copy in the target folder — for every mailbox, and every interleaving of the
move with deliveries and with `STORE`s and `EXPUNGE`s of the other session. -/
theorem copied_or_marked_of_exec {mv : Move} {u inbox : ℤ} {n n' n'' : MoveNet} {as : List MoveAct}
    (hphase : n.phase = .copying) (hmover : InMailbox u inbox n.mover n.db)
    (hother : InMailbox u inbox n.other n.db) (hrefs : ForeignKeys n.db)
    (hmarked : ∀ i m, n.db.messages.get? i = some m → m.folderId = inbox →
      m.flags.deleted = true → i ∈ n.marked)
    (hsteady : Run.Along (MoveNet.next mv inbox) (Steady mv inbox) n as)
    (hrun : Run.exec (MoveNet.next mv inbox) n as = some n') (hexpunge : n'.phase = .expunging)
    (hnext : MoveNet.next mv inbox n' .mover = some n'') :
    ∀ i m, n'.db.messages.get? i = some m → n''.db.messages.get? i = none →
      i ∈ n'.marked ∨ ∃ folderId,
        (FolderDAL.findByName n''.db u mv.targetFolder).bind (·.id) = some folderId ∧
          HasCopy n''.db folderId m := by
  have hstart : Inv mv u inbox n := by
    refine ⟨hrefs, hmover, hother,
      fun _ i m hm hfolder hdel => .inl (hmarked i m hm hfolder hdel), ?_⟩
    rintro (h | h)
    · exact absurd (hphase.symm.trans h) (by decide)
    · exact absurd (hphase.symm.trans h) (by decide)
  have hn' := Run.exec_invariant_of_along (fun _ _ _ h hs hn => h.next hs hn) hstart hsteady hrun
  rw [MoveNet.next, hexpunge] at hnext
  obtain rfl := Option.some.inj hnext
  have hr := ((alone_handleExpunge (s := n'.db) mv.expungeCommand).serve hn'.mover).1
  intro i m hm hgone
  obtain ⟨hfolder, hdel⟩ := hr.gone i m hm hgone
  refine (hn'.deleted (.inr (.inr hexpunge)) i m hm hfolder hdel).imp_right fun hcopied => ?_
  obtain ⟨folderId, hname, hne, hcopy⟩ := hn'.backed (.inr hexpunge)
  refine ⟨folderId, (hr.name u _).trans hname, ?_⟩
  exact ((hcopy i hcopied.2).2 m hm).evolves hr.toEvolves hne (.refl m)

/-! ## A move alone, and one that is overtaken -/

/-- Both sessions are alice's, with her mailbox selected. -/
def aliceNet (db : DB) (marked : List ℤ) : MoveNet :=
  { db, mover := aliceSession, other := aliceSession, marked }

theorem inMailbox_alice (db : DB) : InMailbox 1 1 aliceSession db := ⟨rfl, rfl, rfl⟩

/-- The first mail is to go to the archive. -/
def moveFirst : Move :=
  { mailId := 1, targetFolder := lit "Archive", lo := by decide, hi := by decide }

/-- Between the client's `COPY` and `STORE` a message comes in, and the other session flags the
second one and expunges it. -/
def accompanied : List MoveAct :=
  [.mover, .deliver 1 1 { rawFilePath := lit "4.eml", fromAddress := lit "erin" },
    .store { tag := lit "b", type := .store, args := [lit "2", lit "+FLAGS", lit "(\\Deleted)"] },
    .expunge { tag := lit "c", type := .expunge }, .mover]

theorem steady_accompanied :
    Run.Along (MoveNet.next moveFirst 1) (Steady moveFirst 1) (aliceNet copyDB []) accompanied := by
  refine .cons (fun folderId f hdest hf => ?_) rfl <| .cons trivial rfl <| .cons trivial rfl <|
    .cons trivial rfl <| .cons (fun m hm => ?_) rfl trivial
  · obtain rfl : 2 = folderId := Option.some.inj hdest
    obtain rfl := Option.some.inj hf
    exact ⟨by decide, rfl⟩
  · obtain rfl := Option.some.inj hm
    rfl

theorem copied_or_marked_moveFirst :
    ∃ n' n'' m,
      Run.exec (MoveNet.next moveFirst 1) (aliceNet copyDB []) accompanied = some n' ∧
      MoveNet.next moveFirst 1 n' .mover = some n'' ∧ n'.db.messages.get? 1 = some m ∧
      n''.db.messages.get? 1 = none ∧ n''.db.messages.get? 2 = none ∧
      (1 ∈ n'.marked ∨ ∃ folderId,
        (FolderDAL.findByName n''.db 1 moveFirst.targetFolder).bind (·.id) = some folderId ∧
          HasCopy n''.db folderId m) := by
  have hmarked : ∀ r ∈ copyDB.messages.rows, r.2.flags.deleted = false := by decide
  refine ⟨_, _, _, rfl, rfl, rfl, rfl, rfl, ?_⟩
  refine copied_or_marked_of_exec rfl (inMailbox_alice copyDB) (inMailbox_alice copyDB)
    foreignKeys_copyDB (fun i m hm _ hdel => ?_) steady_accompanied rfl rfl rfl 1 _ rfl rfl
  exact absurd (hdel.symm.trans (hmarked (i, m) (Table.mem_rows_iff.mpr hm))) (by decide)

/-- The second mail is to go to the archive. -/
def moveSecond : Move :=
  { mailId := 2, targetFolder := lit "Archive", lo := by decide, hi := by decide }

/-- A mailbox of three, the first of which the other session has flagged. -/
def threeMails : DB where
  users := copyDB.users
  folders := copyDB.folders
  messages := ((Table.empty.insert
    { inboxRow 1 "1.eml" "bob" with flags := { deleted := true } }).insert
    (inboxRow 2 "2.eml" "carol")).insert (inboxRow 3 "3.eml" "dave")
  recipients := .empty

/-- The other session expunges between the client's `COPY` and `STORE`. -/
def overtaken : List MoveAct := [.mover, .expunge { tag := lit "b", type := .expunge }, .mover]

/-- The client ends with `OK`; the third message is gone, and the archive holds the second. -/
theorem exec_overtaken :
    ∃ n' n'', Run.exec (MoveNet.next moveSecond 1) (aliceNet threeMails [1]) overtaken = some n' ∧
      n'.phase = .expunging ∧ MoveNet.next moveSecond 1 n' .mover = some n'' ∧ n''.phase = .done ∧
      n'.marked = [1] ∧ n'.db.messages.get? 3 =
        some { inboxRow 3 "3.eml" "dave" with flags := { deleted := true } } ∧
      (FolderDAL.findByName n''.db 1 moveSecond.targetFolder).bind (·.id) = some 2 ∧
      n''.db.messages.rows = [(2, inboxRow 2 "2.eml" "carol"),
        (4, { inboxRow 1 "2.eml" "carol" with folderId := 2 })] :=
  ⟨_, _, rfl, rfl, rfl, rfl, rfl, rfl, rfl, rfl⟩

/-- **A move that is overtaken destroys a message that was never copied**, and reports success. -/
theorem move_loses_mail :
    ∃ (mv : Move) (n n' n'' : MoveNet) (as : List MoveAct) (i : ℤ) (m : MessageData),
      n.phase = .copying ∧ InMailbox 1 1 n.mover n.db ∧ InMailbox 1 1 n.other n.db ∧
      ForeignKeys n.db ∧ (∀ i m, n.db.messages.get? i = some m → m.folderId = 1 →
        m.flags.deleted = true → i ∈ n.marked) ∧
      Run.exec (MoveNet.next mv 1) n as = some n' ∧ n'.phase = .expunging ∧
      MoveNet.next mv 1 n' .mover = some n'' ∧ n''.phase = .done ∧
      n'.db.messages.get? i = some m ∧ n''.db.messages.get? i = none ∧
      ¬ (i ∈ n'.marked ∨ ∃ folderId,
        (FolderDAL.findByName n''.db 1 mv.targetFolder).bind (·.id) = some folderId ∧
          HasCopy n''.db folderId m) := by
  obtain ⟨n', n'', hrun, hphase, hnext, hdone, hmarked, hm, hname, hrows⟩ := exec_overtaken
  have hrefs : ∀ r ∈ threeMails.messages.rows, (threeMails.users.get? r.2.userId).isSome = true ∧
      (threeMails.folders.get? r.2.folderId).isSome = true := by decide
  have hdel : ∀ r ∈ threeMails.messages.rows, r.2.flags.deleted = true → r.1 ∈ [1] := by decide
  refine ⟨moveSecond, aliceNet threeMails [1], n', n'', overtaken, 3, _, rfl, inMailbox_alice _,
    inMailbox_alice _, fun i m hm => hrefs (i, m) (Table.mem_rows_iff.mpr hm),
    fun i m hm _ => hdel (i, m) (Table.mem_rows_iff.mpr hm), hrun, hphase, hnext, hdone, hm, ?_, ?_⟩
  · rw [Table.get?, hrows]
    rfl
  · rintro (hmark | ⟨folderId, hfolder, i, d, hd, hd₂, -, hcontent⟩)
    · rw [hmarked] at hmark
      exact absurd hmark (by decide)
    · obtain rfl : 2 = folderId := Option.some.inj (hname.symm.trans hfolder)
      have hrow := Table.mem_rows_iff.mpr hd
      rw [hrows] at hrow
      have hpath : d.content.rawFilePath = lit "3.eml" := congrArg Content.rawFilePath hcontent
      simp only [List.mem_cons, Prod.mk.injEq, List.not_mem_nil, or_false] at hrow
      obtain ⟨-, rfl⟩ | ⟨-, rfl⟩ := hrow
      · exact absurd hd₂ (by decide)
      · exact absurd hpath (by decide)

end MailStack.Client
