import Mathlib.Data.List.Pairwise
import MailStack.Imap.FetchLine
import MailStack.Machinery.Faults
import MailStack.Machinery.Replay
import MailStack.Store.Listing

/-!
# Imap/Expunge — `EXPUNGE`: what its responses say, and what it leaves

`HandleExpunge` goes through the messages that `findByFolder` lists, from the last to the first.
Whichever of its deletions fail, a client that removes what the responses number ends with the
messages that are left of that list: `replays`.

The list is one page of the folder, while `CLOSE` deletes what is flagged in all of it.  The two
leave the same exactly when nothing behind the page is flagged: `expunges_iff`.
-/

open Bytes

namespace MailStack.Imap

open Store Prog

/-! ## The listed messages -/

/-- The row of the message is there. -/
def Present (db : DB) (m : Message) : Prop := (m.id.bind db.messages.get?).isSome = true

instance (db : DB) (m : Message) : Decidable (Present db m) := inferInstanceAs (Decidable (_ = _))

/-- Every message of a folder has its row, each its own. -/
theorem pairwise_id_byUid (db : DB) (folderId : ℤ) :
    (byUid db folderId).Pairwise fun m m' => m.id ≠ m'.id := by
  have hrows : ((db.messages.rows.filter fun r => r.2.folderId = folderId).map fun r =>
      MessageDAL.rowToMessage r.1 r.2).Pairwise fun m m' => m.id ≠ m'.id := by
    rw [List.pairwise_map]
    refine (db.messages.sorted.filter _).imp fun {r r'} hlt hid => ?_
    exact hlt.ne (Option.some.inj hid)
  exact hrows.perm (List.perm_insertionSort _ _).symm fun h => h.symm

/-- The messages of a page have different ids. -/
theorem pairwise_id_page (db : DB) (folderId : ℤ) :
    (page db folderId).Pairwise fun m m' => m.id ≠ m'.id := by
  rw [page, findByFolder_eq_take]
  exact (pairwise_id_byUid db folderId).sublist (List.take_sublist 50 _)

/-- A message of a page is a row. -/
theorem row_of_mem_page {db : DB} {folderId : ℤ} {m : Message} (h : m ∈ page db folderId) :
    ∃ id, m.id = some id ∧ db.messages.get? id = some m.toMessageData := by
  rw [page, findByFolder_eq_take] at h
  exact (mem_byUid.mp (List.mem_of_mem_take h)).2

/-- The messages `HandleExpunge` goes through, with their numbers. -/
def toExpunge (messages : List Message) : List (Message × ℕ) :=
  ((messages.zipIdx 1).filter (·.1.flags.deleted)).reverse

/-- The response that says that the message with this number is gone. -/
def expungeLine (k : ℕ) : Bytes := ImapResponse.untagged (decimal k ++ lit " EXPUNGE")

/-- The ids of the messages. -/
def idsOf (pairs : List (Message × ℕ)) : List ℤ := pairs.filterMap (·.1.id)

theorem idsOf_cons {p : Message × ℕ} {id : ℤ} (h : p.1.id = some id)
    (pairs : List (Message × ℕ)) : idsOf (p :: pairs) = id :: idsOf pairs :=
  List.filterMap_cons_some h

/-! ## Whatever fails -/

section Faults

variable {α γ : Type} {d d' : Dispatcher} {db db' : DB} {ws : List (DB × DB)}

/-- A run of two handlers in sequence. -/
theorem runs_bind {h : HandlerM α} {f : α → HandlerM γ} {r : Except Stop γ}
    (hr : Runs store ((h >>= f).run.run d) db ws (r, d') db') :
    ∃ r₁ d₁ db₁ ws₁ ws₂, Runs store (h.run.run d) db ws₁ (r₁, d₁) db₁ ∧
      ∀ a, r₁ = .ok a → Runs store ((f a).run.run d₁) db₁ ws₂ (r, d') db' := by
  obtain ⟨⟨r₁, d₁⟩, db₁, ws₁, ws₂, h₁, h₂, -⟩ := Runs.of_bind hr
  refine ⟨r₁, d₁, db₁, ws₁, ws₂, h₁, ?_⟩
  rintro a rfl
  exact h₂

/-- A value that is there is handed on, whatever fails. -/
theorem runs_value {o : Option α} {a : α} (ho : o = some a) {r : Except Stop α}
    (hr : Runs store ((value o).run.run d) db ws (r, d') db') : r = .ok a ∧ d' = d ∧ db' = db := by
  subst ho
  obtain ⟨hret, hdb, -⟩ := Runs.of_ret hr
  obtain ⟨rfl, rfl⟩ := Prod.mk.inj hret
  exact ⟨rfl, rfl, hdb⟩

theorem runs_pure {a : α} {r : Except Stop α}
    (hr : Runs store ((pure a : HandlerM α).run.run d) db ws (r, d') db') :
    r = .ok a ∧ d' = d ∧ db' = db := by
  obtain ⟨hret, hdb, -⟩ := Runs.of_ret hr
  obtain ⟨rfl, rfl⟩ := Prod.mk.inj hret
  exact ⟨rfl, rfl, hdb⟩

/-- A call of the store runs as the store does. -/
theorem runs_ask {p : DbM α} {r : Except Stop α}
    (hr : Runs store ((ask p).run.run d) db ws (r, d') db') :
    ∃ a ws', r = .ok a ∧ d' = d ∧ Runs store p db ws' a db' := by
  obtain ⟨⟨a, d₁⟩, db₁, ws₁, ws₂, hlift, hok, -⟩ := Runs.of_bind (p := (StateT.lift p).run d) hr
  obtain ⟨b, db₂, ws₃, ws₄, hp, hret, -⟩ := Runs.of_bind (p := p) hlift
  obtain ⟨hpair, rfl, -⟩ := Runs.of_ret hret
  obtain ⟨rfl, rfl⟩ := Prod.mk.inj hpair
  obtain ⟨hpair, rfl, -⟩ := Runs.of_ret hok
  obtain ⟨rfl, rfl⟩ := Prod.mk.inj hpair
  exact ⟨a, ws₃, rfl, rfl, hp⟩

/-- **`hardDelete` of a message that is there** deletes it, or fails and leaves it. -/
theorem runs_hardDelete {id : ℤ} (hrow : (db.messages.get? id).isSome = true)
    {r : Except Stop (Option Answer)}
    (hr : Runs store ((attempt (MessageRepository.hardDelete id)).run.run d) db ws (r, d') db') :
    d' = d ∧ ((∃ a, r = .ok (some a) ∧ db' = MessageDAL.hardDelete db id) ∨
      (r = .ok none ∧ db' = db)) := by
  obtain ⟨m, hm⟩ := Option.isSome_iff_exists.mp hrow
  have hfind : MessageDAL.findByID db id = some (MessageDAL.rowToMessage id m) := by
    rw [MessageDAL.findByID, hm]
    rfl
  obtain ⟨r₁, d₁, db₁, ws₁, ws₂, hask, hrest⟩ := runs_bind hr
  obtain ⟨result, ws₃, rfl, rfl, hp⟩ := runs_ask hask
  have hrest := hrest result rfl
  have hp := Runs.of_query_bind hp
  rw [hfind] at hp
  rcases Runs.of_locked_bind hp with ⟨db₂, a, ws₄, happly, hret, -⟩ | ⟨e, hret⟩
  · obtain ⟨rfl, rfl, -⟩ := Runs.of_ret hret
    obtain ⟨rfl, rfl⟩ := Prod.mk.inj (Except.ok.inj happly)
    obtain ⟨rfl, rfl, rfl⟩ := runs_pure hrest
    exact ⟨rfl, .inl ⟨{}, rfl, rfl⟩⟩
  · obtain ⟨rfl, rfl, -⟩ := Runs.of_ret hret
    obtain ⟨rfl, rfl, rfl⟩ := runs_pure hrest
    exact ⟨rfl, .inr ⟨rfl, rfl⟩⟩

/-- **What a run of the loop did**: some of the messages are deleted, and exactly these are
reported. -/
theorem runs_expungeAll {pairs : List (Message × ℕ)} {r : Except Stop Bytes}
    (hids : pairs.Pairwise fun p p' => p.1.id ≠ p'.1.id)
    (hrows : ∀ p ∈ pairs, ∃ id, p.1.id = some id ∧ (db.messages.get? id).isSome = true)
    (hr : Runs store ((expungeAll pairs).run.run d) db ws (r, d') db') :
    ∃ done : Message × ℕ → Bool, r = .ok ((pairs.filter done).flatMap fun p => expungeLine p.2) ∧ d' = d ∧
      db' = (idsOf (pairs.filter done)).foldl MessageDAL.hardDelete db := by
  induction pairs generalizing d d' db db' ws r with
  | nil =>
    obtain ⟨rfl, rfl, rfl⟩ := runs_pure hr
    exact ⟨fun _ => true, rfl, rfl, rfl⟩
  | cons p pairs ih =>
    obtain ⟨msg, index⟩ := p
    obtain ⟨hfirst, hids⟩ := List.pairwise_cons.mp hids
    obtain ⟨⟨id, hid, hrow⟩, hrows⟩ := List.forall_mem_cons.mp hrows
    dsimp only at hid hfirst
    obtain ⟨r₁, d₁, db₁, ws₁, ws₂, hvalue, hnext⟩ := runs_bind hr
    obtain ⟨rfl, rfl, rfl⟩ := runs_value hid hvalue
    obtain ⟨r₂, d₂, db₂, ws₃, ws₄, hdelete, hloop⟩ := runs_bind (hnext id rfl)
    obtain ⟨hd, hcase⟩ := runs_hardDelete hrow hdelete
    subst hd
    have hrest : ∀ {line : Bytes} {db₃ : DB} (_ : ∀ p ∈ pairs, ∃ id, p.1.id = some id ∧
        (db₃.messages.get? id).isSome = true) {ws₅ : List (DB × DB)},
        Runs store ((do return line ++ (← expungeAll pairs) : HandlerM Bytes).run.run d₂) db₃ ws₅
          (r, d') db' →
        ∃ done : Message × ℕ → Bool, r = .ok (line ++ (pairs.filter done).flatMap fun p => expungeLine p.2) ∧
          d' = d₂ ∧ db' = (idsOf (pairs.filter done)).foldl MessageDAL.hardDelete db₃ := by
      intro line db₃ hrows₃ ws₅ hr
      obtain ⟨r₃, d₃, db₄, ws₆, ws₇, hall, hr⟩ := runs_bind hr
      obtain ⟨done, rfl, rfl, rfl⟩ := ih hids hrows₃ hall
      obtain ⟨rfl, rfl, rfl⟩ := runs_pure (hr _ rfl)
      exact ⟨done, rfl, rfl, rfl⟩
    have hother : ∀ p ∈ pairs, p ≠ (msg, index) := by
      rintro p hp rfl
      exact hfirst _ hp rfl
    have hfilter : ∀ (b : Bool) (done : Message × ℕ → Bool),
        pairs.filter (fun p => if p = (msg, index) then b else done p) = pairs.filter done :=
      fun b done => List.filter_congr fun p hp => if_neg (hother p hp)
    rcases hcase with ⟨a, rfl, rfl⟩ | ⟨rfl, rfl⟩
    · have hrows' : ∀ p ∈ pairs, ∃ id', p.1.id = some id' ∧
          ((MessageDAL.hardDelete db₁ id).messages.get? id').isSome = true := by
        intro p hp
        obtain ⟨id', hid', hrow'⟩ := hrows p hp
        refine ⟨id', hid', ?_⟩
        rw [MessageDAL.hardDelete_messages, Table.get?_erase, if_neg, hrow']
        rintro rfl
        exact hfirst p hp (hid.trans hid'.symm)
      obtain ⟨done, rfl, rfl, rfl⟩ := hrest hrows' (hloop _ rfl)
      refine ⟨fun p => if p = (msg, index) then true else done p, ?_, rfl, ?_⟩
      · rw [List.filter_cons_of_pos (by simp), hfilter]
        rfl
      · rw [List.filter_cons_of_pos (by simp), hfilter, idsOf_cons hid]
        rfl
    · obtain ⟨done, rfl, rfl, rfl⟩ := hrest hrows (hloop _ rfl)
      refine ⟨fun p => if p = (msg, index) then false else done p, ?_, rfl, ?_⟩
      · rw [List.filter_cons_of_neg (by simp), hfilter]
        rfl
      · rw [List.filter_cons_of_neg (by simp), hfilter]

variable {inbox : ℤ} {cmd : ImapCommand}

/-- So have those to be expunged. -/
theorem pairwise_toExpunge {messages : List Message}
    (h : messages.Pairwise fun m m' => m.id ≠ m'.id) :
    (toExpunge messages).Pairwise fun p p' => p.1.id ≠ p'.1.id := by
  rw [← List.zipIdx_map_fst 1 messages, List.pairwise_map] at h
  exact List.pairwise_reverse.mpr ((h.filter _).imp fun hne => hne.symm)

/-- What is expunged is on the page. -/
theorem mem_of_mem_toExpunge {messages : List Message} {p : Message × ℕ}
    (h : p ∈ toExpunge messages) : p.1 ∈ messages := by
  have hzip := (List.mem_filter.mp (List.mem_reverse.mp h)).1
  rw [← List.zipIdx_map_fst 1 messages]
  exact List.mem_map_of_mem hzip

/-- And it is there. -/
theorem present_of_mem_toExpunge {db : DB} :
    ∀ p ∈ toExpunge (page db inbox), ∃ id, p.1.id = some id ∧
      (db.messages.get? id).isSome = true := by
  intro p hp
  obtain ⟨id, hid, hrow⟩ := row_of_mem_page (mem_of_mem_toExpunge hp)
  exact ⟨id, hid, Option.isSome_of_eq_some hrow⟩

/-- **What a run of `HandleExpunge` did.** -/
theorem runs_handleExpunge (hd : Opened d inbox) (hargs : cmd.args = []) {r : Except Stop Bytes}
    (hr : Runs store ((handleExpunge cmd).run.run d) db ws (r, d') db') :
    ∃ done : Message × ℕ → Bool,
      r = .ok (((toExpunge (page db inbox)).filter done).flatMap (fun p => expungeLine p.2) ++
        ImapResponse.ok cmd.tag (lit "Expunge completed")) ∧
      db' = (idsOf ((toExpunge (page db inbox)).filter done)).foldl MessageDAL.hardDelete db := by
  obtain ⟨r₁, d₁, db₁, ws₁, ws₂, hget, hbody⟩ := runs_bind hr
  obtain ⟨hret, rfl, -⟩ := Runs.of_ret hget
  obtain ⟨rfl, rfl⟩ := Prod.mk.inj hret
  have hbody := hbody _ rfl
  rw [if_neg (not_not_intro hd.state), hargs, if_neg (by simp)] at hbody
  obtain ⟨r₂, d₂, db₂, ws₃, ws₄, hmailbox, hlist⟩ := runs_bind hbody
  obtain ⟨rfl, rfl, rfl⟩ := runs_value hd.mailbox hmailbox
  obtain ⟨r₃, d₃, db₃, ws₅, ws₆, hask, hloop⟩ := runs_bind (hlist _ rfl)
  obtain ⟨messages, ws₇, rfl, rfl, hquery⟩ := runs_ask hask
  obtain ⟨rfl, rfl, -⟩ := Runs.of_ret (Runs.of_query_bind hquery)
  obtain ⟨r₄, d₄, db₄, ws₈, ws₉, hall, hreply⟩ := runs_bind (hloop _ rfl)
  obtain ⟨done, rfl, rfl, rfl⟩ := runs_expungeAll
    (pairwise_toExpunge (pairwise_id_page db₃ inbox)) present_of_mem_toExpunge hall
  obtain ⟨rfl, rfl, rfl⟩ := runs_pure (hreply _ rfl)
  exact ⟨done, rfl, rfl⟩

/-- What is left of the list: the messages that were not deleted. -/
theorem left_of_done {messages : List Message} (hids : messages.Pairwise fun m m' => m.id ≠ m'.id)
    (hrows : ∀ m ∈ messages, ∃ id, m.id = some id ∧ (db.messages.get? id).isSome = true)
    (done : Message × ℕ → Bool) :
    (((messages.zipIdx 1).filter fun p => !(done p && p.1.flags.deleted)).map (·.1)) =
      messages.filter fun m => Present
        ((idsOf ((toExpunge messages).filter done)).foldl MessageDAL.hardDelete db) m := by
  rw [← List.zipIdx_map_fst 1 messages, List.pairwise_map] at hids
  have hinj : ∀ p ∈ messages.zipIdx 1, ∀ p' ∈ messages.zipIdx 1, p.1.id = p'.1.id → p = p' := by
    intro p hp p' hp' heq
    have : Std.Symm fun p p' : Message × ℕ => p.1.id ≠ p'.1.id := ⟨fun _ _ h => h.symm⟩
    by_contra hne
    exact hids.forall hp hp' hne heq
  have hnumbered : ∀ g : Message → Bool,
      messages.filter g = ((messages.zipIdx 1).filter (g ∘ (·.1))).map (·.1) := by
    intro g
    rw [← List.filter_map, List.zipIdx_map_fst]
  rw [hnumbered]
  refine congrArg _ (List.filter_congr fun p hp => ?_)
  have hmem : p.1 ∈ messages := by
    rw [← List.zipIdx_map_fst 1 messages]
    exact List.mem_map_of_mem hp
  obtain ⟨id, hid, hrow⟩ := hrows p.1 hmem
  have hgone : id ∈ idsOf ((toExpunge messages).filter done) ↔
      (done p && p.1.flags.deleted) = true := by
    rw [idsOf, List.mem_filterMap]
    constructor
    · rintro ⟨p', hp', hid'⟩
      obtain ⟨hp', hdone⟩ := List.mem_filter.mp hp'
      obtain ⟨hp', hdeleted⟩ := List.mem_filter.mp (List.mem_reverse.mp hp')
      obtain rfl := hinj p hp p' hp' (hid.trans hid'.symm)
      rw [hdone, hdeleted]
      rfl
    · intro h
      obtain ⟨hdone, hdeleted⟩ := Bool.and_eq_true_iff.mp h
      exact ⟨p, List.mem_filter.mpr ⟨List.mem_reverse.mpr (List.mem_filter.mpr ⟨hp, hdeleted⟩),
        hdone⟩, hid⟩
  rw [Function.comp_apply, Bool.eq_iff_iff, decide_eq_true_iff, Present, hid, Option.bind_some,
    foldl_hardDelete_get?]
  by_cases h : id ∈ idsOf ((toExpunge messages).filter done)
  · rw [if_pos h, hgone.mp h]
    simp
  · rw [if_neg h, hrow, Bool.eq_false_iff.mpr fun hd => h (hgone.mpr hd)]
    simp

/-- **The responses of `EXPUNGE` replay**, whichever deletions fail: removing from the list what
they number, one after the other, never leaves its range, and ends with the messages that are still
there. -/
theorem replays (hd : Opened d inbox) (hargs : cmd.args = []) {r : Except Stop Bytes}
    (hr : Runs store ((handleExpunge cmd).run.run d) db ws (r, d') db') :
    ∃ ks : List ℕ,
      r = .ok (ks.flatMap expungeLine ++ ImapResponse.ok cmd.tag (lit "Expunge completed")) ∧
      Replay.replay (page db inbox) ks = some ((page db inbox).filter fun m => Present db' m) := by
  obtain ⟨done, rfl, rfl⟩ := runs_handleExpunge hd hargs hr
  refine ⟨((toExpunge (page db inbox)).filter done).map (·.2), by rw [List.flatMap_map], ?_⟩
  have hrows : ∀ m ∈ page db inbox, ∃ id, m.id = some id ∧ (db.messages.get? id).isSome = true := by
    intro m hm
    obtain ⟨id, hid, hrow⟩ := row_of_mem_page hm
    exact ⟨id, hid, Option.isSome_of_eq_some hrow⟩
  rw [← left_of_done (pairwise_id_page db inbox) hrows done, toExpunge, List.filter_reverse,
    List.filter_filter]
  exact Replay.replay_marked _ _

end Faults

/-! ## The folder afterwards -/

section Folder

variable {db : DB} {folderId : ℤ}

/-- Deleting a list of ids leaves the other rows. -/
theorem rows_foldl_hardDelete (ids : List ℤ) (db : DB) :
    (ids.foldl MessageDAL.hardDelete db).messages.rows =
      db.messages.rows.filter fun r => r.1 ∉ ids := by
  induction ids generalizing db with
  | nil => exact (List.filter_eq_self.mpr fun r _ => by simp).symm
  | cons id ids ih =>
    rw [List.foldl_cons, ih, MessageDAL.hardDelete_messages, Table.erase, Table.filter,
      List.filter_filter]
    refine List.filter_congr fun r _ => ?_
    rw [Bool.eq_iff_iff]
    simp only [Bool.and_eq_true, decide_eq_true_eq, List.mem_cons, not_or]
    exact and_comm

/-- **What is left of a folder**, in order, when messages are deleted. -/
theorem byUid_foldl_hardDelete (ids : List ℤ) (db : DB) (folderId : ℤ) :
    byUid (ids.foldl MessageDAL.hardDelete db) folderId =
      (byUid db folderId).filter fun m => m.id.all fun id => id ∉ ids := by
  have : Std.Total fun m m' : Message => m.uid ≤ m'.uid := ⟨fun m m' => le_total m.uid m'.uid⟩
  have : IsTrans Message fun m m' => m.uid ≤ m'.uid := ⟨fun _ _ _ h h' => le_trans h h'⟩
  rw [byUid, byUid, rows_foldl_hardDelete, Rank.filter_insertionSort, List.filter_map,
    List.filter_filter, List.filter_filter]
  refine congrArg _ (congrArg _ (List.filter_congr fun r _ => ?_))
  rw [Bool.and_comm]
  rfl

/-- `findDeleted` finds the first of the messages marked deleted. -/
theorem findDeleted_eq_take (db : DB) (folderId : ℤ) (limit : ℕ) :
    MessageDAL.findDeleted db folderId limit 0 =
      ((byUid db folderId).filter (·.flags.deleted)).take limit := by
  have : Std.Total fun m m' : Message => m.uid ≤ m'.uid := ⟨fun m m' => le_total m.uid m'.uid⟩
  have : IsTrans Message fun m m' => m.uid ≤ m'.uid := ⟨fun _ _ _ h h' => le_trans h h'⟩
  rw [MessageDAL.findDeleted, MessageDAL.select, List.drop_zero, byUid, Rank.filter_insertionSort,
    List.filter_map, List.filter_filter]
  refine congrArg (List.take limit) (congrArg _ (congrArg _ (List.filter_congr fun r _ => ?_)))
  rw [Bool.and_comm, Bool.eq_iff_iff]
  simp [MessageDAL.rowToMessage]

/-- Deleting a part of a folder's messages leaves the others. -/
theorem byUid_of_deleted {l : List Message} (hl : ∀ m ∈ l, m ∈ byUid db folderId) :
    byUid ((l.filterMap (·.id)).foldl MessageDAL.hardDelete db) folderId =
      (byUid db folderId).filter fun m => m ∉ l := by
  rw [byUid_foldl_hardDelete]
  refine List.filter_congr fun m hm => ?_
  obtain ⟨-, id, hid, -⟩ := mem_byUid.mp hm
  rw [hid, Option.all_some, Bool.eq_iff_iff, decide_eq_true_iff, decide_eq_true_iff]
  have : Std.Symm fun m m' : Message => m.id ≠ m'.id := ⟨fun _ _ h => h.symm⟩
  refine not_congr ⟨fun hmem => ?_, fun hml => List.mem_filterMap.mpr ⟨m, hml, hid⟩⟩
  obtain ⟨m', hm', hid'⟩ := List.mem_filterMap.mp hmem
  have hsame : m = m' := by
    by_contra hne
    exact (pairwise_id_byUid db folderId).forall hm (hl m' hm') hne (hid.trans hid'.symm)
  rwa [hsame]

/-- A message is among the first fifty or behind them. -/
theorem mem_page_or_behind {m : Message} (h : m ∈ byUid db folderId) :
    m ∈ page db folderId ∨ m ∈ (byUid db folderId).drop 50 := by
  rw [← List.take_append_drop 50 (byUid db folderId)] at h
  exact List.mem_append.mp h

/-- And not both. -/
theorem notMem_page_of_behind {m : Message} (h : m ∈ (byUid db folderId).drop 50) :
    m ∉ page db folderId := by
  have hall := pairwise_id_byUid db folderId
  rw [← List.take_append_drop 50 (byUid db folderId)] at hall
  exact fun hpage => (List.pairwise_append.mp hall).2.2 m hpage m h rfl

/-- Of the page those are expunged that are marked deleted. -/
theorem mem_map_toExpunge {messages : List Message} {m : Message} :
    m ∈ (toExpunge messages).map (·.1) ↔ m ∈ messages ∧ m.flags.deleted = true := by
  rw [List.mem_map]
  constructor
  · rintro ⟨p, hp, rfl⟩
    exact ⟨mem_of_mem_toExpunge hp, (List.mem_filter.mp (List.mem_reverse.mp hp)).2⟩
  · rintro ⟨hm, hdeleted⟩
    rw [← List.zipIdx_map_fst 1 messages] at hm
    obtain ⟨p, hp, rfl⟩ := List.mem_map.mp hm
    exact ⟨p, List.mem_reverse.mpr (List.mem_filter.mpr ⟨hp, hdeleted⟩), rfl⟩

end Folder

/-! ## `EXPUNGE` and `CLOSE`, with nothing failing -/

section Alone

variable {d : Dispatcher} {db : DB} {inbox : ℤ} {cmd : ImapCommand}

/-- A row that is there is deleted. -/
theorem serves_hardDelete {id : ℤ} (hrow : (db.messages.get? id).isSome = true) :
    Serves (attempt (MessageRepository.hardDelete id)) d db (some {}) d
      (MessageDAL.hardDelete db id) := by
  obtain ⟨m, hm⟩ := Option.isSome_iff_exists.mp hrow
  have hfind : MessageDAL.findByID db id = some (MessageDAL.rowToMessage id m) := by
    rw [MessageDAL.findByID, hm]
    rfl
  have hrun : run store (MessageRepository.hardDelete id) db =
      (MessageDAL.hardDelete db id, .ok {}) := by
    rw [MessageRepository.hardDelete, MessageRepository.findByID, run_query_bind, hfind]
    rfl
  have hask : Serves (ask (MessageRepository.hardDelete id)) d db _ d _ := .ask _
  rw [hrun] at hask
  exact hask.bind (.pure _)

/-- **`expungeAll` deletes the rows of its list one after the other.** -/
theorem serves_expungeAll {pairs : List (Message × ℕ)}
    (hids : pairs.Pairwise fun p p' => p.1.id ≠ p'.1.id)
    (hrows : ∀ p ∈ pairs, ∃ id, p.1.id = some id ∧ (db.messages.get? id).isSome = true) :
    Serves (expungeAll pairs) d db (pairs.flatMap fun p => expungeLine p.2) d
      ((idsOf pairs).foldl MessageDAL.hardDelete db) := by
  induction pairs generalizing db with
  | nil => exact .pure []
  | cons p pairs ih =>
    obtain ⟨hfirst, hids⟩ := List.pairwise_cons.mp hids
    obtain ⟨⟨id, hid, hrow⟩, hrows⟩ := List.forall_mem_cons.mp hrows
    have hrows' : ∀ p ∈ pairs, ∃ id', p.1.id = some id' ∧
        ((MessageDAL.hardDelete db id).messages.get? id').isSome = true := by
      intro p' hp'
      obtain ⟨id', hid', hrow'⟩ := hrows p' hp'
      refine ⟨id', hid', ?_⟩
      rw [MessageDAL.hardDelete_messages, Table.get?_erase, if_neg, hrow']
      rintro rfl
      exact hfirst p' hp' (hid.trans hid'.symm)
    rw [idsOf_cons hid]
    exact .bind (.value hid) (.bind (serves_hardDelete hrow) (.bind (ih hids hrows') (.pure _)))

/-- **`EXPUNGE` deletes the flagged messages of the page.** -/
theorem serves_handleExpunge (hd : Opened d inbox) (hargs : cmd.args = []) (db : DB) :
    Serves (handleExpunge cmd) d db
      ((toExpunge (page db inbox)).flatMap (fun p => expungeLine p.2) ++
        ImapResponse.ok cmd.tag (lit "Expunge completed")) d
      ((idsOf (toExpunge (page db inbox))).foldl MessageDAL.hardDelete db) := by
  refine .get_bind ?_
  rw [if_neg (not_not_intro hd.state), hargs, if_neg (by simp)]
  refine .bind (.get_bind (.value hd.mailbox)) (.bind (.ask _) (.bind ?_ (.pure _)))
  exact serves_expungeAll (pairwise_toExpunge (pairwise_id_page db inbox)) present_of_mem_toExpunge

/-- **`CLOSE` deletes the flagged messages of the folder**, as far as `INT_MAX` goes. -/
theorem serves_handleClose (hd : Opened d inbox) (db : DB) :
    Serves (handleClose cmd) d db (ImapResponse.ok cmd.tag (lit "Close completed"))
      { d with state := .authenticated, currentMailbox := {} }
      (((((byUid db inbox).filter (·.flags.deleted)).take MessageRepository.intMax).filterMap
        (·.id)).foldl MessageDAL.hardDelete db) := by
  have hrun : run store (MessageRepository.expunge inbox) db =
      ((((MessageDAL.findDeleted db inbox MessageRepository.intMax 0).filterMap
        (·.id)).foldl MessageDAL.hardDelete db), .ok {}) := rfl
  have hask : Serves (ask (MessageRepository.expunge inbox)) d db _ d _ := .ask _
  rw [hrun, findDeleted_eq_take] at hask
  refine .get_bind ?_
  rw [if_neg (not_not_intro hd.state)]
  exact .bind (.get_bind (.value hd.mailbox)) (.bind (hask.bind (.pure _)) (.bind rfl (.pure _)))

/-- The flagged messages of the page, listed by the loop. -/
theorem idsOf_toExpunge (messages : List Message) :
    idsOf (toExpunge messages) = ((toExpunge messages).map (·.1)).filterMap (·.id) := by
  rw [List.filterMap_map]
  rfl

/-- **What `EXPUNGE` leaves**: the messages that are not flagged, and those behind the page. -/
theorem byUid_expunge (hd : Opened d inbox) (hargs : cmd.args = []) (db : DB) :
    byUid (serve (handleExpunge cmd) d db).1 inbox =
      (byUid db inbox).filter fun m => ¬ (m ∈ page db inbox ∧ m.flags.deleted = true) := by
  rw [serves_handleExpunge hd hargs db, idsOf_toExpunge, byUid_of_deleted]
  · refine List.filter_congr fun m _ => ?_
    rw [Bool.eq_iff_iff, decide_eq_true_iff, decide_eq_true_iff, mem_map_toExpunge]
  · exact fun m hm => List.mem_of_mem_take (mem_map_toExpunge.mp hm).1

/-- **What `CLOSE` leaves**, if not more than `INT_MAX` messages are flagged: those that are not. -/
theorem byUid_close (hd : Opened d inbox) (db : DB)
    (hlen : ((byUid db inbox).filter (·.flags.deleted)).length ≤ MessageRepository.intMax) :
    byUid (serve (handleClose cmd) d db).1 inbox =
      (byUid db inbox).filter fun m => !m.flags.deleted := by
  rw [serves_handleClose hd db, List.take_of_length_le hlen,
    byUid_of_deleted fun m hm => (List.mem_filter.mp hm).1]
  refine List.filter_congr fun m hm => ?_
  rw [Bool.eq_iff_iff, decide_eq_true_iff, List.mem_filter, Bool.not_eq_true', not_and,
    Bool.not_eq_true]
  exact ⟨fun h => h hm, fun h _ => h⟩

/-- **`EXPUNGE` answers `OK`, and leaves exactly the messages that are not flagged, as `CLOSE`
does,** if and only if none behind the page is flagged. -/
theorem expunges_iff (hd : Opened d inbox) (hargs : cmd.args = []) (db : DB)
    (close : ImapCommand) :
    (∃ responses, (serve (handleExpunge cmd) d db).2.1 =
      .ok (responses ++ ImapResponse.ok cmd.tag (lit "Expunge completed"))) ∧
    ((byUid (serve (handleExpunge cmd) d db).1 inbox =
          (byUid db inbox).filter (fun m => !m.flags.deleted) ∧
        byUid (serve (handleClose close) d db).1 inbox =
          byUid (serve (handleExpunge cmd) d db).1 inbox) ↔
      ∀ m ∈ (byUid db inbox).drop 50, m.flags.deleted = false) := by
  refine ⟨⟨_, by rw [serves_handleExpunge hd hargs db]⟩, ?_⟩
  rw [byUid_expunge hd hargs db]
  constructor
  · rintro ⟨hleft, -⟩ m hm
    have hkept : m ∈ (byUid db inbox).filter
        fun m => ¬ (m ∈ page db inbox ∧ m.flags.deleted = true) :=
      List.mem_filter.mpr ⟨List.mem_of_mem_drop hm,
        decide_eq_true fun h => notMem_page_of_behind hm h.1⟩
    rw [hleft] at hkept
    simpa using (List.mem_filter.mp hkept).2
  · intro hbehind
    have hsame : (byUid db inbox).filter
        (fun m => ¬ (m ∈ page db inbox ∧ m.flags.deleted = true)) =
          (byUid db inbox).filter fun m => !m.flags.deleted := by
      refine List.filter_congr fun m hm => ?_
      rw [Bool.eq_iff_iff, decide_eq_true_iff, Bool.not_eq_true', ← Bool.not_eq_true, not_and]
      refine ⟨fun h => ?_, fun h _ => h⟩
      rcases mem_page_or_behind hm with hpage | hm
      · exact h hpage
      · simp [hbehind m hm]
    have hlen : ((byUid db inbox).filter (·.flags.deleted)).length ≤ 50 := by
      have hnone : ((byUid db inbox).drop 50).filter (·.flags.deleted) = [] :=
        List.filter_eq_nil_iff.mpr fun m hm => by simp [hbehind m hm]
      rw [← List.take_append_drop 50 (byUid db inbox), List.filter_append, hnone, List.append_nil]
      exact (List.length_filter_le _ _).trans (List.length_take_le _ _)
    refine ⟨hsame, ?_⟩
    rw [hsame, byUid_close hd db (hlen.trans (by decide))]

end Alone

/-! ## One page, and one message more -/

/-- The messages 1 to `n`, the last flagged. -/
def flaggedDB (n : ℕ) : DB := MessageDAL.updateDeleted (pageDB n) n true

def expungeCommand : ImapCommand := { tag := lit "a", type := .expunge, args := [] }

theorem opened_pageSession : Opened pageSession 1 := ⟨rfl, rfl⟩

theorem expunges_iff_two :
    (∃ responses, (serve (handleExpunge expungeCommand) pageSession (flaggedDB 2)).2.1 =
      .ok (responses ++ ImapResponse.ok (lit "a") (lit "Expunge completed"))) ∧
    ((byUid (serve (handleExpunge expungeCommand) pageSession (flaggedDB 2)).1 1 =
          (byUid (flaggedDB 2) 1).filter (fun m => !m.flags.deleted) ∧
        byUid (serve (handleClose expungeCommand) pageSession (flaggedDB 2)).1 1 =
          byUid (serve (handleExpunge expungeCommand) pageSession (flaggedDB 2)).1 1) ↔
      ∀ m ∈ (byUid (flaggedDB 2) 1).drop 50, m.flags.deleted = false) :=
  expunges_iff opened_pageSession rfl (flaggedDB 2) expungeCommand

/-- **The 51st message is flagged, and `EXPUNGE` leaves it.** -/
theorem not_expunges_page :
    Opened pageSession 1 ∧
      (serve (handleExpunge expungeCommand) pageSession (flaggedDB 51)).2.1 =
        .ok (ImapResponse.ok (lit "a") (lit "Expunge completed")) ∧
      byUid (serve (handleExpunge expungeCommand) pageSession (flaggedDB 51)).1 1 ≠
        (byUid (flaggedDB 51) 1).filter (fun m => !m.flags.deleted) ∧
      byUid (serve (handleClose expungeCommand) pageSession (flaggedDB 51)).1 1 =
        (byUid (flaggedDB 51) 1).filter (fun m => !m.flags.deleted) :=
  ⟨opened_pageSession, by decide +kernel, by decide +kernel, by decide +kernel⟩

/-- Two messages, the second flagged, and its deletion fails. -/
theorem replays_two :
    ∃ ks : List ℕ, Except.ok (ImapResponse.ok (lit "a") (lit "Expunge completed")) =
        (Except.ok (ks.flatMap expungeLine ++ ImapResponse.ok (lit "a") (lit "Expunge completed")) :
          Except Stop Bytes) ∧
      Replay.replay (page (flaggedDB 2) 1) ks =
        some ((page (flaggedDB 2) 1).filter fun m => Present (flaggedDB 2) m) := by
  obtain ⟨ws, hrun⟩ := runs_runFaults store ((handleExpunge expungeCommand).run.run pageSession)
    (flaggedDB 2, fun _ => some [])
  have hargs : expungeCommand.args = [] := rfl
  exact replays opened_pageSession hargs hrun

end MailStack.Imap
