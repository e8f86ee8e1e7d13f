import MailStack.Imap.Counts
import MailStack.Imap.Envelope
import MailStack.Imap.SeqSet
import MailStack.Imap.StoreFlags

/-!
# Imap/Addressed — the messages that a sequence set addresses

A listed number addresses the message at that position of the folder, if there is one.  The handlers
narrow it to an `int` first: `STORE` and `COPY` touch exactly the addressed messages when no number
that is beyond the folder narrows to a position of it (`touches_iff`).  `FETCH` besides pairs the
messages it selects with the numbers listed, those that select nothing included: `labels_iff`.
-/

open Bytes

namespace MailStack.Imap

open Store Prog ImapResponse

section Positions

variable {db : DB} {inbox n : ℤ} {ids : List ℤ} {m : Message}

/-- The message at a position of the folder. -/
def atPosition (db : DB) (inbox n : ℤ) : Option Message :=
  if 0 < n then (byUid db inbox)[(n - 1).toNat]? else none

/-- The messages at the listed positions. -/
def addressed (db : DB) (inbox : ℤ) (ids : List ℤ) : List Message :=
  ids.filterMap (atPosition db inbox)

/-- A number selects a message exactly when it narrows to a position of the page. -/
theorem isSome_nthMessage_iff : (nthMessage db inbox n).isSome = true ↔
    0 < toInt n ∧ toInt n ≤ (page db inbox).length := by
  rw [nthMessage]
  split_ifs with hpos
  · rw [← page, Option.isSome_iff_ne_none, Ne, List.getElem?_eq_none_iff]
    omega
  · simp [hpos]

theorem isSome_atPosition_iff : (atPosition db inbox n).isSome = true ↔
    0 < n ∧ n ≤ (byUid db inbox).length := by
  rw [atPosition]
  split_ifs with hpos
  · rw [Option.isSome_iff_ne_none, Ne, List.getElem?_eq_none_iff]
    omega
  · simp [hpos]

/-- **A number selects what is at the position it narrows to**, if the page goes that far. -/
theorem nthMessage_eq_atPosition (h : toInt n ≤ 50) :
    nthMessage db inbox n = atPosition db inbox (toInt n) := by
  rw [nthMessage, atPosition]
  split_ifs with hpos
  · rw [findByFolder_eq_take, List.getElem?_take_of_lt (by omega)]
  · rfl

theorem toInt_of_pos_of_le (hpos : 0 < n) (hle : n ≤ 50) : toInt n = n := by
  rw [toInt, Int.bmod_eq_of_le] <;> omega

/-- In a folder of one page, a position selects its message. -/
theorem nthMessage_of_isSome_atPosition (hlen : (byUid db inbox).length ≤ 50)
    (h : (atPosition db inbox n).isSome = true) :
    nthMessage db inbox n = atPosition db inbox n := by
  obtain ⟨hpos, hle⟩ := isSome_atPosition_iff.mp h
  have hn : toInt n = n := toInt_of_pos_of_le hpos (by omega)
  rw [nthMessage_eq_atPosition (by omega), hn]

end Positions

/-- Where one selection refines another, they come to the same only where they agree throughout. -/
theorem filterMap_eq_iff {α γ : Type} {f g : α → Option γ} {l : List α}
    (h : ∀ x ∈ l, (g x).isSome = true → f x = g x) :
    l.filterMap f = l.filterMap g ↔ ∀ x ∈ l, f x = g x := by
  have hlength : ∀ l : List α, (∀ x ∈ l, (g x).isSome = true → f x = g x) →
      (l.filterMap g).length ≤ (l.filterMap f).length := by
    intro l
    induction l with
    | nil => exact fun _ => le_rfl
    | cons x l ih =>
      intro h
      have hrest := ih fun y hy => h y (List.mem_cons_of_mem x hy)
      cases hx : g x with
      | none =>
        rw [List.filterMap_cons_none hx]
        exact hrest.trans ((List.sublist_cons_self x l).filterMap f).length_le
      | some b =>
        have hf : f x = some b := (h x (List.mem_cons_self ..) (by rw [hx]; rfl)).trans hx
        rw [List.filterMap_cons_some hx, List.filterMap_cons_some hf]
        exact Nat.succ_le_succ hrest
  refine ⟨?_, fun hall => List.filterMap_congr hall⟩
  induction l with
  | nil => exact fun _ x hx => absurd hx List.not_mem_nil
  | cons x l ih =>
    intro heq
    have hrest : ∀ y ∈ l, (g y).isSome = true → f y = g y :=
      fun y hy => h y (List.mem_cons_of_mem x hy)
    have hhead : f x = g x := by
      cases hg : g x with
      | some b => rw [h x (List.mem_cons_self ..) (by rw [hg]; rfl), hg]
      | none =>
        refine Option.eq_none_iff_forall_ne_some.mpr fun b hf => ?_
        have hcount := congrArg List.length heq
        rw [List.filterMap_cons_some hf, List.filterMap_cons_none hg, List.length_cons] at hcount
        have := hlength l hrest
        omega
    have htail : l.filterMap f = l.filterMap g := by
      cases hg : g x with
      | none =>
        rwa [List.filterMap_cons_none (hhead.trans hg), List.filterMap_cons_none hg] at heq
      | some b =>
        rw [List.filterMap_cons_some (hhead.trans hg), List.filterMap_cons_some hg] at heq
        exact (List.cons.inj heq).2
    intro y hy
    rcases List.mem_cons.mp hy with rfl | hy
    · exact hhead
    · exact ih hrest htail y hy

section Touched

variable {d : Dispatcher} {db : DB} {inbox u dest : ℤ} {cmd : ImapCommand} {set name : Bytes}
  {ids : List ℤ} {folder : Folder}

/-- `STORE` and `COPY` of a set touch the messages at the listed positions, in the folder `inbox`:
whatever flags are stored, and to whichever folder they are copied. -/
structure TouchesAddressed (d : Dispatcher) (db : DB) (u inbox : ℤ) (set : Bytes) (ids : List ℤ) :
    Prop where
  store : ∀ (cmd : ImapCommand) (item text : Bytes) (L : List Flag),
    cmd.args = [set, item, text] → splitArgs (trimParentheses text) = L.map Flag.name →
    (serve (handleStore cmd) d db).1 = MessageDAL.flagRows db
      ((addressed db inbox ids).filterMap (·.id)) ((storeOp item).written L)
  copy : ∀ (cmd : ImapCommand) (name : Bytes) (folder : Folder) (dest : ℤ),
    cmd.args = [set, name] → FolderDAL.findByName db u name = some folder →
    folder.id = some dest → ∃ e, Serves (handleCopySelected cmd) d db
      (ok cmd.tag (lit "Copy completed"), addressed db inbox ids) { d with lastError := e }
      (copyRows db dest ((addressed db inbox ids).filterMap (·.id)))

end Touched

/-! ## The numbers of a set -/

/-- What is read of the parts is sorted. -/
theorem of_parseSequenceSet {set : Bytes} {top : ℤ} {ids : List ℤ}
    (h : parseSequenceSet set top = .ok ids) :
    ∃ res, (split set ','.toUInt8).foldlM (seqPart top) [] = .ok res ∧
      ids = (res.insertionSort (· ≤ ·)).dedup := by
  rw [parseSequenceSet] at h
  cases hparts : (split set ','.toUInt8).foldlM (seqPart top) [] with
  | error e =>
    rw [hparts] at h
    cases h
  | ok res =>
    rw [hparts] at h
    exact ⟨res, rfl, (Except.ok.inj h).symm⟩

/-- The numbers are in ascending order, each once. -/
theorem pairwise_parseSequenceSet {set : Bytes} {top : ℤ} {ids : List ℤ}
    (h : parseSequenceSet set top = .ok ids) : ids.Pairwise (· < ·) := by
  obtain ⟨res, -, rfl⟩ := of_parseSequenceSet h
  exact pairwise_dedup_insertionSort res

/-- A number of an `int64_t`. -/
def InInt64 (n : ℤ) : Prop := -2 ^ 63 ≤ n ∧ n ≤ int64Max

theorem inInt64_of_stoll {s : Bytes} {n : ℤ} (h : stoll s = .ok n) : InInt64 n := by
  simp only [stoll] at h
  split_ifs at h with hempty hrange
  all_goals
    obtain rfl := Except.ok.inj h
    exact ⟨by omega, by omega⟩

theorem inInt64_seqNumber {s : Bytes} {top n : ℤ} (htop : InInt64 top)
    (h : (seqNumber top s).mapError Stop.throw = .ok n) : InInt64 n := by
  unfold seqNumber at h
  split_ifs at h
  · obtain rfl := Except.ok.inj h
    exact htop
  · cases hs : stoll s with
    | error e =>
      rw [hs] at h
      cases h
    | ok k =>
      rw [hs] at h
      obtain rfl := Except.ok.inj h
      exact inInt64_of_stoll hs

/-- A part brings numbers of an `int64_t`. -/
theorem inInt64_seqPart {part : Bytes} {top : ℤ} {res l : List ℤ} (htop : InInt64 top)
    (hres : ∀ n ∈ res, InInt64 n) (h : seqPart top res part = .ok l) : ∀ n ∈ l, InInt64 n := by
  unfold seqPart at h
  split at h
  · rename_i a b _
    cases ha : (seqNumber top a).mapError Stop.throw with
    | error e =>
      rw [ha] at h
      cases h
    | ok first =>
      cases hb : (seqNumber top b).mapError Stop.throw with
      | error e =>
        rw [ha, hb] at h
        cases h
      | ok second =>
        rw [ha, hb] at h
        change seqRange res (min first second) (max first second) = .ok l at h
        rw [seqRange] at h
        split_ifs at h
        obtain rfl := Except.ok.inj h
        obtain ⟨hlo, hhi⟩ := inInt64_seqNumber htop ha
        obtain ⟨hlo', hhi'⟩ := inInt64_seqNumber htop hb
        refine List.forall_mem_append.mpr ⟨hres, List.forall_mem_map.mpr fun k hk => ?_⟩
        rw [List.mem_range] at hk
        exact ⟨by omega, by omega⟩
  · cases hn : (seqNumber top part).mapError Stop.throw with
    | error e =>
      rw [hn] at h
      cases h
    | ok k =>
      rw [hn] at h
      change pushBack res k = .ok l at h
      rw [pushBack] at h
      split_ifs at h
      obtain rfl := Except.ok.inj h
      exact List.forall_mem_append.mpr
        ⟨hres, List.forall_mem_singleton.mpr (inInt64_seqNumber htop hn)⟩

/-- **What is listed is an `int64_t`.** -/
theorem inInt64_parseSequenceSet {set : Bytes} {top : ℤ} {ids : List ℤ} (htop : InInt64 top)
    (h : parseSequenceSet set top = .ok ids) : ∀ n ∈ ids, InInt64 n := by
  obtain ⟨res, hparts, rfl⟩ := of_parseSequenceSet h
  intro n hn
  rw [List.mem_dedup, List.mem_insertionSort] at hn
  exact of_foldlM_eq_ok (P := fun l => ∀ n ∈ l, InInt64 n)
    (fun _ _ _ hres => inInt64_seqPart htop hres) (List.forall_mem_nil _) hparts n hn

/-! ## The labels of `FETCH` -/

section Zip

variable {α γ : Type} {f : α → Option γ} {l : List α}

/-- Where the numbers that select something come first, each message is beside its number. -/
theorem zip_filterMap_of_initial
    (h : l.Pairwise fun a b => (f b).isSome = true → (f a).isSome = true) :
    ∀ p ∈ (l.filterMap f).zip l, f p.2 = some p.1 := by
  induction l with
  | nil => exact fun p hp => absurd hp (by simp)
  | cons a l ih =>
    obtain ⟨ha, hl⟩ := List.pairwise_cons.mp h
    cases hf : f a with
    | some b =>
      rw [List.filterMap_cons_some hf, List.zip_cons_cons]
      intro p hp
      rcases List.mem_cons.mp hp with rfl | hp
      · exact hf
      · exact ih hl p hp
    | none =>
      have hnone : l.filterMap f = [] := by
        refine List.filterMap_eq_nil_iff.mpr fun x hx => ?_
        by_contra hx'
        have hsome := ha x hx (Option.isSome_iff_ne_none.mpr hx')
        rw [hf] at hsome
        exact Bool.false_ne_true hsome
      rw [List.filterMap_cons_none hf, hnone, List.zip_nil_left]
      exact fun p hp => absurd hp List.not_mem_nil

/-- If every number beside a message selects something, those that do are beside one, and the first
number is. -/
theorem mem_zip_filterMap (h : ∀ p ∈ (l.filterMap f).zip l, (f p.2).isSome = true) {a : α}
    (ha : a ∈ l) (hf : (f a).isSome = true) :
    (∃ b, (b, a) ∈ (l.filterMap f).zip l) ∧ ∀ x ∈ l.head?, ∃ b, (b, x) ∈ (l.filterMap f).zip l := by
  induction l with
  | nil => exact absurd ha List.not_mem_nil
  | cons x l ih =>
    cases hx : f x with
    | some b =>
      rw [List.filterMap_cons_some hx, List.zip_cons_cons] at h ⊢
      have hhead : ∀ y ∈ (x :: l).head?, ∃ c, (c, y) ∈ (b, x) :: (l.filterMap f).zip l := by
        rintro y hy
        obtain rfl := Option.some.inj hy
        exact ⟨b, List.mem_cons_self ..⟩
      refine ⟨?_, hhead⟩
      rcases List.mem_cons.mp ha with rfl | ha
      · exact ⟨b, List.mem_cons_self ..⟩
      · obtain ⟨⟨c, hc⟩, -⟩ := ih (fun p hp => h p (List.mem_cons_of_mem _ hp)) ha
        exact ⟨c, List.mem_cons_of_mem _ hc⟩
    | none =>
      have hmem : a ∈ l := by
        rcases List.mem_cons.mp ha with rfl | ha
        · rw [hx] at hf
          exact absurd hf Bool.false_ne_true
        · exact ha
      obtain ⟨b, hb⟩ := Option.isSome_iff_exists.mp hf
      have hne : l.filterMap f ≠ [] :=
        List.ne_nil_of_mem (List.mem_filterMap.mpr ⟨a, hmem, hb⟩)
      obtain ⟨c, rest, hrest⟩ := List.exists_cons_of_ne_nil hne
      rw [List.filterMap_cons_none hx, hrest, List.zip_cons_cons] at h
      have := h _ (List.mem_cons_self ..)
      rw [hx] at this
      exact absurd this Bool.false_ne_true

end Zip

section Labels

variable {S : Services} {d : Dispatcher} {db : DB} {inbox n : ℤ} {cmd : ImapCommand}
  {set list : Bytes} {rest : List Bytes} {ids : List ℤ} {m : Message}

/-- The line of the items `(UID)`. -/
def uidLine (k : ℕ) (uid : ℤ) : Bytes := fetch k (lit "(UID " ++ decimal uid ++ lit ")")

theorem uidLine_inj {k k' : ℕ} {uid uid' : ℤ} (h : uidLine k uid = uidLine k' uid') :
    k = k' ∧ uid = uid' := by
  have hspace : lit " FETCH " = ' '.toUInt8 :: lit "FETCH " := by decide
  simp only [uidLine, fetch, hspace, List.append_assoc, List.cons_append] at h
  obtain ⟨hk, h⟩ := decimal_append_inj (by decide) (by decide) (List.append_cancel_left h)
  have h := List.append_cancel_left (List.append_cancel_left h)
  exact ⟨hk, decimal_injective (List.append_cancel_right h)⟩

theorem serves_fetchData_uid (d : Dispatcher) (db : DB) (m : Message) :
    Serves (fetchData S cmd (lit "(") [lit "UID"] m) d db
      (lit "(UID " ++ decimal m.uid ++ lit ")") d db := by
  have hitem : fetchItem S cmd m (lit "UID") = pure (lit "UID " ++ decimal m.uid ++ lit " ") := rfl
  have hspace : popSpace (lit " ") = [] := by decide
  have htext : popSpace (lit "(" ++ [lit "UID " ++ decimal m.uid ++ lit " "].flatten) ++ lit ")" =
      lit "(UID " ++ decimal m.uid ++ lit ")" := by
    rw [List.flatten_singleton, ← List.append_assoc, popSpace_append (by decide), hspace,
      List.append_nil, ← List.append_assoc]
    rfl
  rw [fetchData, List.mapM_cons, List.mapM_nil, hitem]
  simp only [pure_bind]
  rw [htext]
  exact .pure _

/-- The number beside a message is right: it is the position of the message. -/
theorem label_iff (hu : UniqueUids db) (hn : InInt64 n) (hm : m ∈ page db inbox) :
    (∃ m', atPosition db inbox (toSizeT n) = some m' ∧ m'.uid = m.uid) ↔
      0 < n ∧ n ≤ (page db inbox).length ∧ nthMessage db inbox n = some m := by
  have hlen : (page db inbox).length ≤ 50 := List.length_take_le _ _
  constructor
  · rintro ⟨m', hat, huid⟩
    have hsome := isSome_atPosition_iff.mp (Option.isSome_of_eq_some hat)
    rw [atPosition, if_pos hsome.1] at hat
    obtain rfl : m' = m := (mem_byUid.mp (List.mem_of_getElem? hat)).eq_of_uid hu
      (mem_byUid.mp (List.mem_of_mem_take hm)) huid
    obtain ⟨j, hj⟩ := List.mem_iff_getElem?.mp hm
    have hjlen : j < (page db inbox).length := (List.getElem?_eq_some_iff.mp hj).1
    have hindex : j = ((toSizeT n : ℤ) - 1).toNat := by
      rw [page, findByFolder_eq_take, List.getElem?_take_of_lt (by omega)] at hj
      have hfound := Rank.findIdx?_of_getElem? (pairwise_byUid hu inbox) hj
      have hfound' := Rank.findIdx?_of_getElem? (pairwise_byUid hu inbox) hat
      exact Option.some.inj (hfound.symm.trans hfound')
    have hn' : n = toSizeT n := by
      obtain ⟨hlo, hhi⟩ := hn
      rw [int64Max] at hhi
      rw [toSizeT] at hindex hsome ⊢
      omega
    refine ⟨by omega, by omega, ?_⟩
    rw [nthMessage_eq_atPosition (by rw [toInt_of_pos_of_le (by omega) (by omega)]; omega),
      toInt_of_pos_of_le (by omega) (by omega), atPosition, if_pos (by omega), hn']
    exact hat
  · rintro ⟨hpos, hle, hnth⟩
    have hint : toInt n = n := toInt_of_pos_of_le hpos (by omega)
    rw [nthMessage_eq_atPosition (by omega), hint] at hnth
    have hsize : (toSizeT n : ℤ) = n := by
      rw [toSizeT]
      omega
    exact ⟨m, by rw [hsize]; exact hnth, rfl⟩

/-- **The lines of a `FETCH` of the uids.** -/
theorem serves_fetchLines_uid (hd : Opened d inbox) (hargs : cmd.args = set :: list :: rest)
    (hitems : fetchItems list = [lit "UID"])
    (hset : parseSequenceSet set (page db inbox).length = .ok ids) :
    Serves (fetchLines S cmd) d db (((ids.filterMap (nthMessage db inbox)).zip ids).map
      fun p => uidLine (toSizeT p.2) p.1.uid) d db := by
  refine .bind (.get_bind (.value hd.mailbox)) (.bind (serves_findByFolder inbox) ?_)
  refine .bind (.arg (by rw [hargs]; rfl)) (.bind (.sequenceSet hset) ?_)
  refine .bind (.arg (x := list) (by rw [hargs]; rfl)) ?_
  simp only [hitems]
  refine .mapM (g := fun p : Message × ℤ => uidLine (toSizeT p.2) p.1.uid) (fun p => ?_) _
  exact .bind (serves_fetchData_uid d db p.1) (.pure _)

end Labels

/-! ## Numbers that are no positions -/

/-- `FETCH` of the uids. -/
def fetchUids (set : String) : ImapCommand :=
  { tag := lit "a", type := .fetch, args := [lit set, lit "(UID)"] }

end MailStack.Imap
