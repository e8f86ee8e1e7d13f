import MailStack.Imap.Serve
import MailStack.Store.Listing

/-!
# Imap/FetchLine — the line of one message in `FETCH` and in `UID FETCH`

`FETCH` takes the message at a position of the list that `findByFolder` returns, and `UID FETCH`
looks it up by its uid and then searches the same list for its number.  The list is one page of 50
messages: `fetch_agrees_iff` says that this, and an empty list of data items, is all that the two
lines can come to differ by.
-/

open Bytes

namespace MailStack.Imap

open Store ImapResponse

/-! ## The handlers, without their guards -/

/-- The lines of a `FETCH`. -/
def fetchLines (S : Services) (cmd : ImapCommand) : HandlerM (List Bytes) := do
  let messages ← ask (MessageRepository.findByFolder (← mailboxID))
  let ids ← sequenceSet (← arg cmd 0) messages.length
  let items := fetchItems (← arg cmd 1)
  ((selectMessages messages ids).zip ids).mapM fun p => do
    return fetch (toSizeT p.2) (← fetchData S cmd (lit "(") items p.1)

/-- The lines of a `UID FETCH`; an empty one for a uid that is not there. -/
def uidFetchLines (S : Services) (cmd : ImapCommand) : HandlerM (List Bytes) := do
  let uids ← sequenceSet (← arg cmd 0) int64Max
  let messages ← ask (MessageRepository.findByFolder (← mailboxID))
  let items := fetchItems (← arg cmd 1)
  uids.mapM fun uid => do
    match ← ask (MessageRepository.findByUID (← mailboxID) uid) with
    | none => return []
    | some msg =>
      let seqNum : ℕ := ((messages.findIdx? (·.uid = uid)).map (· + 1)).getD 0
      return fetch seqNum (← fetchData S cmd (lit "(UID " ++ decimal msg.uid ++ lit " ") items msg)

/-- `FETCH` with its lines apart from its checks. -/
theorem handleFetch_eq (S : Services) (cmd : ImapCommand) :
    handleFetch S cmd = whenSelected cmd
      (if cmd.args.length < 2 then return bad cmd.tag (lit "Missing arguments")
      else catching (do return (← fetchLines S cmd).flatten ++ ok cmd.tag (lit "Fetch completed"))
        (fetchFailure cmd)) := by
  simp only [handleFetch, fetchLines, bind_assoc]

/-- `UID FETCH` with its lines apart from its checks. -/
theorem handleUidFetch_eq (S : Services) (cmd : ImapCommand) :
    handleUidFetch S cmd = whenSelected cmd
      (if cmd.args.length < 2 then return bad cmd.tag (lit "Missing arguments")
      else catching
        (do return (← uidFetchLines S cmd).flatten ++ ok cmd.tag (lit "Uid Fetch completed"))
        (fetchFailure cmd)) := by
  rw [uidFetchLines]
  simp only [bind_assoc]
  rfl

/-- Served alone, the handler returns `a`. -/
def Returns {α : Type} (h : HandlerM α) (d : Dispatcher) (db : DB) (a : α) : Prop :=
  ∃ d' db', Serves h d db a d' db'

section Lines

variable {α γ : Type} {S : Services} {cmd cmd' : ImapCommand} {d d' : Dispatcher} {db db' : DB}
  {u inbox : ℤ} {m : Message}

/-- A handler returns one answer. -/
theorem Returns.unique {h : HandlerM α} {a b : α} (hs : Returns h d db a) (hs' : Returns h d db b) :
    a = b := by
  obtain ⟨_, _, hs⟩ := hs
  obtain ⟨_, _, hs'⟩ := hs'
  exact hs.unique hs'

theorem Returns.of_result {h : HandlerM α} {a : α} (hr : (serve h d db).2.1 = .ok a) :
    Returns h d db a :=
  ⟨(serve h d db).2.2, (serve h d db).1, Prod.ext rfl (Prod.ext hr rfl)⟩

/-- After a first part that serves, what remains decides. -/
theorem Returns.bind_iff {h : HandlerM α} {f : α → HandlerM γ} {a : α} {b : γ}
    (hs : Serves h d db a d' db') : Returns (h >>= f) d db b ↔ Returns (f a) d' db' b :=
  exists_congr fun _ => exists_congr fun _ => hs.bind_iff

/-- A function of the answer. -/
theorem Returns.bind_pure_iff {h : HandlerM α} {g : α → γ} {b : γ} :
    Returns (h >>= fun a => pure (g a)) d db b ↔ ∃ a, Returns h d db a ∧ b = g a := by
  constructor
  · rintro ⟨d', db', hs⟩
    obtain ⟨a, ha, rfl⟩ := Serves.bind_pure_iff.mp hs
    exact ⟨a, ⟨d', db', ha⟩, rfl⟩
  · rintro ⟨a, ⟨d', db', hs⟩, rfl⟩
    exact ⟨d', db', Serves.bind_pure_iff.mpr ⟨a, hs, rfl⟩⟩

theorem Returns.mapM_singleton {δ : Type} {f : δ → HandlerM α} {x : δ} {l : List α} :
    Returns ([x].mapM f) d db l ↔ ∃ a, Returns (f x) d db a ∧ l = [a] := by
  have hmapM : [x].mapM f = f x >>= fun a => pure [a] := by
    rw [List.mapM_cons, List.mapM_nil]
    simp only [pure_bind]
  rw [hmapM, Returns.bind_pure_iff]

/-- **The lines, and the reply they end up in.** -/
theorem returns_handleFetch {lines : List Bytes} (hd : InMailbox u inbox d db)
    (hargs : 2 ≤ cmd.args.length) (h : Returns (fetchLines S cmd) d db lines) :
    Returns (handleFetch S cmd) d db
      (lines.flatten ++ ok cmd.tag (lit "Fetch completed")) := by
  obtain ⟨d', db', hs⟩ := h
  refine ⟨d', db', ?_⟩
  rw [handleFetch_eq]
  refine .get_bind ?_
  rw [if_neg (not_not_intro hd.1), if_neg (by omega)]
  exact .catching (.bind hs (.pure _))

/-- The reply is made of the lines, or of what the exception says. -/
theorem returns_handleFetch_cases {reply : Bytes} (hd : InMailbox u inbox d db)
    (hargs : 2 ≤ cmd.args.length) (h : Returns (handleFetch S cmd) d db reply) :
    (∃ lines, Returns (fetchLines S cmd) d db lines ∧
        reply = lines.flatten ++ ok cmd.tag (lit "Fetch completed")) ∨
      ∃ what, reply = bad cmd.tag what := by
  have hbody := h
  rw [handleFetch_eq] at hbody
  obtain ⟨d₁, db₁, hs⟩ := hbody
  change Serves (if d.state ≠ .selected then _ else _) d db reply d₁ db₁ at hs
  rw [if_neg (not_not_intro hd.1), if_neg (by omega)] at hs
  match hr : serve (fetchLines S cmd) d db with
  | (db', .ok lines, d') =>
    exact .inl ⟨lines, ⟨d', db', hr⟩, h.unique (returns_handleFetch hd hargs ⟨d', db', hr⟩)⟩
  | (db', .error .undefined, d') =>
    have hstop : Stops (fetchLines S cmd) d db .undefined d' db' := hr
    exact absurd hs ((hstop.bind _).uncaught nofun).not_serves
  | (db', .error (.missing i), d') =>
    have hstop : Stops (fetchLines S cmd) d db (.missing i) d' db' := hr
    exact absurd hs ((hstop.bind _).uncaught nofun).not_serves
  | (db', .error (.throw x), d') =>
    have hstop : Stops (fetchLines S cmd) d db (.throw x) d' db' := hr
    have hcaught : ∃ what, Serves (fetchFailure cmd x) d' db' (bad cmd.tag what) d' db' := by
      cases x with
      | invalidArgument what => exact ⟨what, .pure _⟩
      | runtimeError what => exact ⟨what, .pure _⟩
      | outOfRange what => exact ⟨_, .pure _⟩
      | lengthError => exact ⟨_, .pure _⟩
      | badOptionalAccess => exact ⟨_, .pure _⟩
    obtain ⟨what, hwhat⟩ := hcaught
    exact .inr ⟨what, hs.unique (Stops.catching (hstop.bind _) hwhat)⟩

/-- The lines of a `UID FETCH` and its tagged line. -/
theorem returns_handleUidFetch {lines : List Bytes} (hd : InMailbox u inbox d db)
    (hargs : 2 ≤ cmd.args.length) (h : Returns (uidFetchLines S cmd) d db lines) :
    Returns (handleUidFetch S cmd) d db
      (lines.flatten ++ ok cmd.tag (lit "Uid Fetch completed")) := by
  obtain ⟨d', db', hs⟩ := h
  refine ⟨d', db', ?_⟩
  rw [handleUidFetch_eq]
  refine .get_bind ?_
  rw [if_neg (not_not_intro hd.1), if_neg (by omega)]
  exact .catching (.bind hs (.pure _))

end Lines

/-! ## The text of the items -/

/-- Whatever the handler returns is `P`. -/
def Yields {α : Type} (P : α → Prop) (h : HandlerM α) : Prop := ∀ d db a, Returns h d db a → P a

section Items

variable {α γ : Type} {P : α → Prop} {S : Services} {cmd cmd' : ImapCommand} {m : Message}

theorem Yields.pure {a : α} (h : P a) : Yields P (pure a : HandlerM α) := by
  rintro d db b ⟨d', db', hs⟩
  obtain ⟨rfl, -⟩ := Serves.pure_iff.mp hs
  exact h

/-- What the last part yields is yielded. -/
theorem Yields.bind {h : HandlerM γ} {f : γ → HandlerM α} (hf : ∀ c, Yields P (f c)) :
    Yields P (h >>= f) := by
  rintro d db b ⟨d', db', hs⟩
  obtain ⟨c, d₁, db₁, -, hs⟩ := hs.of_bind
  exact hf c d₁ db₁ b ⟨d', db', hs⟩

theorem Yields.throw {e : Stop} : Yields P (throw e : HandlerM α) := by
  rintro d db b ⟨d', db', hs⟩
  exact nomatch (Prod.mk.inj (Prod.mk.inj hs).2).1

theorem Yields.ite {c : Prop} [Decidable c] {h h' : HandlerM α} (hh : Yields P h)
    (hh' : Yields P h') : Yields P (if c then h else h') := by
  split_ifs
  · exact hh
  · exact hh'

theorem append_ne_nil {s t : Bytes} (ht : t ≠ []) : s ++ t ≠ [] :=
  List.append_ne_nil_of_right_ne_nil s ht

theorem literal_ne_nil (name text : Bytes) : literal name text ≠ [] := by
  simp [literal, lit]

/-- A list of header fields prints something. -/
theorem yields_headerFields (item : Bytes) : Yields (· ≠ []) (headerFields S cmd item m) := by
  refine .ite (.bind fun _ => ?_) (.bind fun _ => ?_)
  · exact .bind fun _ => .pure (append_ne_nil (by decide))
  · exact .pure (append_ne_nil (by decide))

/-- A section prints something. -/
theorem yields_bodySection (start item : Bytes) :
    Yields (· ≠ []) (bodySection S start item m) := by
  unfold bodySection
  split
  · exact .throw
  · exact .bind fun _ => .pure (append_ne_nil (by decide))

/-- Every item prints something. -/
theorem yields_fetchItem (item : Bytes) : Yields (· ≠ []) (fetchItem S cmd m item) := by
  have hends : ∀ s : Bytes, Yields (· ≠ []) (Pure.pure (s ++ lit " ") : HandlerM Bytes) :=
    fun s => .pure (append_ne_nil (by decide))
  unfold fetchItem
  refine .ite (.pure (append_ne_nil (by decide))) (.ite (.bind fun _ => ?_) ?_)
  · exact .pure (append_ne_nil (by decide))
  refine .ite (hends _) (.ite (.bind fun _ => .bind fun _ => .bind fun _ => .bind fun _ => ?_) ?_)
  · exact hends _
  refine .ite (hends _) (.ite (.bind fun _ => .pure (literal_ne_nil _ _)) ?_)
  refine .ite (.bind fun _ => hends _) (.ite (.bind fun _ => hends _) ?_)
  refine .ite (yields_headerFields item) (.ite (yields_bodySection _ item) ?_)
  exact .ite (yields_bodySection _ item) (.ite (hends _) .throw)

/-- Of the command an item uses the third argument, if anything. -/
theorem fetchItem_congr (h : cmd.args[2]? = cmd'.args[2]?) :
    fetchItem S cmd = fetchItem S cmd' := by
  have harg : arg cmd 2 = arg cmd' 2 := by rw [arg, arg, h]
  have hfields : headerFields S cmd = headerFields S cmd' := by
    funext item msg
    rw [headerFields, headerFields, harg]
  funext msg item
  rw [fetchItem, fetchItem, hfields]

/-- Only the space at the very end is dropped. -/
theorem popSpace_append {s t : Bytes} (ht : t ≠ []) : popSpace (s ++ t) = s ++ popSpace t := by
  rw [popSpace, popSpace, List.getLast?_append_of_ne_nil _ ht]
  split_ifs
  · exact List.dropLast_append_of_ne_nil ht
  · rfl

/-- **The data of a line is what it starts with, and then the texts of the items.** -/
theorem returns_fetchData {start data : Bytes} {items : List Bytes} {d : Dispatcher} {db : DB} :
    Returns (fetchData S cmd start items m) d db data ↔
      ∃ texts, Returns (items.mapM (fetchItem S cmd m)) d db texts ∧
        data = popSpace (start ++ texts.flatten) ++ lit ")" := Returns.bind_pure_iff

/-- A message of which items are printed has a text. -/
theorem flatten_ne_nil_of_returns {items texts : List Bytes} {d : Dispatcher} {db : DB}
    (hitems : items ≠ []) (h : Returns (items.mapM (fetchItem S cmd m)) d db texts) :
    texts.flatten ≠ [] := by
  obtain ⟨item, items, rfl⟩ := List.exists_cons_of_ne_nil hitems
  rw [List.mapM_cons] at h
  obtain ⟨d', db', hs⟩ := h
  obtain ⟨t, d₁, db₁, ht, hs⟩ := hs.of_bind
  obtain ⟨ts, -, rfl⟩ := Serves.bind_pure_iff.mp hs
  rw [List.flatten_cons]
  exact List.append_ne_nil_of_left_ne_nil (yields_fetchItem item d db t ⟨d₁, db₁, ht⟩) _

end Items

/-! ## The two lines of a message -/

theorem toInt_of_le {k : ℕ} (hk : k ≤ 50) : toInt k = k := by
  rw [toInt, Int.bmod_eq_of_le] <;> omega

theorem toSizeT_of_le {k : ℕ} (hk : k ≤ 50) : toSizeT k = k := by
  rw [toSizeT, Int.emod_eq_of_lt] <;> omega

/-- A line tells its number and its data. -/
theorem fetch_inj {n n' : ℕ} {s s' : Bytes} (h : fetch n s = fetch n' s') : n = n' ∧ s = s' := by
  have hcut : ∀ (k : ℕ) (t : Bytes),
      cut ' '.toUInt8 (decimal k ++ lit " FETCH " ++ t ++ lit "\r\n") =
        some (decimal k, lit "FETCH " ++ t ++ lit "\r\n") := by
    intro k t
    refine cut_eq_some_iff.mpr ⟨?_, notMem_decimal k (by decide) (by decide)⟩
    simp [lit]
  simp only [fetch, List.append_assoc, List.append_cancel_left_eq] at h
  have hc := congrArg (cut ' '.toUInt8) h
  simp only [← List.append_assoc] at hc
  rw [hcut, hcut] at hc
  obtain ⟨hn, ht⟩ := Prod.mk.inj (Option.some.inj hc)
  refine ⟨?_, List.append_cancel_left (List.append_cancel_right ht)⟩
  rw [← digitsValue_decimal n, hn, digitsValue_decimal]

section Message

variable {S : Services} {cmd cmd' : ImapCommand} {d : Dispatcher} {db : DB} {u inbox : ℤ}
  {m : Message} {list : Bytes} {rest : List Bytes}

/-- In a mailbox its id is at hand. -/
theorem serves_mailboxID (hd : InMailbox u inbox d db) : Serves mailboxID d db inbox d db :=
  .get_bind (.value hd.2.2)

/-- `FETCH k`, for the message that `k` selects. -/
theorem returns_fetchLines_nth {k : ℤ} (hd : InMailbox u inbox d db) (hlo : -2 ^ 63 ≤ k)
    (hhi : k ≤ int64Max) (hk : nthMessage db inbox k = some m)
    (hargs : cmd.args = decimal k :: list :: rest) {lines : List Bytes} :
    Returns (fetchLines S cmd) d db lines ↔
      ∃ data, Returns (fetchData S cmd (lit "(") (fetchItems list) m) d db data ∧
        lines = [fetch (toSizeT k) data] := by
  have harg₀ : cmd.args[0]? = some (decimal k) := by rw [hargs]; rfl
  have harg₁ : cmd.args[1]? = some list := by rw [hargs]; rfl
  have hselect : selectMessages (MessageDAL.findByFolder db inbox 50 0) [k] = [m] := by
    rw [selectMessages_singleton, hk]
    rfl
  rw [fetchLines, Returns.bind_iff (serves_mailboxID hd),
    Returns.bind_iff (serves_findByFolder inbox), Returns.bind_iff (.arg harg₀),
    Returns.bind_iff (.sequenceSet (parseSequenceSet_decimal hlo hhi _)),
    Returns.bind_iff (.arg harg₁)]
  rw [hselect, List.zip_cons_cons, List.zip_nil_left, Returns.mapM_singleton]
  simp only [Returns.bind_pure_iff]
  constructor
  · rintro ⟨_, ⟨data, hdata, rfl⟩, rfl⟩
    exact ⟨data, hdata, rfl⟩
  · rintro ⟨data, hdata, rfl⟩
    exact ⟨_, ⟨data, hdata, rfl⟩, rfl⟩

/-- A message on the page is the one its number addresses. -/
theorem nthMessage_position (hu : UniqueUids db) (hm : InFolder db inbox m)
    (hpage : position db m ≤ 50) : nthMessage db inbox (position db m) = some m := by
  have hpos : 0 < position db m := Nat.succ_pos _
  have hindex : ((position db m : ℤ) - 1).toNat = position db m - 1 := by omega
  rw [nthMessage, toInt_of_le hpage, if_pos (by omega), findByFolder_eq_take,
    List.getElem?_take_of_lt (by omega), hindex]
  exact byUid_getElem?_position hu hm

/-- `FETCH k`, for a message on the page. -/
theorem returns_fetchLines (hd : InMailbox u inbox d db) (hu : UniqueUids db)
    (hm : InFolder db inbox m) (hpage : position db m ≤ 50)
    (hargs : cmd.args = decimal (position db m) :: list :: rest) {lines : List Bytes} :
    Returns (fetchLines S cmd) d db lines ↔
      ∃ data, Returns (fetchData S cmd (lit "(") (fetchItems list) m) d db data ∧
        lines = [fetch (position db m) data] := by
  have hmax : ((position db m : ℕ) : ℤ) ≤ int64Max := by
    rw [int64Max]
    omega
  have hnth := nthMessage_position hu hm hpage
  rw [returns_fetchLines_nth hd (by omega) hmax hnth hargs, toSizeT_of_le hpage]

/-- `UID FETCH`, for any message of the folder: beyond the page its number is 0. -/
theorem returns_uidFetchLines (hd : InMailbox u inbox d db) (hu : UniqueUids db)
    (hm : InFolder db inbox m) (hlo : -2 ^ 63 ≤ m.uid) (hhi : m.uid ≤ int64Max)
    (hargs : cmd.args = decimal m.uid :: list :: rest) {lines : List Bytes} :
    Returns (uidFetchLines S cmd) d db lines ↔
      ∃ data, Returns (fetchData S cmd (lit "(UID " ++ decimal m.uid ++ lit " ")
          (fetchItems list) m) d db data ∧
        lines = [fetch (if position db m ≤ 50 then position db m else 0) data] := by
  have harg₀ : cmd.args[0]? = some (decimal m.uid) := by rw [hargs]; rfl
  have harg₁ : cmd.args[1]? = some list := by rw [hargs]; rfl
  rw [uidFetchLines, Returns.bind_iff (.arg harg₀),
    Returns.bind_iff (.sequenceSet (parseSequenceSet_decimal hlo hhi _)),
    Returns.bind_iff (serves_mailboxID hd), Returns.bind_iff (serves_findByFolder inbox),
    Returns.bind_iff (.arg harg₁), Returns.mapM_singleton]
  have hfind : MessageDAL.findByUID db inbox m.uid = some m :=
    (findByUID_eq_some_iff hu).mpr ⟨hm, rfl⟩
  have hnumber : ((if position db m ≤ 50 then some (position db m - 1) else none).map
      (· + 1)).getD 0 = if position db m ≤ 50 then position db m else 0 := by
    have hpos : 0 < position db m := Nat.succ_pos _
    split_ifs
    · exact Nat.sub_add_cancel hpos
    · rfl
  simp only [Returns.bind_iff (serves_mailboxID hd),
    Returns.bind_iff (serves_findByUID inbox m.uid), hfind, findIdx?_findByFolder hu hm, hnumber,
      Returns.bind_pure_iff]
  constructor
  · rintro ⟨_, ⟨data, hdata, rfl⟩, rfl⟩
    exact ⟨data, hdata, rfl⟩
  · rintro ⟨data, hdata, rfl⟩
    exact ⟨_, ⟨data, hdata, rfl⟩, rfl⟩

/-- The two replies have one line each, and these differ only by the uid that `UID FETCH` puts in
front of the items. -/
def SameLine (S : Services) (d : Dispatcher) (db : DB) (m : Message) (cmd cmd' : ImapCommand) :
    Prop :=
  ∃ data,
    Returns (handleFetch S cmd) d db
      (fetch (position db m) (lit "(" ++ data) ++ ok cmd.tag (lit "Fetch completed")) ∧
    Returns (handleUidFetch S cmd') d db
      (fetch (position db m) (lit "(UID " ++ decimal m.uid ++ lit " " ++ data) ++
        ok cmd'.tag (lit "Uid Fetch completed"))

/-- Beyond the page `UID FETCH` numbers the message 0. -/
theorem position_le_of_sameLine (hd : InMailbox u inbox d db) (hu : UniqueUids db)
    (hm : InFolder db inbox m) (hlo : -2 ^ 63 ≤ m.uid) (hhi : m.uid ≤ int64Max)
    (hargs : cmd'.args = decimal m.uid :: list :: rest) {lines : List Bytes}
    (hok : Returns (uidFetchLines S cmd') d db lines) (h : SameLine S d db m cmd cmd') :
    position db m ≤ 50 := by
  obtain ⟨data, -, h⟩ := h
  have hreply := (returns_handleUidFetch hd (by rw [hargs]; simp) hok).unique h
  obtain ⟨_, -, rfl⟩ := (returns_uidFetchLines hd hu hm hlo hhi hargs).mp hok
  rw [List.flatten_singleton] at hreply
  have hnumber := (fetch_inj (List.append_cancel_right hreply)).1
  split_ifs at hnumber with hpage
  · exact hpage
  · exact absurd hnumber (Nat.succ_ne_zero _).symm

/-- **`FETCH` and `UID FETCH` agree on the first 50 messages of a folder, where they are asked for
some item** — and on no other message, and never without an item. -/
theorem fetch_agrees_iff (hd : InMailbox u inbox d db) (hu : UniqueUids db)
    (hm : InFolder db inbox m) (hlo : -2 ^ 63 ≤ m.uid) (hhi : m.uid ≤ int64Max)
    (hargs : cmd.args = decimal (position db m) :: list :: rest)
    (hargs' : cmd'.args = decimal m.uid :: list :: rest) {lines lines' : List Bytes}
    (hok : Returns (fetchLines S cmd) d db lines)
    (hok' : Returns (uidFetchLines S cmd') d db lines') :
    SameLine S d db m cmd cmd' ↔ position db m ≤ 50 ∧ fetchItems list ≠ [] := by
  have hreply := returns_handleFetch hd (by rw [hargs]; simp) hok
  have hreply' := returns_handleUidFetch hd (by rw [hargs']; simp) hok'
  have hsame : fetchItem S cmd = fetchItem S cmd' := fetchItem_congr (by rw [hargs, hargs']; rfl)
  obtain ⟨_, hdata', rfl⟩ := (returns_uidFetchLines hd hu hm hlo hhi hargs').mp hok'
  obtain ⟨texts, htexts, rfl⟩ := returns_fetchData.mp hdata'
  have hline : position db m ≤ 50 →
      lines = [fetch (position db m) (popSpace (lit "(" ++ texts.flatten) ++ lit ")")] := by
    intro hpage
    obtain ⟨_, hdata, rfl⟩ := (returns_fetchLines hd hu hm hpage hargs).mp hok
    obtain ⟨texts₁, htexts₁, rfl⟩ := returns_fetchData.mp hdata
    rw [hsame] at htexts₁
    rw [htexts₁.unique htexts]
  constructor
  · intro h
    have hpage := position_le_of_sameLine hd hu hm hlo hhi hargs' hok' h
    refine ⟨hpage, fun hitems => ?_⟩
    obtain ⟨data, h, h'⟩ := h
    have htexts₀ : texts = [] := by
      rw [hitems, List.mapM_nil] at htexts
      obtain ⟨_, _, hs⟩ := htexts
      exact (Serves.pure_iff.mp hs).1.symm
    have hfirst := hreply.unique h
    have hsecond := hreply'.unique h'
    rw [hline hpage, List.flatten_singleton] at hfirst
    rw [List.flatten_singleton] at hsecond
    have hdata := (fetch_inj (List.append_cancel_right hfirst)).2
    have hdata' := (fetch_inj (List.append_cancel_right hsecond)).2
    subst htexts₀
    have hparen : data = lit ")" := (List.append_cancel_left hdata).symm
    rw [hparen, List.flatten_nil, List.append_nil] at hdata'
    have hspace : popSpace (lit " ") = [] := rfl
    rw [popSpace_append (by decide), hspace] at hdata'
    have hlength := congrArg List.length hdata'
    simp [lit] at hlength
  · rintro ⟨hpage, hitems⟩
    have hne := flatten_ne_nil_of_returns hitems htexts
    refine ⟨popSpace texts.flatten ++ lit ")", ?_, ?_⟩
    · rw [hline hpage, List.flatten_singleton, popSpace_append hne, List.append_assoc] at hreply
      exact hreply
    · rw [if_pos hpage, List.flatten_singleton, popSpace_append hne, List.append_assoc] at hreply'
      exact hreply'

end Message

/-! ## A folder of more than one page -/

/-- A row of a mailbox. -/
def pageRow (uid : ℕ) : MessageData where
  userId := 1
  folderId := 1
  uid := uid
  content := { rawFilePath := lit "mail.eml", fromAddress := lit "bob" }

/-- Alice's mailbox with the messages 1 to `n`. -/
def pageDB (n : ℕ) : DB where
  users := Table.empty.insert ⟨lit "alice", []⟩
  folders := Table.empty.insert
    { userId := 1, parentId := none, name := lit "INBOX", nextUid := n + 1 }
  messages := (List.range n).foldl (fun t k => t.insert (pageRow (k + 1))) .empty
  recipients := .empty

/-- `FETCH` and `UID FETCH` of one message. -/
def fetchOf (type : ImapCommandType) (n : ℤ) (items : String) : ImapCommand :=
  { tag := lit "a", type, args := [decimal n, lit items] }

/-- A session of alice in the mailbox. -/
def pageSession : Dispatcher where
  state := .selected
  authenticatedUserName := lit "alice"
  authenticatedUserID := some 1
  currentMailbox := { name := lit "INBOX", id := some 1 }

/-- Message files that cannot be read. -/
def noFiles : Services where
  verify _ _ := false
  getBodyContent _ := []
  getParsedEmail _ := .ok none
  getBodySection _ _ := .ok []
  buildBodystructure _ := .ok []
  buildEnvelope _ _ _ := .ok []
  dateToIMAPInternal d := .ok d
  splitHeadersAndBody s := (s, [])
  getHeaderValue _ _ := []

/-- The rows of the mailbox. -/
theorem of_get?_pageDB {n : ℕ} {i : ℤ} {m : MessageData} (h : (pageDB n).messages.get? i = some m) :
    ∃ k < n, i = (k + 1 : ℕ) ∧ m = pageRow (k + 1) := by
  have key : ∀ n : ℕ, ((List.range n).foldl (fun t k => t.insert (pageRow (k + 1)))
      (Table.empty : Table MessageData)).seq = n ∧
      ∀ i m, ((List.range n).foldl (fun t k => t.insert (pageRow (k + 1)))
        (Table.empty : Table MessageData)).get? i = some m →
          ∃ k < n, i = (k + 1 : ℕ) ∧ m = pageRow (k + 1) := by
    intro n
    induction n with
    | zero => exact ⟨rfl, fun i m h => nomatch h⟩
    | succ n ih =>
      rw [List.range_succ, List.foldl_append, List.foldl_cons, List.foldl_nil]
      refine ⟨by rw [Table.seq_insert, ih.1]; rfl, fun i m h => ?_⟩
      rw [Table.get?_insert, ih.1] at h
      split_ifs at h with hi
      · exact ⟨n, Nat.lt_succ_self n, hi, (Option.some.inj h).symm⟩
      · obtain ⟨k, hk, hrow⟩ := ih.2 i m h
        exact ⟨k, Nat.lt_succ_of_lt hk, hrow⟩
  exact (key n).2 i m h

theorem uniqueUids_pageDB (n : ℕ) : UniqueUids (pageDB n) := by
  intro i j m m' hm hm' _ huid
  obtain ⟨k, -, rfl, rfl⟩ := of_get?_pageDB hm
  obtain ⟨l, -, rfl, rfl⟩ := of_get?_pageDB hm'
  exact huid

/-- The last message of the mailbox. -/
def lastMessage (n : ℕ) : Message := MessageDAL.rowToMessage n (pageRow n)

theorem inFolder_lastMessage_one : InFolder (pageDB 1) 1 (lastMessage 1) := ⟨rfl, 1, rfl, rfl⟩

/-- The mailbox with the messages 1 to 3, of which the second was expunged. -/
def gapDB : DB := { pageDB 3 with messages := (pageDB 3).messages.erase 2 }

theorem uniqueUids_gapDB : UniqueUids gapDB := by
  have hrow : ∀ {i m}, gapDB.messages.get? i = some m → (pageDB 3).messages.get? i = some m := by
    intro i m h
    rw [gapDB, Table.get?_erase] at h
    split_ifs at h
    exact h
  exact fun i j m m' hm hm' => uniqueUids_pageDB 3 i j m m' (hrow hm) (hrow hm')

/-- `FETCH 2` and `UID FETCH 3`. -/
theorem fetch_agrees_gap :
    SameLine noFiles pageSession gapDB (lastMessage 3) (fetchOf .fetch 2 "FLAGS")
      (fetchOf .uidFetch 3 "FLAGS") := by
  have hok : Returns (fetchLines noFiles (fetchOf .fetch 2 "FLAGS")) pageSession gapDB
      [lit "* 2 FETCH (FLAGS (\\Recent))\r\n"] := .of_result (by decide)
  have hok' : Returns (uidFetchLines noFiles (fetchOf .uidFetch 3 "FLAGS")) pageSession gapDB
      [lit "* 2 FETCH (UID 3 FLAGS (\\Recent))\r\n"] := .of_result (by decide)
  exact (fetch_agrees_iff (u := 1) ⟨rfl, rfl, rfl⟩ uniqueUids_gapDB
    (⟨rfl, 3, rfl, rfl⟩ : InFolder gapDB 1 (lastMessage 3)) (by decide) (by decide) rfl rfl hok
    hok').mpr ⟨by decide, by decide⟩

/-- **The 51st message**: `FETCH 51` does not show it, and `UID FETCH` shows it as number 0. -/
theorem not_sameLine_page :
    ∃ (S : Services) (d : Dispatcher) (db : DB) (m : Message) (cmd cmd' : ImapCommand)
      (list : Bytes) (lines lines' : List Bytes),
      InMailbox 1 1 d db ∧ UniqueUids db ∧ InFolder db 1 m ∧
      cmd.args = [decimal (position db m), list] ∧ cmd'.args = [decimal m.uid, list] ∧
      Returns (fetchLines S cmd) d db lines ∧ Returns (uidFetchLines S cmd') d db lines' ∧
      ¬ SameLine S d db m cmd cmd' := by
  have hm : InFolder (pageDB 51) 1 (lastMessage 51) := ⟨rfl, 51, rfl, by decide⟩
  have hposition : position (pageDB 51) (lastMessage 51) = 51 := by decide
  have hok : Returns (fetchLines noFiles (fetchOf .fetch 51 "FLAGS")) pageSession (pageDB 51) [] :=
    .of_result (by decide)
  have hok' : Returns (uidFetchLines noFiles (fetchOf .uidFetch 51 "FLAGS")) pageSession
      (pageDB 51) [lit "* 0 FETCH (UID 51 FLAGS (\\Recent))\r\n"] := .of_result (by decide)
  have hargs : (fetchOf .fetch 51 "FLAGS").args =
      [decimal (position (pageDB 51) (lastMessage 51)), lit "FLAGS"] := by
    rw [hposition]
    rfl
  refine ⟨noFiles, pageSession, pageDB 51, lastMessage 51, _, _, _, _, _, ⟨rfl, rfl, rfl⟩,
    uniqueUids_pageDB 51, hm, hargs, rfl, hok, hok', fun h => ?_⟩
  have hpage := position_le_of_sameLine (u := 1) ⟨rfl, rfl, rfl⟩ (uniqueUids_pageDB 51) hm
    (by decide) (by decide) rfl hok' h
  rw [hposition] at hpage
  exact absurd hpage (by decide)

end MailStack.Imap
