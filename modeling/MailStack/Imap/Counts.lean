import MailStack.Imap.Expunge

/-!
# Imap/Counts — the numbers that `SELECT` and `STATUS` report

Both count over the list that `findByFolder` returns, which is one page.  So the numbers are those
of the table exactly for the folders that fit on the page: `counts_iff`.
-/

open Bytes

namespace MailStack.Imap

open Store Prog

/-- The numbers of a mailbox. -/
structure Counts where
  total : ℕ
  recent : ℕ
  unseen : ℕ
  deriving DecidableEq, Repr

/-- What the handlers count in a list of messages. -/
def Counts.ofList (messages : List Message) : Counts :=
  ⟨messages.length, numRecent messages, numUnseen messages⟩

/-- The rows of the folder that are present, recent, and not seen. -/
def Counts.ofTable (db : DB) (folderId : ℤ) : Counts where
  total := db.messages.rows.countP fun r => r.2.folderId = folderId
  recent := db.messages.rows.countP fun r => r.2.folderId = folderId && r.2.flags.recent
  unseen := db.messages.rows.countP fun r => r.2.folderId = folderId && !r.2.flags.seen

/-- **Over the whole folder the handlers' counts are those of the table.** -/
theorem ofList_byUid (db : DB) (folderId : ℤ) :
    Counts.ofList (byUid db folderId) = Counts.ofTable db folderId := by
  have hcount : ∀ q : Message → Bool, (byUid db folderId).countP q =
      db.messages.rows.countP fun r =>
        r.2.folderId = folderId && q (MessageDAL.rowToMessage r.1 r.2) := by
    intro q
    rw [byUid, (List.perm_insertionSort _ _).countP_eq, List.countP_map, List.countP_filter]
    refine List.countP_congr fun r _ => ?_
    rw [Function.comp_apply, Bool.and_comm]
  have htotal : (byUid db folderId).length = (Counts.ofTable db folderId).total := by
    rw [← List.countP_true, hcount]
    exact List.countP_congr fun r _ => by rw [Bool.and_true]
  rw [Counts.ofList, htotal, numRecent, numUnseen, hcount, hcount]
  rfl

/-- **Over the page they are so exactly if the folder fits on it.** -/
theorem ofList_page_iff (db : DB) (folderId : ℤ) :
    Counts.ofList (page db folderId) = Counts.ofTable db folderId ↔
      (Counts.ofTable db folderId).total ≤ 50 := by
  rw [← ofList_byUid, page, findByFolder_eq_take]
  constructor
  · intro h
    have hlen : ((byUid db folderId).take 50).length = (byUid db folderId).length :=
      congrArg Counts.total h
    have htotal : (Counts.ofList (byUid db folderId)).total = (byUid db folderId).length := rfl
    rw [List.length_take] at hlen
    omega
  · intro h
    rw [List.take_of_length_le h]

/-! ## The replies -/

/-- The reply to `SELECT`. -/
def selectReply (tag : Bytes) (folder : Folder) (uidvalidity : ℤ) (c : Counts) : Bytes :=
  ImapResponse.flags ++ lit "* OK [UIDVALIDITY " ++ decimal uidvalidity ++ lit "]\r\n" ++
    lit "* OK [PERMANENTFLAGS (\\Seen \\Answered \\Flagged \\Draft \\Deleted \\*)]\r\n" ++
    lit "* OK [UNSEEN " ++ decimal c.unseen ++ lit "]\r\n" ++
    ImapResponse.count c.total " EXISTS" ++
    lit "* OK [UIDNEXT " ++ decimal folder.nextUid ++ lit "]\r\n" ++
    ImapResponse.count c.recent " RECENT" ++
    ImapResponse.ok tag (lit "[READ-WRITE] Select completed")

/-- The text of one status item; nothing for an unknown one. -/
def statusText (folder : Folder) (uidvalidity : ℤ) (c : Counts) (req : Bytes) : Option Bytes :=
  if req = lit "MESSAGES" then some (lit "MESSAGES " ++ decimal c.total ++ lit " ")
  else if req = lit "RECENT" then some (lit "RECENT " ++ decimal c.recent ++ lit " ")
  else if req = lit "UIDNEXT" then some (lit "UIDNEXT " ++ decimal folder.nextUid ++ lit " ")
  else if req = lit "UIDVALIDITY" then some (lit "UIDVALIDITY " ++ decimal uidvalidity ++ lit " ")
  else if req = lit "UNSEEN" then some (lit "UNSEEN " ++ decimal c.unseen ++ lit " ")
  else none

/-- The reply to `STATUS`. -/
def statusReply (tag name items : Bytes) (folder : Folder) (uidvalidity : ℤ) (c : Counts) :
    Bytes :=
  let found := (splitArgs (trimParentheses items)).filterMap (statusText folder uidvalidity c)
  if found = [] then ImapResponse.bad tag (lit "Invalid status data items")
  else
    ImapResponse.status name (popSpace found.flatten) ++
      ImapResponse.ok tag (lit "Status completed")

/-- What is written in front of a byte that is no part of a number tells the number. -/
theorem decimal_append_inj {a b : ℕ} {x : UInt8} {s t : Bytes} (hx : isDigit x = false)
    (hminus : x ≠ '-'.toUInt8) (h : decimal a ++ x :: s = decimal b ++ x :: t) : a = b ∧ s = t := by
  have hcut : ∀ (n : ℕ) (r : Bytes), cut x (decimal n ++ x :: r) = some (decimal n, r) :=
    fun n r => cut_eq_some_iff.mpr ⟨rfl, notMem_decimal n hx hminus⟩
  have hboth := hcut a s
  rw [h, hcut b t] at hboth
  obtain ⟨hdecimal, hrest⟩ := Prod.mk.inj (Option.some.inj hboth)
  have hvalue := congrArg digitsValue hdecimal
  rw [digitsValue_decimal, digitsValue_decimal] at hvalue
  exact ⟨hvalue.symm, hrest.symm⟩

/-- **The reply to `SELECT` tells the numbers.** -/
theorem selectReply_inj {tag : Bytes} {folder : Folder} {uidvalidity : ℤ} {c c' : Counts}
    (h : selectReply tag folder uidvalidity c = selectReply tag folder uidvalidity c') : c = c' := by
  simp only [selectReply, ImapResponse.count, List.append_assoc] at h
  have h := List.append_cancel_left (List.append_cancel_left (List.append_cancel_left
    (List.append_cancel_left (List.append_cancel_left (List.append_cancel_left h)))))
  obtain ⟨hunseen, h⟩ := decimal_append_inj (by decide) (by decide)
    (show decimal c.unseen ++ ']'.toUInt8 :: _ = decimal c'.unseen ++ ']'.toUInt8 :: _ from h)
  have h := @List.append_cancel_left _ (lit "\r\n* ") _ _ h
  obtain ⟨htotal, h⟩ := decimal_append_inj (by decide) (by decide)
    (show decimal c.total ++ ' '.toUInt8 :: _ = decimal c'.total ++ ' '.toUInt8 :: _ from h)
  have h := @List.append_cancel_left _ (lit "EXISTS\r\n* OK [UIDNEXT ") _ _ h
  have h := List.append_cancel_left (List.append_cancel_left h)
  have h := @List.append_cancel_left _ (lit "* ") _ _ h
  obtain ⟨hrecent, -⟩ := decimal_append_inj (by decide) (by decide)
    (show decimal c.recent ++ ' '.toUInt8 :: _ = decimal c'.recent ++ ' '.toUInt8 :: _ from h)
  cases c
  cases c'
  simp only at hunseen htotal hrecent
  rw [hunseen, htotal, hrecent]

/-! ## The handlers -/

section Serves

variable {d : Dispatcher} {db : DB} {u id : ℤ} {folder : Folder} {cmd : ImapCommand}
  {name items : Bytes}

/-- The lookup of a folder by the name in the first argument. -/
theorem serves_named (huser : d.authenticatedUserID = some u) (harg : cmd.args[0]? = some name)
    (hfind : FolderDAL.findByName db u name = some folder) {α : Type}
    {k : Option Folder → HandlerM α} {a : α} {d' : Dispatcher} {db' : DB}
    (hk : Serves (k (some folder)) d db a d' db') :
    Serves (do k (← ask (MessageRepository.findFolderByName (← userID) (← arg cmd 0)))) d db a
      d' db' := by
  rw [← hfind] at hk
  exact .bind (.get_bind (.value huser)) (.bind (.arg harg) (.bind (.ask _) hk))

/-- The session when a `SELECT` has found the folder. -/
def Dispatcher.select (d : Dispatcher) (lastError : Bytes) (folder : Folder)
    (messages : List Message) : Dispatcher :=
  { d with
    state := .selected
    lastError
    currentMailbox := {
      name := folder.name
      numExists := messages.length
      numRecent := numRecent messages
      id := folder.id } }

/-- **`SELECT` replies with the counts of the page**, and keeps two of them. -/
theorem serves_handleSelect (huser : d.authenticatedUserID = some u) (hargs : cmd.args = [name])
    (hfind : FolderDAL.findByName db u name = some folder) (hid : folder.id = some id) :
    ∃ e db', Serves (handleSelect cmd) d db (selectReply cmd.tag folder id (.ofList (page db id)))
      (d.select e folder (page db id)) db' := by
  let d₁ : Dispatcher := { d with currentMailbox := { d.currentMailbox with name := folder.name } }
  let d₂ : Dispatcher := { d₁ with currentMailbox := { d₁.currentMailbox with
    numExists := (page db id).length
    numRecent := numRecent (page db id) } }
  obtain ⟨e, he⟩ := Serves.attempt (MessageRepository.clearRecentByFolder id) d₂ db
  have hname : Serves (modify fun d => { d with
      currentMailbox := { d.currentMailbox with name := folder.name } }) d db () d₁ db := rfl
  have hcounts : Serves (modify fun d => { d with currentMailbox := { d.currentMailbox with
      numExists := (page db id).length
      numRecent := numRecent (page db id) } }) d₁ db () d₂ db := rfl
  refine ⟨e, (run store (MessageRepository.clearRecentByFolder id) db).1, ?_⟩
  rw [handleSelect, if_neg (by simp [hargs])]
  refine serves_named huser (by rw [hargs]; rfl) hfind ?_
  refine hname.bind (.bind (.value hid) (.bind (.ask _) (hcounts.bind ?_)))
  exact .bind (.value hid) (he.bind (.bind rfl (.bind (.value hid) (.bind rfl (.pure _)))))

theorem serves_statusItem (hid : folder.id = some id) (messages : List Message) (req : Bytes) :
    Serves (statusItem folder messages req) d db
      (statusText folder id (.ofList messages) req) d db := by
  unfold statusItem statusText
  split_ifs
  · exact .pure _
  · exact .pure _
  · exact .pure _
  · exact .bind (.value hid) (.pure _)
  · exact .pure _
  · exact .pure _

/-- **`STATUS` replies with the counts of the page.** -/
theorem serves_handleStatus (huser : d.authenticatedUserID = some u)
    (hargs : cmd.args = [name, items])
    (hfind : FolderDAL.findByName db u name = some folder) (hid : folder.id = some id) :
    Serves (handleStatus cmd) d db
      (statusReply cmd.tag name items folder id (.ofList (page db id))) d db := by
  have harg₀ : cmd.args[0]? = some name := by rw [hargs]; rfl
  have harg₁ : cmd.args[1]? = some items := by rw [hargs]; rfl
  rw [handleStatus, if_neg (by simp [hargs])]
  refine serves_named huser harg₀ hfind (.bind (.value hid) ?_)
  have hlist : Serves (ask (MessageRepository.findByFolder id)) d db (page db id) d db :=
    serves_findByFolder id
  refine hlist.bind (.bind (.arg harg₁) ?_)
  refine .bind (.mapM (serves_statusItem hid _) _) ?_
  rw [List.filterMap_map, statusReply]
  dsimp only [Function.id_comp]
  split_ifs
  · exact .pure _
  · exact .bind (.arg harg₀) (.pure _)

/-- **The numbers that `SELECT` and `STATUS` report are those of the table**, exactly if the folder
has no more than 50 messages. -/
theorem counts_iff {select status : ImapCommand} (huser : d.authenticatedUserID = some u)
    (hfind : FolderDAL.findByName db u name = some folder) (hid : folder.id = some id)
    (hselect : select.args = [name]) (hstatus : status.args = [name, items]) :
    ((∃ d' db', Serves (handleSelect select) d db
          (selectReply select.tag folder id (.ofTable db id)) d' db' ∧
        d'.currentMailbox.numExists = (Counts.ofTable db id).total ∧
        d'.currentMailbox.numRecent = (Counts.ofTable db id).recent) ∧
      ∃ d' db', Serves (handleStatus status) d db
        (statusReply status.tag name items folder id (.ofTable db id)) d' db') ↔
      (Counts.ofTable db id).total ≤ 50 := by
  obtain ⟨e, db₁, hs⟩ := serves_handleSelect huser hselect hfind hid
  have hexists : (d.select e folder (page db id)).currentMailbox.numExists =
      (Counts.ofList (page db id)).total := rfl
  have hrecent : (d.select e folder (page db id)).currentMailbox.numRecent =
      (Counts.ofList (page db id)).recent := rfl
  have ht := serves_handleStatus huser hstatus hfind hid
  rw [← ofList_page_iff]
  constructor
  · rintro ⟨⟨d', db', hs', -⟩, -⟩
    exact selectReply_inj (hs.unique hs')
  · intro heq
    rw [heq] at hs hexists hrecent ht
    exact ⟨⟨_, db₁, hs, hexists, hrecent⟩, d, db, ht⟩

end Serves

/-! ## A folder that fits on the page, and one that does not -/

/-- The folder of `pageDB n`. -/
def pageFolder (n : ℕ) : Folder where
  userId := 1
  parentId := none
  name := lit "INBOX"
  nextUid := n + 1
  id := some 1

def selectInbox : ImapCommand := { tag := lit "a", type := .select, args := [lit "INBOX"] }

def statusInbox : ImapCommand where
  tag := lit "a"
  type := .status
  args := [lit "INBOX", lit "(MESSAGES RECENT UNSEEN)"]

theorem counts_iff_two :
    ((∃ d' db', Serves (handleSelect selectInbox) pageSession (pageDB 2)
          (selectReply (lit "a") (pageFolder 2) 1 (.ofTable (pageDB 2) 1)) d' db' ∧
        d'.currentMailbox.numExists = (Counts.ofTable (pageDB 2) 1).total ∧
        d'.currentMailbox.numRecent = (Counts.ofTable (pageDB 2) 1).recent) ∧
      ∃ d' db', Serves (handleStatus statusInbox) pageSession (pageDB 2)
        (statusReply (lit "a") (lit "INBOX") (lit "(MESSAGES RECENT UNSEEN)") (pageFolder 2) 1
          (.ofTable (pageDB 2) 1)) d' db') ↔
      (Counts.ofTable (pageDB 2) 1).total ≤ 50 :=
  counts_iff rfl (by decide +kernel) rfl rfl rfl

/-- **51 messages are counted as 50**, by both. -/
theorem not_counts_page :
    FolderDAL.findByName (pageDB 51) 1 (lit "INBOX") = some (pageFolder 51) ∧
      Counts.ofTable (pageDB 51) 1 = ⟨51, 51, 51⟩ ∧
      (∃ d' db', Serves (handleSelect selectInbox) pageSession (pageDB 51)
        (selectReply (lit "a") (pageFolder 51) 1 ⟨50, 50, 50⟩) d' db' ∧
        d'.currentMailbox.numExists = 50) ∧
      ∃ d' db', Serves (handleStatus statusInbox) pageSession (pageDB 51)
        (lit "* STATUS INBOX (MESSAGES 50 RECENT 50 UNSEEN 50)\r\na OK Status completed\r\n")
        d' db' := by
  have hfind : FolderDAL.findByName (pageDB 51) 1 (lit "INBOX") = some (pageFolder 51) := by
    decide +kernel
  have hpage : Counts.ofList (page (pageDB 51) 1) = ⟨50, 50, 50⟩ := by decide +kernel
  have hselect : ∃ e db', Serves (handleSelect selectInbox) pageSession (pageDB 51)
      (selectReply (lit "a") (pageFolder 51) 1 (.ofList (page (pageDB 51) 1)))
      (pageSession.select e (pageFolder 51) (page (pageDB 51) 1)) db' :=
    serves_handleSelect rfl rfl hfind rfl
  have hexists : (page (pageDB 51) 1).length = 50 := congrArg Counts.total hpage
  have hstatus : Serves (handleStatus statusInbox) pageSession (pageDB 51)
      (statusReply (lit "a") (lit "INBOX") (lit "(MESSAGES RECENT UNSEEN)") (pageFolder 51) 1
        (.ofList (page (pageDB 51) 1))) pageSession (pageDB 51) :=
    serves_handleStatus rfl rfl hfind rfl
  have hreply : statusReply (lit "a") (lit "INBOX") (lit "(MESSAGES RECENT UNSEEN)") (pageFolder 51) 1
      ⟨50, 50, 50⟩ =
        lit "* STATUS INBOX (MESSAGES 50 RECENT 50 UNSEEN 50)\r\na OK Status completed\r\n" := by
    decide +kernel
  rw [hpage] at hselect
  rw [hpage, hreply] at hstatus
  obtain ⟨e, db', hs⟩ := hselect
  exact ⟨hfind, by decide +kernel, ⟨_, db', hs, hexists⟩, _, _, hstatus⟩

end MailStack.Imap
