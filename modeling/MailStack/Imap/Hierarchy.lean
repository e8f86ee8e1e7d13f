import MailStack.Imap.Create
import MailStack.Store.FolderNames

/-!
# Imap/Hierarchy — `CREATE` of a path

A folder is stored under its whole path.  `HandleCreate` looks up each component but the last by the
component alone, and from the second on asks that it find the folder it found before: a path of two
components has its parent found, and a longer one only where the components are all one name.
`createsAsAsked_iff` says when that is what was asked for.
-/

open Bytes

namespace MailStack.Imap

open Store Prog ImapResponse

/-! ## Paths -/

/-- The path with these components. -/
def pathOf (cs : List Bytes) : Bytes := (lit "/").intercalate cs

/-- A component: not empty, and without the delimiter. -/
def IsComponent (c : Bytes) : Prop := c ≠ [] ∧ '/'.toUInt8 ∉ c

theorem pathOf_cons_cons (c c' : Bytes) (cs : List Bytes) :
    pathOf (c :: c' :: cs) = c ++ '/'.toUInt8 :: pathOf (c' :: cs) := by
  rw [pathOf, List.intercalate_cons_cons, List.append_assoc]
  rfl

theorem pathOf_singleton (c : Bytes) : pathOf [c] = c := by simp [pathOf]

/-- `Split` takes the path apart again. -/
theorem split_pathOf : ∀ {cs : List Bytes}, (∀ c ∈ cs, IsComponent c) →
    split (pathOf cs) '/'.toUInt8 = cs
  | [], _ => rfl
  | [c], h => by
      obtain ⟨hne, hslash⟩ := h c List.mem_cons_self
      rw [pathOf_singleton]
      exact getlines_of_notMem hslash hne
  | c :: c' :: cs, h => by
      rw [pathOf_cons_cons, split, getlines_append_cons _ (h c List.mem_cons_self).2]
      exact congrArg (c :: ·) (split_pathOf fun x hx => h x (List.mem_cons_of_mem c hx))

/-- A path with components is not empty. -/
theorem pathOf_ne_nil {cs : List Bytes} (h : ∀ c ∈ cs, IsComponent c) (hne : cs ≠ []) :
    pathOf cs ≠ [] := by
  intro hnil
  have hsplit := split_pathOf h
  rw [hnil] at hsplit
  exact hne hsplit.symm

/-! ## The chain of parents -/

/-- Each of the components finds the folder. -/
def FindOne (db : DB) (u : ℤ) (names : List Bytes) (f : Folder) : Prop :=
  ∀ c ∈ names, FolderDAL.findByName db u c = some f

section Chain

variable {d : Dispatcher} {db : DB} {u : ℤ} {f : Folder}

/-- **The chain ends at a folder that every component finds**, and breaks without one. -/
theorem serves_findParent_some (hu : d.authenticatedUserID = some u) :
    ∀ {names : List Bytes}, FindOne db u names f →
      Serves (findParent (some f) names) d db (.ok (some f)) d db
  | [], _ => .pure _
  | name :: names, h => by
      refine .bind (serves_userID hu) (.bind (.ask _) ?_)
      have hrun : (run store (MessageRepository.findFolderByName u name) db).2 = some f :=
        h name List.mem_cons_self
      rw [hrun]
      dsimp only
      rw [if_pos (by simp)]
      exact serves_findParent_some hu fun c hc => h c (List.mem_cons_of_mem name hc)

/-- Where a name does not find that folder, the search says which. -/
theorem serves_findParent_error (hu : d.authenticatedUserID = some u) :
    ∀ {names : List Bytes}, ¬ FindOne db u names f →
      ∃ missing, Serves (findParent (some f) names) d db (.error missing) d db
  | [], h => absurd (fun c hc => absurd hc List.not_mem_nil) h
  | name :: names, h => by
      have hask : Serves (ask (MessageRepository.findFolderByName u name)) d db
          (FolderDAL.findByName db u name) d db := .ask _
      cases hfind : FolderDAL.findByName db u name with
      | none =>
        rw [hfind] at hask
        exact ⟨name, .bind (serves_userID hu) (.bind hask (.pure _))⟩
      | some g =>
        rw [hfind] at hask
        by_cases hg : f = g
        · subst hg
          have hnames : ¬ FindOne db u names f := fun hall =>
            h (List.forall_mem_cons.mpr ⟨hfind, hall⟩)
          obtain ⟨missing, hs⟩ := serves_findParent_error hu hnames
          refine ⟨missing, .bind (serves_userID hu) (.bind hask ?_)⟩
          dsimp only
          rw [if_pos (by simp)]
          exact hs
        · refine ⟨name, .bind (serves_userID hu) (.bind hask ?_)⟩
          dsimp only
          rw [if_neg (by simpa using hg)]
          exact .pure _

/-- Where all names find one folder, the search ends with it. -/
theorem serves_findParent_of_findOne (hu : d.authenticatedUserID = some u) {names : List Bytes}
    (hne : names ≠ []) (h : FindOne db u names f) :
    Serves (findParent none names) d db (.ok (some f)) d db := by
  obtain ⟨name, names, rfl⟩ := List.exists_cons_of_ne_nil hne
  obtain ⟨hname, hnames⟩ := List.forall_mem_cons.mp h
  refine .bind (serves_userID hu) (.bind (.ask _) ?_)
  have hrun : (run store (MessageRepository.findFolderByName u name) db).2 = some f := hname
  rw [hrun]
  exact serves_findParent_some hu hnames

/-- Where they do not, the search says which. -/
theorem serves_findParent_of_not (hu : d.authenticatedUserID = some u) {names : List Bytes}
    (hne : names ≠ []) (h : ¬ ∃ f, FindOne db u names f) :
    ∃ missing, Serves (findParent none names) d db (.error missing) d db := by
  obtain ⟨name, names, rfl⟩ := List.exists_cons_of_ne_nil hne
  have hask : Serves (ask (MessageRepository.findFolderByName u name)) d db
      (FolderDAL.findByName db u name) d db := .ask _
  cases hfind : FolderDAL.findByName db u name with
  | none =>
    rw [hfind] at hask
    exact ⟨name, .bind (serves_userID hu) (.bind hask (.pure _))⟩
  | some g =>
    rw [hfind] at hask
    have hnames : ¬ FindOne db u names g := fun hall =>
      h ⟨g, List.forall_mem_cons.mpr ⟨hfind, hall⟩⟩
    obtain ⟨missing, hs⟩ := serves_findParent_error hu hnames
    exact ⟨missing, .bind (serves_userID hu) (.bind hask hs)⟩

end Chain

/-! ## The row -/

section Row

variable {db : DB} {u : ℤ} {f : Folder}

/-- The database with the new folder. -/
def withFolder (db : DB) (u : ℤ) (parentId : Option ℤ) (name : Bytes) : DB :=
  { db with folders := db.folders.insert { userId := u, parentId, name := cstr name } }

/-- `createFolder` adds a folder whose name is new to the user. -/
theorem run_createFolder (hname : f.name ≠ []) (hrefs : FolderDAL.refers db f.row = true) :
    run store (MessageRepository.createFolder f) db =
      match FolderDAL.findByName db f.userId f.name with
      | some _ =>
        (db, .error (some (lit "createFolder: folder '" ++ f.name ++ lit "' already exists")))
      | none =>
        ({ db with folders := db.folders.insert f.row }, .ok { id := db.folders.seq + 1 }) := by
  rw [MessageRepository.createFolder, if_neg hname, MessageRepository.findFolderByName,
    run_query_bind]
  cases hfind : FolderDAL.findByName db f.userId f.name with
  | some g => rfl
  | none =>
    have happly : store.apply (.insertFolder f) db =
        .ok ({ db with folders := db.folders.insert f.row }, { id := db.folders.seq + 1 }) := by
      simp only [store, Write.apply, FolderDAL.insert, hrefs, if_true]
    dsimp only
    rw [unchecked, run_bind, run_locked_of_ok happly]
    rfl

/-- A user who is there, and a folder of the user or none. -/
theorem refers_row {parentId : Option ℤ} (name : Bytes)
    (huser : (db.users.get? u).isSome = true)
    (hparent : ∀ p, parentId = some p → (db.folders.get? p).isSome = true) :
    FolderDAL.refers db ({ userId := u, parentId, name } : Folder).row = true := by
  rw [FolderDAL.refers, Bool.and_eq_true]
  refine ⟨huser, ?_⟩
  cases parentId with
  | none => rfl
  | some p => exact hparent p rfl

/-- A folder that was found is there. -/
theorem isSome_of_findByName {name : Bytes} {p : ℤ} (h : FolderDAL.findByName db u name = some f)
    (hp : f.id = some p) : (db.folders.get? p).isSome = true := by
  obtain ⟨i, hid, hget, -, -⟩ := of_findByName h
  obtain rfl := Option.some.inj (hid.symm.trans hp)
  rw [hget]
  rfl

end Row

/-! ## The handler -/

section Handler

variable {d : Dispatcher} {db : DB} {u : ℤ} {cmd : ImapCommand} {cs : List Bytes} {f : Folder}

/-- The reply of a `CREATE` that made its folder. -/
def created (cmd : ImapCommand) : Bytes := ok cmd.tag (lit "Create completed")

/-- The handler refuses, and changes nothing in the database. -/
def Refuses (h : HandlerM Bytes) (cmd : ImapCommand) (d : Dispatcher) (db : DB) : Prop :=
  ∃ reply d', reply ≠ created cmd ∧ Serves h d db reply d' db

/-- A new name is created. -/
theorem serves_createReply (d : Dispatcher) (cmd : ImapCommand) {parentId : Option ℤ}
    {name : Bytes} (hname : name ≠ [])
    (hrefs : FolderDAL.refers db ({ userId := u, parentId, name } : Folder).row = true)
    (hfind : FolderDAL.findByName db u name = none) :
    ∃ d', Serves (createReply cmd { userId := u, parentId, name }) d db (created cmd) d'
      (withFolder db u parentId name) := by
  obtain ⟨e, hs⟩ := Serves.attempt
    (MessageRepository.createFolder { userId := u, parentId, name }) d db
  rw [run_createFolder hname hrefs, hfind] at hs
  exact ⟨_, .bind hs (.pure _)⟩

/-- A name that is taken is refused. -/
theorem refuses_createReply (d : Dispatcher) (cmd : ImapCommand) {parentId : Option ℤ}
    {name : Bytes} {g : Folder} (hname : name ≠ [])
    (hrefs : FolderDAL.refers db ({ userId := u, parentId, name } : Folder).row = true)
    (hfind : FolderDAL.findByName db u name = some g) :
    Refuses (createReply cmd { userId := u, parentId, name }) cmd d db := by
  obtain ⟨e, hs⟩ := Serves.attempt
    (MessageRepository.createFolder { userId := u, parentId, name }) d db
  rw [run_createFolder hname hrefs, hfind] at hs
  exact ⟨_, _, (ok_ne_no _ _ _).symm, .bind hs (.get_bind (.pure _))⟩

/-- A path of one component. -/
theorem serve_handleCreate_one (db : DB) {c : Bytes} (hu : d.authenticatedUserID = some u)
    (hargs : cmd.args = [pathOf [c]]) (hc : ∀ x ∈ [c], IsComponent x) :
    serve (handleCreate cmd) d db =
      serve (createReply cmd { userId := u, parentId := none, name := pathOf [c] }) d db := by
  have harg : cmd.args[0]? = some (pathOf [c]) := by rw [hargs]; rfl
  have hvalid : ¬ (pathOf [c] = [] ∨ [] ∈ [c]) := by
    rintro (h | h)
    · exact pathOf_ne_nil hc (List.cons_ne_nil c []) h
    · exact (hc [] h).1 rfl
  rw [handleCreate, if_neg (by simp [hargs]), (Serves.arg harg).serve_bind]
  dsimp only
  rw [split_pathOf hc, if_neg hvalid, if_neg (by simp), (serves_userID hu).serve_bind]

/-- A path of more. -/
theorem serve_handleCreate_more (hargs : cmd.args = [pathOf cs]) (hcs : ∀ c ∈ cs, IsComponent c)
    (hmore : 2 ≤ cs.length) :
    serve (handleCreate cmd) d db = serve (findParent none cs.dropLast >>= fun r =>
      match r with
      | .error missing => return bad cmd.tag (lit "Parent folder doesn`t exist: " ++ missing)
      | .ok prev =>
        match prev.bind (·.id) with
        | none => return bad cmd.tag (lit "Parent folder doesn`t exist")
        | some parentId => do
          createReply cmd { userId := ← userID, parentId := some parentId, name := pathOf cs })
      d db := by
  have harg : cmd.args[0]? = some (pathOf cs) := by rw [hargs]; rfl
  have hne : cs ≠ [] := by
    rintro rfl
    exact absurd hmore (by simp)
  have hvalid : ¬ (pathOf cs = [] ∨ [] ∈ cs) := by
    rintro (h | h)
    · exact pathOf_ne_nil hcs hne h
    · exact (hcs [] h).1 rfl
  rw [handleCreate, if_neg (by simp [hargs]), (Serves.arg harg).serve_bind]
  dsimp only
  rw [split_pathOf hcs, if_neg hvalid]
  exact congrArg (serve · d db) (if_pos (by omega))

theorem dropLast_ne_nil (hmore : 2 ≤ cs.length) : cs.dropLast ≠ [] := by
  intro h
  have hlen := congrArg List.length h
  rw [List.length_dropLast, List.length_nil] at hlen
  omega

/-- **With a chain it is created below the folder at its end.** -/
theorem serve_handleCreate_chain {p : ℤ} (hu : d.authenticatedUserID = some u)
    (hargs : cmd.args = [pathOf cs]) (hcs : ∀ c ∈ cs, IsComponent c) (hmore : 2 ≤ cs.length)
    (hone : FindOne db u cs.dropLast f) (hp : f.id = some p) :
    serve (handleCreate cmd) d db =
      serve (createReply cmd { userId := u, parentId := some p, name := pathOf cs }) d db := by
  have hchain := serves_findParent_of_findOne hu (dropLast_ne_nil hmore) hone
  rw [serve_handleCreate_more hargs hcs hmore, hchain.serve_bind]
  have hbind : (some f).bind (·.id) = some p := hp
  dsimp only
  rw [hbind]
  dsimp only
  rw [(serves_userID hu).serve_bind]

/-- A path without its parents is refused. -/
theorem refuses_handleCreate (hu : d.authenticatedUserID = some u)
    (hargs : cmd.args = [pathOf cs]) (hcs : ∀ c ∈ cs, IsComponent c) (hmore : 2 ≤ cs.length)
    (hnone : ¬ ∃ f, FindOne db u cs.dropLast f) : Refuses (handleCreate cmd) cmd d db := by
  obtain ⟨missing, hs⟩ := serves_findParent_of_not hu (dropLast_ne_nil hmore) hnone
  refine ⟨bad cmd.tag (lit "Parent folder doesn`t exist: " ++ missing), d,
    (ok_ne_bad _ _ _).symm, ?_⟩
  rw [Serves, serve_handleCreate_more hargs hcs hmore, hs.serve_bind]
  rfl

/-! ## What was asked for -/

/-- The path is free, and what stands above its last component is there. -/
def Creatable (db : DB) (u : ℤ) (cs : List Bytes) : Prop :=
  FolderDAL.findByName db u (pathOf cs) = none ∧
    (cs.length = 1 ∨ ∃ p, FolderDAL.findByName db u (pathOf cs.dropLast) = some p)

/-- The folder with the full name of the parent. -/
def askedParent (db : DB) (u : ℤ) (cs : List Bytes) : Option ℤ :=
  if cs.length = 1 then none else (FolderDAL.findByName db u (pathOf cs.dropLast)).bind (·.id)

/-- `CREATE` of the path is answered, by `OK` exactly where it can be created, and then below the
folder it names; otherwise nothing changes. -/
structure CreatesAsAsked (d : Dispatcher) (db : DB) (cmd : ImapCommand) (u : ℤ) (cs : List Bytes) :
    Prop where
  answers : ∃ reply d' db', Serves (handleCreate cmd) d db reply d' db'
  ok_iff : (∃ d' db', Serves (handleCreate cmd) d db (created cmd) d' db') ↔ Creatable db u cs
  row : ∀ d' db', Serves (handleCreate cmd) d db (created cmd) d' db' →
    db' = withFolder db u (askedParent db u cs) (pathOf cs)
  otherwise : ∀ reply d' db', reply ≠ created cmd → Serves (handleCreate cmd) d db reply d' db' →
    db' = db

/-- A handler comes to one answer and one database. -/
theorem serves_unique {h : HandlerM Bytes} {a b : Bytes} {d₁ d₂ : Dispatcher} {db₁ db₂ : DB}
    (hs : Serves h d db a d₁ db₁) (hs' : Serves h d db b d₂ db₂) : a = b ∧ db₁ = db₂ :=
  ⟨hs.unique hs', (Prod.mk.inj (hs.symm.trans hs')).1⟩

/-- The database shows under which parent the folder is. -/
theorem withFolder_inj {p p' : Option ℤ} {name : Bytes}
    (h : withFolder db u p name = withFolder db u p' name) : p = p' := by
  have hrows := congrArg (fun db : DB => db.folders.rows) h
  have hlast := List.append_cancel_left hrows
  exact congrArg FolderData.parentId (Prod.mk.inj (List.cons.inj hlast).1).2

/-- What was created is as asked if its parent is. -/
theorem createsAsAsked_iff_of_created {parentId : Option ℤ}
    (h : ∃ d', Serves (handleCreate cmd) d db (created cmd) d'
      (withFolder db u parentId (pathOf cs))) :
    CreatesAsAsked d db cmd u cs ↔ Creatable db u cs ∧ parentId = askedParent db u cs := by
  obtain ⟨d', hs⟩ := h
  constructor
  · intro hasked
    exact ⟨hasked.ok_iff.mp ⟨_, _, hs⟩, withFolder_inj (hasked.row _ _ hs)⟩
  · rintro ⟨hcreatable, rfl⟩
    refine ⟨⟨_, _, _, hs⟩, iff_of_true ⟨_, _, hs⟩ hcreatable, fun d₁ db₁ hs₁ => ?_, ?_⟩
    · exact (serves_unique hs₁ hs).2
    · intro reply d₁ db₁ hne hs₁
      exact absurd (serves_unique hs₁ hs).1 hne

/-- A refusal is right where nothing can be created. -/
theorem createsAsAsked_iff_of_refuses (h : Refuses (handleCreate cmd) cmd d db) :
    CreatesAsAsked d db cmd u cs ↔ ¬ Creatable db u cs := by
  obtain ⟨reply, d', hne, hs⟩ := h
  have hnot : ¬ ∃ d' db', Serves (handleCreate cmd) d db (created cmd) d' db' := by
    rintro ⟨d₁, db₁, hs₁⟩
    exact hne (serves_unique hs hs₁).1
  constructor
  · exact fun hasked hcreatable => hnot (hasked.ok_iff.mpr hcreatable)
  · intro hcreatable
    refine ⟨⟨_, _, _, hs⟩, iff_of_false hnot hcreatable, fun d₁ db₁ hs₁ => ?_, ?_⟩
    · exact absurd ⟨d₁, db₁, hs₁⟩ hnot
    · exact fun reply₁ d₁ db₁ _ hs₁ => (serves_unique hs₁ hs).2

/-- There is nothing above the path, or the path is taken; or else the components above the last
find one folder whose name is their path, or none, and then no folder has that name. -/
def FindsParent (db : DB) (u : ℤ) (c : Bytes) (cs : List Bytes) : Prop :=
  cs = [] ∨ (∃ g, FolderDAL.findByName db u (pathOf (c :: cs)) = some g) ∨
    (∀ f, FindOne db u (c :: cs).dropLast f → cstr (pathOf (c :: cs).dropLast) = cstr c) ∧
      ((¬ ∃ f, FindOne db u (c :: cs).dropLast f) →
        FolderDAL.findByName db u (pathOf (c :: cs).dropLast) = none)

/-- The folder that the components find is the one with the full name where the names are one. -/
theorem asked_iff_of_findOne {c c' : Bytes} {p : ℤ}
    (hfree : FolderDAL.findByName db u (pathOf (c :: c' :: cs)) = none)
    (hone : FindOne db u (c :: c' :: cs).dropLast f) (hp : f.id = some p) :
    (Creatable db u (c :: c' :: cs) ∧ some p = askedParent db u (c :: c' :: cs)) ↔
      cstr (pathOf (c :: c' :: cs).dropLast) = cstr c := by
  have hc : FolderDAL.findByName db u c = some f := hone c (by simp)
  have hlen : ¬ (c :: c' :: cs).length = 1 := by simp
  rw [Creatable, askedParent, if_neg hlen]
  constructor
  · rintro ⟨⟨-, hone | ⟨g, hg⟩⟩, hasked⟩
    · exact absurd hone hlen
    · obtain ⟨i, hid, hget, -, hname⟩ := of_findByName hg
      obtain ⟨j, hjd, hgetj, -, hnamej⟩ := of_findByName hc
      rw [hg] at hasked
      obtain rfl := Option.some.inj (hasked.trans hid)
      obtain rfl := Option.some.inj (hjd.symm.trans hp)
      have hrow := Option.some.inj (hget.symm.trans hgetj)
      rw [← hname, ← hnamej, hrow]
  · intro hsame
    have hg : FolderDAL.findByName db u (pathOf (c :: c' :: cs).dropLast) = some f := by
      rw [← hc, FolderDAL.findByName, hsame, FolderDAL.findByName]
    exact ⟨⟨hfree, .inr ⟨f, hg⟩⟩, by rw [hg]; exact hp.symm⟩

/-- **`CREATE` builds what it is asked for if and only if it looks for the parent where the parent
is.** -/
theorem createsAsAsked_iff {c : Bytes} (hu : d.authenticatedUserID = some u)
    (huser : (db.users.get? u).isSome = true) (hargs : cmd.args = [pathOf (c :: cs)])
    (hcs : ∀ x ∈ c :: cs, IsComponent x) :
    CreatesAsAsked d db cmd u (c :: cs) ↔ FindsParent db u c cs := by
  have hpath : pathOf (c :: cs) ≠ [] := pathOf_ne_nil hcs (List.cons_ne_nil c cs)
  cases cs with
  | nil =>
    have hserve := serve_handleCreate_one db hu hargs hcs
    have hrefs := refers_row (pathOf [c]) huser fun p (hp : none = some p) => nomatch hp
    refine iff_of_true ?_ (.inl rfl)
    cases hfree : FolderDAL.findByName db u (pathOf [c]) with
    | some g =>
      obtain ⟨reply, d', hne, hs⟩ := refuses_createReply d cmd hpath hrefs hfree
      refine (createsAsAsked_iff_of_refuses ⟨reply, d', hne, hserve.trans hs⟩).mpr fun h => ?_
      exact nomatch hfree.symm.trans h.1
    | none =>
      obtain ⟨d', hs⟩ := serves_createReply d cmd hpath hrefs hfree
      exact (createsAsAsked_iff_of_created ⟨d', hserve.trans hs⟩).mpr ⟨⟨hfree, .inl rfl⟩, rfl⟩
  | cons c' cs =>
    have hmore : 2 ≤ (c :: c' :: cs).length := by simp
    by_cases hone : ∃ f, FindOne db u (c :: c' :: cs).dropLast f
    · obtain ⟨f, hone⟩ := hone
      have hc : FolderDAL.findByName db u c = some f := hone c (by simp)
      obtain ⟨p, hp, -⟩ := of_findByName hc
      have hserve := serve_handleCreate_chain hu hargs hcs hmore hone hp
      have hrefs := refers_row (pathOf (c :: c' :: cs)) huser
        fun q (hq : some p = some q) => Option.some.inj hq ▸ isSome_of_findByName hc hp
      cases hfree : FolderDAL.findByName db u (pathOf (c :: c' :: cs)) with
      | some g =>
        obtain ⟨reply, d', hne, hs⟩ := refuses_createReply d cmd hpath hrefs hfree
        rw [createsAsAsked_iff_of_refuses ⟨reply, d', hne, hserve.trans hs⟩]
        exact iff_of_true (fun h => nomatch hfree.symm.trans h.1) (.inr (.inl ⟨g, hfree⟩))
      | none =>
        obtain ⟨d', hs⟩ := serves_createReply d cmd hpath hrefs hfree
        rw [createsAsAsked_iff_of_created ⟨d', hserve.trans hs⟩,
          asked_iff_of_findOne hfree hone hp]
        constructor
        · exact fun hsame => .inr (.inr ⟨fun _ _ => hsame, fun h => absurd ⟨f, hone⟩ h⟩)
        · rintro (h | ⟨g, hg⟩ | h)
          · exact nomatch h
          · exact nomatch hfree.symm.trans hg
          · exact h.1 f hone
    · rw [createsAsAsked_iff_of_refuses (refuses_handleCreate hu hargs hcs hmore hone)]
      cases hfree : FolderDAL.findByName db u (pathOf (c :: c' :: cs)) with
      | some g =>
        exact iff_of_true (fun h => nomatch hfree.symm.trans h.1) (.inr (.inl ⟨g, hfree⟩))
      | none =>
        constructor
        · intro hnot
          refine .inr (.inr ⟨fun f hf => absurd ⟨f, hf⟩ hone, fun _ => ?_⟩)
          exact Option.eq_none_iff_forall_ne_some.mpr fun g hg => hnot ⟨hfree, .inr ⟨g, hg⟩⟩
        · rintro (h | ⟨g, hg⟩ | h)
          · exact nomatch h
          · exact nomatch hfree.symm.trans hg
          · rintro ⟨-, hlen | ⟨g, hg⟩⟩
            · exact absurd hlen (by simp)
            · exact nomatch (h.2 hone).symm.trans hg

end Handler

/-! ## A path of three components -/

/-- Alice's folders `a` and `a/b`, the second below the first. -/
def nestedDB : DB :=
  withFolder (withFolder
    { users := Table.empty.insert ⟨lit "alice", []⟩, folders := .empty, messages := .empty,
      recipients := .empty } 1 none (lit "a")) 1 (some 1) (lit "a/b")

def createPath (path : String) : ImapCommand :=
  { tag := lit "t", type := .create, args := [lit path] }

theorem createsAsAsked_two :
    CreatesAsAsked aliceSession nestedDB (createPath "a/c") 1 [lit "a", lit "c"] := by
  have hcs : ∀ x ∈ [lit "a", lit "c"], IsComponent x := by
    intro x hx
    rcases List.mem_pair.mp hx with rfl | rfl
    · exact ⟨by decide, by decide⟩
    · exact ⟨by decide, by decide⟩
  have hsome : (FolderDAL.findByName nestedDB 1 (lit "a")).isSome = true := by decide
  obtain ⟨f, hfind⟩ := Option.isSome_iff_exists.mp hsome
  refine (createsAsAsked_iff rfl rfl rfl hcs).mpr (.inr (.inr ⟨fun _ _ => rfl, fun h => ?_⟩))
  refine absurd ⟨f, fun x hx => ?_⟩ h
  obtain rfl := List.mem_singleton.mp hx
  exact hfind

/-- **The folder `a/b` is there**, and `a/b/c` cannot be created below it. -/
theorem not_createsAsAsked_three :
    (FolderDAL.findByName nestedDB 1 (lit "a/b")).isSome = true ∧
      FolderDAL.findByName nestedDB 1 (lit "a/b/c") = none ∧
      Serves (handleCreate (createPath "a/b/c")) aliceSession nestedDB
        (lit "t BAD Parent folder doesn`t exist: b\r\n") aliceSession nestedDB ∧
      ¬ CreatesAsAsked aliceSession nestedDB (createPath "a/b/c") 1 [lit "a", lit "b", lit "c"] := by
  have hsome : (FolderDAL.findByName nestedDB 1 (lit "a/b")).isSome = true := by decide +kernel
  have hnone : FolderDAL.findByName nestedDB 1 (lit "a/b/c") = none := by decide +kernel
  have hbad : Serves (handleCreate (createPath "a/b/c")) aliceSession nestedDB
      (lit "t BAD Parent folder doesn`t exist: b\r\n") aliceSession nestedDB := rfl
  refine ⟨hsome, hnone, hbad, fun h => ?_⟩
  obtain ⟨g, hg⟩ := Option.isSome_iff_exists.mp hsome
  obtain ⟨d', db', hs⟩ := h.ok_iff.mpr ⟨hnone, .inr ⟨g, hg⟩⟩
  exact absurd (hs.unique hbad) (by decide +kernel)

end MailStack.Imap
