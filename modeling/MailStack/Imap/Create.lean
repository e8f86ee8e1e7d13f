import MailStack.Imap.Serve

/-!
# Imap/Create — the folder that an accepted `CREATE` made

`HandleCreate` replies `OK` only where the repository inserted the row, and what it looked up on the
way there changed nothing.
-/

open Bytes

namespace MailStack.Imap

open Store Prog ImapResponse

variable {d d' : Dispatcher} {db db' : DB} {cmd : ImapCommand} {u : ℤ} {f : Folder}

theorem ok_ne_no (tag s t : Bytes) : ok tag s ≠ no tag t := by
  intro h
  simp only [ok, no, List.append_assoc, List.append_cancel_left_eq] at h
  exact absurd (List.cons.inj (List.cons.inj h).2).1 (by decide)

theorem ok_ne_bad (tag s t : Bytes) : ok tag s ≠ bad tag t := by
  intro h
  simp only [ok, bad, List.append_assoc, List.append_cancel_left_eq] at h
  exact absurd (List.cons.inj (List.cons.inj h).2).1 (by decide)

theorem serves_userID (hu : d.authenticatedUserID = some u) : Serves userID d db u d db :=
  .get_bind (.value hu)

/-- Looking for the parents changes nothing. -/
theorem of_findParent (hu : d.authenticatedUserID = some u) :
    ∀ {names : List Bytes} {prev : Option Folder} {r : Except Bytes (Option Folder)},
      Serves (findParent prev names) d db r d' db' → d' = d ∧ db' = db := by
  intro names
  induction names with
  | nil =>
    intro prev r hs
    obtain ⟨-, rfl, rfl⟩ := Serves.pure_iff.mp hs
    exact ⟨rfl, rfl⟩
  | cons name names ih =>
    intro prev r hs
    have hask : Serves (ask (MessageRepository.findFolderByName u name)) d db
        (FolderDAL.findByName db u name) d db := .ask _
    rw [findParent, Serves.bind_iff (serves_userID hu), Serves.bind_iff hask] at hs
    cases hfind : FolderDAL.findByName db u name with
    | none =>
      rw [hfind] at hs
      obtain ⟨-, rfl, rfl⟩ := Serves.pure_iff.mp hs
      exact ⟨rfl, rfl⟩
    | some f =>
      rw [hfind] at hs
      dsimp only at hs
      split_ifs at hs
      · exact ih hs
      · obtain ⟨-, rfl, rfl⟩ := Serves.pure_iff.mp hs
        exact ⟨rfl, rfl⟩

/-- A folder that was created is there. -/
theorem findByName_of_createFolder {a : Answer}
    (h : (run store (MessageRepository.createFolder f) db).2 = .ok a) :
    ∃ g, FolderDAL.findByName (run store (MessageRepository.createFolder f) db).1 f.userId f.name =
      some g := by
  rw [MessageRepository.createFolder] at h ⊢
  by_cases hname : f.name = []
  · rw [if_pos hname] at h
    cases h
  rw [if_neg hname, MessageRepository.findFolderByName, run_query_bind] at h ⊢
  cases hfind : FolderDAL.findByName db f.userId f.name with
  | some g =>
    rw [hfind] at h
    cases h
  | none =>
    rw [hfind] at h
    dsimp only at h ⊢
    rw [unchecked, run_bind] at h ⊢
    cases hrefs : FolderDAL.refers db f.row with
    | true =>
      have happly : store.apply (.insertFolder f) db =
          .ok ({ db with folders := db.folders.insert f.row }, { id := db.folders.seq + 1 }) := by
        simp only [store, Write.apply, FolderDAL.insert, hrefs, if_true]
      rw [run_locked_of_ok happly]
      have hnone : db.folders.rows.find? (fun r => r.2.userId = f.userId ∧ r.2.name = cstr f.name) =
          none := Option.map_eq_none_iff.mp hfind
      refine ⟨FolderDAL.rowToFolder (db.folders.seq + 1) f.row, ?_⟩
      change ((db.folders.rows ++ [(db.folders.seq + 1, f.row)]).find? _).map _ = _
      rw [List.find?_append, hnone, Option.none_or, List.find?_singleton,
        if_pos (decide_eq_true ⟨rfl, rfl⟩)]
      rfl
    | false =>
      have happly : store.apply (.insertFolder f) db = .error foreignKeyFailed := by
        simp [store, Write.apply, FolderDAL.insert, hrefs]
      have hlocked : run store (locked (.insertFolder f) : DbM _) db =
          (db, .error foreignKeyFailed) := by
        rw [locked, run, happly]
        rfl
      rw [hlocked] at h
      cases h

/-- The folder of an accepted `CREATE`. -/
theorem findByName_of_createReply
    (hs : Serves (createReply cmd f) d db (ok cmd.tag (lit "Create completed")) d' db') :
    ∃ g, FolderDAL.findByName db' f.userId f.name = some g := by
  obtain ⟨e, hattempt⟩ := Serves.attempt (MessageRepository.createFolder f) d db
  rw [createReply, Serves.bind_iff hattempt] at hs
  cases hr : (run store (MessageRepository.createFolder f) db).2 with
  | error x =>
    rw [hr] at hs
    change Serves (failure no cmd "Create failed: ") _ _ _ _ _ at hs
    obtain ⟨d₁, -, hreply⟩ := Serves.bind_pure_iff.mp hs
    exact absurd hreply (ok_ne_no _ _ _)
  | ok a =>
    rw [hr] at hs
    obtain ⟨-, -, rfl⟩ := Serves.pure_iff.mp hs
    exact findByName_of_createFolder hr

/-- **What `CREATE` accepts is there.** -/
theorem findByName_of_handleCreate {name : Bytes} (hu : d.authenticatedUserID = some u)
    (hargs : cmd.args = [name])
    (hs : Serves (handleCreate cmd) d db (ok cmd.tag (lit "Create completed")) d' db') :
    ∃ g, FolderDAL.findByName db' u name = some g := by
  have harg : cmd.args[0]? = some name := by rw [hargs]; rfl
  rw [handleCreate, if_neg (by simp [hargs]), Serves.bind_iff (.arg harg)] at hs
  dsimp only at hs
  split_ifs at hs
  · exact absurd (Serves.pure_iff.mp hs).1.symm (ok_ne_no _ _ _)
  · obtain ⟨r, d₁, db₁, hparent, hs⟩ := hs.of_bind
    obtain ⟨rfl, rfl⟩ := of_findParent hu hparent
    cases r with
    | error missing => exact absurd (Serves.pure_iff.mp hs).1.symm (ok_ne_bad _ _ _)
    | ok prev =>
      dsimp only at hs
      cases hid : prev.bind (·.id) with
      | none =>
        rw [hid] at hs
        exact absurd (Serves.pure_iff.mp hs).1.symm (ok_ne_bad _ _ _)
      | some parentId =>
        rw [hid, Serves.bind_iff (serves_userID hu)] at hs
        exact findByName_of_createReply hs
  · rw [Serves.bind_iff (serves_userID hu)] at hs
    exact findByName_of_createReply hs

end MailStack.Imap
