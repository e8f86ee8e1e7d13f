import Mathlib.Order.BooleanAlgebra.Set
import MailStack.Store.Flags

/-!
# Store/FlagAlgebra — a list of flags as an operation on a set of flags

`setFlags` infers from the prefixes in the list it receives whether it adds, removes or replaces.
An empty list has no prefix to go by, and clears: `newFlags_map` says what is written for every
list, and `written_eq_iff` when that is what the operation asks for.
-/

open Bytes

namespace MailStack.Store

open MessageRepository

/-! ## Flags as a set -/

/-- The name that stands for a column. -/
def Flag.name : Flag → Bytes
  | .seen => lit "\\Seen"
  | .deleted => lit "\\Deleted"
  | .draft => lit "\\Draft"
  | .answered => lit "\\Answered"
  | .flagged => lit "\\Flagged"
  | .recent => lit "\\Recent"

@[simp] theorem Flag.ofName_name (c : Flag) : ofName c.name = some c := by
  cases c <;> decide

/-- A flag is known by its name. -/
theorem Flag.name_eq_of_ofName {name : Bytes} {c : Flag} (h : ofName name = some c) :
    name = c.name := by
  unfold ofName at h
  split_ifs at h with h₁ h₂ h₃ h₄ h₅ h₆ <;> obtain rfl := Option.some.inj h <;> assumption

namespace Flags

theorem ext_get {f f' : Flags} (h : ∀ c, f.get c = f'.get c) : f = f' := by
  obtain ⟨⟩ := f
  obtain ⟨⟩ := f'
  rw [Flags.mk.injEq]
  exact ⟨h .seen, h .deleted, h .draft, h .answered, h .flagged, h .recent⟩

@[simp] theorem get_none (c : Flag) : Flags.none.get c = false := by
  cases c <;> rfl

/-- The flags with these values. -/
def ofGet (g : Flag → Bool) : Flags where
  seen := g .seen
  deleted := g .deleted
  draft := g .draft
  answered := g .answered
  flagged := g .flagged
  recent := g .recent

@[simp] theorem get_ofGet (g : Flag → Bool) (c : Flag) : (ofGet g).get c = g c := by
  cases c <;> rfl

/-- The flags that are set. -/
def toSet (f : Flags) : Set Flag := {c | f.get c = true}

/-- The flags are the set of those that are set. -/
theorem toSet_injective : Function.Injective toSet := by
  intro f f' h
  refine ext_get fun c => Bool.eq_iff_iff.mpr ?_
  exact Set.ext_iff.mp h c

end Flags

/-! ## The operations -/

/-- What a list of flags is for. -/
inductive FlagOp
  | add | remove | replace
  deriving DecidableEq, Repr

namespace FlagOp

/-- The set that the operation with `L` makes of `S`. -/
def onSet : FlagOp → Set Flag → Set Flag → Set Flag
  | .add, L, S => S ∪ L
  | .remove, L, S => S \ L
  | .replace, L, _ => L

/-- The same on the columns. -/
def onFlags : FlagOp → List Flag → Flags → Flags
  | .add, L, f => .ofGet fun c => f.get c || decide (c ∈ L)
  | .remove, L, f => .ofGet fun c => f.get c && !decide (c ∈ L)
  | .replace, L, _ => .ofGet fun c => decide (c ∈ L)

/-- The prefix each flag gets. -/
def mark : FlagOp → Bytes
  | .add => lit "+"
  | .remove => lit "-"
  | .replace => []

/-- What `setFlags` writes for the list `L`: nothing is said by an empty one, and it clears. -/
def written (op : FlagOp) (L : List Flag) (f : Flags) : Flags :=
  if L = [] then .none else op.onFlags L f

section

variable {op : FlagOp} {L : List Flag} {f : Flags}

/-- **The columns afterwards are the set that the operation asks for.** -/
theorem toSet_onFlags : (op.onFlags L f).toSet = op.onSet {c | c ∈ L} f.toSet := by
  ext c
  cases op with
  | add => simp [onFlags, onSet, Flags.toSet]
  | remove => simp [onFlags, onSet, Flags.toSet]
  | replace => simp [onFlags, onSet, Flags.toSet]

@[simp] theorem onFlags_idem : op.onFlags L (op.onFlags L f) = op.onFlags L f := by
  refine Flags.ext_get fun c => ?_
  cases op with
  | add => simp [onFlags]
  | remove => simp [onFlags]
  | replace => rfl

@[simp] theorem written_idem : op.written L (op.written L f) = op.written L f := by
  simp only [written]
  split_ifs
  · rfl
  · exact onFlags_idem

/-- **An empty list is taken for a replacement.** -/
theorem written_eq_iff :
    op.written L f = op.onFlags L f ↔ (L = [] → op ≠ .replace → f = .none) := by
  by_cases hL : L = []
  · subst hL
    have hkeep : ∀ op : FlagOp, op ≠ .replace → op.onFlags [] f = f := by
      intro op hop
      refine Flags.ext_get fun c => ?_
      cases op with
      | add => simp [onFlags]
      | remove => simp [onFlags]
      | replace => exact absurd rfl hop
    have hclear : FlagOp.replace.onFlags [] f = .none :=
      Flags.ext_get fun c => by simp [onFlags]
    rw [written, if_pos rfl]
    constructor
    · intro h _ hop
      rw [← hkeep op hop, ← h]
    · intro h
      by_cases hop : op = .replace
      · rw [hop, hclear]
      · rw [hkeep op hop, h rfl hop]
  · rw [written, if_neg hL]
    exact iff_of_true rfl fun h => absurd h hL

end

/-! ## What `setFlags` makes of the list -/

@[simp] theorem splitFlag_mark (op : FlagOp) (c : Flag) :
    splitFlag (op.mark ++ c.name) = (decide (op ≠ .remove), c.name) := by
  cases op <;> cases c <;> decide

@[simp] theorem isPrefixed_mark (op : FlagOp) (c : Flag) :
    isPrefixed (op.mark ++ c.name) = (op ≠ .replace : Bool) := by
  cases op <;> cases c <;> decide

/-- Setting a list of flags sets those of the list. -/
theorem get_foldl_set (v : Bool) (c : Flag) :
    ∀ (L : List Flag) (f : Flags),
      (L.foldl (fun f c => f.set v c) f).get c = if c ∈ L then v else f.get c
  | [], f => rfl
  | c' :: L, f => by
      rw [List.foldl_cons, get_foldl_set v c L, Flags.get_set]
      by_cases hL : c ∈ L
      · simp [hL]
      · simp [hL]

/-- A list of marked flags is applied one flag after the other. -/
theorem applyFlags_map (op : FlagOp) :
    ∀ (L : List Flag) (f : Flags), applyFlags f (L.map fun c => op.mark ++ c.name) =
      .ok (L.foldl (fun f c => f.set (op ≠ .remove) c) f)
  | [], f => rfl
  | c :: L, f => by
      rw [List.map_cons, applyFlags]
      simp only [splitFlag_mark, Flag.ofName_name]
      rw [applyFlags_map op L, List.foldl_cons]

/-- **What `setFlags` writes for a list of known flags, all with the prefix of one operation.** -/
theorem newFlags_map (op : FlagOp) (L : List Flag) (f : Flags) :
    newFlags f (L.map fun c => op.mark ++ c.name) = .ok (op.written L f) := by
  rw [newFlags, applyFlags_map, written]
  by_cases hL : L = []
  · subst hL
    rfl
  · obtain ⟨c₀, hc₀⟩ := List.exists_mem_of_ne_nil L hL
    have hprefixed : (L.map fun c => op.mark ++ c.name).any isPrefixed =
        (op ≠ .replace : Bool) := by
      rw [List.any_map, Bool.eq_iff_iff, List.any_eq_true]
      simp only [Function.comp_apply, isPrefixed_mark]
      exact ⟨fun ⟨_, _, h⟩ => h, fun h => ⟨c₀, hc₀, h⟩⟩
    rw [if_neg hL, hprefixed]
    refine congrArg Except.ok (Flags.ext_get fun c => ?_)
    rw [get_foldl_set]
    cases op with
    | add => by_cases hc : c ∈ L <;> simp [onFlags, hc]
    | remove => by_cases hc : c ∈ L <;> simp [onFlags, hc]
    | replace => by_cases hc : c ∈ L <;> simp [onFlags, hc]

end FlagOp

/-! ## The rows it changes -/

/-- The flags of these messages are changed, and nothing else is. -/
def MessageDAL.flagRows (db : DB) (ids : List ℤ) (g : Flags → Flags) : DB :=
  { db with messages := db.messages.map fun i m =>
      if i ∈ ids then { m with flags := g m.flags } else m }

namespace MessageDAL

variable {db : DB} {ids : List ℤ} {id : ℤ} {g g' : Flags → Flags}

/-- The row of a message of the list is the one rewritten. -/
theorem get?_flagRows (db : DB) (ids : List ℤ) (g : Flags → Flags) (i : ℤ) :
    (flagRows db ids g).messages.get? i = (db.messages.get? i).map fun m =>
      if i ∈ ids then { m with flags := g m.flags } else m :=
  Table.get?_map _

/-- Two updates leave the same where they do the same to every message. -/
theorem flagRows_eq_iff {ids' : List ℤ} :
    flagRows db ids g = flagRows db ids' g' ↔ ∀ i m, db.messages.get? i = some m →
      (if i ∈ ids then g m.flags else m.flags) = if i ∈ ids' then g' m.flags else m.flags := by
  have hrow : ∀ (m : MessageData) (c c' : Prop) [Decidable c] [Decidable c'],
      ((if c then { m with flags := g m.flags } else m) =
        if c' then { m with flags := g' m.flags } else m) ↔
      (if c then g m.flags else m.flags) = if c' then g' m.flags else m.flags := by
    intro m c c' _ _
    split_ifs
    · exact ⟨congrArg MessageData.flags, fun h => by rw [h]⟩
    · exact ⟨congrArg MessageData.flags, fun h => by rw [h]⟩
    · exact ⟨congrArg MessageData.flags, fun h => by rw [← h]⟩
    · exact ⟨fun _ => rfl, fun _ => rfl⟩
  constructor
  · intro h i m hm
    have hget := congrArg (fun db : DB => db.messages.get? i) h
    simp only [get?_flagRows, hm, Option.map_some] at hget
    exact (hrow m _ _).mp (Option.some.inj hget)
  · intro h
    have hrows : ∀ r ∈ db.messages.rows,
        (if r.1 ∈ ids then { r.2 with flags := g r.2.flags } else r.2) =
          if r.1 ∈ ids' then { r.2 with flags := g' r.2.flags } else r.2 :=
      fun r hr => (hrow r.2 _ _).mpr (h r.1 r.2 (Table.mem_rows_iff.mp hr))
    rw [flagRows, flagRows]
    congr 1
    exact Table.ext (List.map_congr_left fun r hr => congrArg (Prod.mk r.1) (hrows r hr)) rfl

/-- One row comes out alike if its flags do. -/
theorem flagRows_singleton_iff {m : MessageData} (hm : db.messages.get? id = some m) :
    flagRows db [id] g = flagRows db [id] g' ↔ g m.flags = g' m.flags := by
  rw [flagRows_eq_iff]
  constructor
  · intro h
    simpa using h id m hm
  · intro h i m' hm'
    by_cases hi : i = id
    · subst hi
      obtain rfl := Option.some.inj (hm.symm.trans hm')
      simpa using h
    · simp [hi]

/-- Updates of different messages leave the same where neither changes anything. -/
theorem flagRows_eq_iff_of_notMem {m : MessageData} (hm : db.messages.get? id = some m)
    (hid : id ∉ ids) :
    flagRows db ids g = flagRows db [id] g' ↔
      g' m.flags = m.flags ∧ ∀ i ∈ ids, ∀ m', db.messages.get? i = some m' →
        g m'.flags = m'.flags := by
  rw [flagRows_eq_iff]
  constructor
  · intro h
    refine ⟨?_, fun i hi m' hm' => ?_⟩
    · simpa [hid] using (h id m hm).symm
    · have hne : i ≠ id := fun heq => hid (heq ▸ hi)
      simpa [hi, hne] using h i m' hm'
  · rintro ⟨hsame, hothers⟩ i m' hm'
    by_cases hi : i = id
    · subst hi
      obtain rfl := Option.some.inj (hm.symm.trans hm')
      simp [hid, hsame]
    · by_cases hmem : i ∈ ids
      · simp [hi, hmem, hothers i hmem m' hm']
      · simp [hi, hmem]

@[simp] theorem flagRows_nil (db : DB) (g : Flags → Flags) : flagRows db [] g = db := by
  have hmap : db.messages.map (fun i m => if i ∈ ([] : List ℤ) then
      { m with flags := g m.flags } else m) = db.messages := by
    refine Table.ext ?_ rfl
    simp [Table.map]
  rw [flagRows, hmap]

/-- `setFlags` rewrites one row. -/
theorem setFlags_eq_flagRows (db : DB) (id : ℤ) (g : Flags → Flags) :
    setFlags db id g = flagRows db [id] g := by
  rw [setFlags, flagRows, Table.modify]
  simp only [List.mem_singleton]

/-- Rewriting twice is rewriting once, where the change is idempotent. -/
theorem flagRows_cons (hg : ∀ f, g (g f) = g f) (db : DB) (id : ℤ) (ids : List ℤ) :
    flagRows (flagRows db [id] g) ids g = flagRows db (id :: ids) g := by
  have hrow : ∀ (i : ℤ) (m : MessageData),
      (if i ∈ ids then
        { (if i ∈ [id] then { m with flags := g m.flags } else m) with
          flags := g (if i ∈ [id] then { m with flags := g m.flags } else m).flags }
        else if i ∈ [id] then { m with flags := g m.flags } else m) =
      if i ∈ id :: ids then { m with flags := g m.flags } else m := by
    intro i m
    by_cases hid : i = id
    · simp [hid, hg]
    · by_cases hids : i ∈ ids
      · simp [hid, hids]
      · simp [hid, hids]
  rw [flagRows, flagRows, flagRows]
  congr 1
  refine Table.ext ?_ rfl
  simp only [Table.map, List.map_map]
  exact List.map_congr_left fun r _ => congrArg (Prod.mk r.1) (hrow r.1 r.2)

/-- **Updates one after the other**, of an idempotent kind, are one update. -/
theorem foldl_setFlags (hg : ∀ f, g (g f) = g f) :
    ∀ (ids : List ℤ) (db : DB),
      ids.foldl (fun db id => setFlags db id g) db = flagRows db ids g
  | [], db => (flagRows_nil db g).symm
  | id :: ids, db => by
      rw [List.foldl_cons, foldl_setFlags hg ids, setFlags_eq_flagRows, flagRows_cons hg]

/-- **`setFlags` of one message**, where the list gives it `g` of the flags it has. -/
theorem run_setFlags_eq {flags : List Bytes} (h : ∀ f, newFlags f flags = .ok (g f)) (db : DB)
    (id : ℤ) :
    (Prog.run store (MessageRepository.setFlags id flags) db).1 = setFlags db id g := by
  rw [setFlags_eq_flagRows, MessageRepository.setFlags, MessageRepository.findByID,
    Prog.run_query_bind]
  cases hfind : findByID db id with
  | none =>
    have hget : db.messages.get? id = none := Option.map_eq_none_iff.mp hfind
    refine (flagRows_nil db g).symm.trans (flagRows_eq_iff.mpr fun i m hm => ?_)
    rw [if_neg (List.not_mem_nil), if_neg]
    rintro hi
    rw [List.mem_singleton.mp hi, hget] at hm
    exact nomatch hm
  | some msg =>
    obtain ⟨m, hm, rfl⟩ := Option.map_eq_some_iff.mp hfind
    dsimp only
    rw [h]
    refine (setFlags_eq_flagRows db id fun _ => g m.flags).trans (flagRows_eq_iff.mpr fun i m' hm' => ?_)
    by_cases hi : i ∈ [id]
    · rw [if_pos hi, if_pos hi]
      rw [List.mem_singleton.mp hi, hm] at hm'
      rw [← Option.some.inj hm']
    · rw [if_neg hi, if_neg hi]

end MessageDAL

end MailStack.Store
