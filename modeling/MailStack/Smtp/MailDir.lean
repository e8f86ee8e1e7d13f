import MailStack.Machinery.Path
import MailStack.Smtp.Delivery

/-!
# Smtp/MailDir — the directories of the mail store

The files of a recipient go to `mailstore/`, followed by the name before the `@` of what came with
`RCPT`.  Nothing looks at that name, and the file system reads it as a path: `keptApart_iff` says
for which names the directory lies in the mail store, and two of them are two.  `creates_inside` says
what this means for a delivery: `SaveMessage` then creates no directory outside of it.
-/

open Bytes Prog Path MailStack.Store

namespace MailStack.Smtp

/-- The directory for a recipient, as the file system reads it: the text ends before its first
NUL. -/
def recipientDir (recipient : Bytes) : Bytes := cstr (mailDir (extractUsername recipient))

/-! ## What `SaveMessage` creates -/

section Creates

/-- Every directory the program comes to create satisfies `Q`. -/
def Creates {α : Type} (Q : Bytes → Prop) (p : ServerM α) : Prop :=
  p.Writes fun w => ∀ dir, w = .createDirectories dir → Q dir

variable {α γ : Type} {Q : Bytes → Prop}

theorem creates_ofStore (p : StoreM α) : Creates Q (ofStore p) :=
  Writes.embed (fun _ _ _ h => nomatch h) (writes_of_forall (fun _ => trivial) p)

theorem creates_lookup (f : DB → Option α) : Creates Q (lookup f) := by
  refine Writes.bind (fun r => ?_) (writes_locked fun _ h => nomatch h)
  cases r with
  | error e => exact writes_pure _
  | ok a => exact fun _ => writes_pure _

/-- A step with which nothing is done when it fails. -/
theorem creates_step {w : ServerWrite} {a : α} {p : ServerM α}
    (hw : ∀ dir, w = .createDirectories dir → Q dir) (hp : Creates Q p) :
    Creates Q (locked w >>= fun r => match r with
      | .error _ => pure a
      | .ok _ => p) := by
  refine Writes.bind (fun r => ?_) (writes_locked hw)
  cases r with
  | error e => exact writes_pure _
  | ok _ => exact hp

theorem creates_writeOut (c : Chance) (path text : Bytes) : Creates Q (writeOut c path text) := by
  rw [writeOut]
  split_ifs
  · exact writes_pure _
  · refine Writes.bind (fun r => ?_) (writes_locked (by rintro _ ⟨⟩))
    cases r with
    | ok _ => exact writes_pure _
    | error e => exact (writes_locked (by rintro _ ⟨⟩)).bind fun _ => writes_pure _

theorem creates_writeMailToFile {dir : Bytes} (hdir : Q dir) (c : Chance) (body : Bytes) :
    Creates Q (writeMailToFile c dir body) := by
  refine Writes.bind (fun _ => writes_pure _) ?_
  refine creates_step (fun _ h => ServerWrite.createDirectories.inj h ▸ hdir) ?_
  refine creates_step (fun _ h => nomatch h) ((creates_writeOut c _ _).bind fun ofs => ?_)
  cases ofs with
  | false => exact writes_pure _
  | true => exact (creates_writeOut c _ _).bind fun _ => writes_pure _

theorem creates_findOrRegister (P : PasswordHash) (username salt : Bytes) :
    Creates Q (findOrRegister P username salt) := by
  refine Writes.bind (fun o => ?_) (creates_lookup _)
  cases o with
  | some user => exact writes_pure _
  | none =>
    refine Writes.bind (fun r => ?_) (creates_ofStore _)
    cases r with
    | error e => exact writes_pure _
    | ok a => exact creates_lookup _

theorem creates_saveTo (P : PasswordHash) (sender body : Bytes) (parsed : Option Mime.Email)
    (c : Chance) {recipient : Bytes} (hdir : Q (mailDir (extractUsername recipient))) :
    Creates Q (saveTo P sender body parsed c recipient) := by
  refine Writes.bind (fun o => ?_) (creates_findOrRegister P _ _)
  cases o.bind (·.id) with
  | none => exact writes_pure _
  | some userId =>
    refine Writes.bind (fun o => ?_) (creates_lookup _)
    cases o.bind (·.id) with
    | none => exact writes_pure _
    | some inboxId =>
      refine Writes.bind (fun path => ?_) (creates_writeMailToFile hdir c body)
      dsimp only
      split_ifs
      · exact writes_pure _
      · refine Writes.bind (fun r => ?_) (creates_ofStore _)
        cases r with
        | error e => exact writes_pure _
        | ok delivered =>
          refine Writes.bind (fun _ => writes_pure _) ?_
          refine (writes_addRecipients _ _ _).mono fun w hw dir h => ?_
          cases hw with
          | insert r => exact nomatch h

theorem creates_saveLoop (P : PasswordHash) (sender body : Bytes) (parsed : Option Mime.Email) :
    ∀ {chances : ℕ → Chance} {recipients : List Bytes} {anySaved : Bool},
      (∀ r ∈ recipients, Q (mailDir (extractUsername r))) →
        Creates Q (saveLoop P sender body parsed chances recipients anySaved)
  | _, [], _, _ => writes_pure _
  | _, _ :: _, _, h =>
      (creates_saveTo P sender body parsed _ (h _ List.mem_cons_self)).bind fun _ =>
        creates_saveLoop P sender body parsed fun r hr => h r (List.mem_cons_of_mem _ hr)

/-- **`SaveMessage` creates the directories of its recipients**, and no others. -/
theorem creates_saveMessage (P : PasswordHash) (logger : Bool) (chances : ℕ → Chance)
    (sender : Bytes) {recipients : List Bytes} (body : Bytes)
    (h : ∀ r ∈ recipients, Q (mailDir (extractUsername r))) :
    Creates Q (saveMessage P logger chances sender recipients body) := by
  rw [saveMessage]
  split_ifs
  · exact writes_pure _
  · exact creates_saveLoop P sender body _ h

end Creates

/-! ## Where a name leads -/

/-- The name in an argument of `RCPT`, read as a path. -/
def leads (argument : Bytes) : Location Bytes := normalize (cstr (extractUsername argument))

/-- The directory for an argument that `HandleRcpt` took, in normal form: the recipient is the name
in the argument. -/
def deliveryDir (argument : Bytes) : Location Bytes :=
  normalize (recipientDir (extractUsername argument))

theorem deliveryDir_eq (argument : Bytes) :
    deliveryDir argument = (leads argument).under (lit "mailstore") := by
  have hpart : part (lit "mailstore") = .down (lit "mailstore") := by
    rw [part, if_neg (by decide), if_neg (by decide)]
  have hcstr : recipientDir (extractUsername argument) =
      lit "mailstore" ++ '/'.toUInt8 :: cstr (extractUsername argument) := by
    rw [recipientDir, extractUsername_idem, mailDir, cstr,
      List.takeWhile_append_of_pos (List.all_eq_true.mp (by decide))]
    rfl
  rw [deliveryDir, hcstr, normalize_below (by decide) hpart, leads]

/-- **Two recipients get directories strictly below the mail store**, and two if their names are. -/
def KeptApart (a b : Bytes) : Prop :=
  (deliveryDir a).StrictlyBelow (lit "mailstore") ∧
    (deliveryDir b).StrictlyBelow (lit "mailstore") ∧
      (extractUsername a ≠ extractUsername b → deliveryDir a ≠ deliveryDir b)

/-- The path does not leave the directory it starts in and goes down at least once, or it leaves
`mailstore` once and comes back through it. -/
def Inside (l : Location Bytes) : Prop :=
  l.ups = 0 ∧ l.names ≠ [] ∨
    l.ups = 1 ∧ ∃ names, names ≠ [] ∧ l.names = names ++ [lit "mailstore"]

/-- Two paths that are not the same once `.`, `..` and empty parts are gone, nor if one of them
leaves `mailstore` and comes back. -/
def Parted (l l' : Location Bytes) : Prop :=
  l ≠ l' ∧ ¬ l.Returns (lit "mailstore") l' ∧ ¬ l'.Returns (lit "mailstore") l

/-- **The names keep apart, and in the mail store, exactly if** both stay inside as paths, and two
names are two paths. -/
theorem keptApart_iff (a b : Bytes) : KeptApart a b ↔ Inside (leads a) ∧ Inside (leads b) ∧
    (extractUsername a ≠ extractUsername b → Parted (leads a) (leads b)) := by
  rw [KeptApart, deliveryDir_eq, deliveryDir_eq, Location.strictlyBelow_under_iff,
    Location.strictlyBelow_under_iff, ne_eq (Location.under _ _), Location.under_eq_under_iff,
    not_or, not_or]
  rfl

/-- **In a mail store where names stay inside, so does everything that is delivered.** -/
theorem creates_inside (P : PasswordHash) (logger : Bool) (chances : ℕ → Chance) (sender : Bytes)
    {arguments : List Bytes} (body : Bytes) (h : ∀ a ∈ arguments, Inside (leads a)) :
    Creates (fun dir => (normalize (cstr dir)).StrictlyBelow (lit "mailstore"))
      (saveMessage P logger chances sender (arguments.map extractUsername) body) := by
  refine creates_saveMessage P logger chances sender body fun r hr => ?_
  obtain ⟨a, ha, rfl⟩ := List.mem_map.mp hr
  have hdir : (deliveryDir a).StrictlyBelow (lit "mailstore") := by
    rw [deliveryDir_eq]
    exact Location.strictlyBelow_under_iff.mpr (h a ha)
  exact hdir

/-- **`RCPT TO:<../evil@x>`** leads out of the mail store, and `./alice` to where `alice` does. -/
theorem not_keptApart_evil :
    let s : SmtpSession := { domain := lit "localhost", state := .waitRcpt }
    let evil := parse (lit "RCPT TO:<../evil@x>")
    let alice := parse (lit "RCPT TO:<alice@x>")
    let again := parse (lit "RCPT TO:<./alice@x>")
    (∀ command ∈ [evil, alice, again], (s.handleRcpt command).1 = SmtpResponse.ok) ∧
      deliveryDir evil.argument = { names := [lit "evil"] } ∧
      deliveryDir alice.argument = deliveryDir again.argument ∧
      ¬ KeptApart evil.argument alice.argument ∧ ¬ KeptApart alice.argument again.argument := by
  intro s evil alice again
  have hevil : deliveryDir evil.argument = { names := [lit "evil"] } := by decide
  have hsame : deliveryDir alice.argument = deliveryDir again.argument := by decide
  refine ⟨by decide, hevil, hsame, fun h => ?_, fun h => ?_⟩
  · obtain ⟨-, names, hne, heq⟩ := h.1
    have hlen := congrArg List.length heq
    rw [hevil, List.length_append] at hlen
    exact hne (List.length_eq_zero_iff.mp (Nat.add_right_cancel hlen).symm)
  · exact h.2.2 (by decide) hsame

end MailStack.Smtp
