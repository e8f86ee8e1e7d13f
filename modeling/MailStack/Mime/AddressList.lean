import Mathlib.Data.List.Forall2
import MailStack.Machinery.Brackets
import MailStack.Mime.Builder
import MailStack.Mime.Parser

/-!
# Mime/AddressList — what `SplitAddresses` makes of a list

The scan cuts a text into pieces and keeps those that are not blank, so no more stands in angle
brackets in what it returns than in the text (`sum_angled_splitAddresses_le`).  In front of an
address in angle brackets a comma is harmless where nothing but blanks and commas stands before it;
any other makes one more entry (`splitAddresses_entries`).  A comma inside quotes or brackets never
ends an entry, so a list of addresses is split back (`splitAddresses_joinAddresses`).
-/

open Bytes

namespace MailStack.Mime

/-! ## The pieces -/

/-- How much stands in angle brackets. -/
def angled (s : Bytes) : ℕ := Brackets.weight '<'.toUInt8 '>'.toUInt8 none s

theorem trim_eq_nil {s : Bytes} (h : ∀ c ∈ s, isBlank c = true) : trim s = [] := by
  rw [trim, List.dropWhile_eq_nil_iff.mpr h]
  rfl

/-- A text with more than blanks is not trimmed away. -/
theorem trim_ne_nil {s : Bytes} {c : UInt8} (hc : c ∈ s) (hblank : isBlank c = false) :
    trim s ≠ [] := by
  intro hnil
  obtain ⟨a, b, hs, ha, hb⟩ := exists_trim s
  rw [hnil, List.append_nil] at hs
  rw [hs] at hc
  rcases List.mem_append.mp hc with h | h
  · exact absurd (ha c h) (by simp [hblank])
  · exact absurd (hb c h) (by simp [hblank])

/-- Trimming opens no bracket. -/
theorem angled_trim_le (s : Bytes) : angled (trim s) ≤ angled s := by
  obtain ⟨a, b, hs, -, -⟩ := exists_trim s
  nth_rewrite 2 [hs]
  exact Brackets.weight_le_of_append a (trim s) b

namespace AddressScan

/-- A character is added to the current piece, or ends it. -/
theorem step_cases (a : AddressScan) (c : UInt8) :
    (a.step c).result = a.result ∧ (a.step c).current = a.current ++ [c] ∨
      (a.step c).result = a.flush ∧ (a.step c).current = [] := by
  rw [step]
  split_ifs
  · exact .inl ⟨rfl, rfl⟩
  · exact .inl ⟨rfl, rfl⟩
  · exact .inl ⟨rfl, rfl⟩
  · exact .inr ⟨rfl, rfl⟩
  · exact .inl ⟨rfl, rfl⟩

/-- Nor does flushing. -/
theorem sum_angled_flush_le (a : AddressScan) :
    (a.flush.map angled).sum ≤ (a.result.map angled).sum + angled a.current := by
  have htrim := angled_trim_le a.current
  rw [flush]
  split_ifs
  · rw [List.map_append, List.sum_append, List.map_singleton, List.sum_singleton]
    omega
  · exact Nat.le_add_right ..

/-- **The pieces of a text have no more in angle brackets than the text.** -/
theorem sum_angled_foldl_le : ∀ (s : Bytes) (a : AddressScan),
    ((s.foldl step a).flush.map angled).sum ≤ (a.result.map angled).sum + angled (a.current ++ s)
  | [], a => by
      rw [List.foldl_nil, List.append_nil]
      exact a.sum_angled_flush_le
  | c :: s, a => by
      have ih := sum_angled_foldl_le s (a.step c)
      rw [List.foldl_cons]
      rcases a.step_cases c with ⟨hresult, hcurrent⟩ | ⟨hresult, hcurrent⟩
      · rw [hresult, hcurrent, List.append_assoc, List.singleton_append] at ih
        exact ih
      · rw [hresult, hcurrent, List.nil_append] at ih
        have hflush := a.sum_angled_flush_le
        have hsplit : angled a.current + angled (c :: s) ≤ angled (a.current ++ c :: s) :=
          Brackets.weight_add_le _ _
        have htail : angled [c] + angled s ≤ angled ([c] ++ s) := Brackets.weight_add_le _ _
        rw [List.singleton_append] at htail
        omega

end AddressScan

/-- The entries have no more brackets than the text. -/
theorem sum_angled_splitAddresses_le (s : Bytes) :
    ((splitAddresses s).map angled).sum ≤ angled s := by
  have h := AddressScan.sum_angled_foldl_le s {}
  rw [List.map_nil, List.sum_nil, Nat.zero_add, List.nil_append] at h
  exact h

/-! ## Entries with an address in angle brackets -/

/-- `name + " <" + address + ">"`. -/
def mailbox (name address : Bytes) : Bytes := name ++ lit " <" ++ address ++ lit ">"

theorem mailbox_eq (name address : Bytes) :
    mailbox name address = name ++ (lit " <" ++ address ++ lit ">") := by
  simp only [mailbox, List.append_assoc]

/-- Nothing but blanks and commas stands before a comma. -/
def CommasLead (s : Bytes) : Prop :=
  ','.toUInt8 ∉ s.dropWhile fun c => isBlank c || c = ','.toUInt8

instance (s : Bytes) : Decidable (CommasLead s) := inferInstanceAs (Decidable (¬ _))

/-- Blanks and a comma in front change nothing. -/
theorem commasLead_append {s : Bytes} (t : Bytes) (hs : ∀ c ∈ s, isBlank c = true) :
    CommasLead (s ++ ','.toUInt8 :: t) ↔ CommasLead t := by
  have hdrop : (s ++ ','.toUInt8 :: t).dropWhile (fun c => isBlank c || c = ','.toUInt8) =
      t.dropWhile fun c => isBlank c || c = ','.toUInt8 := by
    rw [List.dropWhile_append_of_pos (fun c hc => by simp [hs c hc]),
      List.dropWhile_cons_of_pos (by simp)]
  rw [CommasLead, hdrop, CommasLead]

/-- A word in front, and no comma leads. -/
theorem not_commasLead_append {s : Bytes} {c : UInt8} (t : Bytes) (hc : c ∈ s)
    (hblank : isBlank c = false) (hcomma : ','.toUInt8 ∉ s) :
    ¬ CommasLead (s ++ ','.toUInt8 :: t) := by
  have hne : s.dropWhile (fun c => isBlank c || c = ','.toUInt8) ≠ [] := by
    rw [ne_eq, List.dropWhile_eq_nil_iff, not_forall]
    refine ⟨c, fun h => ?_⟩
    have hcc : c = ','.toUInt8 := by simpa [hblank] using h hc
    exact hcomma (hcc ▸ hc)
  rw [CommasLead, not_not, List.dropWhile_append, if_neg (by simpa using hne)]
  exact List.mem_append_right _ List.mem_cons_self

namespace AddressScan

variable {result : List Bytes} {current : Bytes}

/-- A plain character is added. -/
theorem step_plain {c : UInt8} (hquote : c ≠ '"'.toUInt8) (hleft : c ≠ '<'.toUInt8)
    (hright : c ≠ '>'.toUInt8) (hcomma : c ≠ ','.toUInt8) :
    step ⟨result, current, 0, false⟩ c = ⟨result, current ++ [c], 0, false⟩ := by
  simp [step, hquote, hleft, hright, hcomma]

/-- **A name**, up to where its address starts: its commas are harmless if nothing comes before
them. Where only blanks come before it, a comma pushes nothing. -/
theorem foldl_name : ∀ {s current : Bytes} (result : List Bytes), ','.toUInt8 ∉ current →
    '"'.toUInt8 ∉ s → '<'.toUInt8 ∉ s → '>'.toUInt8 ∉ s → ∃ more current',
      s.foldl step ⟨result, current, 0, false⟩ = ⟨result ++ more, current', 0, false⟩ ∧
        (more = [] ↔ CommasLead (current ++ s))
  | [], current, result, hcurrent, _, _, _ => by
      refine ⟨[], current, by rw [List.foldl_nil, List.append_nil], iff_of_true rfl fun h => ?_⟩
      rw [List.append_nil] at h
      exact hcurrent ((List.dropWhile_sublist _).subset h)
  | c :: s, current, result, hcurrent, hquote, hleft, hright => by
      rw [List.mem_cons, not_or] at hquote hleft hright
      by_cases hc : c = ','.toUInt8
      · subst hc
        have hstep : step ⟨result, current, 0, false⟩ ','.toUInt8 =
            ⟨flush ⟨result, current, 0, false⟩, [], 0, false⟩ := rfl
        obtain ⟨more, current', hfold, hmore⟩ := @foldl_name s []
          (flush ⟨result, current, 0, false⟩) List.not_mem_nil hquote.2 hleft.2 hright.2
        rw [List.foldl_cons, hstep, hfold]
        by_cases hblank : ∀ c ∈ current, isBlank c = true
        · have hflush : flush ⟨result, current, 0, false⟩ = result := if_neg (by
            rw [trim_eq_nil hblank]
            exact fun h => h rfl)
          refine ⟨more, current', by rw [hflush], ?_⟩
          rw [hmore, commasLead_append s hblank, List.nil_append]
        · obtain ⟨c, hc⟩ := not_forall.mp hblank
          obtain ⟨hc, hc'⟩ := Classical.not_imp.mp hc
          have hc' : isBlank c = false := by simpa using hc'
          have hflush : flush ⟨result, current, 0, false⟩ = result ++ [trim current] :=
            if_pos (trim_ne_nil hc hc')
          refine ⟨trim current :: more, current', ?_, iff_of_false (List.cons_ne_nil _ _)
            (not_commasLead_append s hc hc' hcurrent)⟩
          rw [hflush, List.append_assoc]
          rfl
      · have hstep := @step_plain result current c (Ne.symm hquote.1) (Ne.symm hleft.1)
          (Ne.symm hright.1) hc
        have hcurrent' : ','.toUInt8 ∉ current ++ [c] :=
          List.not_mem_append hcurrent (by simpa using Ne.symm hc)
        obtain ⟨more, current', hfold, hmore⟩ := foldl_name (s := s) result hcurrent' hquote.2
          hleft.2 hright.2
        rw [List.append_assoc, List.singleton_append] at hmore
        exact ⟨more, current', by rw [List.foldl_cons, hstep, hfold], hmore⟩

/-- **Inside brackets** everything is added. -/
theorem foldl_balanced {s : Bytes} (h : Brackets.Balanced '<'.toUInt8 '>'.toUInt8 s) :
    ∀ (depth : ℕ) (current : Bytes), s.foldl step ⟨result, current, depth + 1, false⟩ =
      ⟨result, current ++ s, depth + 1, false⟩ := by
  induction h with
  | nil => exact fun depth current => by rw [List.foldl_nil, List.append_nil]
  | @plain c s hleft hright _ ih =>
    intro depth current
    have hstep : step ⟨result, current, depth + 1, false⟩ c =
        ⟨result, current ++ [c], depth + 1, false⟩ := by
      simp [step, hleft, hright]
    rw [List.foldl_cons, hstep, ih, List.append_assoc]
    rfl
  | @nested s t _ _ ihs iht =>
    intro depth current
    have hopen : step ⟨result, current, depth + 1, false⟩ '<'.toUInt8 =
        ⟨result, current ++ ['<'.toUInt8], depth + 2, false⟩ := rfl
    have hclose : ∀ current, step ⟨result, current, depth + 2, false⟩ '>'.toUInt8 =
        ⟨result, current ++ ['>'.toUInt8], depth + 1, false⟩ := fun _ => rfl
    rw [List.foldl_cons, hopen, List.foldl_append, ihs, List.foldl_cons, hclose, iht]
    simp only [List.append_assoc, List.cons_append, List.nil_append]

/-- An address in angle brackets is added to the entry. -/
theorem foldl_address {address : Bytes} (hleft : '<'.toUInt8 ∉ address)
    (hright : '>'.toUInt8 ∉ address) (current : Bytes) :
    (lit " <" ++ address ++ lit ">").foldl step ⟨result, current, 0, false⟩ =
      ⟨result, mailbox current address, 0, false⟩ := by
  have hopen : (lit " <").foldl step ⟨result, current, 0, false⟩ =
      ⟨result, current ++ lit " " ++ lit "<", 1, false⟩ := rfl
  have hclose : ∀ current, (lit ">").foldl step ⟨result, current, 1, false⟩ =
      ⟨result, current ++ lit ">", 0, false⟩ := fun _ => rfl
  rw [List.foldl_append, List.foldl_append, hopen,
    foldl_balanced (Brackets.Plain.balanced ⟨hleft, hright⟩) 0, hclose, mailbox]
  simp only [List.append_assoc]
  rfl

end AddressScan

/-- What starts and ends with no blank stays at the end of a trimmed text. -/
theorem suffix_trim {s t : Bytes} (hhead : ∀ c ∈ t.head?, isBlank c = false)
    (hlast : ∀ c ∈ t.getLast?, isBlank c = false) (h : t <:+ s) : t <:+ trim s := by
  rcases eq_or_ne t [] with rfl | hne
  · exact List.nil_suffix
  · obtain ⟨u, rfl⟩ := h
    have hdrop : (u ++ t).dropWhile isBlank = u.dropWhile isBlank ++ t := by
      rw [List.dropWhile_append]
      split_ifs with hu
      · rw [List.isEmpty_iff.mp hu, List.nil_append]
        cases t with
        | nil => rfl
        | cons c t => exact List.dropWhile_cons_of_neg (by simp [hhead c rfl])
      · rfl
    have hback : (u.dropWhile isBlank ++ t).reverse.dropWhile isBlank =
        (u.dropWhile isBlank ++ t).reverse := by
      rw [List.reverse_append]
      cases hrev : t.reverse with
      | nil => exact absurd (List.reverse_eq_nil_iff.mp hrev) hne
      | cons c t' =>
        have hc : t.getLast? = some c := by rw [← List.head?_reverse, hrev]; rfl
        exact List.dropWhile_cons_of_neg (by simp [hlast c hc])
    rw [trim, hdrop, hback, List.reverse_reverse]
    exact List.suffix_append _ _

/-- A mailbox keeps its address when trimmed. -/
theorem suffix_trim_mailbox (name address : Bytes) :
    lit "<" ++ address ++ lit ">" <:+ trim (mailbox name address) := by
  refine suffix_trim (fun c hc => ?_) (fun c hc => ?_) ⟨name ++ lit " ", ?_⟩
  · obtain rfl := Option.some.inj hc
    decide
  · have hlast : (lit "<" ++ address ++ lit ">").getLast? = some '>'.toUInt8 :=
      List.getLast?_concat
    obtain rfl := Option.some.inj (hlast.symm.trans hc)
    decide
  · rw [mailbox]
    simp only [List.append_assoc]
    rfl

/-- A name that brings no bracket and no quote into the list, and an address without brackets. -/
def IsMailbox (m : Bytes × Bytes) : Prop :=
  (∀ c ∈ lit "<>\"", c ∉ m.1) ∧ ∀ c ∈ lit "<>", c ∉ m.2

/-- The list as it is written. -/
def mailboxes (ms : List (Bytes × Bytes)) : Bytes :=
  joinAddresses (ms.map fun m => mailbox m.1 m.2)

/-- The entry for a mailbox, with what the commas in its name make in front of it. -/
def EntryOf (p : List Bytes × Bytes) (m : Bytes × Bytes) : Prop :=
  (p.1 = [] ↔ CommasLead m.1) ∧ lit "<" ++ m.2 ++ lit ">" <:+ p.2

/-- **The entries of a list**, the first name being behind blanks. -/
theorem splitAddresses_entries : ∀ {ms : List (Bytes × Bytes)} (result : List Bytes)
    {current : Bytes}, ms ≠ [] → (∀ m ∈ ms, IsMailbox m) → current ∈ [[], lit " "] →
      ∃ entries : List (List Bytes × Bytes),
        ((mailboxes ms).foldl AddressScan.step ⟨result, current, 0, false⟩).flush =
            result ++ entries.flatMap (fun p => p.1 ++ [p.2]) ∧ List.Forall₂ EntryOf entries ms
  | m :: ms, result, current, _, hms, hcurrent => by
      obtain ⟨⟨hname, haddress⟩, hms⟩ := List.forall_mem_cons.mp hms
      have hblank : ∀ c ∈ current, isBlank c = true := by
        simp only [List.mem_cons, List.not_mem_nil, or_false] at hcurrent
        rcases hcurrent with rfl | rfl <;> simp [lit, isBlank]
      have hcomma : ','.toUInt8 ∉ current := fun h => absurd (hblank _ h) (by decide)
      obtain ⟨more, current', hfold, hmore⟩ := AddressScan.foldl_name (s := m.1) result hcomma
        (hname _ (by decide)) (hname _ (by decide)) (hname _ (by decide))
      have hlead : more = [] ↔ CommasLead m.1 := by
        rw [hmore, CommasLead, CommasLead,
          List.dropWhile_append_of_pos fun c hc => by simp [hblank c hc]]
      have hentry : (mailbox m.1 m.2).foldl AddressScan.step ⟨result, current, 0, false⟩ =
          ⟨result ++ more, mailbox current' m.2, 0, false⟩ := by
        rw [mailbox_eq, List.foldl_append, hfold]
        exact AddressScan.foldl_address (haddress _ (by decide)) (haddress _ (by decide)) current'
      have hsuffix := suffix_trim_mailbox current' m.2
      have hflush : AddressScan.flush ⟨result ++ more, mailbox current' m.2, 0, false⟩ =
          result ++ (more ++ [trim (mailbox current' m.2)]) := by
        rw [← List.append_assoc]
        exact if_pos fun hnil => absurd (List.suffix_nil.mp (hnil ▸ hsuffix)) (by simp [lit])
      cases ms with
      | nil =>
        refine ⟨[(more, trim (mailbox current' m.2))], ?_, .cons ⟨hlead, hsuffix⟩ .nil⟩
        rw [List.flatMap_singleton, mailboxes, List.map_singleton, joinAddresses, hentry, hflush]
      | cons m' ms =>
        have hjoin : mailboxes (m :: m' :: ms) =
            mailbox m.1 m.2 ++ (lit ", " ++ mailboxes (m' :: ms)) := List.append_assoc ..
        have hsep : (lit ", ").foldl AddressScan.step
            ⟨result ++ more, mailbox current' m.2, 0, false⟩ =
              ⟨result ++ (more ++ [trim (mailbox current' m.2)]), lit " ", 0, false⟩ := by
          rw [← hflush]
          rfl
        obtain ⟨entries, hentries, hforall⟩ := splitAddresses_entries
          (result ++ (more ++ [trim (mailbox current' m.2)])) (List.cons_ne_nil m' ms) hms
          (show lit " " ∈ [[], lit " "] by simp)
        refine ⟨(more, trim (mailbox current' m.2)) :: entries, ?_, .cons ⟨hlead, hsuffix⟩ hforall⟩
        rw [hjoin, List.foldl_append, List.foldl_append, hentry, hsep, hentries, List.flatMap_cons]
        simp only [List.append_assoc]

/-- There are no more entries than pieces. -/
theorem length_le_flatMap : ∀ entries : List (List Bytes × Bytes),
    entries.length ≤ (entries.flatMap fun p => p.1 ++ [p.2]).length
  | [] => Nat.le_refl 0
  | p :: entries => by
      have ih := length_le_flatMap entries
      simp only [List.flatMap_cons, List.length_append, List.length_cons, List.length_nil]
      omega

/-- There is nothing in front of the entries, if there are no more of them. -/
theorem nil_of_length_flatMap : ∀ {entries : List (List Bytes × Bytes)},
    (entries.flatMap fun p => p.1 ++ [p.2]).length ≤ entries.length → ∀ p ∈ entries, p.1 = []
  | [], _ => by simp
  | p :: entries, h => by
      have hle := length_le_flatMap entries
      simp only [List.flatMap_cons, List.length_append, List.length_cons, List.length_nil] at h
      refine List.forall_mem_cons.mpr ⟨List.eq_nil_of_length_eq_zero (by omega), ?_⟩
      exact nil_of_length_flatMap (by omega)

/-- One entry ends with each address. -/
def EndsWith (entries : List Bytes) (addresses : List Bytes) : Prop :=
  List.Forall₂ (fun entry address => lit "<" ++ address ++ lit ">" <:+ entry) entries addresses

/-- **The list comes back** exactly if the commas in its names are harmless. -/
theorem endsWith_splitAddresses_iff {ms : List (Bytes × Bytes)} (hms : ∀ m ∈ ms, IsMailbox m) :
    EndsWith (splitAddresses (mailboxes ms)) (ms.map Prod.snd) ↔ ∀ m ∈ ms, CommasLead m.1 := by
  rcases eq_or_ne ms [] with rfl | hne
  · exact iff_of_true .nil (by simp)
  obtain ⟨entries, hentries, hforall⟩ := splitAddresses_entries [] hne hms
    (show [] ∈ [[], lit " "] by simp)
  have hsplit : splitAddresses (mailboxes ms) = entries.flatMap fun p => p.1 ++ [p.2] := hentries
  rw [hsplit, EndsWith]
  clear hentries hsplit hne
  constructor
  · intro h
    have hlength := h.length_eq
    rw [List.length_map, ← hforall.length_eq] at hlength
    clear h hms
    have hnone : ∀ p ∈ entries, p.1 = [] := nil_of_length_flatMap hlength.le
    clear hlength
    induction hforall with
    | nil => simp
    | cons hp _ ih =>
      obtain ⟨hnil, hnone⟩ := List.forall_mem_cons.mp hnone
      exact List.forall_mem_cons.mpr ⟨hp.1.mp hnil, ih hnone⟩
  · intro hlead
    clear hms
    induction hforall with
    | nil => exact .nil
    | cons hp _ ih =>
      obtain ⟨hhere, hlead⟩ := List.forall_mem_cons.mp hlead
      rw [List.flatMap_cons, hp.1.mpr hhere, List.map_cons]
      exact .cons hp.2 (ih hlead)

/-- **No more stands in brackets in the text** than the addresses that it comes back to. -/
theorem sum_length_le_of_endsWith {s : Bytes} {addresses : List Bytes}
    (haddresses : ∀ a ∈ addresses, ∀ c ∈ lit "<>", c ∉ a)
    (h : EndsWith (splitAddresses s) addresses) :
    (addresses.map fun a => a.length + 2).sum ≤ angled s := by
  refine le_trans ?_ (sum_angled_splitAddresses_le s)
  rw [EndsWith] at h
  generalize splitAddresses s = entries at h ⊢
  induction h with
  | nil => exact Nat.le_refl 0
  | @cons entry a _ _ hentry _ ih =>
    obtain ⟨ha, haddresses⟩ := List.forall_mem_cons.mp haddresses
    have hplain : Brackets.Plain '<'.toUInt8 '>'.toUInt8 a := ⟨ha _ (by decide), ha _ (by decide)⟩
    have hangled : angled (lit "<" ++ a ++ lit ">") = a.length + 2 :=
      Brackets.weight_bracketed (by decide) hplain
    obtain ⟨t, rfl⟩ := hentry
    have hle : angled (lit "<" ++ a ++ lit ">") ≤ angled (t ++ (lit "<" ++ a ++ lit ">")) := by
      have := Brackets.weight_le_of_append (l := '<'.toUInt8) (r := '>'.toUInt8) t
        (lit "<" ++ a ++ lit ">") []
      rwa [List.append_nil] at this
    rw [List.map_cons, List.sum_cons, List.map_cons, List.sum_cons]
    have := ih haddresses
    omega

/-! ## Any list of addresses -/

/-- Quotes are paired outside the brackets, brackets are balanced outside the quotes, and every
comma stands inside of either. -/
inductive Closed : Bytes → Prop
  | nil : Closed []
  | plain {c : UInt8} {s : Bytes} : c ∉ lit "\"<>," → Closed s → Closed (c :: s)
  | quoted {q s : Bytes} : '"'.toUInt8 ∉ q → Closed s →
      Closed ('"'.toUInt8 :: (q ++ '"'.toUInt8 :: s))
  | angled {a s : Bytes} : Brackets.Balanced '<'.toUInt8 '>'.toUInt8 a → Closed s →
      Closed ('<'.toUInt8 :: (a ++ '>'.toUInt8 :: s))

/-- An address that can stand in a list. -/
structure IsAddress (a : Bytes) : Prop where
  ne_nil : a ≠ []
  trimmed : trim a = a
  closed : Closed a

namespace AddressScan

variable {result : List Bytes}

/-- **Inside quotes** everything is added. -/
theorem foldl_quoted : ∀ {q : Bytes} (current : Bytes), '"'.toUInt8 ∉ q →
    q.foldl step ⟨result, current, 0, true⟩ = ⟨result, current ++ q, 0, true⟩
  | [], current, _ => by rw [List.foldl_nil, List.append_nil]
  | c :: q, current, hq => by
      rw [List.mem_cons, not_or] at hq
      have hstep : step ⟨result, current, 0, true⟩ c = ⟨result, current ++ [c], 0, true⟩ := by
        simp [step, Ne.symm hq.1]
      rw [List.foldl_cons, hstep, foldl_quoted _ hq.2, List.append_assoc]
      rfl

/-- **A closed text leaves the scan as it was**, and is added as a whole. -/
theorem foldl_closed {s : Bytes} (h : Closed s) : ∀ current : Bytes,
    s.foldl step ⟨result, current, 0, false⟩ = ⟨result, current ++ s, 0, false⟩ := by
  induction h with
  | nil => exact fun current => by rw [List.foldl_nil, List.append_nil]
  | @plain c s hc _ ih =>
    intro current
    have hne : ∀ d ∈ lit "\"<>,", c ≠ d := fun d hd h => hc (h ▸ hd)
    rw [List.foldl_cons, step_plain (hne _ (by decide)) (hne _ (by decide)) (hne _ (by decide))
      (hne _ (by decide)), ih, List.append_assoc]
    rfl
  | @quoted q s hq _ ih =>
    intro current
    have hopen : step ⟨result, current, 0, false⟩ '"'.toUInt8 =
        ⟨result, current ++ ['"'.toUInt8], 0, true⟩ := rfl
    have hclose : ∀ current, step ⟨result, current, 0, true⟩ '"'.toUInt8 =
        ⟨result, current ++ ['"'.toUInt8], 0, false⟩ := fun _ => rfl
    rw [List.foldl_cons, hopen, List.foldl_append, foldl_quoted _ hq, List.foldl_cons, hclose, ih]
    simp only [List.append_assoc, List.cons_append, List.nil_append]
  | @angled a s ha _ ih =>
    intro current
    have hopen : step ⟨result, current, 0, false⟩ '<'.toUInt8 =
        ⟨result, current ++ ['<'.toUInt8], 1, false⟩ := rfl
    have hclose : ∀ current, step ⟨result, current, 1, false⟩ '>'.toUInt8 =
        ⟨result, current ++ ['>'.toUInt8], 0, false⟩ := fun _ => rfl
    rw [List.foldl_cons, hopen, List.foldl_append, foldl_balanced ha 0, List.foldl_cons, hclose, ih]
    simp only [List.append_assoc, List.cons_append, List.nil_append]

/-- An address behind nothing but the blank of a separator. -/
theorem flush_address {a current : Bytes} (ha : IsAddress a) (hcurrent : current ∈ [[], lit " "]) :
    flush ⟨result, current ++ a, 0, false⟩ = result ++ [a] := by
  have htrim : trim (current ++ a) = a := by
    simp only [List.mem_cons, List.not_mem_nil, or_false] at hcurrent
    rcases hcurrent with rfl | rfl
    · exact ha.trimmed
    · exact (trim_cons a rfl).trans ha.trimmed
  rw [flush, htrim]
  exact if_pos ha.ne_nil

/-- **The entries are the addresses**, the first one being behind blanks. -/
theorem flush_joinAddresses : ∀ {l : List Bytes} {result : List Bytes} {current : Bytes}, l ≠ [] →
    (∀ a ∈ l, IsAddress a) → current ∈ [[], lit " "] →
      ((joinAddresses l).foldl step ⟨result, current, 0, false⟩).flush = result ++ l
  | [a], result, current, _, hl, hcurrent => by
      have ha := hl a List.mem_cons_self
      rw [joinAddresses, foldl_closed ha.closed, flush_address ha hcurrent]
  | a :: a' :: l, result, current, _, hl, hcurrent => by
      obtain ⟨ha, hl⟩ := List.forall_mem_cons.mp hl
      have hjoin : joinAddresses (a :: a' :: l) = a ++ (lit ", " ++ joinAddresses (a' :: l)) :=
        List.append_assoc ..
      have hsep : (lit ", ").foldl step ⟨result, current ++ a, 0, false⟩ =
          ⟨result ++ [a], lit " ", 0, false⟩ := by
        rw [← flush_address ha hcurrent]
        rfl
      rw [hjoin, List.foldl_append, foldl_closed ha.closed, List.foldl_append, hsep,
        flush_joinAddresses (List.cons_ne_nil a' l) hl (by simp), List.append_assoc]
      rfl

end AddressScan

/-- **A joined list is split back.** -/
theorem splitAddresses_joinAddresses {l : List Bytes} (hl : ∀ a ∈ l, IsAddress a) :
    splitAddresses (joinAddresses l) = l := by
  rcases eq_or_ne l [] with rfl | hne
  · rfl
  · exact AddressScan.flush_joinAddresses hne hl (by simp)

end MailStack.Mime
