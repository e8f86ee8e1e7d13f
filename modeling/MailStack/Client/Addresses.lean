import MailStack.Mime.AddressList

/-!
# Client/Addresses — the client's copy of `SplitAddresses`

`MailWorker` splits the `Bcc` and `Reply-To` fields of a mail with a scan of its own, which trims
the entries with `TrimCopy`.  The two scans go through the same states
(`AddressListScan.scan_step`), so they find the same entries in any text.
-/

open Bytes

namespace MailStack.Client

open Mime

/-- `TrimCopy`: `substr` between `find_first_not_of` and `find_last_not_of`. -/
def trimCopy (value : Bytes) : Bytes :=
  let start := value.findIdx (!isBlank ·)
  if start = value.length then []
  else
    let stop := value.length - 1 - value.reverse.findIdx (!isBlank ·)
    (value.drop start).take (stop - start + 1)

/-- The state of the loop of `SplitAddressList`. -/
structure AddressListScan where
  out : List Bytes := []
  current : Bytes := []
  inQuotes : Bool := false
  angleDepth : ℕ := 0

/-- `if (!token.empty()) out.push_back(token)`. -/
def AddressListScan.push (a : AddressListScan) : List Bytes :=
  let token := trimCopy a.current
  if token = [] then a.out else a.out ++ [token]

/-- One character of `SplitAddressList`. -/
def AddressListScan.step (a : AddressListScan) (c : UInt8) : AddressListScan :=
  let added := { a with current := a.current ++ [c] }
  if c = '"'.toUInt8 ∧ a.angleDepth = 0 then { added with inQuotes := !a.inQuotes }
  else if ¬ a.inQuotes ∧ c = '<'.toUInt8 then { added with angleDepth := a.angleDepth + 1 }
  else if ¬ a.inQuotes ∧ c = '>'.toUInt8 then
    if 0 < a.angleDepth then { added with angleDepth := a.angleDepth - 1 } else added
  else if ¬ a.inQuotes ∧ a.angleDepth = 0 ∧ c = ','.toUInt8 then
    { a with
      out := a.push
      current := [] }
  else added

/-- `SplitAddressList`. -/
def splitAddressList (raw : Bytes) : List Bytes := (raw.foldl AddressListScan.step {}).push

/-! ## `TrimCopy` -/

/-- The byte at `start` is not blank, so the search from behind stops there. -/
theorem trimCopy_eq (value : Bytes) : trimCopy value = trim value := by
  let start := value.findIdx (!isBlank ·)
  have hdrop : value.dropWhile isBlank = value.drop start := List.dropWhile_eq_drop_findIdx_not
  rw [trimCopy, trim, hdrop]
  dsimp only
  split_ifs with hstart
  · rw [show start = value.length from hstart, List.drop_length]
    rfl
  · have hlt : start < value.length := Nat.lt_of_le_of_ne List.findIdx_le_length hstart
    let t := value.drop start
    let k := t.reverse.findIdx (!isBlank ·)
    have hk : k < t.length := by
      have hmem : value[start] ∈ t := by
        rw [show t = value[start] :: value.drop (start + 1) from List.drop_eq_getElem_cons hlt]
        exact List.mem_cons_self
      rw [← List.length_reverse, List.findIdx_lt_length]
      exact ⟨value[start], List.mem_reverse.mpr hmem,
        @List.findIdx_getElem _ (!isBlank ·) value hlt⟩
    have hback : value.reverse.findIdx (!isBlank ·) = k := by
      rw [← List.take_append_drop start value, List.reverse_append, List.findIdx_append]
      exact if_pos (by rwa [List.length_reverse])
    have hlength : t.length = value.length - start := List.length_drop
    have htake : value.length - 1 - k - start + 1 = t.length - k := by omega
    have hrest : t.reverse.dropWhile isBlank = t.reverse.drop k :=
      List.dropWhile_eq_drop_findIdx_not
    rw [hback, htake, hrest, List.reverse_drop, List.reverse_reverse, List.length_reverse]

/-! ## The two scans -/

namespace AddressListScan

/-- The same state of `SplitAddresses`. -/
@[simps] def scan (a : AddressListScan) : AddressScan :=
  ⟨a.out, a.current, a.angleDepth, a.inQuotes⟩

theorem flush_scan (a : AddressListScan) : a.scan.flush = a.push := by
  rw [push, trimCopy_eq, AddressScan.flush]
  exact ite_not ..

/-- **The two scans go in step.** -/
theorem scan_step (a : AddressListScan) (c : UInt8) : a.scan.step c = (a.step c).scan := by
  rw [AddressScan.step, step, flush_scan]
  simp only [scan_result, scan_current, scan_angleDepth, scan_inQuotes]
  split_ifs with _ _ _ hdepth
  · rfl
  · rfl
  · rfl
  · rw [Nat.eq_zero_of_not_pos hdepth]
    rfl
  · rfl
  · rfl

end AddressListScan

theorem splitAddressList_eq (raw : Bytes) : splitAddressList raw = splitAddresses raw := by
  have hscan : (raw.foldl AddressListScan.step {}).scan = raw.foldl AddressScan.step {} :=
    (List.foldl_hom AddressListScan.scan AddressListScan.scan_step).symm
  rw [splitAddressList, splitAddresses, ← hscan, AddressListScan.flush_scan]

/-! ## The lists come back -/

/-- **A joined list is split back**, and the client reads any text as the parser does. -/
theorem splitAddresses_splits_back {addresses : List Bytes} (h : ∀ a ∈ addresses, IsAddress a)
    (raw : Bytes) : splitAddresses (joinAddresses addresses) = addresses ∧
      splitAddressList raw = splitAddresses raw :=
  ⟨splitAddresses_joinAddresses h, splitAddressList_eq raw⟩

theorem splitAddresses_splits_back_two :
    splitAddresses (joinAddresses [lit "\"D, J\" <j@d>", lit "a@b"]) =
        [lit "\"D, J\" <j@d>", lit "a@b"] ∧
      splitAddressList (lit "a,b <c,>\"") = splitAddresses (lit "a,b <c,>\"") := by
  have haddress : Closed (lit "<j@d>") :=
    @Closed.angled (lit "j@d") [] (Brackets.Plain.balanced (by decide)) .nil
  refine splitAddresses_splits_back (List.forall_mem_cons.mpr ⟨⟨by decide, by decide, ?_⟩,
    List.forall_mem_singleton.mpr ⟨by decide, by decide, ?_⟩⟩) _
  · exact @Closed.quoted (lit "D, J") (lit " <j@d>") (by decide) (.plain (by decide) haddress)
  · exact .plain (by decide) (.plain (by decide) (.plain (by decide) .nil))

end MailStack.Client
