import MailStack.Machinery.Bytes

/-!
# Machinery/Words — fixed-width words in network byte order

`bigEndian w n` is the `w`-byte word of `n`, most significant byte first; what does not fit is cut
off, as a conversion to a narrower unsigned type does.
-/

namespace Bytes

/-- The `w` low bytes of `n`, most significant first. -/
def bigEndian : ℕ → ℕ → Bytes
  | 0, _ => []
  | w + 1, n => bigEndian w (n / 256) ++ [UInt8.ofNat n]

/-- The value of a word. -/
def ofBigEndian (s : Bytes) : ℕ := s.foldl (fun n b => n * 256 + b.toNat) 0

@[simp] theorem length_bigEndian : ∀ w n : ℕ, (bigEndian w n).length = w
  | 0, _ => rfl
  | w + 1, n => by rw [bigEndian, List.length_append, length_bigEndian w, List.length_singleton]

/-- **A word reads back as what it was written from**, less what did not fit. -/
theorem ofBigEndian_bigEndian : ∀ w n : ℕ, ofBigEndian (bigEndian w n) = n % 256 ^ w
  | 0, n => (Nat.mod_one n).symm
  | w + 1, n => by
      have hhigh : (bigEndian w (n / 256)).foldl (fun n b => n * 256 + b.toNat) 0 = _ :=
        ofBigEndian_bigEndian w (n / 256)
      have hlow : (UInt8.ofNat n).toNat = n % 256 := UInt8.toNat_ofNat'
      have hsplit : n % 256 ^ (w + 1) = n % 256 + 256 * (n / 256 % 256 ^ w) := by
        rw [Nat.pow_succ', Nat.mod_mul]
      rw [ofBigEndian, bigEndian, List.foldl_append, hhigh, List.foldl_cons, List.foldl_nil, hlow,
        hsplit]
      omega

theorem ofBigEndian_bigEndian_of_lt {w n : ℕ} (h : n < 256 ^ w) :
    ofBigEndian (bigEndian w n) = n := by
  rw [ofBigEndian_bigEndian, Nat.mod_eq_of_lt h]

/-- Words of numbers that fit are different words. -/
theorem bigEndian_injOn {w m n : ℕ} (hm : m < 256 ^ w) (hn : n < 256 ^ w)
    (h : bigEndian w m = bigEndian w n) : m = n := by
  rw [← ofBigEndian_bigEndian_of_lt hm, h, ofBigEndian_bigEndian_of_lt hn]

end Bytes
