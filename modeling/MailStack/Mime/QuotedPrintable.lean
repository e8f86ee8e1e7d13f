import MailStack.Mime.Decoder

/-!
# Mime/QuotedPrintable — `DecodeQuotedPrintable` inverts every encoding

A text has many encodings: a byte stands for itself or as two hex digits of either case, and a soft
line break can stand anywhere between bytes.  The decoder gives the text back from all of them
(`decodeQuotedPrintable_of_encodes`).
-/

open Bytes

namespace MailStack.Mime

/-- The hex digit of a value, in either case. -/
def IsHexDigit (v : ℕ) (h : UInt8) : Prop :=
  (lit "0123456789ABCDEF")[v]? = some h ∨ (lit "0123456789abcdef")[v]? = some h

/-- The second text is a quoted-printable encoding of the first. -/
inductive QpEncodes : Bytes → Bytes → Prop
  | nil : QpEncodes [] []
  | literal {c : UInt8} {text encoded : Bytes} (hc : c ≠ '='.toUInt8) (h : QpEncodes text encoded) :
      QpEncodes (c :: text) (c :: encoded)
  | hex {c h0 h1 : UInt8} {text encoded : Bytes} (hhigh : IsHexDigit (c.toNat / 16) h0)
      (hlow : IsHexDigit (c.toNat % 16) h1) (h : QpEncodes text encoded) :
      QpEncodes (c :: text) ('='.toUInt8 :: h0 :: h1 :: encoded)
  | softBreak {text encoded : Bytes} (h : QpEncodes text encoded) :
      QpEncodes text (lit "=\r\n" ++ encoded)

/-- A hex digit is read as its value. -/
theorem IsHexDigit.reads {v : ℕ} {h : UInt8} (hdigit : IsHexDigit v h) :
    v < 16 ∧ isHex h = true ∧ hexValue h = UInt8.ofNat v := by
  have hread : ∀ digits ∈ [lit "0123456789ABCDEF", lit "0123456789abcdef"],
      ∀ v < 16, isHex (digits.getD v 0) = true ∧ hexValue (digits.getD v 0) = UInt8.ofNat v := by
    decide +kernel
  have hin : ∀ digits ∈ [lit "0123456789ABCDEF", lit "0123456789abcdef"], digits[v]? = some h →
      v < 16 ∧ isHex h = true ∧ hexValue h = UInt8.ofNat v := by
    intro digits hdigits hget
    have hlength : ∀ digits ∈ [lit "0123456789ABCDEF", lit "0123456789abcdef"],
        digits.length = 16 := by decide
    have hv := (List.getElem?_eq_some_iff.mp hget).1
    rw [hlength digits hdigits] at hv
    have hvalue := hread digits hdigits v hv
    rw [List.getD_eq_getElem?_getD, hget] at hvalue
    exact ⟨hv, hvalue⟩
  rcases hdigit with hget | hget
  · exact hin _ List.mem_cons_self hget
  · exact hin _ (List.mem_cons_of_mem _ List.mem_cons_self) hget

/-- **Two hex digits are read as the byte.** -/
theorem internalHexToChar_of_digits {c h0 h1 : UInt8} (hhigh : IsHexDigit (c.toNat / 16) h0)
    (hlow : IsHexDigit (c.toNat % 16) h1) : internalHexToChar h0 h1 = c := by
  have hnibbles : ∀ a < 16, ∀ b < 16,
      UInt8.ofNat a <<< 4 ||| UInt8.ofNat b = UInt8.ofNat (16 * a + b) := by decide +kernel
  rw [internalHexToChar, hhigh.reads.2.2, hlow.reads.2.2,
    hnibbles _ hhigh.reads.1 _ hlow.reads.1, Nat.div_add_mod, UInt8.ofNat_toNat]

theorem isHex_ne {h x : UInt8} (hh : isHex h = true) (hx : isHex x = false) : h ≠ x := by
  rintro rfl
  exact absurd (hh.symm.trans hx) (by decide)

theorem decodeQuotedPrintable_literal {c : UInt8} (hc : c ≠ '='.toUInt8) (s : Bytes) :
    decodeQuotedPrintable (c :: s) = c :: decodeQuotedPrintable s := by
  rw [decodeQuotedPrintable.eq_def]
  exact if_neg hc

theorem decodeQuotedPrintable_softBreak (s : Bytes) :
    decodeQuotedPrintable (lit "=\r\n" ++ s) = decodeQuotedPrintable s := by
  rw [decodeQuotedPrintable.eq_def]
  rfl

theorem decodeQuotedPrintable_hex {h0 h1 : UInt8} (hhigh : isHex h0 = true) (hlow : isHex h1 = true)
    (s : Bytes) : decodeQuotedPrintable ('='.toUInt8 :: h0 :: h1 :: s) =
      internalHexToChar h0 h1 :: decodeQuotedPrintable s := by
  rw [decodeQuotedPrintable.eq_def]
  dsimp only
  rw [if_pos rfl, if_neg (isHex_ne hhigh (by decide)), if_neg (isHex_ne hhigh (by decide)), hhigh,
    hlow, Bool.and_self, if_pos rfl]

/-- **`DecodeQuotedPrintable` gives the text back** from every encoding of it. -/
theorem decodeQuotedPrintable_of_encodes {text encoded : Bytes} (h : QpEncodes text encoded) :
    decodeQuotedPrintable encoded = text := by
  induction h with
  | nil => rw [decodeQuotedPrintable]
  | literal hc _ ih => rw [decodeQuotedPrintable_literal hc, ih]
  | hex hhigh hlow _ ih =>
    rw [decodeQuotedPrintable_hex hhigh.reads.2.1 hlow.reads.2.1,
      internalHexToChar_of_digits hhigh hlow, ih]
  | softBreak _ ih => rw [decodeQuotedPrintable_softBreak, ih]

/-- A high byte, a soft line break and a literal one. -/
theorem decodeQuotedPrintable_of_encodes_two :
    decodeQuotedPrintable (lit "=Fe=\r\na") = [0xFE, 'a'.toUInt8] :=
  decodeQuotedPrintable_of_encodes (.hex (.inl (by decide)) (.inr (by decide))
    (.softBreak (.literal (by decide) .nil)))

end MailStack.Mime
