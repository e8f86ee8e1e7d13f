import MailStack.Machinery.Bytes

/-!
# Base64/Codec — `Base64Encoder::EncodeBase64` and `Base64Decoder::DecodeBase64`

The one-shot codec.  The encoder breaks its output after 76 characters; the decoder takes none of
those line breaks back, it throws on every character outside the alphabet and `=`.
-/

open Bytes

namespace MailStack.Base64

/-- `Base64::alphabet`. -/
def alphabet : Bytes := lit "ABCDEFGHIJKLMNOPQRSTUVWXYZabcdefghijklmnopqrstuvwxyz0123456789+/"

/-- `Base64::get_decode_table()`. -/
def decodeTable (c : UInt8) : ℤ :=
  if c = '='.toUInt8 then -2
  else match alphabet.idxOf? c with
    | some i => i
    | none => -1

/-- `AConfig::MAX_FILE_SIZE`. -/
def maxFileSize : ℕ := 15 * 1024 * 1024

/-! ## Encoding -/

/-- `Base64::alphabet[n & 0x3F]`. -/
def alphabetAt (n : ℕ) : UInt8 := alphabet.getD (n &&& 0x3F) 0

/-- `Base64Encoder::ChunkBytes`; `lineLength` characters stand on the current line. -/
def chunkBytes (lineLength : ℕ) : Bytes → Bytes
  | [] => []
  | [b0] =>
    let block := b0.toNat <<< 16
    [alphabetAt (block >>> 18), alphabetAt (block >>> 12), '='.toUInt8, '='.toUInt8]
  | [b0, b1] =>
    let block := b0.toNat <<< 16 ||| b1.toNat <<< 8
    [alphabetAt (block >>> 18), alphabetAt (block >>> 12), alphabetAt (block >>> 6), '='.toUInt8]
  | b0 :: b1 :: b2 :: data =>
    let block := b0.toNat <<< 16 ||| b1.toNat <<< 8 ||| b2.toNat
    [alphabetAt (block >>> 18), alphabetAt (block >>> 12), alphabetAt (block >>> 6),
      alphabetAt block] ++
      if 76 ≤ lineLength + 4 ∧ data ≠ [] then lit "\r\n" ++ chunkBytes 0 data
      else chunkBytes (lineLength + 4) data

/-- `Base64Encoder::EncodeBase64`. -/
def encodeBase64 (data : Bytes) : Except Exn Bytes :=
  if maxFileSize < data.length then .error (.runtimeError (lit "File too large"))
  else .ok (chunkBytes 0 data)

/-! ## Decoding -/

/-- The characters the first loop of `DecodeBase64` lets through. -/
def isValidBase64 (c : UInt8) : Bool :=
  ('A'.toUInt8 ≤ c && c ≤ 'Z'.toUInt8) || ('a'.toUInt8 ≤ c && c ≤ 'z'.toUInt8) ||
    ('0'.toUInt8 ≤ c && c ≤ '9'.toUInt8) ||
    c = '+'.toUInt8 || c = '/'.toUInt8 || c = '='.toUInt8

/-- One group of four characters. -/
def decodeGroup (c0 c1 c2 c3 : UInt8) : Except Exn Bytes :=
  let value0 := decodeTable c0
  let value1 := decodeTable c1
  let value2 := if c2 = '='.toUInt8 then 0 else decodeTable c2
  let value3 := if c3 = '='.toUInt8 then 0 else decodeTable c3
  if value0 < 0 ∨ value1 < 0 ∨ (c2 ≠ '='.toUInt8 ∧ value2 < 0) ∨
      (c3 ≠ '='.toUInt8 ∧ value3 < 0) then
    .error (.runtimeError (lit "Invalid Base64 character"))
  else
    let block := value0.toNat <<< 18 ||| value1.toNat <<< 12 ||| value2.toNat <<< 6 ||| value3.toNat
    .ok (UInt8.ofNat (block >>> 16) ::
      ((if c2 = '='.toUInt8 then [] else [UInt8.ofNat (block >>> 8)]) ++
        if c3 = '='.toUInt8 then [] else [UInt8.ofNat block]))

/-- The group loop of `DecodeBase64`. -/
def decodeGroups : Bytes → Except Exn Bytes
  | c0 :: c1 :: c2 :: c3 :: s =>
    match decodeGroup c0 c1 c2 c3 with
    | .error e => .error e
    | .ok bytes => (decodeGroups s).map (bytes ++ ·)
  | _ => .ok []

/-- `Base64Decoder::DecodeBase64`. -/
def decodeBase64 (encoded : Bytes) : Except Exn Bytes :=
  match encoded.find? fun c => !isValidBase64 c with
  | some c => .error (.runtimeError (lit "Invalid Base64 symbol: " ++ [c]))
  | none =>
    if encoded.length % 4 = 0 then decodeGroups encoded
    else .error (.runtimeError (lit "Str is not in Base64 format"))

/-- A character that is no base64 is refused. -/
theorem decodeBase64_ne_ok {s : Bytes} {c : UInt8} (hc : c ∈ s) (hvalid : isValidBase64 c = false)
    (data : Bytes) : decodeBase64 s ≠ .ok data := by
  intro h
  rw [decodeBase64] at h
  split at h
  · exact nomatch h
  · rename_i hnone
    have := List.find?_eq_none.mp hnone c hc
    simp [hvalid] at this

example : encodeBase64 (lit "Username:") = .ok (lit "VXNlcm5hbWU6") := by decide

example : decodeBase64 (lit "AGFsaWNlAHB3") = .ok ([0] ++ lit "alice" ++ [0] ++ lit "pw") := by
  decide

end MailStack.Base64
