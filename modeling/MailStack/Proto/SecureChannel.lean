import MailStack.Machinery.Words

/-!
# Proto/SecureChannel — `SecureChannel`: frames over a connection

A secured channel writes each payload as one frame: four bytes of length, a random nonce, and the
ciphertext with its tag, sealed under the sender's key with the sender's message counter as
associated data.  The counters of the two ends are never written; they agree because each end moves
its own on when a frame has gone out, and when one has been opened.

The AEAD of libsodium is the parameter `Aead`, the connection below the parameter `IConnection`,
over a network state `κ`.  Sender and receiver measure different things against the same limit, the
payload and the frame: `receive_send_iff` says for which payloads that goes well.
-/

open Bytes

namespace MailStack.Proto

/-- `crypto_aead_chacha20poly1305_ietf_encrypt` and `_decrypt`; no result where they return an
error. -/
structure Aead where
  encrypt : (key ad nonce message : Bytes) → Option Bytes
  decrypt : (key ad nonce ciphertext : Bytes) → Option Bytes

/-- `IConnection`: what the calls return, and what they do to the network. -/
structure IConnection (κ : Type*) where
  send : κ → Bytes → Bool × κ
  receive : κ → Option Bytes × κ
  sendRaw : κ → Bytes → Bool × κ
  receiveRaw : κ → ℕ → Option Bytes × κ

/-- The members of `SecureChannel`. -/
structure SecureChannel where
  secure : Bool := false
  txKey : Bytes := []
  rxKey : Bytes := []
  txSeq : UInt64 := 0
  rxSeq : UInt64 := 0
  deriving DecidableEq, Repr

/-- `crypto_aead_chacha20poly1305_ietf_NPUBBYTES`. -/
def nonceSize : ℕ := 12

/-- `crypto_aead_chacha20poly1305_ietf_ABYTES`. -/
def tagSize : ℕ := 16

/-- `MAX_MESSAGE_SIZE`. -/
def maxMessageSize : ℕ := 10 * 1024 * 1024

/-- The bytes of a counter in memory, lowest first. -/
def seqBytes (seq : UInt64) : Bytes := (bigEndian 8 seq.toNat).reverse

/-- `pop_back` of the last byte, if it is `c`. -/
def popBack (c : UInt8) (s : Bytes) : Bytes := if s.getLast? = some c then s.dropLast else s

/-- What `Receive` takes off a payload: one trailing LF, and then one trailing CR. -/
def stripLineEnd (s : Bytes) : Bytes := popBack '\r'.toUInt8 (popBack '\n'.toUInt8 s)

namespace SecureChannel

variable {κ : Type*} (S : Aead) (conn : IConnection κ)

/-- `Encrypt`, with the nonce that `randombytes_buf` drew. -/
def encrypt (c : SecureChannel) (nonce rawData : Bytes) : Bytes :=
  match S.encrypt c.txKey (seqBytes c.txSeq) nonce rawData with
  | none => []
  | some text => nonce ++ text

/-- `Decrypt`, less the step of the counter. -/
def decrypt (c : SecureChannel) (rawData : Bytes) : Option Bytes :=
  if rawData.length < nonceSize + tagSize then none
  else S.decrypt c.rxKey (seqBytes c.rxSeq) (rawData.take nonceSize) (rawData.drop nonceSize)

/-- `Send`. -/
def send (c : SecureChannel) (nonce : Bytes) (k : κ) (data : Bytes) : Bool × SecureChannel × κ :=
  if maxMessageSize < data.length then (false, c, k)
  else if ¬ c.secure then ((conn.send k data).1, c, (conn.send k data).2)
  else if c.encrypt S nonce data = [] then (false, c, k)
  else
    match conn.sendRaw k (bigEndian 4 (c.encrypt S nonce data).length) with
    | (false, k₁) => (false, c, k₁)
    | (true, k₁) =>
      match conn.sendRaw k₁ (c.encrypt S nonce data) with
      | (false, k₂) => (false, c, k₂)
      | (true, k₂) => (true, { c with txSeq := c.txSeq + 1 }, k₂)

/-- `Receive`. -/
def receive (c : SecureChannel) (k : κ) : Option Bytes × SecureChannel × κ :=
  if ¬ c.secure then ((conn.receive k).1, c, (conn.receive k).2)
  else
    match conn.receiveRaw k 4 with
    | (none, k₁) => (none, c, k₁)
    | (some len, k₁) =>
      if ofBigEndian len = 0 ∨ maxMessageSize < ofBigEndian len then (none, c, k₁)
      else
        match conn.receiveRaw k₁ (ofBigEndian len) with
        | (none, k₂) => (none, c, k₂)
        | (some text, k₂) =>
          match c.decrypt S text with
          | none => (none, c, k₂)
          | some plain => (some (stripLineEnd plain), { c with rxSeq := c.rxSeq + 1 }, k₂)

/-! ## What a send and a receive can do -/

variable {S conn}

/-- What `Send` of a secured channel can do: nothing is encrypted, or a frame that does not go out
in full, or one that does. -/
theorem send_cases {c c' : SecureChannel} {nonce data : Bytes} {k k' : κ} {ok : Bool}
    (hsecure : c.secure = true) (h : c.send S conn nonce k data = (ok, c', k')) :
    (ok = false ∧ c' = c) ∨
      (ok = true ∧ c' = { c with txSeq := c.txSeq + 1 } ∧ data.length ≤ maxMessageSize ∧
        ∃ text k₁, S.encrypt c.txKey (seqBytes c.txSeq) nonce data = some text ∧
          conn.sendRaw k (bigEndian 4 (nonce ++ text).length) = (true, k₁) ∧
          conn.sendRaw k₁ (nonce ++ text) = (true, k')) := by
  have stay : ∀ {k₁ : κ}, (false, c, k₁) = (ok, c', k') → ok = false ∧ c' = c := fun h =>
    ⟨(Prod.mk.inj h).1.symm, (Prod.mk.inj (Prod.mk.inj h).2).1.symm⟩
  rw [send, if_neg (not_not_intro hsecure)] at h
  split_ifs at h with hsize hempty
  · exact .inl (stay h)
  · exact .inl (stay h)
  · split at h
    · exact .inl (stay h)
    · rename_i k₁ hlen
      split at h
      · exact .inl (stay h)
      · rename_i k₂ hframe
        obtain ⟨rfl, hrest⟩ := Prod.mk.inj h
        obtain ⟨rfl, rfl⟩ := Prod.mk.inj hrest
        cases htext : S.encrypt c.txKey (seqBytes c.txSeq) nonce data with
        | none =>
          rw [encrypt, htext] at hempty
          exact absurd rfl hempty
        | some text =>
          rw [encrypt, htext] at hlen hframe
          exact .inr ⟨rfl, rfl, Nat.le_of_not_lt hsize, text, k₁, rfl, hlen, hframe⟩

/-- What `Receive` of a secured channel can do: it fails and the counter stays, or it opens a frame
under the counter, which moves on. -/
theorem receive_cases {c c' : SecureChannel} {k k' : κ} {r : Option Bytes}
    (hsecure : c.secure = true) (h : c.receive S conn k = (r, c', k')) :
    (r = none ∧ c' = c) ∨
      ∃ text plain : Bytes, S.decrypt c.rxKey (seqBytes c.rxSeq) (text.take nonceSize)
          (text.drop nonceSize) = some plain ∧
        r = some (stripLineEnd plain) ∧ c' = { c with rxSeq := c.rxSeq + 1 } := by
  have stay : ∀ {k₁ : κ}, (none, c, k₁) = (r, c', k') → r = none ∧ c' = c := fun h =>
    ⟨(Prod.mk.inj h).1.symm, (Prod.mk.inj (Prod.mk.inj h).2).1.symm⟩
  rw [receive, if_neg (not_not_intro hsecure)] at h
  split at h
  · exact .inl (stay h)
  · split_ifs at h
    · exact .inl (stay h)
    · split at h
      · exact .inl (stay h)
      · rename_i text k₂ htext
        split at h
        · exact .inl (stay h)
        · rename_i plain hplain
          obtain ⟨rfl, hrest⟩ := Prod.mk.inj h
          obtain ⟨rfl, rfl⟩ := Prod.mk.inj hrest
          rw [decrypt] at hplain
          split_ifs at hplain
          exact .inr ⟨text, plain, hplain, rfl, rfl⟩

end SecureChannel

/-! ## One frame, written and read -/

/-- What is known of the AEAD: opening undoes sealing, and the tag is all a ciphertext is longer
by. -/
structure Aead.Lawful (S : Aead) : Prop where
  decrypt : ∀ {key ad nonce message text}, S.encrypt key ad nonce message = some text →
    S.decrypt key ad nonce text = some message
  length : ∀ {key ad nonce message text}, S.encrypt key ad nonce message = some text →
    text.length = message.length + tagSize

/-- The connections of the two ends carry a stream of bytes: what was sent and not yet received is
`pending`. -/
structure Stream {κ : Type*} (tx rx : IConnection κ) (pending : κ → Bytes) : Prop where
  sendRaw : ∀ k s k', tx.sendRaw k s = (true, k') → pending k' = pending k ++ s
  receiveRaw : ∀ k s rest, pending k = s ++ rest →
    ∃ k', rx.receiveRaw k s.length = (some s, k') ∧ pending k' = rest

section Framing

open SecureChannel

variable {κ : Type*} {S : Aead} {tx rx : IConnection κ} {pending : κ → Bytes}
  {a a' b : SecureChannel} {nonce data : Bytes} {k k' : κ}

/-- The bytes of a frame: what `Send` wrote when it returned true. -/
theorem pending_of_send (hstream : Stream tx rx pending) (ha : a.secure = true)
    (hsend : a.send S tx nonce k data = (true, a', k')) :
    ∃ text, S.encrypt a.txKey (seqBytes a.txSeq) nonce data = some text ∧
      data.length ≤ maxMessageSize ∧
      pending k' = pending k ++ (bigEndian 4 (nonce ++ text).length ++ (nonce ++ text)) := by
  rcases send_cases ha hsend with ⟨hok, -⟩ | ⟨-, -, hsize, text, k₁, htext, hlen, hframe⟩
  · exact absurd hok (by decide)
  · refine ⟨text, htext, hsize, ?_⟩
    rw [hstream.sendRaw k₁ _ k' hframe, hstream.sendRaw k _ k₁ hlen, List.append_assoc]

/-- **A frame within the limit is opened**, one beyond it is refused by its length. -/
theorem receive_frame (hS : S.Lawful) (hstream : Stream tx rx pending) (hb : b.secure = true)
    (hnonce : nonce.length = nonceSize) {text rest : Bytes}
    (htext : S.encrypt b.rxKey (seqBytes b.rxSeq) nonce data = some text)
    (hsize : data.length ≤ maxMessageSize)
    (hpending : pending k = bigEndian 4 (nonce ++ text).length ++ (nonce ++ text ++ rest)) :
    (b.receive S rx k).1 =
      if data.length + (nonceSize + tagSize) ≤ maxMessageSize then some (stripLineEnd data)
      else none := by
  have hlength : (nonce ++ text).length = data.length + (nonceSize + tagSize) := by
    rw [List.length_append, hnonce, hS.length htext]
    omega
  have hword : ofBigEndian (bigEndian 4 (nonce ++ text).length) = (nonce ++ text).length := by
    refine ofBigEndian_bigEndian_of_lt ?_
    rw [hlength]
    simp only [nonceSize, tagSize, maxMessageSize] at hsize ⊢
    omega
  obtain ⟨k₁, hlen, hpending₁⟩ := hstream.receiveRaw k _ _ hpending
  obtain ⟨k₂, hframe, -⟩ := hstream.receiveRaw k₁ _ _ hpending₁
  have hopen : b.decrypt S (nonce ++ text) = some data := by
    have hlong : ¬ (nonce ++ text).length < nonceSize + tagSize := by omega
    rw [SecureChannel.decrypt, if_neg hlong, List.take_left' hnonce, List.drop_left' hnonce,
      hS.decrypt htext]
  rw [length_bigEndian] at hlen
  rw [receive, if_neg (not_not_intro hb), hlen]
  dsimp only
  rw [hword, hframe, hlength]
  have hpos : data.length + (nonceSize + tagSize) ≠ 0 := by simp [nonceSize]
  by_cases hfits : data.length + (nonceSize + tagSize) ≤ maxMessageSize
  · rw [if_neg (not_or.mpr ⟨hpos, Nat.not_lt.mpr hfits⟩), if_pos hfits]
    dsimp only
    rw [hopen]
  · rw [if_pos (.inr (Nat.lt_of_not_le hfits)), if_neg hfits]

/-- **The two ends agree on a payload exactly when its frame is within the limit**: `Send` measures
the payload, `Receive` the payload with nonce and tag, against the same `MAX_MESSAGE_SIZE`. -/
theorem receive_send_iff (hS : S.Lawful) (hstream : Stream tx rx pending) (ha : a.secure = true)
    (hb : b.secure = true) (hkey : a.txKey = b.rxKey) (hseq : a.txSeq = b.rxSeq)
    (hnonce : nonce.length = nonceSize) (hempty : pending k = [])
    (hsend : a.send S tx nonce k data = (true, a', k')) :
    (b.receive S rx k').1 = some (stripLineEnd data) ↔
      data.length + (nonceSize + tagSize) ≤ maxMessageSize := by
  obtain ⟨text, htext, hsize, hpending⟩ := pending_of_send hstream ha hsend
  rw [hkey, hseq] at htext
  have hframe : pending k' =
      bigEndian 4 (nonce ++ text).length ++ (nonce ++ text ++ []) := by
    rw [hpending, hempty, List.nil_append, List.append_nil (nonce ++ text)]
  rw [receive_frame hS hstream hb hnonce htext hsize hframe]
  split_ifs with hfits
  · simp [hfits]
  · simp [hfits]

end Framing

/-! ## A stand-in for the AEAD and the connection -/

/-- Sixteen bytes that depend on the associated data. -/
def markTag (ad : Bytes) : Bytes := (ad ++ List.replicate tagSize 0).take tagSize

/-- A message in the clear, marked with its associated data. -/
def markAead : Aead where
  encrypt _ ad _ message := some (message ++ markTag ad)
  decrypt _ ad _ text :=
    if markTag ad <:+ text then some (text.take (text.length - tagSize)) else none

theorem length_markTag (ad : Bytes) : (markTag ad).length = tagSize := by
  simp [markTag]

theorem lawful_markAead : markAead.Lawful where
  decrypt := by
    rintro key ad nonce message text h
    obtain rfl : message ++ markTag ad = text := Option.some.inj h
    have htake : (message ++ markTag ad).length - tagSize = message.length := by
      rw [List.length_append, length_markTag, Nat.add_sub_cancel]
    have hopen : markAead.decrypt key ad nonce (message ++ markTag ad) = some _ :=
      if_pos (List.suffix_append message _)
    rw [hopen, htake, List.take_left]
  length := by
    rintro key ad nonce message text h
    obtain rfl : message ++ markTag ad = text := Option.some.inj h
    rw [List.length_append, length_markTag]

/-- A queue of bytes. -/
def pipe : IConnection Bytes where
  send k s := (true, k ++ s)
  receive k :=
    match cut '\n'.toUInt8 k with
    | none => (none, k)
    | some (line, rest) => (some (popBack '\r'.toUInt8 line), rest)
  sendRaw k s := (true, k ++ s)
  receiveRaw k n := if n ≤ k.length then (some (k.take n), k.drop n) else (none, k)

theorem stream_pipe : Stream pipe pipe id where
  sendRaw _ _ _ h := (Prod.mk.inj h).2.symm
  receiveRaw k s rest h := by
    obtain rfl : k = s ++ rest := h
    have hle : s.length ≤ (s ++ rest).length := by simp
    refine ⟨rest, ?_, rfl⟩
    have hraw : pipe.receiveRaw (s ++ rest) s.length = _ := if_pos hle
    rw [hraw, List.take_left, List.drop_left]

/-- Over the queue every payload within the limit is sent. -/
theorem send_pipe {a : SecureChannel} (ha : a.secure = true) (data k : Bytes) {nonce : Bytes}
    (hnonce : nonce.length = nonceSize) (hsize : data.length ≤ maxMessageSize) :
    ∃ k', a.send markAead pipe nonce k data = (true, { a with txSeq := a.txSeq + 1 }, k') := by
  have hne : a.encrypt markAead nonce data ≠ [] := by
    refine List.append_ne_nil_of_left_ne_nil ?_ _
    rintro rfl
    exact absurd hnonce (by decide)
  rw [SecureChannel.send, if_neg (Nat.not_lt.mpr hsize), if_neg (not_not_intro ha), if_neg hne]
  exact ⟨_, rfl⟩

/-- The two ends of a channel just secured. -/
def secured : SecureChannel := { secure := true }

theorem receive_send_hello :
    ∃ k', secured.send markAead pipe (List.replicate nonceSize 7) [] (lit "NOOP\r\n") =
        (true, { secured with txSeq := 1 }, k') ∧
      (secured.receive markAead pipe k').1 = some (lit "NOOP") := by
  obtain ⟨k', hsend⟩ := send_pipe (a := secured) rfl (lit "NOOP\r\n") []
    (List.length_replicate (n := nonceSize) (a := 7)) (by decide)
  refine ⟨k', hsend, ?_⟩
  exact (receive_send_iff lawful_markAead stream_pipe rfl rfl rfl rfl List.length_replicate rfl
    hsend).mpr (by decide)

/-- **A payload as large as `Send` accepts is not received.** -/
theorem receive_refuses_largest :
    ∃ (S : Aead) (conn : IConnection Bytes) (pending : Bytes → Bytes) (a a' b : SecureChannel)
      (nonce data k k' : Bytes),
      S.Lawful ∧ Stream conn conn pending ∧ a.secure = true ∧ b.secure = true ∧
      a.txKey = b.rxKey ∧ a.txSeq = b.rxSeq ∧ nonce.length = nonceSize ∧ pending k = [] ∧
      data.length = maxMessageSize ∧ a.send S conn nonce k data = (true, a', k') ∧
      (b.receive S conn k').1 ≠ some (stripLineEnd data) := by
  have hnonce : (List.replicate nonceSize (7 : UInt8)).length = nonceSize := List.length_replicate
  have hdata : (List.replicate maxMessageSize (0 : UInt8)).length = maxMessageSize :=
    List.length_replicate
  obtain ⟨k', hsend⟩ := send_pipe (a := secured) rfl _ [] hnonce (Nat.le_of_eq hdata)
  refine ⟨markAead, pipe, id, secured, _, secured, _, _, [], k', lawful_markAead, stream_pipe, rfl,
    rfl, rfl, rfl, hnonce, rfl, hdata, hsend, ?_⟩
  obtain ⟨text, htext, hsize, hpending⟩ := pending_of_send stream_pipe rfl hsend
  have hframe : id k' = bigEndian 4 (List.replicate nonceSize 7 ++ text).length ++
      (List.replicate nonceSize 7 ++ text ++ []) := by
    rw [hpending, List.append_nil (List.replicate nonceSize 7 ++ text)]
    rfl
  have hreceive := receive_frame (b := secured) lawful_markAead stream_pipe rfl hnonce htext hsize
    hframe
  rw [hreceive, hdata, if_neg (by decide)]
  exact Option.some_ne_none _ |>.symm

end MailStack.Proto
