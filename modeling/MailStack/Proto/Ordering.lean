import MailStack.Machinery.Run
import MailStack.Proto.SecureChannel

/-!
# Proto/Ordering — what is received over a secured channel was sent, in order

One direction of a secured channel against a network that does as it likes: the connections of the
two ends are arbitrary functions over a state that anyone may change between any two calls, so that
frames are dropped, duplicated, reordered, cut or made up.

The AEAD is ideal: `Link.sealed` lists what was encrypted so far, under whatever key, and a
ciphertext opens exactly if it stands there.  The invariant `Link.Inv` says that the `i`-th payload
is the only one sealed under the counter `i`, and that the receiver has opened an initial part of
them.
-/

open Bytes

namespace MailStack.Proto

/-- One encryption: under which key, associated data and nonce, and of what into what. -/
structure Sealed where
  key : Bytes
  ad : Bytes
  nonce : Bytes
  message : Bytes
  text : Bytes
  deriving DecidableEq, Repr

/-- The ideal AEAD: a ciphertext opens exactly if it was produced under the same key, associated
data and nonce, and opens to what it was produced from. -/
def ideal (encrypt : (key ad nonce message : Bytes) → Option Bytes) (log : List Sealed) : Aead where
  encrypt := encrypt
  decrypt key ad nonce text :=
    (log.find? fun e => e.key = key ∧ e.ad = ad ∧ e.nonce = nonce ∧ e.text = text).map (·.message)

theorem mem_of_ideal_decrypt {encrypt : (key ad nonce message : Bytes) → Option Bytes}
    {log : List Sealed} {key ad nonce text message : Bytes}
    (h : (ideal encrypt log).decrypt key ad nonce text = some message) :
    ∃ e ∈ log, e.key = key ∧ e.ad = ad ∧ e.message = message := by
  obtain ⟨e, he, rfl⟩ := Option.map_eq_some_iff.mp h
  have hmatch := List.find?_some he
  rw [decide_eq_true_eq] at hmatch
  exact ⟨e, List.mem_of_find?_eq_some he, hmatch.1, hmatch.2.1, rfl⟩

/-- The two ends of one direction of a channel, the network between them, and what happened. -/
structure Link (κ : Type*) where
  sender : SecureChannel
  receiver : SecureChannel
  net : κ
  sealed : List Sealed := []
  /-- The payloads of the `Send`s that returned true. -/
  sent : List Bytes := []
  /-- The payload of the `Send` that returned false, which ended the connection. -/
  failed : Option Bytes := none
  /-- What the `Receive`s that returned true returned. -/
  received : List Bytes := []

/-- A step: a `Send` with the nonce it draws, a `Receive`, anything that happens to the network, an
encryption elsewhere. -/
inductive LinkAct (κ : Type*)
  | send (data nonce : Bytes)
  | receive
  | network (k : κ)
  | elsewhere (e : Sealed)

namespace Link

variable {κ : Type*} (encrypt : (key ad nonce message : Bytes) → Option Bytes)
  (tx rx : IConnection κ)

/-- The payloads handed to `Send`: those that were sent, and the one that failed, if any. -/
def attempted (l : Link κ) : List Bytes := l.sent ++ l.failed.toList

/-- What a `Send` encrypts. -/
def seals (c : SecureChannel) (nonce data : Bytes) : List Sealed :=
  if c.secure ∧ data.length ≤ maxMessageSize then
    (encrypt c.txKey (seqBytes c.txSeq) nonce data).toList.map
      fun text => ⟨c.txKey, seqBytes c.txSeq, nonce, data, text⟩
  else []

/-- One step.  No `Send` follows one that failed, and the keys of a channel are its own. -/
def next (l : Link κ) : LinkAct κ → Option (Link κ)
  | .send data nonce =>
    if l.failed.isSome then none
    else
      let r := l.sender.send (ideal encrypt l.sealed) tx nonce l.net data
      some { l with
        sender := r.2.1
        net := r.2.2
        sealed := l.sealed ++ seals encrypt l.sender nonce data
        sent := if r.1 then l.sent ++ [data] else l.sent
        failed := if r.1 then none else some data }
  | .receive =>
    let r := l.receiver.receive (ideal encrypt l.sealed) rx l.net
    some { l with receiver := r.2.1, net := r.2.2, received := l.received ++ r.1.toList }
  | .network k => some { l with net := k }
  | .elsewhere e =>
    if e.key = l.sender.txKey then none else some { l with sealed := l.sealed ++ [e] }

/-- Both ends have just been secured, with the same key in this direction. -/
structure Fresh (l : Link κ) : Prop where
  sender : l.sender.secure = true
  receiver : l.receiver.secure = true
  key : l.sender.txKey = l.receiver.rxKey
  txSeq : l.sender.txSeq = 0
  rxSeq : l.receiver.rxSeq = 0
  sealed : ∀ e ∈ l.sealed, e.key ≠ l.sender.txKey
  sent : l.sent = []
  failed : l.failed = none
  received : l.received = []

/-! ## The invariant -/

/-- The counters count, the `i`-th payload alone is sealed under the counter `i`, and what was
received is what was handed to `Send` first. -/
structure Inv (l : Link κ) : Prop where
  sender : l.sender.secure = true
  receiver : l.receiver.secure = true
  key : l.sender.txKey = l.receiver.rxKey
  txSeq : l.sender.txSeq = UInt64.ofNat l.sent.length
  rxSeq : l.receiver.rxSeq = UInt64.ofNat l.received.length
  sealed : ∀ e ∈ l.sealed, e.key = l.sender.txKey →
    ∃ i, l.attempted[i]? = some e.message ∧ e.ad = seqBytes (UInt64.ofNat i)
  received : l.received = (l.attempted.take l.received.length).map stripLineEnd

theorem Fresh.inv {l : Link κ} (h : l.Fresh) : l.Inv where
  sender := h.sender
  receiver := h.receiver
  key := h.key
  txSeq := by rw [h.txSeq, h.sent]; rfl
  rxSeq := by rw [h.rxSeq, h.received]; rfl
  sealed e he hkey := absurd hkey (h.sealed e he)
  received := by rw [h.received]; rfl

theorem Inv.length_le {l : Link κ} (h : l.Inv) : l.received.length ≤ l.attempted.length := by
  have hlen := congrArg List.length h.received
  rw [List.length_map, List.length_take] at hlen
  omega

/-- Counters of up to `2 ^ 64` messages have different bytes. -/
theorem seqBytes_injOn {i j : ℕ} (hi : i < 2 ^ 64) (hj : j < 2 ^ 64)
    (h : seqBytes (UInt64.ofNat i) = seqBytes (UInt64.ofNat j)) : i = j := by
  have htoNat : ∀ n < 2 ^ 64, (UInt64.ofNat n).toNat = n := fun n hn =>
    UInt64.toNat_ofNat_of_lt' hn
  rw [seqBytes, seqBytes, List.reverse_inj, htoNat i hi, htoNat j hj] at h
  exact bigEndian_injOn hi hj h

variable {encrypt tx rx}

/-- More payloads are handed over, and more is sealed, under the counter of its payload. -/
theorem Inv.grow {l l' : Link κ} {payloads : List Bytes} (h : l.Inv)
    (hreceiver : l'.receiver = l.receiver) (hreceived : l'.received = l.received)
    (hsecure : l'.sender.secure = true) (hkey : l'.sender.txKey = l.sender.txKey)
    (hseq : l'.sender.txSeq = UInt64.ofNat l'.sent.length) (hall : l'.attempted = payloads)
    (hmore : l.attempted <+: payloads)
    (hseals : ∀ e ∈ l'.sealed, e ∈ l.sealed ∨ (e.key = l.sender.txKey →
      ∃ i, payloads[i]? = some e.message ∧ e.ad = seqBytes (UInt64.ofNat i))) :
    l'.Inv where
  sender := hsecure
  receiver := by rw [hreceiver]; exact h.receiver
  key := by rw [hkey, hreceiver]; exact h.key
  txSeq := hseq
  rxSeq := by rw [hreceiver, hreceived]; exact h.rxSeq
  sealed e he hek := by
    rw [hkey] at hek
    rw [hall]
    rcases hseals e he with hold | hnew
    · obtain ⟨i, hi, had⟩ := h.sealed e hold hek
      obtain ⟨rest, rfl⟩ := hmore
      obtain ⟨hlt, -⟩ := List.getElem?_eq_some_iff.mp hi
      exact ⟨i, (List.getElem?_append_left hlt).trans hi, had⟩
    · exact hnew hek
  received := by
    obtain ⟨rest, rfl⟩ := hmore
    rw [hreceived, hall, List.take_append_of_le_length h.length_le]
    exact h.received

theorem of_mem_seals {c : SecureChannel} {nonce data : Bytes} {e : Sealed}
    (h : e ∈ seals encrypt c nonce data) : e.message = data ∧ e.ad = seqBytes c.txSeq := by
  rw [seals] at h
  split_ifs at h
  · obtain ⟨text, -, rfl⟩ := List.mem_map.mp h
    exact ⟨rfl, rfl⟩
  · exact absurd h List.not_mem_nil

/-- Whether its frame goes out or not, the payload of a `Send` stands behind those sent before. -/
theorem attempted_send {l l' : Link κ} {data nonce : Bytes}
    (hstep : l.next encrypt tx rx (.send data nonce) = some l') :
    l.attempted = l.sent ∧ l'.attempted = l.sent ++ [data] := by
  rw [next] at hstep
  split_ifs at hstep with hopen
  have hnone : l.failed = none := by simpa using hopen
  obtain rfl := Option.some.inj hstep
  refine ⟨by rw [attempted, hnone]; exact List.append_nil _, ?_⟩
  rw [attempted]
  dsimp only
  split_ifs
  · exact List.append_nil _
  · rfl

/-- A `Send` keeps the invariant: its payload is sealed under the counter of its place. -/
theorem Inv.send {l l' : Link κ} {data nonce : Bytes} (h : l.Inv)
    (hstep : l.next encrypt tx rx (.send data nonce) = some l') : l'.Inv := by
  obtain ⟨hbefore, hafter⟩ := attempted_send hstep
  have hmore : l.attempted <+: l.sent ++ [data] := hbefore ▸ List.prefix_append _ _
  have hplace : ∀ e ∈ l.sealed ++ seals encrypt l.sender nonce data,
      e ∈ l.sealed ∨ (e.key = l.sender.txKey → ∃ i, (l.sent ++ [data])[i]? = some e.message ∧
        e.ad = seqBytes (UInt64.ofNat i)) := by
    intro e he
    refine (List.mem_append.mp he).imp_right fun hnew _ => ⟨l.sent.length, ?_, ?_⟩
    · rw [(of_mem_seals hnew).1, List.getElem?_concat_length]
    · rw [(of_mem_seals hnew).2, h.txSeq]
  rw [next] at hstep
  split_ifs at hstep
  obtain rfl := Option.some.inj hstep
  rcases hr : l.sender.send (ideal encrypt l.sealed) tx nonce l.net data with ⟨ok, c', k'⟩
  simp only [hr] at hafter ⊢
  rcases SecureChannel.send_cases h.sender hr with ⟨rfl, rfl⟩ | ⟨rfl, rfl, -⟩
  · exact h.grow rfl rfl h.sender rfl h.txSeq hafter hmore hplace
  · refine h.grow rfl rfl h.sender rfl ?_ hafter hmore hplace
    simp only [if_true]
    rw [h.txSeq, List.length_append, List.length_singleton, UInt64.ofNat_add]
    rfl

/-- A `Receive` keeps the invariant, as long as no counter comes around: what opens under the
counter `n` is the `n`-th payload. -/
theorem Inv.receive {l l' : Link κ} (h : l.Inv) (hbound : l.attempted.length < 2 ^ 64)
    (hstep : l.next encrypt tx rx .receive = some l') : l'.Inv := by
  obtain rfl := Option.some.inj hstep
  rcases hr : l.receiver.receive (ideal encrypt l.sealed) rx l.net with ⟨out, c', k'⟩
  rcases SecureChannel.receive_cases h.receiver hr with ⟨rfl, rfl⟩ | ⟨text, plain, hopen, rfl, rfl⟩
  · refine ⟨h.sender, h.receiver, h.key, h.txSeq, ?_, h.sealed, ?_⟩
    · simpa using h.rxSeq
    · simpa [attempted] using h.received
  · obtain ⟨e, he, hkey, had, rfl⟩ := mem_of_ideal_decrypt hopen
    obtain ⟨i, hi, hseq⟩ := h.sealed e he (hkey.trans h.key.symm)
    obtain ⟨hlt, -⟩ := List.getElem?_eq_some_iff.mp hi
    have hle := h.length_le
    obtain rfl : i = l.received.length := by
      refine seqBytes_injOn (by omega) (by omega) ?_
      rw [← hseq, had, h.rxSeq]
    have hlen : (l.received ++ [stripLineEnd e.message]).length = l.received.length + 1 := by simp
    refine ⟨h.sender, h.receiver, h.key, h.txSeq, ?_, h.sealed, ?_⟩
    · have hcount : l.receiver.rxSeq + 1 = UInt64.ofNat (l.received.length + 1) := by
        rw [h.rxSeq, UInt64.ofNat_add]
        rfl
      exact hcount.trans (congrArg _ hlen.symm)
    · have htake : l.attempted.take (l.received.length + 1) =
          l.attempted.take l.received.length ++ [e.message] := by
        rw [List.take_add_one, hi]
        rfl
      have hreceived : l.received ++ [stripLineEnd e.message] =
          (l.attempted.take (l.received ++ [stripLineEnd e.message]).length).map stripLineEnd := by
        rw [hlen, htake, List.map_append, ← h.received]
        rfl
      exact hreceived

theorem attempted_prefix_of_next {l l' : Link κ} {a : LinkAct κ}
    (hstep : l.next encrypt tx rx a = some l') : l.attempted <+: l'.attempted := by
  cases a with
  | send data nonce =>
    obtain ⟨hbefore, hafter⟩ := attempted_send hstep
    rw [hbefore, hafter]
    exact List.prefix_append _ _
  | receive | network =>
    obtain rfl := Option.some.inj hstep
    exact List.prefix_rfl
  | elsewhere e =>
    rw [next] at hstep
    split_ifs at hstep
    obtain rfl := Option.some.inj hstep
    exact List.prefix_rfl

/-- **A step keeps the invariant**, as long as no counter comes around. -/
theorem Inv.next {l l' : Link κ} {a : LinkAct κ} (h : l.Inv)
    (hstep : l.next encrypt tx rx a = some l') (hbound : l.attempted.length < 2 ^ 64) : l'.Inv := by
  cases a with
  | send data nonce => exact h.send hstep
  | receive => exact h.receive hbound hstep
  | network k =>
    obtain rfl := Option.some.inj hstep
    exact ⟨h.sender, h.receiver, h.key, h.txSeq, h.rxSeq, h.sealed, h.received⟩
  | elsewhere e =>
    rw [Link.next] at hstep
    split_ifs at hstep with hkey
    obtain rfl := Option.some.inj hstep
    refine h.grow rfl rfl h.sender rfl h.txSeq rfl List.prefix_rfl fun e' he' => ?_
    refine (List.mem_append.mp he').imp_right fun hnew hek => ?_
    obtain rfl := List.mem_singleton.mp hnew
    exact absurd hek hkey

/-! ## Whole runs -/

/-- **What is received is what was sent first, in order**, less the line end that `Receive` takes
off — whatever the network does with the frames, and whatever is encrypted elsewhere, for fewer than
`2 ^ 64` payloads.  As long as no `Send` has failed, `attempted` is `sent`; the frame of one that
failed may still have reached the other end, and then it is the last. -/
theorem received_of_exec {l l' : Link κ} {as : List (LinkAct κ)} (hfresh : l.Fresh)
    (hrun : Run.exec (next encrypt tx rx) l as = some l')
    (hbound : l'.attempted.length < 2 ^ 64) :
    ∃ payloads, l'.received = payloads.map stripLineEnd ∧ payloads <+: l'.attempted ∧
      (l'.failed = none → payloads <+: l'.sent) := by
  have hinv : l'.attempted.length < 2 ^ 64 → l'.Inv := by
    refine Run.exec_invariant (I := fun l => l.attempted.length < 2 ^ 64 → l.Inv) ?_
      (fun _ => hfresh.inv) hrun
    intro l₁ a l₂ h₁ hstep hbound₂
    have hle := (attempted_prefix_of_next hstep).length_le
    exact (h₁ (by omega)).next hstep (by omega)
  refine ⟨_, (hinv hbound).received, List.take_prefix _ _, fun hnone => ?_⟩
  have hsent : l'.attempted = l'.sent := by rw [attempted, hnone]; exact List.append_nil _
  exact hsent ▸ List.take_prefix _ _

/-- A channel just secured, over a queue. -/
def secured : Link Bytes where
  sender := Proto.secured
  receiver := Proto.secured
  net := []

theorem fresh_secured : secured.Fresh :=
  ⟨rfl, rfl, rfl, rfl, rfl, fun _ h => absurd h List.not_mem_nil, rfl, rfl, rfl⟩

/-- A command is sent, received, and its frame delivered once more. -/
def replay : List (LinkAct Bytes) :=
  let nonce := List.replicate nonceSize 7
  [.send (lit "NOOP\r\n") nonce, .receive,
    .network (Proto.secured.send markAead pipe nonce [] (lit "NOOP\r\n")).2.2, .receive]

theorem received_replay :
    ∃ l', Run.exec (next markAead.encrypt pipe pipe) secured replay = some l' ∧
      l'.received = [lit "NOOP"] ∧ ∃ payloads, l'.received = payloads.map stripLineEnd ∧
        payloads <+: l'.attempted ∧ (l'.failed = none → payloads <+: l'.sent) := by
  have hrun : ∃ l', Run.exec (next markAead.encrypt pipe pipe) secured replay = some l' ∧
      l'.received = [lit "NOOP"] ∧ l'.attempted.length < 2 ^ 64 := ⟨_, rfl, by decide, by decide⟩
  obtain ⟨l', hexec, hreceived, hbound⟩ := hrun
  exact ⟨l', hexec, hreceived, received_of_exec fresh_secured hexec hbound⟩

end Link

end MailStack.Proto
