import MailStack.Proto.Ordering

/-!
# Proto/Handshake — both ends of a secured channel, from `StartTLS` on

    client: plain ──key sent──▸ ──key received──▸ secured ⟷ secured ◂──key sent── ◂──key received── plain : server

The two ends exchange public keys in the clear and derive a key for each direction.  The network does
as it likes, with the keys too, so an end may have been given another key than the one that was
sent.  Then it shares no key with the other end.  An end that was given the right one receives what
the other one sent, in order, and nothing else: `payloads_of_exec`.

`crypto_kx` is the parameter `Kx`; as in `Proto/Ordering` the AEAD is ideal, and others may encrypt
under any key but those of the two ends.
-/

open Bytes

namespace MailStack.Proto

/-- `crypto_kx`: the public key of a secret one, and the session keys, `rx` before `tx`; none where
the other key is not acceptable. -/
structure Kx where
  publicKey : Bytes → Bytes
  clientSessionKeys : (publicKey secretKey other : Bytes) → Option (Bytes × Bytes)
  serverSessionKeys : (publicKey secretKey other : Bytes) → Option (Bytes × Bytes)

/-- `crypto_kx_PUBLICKEYBYTES`. -/
def publicKeyBytes : ℕ := 32

inductive Role
  | client
  | server
  deriving DecidableEq, Repr

def Role.other : Role → Role
  | client => server
  | server => client

@[simp] theorem Role.other_other (r : Role) : r.other.other = r := by cases r <;> rfl

/-- `DeriveKeys`, of the client and of the server. -/
def Kx.derive (X : Kx) : Role → (secretKey other : Bytes) → Option (Bytes × Bytes)
  | .client, secretKey, other => X.clientSessionKeys (X.publicKey secretKey) secretKey other
  | .server, secretKey, other => X.serverSessionKeys (X.publicKey secretKey) secretKey other

/-- What is known of the key exchange: the two ends derive the same keys, crosswise; a key that both
have is one of the two keys they were both meant to have; and none is for both directions. -/
structure Kx.Lawful (X : Kx) : Prop where
  agree : ∀ c s, X.derive .server s (X.publicKey c) =
    (X.derive .client c (X.publicKey s)).map Prod.swap
  bound : ∀ {c s other other' rx tx rx' tx'}, X.derive .client c other = some (rx, tx) →
    X.derive .server s other' = some (rx', tx') → tx = rx' ∨ rx = tx' →
      other = X.publicKey s ∧ other' = X.publicKey c
  apart : ∀ {c s other other' rx tx rx' tx'}, X.derive .client c other = some (rx, tx) →
    X.derive .server s other' = some (rx', tx') → tx ≠ tx'

/-- How far an end is with `StartTLS`. -/
inductive Stage
  | plain
  | keySent
  | keyReceived (key : Bytes)
  | secured (peer : Bytes)
  | failed
  deriving DecidableEq, Repr

/-- One end: its channel, and what happened since it was secured. -/
structure End where
  channel : SecureChannel := {}
  stage : Stage := .plain
  /-- The payloads of the `Send`s that returned true. -/
  sent : List Bytes := []
  /-- The payload of the `Send` that returned false, which ended the connection. -/
  failed : Option Bytes := none
  /-- What the `Receive`s that returned true returned. -/
  received : List Bytes := []

/-- The payloads handed to `Send`. -/
def End.attempted (e : End) : List Bytes := e.sent ++ e.failed.toList

/-- The two ends, the network between them, and what was encrypted. -/
structure Session (κ : Type*) where
  ends : Role → End := fun _ => {}
  net : κ
  sealed : List Sealed := []

/-! ## `StartTLS` -/

section StartTLS

variable {κ : Type*} (X : Kx) (conn : IConnection κ)

/-- `ClientSecureChannel::StartTLS`: the client's key is sent. -/
def clientHello (secretKey : Bytes) (k : κ) : Stage × κ :=
  match conn.sendRaw k (X.publicKey secretKey) with
  | (false, k₁) => (.failed, k₁)
  | (true, k₁) => (.keySent, k₁)

/-- The rest of it: the server's key is received. -/
def clientFinish (c : SecureChannel) (secretKey : Bytes) (k : κ) : Stage × SecureChannel × κ :=
  match conn.receiveRaw k publicKeyBytes with
  | (none, k₁) => (.failed, c, k₁)
  | (some key, k₁) =>
    match X.derive .client secretKey key with
    | none => (.failed, c, k₁)
    | some (rx, tx) => (.secured key, { c with rxKey := rx, txKey := tx, secure := true }, k₁)

/-- `ServerSecureChannel::StartTLS`: the client's key is received. -/
def serverHello (k : κ) : Stage × κ :=
  match conn.receiveRaw k publicKeyBytes with
  | (none, k₁) => (.failed, k₁)
  | (some key, k₁) => (.keyReceived key, k₁)

/-- The rest of it: the server's key is sent. -/
def serverFinish (c : SecureChannel) (secretKey key : Bytes) (k : κ) : Stage × SecureChannel × κ :=
  match X.derive .server secretKey key with
  | none => (.failed, c, k)
  | some (rx, tx) =>
    match conn.sendRaw k (X.publicKey secretKey) with
    | (false, k₁) => (.failed, { c with rxKey := rx, txKey := tx }, k₁)
    | (true, k₁) => (.secured key, { c with rxKey := rx, txKey := tx, secure := true }, k₁)

/-- One half of `StartTLS`, the first or the second.  A channel that is secure refuses it. -/
def startTLS (r : Role) (secretKey : Bytes) (e : End) (k : κ) : End × κ :=
  match e.stage, r with
  | .plain, .client =>
    let (stage, k₁) := clientHello X conn secretKey k
    ({ e with stage }, k₁)
  | .plain, .server =>
    let (stage, k₁) := serverHello conn k
    ({ e with stage }, k₁)
  | .keySent, .client =>
    let (stage, channel, k₁) := clientFinish X conn e.channel secretKey k
    ({ e with stage, channel }, k₁)
  | .keyReceived key, .server =>
    let (stage, channel, k₁) := serverFinish X conn e.channel secretKey key k
    ({ e with stage, channel }, k₁)
  | _, _ => (e, k)

end StartTLS

namespace Session

variable {κ : Type*} (X : Kx) (encrypt : (key ad nonce message : Bytes) → Option Bytes)
  (conn : Role → IConnection κ) (secret : Role → Bytes)

/-- An end moves on. -/
def put (s : Session κ) (r : Role) (e : End) (k : κ) : Session κ :=
  { s with ends := Function.update s.ends r e, net := k }

/-- `Send` of one end, and what it returns. -/
def send (s : Session κ) (r : Role) (data nonce : Bytes) : Bool × Session κ :=
  let e := s.ends r
  let out := e.channel.send (ideal encrypt s.sealed) (conn r) nonce s.net data
  let e' : End :=
    if e.channel.secure then
      { e with
        channel := out.2.1
        sent := if out.1 then e.sent ++ [data] else e.sent
        failed := if out.1 then none else some data }
    else e
  (out.1, { s.put r e' out.2.2 with
    sealed := s.sealed ++ Link.seals encrypt e.channel nonce data })

/-- `Receive` of one end, and what it returns. -/
def receive (s : Session κ) (r : Role) : Option Bytes × Session κ :=
  let e := s.ends r
  let out := e.channel.receive (ideal encrypt s.sealed) (conn r) s.net
  let e' : End :=
    if e.channel.secure then
      { e with channel := out.2.1, received := e.received ++ out.1.toList }
    else e
  (out.1, s.put r e' out.2.2)

/-- The keys that the two ends are meant to have, and no one else. -/
def isPairKey (key : Bytes) : Bool :=
  (X.derive .client (secret .client) (X.publicKey (secret .server))).any fun ks =>
    key = ks.1 ∨ key = ks.2

end Session

/-- A step: of an end, of the network, or an encryption elsewhere. -/
inductive SessionAct (κ : Type*)
  | startTLS (r : Role)
  | send (r : Role) (data nonce : Bytes)
  | receive (r : Role)
  | network (k : κ)
  | elsewhere (e : Sealed)

namespace Session

variable {κ : Type*} (X : Kx) (encrypt : (key ad nonce message : Bytes) → Option Bytes)
  (conn : Role → IConnection κ) (secret : Role → Bytes)

/-- The end may call `Send` and `Receive`: it is not within `StartTLS`, and no `Send` has failed. -/
def Open (e : End) : Bool :=
  match e.stage with
  | .plain | .secured _ => e.failed.isNone
  | _ => false

/-- One step. -/
def next (s : Session κ) : SessionAct κ → Option (Session κ)
  | .startTLS r =>
    let out := startTLS X (conn r) r (secret r) (s.ends r) s.net
    some (s.put r out.1 out.2)
  | .send r data nonce =>
    if Open (s.ends r) then some (s.send encrypt conn r data nonce).2 else none
  | .receive r => if Open (s.ends r) then some (s.receive encrypt conn r).2 else none
  | .network k => some { s with net := k }
  | .elsewhere e => if isPairKey X secret e.key then none else some { s with sealed := s.sealed ++ [e] }

/-- The state of a connection that was just made. -/
def fresh (k : κ) : Session κ := { net := k }

end Session

/-! ## One end -/

/-- What holds of an end: its keys are those it derived for its peer, and its counters count. -/
structure End.Inv (X : Kx) (r : Role) (secretKey : Bytes) (e : End) : Prop where
  secure : e.channel.secure = true ↔ ∃ peer, e.stage = .secured peer
  keys : ∀ peer, e.stage = .secured peer →
    X.derive r secretKey peer = some (e.channel.rxKey, e.channel.txKey)
  txSeq : e.channel.txSeq = UInt64.ofNat e.sent.length
  rxSeq : e.channel.rxSeq = UInt64.ofNat e.received.length
  quiet : e.channel.secure = false → e.attempted = [] ∧ e.received = []

/-- An end that has not begun keeps its invariant. -/
theorem End.inv_fresh (X : Kx) (r : Role) (secretKey : Bytes) : ({} : End).Inv X r secretKey where
  secure := by simp
  keys := by simp
  txSeq := rfl
  rxSeq := rfl
  quiet _ := ⟨rfl, rfl⟩

section StartTLS

variable {κ : Type*} {X : Kx} {conn : IConnection κ} {r : Role} {secretKey : Bytes} {e : End}

variable (X conn secretKey) in
/-- The client's second half fails or sets the two keys it derives. -/
theorem clientFinish_cases (c : SecureChannel) (k : κ) :
    (∃ k₁, clientFinish X conn c secretKey k = (.failed, c, k₁)) ∨
      ∃ key rx tx k₁, X.derive .client secretKey key = some (rx, tx) ∧
        clientFinish X conn c secretKey k =
          (.secured key, { c with rxKey := rx, txKey := tx, secure := true }, k₁) := by
  unfold clientFinish
  split
  · exact .inl ⟨_, rfl⟩
  · split
    · exact .inl ⟨_, rfl⟩
    · exact .inr ⟨_, _, _, _, ‹_›, rfl⟩

variable (X conn secretKey) in
/-- The server's second half fails, though it may have set its keys, or ends secured. -/
theorem serverFinish_cases (c : SecureChannel) (key : Bytes) (k : κ) :
    (∃ rx tx k₁, serverFinish X conn c secretKey key k =
        (.failed, { c with rxKey := rx, txKey := tx }, k₁)) ∨
      ∃ rx tx k₁, X.derive .server secretKey key = some (rx, tx) ∧
        serverFinish X conn c secretKey key k =
          (.secured key, { c with rxKey := rx, txKey := tx, secure := true }, k₁) := by
  unfold serverFinish
  split
  · exact .inl ⟨c.rxKey, c.txKey, k, rfl⟩
  · split
    · exact .inl ⟨_, _, _, rfl⟩
    · exact .inr ⟨_, _, _, ‹_›, rfl⟩

variable (X conn r secretKey e) in
/-- **What half of a `StartTLS` can do** to an end that is not secure: it goes on or fails, or it has
derived its keys. -/
theorem startTLS_cases (k : κ) : (startTLS X conn r secretKey e k).1 = e ∨
    (∃ stage rx tx, (∀ peer, stage ≠ .secured peer) ∧ (∀ peer, e.stage ≠ .secured peer) ∧
      (startTLS X conn r secretKey e k).1 =
        { e with stage, channel := { e.channel with rxKey := rx, txKey := tx } }) ∨
      ∃ peer rx tx, (∀ peer, e.stage ≠ .secured peer) ∧
        X.derive r secretKey peer = some (rx, tx) ∧
        (startTLS X conn r secretKey e k).1 = { e with
          stage := .secured peer
          channel := { e.channel with rxKey := rx, txKey := tx, secure := true } } := by
  obtain ⟨c, stage, sent, failed, received⟩ := e
  cases stage with
  | plain =>
    refine .inr (.inl ?_)
    cases r with
    | client =>
      simp only [startTLS, clientHello]
      split <;> exact ⟨_, c.rxKey, c.txKey, by simp, by simp, rfl⟩
    | server =>
      simp only [startTLS, serverHello]
      split <;> exact ⟨_, c.rxKey, c.txKey, by simp, by simp, rfl⟩
  | keySent =>
    cases r with
    | client =>
      simp only [startTLS]
      rcases clientFinish_cases X conn secretKey c k with
        ⟨k₁, hfinish⟩ | ⟨key, rx, tx, k₁, hkeys, hfinish⟩ <;> rw [hfinish]
      · exact .inr (.inl ⟨_, c.rxKey, c.txKey, by simp, by simp, rfl⟩)
      · exact .inr (.inr ⟨key, rx, tx, by simp, hkeys, rfl⟩)
    | server => exact .inl rfl
  | keyReceived key =>
    cases r with
    | client => exact .inl rfl
    | server =>
      simp only [startTLS]
      rcases serverFinish_cases X conn secretKey c key k with
        ⟨rx, tx, k₁, hfinish⟩ | ⟨rx, tx, k₁, hkeys, hfinish⟩ <;> rw [hfinish]
      · exact .inr (.inl ⟨_, rx, tx, by simp, by simp, rfl⟩)
      · exact .inr (.inr ⟨key, rx, tx, by simp, hkeys, rfl⟩)
  | secured peer | failed => cases r <;> exact .inl rfl

/-- One step of the handshake keeps the invariant of its end. -/
theorem End.Inv.startTLS (h : e.Inv X r secretKey) (k : κ) :
    (startTLS X conn r secretKey e k).1.Inv X r secretKey := by
  have hplain : (∀ peer, e.stage ≠ .secured peer) → e.channel.secure = false := fun hnot => by
    rw [Bool.eq_false_iff]
    exact fun hsecure => let ⟨peer, hpeer⟩ := h.secure.mp hsecure; hnot peer hpeer
  rcases startTLS_cases X conn r secretKey e k with
    hsame | ⟨stage, rx, tx, hstage, hnot, hnext⟩ | ⟨peer, rx, tx, hnot, hkeys, hnext⟩
  · rw [hsame]
    exact h
  · rw [hnext]
    refine ⟨?_, fun peer hpeer => absurd hpeer (hstage peer), h.txSeq, h.rxSeq, h.quiet⟩
    refine iff_of_false ?_ fun ⟨peer, hpeer⟩ => hstage peer hpeer
    rw [hplain hnot]
    decide
  · rw [hnext]
    refine ⟨iff_of_true rfl ⟨peer, rfl⟩, fun peer' hpeer => ?_, h.txSeq, h.rxSeq, fun hfalse => ?_⟩
    · obtain rfl := Stage.secured.inj hpeer
      exact hkeys
    · cases hfalse

variable (X conn r secretKey e) in
/-- It leaves what was sent and received. -/
theorem startTLS_same (k : κ) : (startTLS X conn r secretKey e k).1.attempted = e.attempted ∧
    (startTLS X conn r secretKey e k).1.received = e.received := by
  rcases startTLS_cases X conn r secretKey e k with
    hsame | ⟨_, _, _, -, -, hnext⟩ | ⟨_, _, _, -, -, hnext⟩
  · rw [hsame]
    exact ⟨rfl, rfl⟩
  · rw [hnext]
    exact ⟨rfl, rfl⟩
  · rw [hnext]
    exact ⟨rfl, rfl⟩

end StartTLS

/-! ## Both ends -/

/-- What one end derives the other derives with the two keys exchanged. -/
theorem Kx.Lawful.swap {X : Kx} (hX : X.Lawful) (r : Role) {a b rx tx : Bytes}
    (h : X.derive r a (X.publicKey b) = some (rx, tx)) :
    X.derive r.other b (X.publicKey a) = some (tx, rx) := by
  cases r with
  | client =>
    change X.derive .server b (X.publicKey a) = _
    rw [hX.agree, h]
    rfl
  | server =>
    rw [hX.agree] at h
    obtain ⟨⟨rx', tx'⟩, hkeys, hswap⟩ := Option.map_eq_some_iff.mp h
    obtain ⟨rfl, rfl⟩ := Prod.mk.inj hswap
    exact hkeys

/-- The two ends never seal with the same key. -/
theorem Kx.Lawful.tx_ne {X : Kx} (hX : X.Lawful) (r : Role) {a b peer peer' rx tx rx' tx' : Bytes}
    (h : X.derive r a peer = some (rx, tx)) (h' : X.derive r.other b peer' = some (rx', tx')) :
    tx ≠ tx' := by
  cases r with
  | client => exact hX.apart h h'
  | server => exact (hX.apart h' h).symm

namespace Session

variable {κ : Type*} {X : Kx} {encrypt : (key ad nonce message : Bytes) → Option Bytes}
  {conn : Role → IConnection κ} {secret : Role → Bytes} {s s' : Session κ} {r : Role}

/-- The invariant.  Under the key of an end for the other one nothing but its payloads is sealed, each
under its own number, and who has that key has opened an initial part of them. -/
structure Inv (X : Kx) (secret : Role → Bytes) (s : Session κ) : Prop where
  ends : ∀ r, (s.ends r).Inv X r (secret r)
  sealed : ∀ r rx tx, X.derive r (secret r) (X.publicKey (secret r.other)) = some (rx, tx) →
    ∀ e ∈ s.sealed, e.key = tx →
      ∃ i, (s.ends r).attempted[i]? = some e.message ∧ e.ad = seqBytes (UInt64.ofNat i)
  received : ∀ r, (s.ends r).stage = .secured (X.publicKey (secret r.other)) →
    (s.ends r).received =
      ((s.ends r.other).attempted.take (s.ends r).received.length).map stripLineEnd

/-- A session that has not begun keeps the invariant. -/
theorem inv_fresh (k : κ) : (fresh k).Inv X secret where
  ends r := End.inv_fresh X r (secret r)
  sealed _ _ _ _ e he := absurd he List.not_mem_nil
  received _ h := by cases h

/-- An end has received no more than the other has tried to send. -/
theorem Inv.length_le (h : s.Inv X secret)
    (hr : (s.ends r).stage = .secured (X.publicKey (secret r.other))) :
    (s.ends r).received.length ≤ (s.ends r.other).attempted.length := by
  have hlen := congrArg List.length (h.received r hr)
  rw [List.length_map, List.length_take] at hlen
  omega

/-- More is attempted, and more is sealed, each payload under its number. -/
theorem Inv.grow (h : s.Inv X secret) (hends : ∀ r, (s'.ends r).Inv X r (secret r))
    (hmore : ∀ r, (s.ends r).attempted <+: (s'.ends r).attempted)
    (hsealed : ∀ e ∈ s'.sealed, e ∈ s.sealed ∨ ∀ r rx tx,
      X.derive r (secret r) (X.publicKey (secret r.other)) = some (rx, tx) → e.key = tx →
        ∃ i, (s'.ends r).attempted[i]? = some e.message ∧ e.ad = seqBytes (UInt64.ofNat i))
    (hreceived : ∀ r, (s'.ends r).stage = .secured (X.publicKey (secret r.other)) →
      (s'.ends r).received = [] ∨ (s'.ends r).received = (s.ends r).received ∧
        (s.ends r).stage = .secured (X.publicKey (secret r.other))) :
    s'.Inv X secret where
  ends := hends
  sealed r rx tx hkeys e he hkey := by
    rcases hsealed e he with hold | hnew
    · obtain ⟨i, hi, had⟩ := h.sealed r rx tx hkeys e hold hkey
      obtain ⟨rest, hrest⟩ := hmore r
      obtain ⟨hlt, -⟩ := List.getElem?_eq_some_iff.mp hi
      exact ⟨i, by rw [← hrest, List.getElem?_append_left hlt, hi], had⟩
    · exact hnew r rx tx hkeys hkey
  received r hr := by
    rcases hreceived r hr with hnil | ⟨hsame, hold⟩
    · rw [hnil]
      rfl
    · obtain ⟨rest, hrest⟩ := hmore r.other
      rw [hsame, ← hrest, List.take_append_of_le_length (h.length_le hold)]
      exact h.received r hold

@[simp] theorem put_ends_self (e : End) (k : κ) : (s.put r e k).ends r = e := Function.update_self ..

theorem put_ends_of_ne {q : Role} (hq : q ≠ r) (e : End) (k : κ) :
    (s.put r e k).ends q = s.ends q := Function.update_of_ne hq ..

/-- What holds of the new end, and of the ends as they were, holds of all. -/
theorem put_ends {P : Role → End → Prop} {e : End} {k : κ} (he : P r e)
    (hs : ∀ q, P q (s.ends q)) (q : Role) : P q ((s.put r e k).ends q) := by
  by_cases hq : q = r
  · subst hq
    rwa [put_ends_self]
  · rw [put_ends_of_ne hq]
    exact hs q

/-- A step of the handshake keeps the invariant of the session. An end that is secured just now
has received nothing. -/
theorem Inv.startTLS (h : s.Inv X secret) (r : Role) :
    (s.put r (startTLS X (conn r) r (secret r) (s.ends r) s.net).1
      (startTLS X (conn r) r (secret r) (s.ends r) s.net).2).Inv X secret := by
  obtain ⟨hattempted, hreceived⟩ := startTLS_same X (conn r) r (secret r) (s.ends r) s.net
  refine h.grow (put_ends ((h.ends r).startTLS s.net) h.ends) ?_ (fun e he => .inl he) ?_
  · refine put_ends (P := fun q e => (s.ends q).attempted <+: e.attempted) ?_ fun q => List.prefix_rfl
    exact hattempted ▸ List.prefix_rfl
  · refine put_ends (P := fun q e => e.stage = .secured (X.publicKey (secret q.other)) →
      e.received = [] ∨ e.received = (s.ends q).received ∧
        (s.ends q).stage = .secured (X.publicKey (secret q.other))) (fun hstage => ?_)
      fun q hq => .inr ⟨rfl, hq⟩
    by_cases hsecure : ∃ peer, (s.ends r).stage = .secured peer
    · obtain ⟨peer, hpeer⟩ := hsecure
      have hsame : (Proto.startTLS X (conn r) r (secret r) (s.ends r) s.net).1 = s.ends r := by
        rcases startTLS_cases X (conn r) r (secret r) (s.ends r) s.net with
          hsame | ⟨_, _, _, -, hnot, -⟩ | ⟨_, _, _, hnot, -⟩
        · exact hsame
        · exact absurd hpeer (hnot peer)
        · exact absurd hpeer (hnot peer)
      exact .inr ⟨hreceived, hsame ▸ hstage⟩
    · refine .inl ?_
      rw [hreceived]
      exact ((h.ends r).quiet (Bool.eq_false_iff.mpr (mt (h.ends r).secure.mp hsecure))).2

/-! ### `Send` -/

/-- What an end seals, it seals with its sending key. -/
theorem key_of_mem_seals {c : SecureChannel} {nonce data : Bytes} {e : Sealed}
    (h : e ∈ Link.seals encrypt c nonce data) : c.secure = true ∧ e.key = c.txKey := by
  rw [Link.seals] at h
  split_ifs at h with hsecure
  · obtain ⟨text, -, rfl⟩ := List.mem_map.mp h
    exact ⟨hsecure.1, rfl⟩
  · exact absurd h List.not_mem_nil

theorem send_ends_of_ne {q : Role} (hq : q ≠ r) (data nonce : Bytes) :
    (s.send encrypt conn r data nonce).2.ends q = s.ends q := Function.update_of_ne hq ..

theorem failed_of_open {e : End} (h : Open e = true) : e.failed = none := by
  unfold Open at h
  split at h
  · exact Option.isNone_iff_eq_none.mp h
  · exact Option.isNone_iff_eq_none.mp h
  · cases h

variable (encrypt conn) in
/-- Whether its frame goes out or not, the payload stands behind those before it. -/
theorem attempted_send (hopen : Open (s.ends r) = true) (data nonce : Bytes) :
    ((s.send encrypt conn r data nonce).2.ends r).attempted =
      (s.ends r).attempted ++ if (s.ends r).channel.secure then [data] else [] := by
  have hends : (s.send encrypt conn r data nonce).2.ends r = _ := Function.update_self ..
  rw [hends, End.attempted, End.attempted, failed_of_open hopen]
  by_cases hsecure : (s.ends r).channel.secure = true
  · simp only [if_pos hsecure, Option.toList_none, List.append_nil]
    split_ifs
    · exact List.append_nil _
    · rfl
  · simp [hsecure, failed_of_open hopen]

variable (encrypt conn) in
/-- What a `Send` leaves of the end. -/
theorem send_end (h : (s.ends r).Inv X r (secret r)) (data nonce : Bytes) :
    ((s.send encrypt conn r data nonce).2.ends r).Inv X r (secret r) ∧
      ((s.send encrypt conn r data nonce).2.ends r).stage = (s.ends r).stage ∧
      ((s.send encrypt conn r data nonce).2.ends r).received = (s.ends r).received := by
  have hends : (s.send encrypt conn r data nonce).2.ends r = _ := Function.update_self ..
  rw [hends]
  by_cases hsecure : (s.ends r).channel.secure = true
  · have hquiet : (s.ends r).channel.secure ≠ false := by rw [hsecure]; decide
    simp only [if_pos hsecure]
    rcases hsend : (s.ends r).channel.send (ideal encrypt s.sealed) (conn r) nonce s.net data with
      ⟨ok, c', k'⟩
    rcases SecureChannel.send_cases hsecure hsend with ⟨rfl, rfl⟩ | ⟨rfl, rfl, -⟩
    · exact ⟨⟨h.secure, h.keys, h.txSeq, h.rxSeq, fun hfalse => absurd hfalse hquiet⟩, trivial, trivial⟩
    · refine ⟨⟨h.secure, h.keys, ?_, h.rxSeq, fun hfalse => absurd hfalse hquiet⟩, trivial, trivial⟩
      simp only [if_true, List.length_append, List.length_singleton, UInt64.ofNat_add, h.txSeq]
      rfl
  · simp only [if_neg hsecure]
    exact ⟨h, trivial, trivial⟩

/-- Sending keeps the invariant: the nonce of the new seal is fresh. The two ends have no key in
common to encrypt with. -/
theorem Inv.send (hX : X.Lawful) (h : s.Inv X secret) (hopen : Open (s.ends r) = true)
    (data nonce : Bytes) : (s.send encrypt conn r data nonce).2.Inv X secret := by
  obtain ⟨hend, hstage, hreceived⟩ :=
    send_end encrypt conn (h.ends r) data nonce
  have hattempted := attempted_send encrypt conn hopen data nonce
  have hother : ∀ q, q ≠ r → (s.send encrypt conn r data nonce).2.ends q = s.ends q := fun q hq =>
    send_ends_of_ne hq ..
  have hmore : ∀ q, (s.ends q).attempted <+: ((s.send encrypt conn r data nonce).2.ends q).attempted :=
    fun q => by
      by_cases hq : q = r
      · subst hq
        rw [hattempted]
        exact List.prefix_append _ _
      · exact hother q hq ▸ List.prefix_rfl
  refine h.grow (fun q => ?_) hmore (fun e he => ?_) fun q hq => .inr ?_
  · by_cases hq : q = r
    · subst hq
      exact hend
    · rw [hother q hq]
      exact h.ends q
  · refine (List.mem_append.mp he).imp_right fun hnew q rx tx hkeys hkey => ?_
    obtain ⟨hsecure, hown⟩ := key_of_mem_seals hnew
    obtain ⟨hmessage, had⟩ := Link.of_mem_seals hnew
    obtain ⟨peer, hpeer⟩ := (h.ends r).secure.mp hsecure
    have hkeys' := (h.ends r).keys peer hpeer
    by_cases hq : q = r
    · subst hq
      refine ⟨(s.ends q).sent.length, ?_, by rw [had, (h.ends q).txSeq]⟩
      rw [hattempted, if_pos hsecure, hmessage, End.attempted, failed_of_open hopen]
      simp
    · have hswap : q = r.other := by cases q <;> cases r <;> first | rfl | exact absurd rfl hq
      subst hswap
      exact absurd (hown.symm.trans hkey) (hX.tx_ne r hkeys' hkeys)
  · by_cases hqr : q = r
    · subst hqr
      exact ⟨hreceived, hstage ▸ hq⟩
    · rw [hother q hqr] at hq ⊢
      exact ⟨rfl, hq⟩

variable (encrypt conn) in
/-- In the clear a `Send` leaves the end as it is. -/
theorem send_ends_of_plain (h : (s.ends r).channel.secure = false) (data nonce : Bytes) :
    (s.send encrypt conn r data nonce).2.ends r = s.ends r := by
  have hends : (s.send encrypt conn r data nonce).2.ends r = _ := Function.update_self ..
  rw [hends, if_neg (by rw [h]; decide)]

theorem open_congr {e e' : End} (hstage : e'.stage = e.stage) (hfailed : e'.failed = e.failed) :
    Open e' = Open e := by
  unfold Open
  rw [hstage, hfailed]

variable (encrypt conn s r) in
/-- Sending changes nothing of what the end receives with. -/
theorem send_same (data nonce : Bytes) :
    ((s.send encrypt conn r data nonce).2.ends r).channel.secure = (s.ends r).channel.secure ∧
    ((s.send encrypt conn r data nonce).2.ends r).received = (s.ends r).received := by
  have hends : (s.send encrypt conn r data nonce).2.ends r = _ := Function.update_self ..
  rw [hends]
  by_cases hsecure : (s.ends r).channel.secure = true
  · rw [if_pos hsecure]
    rcases hsend : (s.ends r).channel.send (ideal encrypt s.sealed) (conn r) nonce s.net data with
      ⟨ok, c', k'⟩
    rcases SecureChannel.send_cases hsecure hsend with ⟨-, rfl⟩ | ⟨-, rfl, -⟩
    · exact ⟨rfl, rfl⟩
    · exact ⟨rfl, rfl⟩
  · rw [if_neg hsecure]
    exact ⟨rfl, rfl⟩

/-- A `Send` that succeeds leaves the end open. -/
theorem open_send (hopen : Open (s.ends r) = true) {data nonce : Bytes}
    (hsend : (s.send encrypt conn r data nonce).1 = true) :
    Open ((s.send encrypt conn r data nonce).2.ends r) = true := by
  have hends : (s.send encrypt conn r data nonce).2.ends r = _ := Function.update_self ..
  have hout : ((s.ends r).channel.send (ideal encrypt s.sealed) (conn r) nonce s.net data).1 = true :=
    hsend
  rw [hends]
  by_cases hsecure : (s.ends r).channel.secure = true
  · rw [if_pos hsecure]
    refine Eq.trans (open_congr (e := s.ends r) ?_ ?_) hopen
    · rfl
    · exact (if_pos hout).trans (failed_of_open hopen).symm
  · rw [if_neg hsecure]
    exact hopen

/-! ### `Receive` -/

variable (encrypt conn) in
/-- What a `Receive` leaves of the end: nothing is new, or it has opened what was sealed for it. -/
theorem receive_cases (s : Session κ) (r : Role) :
    (s.receive encrypt conn r).2.ends r = s.ends r ∨
      ∃ e ∈ s.sealed, (s.ends r).channel.secure = true ∧ e.key = (s.ends r).channel.rxKey ∧
        e.ad = seqBytes (s.ends r).channel.rxSeq ∧
        (s.receive encrypt conn r).2.ends r = { s.ends r with
          channel := { (s.ends r).channel with rxSeq := (s.ends r).channel.rxSeq + 1 }
          received := (s.ends r).received ++ [stripLineEnd e.message] } := by
  have hends : (s.receive encrypt conn r).2.ends r = _ := put_ends_self ..
  rw [hends]
  by_cases hsecure : (s.ends r).channel.secure = true
  · simp only [if_pos hsecure]
    rcases hreceive : (s.ends r).channel.receive (ideal encrypt s.sealed) (conn r) s.net with
      ⟨out, c', k'⟩
    rcases SecureChannel.receive_cases hsecure hreceive with ⟨rfl, rfl⟩ | ⟨text, plain, hopen, rfl, rfl⟩
    · refine .inl ?_
      simp
    · obtain ⟨e, he, hkey, had, rfl⟩ := mem_of_ideal_decrypt hopen
      exact .inr ⟨e, he, hsecure, hkey, had, rfl⟩
  · exact .inl (by simp only [if_neg hsecure])

variable (encrypt conn s r) in
/-- All that it changes is what was received, and the counter. -/
theorem receive_same : ((s.receive encrypt conn r).2.ends r).channel.secure = (s.ends r).channel.secure ∧
    ((s.receive encrypt conn r).2.ends r).attempted = (s.ends r).attempted ∧
    Open ((s.receive encrypt conn r).2.ends r) = Open (s.ends r) := by
  rcases receive_cases encrypt conn s r with hsame | ⟨e, -, -, -, -, hnext⟩
  · rw [hsame]
    exact ⟨rfl, rfl, rfl⟩
  · rw [hnext]
    exact ⟨rfl, rfl, rfl⟩

variable (encrypt conn) in
/-- On a secure channel it keeps what it returns. -/
theorem received_receive (h : (s.ends r).channel.secure = true) :
    ((s.receive encrypt conn r).2.ends r).received =
      (s.ends r).received ++ (s.receive encrypt conn r).1.toList := by
  have hends : (s.receive encrypt conn r).2.ends r = _ := put_ends_self ..
  rw [hends, if_pos h]
  rfl

theorem receive_ends_of_ne {q : Role} (hq : q ≠ r) :
    (s.receive encrypt conn r).2.ends q = s.ends q := Function.update_of_ne hq ..

/-- What a `Receive` leaves of the end. -/
theorem receive_end (h : (s.ends r).Inv X r (secret r)) :
    ((s.receive encrypt conn r).2.ends r).Inv X r (secret r) := by
  rcases receive_cases encrypt conn s r with
    hsame | ⟨e, -, hsecure, -, -, hnext⟩
  · rw [hsame]
    exact h
  · rw [hnext]
    refine ⟨h.secure, h.keys, h.txSeq, ?_, fun hfalse => ?_⟩
    · rw [List.length_append, List.length_singleton, UInt64.ofNat_add, ← h.rxSeq]
      rfl
    · rw [hsecure] at hfalse
      cases hfalse

/-- **What opens under the counter `n` is the payload `n`**, as long as no counter comes around. -/
theorem Inv.receive (hX : X.Lawful) (h : s.Inv X secret) (r : Role)
    (hbound : (s.ends r.other).attempted.length < 2 ^ 64) :
    (s.receive encrypt conn r).2.Inv X secret := by
  have hother : ∀ q, q ≠ r → (s.receive encrypt conn r).2.ends q = s.ends q := fun q hq =>
    receive_ends_of_ne hq
  rcases receive_cases encrypt conn s r with
    hsame | ⟨e, he, hsecure, hkey, had, hnext⟩
  · have hall : ∀ q, (s.receive encrypt conn r).2.ends q = s.ends q := fun q => by
      by_cases hq : q = r
      · rw [hq, hsame]
      · exact hother q hq
    refine h.grow (fun q => ?_) (fun q => ?_) (fun e he => .inl he) fun q hq => .inr ⟨?_, ?_⟩
    · rw [hall]
      exact h.ends q
    · exact hall _ ▸ List.prefix_rfl
    · rw [hall]
    · rw [hall] at hq
      exact hq
  · have hattempted : ∀ q, ((s.receive encrypt conn r).2.ends q).attempted = (s.ends q).attempted :=
      fun q => by
        by_cases hq : q = r
        · rw [hq, hnext]
          rfl
        · rw [hother q hq]
    refine ⟨fun q => ?_, fun q rx tx hkeys e he hkey => ?_, fun q hq => ?_⟩
    · by_cases hq : q = r
      · subst hq
        exact receive_end (h.ends q)
      · rw [hother q hq]
        exact h.ends q
    · rw [hattempted]
      exact h.sealed q rx tx hkeys e he hkey
    · rw [hattempted]
      by_cases hqr : q = r
      · subst hqr
        rw [hnext] at hq ⊢
        have hle := h.length_le hq
        have hkeys := (h.ends q).keys _ hq
        have hplaced := h.sealed q.other _ _ (by rw [Role.other_other]; exact hX.swap q hkeys) e he hkey
        obtain ⟨i, hi, hseq⟩ := hplaced
        obtain ⟨hlt, -⟩ := List.getElem?_eq_some_iff.mp hi
        obtain rfl : i = (s.ends q).received.length := by
          refine Link.seqBytes_injOn (by omega) (by omega) ?_
          rw [← hseq, had, (h.ends q).rxSeq]
        have htake : (s.ends q.other).attempted.take ((s.ends q).received.length + 1) =
            (s.ends q.other).attempted.take (s.ends q).received.length ++ [e.message] := by
          rw [List.take_add_one, hi]
          rfl
        simp only [List.length_append, List.length_singleton]
        rw [htake, List.map_append, ← h.received q hq]
        rfl
      · rw [hother q hqr] at hq ⊢
        exact h.received q hq

/-! ## Whole runs -/

/-- Every step keeps the invariant of each end. -/
theorem ends_next (h : ∀ r, (s.ends r).Inv X r (secret r)) {a : SessionAct κ}
    (hstep : s.next X encrypt conn secret a = some s') (r : Role) :
    (s'.ends r).Inv X r (secret r) := by
  cases a with
  | startTLS q =>
    obtain rfl := Option.some.inj hstep
    exact put_ends ((h q).startTLS s.net) h r
  | send q data nonce =>
    rw [next] at hstep
    split_ifs at hstep
    obtain rfl := Option.some.inj hstep
    by_cases hr : r = q
    · subst hr
      exact (send_end encrypt conn (h r) data nonce).1
    · rw [send_ends_of_ne hr]
      exact h r
  | receive q =>
    rw [next] at hstep
    split_ifs at hstep
    obtain rfl := Option.some.inj hstep
    by_cases hr : r = q
    · subst hr
      exact receive_end (h r)
    · rw [receive_ends_of_ne hr]
      exact h r
  | network k =>
    obtain rfl := Option.some.inj hstep
    exact h r
  | elsewhere e =>
    rw [next] at hstep
    split_ifs at hstep
    obtain rfl := Option.some.inj hstep
    exact h r

/-- So does every run. -/
theorem ends_of_exec {k : κ} {acts : List (SessionAct κ)}
    (hrun : Run.exec (next X encrypt conn secret) (fresh k) acts = some s) (r : Role) :
    (s.ends r).Inv X r (secret r) :=
  Run.exec_invariant (I := fun s : Session κ => ∀ r, (s.ends r).Inv X r (secret r))
    (fun _ _ _ h hstep => ends_next h hstep) (fun r => End.inv_fresh X r (secret r)) hrun r

/-- What an end has tried to send is never taken back. -/
theorem attempted_prefix_of_next {a : SessionAct κ}
    (hstep : s.next X encrypt conn secret a = some s') (r : Role) :
    (s.ends r).attempted <+: (s'.ends r).attempted := by
  cases a with
  | startTLS q =>
    obtain rfl := Option.some.inj hstep
    refine put_ends (P := fun r e => (s.ends r).attempted <+: e.attempted) ?_
      (fun r => List.prefix_rfl) r
    exact (startTLS_same X (conn q) q (secret q) (s.ends q) s.net).1 ▸ List.prefix_rfl
  | send q data nonce =>
    rw [next] at hstep
    split_ifs at hstep with hopen
    obtain rfl := Option.some.inj hstep
    by_cases hr : r = q
    · subst hr
      rw [attempted_send encrypt conn hopen]
      exact List.prefix_append _ _
    · exact send_ends_of_ne hr .. ▸ List.prefix_rfl
  | receive q =>
    rw [next] at hstep
    split_ifs at hstep
    obtain rfl := Option.some.inj hstep
    by_cases hr : r = q
    · subst hr
      rcases receive_cases encrypt conn s r with
        hsame | ⟨e, -, -, -, -, hnext⟩
      · exact hsame ▸ List.prefix_rfl
      · rw [hnext]
        exact List.prefix_rfl
    · exact receive_ends_of_ne hr ▸ List.prefix_rfl
  | network k =>
    obtain rfl := Option.some.inj hstep
    exact List.prefix_rfl
  | elsewhere e =>
    rw [next] at hstep
    split_ifs at hstep
    obtain rfl := Option.some.inj hstep
    exact List.prefix_rfl

/-- **A step keeps the invariant**, as long as no counter comes around. -/
theorem Inv.next (hX : X.Lawful) (h : s.Inv X secret) {a : SessionAct κ}
    (hstep : s.next X encrypt conn secret a = some s')
    (hbound : ∀ r, (s.ends r).attempted.length < 2 ^ 64) : s'.Inv X secret := by
  cases a with
  | startTLS r =>
    obtain rfl := Option.some.inj hstep
    exact h.startTLS r
  | send r data nonce =>
    rw [Session.next] at hstep
    split_ifs at hstep with hopen
    obtain rfl := Option.some.inj hstep
    exact h.send hX hopen data nonce
  | receive r =>
    rw [Session.next] at hstep
    split_ifs at hstep
    obtain rfl := Option.some.inj hstep
    exact h.receive hX r (hbound r.other)
  | network k =>
    obtain rfl := Option.some.inj hstep
    exact ⟨h.ends, h.sealed, h.received⟩
  | elsewhere e =>
    rw [Session.next] at hstep
    split_ifs at hstep with hpair
    obtain rfl := Option.some.inj hstep
    refine h.grow h.ends (fun _ => List.prefix_rfl) (fun e' he' => ?_) fun q hq => .inr ⟨rfl, hq⟩
    refine (List.mem_append.mp he').imp_right fun hnew q rx tx hkeys hkey => ?_
    obtain rfl := List.mem_singleton.mp hnew
    refine absurd ?_ hpair
    cases q with
    | client =>
      have hkeys' : X.derive .client (secret .client) (X.publicKey (secret .server)) = _ := hkeys
      rw [isPairKey, hkeys']
      simp [hkey]
    | server =>
      have hkeys' : X.derive .client (secret .client) (X.publicKey (secret .server)) = _ :=
        hX.swap .server hkeys
      rw [isPairKey, hkeys']
      simp [hkey]

/-- **The invariant of every run**, as long as the counters do not come round. -/
theorem inv_of_exec (hX : X.Lawful) {k : κ} {acts : List (SessionAct κ)}
    (hrun : Run.exec (next X encrypt conn secret) (fresh k) acts = some s)
    (hbound : ∀ r, (s.ends r).attempted.length < 2 ^ 64) : s.Inv X secret := by
  refine Run.exec_invariant
    (I := fun s : Session κ => (∀ r, (s.ends r).attempted.length < 2 ^ 64) → s.Inv X secret)
    (fun s₁ a s₂ h₁ hstep hbound₂ => ?_) (fun _ => inv_fresh k) hrun hbound
  have hbound₁ : ∀ r, (s₁.ends r).attempted.length < 2 ^ 64 := fun r =>
    Nat.lt_of_le_of_lt (attempted_prefix_of_next hstep r).length_le (hbound₂ r)
  exact (h₁ hbound₁).next hX hstep hbound₁

/-- **What an end receives is what the other end sent first, in order**, if the key it was given in
the handshake is the other end's, whatever the network does and whatever others encrypt, for fewer
than `2 ^ 64` payloads.  And where the network has given one of the two another key, they have no key
in common, in either direction. -/
theorem payloads_of_exec (hX : X.Lawful) {k : κ} {acts : List (SessionAct κ)}
    (hrun : Run.exec (next X encrypt conn secret) (fresh k) acts = some s)
    (hbound : ∀ r, (s.ends r).attempted.length < 2 ^ 64) :
    (∀ r, (s.ends r).stage = .secured (X.publicKey (secret r.other)) →
      ∃ payloads, (s.ends r).received = payloads.map stripLineEnd ∧
        payloads <+: (s.ends r.other).attempted ∧
        ((s.ends r.other).failed = none → payloads <+: (s.ends r.other).sent)) ∧
    ∀ peer peer', (s.ends .client).stage = .secured peer → (s.ends .server).stage = .secured peer' →
      (peer = X.publicKey (secret .server) ∧ peer' = X.publicKey (secret .client) ∧
        (s.ends .client).channel.txKey = (s.ends .server).channel.rxKey ∧
        (s.ends .client).channel.rxKey = (s.ends .server).channel.txKey) ∨
      (s.ends .client).channel.txKey ≠ (s.ends .server).channel.rxKey ∧
        (s.ends .client).channel.rxKey ≠ (s.ends .server).channel.txKey := by
  have hinv := inv_of_exec hX hrun hbound
  refine ⟨fun r hr => ⟨_, hinv.received r hr, List.take_prefix _ _, fun hnone => ?_⟩,
    fun peer peer' hclient hserver => ?_⟩
  · have hsent : (s.ends r.other).attempted = (s.ends r.other).sent := by
      rw [End.attempted, hnone]
      exact List.append_nil _
    exact hsent ▸ List.take_prefix _ _
  · have hkeys := (hinv.ends .client).keys peer hclient
    have hkeys' := (hinv.ends .server).keys peer' hserver
    by_cases hcommon : (s.ends .client).channel.txKey = (s.ends .server).channel.rxKey ∨
        (s.ends .client).channel.rxKey = (s.ends .server).channel.txKey
    · obtain ⟨rfl, rfl⟩ := hX.bound hkeys hkeys' hcommon
      have hswap := hX.swap .client hkeys
      obtain ⟨hrx, htx⟩ := Prod.mk.inj (Option.some.inj (hkeys'.symm.trans hswap))
      exact .inl ⟨rfl, rfl, hrx.symm, htx.symm⟩
    · exact .inr (not_or.mp hcommon)

/-! ## An honest network -/

/-- A stand-in for the key exchange: the keys are made of the two public ones, which are not secret. -/
def openKx : Kx where
  publicKey := id
  clientSessionKeys publicKey _ other :=
    if publicKey.length = publicKeyBytes then
      some (0 :: (publicKey ++ other), 1 :: (publicKey ++ other))
    else none
  serverSessionKeys publicKey _ other :=
    if other.length = publicKeyBytes then some (1 :: (other ++ publicKey), 0 :: (other ++ publicKey))
    else none

theorem derive_client_openKx {c other rx tx : Bytes} (h : openKx.derive .client c other = some (rx, tx)) :
    c.length = publicKeyBytes ∧ rx = 0 :: (c ++ other) ∧ tx = 1 :: (c ++ other) := by
  have hkeys : (if c.length = publicKeyBytes then
      some ((0 : UInt8) :: (c ++ other), (1 : UInt8) :: (c ++ other)) else none) = some (rx, tx) := h
  split_ifs at hkeys with hlen
  obtain ⟨hrx, htx⟩ := Prod.mk.inj (Option.some.inj hkeys)
  exact ⟨hlen, hrx.symm, htx.symm⟩

theorem derive_server_openKx {s other rx tx : Bytes} (h : openKx.derive .server s other = some (rx, tx)) :
    other.length = publicKeyBytes ∧ rx = 1 :: (other ++ s) ∧ tx = 0 :: (other ++ s) := by
  have hkeys : (if other.length = publicKeyBytes then
      some ((1 : UInt8) :: (other ++ s), (0 : UInt8) :: (other ++ s)) else none) = some (rx, tx) := h
  split_ifs at hkeys with hlen
  obtain ⟨hrx, htx⟩ := Prod.mk.inj (Option.some.inj hkeys)
  exact ⟨hlen, hrx.symm, htx.symm⟩

theorem lawful_openKx : openKx.Lawful where
  agree c s := by
    change (if c.length = publicKeyBytes then _ else none) =
      (if c.length = publicKeyBytes then _ else none : Option (Bytes × Bytes)).map Prod.swap
    split_ifs <;> rfl
  bound {c s other other' rx tx rx' tx'} h h' hcommon := by
    obtain ⟨hlen, rfl, rfl⟩ := derive_client_openKx h
    obtain ⟨hlen', rfl, rfl⟩ := derive_server_openKx h'
    have hkeys : c ++ other = other' ++ s := by
      rcases hcommon with h | h <;> exact (List.cons.inj h).2
    obtain ⟨rfl, rfl⟩ := List.append_inj hkeys (hlen.trans hlen'.symm)
    exact ⟨rfl, rfl⟩
  apart h h' := by
    obtain ⟨-, -, rfl⟩ := derive_client_openKx h
    obtain ⟨-, -, rfl⟩ := derive_server_openKx h'
    simp

/-- A queue of bytes for each direction, to the server and to the client. -/
def pipes : Role → IConnection (Bytes × Bytes)
  | .client =>
    { send := fun k s => (true, k.1 ++ s, k.2)
      receive := fun k => ((pipe.receive k.2).1, k.1, (pipe.receive k.2).2)
      sendRaw := fun k s => (true, k.1 ++ s, k.2)
      receiveRaw := fun k n => ((pipe.receiveRaw k.2 n).1, k.1, (pipe.receiveRaw k.2 n).2) }
  | .server =>
    { send := fun k s => (true, k.1, k.2 ++ s)
      receive := fun k => ((pipe.receive k.1).1, (pipe.receive k.1).2, k.2)
      sendRaw := fun k s => (true, k.1, k.2 ++ s)
      receiveRaw := fun k n => ((pipe.receiveRaw k.1 n).1, (pipe.receiveRaw k.1 n).2, k.2) }

def secrets : Role → Bytes
  | .client => List.replicate publicKeyBytes 3
  | .server => List.replicate publicKeyBytes 5

/-- The handshake, and a command. -/
def handshake : List (SessionAct (Bytes × Bytes)) :=
  [.startTLS .client, .startTLS .server, .startTLS .server, .startTLS .client,
    .send .client (lit "NOOP\r\n") (List.replicate nonceSize 7), .receive .server]

theorem payloads_handshake :
    ∃ s, Run.exec (next openKx markAead.encrypt pipes secrets) (fresh ([], [])) handshake = some s ∧
      (s.ends .server).received = [lit "NOOP"] ∧
      ∃ payloads, (s.ends .server).received = payloads.map stripLineEnd ∧
        payloads <+: (s.ends .client).attempted := by
  have hrun : ∃ s, Run.exec (next openKx markAead.encrypt pipes secrets) (fresh ([], [])) handshake =
      some s ∧ (s.ends .server).received = [lit "NOOP"] ∧
      (s.ends .server).stage = .secured (secrets .client) ∧
      ∀ r, (s.ends r).attempted.length < 2 ^ 64 := by
    have hsome : (Run.exec (next openKx markAead.encrypt pipes secrets) (fresh ([], [])) handshake).any
        (fun s => (s.ends .server).received == [lit "NOOP"] &&
          (s.ends .server).stage == .secured (secrets .client) &&
          decide ((s.ends .client).attempted.length < 2 ^ 64) &&
          decide ((s.ends .server).attempted.length < 2 ^ 64)) = true := by decide +kernel
    obtain ⟨s, hs, hall⟩ := (Option.any_eq_true _ _).mp hsome
    simp only [Bool.and_eq_true, beq_iff_eq, decide_eq_true_eq] at hall
    obtain ⟨⟨⟨hreceived, hstage⟩, hclient⟩, hserver⟩ := hall
    exact ⟨s, hs, hreceived, hstage, fun r => by cases r <;> assumption⟩
  obtain ⟨s, hexec, hreceived, hstage, hbound⟩ := hrun
  obtain ⟨payloads, hpayloads, hprefix, -⟩ :=
    (payloads_of_exec lawful_openKx hexec hbound).1 .server hstage
  exact ⟨s, hexec, hreceived, payloads, hpayloads, hprefix⟩

end Session

end MailStack.Proto
