import MailStack.Machinery.Search
import MailStack.Proto.SecureChannel

/-!
# Proto/Socket — `SocketConnection`: lines and blocks out of a stream that comes in pieces

    segments ──read_until──▸ m_buffer ──getline──▸ lines
    segments ──read_some───────────────────────▸ blocks

TCP keeps the bytes and their order, not how they were cut.  `Receive` reads until the buffer has a
CRLF and takes a line off it; what came in with that line stays in the buffer for the next one.
`ReceiveRaw` never looks at the buffer: what is left there when a channel is secured is left for good.

How the stream is cut, how long it stops, and where it breaks off is a list of `Arrival`s, for
arbitrary ones; time passes where the socket is waited for.  The lines do not depend on it
(`lines_of_receives`), and no more do the frames of a secured channel, as long as the pauses within
one block leave `ReceiveRaw` its time (`delivered_of_segments`).
-/

open Bytes

namespace MailStack.Proto

/-- What the socket does next: it is ready, it is not for this many nanoseconds, or it fails. -/
inductive Event (α : Type*)
  | ready (a : α)
  | pause (time : ℕ)
  | broken

/-- A segment comes in. -/
abbrev Arrival := Event Bytes

/-- So many bytes of a write are taken, and one more. -/
abbrev Drain := Event ℕ

/-- A second. -/
def second : ℕ := 10 ^ 9

/-- `select`: what follows, if there is an event before the time is over. -/
def waitForEvent {α : Type*} (timeout : ℕ) : List (Event α) → Option (List (Event α))
  | [] => none
  | .pause time :: events => if time ≤ timeout then waitForEvent (timeout - time) events else none
  | event :: events => some (event :: events)

/-- `SocketConnection`: the socket, with what is to come and what was written, and `m_buffer`. -/
structure Socket where
  isOpen : Bool := true
  timeoutSeconds : ℕ := 30
  buffer : Bytes := []
  arrivals : List Arrival := []
  drains : List Drain := []
  written : Bytes := []

namespace Socket

/-- `MAX_LINE_SIZE`. -/
def maxLineSize : ℕ := 8192

/-- `Close`. -/
def close (s : Socket) : Socket := { s with isOpen := false }

/-- `boost::asio::read_until` of CRLF: the buffer once it has one, none for an error. -/
def readUntil (buffer : Bytes) : List Arrival → Option Bytes × List Arrival
  | [] => (if lit "\r\n" <:+: buffer then some buffer else none, [])
  | a :: arrivals =>
    if lit "\r\n" <:+: buffer then (some buffer, a :: arrivals)
    else
      match a with
      | .ready b => readUntil (buffer ++ b) arrivals
      | .pause _ => readUntil buffer arrivals
      | .broken => (none, arrivals)

/-- `Receive`; it waits only where the buffer is empty. -/
def receive (s : Socket) : Option Bytes × Socket :=
  if ¬ s.isOpen then (none, s)
  else
    match (if s.buffer = [] then waitForEvent (s.timeoutSeconds * second) s.arrivals
      else some s.arrivals) with
    | none => (none, s.close)
    | some arrivals =>
      match readUntil s.buffer arrivals with
      | (none, arrivals) => (none, { s with arrivals }.close)
      | (some buffer, arrivals) =>
        if maxLineSize < buffer.length then (none, { s with buffer, arrivals }.close)
        else
          match cut '\n'.toUInt8 buffer with
          | none => (some (popBack '\r'.toUInt8 buffer), { s with buffer := [], arrivals })
          | some (line, rest) => (some (popBack '\r'.toUInt8 line), { s with buffer := rest, arrivals })

/-- One turn of the loop of `ReceiveRaw` or `SendRaw`: the deadline is not over when `elapsed` has
passed, and the event comes within the whole seconds that remain. -/
def inTime (seconds elapsed waited : ℕ) : Bool :=
  elapsed < seconds * second ∧ waited ≤ (seconds * second - elapsed) / second * second

/-- The loop of `ReceiveRaw`: `n` more bytes, when `elapsed` of its time had passed at the last look
at the clock, and `waited` since. -/
def readBlock (seconds : ℕ) : (elapsed waited n : ℕ) → List Arrival → Option Bytes × List Arrival
  | _, _, 0, arrivals => (some [], arrivals)
  | _, _, _ + 1, [] => (none, [])
  | elapsed, waited, n + 1, .pause time :: arrivals =>
    readBlock seconds elapsed (waited + time) (n + 1) arrivals
  | _, _, _ + 1, .broken :: arrivals => (none, arrivals)
  | elapsed, waited, n + 1, .ready b :: arrivals =>
    if ¬ inTime seconds elapsed waited then (none, .ready b :: arrivals)
    else if b.length ≤ n + 1 then
      let r := readBlock seconds (elapsed + waited) 0 (n + 1 - b.length) arrivals
      (r.1.map (b ++ ·), r.2)
    else (some (b.take (n + 1)), .ready (b.drop (n + 1)) :: arrivals)

/-- `ReceiveRaw`. -/
def receiveRaw (s : Socket) (size : ℕ) : Option Bytes × Socket :=
  if ¬ s.isOpen then (none, s)
  else
    match readBlock s.timeoutSeconds 0 0 size s.arrivals with
    | (none, arrivals) => (none, { s with arrivals }.close)
    | (some block, arrivals) => (some block, { s with arrivals })

/-- The loop of `SendRaw`, with its deadline, and that of `boost::asio::write`, without one: what is
written, what is left, and what the socket is to do then. -/
def drain (deadline : Option ℕ) (elapsed waited : ℕ) (data : Bytes) :
    List Drain → Bytes × Bytes × List Drain
  | [] => ([], data, [])
  | d :: drains =>
    if data = [] then ([], [], d :: drains)
    else
      match d with
      | .pause time => drain deadline elapsed (waited + time) data drains
      | .broken => ([], data, drains)
      | .ready n =>
        if deadline.all (inTime · elapsed waited) then
          let r := drain deadline (elapsed + waited) 0 (data.drop (n + 1)) drains
          (data.take (n + 1) ++ r.1, r.2)
        else ([], data, .ready n :: drains)

/-- A write, closed where it is not complete. -/
def write (s : Socket) (deadline : Option ℕ) (data : Bytes) : Bool × Socket :=
  let r := drain deadline 0 0 data s.drains
  let s' := { s with written := s.written ++ r.1, drains := r.2.2 }
  if r.2.1 = [] then (true, s') else (false, s'.close)

/-- `SendRaw`. -/
def sendRaw (s : Socket) (data : Bytes) : Bool × Socket :=
  if ¬ s.isOpen then (false, s) else s.write (some s.timeoutSeconds) data

/-- `Send`. -/
def send (s : Socket) (data : Bytes) : Bool × Socket :=
  if ¬ s.isOpen ∨ data = [] then (false, s)
  else
    match waitForEvent (s.timeoutSeconds * second) s.drains with
    | none => (false, s.close)
    | some drains => { s with drains }.write none data

end Socket

/-- The connection. -/
def socketConnection : IConnection Socket where
  send := Socket.send
  receive := Socket.receive
  sendRaw := Socket.sendRaw
  receiveRaw := Socket.receiveRaw

/-! ## Lines -/

/-- The first line of a text with a CRLF, up to its first LF, and what follows. -/
def takeLine (s : Bytes) : Option (Bytes × Bytes) :=
  if lit "\r\n" <:+: s then (cut '\n'.toUInt8 s).map fun p => (popBack '\r'.toUInt8 p.1, p.2)
  else none

/-- The text up to its last CRLF. -/
def complete : Bytes → Bytes
  | [] => []
  | c :: s =>
    if complete s ≠ [] then c :: complete s
    else if lit "\r\n" <+: c :: s then lit "\r\n" else []

/-- The lines of the text up to its last CRLF. -/
def linesOf (s : Bytes) : List Bytes :=
  (getlines '\n'.toUInt8 (complete s)).map (popBack '\r'.toUInt8)

/-- There is a complete line where a CRLF is. -/
theorem complete_ne_nil_iff : ∀ {s : Bytes}, complete s ≠ [] ↔ lit "\r\n" <:+: s
  | [] => iff_of_false (not_not_intro rfl) (by decide)
  | c :: s => by
      rw [complete, List.infix_cons_iff]
      split_ifs with hrest hhere
      · exact iff_of_true (List.cons_ne_nil c _) (.inr (complete_ne_nil_iff.mp hrest))
      · exact iff_of_true (by decide) (.inl hhere)
      · exact iff_of_false (not_not_intro rfl)
          (not_or.mpr ⟨hhere, fun h => hrest (complete_ne_nil_iff.mpr h)⟩)

theorem linesOf_eq_nil {s : Bytes} (h : ¬ lit "\r\n" <:+: s) : linesOf s = [] := by
  have hnil : complete s = [] := not_not.mp (mt complete_ne_nil_iff.mp h)
  rw [linesOf, hnil]
  rfl

/-- The complete part goes on behind a line feed if a CRLF is there. -/
theorem complete_append_cons {rest : Bytes} :
    ∀ {l : Bytes}, '\n'.toUInt8 ∉ l → lit "\r\n" <:+: l ++ '\n'.toUInt8 :: rest →
      complete (l ++ '\n'.toUInt8 :: rest) = l ++ '\n'.toUInt8 :: complete rest
  | [], _, h => by
      have hrest : lit "\r\n" <:+: rest :=
        (List.infix_cons_iff.mp h).resolve_left fun h => absurd (List.cons_prefix_cons.mp h).1 (by decide)
      rw [List.nil_append, complete, if_pos (complete_ne_nil_iff.mpr hrest), List.nil_append]
  | c :: l, hcl, h => by
      have hl : '\n'.toUInt8 ∉ l := List.not_mem_of_not_mem_cons hcl
      rw [List.cons_append] at h ⊢
      rw [complete]
      by_cases htail : lit "\r\n" <:+: l ++ '\n'.toUInt8 :: rest
      · rw [if_pos (complete_ne_nil_iff.mpr htail), complete_append_cons hl htail, List.cons_append]
      · have hhere := (List.infix_cons_iff.mp h).resolve_right htail
        rw [if_neg (mt complete_ne_nil_iff.mp htail), if_pos hhere]
        have hcrlf : lit "\r\n" = ['\r'.toUInt8, '\n'.toUInt8] := rfl
        rw [hcrlf] at hhere
        obtain ⟨rfl, hlf⟩ := List.cons_prefix_cons.mp hhere
        obtain rfl : l = [] := by
          cases l with
          | nil => rfl
          | cons d l =>
            obtain ⟨hd, -⟩ := List.cons_prefix_cons.mp hlf
            exact absurd (hd ▸ List.mem_cons_self) hl
        have hrest : complete rest = [] := by
          by_contra hne
          exact htail ((complete_ne_nil_iff.mp hne).trans (List.suffix_cons _ _).isInfix)
        rw [hrest]
        rfl

/-- **The first line is taken off.** -/
theorem linesOf_of_takeLine {s line rest : Bytes} (h : takeLine s = some (line, rest)) :
    linesOf s = line :: linesOf rest := by
  rw [takeLine] at h
  split_ifs at h with hcrlf
  obtain ⟨⟨l, rest'⟩, hcut, heq⟩ := Option.map_eq_some_iff.mp h
  obtain ⟨rfl, rfl⟩ := Prod.mk.inj heq
  obtain ⟨rfl, hl⟩ := cut_eq_some_iff.mp hcut
  rw [linesOf, complete_append_cons hl hcrlf, getlines_append_cons _ hl]
  rfl

theorem linesOf_of_takeLine_eq_none {s : Bytes} (h : takeLine s = none) : linesOf s = [] := by
  refine linesOf_eq_nil fun hcrlf => ?_
  rw [takeLine, if_pos hcrlf, Option.map_eq_none_iff] at h
  have hlf : '\n'.toUInt8 ∈ s := hcrlf.subset (by decide)
  obtain ⟨l, rest, rfl, hl⟩ := List.eq_append_cons_of_mem hlf
  rw [cut_eq_some_iff.mpr ⟨rfl, hl⟩] at h
  cases h

/-- What is known of a line does not change with what comes after it. -/
theorem takeLine_append {s line rest : Bytes} (h : takeLine s = some (line, rest)) (t : Bytes) :
    takeLine (s ++ t) = some (line, rest ++ t) := by
  rw [takeLine] at h ⊢
  split_ifs at h with hcrlf
  obtain ⟨⟨l, rest'⟩, hcut, heq⟩ := Option.map_eq_some_iff.mp h
  obtain ⟨rfl, rfl⟩ := Prod.mk.inj heq
  obtain ⟨rfl, hl⟩ := cut_eq_some_iff.mp hcut
  have hcut' : cut '\n'.toUInt8 (l ++ '\n'.toUInt8 :: rest' ++ t) = some (l, rest' ++ t) :=
    cut_eq_some_iff.mpr ⟨by simp, hl⟩
  rw [if_pos (hcrlf.trans (List.prefix_append _ t).isInfix), hcut']
  rfl

/-! ## `Receive`, however the stream is cut -/

/-- The bytes that come before the connection ends. -/
def coming : List Arrival → Bytes
  | [] | .broken :: _ => []
  | .ready b :: arrivals => b ++ coming arrivals
  | .pause _ :: arrivals => coming arrivals

namespace Socket

variable {s s' : Socket} {line : Bytes}

/-- What has come in and what is to come. -/
def stream (s : Socket) : Bytes := s.buffer ++ coming s.arrivals

/-- With a CRLF in the buffer nothing is read. -/
theorem readUntil_of_crlf {buffer : Bytes} (h : lit "\r\n" <:+: buffer) (arrivals : List Arrival) :
    readUntil buffer arrivals = (some buffer, arrivals) := by
  cases arrivals with
  | nil => rw [readUntil, if_pos h]
  | cons a arrivals => cases a <;> rw [readUntil, if_pos h]

/-- **What `read_until` finds**: as much of the stream as it takes to have a CRLF, or there is none in
all of it. -/
theorem readUntil_cases : ∀ (buffer : Bytes) (arrivals : List Arrival),
    (∃ more rest, readUntil buffer arrivals = (some (buffer ++ more), rest) ∧
        lit "\r\n" <:+: buffer ++ more ∧ coming arrivals = more ++ coming rest) ∨
      (∃ rest, readUntil buffer arrivals = (none, rest) ∧
        ¬ lit "\r\n" <:+: buffer ++ coming arrivals) := by
  intro buffer arrivals
  induction arrivals generalizing buffer with
  | nil =>
    rw [readUntil]
    split_ifs with h
    · exact .inl ⟨[], [], by rw [List.append_nil], by rwa [List.append_nil], rfl⟩
    · exact .inr ⟨[], rfl, by rwa [coming, List.append_nil]⟩
  | cons a arrivals ih =>
    by_cases h : lit "\r\n" <:+: buffer
    · rw [readUntil_of_crlf h]
      exact .inl ⟨[], a :: arrivals, by rw [List.append_nil], by rwa [List.append_nil], rfl⟩
    · cases a with
      | ready b =>
        rw [readUntil, if_neg h]
        rcases ih (buffer ++ b) with ⟨more, rest, heq, hcrlf, hcoming⟩ | ⟨rest, heq, hnone⟩
        · refine .inl ⟨b ++ more, rest, ?_, ?_, ?_⟩
          · rw [← List.append_assoc]
            exact heq
          · rwa [← List.append_assoc]
          · rw [coming, hcoming, List.append_assoc]
        · refine .inr ⟨rest, heq, ?_⟩
          rwa [coming, ← List.append_assoc]
      | pause time =>
        rw [readUntil, if_neg h]
        exact ih buffer
      | broken =>
        rw [readUntil, if_neg h]
        exact .inr ⟨arrivals, rfl, by rwa [coming, List.append_nil]⟩

/-- Waiting takes only pauses off the stream. -/
theorem readUntil_of_waitForEvent {timeout : ℕ} {arrivals arrivals' : List Arrival}
    (h : waitForEvent timeout arrivals = some arrivals') :
    readUntil [] arrivals = readUntil [] arrivals' := by
  induction arrivals generalizing timeout with
  | nil => cases h
  | cons a arrivals ih =>
    cases a with
    | pause time =>
      rw [waitForEvent] at h
      split_ifs at h
      rw [readUntil, if_neg (by decide)]
      exact ih h
    | ready b => rw [← Option.some.inj h]
    | broken => rw [← Option.some.inj h]

/-- **What `Receive` can do**: it takes the first line off the stream, or it closes the connection:
nothing came in time, the stream has no CRLF, or there is too much in the buffer. -/
theorem receive_cases (hopen : s.isOpen = true) :
    (∃ line s', s.receive = (some line, s') ∧ s'.isOpen = true ∧
        takeLine s.stream = some (line, s'.stream) ∧ s'.buffer.length ≤ maxLineSize ∧
        ∃ buffer, readUntil s.buffer s.arrivals = (some buffer, s'.arrivals)) ∨
      ∃ s', s.receive = (none, s') ∧ s'.isOpen = false ∧
        ((s.buffer = [] ∧ waitForEvent (s.timeoutSeconds * second) s.arrivals = none) ∨
          takeLine s.stream = none ∨
          ∃ buffer rest, readUntil s.buffer s.arrivals = (some buffer, rest) ∧
            maxLineSize < buffer.length) := by
  have hgoes : s.receive = (match readUntil s.buffer s.arrivals with
      | (none, arrivals) => (none, { s with arrivals }.close)
      | (some buffer, arrivals) =>
        if maxLineSize < buffer.length then (none, { s with buffer, arrivals }.close)
        else
          match cut '\n'.toUInt8 buffer with
          | none => (some (popBack '\r'.toUInt8 buffer), { s with buffer := [], arrivals })
          | some (line, rest) =>
            (some (popBack '\r'.toUInt8 line), { s with buffer := rest, arrivals })) ∨
      (s.buffer = [] ∧ waitForEvent (s.timeoutSeconds * second) s.arrivals = none ∧
        s.receive = (none, s.close)) := by
    rw [receive, if_neg (not_not_intro hopen)]
    by_cases hbuffer : s.buffer = []
    · rw [if_pos hbuffer]
      cases hwait : waitForEvent (s.timeoutSeconds * second) s.arrivals with
      | none => exact .inr ⟨hbuffer, rfl, rfl⟩
      | some arrivals =>
        refine .inl ?_
        rw [hbuffer, readUntil_of_waitForEvent hwait]
    · rw [if_neg hbuffer]
      exact .inl rfl
  rcases hgoes with hgoes | ⟨hbuffer, hwait, hgoes⟩
  · rw [hgoes]
    rcases readUntil_cases s.buffer s.arrivals with
      ⟨more, rest, heq, hcrlf, hcoming⟩ | ⟨rest, heq, hnone⟩
    · rw [heq]
      dsimp only
      by_cases hlong : maxLineSize < (s.buffer ++ more).length
      · rw [if_pos hlong]
        exact .inr ⟨_, rfl, rfl, .inr (.inr ⟨_, _, rfl, hlong⟩)⟩
      · rw [if_neg hlong]
        have hlf : '\n'.toUInt8 ∈ s.buffer ++ more := hcrlf.subset (by decide)
        obtain ⟨l, tail, hl, hnot⟩ := List.eq_append_cons_of_mem hlf
        have hcut : cut '\n'.toUInt8 (s.buffer ++ more) = some (l, tail) :=
          cut_eq_some_iff.mpr ⟨hl, hnot⟩
        have htake : takeLine (s.buffer ++ more) = some (popBack '\r'.toUInt8 l, tail) := by
          rw [takeLine, if_pos hcrlf, hcut]
          rfl
        rw [hcut]
        refine .inl ⟨_, _, rfl, hopen, ?_, ?_, _, rfl⟩
        · rw [stream, hcoming, ← List.append_assoc]
          exact takeLine_append htake _
        · have hlength := congrArg List.length hl
          simp only [List.length_append, List.length_cons] at hlength hlong
          dsimp only
          omega
    · rw [heq]
      refine .inr ⟨_, rfl, rfl, .inr (.inl ?_)⟩
      rw [takeLine, stream, if_neg hnone]
  · rw [hgoes]
    exact .inr ⟨_, rfl, rfl, .inl ⟨hbuffer, hwait⟩⟩

/-- `Receive`, until there were `n` lines or it has failed. -/
def receives : ℕ → Socket → List Bytes × Socket
  | 0, s => ([], s)
  | n + 1, s =>
    match s.receive with
    | (none, s') => ([], s')
    | (some line, s') => (line :: (receives n s').1, (receives n s').2)

/-- The stream comes without a pause, in segments of at most `c` bytes, and with a CRLF often enough
for a buffer that has none to take one more segment. -/
structure Calm (c : ℕ) (s : Socket) : Prop where
  isOpen : s.isOpen = true
  buffer : s.buffer.length ≤ maxLineSize
  segment : ∀ b, .ready b ∈ s.arrivals → b.length ≤ c
  noPause : ∀ time, .pause time ∉ s.arrivals
  stretch : ∀ q, q <:+: s.stream → ¬ lit "\r\n" <:+: q → q.length + c ≤ maxLineSize

/-- With calm arrivals what is found fits a line, and the rest is still to come. -/
theorem readUntil_calm {c : ℕ} : ∀ {buffer : Bytes} {arrivals rest : List Arrival} {found : Bytes},
    buffer.length ≤ maxLineSize → (∀ b, .ready b ∈ arrivals → b.length ≤ c) →
    (∀ q, q <:+: buffer ++ coming arrivals → ¬ lit "\r\n" <:+: q → q.length + c ≤ maxLineSize) →
    readUntil buffer arrivals = (some found, rest) → found.length ≤ maxLineSize ∧ rest <:+ arrivals := by
  intro buffer arrivals
  induction arrivals generalizing buffer with
  | nil =>
    intro rest found hbuffer _ _ h
    rw [readUntil] at h
    split_ifs at h
    · obtain ⟨hfound, rfl⟩ := Prod.mk.inj h
      obtain rfl := Option.some.inj hfound
      exact ⟨hbuffer, List.suffix_rfl⟩
    · cases h
  | cons a arrivals ih =>
    intro rest found hbuffer hsegment hstretch h
    by_cases hcrlf : lit "\r\n" <:+: buffer
    · rw [readUntil_of_crlf hcrlf] at h
      obtain ⟨hfound, rfl⟩ := Prod.mk.inj h
      obtain rfl := Option.some.inj hfound
      exact ⟨hbuffer, List.suffix_rfl⟩
    · have hsegment' : ∀ b, .ready b ∈ arrivals → b.length ≤ c := fun b hb =>
        hsegment b (List.mem_cons_of_mem a hb)
      cases a with
      | ready b =>
        rw [readUntil, if_neg hcrlf] at h
        have hroom := hstretch buffer (List.prefix_append _ _).isInfix hcrlf
        have hb := hsegment b List.mem_cons_self
        obtain ⟨hfound, hrest⟩ := ih (by rw [List.length_append]; omega) hsegment'
          (fun q hq => hstretch q (by rwa [coming, ← List.append_assoc])) h
        exact ⟨hfound, hrest.trans (List.suffix_cons _ _)⟩
      | pause time =>
        rw [readUntil, if_neg hcrlf] at h
        obtain ⟨hfound, hrest⟩ := ih hbuffer hsegment' hstretch h
        exact ⟨hfound, hrest.trans (List.suffix_cons _ _)⟩
      | broken =>
        rw [readUntil, if_neg hcrlf] at h
        cases h

/-- Without pauses nothing but the end makes the wait fail. -/
theorem eq_nil_of_waitForEvent {timeout : ℕ} {arrivals : List Arrival}
    (hpause : ∀ time, .pause time ∉ arrivals) (h : waitForEvent timeout arrivals = none) :
    arrivals = [] := by
  cases arrivals with
  | nil => rfl
  | cons a arrivals =>
    cases a with
    | pause time => exact absurd List.mem_cons_self (hpause time)
    | ready b => cases h
    | broken => cases h

/-- What is behind a line is the end of the text. -/
theorem suffix_of_takeLine {t line rest : Bytes} (h : takeLine t = some (line, rest)) : rest <:+ t := by
  rw [takeLine] at h
  split_ifs at h
  obtain ⟨⟨l, rest'⟩, hcut, heq⟩ := Option.map_eq_some_iff.mp h
  obtain ⟨rfl, rfl⟩ := Prod.mk.inj heq
  obtain ⟨rfl, -⟩ := cut_eq_some_iff.mp hcut
  exact (List.suffix_cons _ _).trans (List.suffix_append _ _)

/-- **A calm stream gives all its lines**, and stays calm. -/
theorem Calm.receive {c : ℕ} (h : s.Calm c) : (∃ line s', s.receive = (some line, s') ∧ s'.Calm c ∧
    takeLine s.stream = some (line, s'.stream)) ∨
      ∃ s', s.receive = (none, s') ∧ takeLine s.stream = none := by
  rcases receive_cases h.isOpen with
    ⟨line, s', heq, hopen, htake, hbuffer, buffer, hread⟩ |
      ⟨s', heq, -, ⟨hempty, hwait⟩ | hnone | ⟨buffer, rest, hread, hlong⟩⟩
  · obtain ⟨-, hrest⟩ := readUntil_calm h.buffer h.segment h.stretch hread
    exact .inl ⟨line, s', heq, ⟨hopen, hbuffer, fun b hb => h.segment b (hrest.subset hb),
      fun time hs => h.noPause time (hrest.subset hs),
      fun q hq => h.stretch q (hq.trans (suffix_of_takeLine htake).isInfix)⟩, htake⟩
  · refine .inr ⟨s', heq, ?_⟩
    rw [stream, hempty, eq_nil_of_waitForEvent h.noPause hwait]
    rfl
  · exact .inr ⟨s', heq, hnone⟩
  · have hfound := (readUntil_calm h.buffer h.segment h.stretch hread).1
    omega

/-- **However the stream is cut**, the lines that are received are its first ones, in order, and where
the connection is still open what follows them has not been touched.  Where the stream is calm, every
line is received. -/
theorem lines_of_receives (s : Socket) (hopen : s.isOpen = true) (n : ℕ) :
    (receives n s).1 <+: linesOf s.stream ∧
      ((receives n s).2.isOpen = true →
        linesOf s.stream = (receives n s).1 ++ linesOf (receives n s).2.stream) ∧
      ∀ c, s.Calm c → (receives n s).1 = (linesOf s.stream).take n := by
  induction n generalizing s with
  | zero => exact ⟨List.nil_prefix, fun _ => rfl, fun _ _ => rfl⟩
  | succ n ih =>
    rw [receives]
    refine ⟨?_, ?_, fun c hcalm => ?_⟩
    · rcases receive_cases hopen with ⟨line, s', heq, hopen', htake, -⟩ | ⟨s', heq, -⟩
      · rw [heq, linesOf_of_takeLine htake]
        exact (List.prefix_cons_inj line).mpr (ih s' hopen').1
      · rw [heq]
        exact List.nil_prefix
    · rcases receive_cases hopen with ⟨line, s', heq, hopen', htake, -⟩ | ⟨s', heq, hclosed, -⟩
      · rw [heq, linesOf_of_takeLine htake]
        exact fun h => congrArg (line :: ·) ((ih s' hopen').2.1 h)
      · rw [heq]
        intro h
        rw [hclosed] at h
        cases h
    · rcases hcalm.receive with ⟨line, s', heq, hcalm', htake⟩ | ⟨s', heq, hnone⟩
      · rw [heq, linesOf_of_takeLine htake]
        exact congrArg (line :: ·) ((ih s' hcalm'.isOpen).2.2 c hcalm')
      · rw [heq, linesOf_of_takeLine_eq_none hnone]
        rfl

/-- Two commands, cut within the first CRLF and within the second command. -/
def twoCommands : Socket where
  arrivals := [.ready (lit "NOOP\r"), .ready (lit "\nQU"), .ready (lit "IT\r\n")]

theorem calm_twoCommands : twoCommands.Calm 8 where
  isOpen := rfl
  buffer := by decide
  segment b hb := by
    simp only [twoCommands, List.mem_cons, Event.ready.injEq, List.not_mem_nil, or_false] at hb
    rcases hb with rfl | rfl | rfl <;> decide
  noPause time := by simp [twoCommands]
  stretch q hq _ := by
    have hle : q.length ≤ twoCommands.stream.length := hq.length_le
    have hlength : twoCommands.stream.length = 12 := by decide
    rw [maxLineSize]
    omega

theorem lines_of_receives_twoCommands :
    (receives 2 twoCommands).1 = [lit "NOOP", lit "QUIT"] := by
  have hlines : linesOf twoCommands.stream = [lit "NOOP", lit "QUIT"] := by decide
  rw [(lines_of_receives twoCommands rfl 2).2.2 8 calm_twoCommands, hlines]
  rfl

/-! ## Frames, however the stream is cut -/

/-- The time that passes while these events come. -/
def pauses : List Arrival → ℕ
  | [] => 0
  | .pause time :: arrivals => time + pauses arrivals
  | .ready _ :: arrivals | .broken :: arrivals => pauses arrivals

/-- The pauses of a sequence add up. -/
theorem pauses_append (v w : List Arrival) : pauses (v ++ w) = pauses v + pauses w := by
  induction v with
  | nil => exact (Nat.zero_add _).symm
  | cons a v ih => cases a <;> simp [pauses, ih, Nat.add_assoc]

/-- A part of the arrivals has no more pauses than the whole. -/
theorem pauses_le_of_infix {v w : List Arrival} (h : w <:+: v) : pauses w ≤ pauses v := by
  obtain ⟨u, t, rfl⟩ := h
  rw [pauses_append, pauses_append]
  omega

/-- **What comes in time**: the connection does not end, and where fewer bytes come than the longest
block has, there is a second left of the time a call of `ReceiveRaw` has. -/
structure Prompt (seconds longest : ℕ) (now : List Arrival) : Prop where
  whole : .broken ∉ now
  pace : ∀ w, w <:+: now → (coming w).length < longest → pauses w + second ≤ seconds * second

section Prompt

variable {seconds longest : ℕ} {now now' : List Arrival}

/-- What is prompt stays prompt as it is read. -/
theorem Prompt.suffix (h : Prompt seconds longest now) (hs : now' <:+ now) :
    Prompt seconds longest now' where
  whole hb := h.whole (hs.subset hb)
  pace w hw := h.pace w (hw.trans hs.isInfix)

/-- A segment that was begun is no slower. -/
theorem Prompt.shorten {b : Bytes} (h : Prompt seconds longest (.ready b :: now)) (b' : Bytes) :
    Prompt seconds longest (.ready b' :: now) where
  whole hb := h.whole (by simpa using hb)
  pace w hw hlength := by
    rcases List.infix_cons_iff.mp hw with hprefix | hwithin
    · cases w with
      | nil => exact h.pace [] (List.nil_infix) hlength
      | cons a w =>
        obtain ⟨rfl, hw'⟩ := List.cons_prefix_cons.mp hprefix
        refine h.pace w (hw'.isInfix.trans (List.suffix_cons _ _).isInfix) ?_
        rw [coming, List.length_append] at hlength
        omega
    · exact h.pace w (hwithin.trans (List.suffix_cons _ _).isInfix) hlength

/-- Within the deadline there is time for one more second. -/
theorem inTime_of_le {elapsed waited : ℕ} (h : elapsed + waited + second ≤ seconds * second) :
    inTime seconds elapsed waited = true := by
  have hpos : 0 < second := by decide
  have hfloor : seconds * second - elapsed < (seconds * second - elapsed) / second * second + second := by
    have hmod := Nat.mod_lt (seconds * second - elapsed) hpos
    have hdiv := Nat.div_add_mod' (seconds * second - elapsed) second
    omega
  exact decide_eq_true ⟨by omega, by omega⟩

theorem readBlock_zero (seconds elapsed waited : ℕ) (arrivals : List Arrival) :
    readBlock seconds elapsed waited 0 arrivals = (some [], arrivals) := by
  cases arrivals <;> rfl

/-- **A block is read** where each of its bytes comes in time. -/
theorem readBlock_prompt (later : List Arrival) (elapsed waited : ℕ) {block rest : Bytes}
    (hwhole : .broken ∉ now) (hcome : coming now = block ++ rest)
    (hpace : ∀ w, w <+: now → (coming w).length < block.length →
      elapsed + waited + pauses w + second ≤ seconds * second) :
    ∃ now', readBlock seconds elapsed waited block.length (now ++ later) =
        (some block, now' ++ later) ∧ coming now' = rest ∧
      (now' <:+ now ∨ ∃ b b' t, now' = .ready b' :: t ∧ .ready b :: t <:+ now) := by
  induction now generalizing block elapsed waited with
  | nil =>
    obtain ⟨rfl, rfl⟩ := List.append_eq_nil_iff.mp hcome.symm
    exact ⟨[], readBlock_zero _ _ _ _, rfl, .inl List.suffix_rfl⟩
  | cons a now ih =>
    obtain ⟨ha, hnow⟩ := not_or.mp (mt List.mem_cons.mpr hwhole)
    cases block with
    | nil => exact ⟨a :: now, readBlock_zero _ _ _ _, hcome, .inl List.suffix_rfl⟩
    | cons c block =>
      cases a with
      | broken => exact absurd rfl ha
      | pause time =>
        obtain ⟨now', hread, hrest, hleft⟩ := ih elapsed (waited + time) hnow hcome fun w hw hlength => by
            have hle := hpace (.pause time :: w) ((List.prefix_cons_inj _).mpr hw) hlength
            rw [pauses] at hle
            omega
        refine ⟨now', hread, hrest, hleft.imp (·.trans (List.suffix_cons _ _)) ?_⟩
        rintro ⟨b, b', t, rfl, ht⟩
        exact ⟨b, b', t, rfl, ht.trans (List.suffix_cons _ _)⟩
      | ready b =>
        have hin : inTime seconds elapsed waited = true :=
          inTime_of_le (hpace [] List.nil_prefix (Nat.succ_pos _))
        rw [coming] at hcome
        by_cases hle : b.length ≤ block.length + 1
        · obtain ⟨block', hblock, hrest⟩ : ∃ block', c :: block = b ++ block' ∧
              coming now = block' ++ rest := by
            obtain ⟨q, hq⟩ := List.prefix_of_prefix_length_le (List.prefix_append b _)
              (show c :: block <+: _ from hcome ▸ List.prefix_append _ rest) hle
            rw [← hq, List.append_assoc] at hcome
            exact ⟨q, hq.symm, List.append_cancel_left hcome⟩
          have hlength : block.length + 1 = b.length + block'.length := by
            have := congrArg List.length hblock
            simpa using this
          obtain ⟨now', hread, hcome', hleft⟩ := ih (elapsed + waited) 0 hnow hrest
            fun w hw hlt => by
              have hle := hpace (.ready b :: w) ((List.prefix_cons_inj _).mpr hw) (by
                rw [coming, List.length_append, List.length_cons]
                omega)
              rw [pauses] at hle
              omega
          refine ⟨now', ?_, hcome', hleft.imp (·.trans (List.suffix_cons _ _)) ?_⟩
          · rw [List.length_cons, List.cons_append, readBlock, if_neg (not_not_intro hin), if_pos hle,
              hlength, Nat.add_sub_cancel_left, hread, hblock]
            rfl
          · rintro ⟨d, d', t, rfl, ht⟩
            exact ⟨d, d', t, rfl, ht.trans (List.suffix_cons _ _)⟩
        · obtain ⟨q, hq⟩ := List.prefix_of_prefix_length_le (List.prefix_append (c :: block) rest)
            (hcome ▸ List.prefix_append b _) (Nat.le_of_not_le hle)
          have hrest : rest = q ++ coming now := by
            rw [← hq, List.append_assoc] at hcome
            exact (List.append_cancel_left hcome).symm
          refine ⟨.ready q :: now, ?_, hrest.symm, .inr ⟨b, q, now, rfl, List.suffix_rfl⟩⟩
          rw [List.length_cons, List.cons_append, readBlock, if_neg (not_not_intro hin), if_neg hle,
            ← hq, ← List.length_cons (a := c), List.take_left, List.drop_left]
          rfl

end Prompt

/-- **A block that comes in time is received**; the buffer stays as it is. -/
theorem receiveRaw_prompt (hopen : s.isOpen = true) {longest : ℕ} {now later : List Arrival}
    {block rest : Bytes} (harrivals : s.arrivals = now ++ later)
    (hprompt : Prompt s.timeoutSeconds longest now) (hlength : block.length ≤ longest)
    (hcome : coming now = block ++ rest) :
    ∃ now', s.receiveRaw block.length = (some block, { s with arrivals := now' ++ later }) ∧
      Prompt s.timeoutSeconds longest now' ∧ coming now' = rest := by
  have hpace : ∀ w, w <+: now → (coming w).length < block.length →
      0 + 0 + pauses w + second ≤ s.timeoutSeconds * second := fun w hw hlt => by
    simpa using hprompt.pace w hw.isInfix (hlt.trans_le hlength)
  obtain ⟨now', hread, hrest, hleft⟩ := readBlock_prompt later 0 0 hprompt.whole hcome hpace
  refine ⟨now', ?_, ?_, hrest⟩
  · rw [receiveRaw, if_neg (not_not_intro hopen), harrivals, hread]
  · rcases hleft with hsuffix | ⟨b, b', t, rfl, hsuffix⟩
    · exact hprompt.suffix hsuffix
    · exact (hprompt.suffix hsuffix).shorten b'

/-- What is written and what is left make up the data. -/
theorem drain_append (deadline : Option ℕ) :
    ∀ (drains : List Drain) (elapsed waited : ℕ) (data : Bytes),
    (drain deadline elapsed waited data drains).1 ++
      (drain deadline elapsed waited data drains).2.1 = data := by
  intro drains
  induction drains with
  | nil => exact fun _ _ _ => rfl
  | cons d drains ih =>
    intro elapsed waited data
    by_cases hdata : data = []
    · subst hdata
      cases d <;> rfl
    · cases d with
      | pause time =>
        rw [drain, if_neg hdata]
        exact ih _ _ _
      | broken =>
        rw [drain, if_neg hdata]
        rfl
      | ready n =>
        rw [drain, if_neg hdata]
        dsimp only
        split_ifs
        · rw [List.append_assoc, ih, List.take_append_drop]
        · rfl

/-- **A block that is sent is written in full.** -/
theorem written_of_sendRaw {data : Bytes} (h : s.sendRaw data = (true, s')) :
    s'.written = s.written ++ data := by
  have hopen : s.isOpen = true := by
    by_contra hclosed
    rw [sendRaw, if_pos hclosed] at h
    cases h
  rw [sendRaw, if_neg (not_not_intro hopen), write] at h
  have hdrain := drain_append (some s.timeoutSeconds) s.drains 0 0 data
  split_ifs at h with hall
  · obtain rfl := (Prod.mk.inj h).2
    rw [hall, List.append_nil] at hdrain
    exact congrArg (s.written ++ ·) hdrain
  · cases h

end Socket

section Frames

open Socket

variable (S : Aead)

/-- `Send` of payloads, each with its nonce, if all are sent. -/
def sendAll (c : SecureChannel) (s : Socket) : List (Bytes × Bytes) → Option (SecureChannel × Socket)
  | [] => some (c, s)
  | (nonce, data) :: sends =>
    match c.send S socketConnection nonce s data with
    | (true, c', s') => sendAll c' s' sends
    | (false, _, _) => none

/-- `Receive`, until there were `n` payloads or it has failed. -/
def receiveAll : ℕ → SecureChannel → Socket → List Bytes × SecureChannel × Socket
  | 0, c, s => ([], c, s)
  | n + 1, c, s =>
    match c.receive S socketConnection s with
    | (none, c', s') => ([], c', s')
    | (some data, c', s') => (data :: (receiveAll n c' s').1, (receiveAll n c' s').2)

variable {S} {a a' b : SecureChannel} {out out' inp : Socket} {nonce data rest : Bytes}
  {longest : ℕ} {now later : List Arrival}

/-- **A frame that comes in time is opened.** -/
theorem receive_prompt (hS : S.Lawful) (hb : b.secure = true) (hopen : inp.isOpen = true)
    (hnonce : nonce.length = nonceSize) {text : Bytes}
    (htext : S.encrypt b.rxKey (seqBytes b.rxSeq) nonce data = some text)
    (hsize : data.length + (nonceSize + tagSize) ≤ longest) (hlongest : longest ≤ maxMessageSize)
    (harrivals : inp.arrivals = now ++ later) (hprompt : Prompt inp.timeoutSeconds longest now)
    (hcome : coming now = bigEndian 4 (nonce ++ text).length ++ (nonce ++ text ++ rest)) :
    ∃ now', b.receive S socketConnection inp =
        (some (stripLineEnd data), { b with rxSeq := b.rxSeq + 1 },
          { inp with arrivals := now' ++ later }) ∧
      Prompt inp.timeoutSeconds longest now' ∧ coming now' = rest := by
  have hlength : (nonce ++ text).length = data.length + (nonceSize + tagSize) := by
    rw [List.length_append, hnonce, hS.length htext]
    omega
  have hword : ofBigEndian (bigEndian 4 (nonce ++ text).length) = (nonce ++ text).length := by
    refine ofBigEndian_bigEndian_of_lt ?_
    rw [hlength]
    simp only [maxMessageSize] at hlongest
    omega
  have hfour : (bigEndian 4 (nonce ++ text).length).length ≤ longest := by
    rw [length_bigEndian]
    simp only [nonceSize, tagSize] at hsize
    omega
  obtain ⟨now₁, hlen, hprompt₁, hcome₁⟩ := receiveRaw_prompt hopen harrivals hprompt hfour hcome
  obtain ⟨now₂, hframe, hprompt₂, hcome₂⟩ :=
    receiveRaw_prompt (s := { inp with arrivals := now₁ ++ later }) hopen rfl hprompt₁
      (hlength.trans_le hsize) hcome₁
  have hplain : b.decrypt S (nonce ++ text) = some data := by
    have hlong : ¬ (nonce ++ text).length < nonceSize + tagSize := by omega
    rw [SecureChannel.decrypt, if_neg hlong, List.take_left' hnonce, List.drop_left' hnonce,
      hS.decrypt htext]
  rw [length_bigEndian] at hlen
  have hlen' : socketConnection.receiveRaw inp 4 = _ := hlen
  have hframe' : socketConnection.receiveRaw { inp with arrivals := now₁ ++ later }
      (nonce ++ text).length = _ := hframe
  have hbound : ¬ ((nonce ++ text).length = 0 ∨ maxMessageSize < (nonce ++ text).length) := by
    simp only [nonceSize, tagSize] at hlength hsize
    omega
  refine ⟨now₂, ?_, hprompt₂, hcome₂⟩
  rw [SecureChannel.receive, if_neg (not_not_intro hb), hlen']
  dsimp only
  rw [hword, if_neg hbound, hframe']
  dsimp only
  rw [hplain]

/-- Sending only adds to what is written. -/
theorem written_of_sendAll : ∀ {sends : List (Bytes × Bytes)} {a : SecureChannel} {out : Socket},
    a.secure = true → sendAll S a out sends = some (a', out') → out.written <+: out'.written := by
  intro sends
  induction sends with
  | nil =>
    intro a out _ h
    obtain ⟨-, rfl⟩ := Prod.mk.inj (Option.some.inj h)
    exact List.prefix_rfl
  | cons p sends ih =>
    intro a out ha h
    rw [sendAll] at h
    split at h
    next c₁ s₁ hsend =>
      rcases SecureChannel.send_cases ha hsend with ⟨hfalse, -⟩ | ⟨-, rfl, -, text, s₂, -, hlen, hframe⟩
      · cases hfalse
      · refine List.IsPrefix.trans ?_ (ih (a := { a with txSeq := a.txSeq + 1 }) ha h)
        rw [written_of_sendRaw hframe, written_of_sendRaw hlen, List.append_assoc]
        exact List.prefix_append _ _
    next => cases h

/-- **Everything that was sent is received**, in order and however the network cuts it, as long as it
comes in time, with nothing left over and nothing taken of what follows; and what the buffer had from
before has no part in it. -/
theorem delivered_of_segments (hS : S.Lawful) {sends : List (Bytes × Bytes)} (ha : a.secure = true)
    (hb : b.secure = true) (hkey : a.txKey = b.rxKey) (hseq : a.txSeq = b.rxSeq)
    (hnonce : ∀ p ∈ sends, p.1.length = nonceSize)
    (hsize : ∀ p ∈ sends, p.2.length + (nonceSize + tagSize) ≤ longest)
    (hlongest : longest ≤ maxMessageSize)
    (hsend : sendAll S a out sends = some (a', out')) (hopen : inp.isOpen = true)
    (harrivals : inp.arrivals = now ++ later) (hprompt : Prompt inp.timeoutSeconds longest now)
    (hcome : out.written ++ coming now = out'.written ++ rest) :
    ∃ b' now', receiveAll S sends.length b inp =
        (sends.map (stripLineEnd ·.2), b', { inp with arrivals := now' ++ later }) ∧
      b'.rxSeq = a'.txSeq ∧ coming now' = rest := by
  induction sends generalizing a b out inp now with
  | nil =>
    obtain ⟨rfl, rfl⟩ := Prod.mk.inj (Option.some.inj hsend)
    exact ⟨b, now, by rw [← harrivals]; rfl, hseq.symm, List.append_cancel_left hcome⟩
  | cons p sends ih =>
    obtain ⟨nonce, data⟩ := p
    obtain ⟨hnonce, hnonces⟩ := List.forall_mem_cons.mp hnonce
    obtain ⟨hsize, hsizes⟩ := List.forall_mem_cons.mp hsize
    rw [sendAll] at hsend
    split at hsend
    next c₁ s₁ hfirst =>
      rcases SecureChannel.send_cases ha hfirst with
        ⟨hfalse, -⟩ | ⟨-, rfl, -, text, s₂, htext, hlen, hframe⟩
      · cases hfalse
      · have hwritten : s₁.written =
            out.written ++ (bigEndian 4 (nonce ++ text).length ++ (nonce ++ text)) := by
          rw [written_of_sendRaw hframe, written_of_sendRaw hlen, List.append_assoc]
        obtain ⟨wire, hwire⟩ := written_of_sendAll (by exact ha) hsend
        have hfirst : coming now =
            bigEndian 4 (nonce ++ text).length ++ (nonce ++ text ++ (wire ++ rest)) := by
          rw [← hwire, hwritten] at hcome
          simp only [List.append_assoc] at hcome ⊢
          exact List.append_cancel_left hcome
        rw [hkey, hseq] at htext
        obtain ⟨now₁, hreceive, hprompt₁, hrest⟩ := receive_prompt hS hb hopen hnonce htext hsize
          hlongest harrivals hprompt hfirst
        obtain ⟨b', now₂, hall, hb', hrest'⟩ := ih (a := { a with txSeq := a.txSeq + 1 })
          (b := { b with rxSeq := b.rxSeq + 1 }) ha hb hkey (congrArg (· + 1) hseq) hnonces hsizes hsend
          (show ({ inp with arrivals := now₁ ++ later } : Socket).isOpen = true from hopen) rfl hprompt₁
          (by rw [hrest, ← List.append_assoc, hwire])
        refine ⟨b', now₂, ?_, hb', hrest'⟩
        rw [List.length_cons, receiveAll, hreceive]
        dsimp only
        rw [hall]
        rfl
    next => cases hsend

/-- A socket that takes all of four blocks. -/
def fourWrites : Socket where
  drains := List.replicate 4 (.ready 100)

/-- What was left in the buffer is not read. -/
theorem delivered_of_segments_two :
    ∃ a' out', sendAll markAead secured fourWrites
        [(List.replicate nonceSize 7, lit "NOOP\r\n"), (List.replicate nonceSize 8, lit "QUIT\r\n")] =
          some (a', out') ∧
      (receiveAll markAead 2 secured
        { buffer := lit "RSET\r\n"
          arrivals := [.ready (out'.written.take 3), .pause (20 * second),
            .ready (out'.written.drop 3)] }).1 = [lit "NOOP", lit "QUIT"] := by
  have hsome : (sendAll markAead secured fourWrites
      [(List.replicate nonceSize 7, lit "NOOP\r\n"),
        (List.replicate nonceSize 8, lit "QUIT\r\n")]).isSome = true := by decide +kernel
  obtain ⟨⟨a', out'⟩, hsend⟩ := Option.isSome_iff_exists.mp hsome
  let now : List Arrival :=
    [.ready (out'.written.take 3), .pause (20 * second), .ready (out'.written.drop 3)]
  have hprompt : Prompt 30 maxMessageSize now := by
    refine ⟨by simp [now], fun w hw _ => ?_⟩
    have hle := pauses_le_of_infix hw
    have hnow : pauses now + second ≤ 30 * second := by simp [now, pauses, second]
    omega
  let inp : Socket := { buffer := lit "RSET\r\n", arrivals := now }
  have harrivals : inp.arrivals = now ++ [] := (List.append_nil now).symm
  have hcome : fourWrites.written ++ coming now = out'.written ++ [] := by
    simp [now, coming, fourWrites]
  obtain ⟨b', now', hreceive, -⟩ := delivered_of_segments (b := secured) lawful_markAead rfl rfl rfl
    rfl (by decide) (by decide) le_rfl hsend (show inp.isOpen = true from rfl) harrivals hprompt hcome
  exact ⟨a', out', hsend, congrArg Prod.fst hreceive⟩

end Frames

end MailStack.Proto
