import MailStack.Base64.RoundTrip

/-!
# Base64/Stream — `Base64StreamEncoder`: the encoder that is fed chunk by chunk

Between two calls up to three bytes are carried over.  A call that finds one or two of them fills
them up to two only, encodes the groups of three that follow ahead of them, and keeps at most one of
the bytes behind those.  `order` is the sequence in which the bytes come to be encoded, and
`streamed_eq` says that it decides the output; `streamed_eq_iff` says when it is the sequence that
was fed.
-/

open Bytes

namespace MailStack.Base64

/-! ## The encoder -/

/-- The four characters for one, two or three bytes. -/
def partChars (part : Bytes) : Bytes :=
  let block := (part.getD 0 0).toNat <<< 16 ||| (part.getD 1 0).toNat <<< 8 |||
    (part.getD 2 0).toNat
  [alphabetAt (block >>> 18), alphabetAt (block >>> 12),
    if 1 < part.length then alphabetAt (block >>> 6) else '='.toUInt8,
    if 2 < part.length then alphabetAt block else '='.toUInt8]

/-- The loop of `EncodePart` over the characters: a break after every 76 of them.  What is written,
and how many characters stand on the line then. -/
def putChars : ℕ → Bytes → Bytes × ℕ
  | lineLength, [] => ([], lineLength)
  | lineLength, c :: cs =>
    if lineLength + 1 = 76 then (c :: (lit "\r\n" ++ (putChars 0 cs).1), (putChars 0 cs).2)
    else (c :: (putChars (lineLength + 1) cs).1, (putChars (lineLength + 1) cs).2)

/-- `EncodePart`. -/
def encodePart (lineLength : ℕ) (part : Bytes) : Bytes × ℕ := putChars lineLength (partChars part)

/-- The first loop of `EncodeStream`: the bytes carried over, and those not yet looked at. -/
def fillLeft : Bytes → Bytes → Bytes × Bytes
  | left, [] => (left, [])
  | left, b :: data =>
    if left.length < 3 then
      if 2 ≤ left.length then (left, b :: data) else fillLeft (left ++ [b]) data
    else (left, b :: data)

/-- The second loop: whole groups of three.  What is written, the column, and the bytes behind. -/
def encodeGroups : ℕ → Bytes → Bytes × ℕ × Bytes
  | lineLength, b0 :: b1 :: b2 :: data =>
    let part := encodePart lineLength [b0, b1, b2]
    let rest := encodeGroups part.2 data
    (part.1 ++ rest.1, rest.2)
  | lineLength, data => ([], lineLength, data)

/-- The third loop: what is carried over, as long as there is room. -/
def keepLeft : Bytes → Bytes → Bytes
  | left, [] => left
  | left, b :: data => if left.length < 3 then keepLeft (left ++ [b]) data else left

/-- `keepLeft` fills up to three bytes. -/
theorem keepLeft_eq : ∀ {left data : Bytes}, left.length ≤ 3 →
    keepLeft left data = left ++ data.take (3 - left.length)
  | left, [], _ => by rw [keepLeft, List.take_nil, List.append_nil]
  | left, b :: data, h => by
      rw [keepLeft]
      split_ifs with hlt
      · have hroom : 3 - left.length = 3 - (left ++ [b]).length + 1 := by
          rw [List.length_append, List.length_singleton]
          omega
        rw [keepLeft_eq (by rw [List.length_append, List.length_singleton]; omega), hroom,
          List.take_succ_cons, List.append_assoc]
        rfl
      · have hfull : 3 - left.length = 0 := by omega
        rw [hfull, List.take_zero, List.append_nil]

/-- The members of `Base64StreamEncoder`: `left` are the first `m_left_size` bytes of `m_left`. -/
structure StreamEncoder where
  left : Bytes := []
  lineLength : ℕ := 0
  totalEncoded : ℕ := 0
  left_le : left.length ≤ 3 := by decide

/-- No more than three bytes are left over. -/
theorem fillLeft_length_le : ∀ {left data : Bytes}, left.length ≤ 3 →
    (fillLeft left data).1.length ≤ 3
  | left, [], h => h
  | left, b :: data, h => by
      rw [fillLeft]
      split_ifs with hlt htwo
      · exact h
      · exact fillLeft_length_le (by rw [List.length_append, List.length_singleton]; omega)
      · exact h

namespace StreamEncoder

/-- The bytes carried over are encoded once they are three: what is written, the column, and what
is still carried. -/
def flushLeft (lineLength : ℕ) (left : Bytes) : Bytes × ℕ × Bytes :=
  if left.length = 3 then
    ((encodePart lineLength left).1, (encodePart lineLength left).2, [])
  else ([], lineLength, left)

theorem flushLeft_length_le (lineLength : ℕ) {left : Bytes} (h : left.length ≤ 3) :
    (flushLeft lineLength left).2.2.length ≤ 3 := by
  rw [flushLeft]
  split_ifs
  · exact Nat.zero_le 3
  · exact h

/-- `EncodeStream`: what it writes, and the encoder after it. -/
def encodeStream (s : StreamEncoder) (data : Bytes) : Except Exn (Bytes × StreamEncoder) :=
  if maxFileSize < s.totalEncoded + data.length then
    .error (.runtimeError (lit "File too large for Base64 encoding"))
  else
    let filled := if 0 < s.left.length then fillLeft s.left data else (s.left, data)
    let flushed := flushLeft s.lineLength filled.1
    let groups := encodeGroups flushed.2.1 filled.2
    .ok (flushed.1 ++ groups.1,
      { left := keepLeft flushed.2.2 groups.2.2
        lineLength := groups.2.1
        totalEncoded := s.totalEncoded + data.length
        left_le := by
          have hfilled : filled.1.length ≤ 3 := by
            dsimp only [filled]
            split_ifs
            · exact fillLeft_length_le s.left_le
            · exact s.left_le
          have hflushed := flushLeft_length_le s.lineLength hfilled
          rw [keepLeft_eq hflushed, List.length_append, List.length_take]
          omega })

/-- `Finalize`. -/
def finalize (s : StreamEncoder) : Bytes × StreamEncoder :=
  let last := if 0 < s.left.length then encodePart s.lineLength s.left else ([], s.lineLength)
  (last.1 ++ if 0 < last.2 then lit "\r\n" else [],
    { left := [], lineLength := last.2, totalEncoded := s.totalEncoded })

/-- The chunks, one call of `EncodeStream` for each. -/
def encodeChunks : StreamEncoder → List Bytes → Except Exn (Bytes × StreamEncoder)
  | s, [] => .ok ([], s)
  | s, chunk :: chunks =>
    match s.encodeStream chunk with
    | .error e => .error e
    | .ok r => (encodeChunks r.2 chunks).map fun r' => (r.1 ++ r'.1, r'.2)

end StreamEncoder

/-- What a new encoder writes for the chunks, `Finalize` included. -/
def streamed (chunks : List Bytes) : Except Exn Bytes :=
  (StreamEncoder.encodeChunks {} chunks).map fun r => r.1 ++ r.2.finalize.1

example : streamed [lit "M", lit "a", lit "n"] = .ok (lit "TWFu\r\n") := by decide +kernel

/-! ## The order in which the bytes are encoded -/

/-- The whole groups of three. -/
def groups (data : Bytes) : Bytes := data.take (data.length / 3 * 3)

/-- What follows them: none, one or two bytes. -/
def behind (data : Bytes) : Bytes := data.drop (data.length / 3 * 3)

/-- A text is its whole groups and what is behind them. -/
theorem groups_append_behind (data : Bytes) : groups data ++ behind data = data :=
  List.take_append_drop _ data

theorem length_groups (data : Bytes) : (groups data).length = data.length / 3 * 3 := by
  rw [groups, List.length_take]
  omega

theorem length_behind (data : Bytes) : (behind data).length = data.length % 3 := by
  rw [behind, List.length_drop]
  omega

theorem groups_of_short {data : Bytes} (h : data.length < 3) : groups data = [] := by
  rw [groups, Nat.div_eq_of_lt h]
  rfl

theorem behind_of_short {data : Bytes} (h : data.length < 3) : behind data = data := by
  rw [behind, Nat.div_eq_of_lt h]
  rfl

theorem take_behind (data : Bytes) : (behind data).take 3 = behind data := by
  refine List.take_of_length_le ?_
  rw [length_behind]
  omega

/-- What one call encodes, in that order, and what it carries over. -/
def pass (left data : Bytes) : Bytes × Bytes :=
  if left.length = 0 ∨ left.length = 3 then (left ++ groups data, behind data)
  else
    let rest := data.drop (2 - left.length)
    (groups rest, left ++ data.take (2 - left.length) ++ (behind rest).take 1)

/-- All the bytes, in the order in which they are encoded. -/
def order : Bytes → List Bytes → Bytes
  | left, [] => left
  | left, chunk :: chunks => (pass left chunk).1 ++ order (pass left chunk).2 chunks

/-- The characters for a sequence of bytes, without breaks. -/
def encodeChars : Bytes → Bytes
  | [] => []
  | [b0] => partChars [b0]
  | [b0, b1] => partChars [b0, b1]
  | b0 :: b1 :: b2 :: data => partChars [b0, b1, b2] ++ encodeChars data

/-- The characters with their breaks, and one at the end unless the last line is full. -/
def wrap (lineLength : ℕ) (cs : Bytes) : Bytes :=
  (putChars lineLength cs).1 ++ if 0 < (putChars lineLength cs).2 then lit "\r\n" else []

/-- Characters are put one after the other, the line length carried along. -/
theorem putChars_append : ∀ (lineLength : ℕ) (cs cs' : Bytes),
    putChars lineLength (cs ++ cs') = ((putChars lineLength cs).1 ++
        (putChars (putChars lineLength cs).2 cs').1, (putChars (putChars lineLength cs).2 cs').2)
  | _, [], _ => rfl
  | lineLength, c :: cs, cs' => by
      rw [List.cons_append, putChars, putChars, putChars_append 0 cs cs',
        putChars_append (lineLength + 1) cs cs']
      split_ifs
      · simp only [List.cons_append, List.append_assoc]
      · rfl

/-- A text whose length is a multiple of three is encoded apart from what follows. -/
theorem encodeChars_append : ∀ {a : Bytes} (b : Bytes), a.length % 3 = 0 →
    encodeChars (a ++ b) = encodeChars a ++ encodeChars b
  | [], b, _ => rfl
  | [_], b, h => absurd h (by simp)
  | [_, _], b, h => absurd h (by simp)
  | b0 :: b1 :: b2 :: a, b, h => by
      have htail : a.length % 3 = 0 := by
        simp only [List.length_cons] at h
        omega
      rw [List.cons_append, List.cons_append, List.cons_append, encodeChars, encodeChars,
        encodeChars_append b htail, List.append_assoc]

/-- Three bytes are one group. -/
theorem encodeChars_of_length_eq {left : Bytes} (h : left.length = 3) :
    encodeChars left = partChars left := by
  match left, h with
  | [_, _, _], _ => rfl

/-- So are one or two, padded. -/
theorem encodeChars_of_short {left : Bytes} (h : left.length ≤ 3) (hpos : 0 < left.length) :
    encodeChars left = partChars left := by
  match left, h, hpos with
  | [_], _, _ => rfl
  | [_, _], _, _ => rfl
  | [_, _, _], _, _ => rfl

/-- The second loop encodes the whole groups. -/
theorem encodeGroups_eq : ∀ (lineLength : ℕ) (data : Bytes),
    encodeGroups lineLength data = ((putChars lineLength (encodeChars (groups data))).1,
      (putChars lineLength (encodeChars (groups data))).2, behind data)
  | _, [] => rfl
  | _, [_] => by
      rw [groups_of_short (by simp), behind_of_short (by simp), encodeGroups]
      · rfl
      · simp
  | _, [_, _] => by
      rw [groups_of_short (by simp), behind_of_short (by simp), encodeGroups]
      · rfl
      · simp
  | lineLength, b0 :: b1 :: b2 :: data => by
      have hlen : (b0 :: b1 :: b2 :: data).length / 3 * 3 = data.length / 3 * 3 + 3 := by
        simp only [List.length_cons]
        omega
      have hgroups : groups (b0 :: b1 :: b2 :: data) = b0 :: b1 :: b2 :: groups data := by
        rw [groups, hlen]
        rfl
      have hbehind : behind (b0 :: b1 :: b2 :: data) = behind data := by
        rw [behind, hlen]
        rfl
      rw [encodeGroups, encodeGroups_eq, hgroups, hbehind, encodeChars, putChars_append]
      rfl

/-- The first loop, by the number of bytes it finds. -/
theorem fillLeft_of_two {left data : Bytes} (h : 2 ≤ left.length) : fillLeft left data = (left, data) := by
  cases data with
  | nil => rfl
  | cons b data =>
    rw [fillLeft, if_pos h]
    split_ifs <;> rfl

/-- What is left over is filled up to two bytes. -/
theorem fillLeft_eq {left data : Bytes} (hpos : 0 < left.length) :
    fillLeft left data = (left ++ data.take (2 - left.length), data.drop (2 - left.length)) := by
  by_cases htwo : 2 ≤ left.length
  · have hzero : 2 - left.length = 0 := by omega
    rw [fillLeft_of_two htwo, hzero, List.take_zero, List.drop_zero, List.append_nil]
  · have hone : 2 - left.length = 1 := by omega
    cases data with
    | nil => rw [fillLeft, List.take_nil, List.drop_nil, List.append_nil]
    | cons b data =>
      rw [fillLeft, if_pos (by omega), if_neg htwo, fillLeft_of_two
        (by rw [List.length_append, List.length_singleton]; omega), hone]
      rfl

/-- What is passed on has whole groups. -/
theorem length_pass (left data : Bytes) : (pass left data).1.length % 3 = 0 := by
  rw [pass]
  split_ifs with h
  · rw [List.length_append, length_groups]
    omega
  · rw [length_groups]
    omega

namespace StreamEncoder

/-- What the three loops do to the bytes carried over and to the data, as `pass` has it. -/
theorem loops_eq (lineLength : ℕ) {left : Bytes} (data : Bytes) (h : left.length ≤ 3) :
    let filled := if 0 < left.length then fillLeft left data else (left, data)
    let flushed := flushLeft lineLength filled.1
    let out := putChars lineLength (encodeChars (pass left data).1)
    let rest := encodeGroups flushed.2.1 filled.2
    flushed.1 ++ rest.1 = out.1 ∧ rest.2.1 = out.2 ∧
      keepLeft flushed.2.2 rest.2.2 = (pass left data).2 := by
  intro filled flushed out rest
  have hrest : rest = _ := encodeGroups_eq flushed.2.1 filled.2
  by_cases hfull : left.length = 3
  · have hfilled : filled = (left, data) := by
      dsimp only [filled]
      rw [if_pos (by omega), fillLeft_of_two (by omega)]
    have hflushed : flushed = ((putChars lineLength (encodeChars left)).1,
        (putChars lineLength (encodeChars left)).2, []) := by
      dsimp only [flushed]
      rw [hfilled, flushLeft, if_pos hfull, encodePart, encodeChars_of_length_eq hfull]
    have hpass : pass left data = (left ++ groups data, behind data) := if_pos (.inr hfull)
    dsimp only [out]
    rw [hrest, hflushed, hfilled, hpass, encodeChars_append _ (by rw [hfull]), putChars_append]
    refine ⟨rfl, rfl, ?_⟩
    dsimp only
    rw [keepLeft_eq (by decide)]
    exact take_behind data
  · have hflushed : filled.1.length ≠ 3 → flushed = ([], lineLength, filled.1) := fun hne => if_neg hne
    by_cases hnone : left.length = 0
    · have hfilled : filled = (left, data) := if_neg (by omega)
      have hpass : pass left data = (left ++ groups data, behind data) := if_pos (.inl hnone)
      dsimp only [out]
      rw [hrest, hflushed (by rw [hfilled]; exact hfull), hfilled, hpass,
        List.length_eq_zero_iff.mp hnone]
      refine ⟨rfl, rfl, ?_⟩
      dsimp only
      rw [keepLeft_eq (by decide)]
      exact take_behind data
    · have hfilled : filled = (left ++ data.take (2 - left.length), data.drop (2 - left.length)) := by
        dsimp only [filled]
        rw [if_pos (by omega), fillLeft_eq (by omega)]
      have hlen : (left ++ data.take (2 - left.length)).length ≤ 2 := by
        rw [List.length_append, List.length_take]
        omega
      have hpass : pass left data = (groups (data.drop (2 - left.length)),
          left ++ data.take (2 - left.length) ++
            (behind (data.drop (2 - left.length))).take 1) := if_neg (by omega)
      dsimp only [out]
      rw [hrest, hflushed (by rw [hfilled]; dsimp only; omega), hfilled, hpass]
      refine ⟨rfl, rfl, ?_⟩
      dsimp only
      rw [keepLeft_eq (by omega)]
      refine congrArg _ ?_
      by_cases htwo : (left ++ data.take (2 - left.length)).length = 2
      · rw [htwo]
      · have hshort : data.drop (2 - left.length) = [] := by
          rw [List.length_append, List.length_take] at htwo
          exact List.drop_eq_nil_of_le (by omega)
        rw [hshort, behind_of_short (by decide), List.take_nil, List.take_nil]

/-- **One call**, as `pass` has it. -/
theorem encodeStream_eq (s : StreamEncoder) {data : Bytes}
    (h : s.totalEncoded + data.length ≤ maxFileSize) :
    ∃ s' : StreamEncoder, s.encodeStream data =
        .ok ((putChars s.lineLength (encodeChars (pass s.left data).1)).1, s') ∧
      s'.left = (pass s.left data).2 ∧
      s'.lineLength = (putChars s.lineLength (encodeChars (pass s.left data).1)).2 ∧
      s'.totalEncoded = s.totalEncoded + data.length := by
  obtain ⟨hout, hline, hleft⟩ := loops_eq s.lineLength data s.left_le
  rw [encodeStream, if_neg (Nat.not_lt.mpr h)]
  exact ⟨_, congrArg Except.ok (Prod.ext hout rfl), hleft, hline, rfl⟩

/-- The end encodes what is left over. -/
theorem finalize_eq (s : StreamEncoder) :
    s.finalize.1 = wrap s.lineLength (encodeChars s.left) := by
  rw [finalize, wrap]
  by_cases hpos : 0 < s.left.length
  · rw [encodeChars_of_short s.left_le hpos, if_pos hpos]
    rfl
  · rw [List.length_eq_zero_iff.mp (Nat.eq_zero_of_not_pos hpos)]
    rfl

end StreamEncoder

/-- Wrapping goes on where it was. -/
theorem wrap_append (lineLength : ℕ) (cs cs' : Bytes) :
    wrap lineLength (cs ++ cs') =
      (putChars lineLength cs).1 ++ wrap (putChars lineLength cs).2 cs' := by
  rw [wrap, wrap, putChars_append, List.append_assoc]

/-- The order in which the bytes are encoded decides what is written. -/
theorem encodeChunks_eq : ∀ (s : StreamEncoder) (chunks : List Bytes),
    s.totalEncoded + chunks.flatten.length ≤ maxFileSize →
    (s.encodeChunks chunks).map (fun r => r.1 ++ r.2.finalize.1) =
      .ok (wrap s.lineLength (encodeChars (order s.left chunks)))
  | s, [], _ => congrArg Except.ok s.finalize_eq
  | s, chunk :: chunks, h => by
      rw [List.flatten_cons, List.length_append] at h
      have hchunk : s.totalEncoded + chunk.length ≤ maxFileSize := by omega
      obtain ⟨s', hs', hleft, hline, htotal⟩ := s.encodeStream_eq hchunk
      have htail := encodeChunks_eq s' chunks (by omega)
      rw [StreamEncoder.encodeChunks, hs', order, encodeChars_append _ (length_pass s.left chunk),
        wrap_append, ← hleft, ← hline]
      dsimp only
      cases hc : s'.encodeChunks chunks with
      | error e =>
        rw [hc] at htail
        exact absurd htail (by simp [Except.map])
      | ok r =>
        rw [hc] at htail
        have hout : r.1 ++ r.2.finalize.1 = _ := Except.ok.inj htail
        rw [← hout]
        exact congrArg Except.ok (List.append_assoc _ _ _)

/-- **What a new encoder writes** for the chunks, none of its calls throwing. -/
theorem streamed_eq {chunks : List Bytes} (h : chunks.flatten.length ≤ maxFileSize) :
    streamed chunks = .ok (wrap 0 (encodeChars (order [] chunks))) :=
  encodeChunks_eq {} chunks (by simpa using h)

/-! ## The output gives the bytes back -/

/-- A group is made of characters of the alphabet and of padding. -/
theorem isValidBase64_partChars (part : Bytes) : ∀ c ∈ partChars part, isValidBase64 c = true := by
  have hpad : isValidBase64 '='.toUInt8 = true := by decide
  have hvalid := isValidBase64_alphabetAt
  intro c hc
  simp only [partChars, List.mem_cons, List.not_mem_nil, or_false] at hc
  rcases hc with rfl | rfl | rfl | rfl
  · exact hvalid _
  · exact hvalid _
  · split_ifs
    · exact hvalid _
    · exact hpad
  · split_ifs
    · exact hvalid _
    · exact hpad

theorem eraseBreaks_partChars (part : Bytes) : eraseBreaks (partChars part) = partChars part :=
  eraseBreaks_of_noBreak (noBreak_of_isValidBase64 (isValidBase64_partChars part))

/-- Without their breaks, the two encoders write the same. -/
theorem encodeChars_eq : ∀ (lineLength : ℕ) (data : Bytes),
    encodeChars data = eraseBreaks (chunkBytes lineLength data)
  | _, [] => rfl
  | lineLength, [b0] => by
      have hpart : chunkBytes lineLength [b0] = partChars [b0] := by simp [chunkBytes, partChars]
      rw [hpart, eraseBreaks_partChars]
      rfl
  | lineLength, [b0, b1] => by
      have hpart : chunkBytes lineLength [b0, b1] = partChars [b0, b1] := by
        simp [chunkBytes, partChars]
      rw [hpart, eraseBreaks_partChars]
      rfl
  | lineLength, b0 :: b1 :: b2 :: data => by
      have hpart : ∀ s, chunkBytes lineLength (b0 :: b1 :: b2 :: data) = partChars [b0, b1, b2] ++ s →
          eraseBreaks (chunkBytes lineLength (b0 :: b1 :: b2 :: data)) =
            partChars [b0, b1, b2] ++ eraseBreaks s := by
        intro s hs
        rw [hs, eraseBreaks_append, eraseBreaks_partChars]
      rw [encodeChars]
      by_cases hbreak : 76 ≤ lineLength + 4 ∧ data ≠ []
      · rw [hpart (lit "\r\n" ++ chunkBytes 0 data) (by rw [chunkBytes, if_pos hbreak]; rfl),
          eraseBreaks_append, encodeChars_eq 0 data]
        rfl
      · rw [hpart (chunkBytes (lineLength + 4) data) (by rw [chunkBytes, if_neg hbreak]; rfl),
          encodeChars_eq (lineLength + 4) data]

/-- Unwrapped text decodes to what was encoded. -/
theorem decodeGroups_encodeChars (data : Bytes) : decodeGroups (encodeChars data) = .ok data := by
  rw [encodeChars_eq 0]
  exact (decodeGroups_chunkBytes 0 data).1

/-- **The round trip without line breaks.** -/
theorem decodeBase64_encodeChars (data : Bytes) : decodeBase64 (encodeChars data) = .ok data := by
  rw [encodeChars_eq 0]
  exact decodeBase64_chunkBytes data

theorem noBreak_encodeChars (data : Bytes) : NoBreak (encodeChars data) := by
  rw [encodeChars_eq 0]
  exact noBreak_eraseBreaks _

theorem encodeChars_eq_nil_iff {data : Bytes} : encodeChars data = [] ↔ data = [] := by
  constructor
  · intro h
    have hdecode := decodeBase64_encodeChars data
    rw [h] at hdecode
    exact (Except.ok.inj hdecode).symm
  · rintro rfl
    rfl

/-- Breaking lines adds nothing but breaks. -/
theorem eraseBreaks_putChars : ∀ (lineLength : ℕ) (cs : Bytes),
    eraseBreaks (putChars lineLength cs).1 = eraseBreaks cs
  | _, [] => rfl
  | lineLength, c :: cs => by
      have hcons : ∀ s : Bytes, eraseBreaks (c :: s) = eraseBreaks [c] ++ eraseBreaks s :=
        fun s => eraseBreaks_append [c] s
      rw [putChars]
      split_ifs
      · rw [hcons, eraseBreaks_append, eraseBreaks_putChars 0 cs, hcons cs]
        rfl
      · rw [hcons, eraseBreaks_putChars, hcons cs]

/-- Nor does wrapping. -/
theorem eraseBreaks_wrap (lineLength : ℕ) (cs : Bytes) :
    eraseBreaks (wrap lineLength cs) = eraseBreaks cs := by
  rw [wrap, eraseBreaks_append, eraseBreaks_putChars]
  split_ifs
  · exact List.append_nil _
  · exact List.append_nil _

/-- **The order can be read off the output.** -/
theorem wrap_encodeChars_inj {a b : Bytes} :
    wrap 0 (encodeChars a) = wrap 0 (encodeChars b) ↔ a = b := by
  refine ⟨fun h => ?_, fun h => by rw [h]⟩
  have hchars : ∀ data, eraseBreaks (wrap 0 (encodeChars data)) = encodeChars data := by
    intro data
    rw [eraseBreaks_wrap, encodeChars_eq 0, eraseBreaks_of_noBreak (noBreak_eraseBreaks _)]
  have hsame : encodeChars a = encodeChars b := by rw [← hchars a, h, hchars b]
  exact Except.ok.inj ((decodeGroups_encodeChars a).symm.trans
    ((congrArg decodeGroups hsame).trans (decodeGroups_encodeChars b)))

/-! ## When the order is that of the chunks -/

/-- **The chunks do no harm**, where `left` is carried over and the bytes `ahead` were encoded
before it although they came after it: no byte is lost, and those that overtake two others commute
with them. The second of two bytes behind the groups is not kept. -/
def Harmless : (left ahead : Bytes) → List Bytes → Prop
  | left, ahead, [] => left ++ ahead = ahead ++ left
  | left, ahead, chunk :: chunks =>
    if left.length = 0 ∨ left.length = 3 then Harmless (behind chunk) [] chunks
    else
      let pair := left ++ chunk.take (2 - left.length)
      let rest := chunk.drop (2 - left.length)
      match behind rest with
      | [] => Harmless pair (ahead ++ rest) chunks
      | [b] => pair ++ (ahead ++ groups rest) = (ahead ++ groups rest) ++ pair ∧
          Harmless (pair ++ [b]) [] chunks
      | _ => False

/-- The order of what is written holds no more than what came in. -/
theorem length_order_le : ∀ (left : Bytes) (chunks : List Bytes),
    (order left chunks).length ≤ left.length + chunks.flatten.length
  | left, [] => by simp [order]
  | left, chunk :: chunks => by
      have hrest := length_order_le (pass left chunk).2 chunks
      have hpass : (pass left chunk).1.length + (pass left chunk).2.length ≤
          left.length + chunk.length := by
        rw [pass]
        split_ifs
        · simp only [List.length_append, length_groups, length_behind]
          omega
        · simp only [List.length_append, length_groups, length_behind, List.length_take,
            List.length_drop]
          omega
      rw [order, List.length_append, List.flatten_cons, List.length_append]
      omega

/-- Three bytes carried over are encoded next. -/
theorem order_of_full {left : Bytes} (h : left.length = 3) :
    ∀ chunks, ∃ rest, order left chunks = left ++ rest
  | [] => ⟨[], (List.append_nil left).symm⟩
  | chunk :: chunks => by
      rw [order, pass, if_pos (.inr h)]
      exact ⟨_, List.append_assoc _ _ _⟩

/-- Two texts that change places, with what follows them. -/
theorem append_swap_iff {a p x y : Bytes} :
    a ++ p ++ x = p ++ a ++ y ↔ p ++ a = a ++ p ∧ x = y := by
  constructor
  · intro h
    obtain ⟨hswap, hrest⟩ := List.append_inj h (by
      rw [List.length_append, List.length_append, Nat.add_comm])
    exact ⟨hswap.symm, hrest⟩
  · rintro ⟨hswap, rfl⟩
    rw [hswap]

/-- A chunk completes the pair, or there is nothing in it. -/
theorem pair_or_empty {left : Bytes} (hle : left.length ≤ 3)
    (hends : ¬ (left.length = 0 ∨ left.length = 3)) (chunk : Bytes) :
    (left ++ chunk.take (2 - left.length)).length = 2 ∨
      (left ++ chunk.take (2 - left.length) = left ∧ chunk.drop (2 - left.length) = []) := by
  rcases Nat.lt_or_ge chunk.length (2 - left.length) with hshort | henough
  · have hnil : chunk = [] := List.length_eq_zero_iff.mp (by omega)
    exact .inr (by simp [hnil])
  · refine .inl ?_
    rw [List.length_append, List.length_take]
    omega

/-- What completes the pair is the first of what comes in, or the pair was complete. -/
theorem append_pair {left ahead : Bytes} (hahead : ahead = [] ∨ left.length = 2)
    (chunk tail : Bytes) :
    left ++ ahead ++ (chunk ++ tail) =
      left ++ chunk.take (2 - left.length) ++ ahead ++ (chunk.drop (2 - left.length) ++ tail) := by
  rcases hahead with rfl | htwo
  · have hchunk := List.take_append_drop (2 - left.length) chunk
    nth_rewrite 1 [← hchunk]
    simp only [List.append_nil, List.append_assoc]
  · have hzero : 2 - left.length = 0 := by omega
    rw [hzero, List.take_zero, List.drop_zero, List.append_nil]

/-- One byte behind the groups: it completes the pair, which what is ahead has overtaken. -/
theorem order_one_iff {pair ahead rest : Bytes} {b : UInt8} (htwo : pair.length = 2)
    (hbehind : behind rest = [b]) (chunks : List Bytes) :
    ahead ++ (groups rest ++ order (pair ++ [b]) chunks) =
        pair ++ ahead ++ (rest ++ chunks.flatten) ↔
      pair ++ (ahead ++ groups rest) = (ahead ++ groups rest) ++ pair ∧
        order (pair ++ [b]) chunks = pair ++ [b] ++ chunks.flatten := by
  have hfull : (pair ++ [b]).length = 3 := by
    rw [List.length_append, htwo]
    rfl
  obtain ⟨tail, htail⟩ := order_of_full hfull chunks
  have hrest := groups_append_behind rest
  rw [hbehind] at hrest
  have hout : ahead ++ (groups rest ++ (pair ++ [b] ++ tail)) =
      ahead ++ groups rest ++ pair ++ ([b] ++ tail) := by
    simp only [List.append_assoc]
  have hin : pair ++ ahead ++ (rest ++ chunks.flatten) =
      pair ++ (ahead ++ groups rest) ++ ([b] ++ chunks.flatten) := by
    nth_rewrite 1 [← hrest]
    simp only [List.append_assoc]
  rw [htail, hout, hin, append_swap_iff]
  simp only [List.append_assoc, List.append_cancel_left_eq]

/-- Two bytes behind the groups: the second is lost. -/
theorem order_ne_of_two {pair ahead rest : Bytes} {b b' : UInt8} {bs : Bytes}
    (hbehind : behind rest = b :: b' :: bs) (chunks : List Bytes) :
    ahead ++ (groups rest ++ order (pair ++ [b]) chunks) ≠
      pair ++ ahead ++ (rest ++ chunks.flatten) := by
  intro heq
  have hlen := congrArg List.length heq
  have hle := length_order_le (pair ++ [b]) chunks
  have hrest := congrArg List.length (groups_append_behind rest)
  rw [hbehind] at hrest
  simp only [List.length_append, List.length_cons, List.length_nil] at hlen hle hrest
  omega

/-- **Harmless chunks are those whose bytes are encoded in order.** -/
theorem harmless_iff : ∀ {left ahead : Bytes} {chunks : List Bytes}, left.length ≤ 3 →
    (ahead = [] ∨ left.length = 2) →
    (Harmless left ahead chunks ↔
      ahead ++ order left chunks = left ++ ahead ++ chunks.flatten)
  | left, ahead, [], _, _ => by
      rw [Harmless, order, List.flatten_nil, List.append_nil, eq_comm]
  | left, ahead, chunk :: chunks, hle, hahead => by
      rw [Harmless, order, pass, List.flatten_cons]
      by_cases hends : left.length = 0 ∨ left.length = 3
      · obtain rfl : ahead = [] := hahead.resolve_right (by omega)
        have hlen : (behind chunk).length ≤ 3 := by
          rw [length_behind]
          omega
        have hsplit : left ++ [] ++ (chunk ++ chunks.flatten) =
            left ++ groups chunk ++ (behind chunk ++ chunks.flatten) := by
          rw [List.append_nil, List.append_assoc, ← List.append_assoc (groups chunk),
            groups_append_behind]
        rw [if_pos hends, if_pos hends, harmless_iff hlen (.inl rfl), hsplit, List.nil_append,
          List.nil_append, List.append_nil, List.append_cancel_left_eq]
      · have hpair := pair_or_empty hle hends chunk
        rw [if_neg hends, if_neg hends, append_pair hahead]
        dsimp only
        generalize left ++ chunk.take (2 - left.length) = pair at hpair ⊢
        generalize chunk.drop (2 - left.length) = rest at hpair ⊢
        match hbehind : behind rest with
        | [] =>
          have hrest := groups_append_behind rest
          rw [hbehind, List.append_nil] at hrest
          have hahead' : ahead ++ rest = [] ∨ pair.length = 2 := by
            rcases hpair with htwo | ⟨hsame, hnil⟩
            · exact .inr htwo
            · rw [hsame, hnil, List.append_nil]
              exact hahead
          have hle' : pair.length ≤ 3 := by
            rcases hpair with htwo | ⟨hsame, -⟩
            · omega
            · rw [hsame]
              exact hle
          dsimp only
          rw [harmless_iff hle' hahead', hrest, List.take_nil, List.append_nil]
          simp only [List.append_assoc]
        | [b] =>
          have htwo : pair.length = 2 := by
            refine hpair.resolve_right fun h => ?_
            rw [h.2, behind_of_short (by decide)] at hbehind
            cases hbehind
          have hfull : (pair ++ [b]).length ≤ 3 := by
            rw [List.length_append, htwo]
            exact Nat.le_refl 3
          have htake : [b].take 1 = [b] := rfl
          dsimp only
          rw [harmless_iff hfull (.inl rfl), htake, order_one_iff htwo hbehind, List.nil_append,
            List.append_nil]
        | b :: b' :: bs => exact iff_of_false not_false (order_ne_of_two hbehind chunks)

/-- **Streaming does not depend on chunking exactly for the chunks that do no harm**: the output is
that of one call with all of the bytes. -/
theorem streamed_eq_iff {chunks : List Bytes} (h : chunks.flatten.length ≤ maxFileSize) :
    streamed chunks = streamed [chunks.flatten] ↔ Harmless [] [] chunks := by
  have hwhole : order [] [chunks.flatten] = chunks.flatten := by
    rw [order, order, pass, if_pos (.inl rfl)]
    exact groups_append_behind _
  rw [streamed_eq h, streamed_eq (by simpa using h), hwhole, Except.ok.injEq, wrap_encodeChars_inj,
    harmless_iff (by simp) (.inl rfl), List.nil_append, List.nil_append, List.nil_append]

theorem streamed_eq_iff_man :
    streamed [lit "M", lit "a", lit "n"] = streamed [[lit "M", lit "a", lit "n"].flatten] ↔
      Harmless [] [] [lit "M", lit "a", lit "n"] :=
  streamed_eq_iff (by decide)

/-- Chunks of at most one byte do no harm. -/
theorem harmless_of_length_le_one : ∀ {left : Bytes} {chunks : List Bytes}, left.length ≤ 3 →
    (∀ chunk ∈ chunks, chunk.length ≤ 1) → Harmless left [] chunks
  | left, [], _, _ => List.append_nil left
  | left, chunk :: chunks, hle, h => by
      have hone := h chunk List.mem_cons_self
      have htail : ∀ {left' : Bytes}, left'.length ≤ 3 → Harmless left' [] chunks :=
        fun hle' => harmless_of_length_le_one hle' fun c hc => h c (List.mem_cons_of_mem _ hc)
      rw [Harmless]
      split_ifs with hends
      · refine htail ?_
        rw [length_behind]
        omega
      · have hshort : (chunk.drop (2 - left.length)).length < 3 := by
          rw [List.length_drop]
          omega
        dsimp only
        rw [behind_of_short hshort, groups_of_short hshort]
        match hrest : chunk.drop (2 - left.length) with
        | [] => exact htail (by rw [List.length_append, List.length_take]; omega)
        | [b] =>
          refine ⟨List.append_nil _, htail ?_⟩
          rw [List.length_append, List.length_append, List.length_take, List.length_singleton]
          have hlen := congrArg List.length hrest
          rw [List.length_drop, List.length_singleton] at hlen
          omega
        | b :: b' :: bs =>
          have hlen := congrArg List.length hrest
          rw [List.length_drop, List.length_cons, List.length_cons] at hlen
          omega

/-- **A byte is lost**: the second call finds one byte, takes one more, and of the two others only
the first. -/
theorem streamed_ne_whole :
    streamed [lit "a", lit "bcd"] = .ok (lit "YWJj\r\n") ∧
      streamed [[lit "a", lit "bcd"].flatten] = .ok (lit "YWJjZA==\r\n") ∧
      streamed [lit "a", lit "bcd"] ≠ streamed [[lit "a", lit "bcd"].flatten] := by
  decide +kernel

end MailStack.Base64
