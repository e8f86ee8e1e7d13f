import MailStack.Base64.Stream
import MailStack.Base64.StreamDecoder

/-!
# Base64/File — `AttachmentHandler::EncodeFile`

A file is read in blocks of whole groups of three bytes, so the stream encoder carries nothing from
one block to the next, and encodes the bytes in their order (`order_of_groups`).  It breaks a line as
soon as it is full, and the one-shot encoder only where more follows; with the break that the former
adds at the end the two write the same (`wrap_encodeChars`).
-/

open Bytes

namespace MailStack.Base64

/-! ## Reading in blocks -/

/-- `AConfig::BASE64_CHUNK_SIZE`. -/
def base64ChunkSize : ℕ := 3 * 1024

/-- What `file.read(buffer, sizeof(buffer))` reads, as long as it reads anything. -/
def blocks : ℕ → Bytes → List Bytes
  | 0, _ => []
  | _ + 1, [] => []
  | n + 1, c :: s => (c :: s).take base64ChunkSize :: blocks n ((c :: s).drop base64ChunkSize)

/-- `AttachmentHandler::EncodeFile`, of what the file holds; `none` if it cannot be opened. -/
def encodeFile : Option Bytes → Except Exn Bytes
  | none => .error (.runtimeError (lit "Cannot open file"))
  | some content => streamed (blocks content.length content)

example : encodeFile (some (lit "Man")) = .ok (lit "TWFu\r\n") := by decide +kernel

theorem flatten_blocks : ∀ {n : ℕ} {s : Bytes}, s.length ≤ n → (blocks n s).flatten = s
  | 0, s, h => (List.eq_nil_of_length_eq_zero (Nat.eq_zero_of_le_zero h)).symm
  | _ + 1, [], _ => rfl
  | n + 1, c :: s, h => by
      have hrest : ((c :: s).drop base64ChunkSize).length ≤ n := by
        rw [List.length_drop, base64ChunkSize]
        omega
      rw [blocks, List.flatten_cons, flatten_blocks hrest, List.take_append_drop]

/-- Every block but the last is full. -/
theorem length_of_mem_blocks : ∀ {n : ℕ} {s : Bytes}, ∀ b ∈ (blocks n s).dropLast,
    b.length = base64ChunkSize
  | 0, _, b, hb => absurd hb (by simp [blocks])
  | _ + 1, [], b, hb => absurd hb (by simp [blocks])
  | n + 1, c :: s, b, hb => by
      rw [blocks] at hb
      cases hrest : blocks n ((c :: s).drop base64ChunkSize) with
      | nil =>
        rw [hrest] at hb
        exact absurd hb List.not_mem_nil
      | cons b' bs =>
        rw [hrest, List.dropLast_cons_cons, ← hrest] at hb
        rcases List.mem_cons.mp hb with rfl | hb
        · have hne : (c :: s).drop base64ChunkSize ≠ [] := by
            intro hnil
            rw [hnil] at hrest
            cases n <;> exact nomatch hrest
          rw [List.length_take, Nat.min_eq_left]
          exact (Nat.lt_of_not_le fun hle => hne (List.drop_eq_nil_of_le hle)).le
        · exact length_of_mem_blocks b hb

/-! ## The order and the total -/

/-- **Chunks of whole groups are encoded in their order**, the last being of any length. -/
theorem order_of_groups : ∀ {chunks : List Bytes}, (∀ b ∈ chunks.dropLast, b.length % 3 = 0) →
    order [] chunks = chunks.flatten
  | [], _ => rfl
  | [b], _ => by
      have hpass : pass [] b = (groups b, behind b) := if_pos (.inl rfl)
      rw [order, order, hpass, groups_append_behind, List.flatten_singleton]
  | b :: b' :: bs, h => by
      rw [List.dropLast_cons_cons, List.forall_mem_cons] at h
      have hbehind : behind b = [] := List.drop_eq_nil_of_le (by have := h.1; omega)
      have hpass : pass [] b = (groups b, behind b) := if_pos (.inl rfl)
      have hgroups := groups_append_behind b
      rw [hbehind, List.append_nil] at hgroups
      rw [order, hpass, hbehind, hgroups, order_of_groups h.2]
      rfl

/-- **A call throws once the total is too large.** -/
theorem exists_error_encodeChunks : ∀ {chunks : List Bytes} (s : StreamEncoder),
    s.totalEncoded ≤ maxFileSize → maxFileSize < s.totalEncoded + chunks.flatten.length →
      ∃ e, s.encodeChunks chunks = .error e
  | [], s, hle, hlt => absurd hlt (Nat.not_lt.mpr hle)
  | b :: bs, s, hle, hlt => by
      rw [List.flatten_cons, List.length_append, ← Nat.add_assoc] at hlt
      rw [StreamEncoder.encodeChunks]
      by_cases hb : s.totalEncoded + b.length ≤ maxFileSize
      · obtain ⟨s', hs', -, -, htotal⟩ := s.encodeStream_eq hb
        rw [← htotal] at hb hlt
        obtain ⟨e, he⟩ := exists_error_encodeChunks s' hb hlt
        exact ⟨e, by rw [hs']; dsimp only; rw [he]; rfl⟩
      · have herror : s.encodeStream b =
            .error (.runtimeError (lit "File too large for Base64 encoding")) :=
          if_pos (Nat.lt_of_not_le hb)
        exact ⟨_, by rw [herror]⟩

/-! ## The lines -/

section Lines

variable {lineLength : ℕ} (hline : lineLength % 4 = 0)
include hline

/-- The characters of a group stay on one line, and end it where they fill it. -/
theorem putChars_partChars (part : Bytes) :
    putChars lineLength (partChars part) =
      if lineLength + 4 = 76 then (partChars part ++ lit "\r\n", 0)
      else (partChars part, lineLength + 4) := by
  rw [partChars, putChars, if_neg (by omega), putChars, if_neg (by omega), putChars,
    if_neg (by omega), putChars]
  by_cases hfull : lineLength + 4 = 76
  · rw [if_pos hfull, if_pos hfull]
    rfl
  · rw [if_neg hfull, if_neg hfull]
    rfl

/-- A last group. -/
theorem wrap_partChars (part : Bytes) :
    wrap lineLength (partChars part) = partChars part ++ lit "\r\n" := by
  rw [wrap, putChars_partChars hline]
  split_ifs with hfull hpos hpos
  · exact absurd hpos (Nat.lt_irrefl 0)
  · exact List.append_nil _
  · rfl
  · exact absurd (Nat.succ_pos _) hpos

end Lines

/-- **The two encoders break the lines at the same places**, and the stream adds a break at the
end. -/
theorem wrap_encodeChars : ∀ {lineLength : ℕ} {data : Bytes}, lineLength % 4 = 0 →
    lineLength < 76 → data ≠ [] →
      wrap lineLength (encodeChars data) = chunkBytes lineLength data ++ lit "\r\n"
  | _, [], _, _, hne => absurd rfl hne
  | lineLength, [b0], hline, hlt, _ => by
      have hpart : chunkBytes lineLength [b0] = partChars [b0] := by simp [chunkBytes, partChars]
      rw [encodeChars, wrap_partChars hline, hpart]
  | lineLength, [b0, b1], hline, hlt, _ => by
      have hpart : chunkBytes lineLength [b0, b1] = partChars [b0, b1] := by
        simp [chunkBytes, partChars]
      rw [encodeChars, wrap_partChars hline, hpart]
  | lineLength, b0 :: b1 :: b2 :: data, hline, hlt, _ => by
      have hpart : chunkBytes lineLength (b0 :: b1 :: b2 :: data) = partChars [b0, b1, b2] ++
          if 76 ≤ lineLength + 4 ∧ data ≠ [] then lit "\r\n" ++ chunkBytes 0 data
          else chunkBytes (lineLength + 4) data := by rw [chunkBytes]; rfl
      rw [encodeChars, hpart]
      rcases eq_or_ne data [] with rfl | hdata
      · rw [encodeChars, List.append_nil, wrap_partChars hline, if_neg (fun h => h.2 rfl),
          chunkBytes, List.append_nil]
      · rw [wrap_append, putChars_partChars hline]
        by_cases hfull : lineLength + 4 = 76
        · rw [if_pos hfull, if_pos ⟨hfull.ge, hdata⟩,
            wrap_encodeChars (Nat.zero_mod 4) (show 0 < 76 by decide) hdata]
          simp only [List.append_assoc]
        · rw [if_neg hfull, if_neg (fun h => hfull (by omega)),
            wrap_encodeChars (by omega) (by omega) hdata]
          simp only [List.append_assoc]

/-! ## Reading the output -/

theorem unspaced_of_valid {s : Bytes} (h : ∀ c ∈ s, isValidBase64 c = true) : unspaced s = s := by
  refine List.filter_eq_self.mpr fun c hc => ?_
  have hskip : isSkipped c = false := by
    rw [Bool.eq_false_iff]
    intro hskip
    simp only [isSkipped, Bool.or_eq_true, decide_eq_true_eq] at hskip
    rcases hskip with ((rfl | rfl) | rfl) | rfl <;> exact absurd (h _ hc) (by decide)
  rw [hskip]
  rfl

theorem unspaced_putChars : ∀ (lineLength : ℕ) (cs : Bytes),
    unspaced (putChars lineLength cs).1 = unspaced cs
  | _, [] => rfl
  | lineLength, c :: cs => by
      have hcons : ∀ s : Bytes, unspaced (c :: s) = unspaced [c] ++ unspaced s := fun s =>
        List.filter_append [c] s
      rw [putChars]
      split_ifs
      · have hbreak : ∀ s : Bytes, unspaced (lit "\r\n" ++ s) = unspaced s := fun s =>
          List.filter_append (lit "\r\n") s
        rw [hcons, hbreak, unspaced_putChars 0 cs, ← hcons]
      · rw [hcons, unspaced_putChars, ← hcons]

/-- The characters are in groups, each of them valid. -/
theorem framed_encodeChars (data : Bytes) :
    Framed (encodeChars data) ∧ ∀ c ∈ encodeChars data, isValidBase64 c = true :=
  decodes_iff.mp ⟨data, decodeBase64_encodeChars data⟩

/-- **The stream decoder gives the bytes back**, however the output is cut. -/
theorem streamDecoded_wrap {data : Bytes} {chunks : List Bytes}
    (h : chunks.flatten = wrap 0 (encodeChars data)) : streamDecoded chunks = .ok data := by
  have hunspaced : unspaced chunks.flatten = encodeChars data := by
    have hsplit : unspaced chunks.flatten = unspaced (putChars 0 (encodeChars data)).1 ++
        unspaced (if 0 < (putChars 0 (encodeChars data)).2 then lit "\r\n" else []) := by
      rw [h, wrap]
      exact List.filter_append ..
    have hbreak : unspaced (if 0 < (putChars 0 (encodeChars data)).2 then lit "\r\n" else []) = [] := by
      split_ifs <;> rfl
    rw [hsplit, hbreak, List.append_nil, unspaced_putChars,
      unspaced_of_valid (framed_encodeChars data).2]
  rw [streamDecoded_eq, hunspaced,
    decodeParts_eq_decodeGroups (framed_encodeChars data).1 (framed_encodeChars data).2]
  exact decodeGroups_encodeChars data

/-! ## The file -/

theorem order_blocks (content : Bytes) : order [] (blocks content.length content) = content := by
  have hgroups : ∀ b ∈ (blocks content.length content).dropLast, b.length % 3 = 0 := fun b hb => by
    rw [length_of_mem_blocks b hb, base64ChunkSize]
  rw [order_of_groups hgroups, flatten_blocks (Nat.le_refl _)]

/-- **`EncodeFile` writes what the one-shot encoder does**, and a line break behind it: it throws
exactly if that throws, and the stream decoder gives the content back. -/
theorem encodeFile_eq (content : Bytes) :
    ((∃ e, encodeFile (some content) = .error e) ↔ ∃ e, encodeBase64 content = .error e) ∧
      ∀ encoded, encodeBase64 content = .ok encoded →
        encodeFile (some content) = .ok (if content = [] then [] else encoded ++ lit "\r\n") ∧
          ∀ chunks : List Bytes,
            chunks.flatten = (if content = [] then [] else encoded ++ lit "\r\n") →
              streamDecoded chunks = .ok content := by
  have hflatten := flatten_blocks (Nat.le_refl content.length)
  by_cases hsize : content.length ≤ maxFileSize
  · have hencoded : encodeBase64 content = .ok (chunkBytes 0 content) :=
      if_neg (Nat.not_lt.mpr hsize)
    have hfile : encodeFile (some content) = .ok (wrap 0 (encodeChars content)) := by
      rw [encodeFile, streamed_eq (by rw [hflatten]; exact hsize), order_blocks]
    have hwrap : wrap 0 (encodeChars content) =
        if content = [] then [] else chunkBytes 0 content ++ lit "\r\n" := by
      split_ifs with hempty
      · rw [hempty]
        rfl
      · exact wrap_encodeChars (by decide) (by decide) hempty
    refine ⟨iff_of_false ?_ ?_, fun encoded hok => ?_⟩
    · rintro ⟨e, he⟩
      exact nomatch hfile.symm.trans he
    · rintro ⟨e, he⟩
      exact nomatch hencoded.symm.trans he
    · obtain rfl := Except.ok.inj (hencoded.symm.trans hok)
      rw [hfile, ← hwrap]
      exact ⟨rfl, fun chunks => streamDecoded_wrap⟩
  · have hencoded : encodeBase64 content = .error (.runtimeError (lit "File too large")) :=
      if_pos (Nat.lt_of_not_le hsize)
    obtain ⟨e, he⟩ := @exists_error_encodeChunks (blocks content.length content) {}
      (Nat.zero_le _) (by rw [hflatten, Nat.zero_add]; exact Nat.lt_of_not_le hsize)
    refine ⟨iff_of_true ⟨e, ?_⟩ ⟨_, hencoded⟩, fun encoded hok => nomatch hencoded.symm.trans hok⟩
    rw [encodeFile, streamed, he]
    rfl

end MailStack.Base64
