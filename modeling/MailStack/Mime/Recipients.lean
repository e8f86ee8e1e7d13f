import MailStack.Mime.AddressList
import MailStack.Mime.EncodedWords

/-!
# Mime/Recipients — encoded display names in a list of addresses

`ParseMainHeaders` decodes the encoded words of a list before it splits it.  A name then stands
in the list as it is, and its commas part entries; and a `=?` in an address opens a word that takes
the `>` of that address in.  With such an address less stands in angle brackets than the addresses
have (`angled_decodeRest_le`), so the list does not come back, whatever the names are
(`oneEntryEach_iff`).
-/

open Bytes MailStack.Base64 Search

namespace MailStack.Mime

/-! ## A word that is opened in an address -/

/-- There is no angle bracket in the text. -/
abbrev Unangled (s : Bytes) : Prop := Brackets.Plain '<'.toUInt8 '>'.toUInt8 s

section Opened

variable {chunk t : Bytes}

/-- An encoded chunk has no angle bracket. -/
theorem unangled_chunkBytes (hchunk : IsChunk chunk) : Unangled (chunkBytes 0 chunk) :=
  ⟨notMem_chunkBytes hchunk (by decide), notMem_chunkBytes hchunk (by decide)⟩

/-- The end of the word behind is the next one that is found. -/
theorem cutSub_chunkBytes (hchunk : IsChunk chunk) (ht : ¬ lit "?=" <:+: t) (rest : Bytes) :
    cutSub (lit "?=") (t ++ (lit "B?" ++ (chunkBytes 0 chunk ++ (lit "?=" ++ rest)))) =
      some (t ++ (lit "B?" ++ chunkBytes 0 chunk), rest) := by
  obtain ⟨c, s, hcs, hc⟩ := exists_cons_chunkBytes 0 hchunk.1
  have hstart : ¬ lit "?=" <+: '?'.toUInt8 :: (chunkBytes 0 chunk ++ (lit "?=" ++ rest)) := by
    rw [hcs]
    intro h
    exact hc (List.cons_prefix_cons.mp (List.cons_prefix_cons.mp h).2).1.symm
  have hB : 'B'.toUInt8 ∉ lit "?=" := by decide
  have hlit : ∀ u : Bytes, lit "B?" ++ u = 'B'.toUInt8 :: '?'.toUInt8 :: u := fun _ => rfl
  rw [hlit, cutSub_append_of_notMem hB _ ht, cutSub_cons hstart,
    cutSub_append rfl _ (notMem_chunkBytes hchunk (by decide)), cutSub_of_prefix, hlit]
  simp

/-- Only an encoding of one letter is decoded. -/
theorem decodePart_of_length {encoding text : Bytes} (h : encoding.length ≠ 1) :
    decodePart encoding text = text := by
  have hne : ∀ s : Bytes, s.length = 1 → encoding ≠ s := fun s hs heq => h (heq ▸ hs)
  rw [decodePart, if_neg, if_neg]
  · rintro (h | h)
    · exact hne _ rfl h
    · exact hne _ rfl h
  · rintro (h | h)
    · exact hne _ rfl h
    · exact hne _ rfl h

/-- An encoded chunk in a list is no artifact. -/
theorem hasQpArtifacts_chunkBytes (chunk : Bytes) :
    hasQpArtifacts (lit ", =?UTF-8?B?" ++ chunkBytes 0 chunk) = false := by
  obtain ⟨chars, pad, hchars, hnone, hpad⟩ := exists_pad_chunkBytes 0 chunk
  have hfront : hasQpArtifacts (lit ", =?UTF-8?B?" ++ chunkBytes 0 chunk) =
      hasQpArtifacts (lit "?UTF-8?B?" ++ chars ++ pad) := by
    rw [hchars, ← List.append_assoc]
    rfl
  have hnone : '='.toUInt8 ∉ lit "?UTF-8?B?" ++ chars := List.not_mem_append (by decide) hnone
  rw [hfront, hasQpArtifacts_append pad hnone]
  simp only [List.mem_cons, List.not_mem_nil, or_false] at hpad
  rcases hpad with rfl | rfl | rfl <;> rfl

/-- What the word makes of the end of an address, if it takes its bracket in. A bracket is no
base64, so such a text is kept. -/
theorem exists_decodePart (hchunk : IsChunk chunk) (encoding t : Bytes) : ∃ z v,
    decodePart encoding (t ++ (lit ">, =?UTF-8?" ++ (lit "B?" ++ chunkBytes 0 chunk))) =
      z ++ '>'.toUInt8 :: v ∧ z.length ≤ t.length ∧ Unangled v := by
  have htext : t ++ (lit ">, =?UTF-8?" ++ (lit "B?" ++ chunkBytes 0 chunk)) =
      t ++ '>'.toUInt8 :: (lit ", =?UTF-8?B?" ++ chunkBytes 0 chunk) := rfl
  have hplain : Unangled (lit ", =?UTF-8?B?" ++ chunkBytes 0 chunk) :=
    Brackets.plain_append.mpr ⟨by decide, unangled_chunkBytes hchunk⟩
  rw [htext, decodePart]
  split_ifs
  · refine ⟨_, _, decodeQEncoding_append_cons (by decide) (by decide) (by decide) _ t,
      length_decodeQEncoding_le t, fun h => ?_, fun h => ?_⟩
    · exact (mem_of_mem_decodeQEncoding (hasQpArtifacts_chunkBytes chunk) h).elim hplain.1
        (by decide)
    · exact (mem_of_mem_decodeQEncoding (hasQpArtifacts_chunkBytes chunk) h).elim hplain.2
        (by decide)
  · refine ⟨t, _, ?_, Nat.le_refl _, hplain⟩
    split
    · rename_i bytes hbytes
      exact absurd hbytes (decodeBase64_ne_ok
        (List.mem_append_right t List.mem_cons_self) (by decide) bytes)
    · rfl
  · exact ⟨t, _, rfl, Nat.le_refl _, hplain⟩

/-- What stands before and in a word behind an address. -/
theorem behind_wordOf (chunk rest : Bytes) : lit ">, " ++ (wordOf chunk ++ rest) =
    lit ">, =" ++ '?'.toUInt8 :: (lit "UTF-8" ++ '?'.toUInt8 :: (lit "B?" ++
      (chunkBytes 0 chunk ++ (lit "?=" ++ rest)))) := by
  rw [wordOf, encodedWord]
  simp only [List.append_assoc]
  rfl

section

variable (hchunk : IsChunk chunk) (rest : Bytes)
include hchunk

/-- What the charset of a word is in the address, and no more of it. -/
theorem wordBehind_charset (ht : '?'.toUInt8 ∉ t) :
    wordBehind (t ++ (lit ">, " ++ (wordOf chunk ++ rest))) =
      some (lit "UTF-8", lit "B?" ++ chunkBytes 0 chunk, rest) := by
  have hnone : '?'.toUInt8 ∉ t ++ lit ">, =" := List.not_mem_append ht (by decide)
  have hcut := cutSub_chunkBytes hchunk (show ¬ lit "?=" <:+: [] by simp [lit]) rest
  refine wordBehind_eq_some_iff.mpr ⟨t ++ lit ">, =", _, _, cut_eq_some_iff.mpr ⟨?_, hnone⟩,
    cut_eq_some_iff.mpr ⟨rfl, by decide⟩, hcut⟩
  rw [behind_wordOf, List.append_assoc]
  rfl

/-- The encoding is opened in it. -/
theorem wordBehind_encoding {charset : Bytes} (hcharset : '?'.toUInt8 ∉ charset)
    (ht : '?'.toUInt8 ∉ t) :
    wordBehind (charset ++ '?'.toUInt8 :: t ++ (lit ">, " ++ (wordOf chunk ++ rest))) =
      some (t ++ lit ">, =", lit "UTF-8?" ++ (lit "B?" ++ chunkBytes 0 chunk), rest) := by
  have hnone : '?'.toUInt8 ∉ t ++ lit ">, =" := List.not_mem_append ht (by decide)
  have hcut := cutSub_chunkBytes hchunk (show ¬ lit "?=" <:+: lit "UTF-8?" by decide) rest
  refine wordBehind_eq_some_iff.mpr ⟨charset, _, _, cut_eq_some_iff.mpr ⟨?_, hcharset⟩,
    cut_eq_some_iff.mpr ⟨rfl, hnone⟩, hcut⟩
  rw [behind_wordOf]
  simp only [List.append_assoc, List.cons_append]
  rfl

/-- The text is. -/
theorem wordBehind_text {charset encoding : Bytes} (hcharset : '?'.toUInt8 ∉ charset)
    (hencoding : '?'.toUInt8 ∉ encoding) (ht : ¬ lit "?=" <:+: t) :
    wordBehind (charset ++ '?'.toUInt8 :: (encoding ++ '?'.toUInt8 :: t) ++
        (lit ">, " ++ (wordOf chunk ++ rest))) =
      some (encoding, t ++ (lit ">, =?UTF-8?" ++ (lit "B?" ++ chunkBytes 0 chunk)), rest) := by
  have hopen : ¬ lit "?=" <:+: t ++ lit ">, =?UTF-8?" := by
    have hsplit : t ++ lit ">, =?UTF-8?" = t ++ '>'.toUInt8 :: lit ", =?UTF-8?" := rfl
    rw [hsplit, infix_append_cons (by decide), not_or]
    exact ⟨ht, by decide⟩
  have hcut := cutSub_chunkBytes hchunk hopen rest
  rw [List.append_assoc, List.append_assoc] at hcut
  refine wordBehind_eq_some_iff.mpr ⟨charset, encoding ++ '?'.toUInt8 :: (t ++
    (lit ">, =?UTF-8?" ++ (lit "B?" ++ (chunkBytes 0 chunk ++ (lit "?=" ++ rest))))), _,
    cut_eq_some_iff.mpr ⟨?_, hcharset⟩, cut_eq_some_iff.mpr ⟨rfl, hencoding⟩, hcut⟩
  rw [behind_wordOf]
  simp only [List.append_assoc, List.cons_append]
  rfl

/-- **A word that is opened in an address** ends where the first word behind the address does. -/
theorem exists_wordBehind_open (h : wordBehind t = none) : ∃ encoding text,
    wordBehind (t ++ (lit ">, " ++ (wordOf chunk ++ rest))) = some (encoding, text, rest) ∧
      (Unangled (decodePart encoding text) ∨ ∃ z v,
        decodePart encoding text = z ++ '>'.toUInt8 :: v ∧ z.length ≤ t.length ∧ Unangled v) := by
  have hplain := unangled_chunkBytes hchunk
  by_cases hcharset : '?'.toUInt8 ∈ t
  · obtain ⟨charset, t₁, rfl, hnot⟩ := List.eq_append_cons_of_mem hcharset
    by_cases hencoding : '?'.toUInt8 ∈ t₁
    · obtain ⟨encoding, t₂, rfl, hnot₁⟩ := List.eq_append_cons_of_mem hencoding
      have ht₂ : ¬ lit "?=" <:+: t₂ := by
        rw [← cutSub_eq_none_iff]
        by_contra hsome
        obtain ⟨p, hcut⟩ := Option.ne_none_iff_exists'.mp hsome
        have hword : wordBehind (charset ++ '?'.toUInt8 :: (encoding ++ '?'.toUInt8 :: t₂)) =
            some (encoding, p) := wordBehind_eq_some_iff.mpr
          ⟨charset, _, _, cut_eq_some_iff.mpr ⟨rfl, hnot⟩, cut_eq_some_iff.mpr ⟨rfl, hnot₁⟩, hcut⟩
        exact nomatch h.symm.trans hword
      obtain ⟨z, v, hz, hlen, hv⟩ := exists_decodePart hchunk encoding t₂
      refine ⟨_, _, wordBehind_text hchunk rest hnot hnot₁ ht₂, .inr ⟨z, v, hz, hlen.trans ?_, hv⟩⟩
      simp only [List.length_append, List.length_cons]
      omega
    · have hlong : (t₁ ++ lit ">, =").length ≠ 1 := by
        rw [List.length_append]
        simp [lit]
      refine ⟨_, _, wordBehind_encoding hchunk rest hnot hencoding, .inl ?_⟩
      rw [decodePart_of_length hlong]
      exact Brackets.plain_append.mpr ⟨by decide, Brackets.plain_append.mpr ⟨by decide, hplain⟩⟩
  · refine ⟨_, _, wordBehind_charset hchunk rest hcharset, .inl ?_⟩
    rw [decodePart_of_length (by decide)]
    exact Brackets.plain_append.mpr ⟨by decide, hplain⟩

end

end Opened

/-! ## The list as it is written -/

/-- A display name that has to be encoded, and an address. -/
structure Recipient where
  name : Bytes
  address : Bytes
  validUtf8 : ValidUtf8 name
  nonAscii : ∃ c ∈ name, 128 ≤ c
  plainName : ∀ c ∈ lit "<>\"", c ∉ name
  mem_at : '@'.toUInt8 ∈ address
  plainAddress : ∀ c ∈ lit " ,\"<>", c ∉ address
  noBreak_address : NoBreak address

/-- The `To` header: `EncodeHeader(name, " ") + " <" + address + ">"`, joined by `", "`. -/
def toHeader (config : MimeConfig) (rs : List Recipient) : Except Failure Bytes :=
  (rs.mapM fun r => (encodeHeader config r.name (lit " ")).map (mailbox · r.address)).map
    joinAddresses

/-- The header is written, and read as a list with one entry for each address. -/
def OneEntryEach (config : MimeConfig) (rs : List Recipient) : Prop :=
  ∃ header, toHeader config rs = .ok header ∧ ∀ topHeaders out,
    getHeaderValue topHeaders (lit "To:") = header →
      EndsWith (parseMainHeaders topHeaders out).to (rs.map (·.address))

theorem Recipient.needsEncoding (r : Recipient) : needsEncoding r.name = true := by
  obtain ⟨c, hc, hhigh⟩ := r.nonAscii
  refine List.any_eq_true.mpr ⟨c, hc, ?_⟩
  rw [Bool.or_eq_true, decide_eq_true_eq, decide_eq_true_eq]
  exact .inr (UInt8.lt_of_lt_of_le (by decide) hhigh)

/-- A recipient, with the pieces of its name that are encoded. -/
structure Entry where
  recipient : Recipient
  chunks : List Bytes
  ne_nil : chunks ≠ []
  isChunk : ∀ chunk ∈ chunks, IsChunk chunk
  flatten_eq : chunks.flatten = recipient.name

namespace Entry

/-- The words of the name. -/
def written (e : Entry) : Bytes := words (lit " ") e.chunks

/-- The name. -/
def name (e : Entry) : Bytes := e.recipient.name

/-- The address. -/
def address (e : Entry) : Bytes := e.recipient.address

/-- The name of an entry has no angle bracket. -/
theorem unangled_name (e : Entry) : Unangled e.name :=
  ⟨e.recipient.plainName _ (by decide), e.recipient.plainName _ (by decide)⟩

end Entry

theorem isSeparator_blank : IsSeparator (lit " ") := ⟨List.cons_ne_nil _ _, by simp [lit, isBlank]⟩

/-- What follows the first entry, the names being written as `f` does. -/
def behind (f : Entry → Bytes) (es : List Entry) : Bytes :=
  es.flatMap fun e => lit ", " ++ mailbox (f e) e.address

/-- A list of entries is its first and what is behind it. -/
theorem joinAddresses_entries (f : Entry → Bytes) (e : Entry) (es : List Entry) :
    joinAddresses ((e :: es).map fun e => mailbox (f e) e.address) =
      mailbox (f e) e.address ++ behind f es := by
  induction es generalizing e with
  | nil => exact (List.append_nil _).symm
  | cons e' es ih =>
    have hjoin : joinAddresses ((e :: e' :: es).map fun e => mailbox (f e) e.address) =
        mailbox (f e) e.address ++ lit ", " ++
          joinAddresses ((e' :: es).map fun e => mailbox (f e) e.address) := rfl
    rw [hjoin, ih e', behind, behind, List.flatMap_cons]
    simp only [List.append_assoc]

theorem mailbox_append (name address rest : Bytes) :
    mailbox name address ++ rest = name ++ (lit " <" ++ (address ++ '>'.toUInt8 :: rest)) := by
  simp only [mailbox, List.append_assoc]
  rfl

/-- **Every list can be written.** -/
theorem exists_entries {config : MimeConfig} (hsize : 4 ≤ config.headerChunkSize)
    (hshort : config.headerChunkSize ≤ 57) (rs : List Recipient) : ∃ es : List Entry,
      es.map (·.recipient) = rs ∧ toHeader config rs =
        .ok (joinAddresses (es.map fun e => mailbox e.written e.address)) := by
  have hentries : ∃ es : List Entry, es.map (·.recipient) = rs ∧
      (rs.mapM fun r => (encodeHeader config r.name (lit " ")).map (mailbox · r.address)) =
        .ok (es.map fun e => mailbox e.written e.address) := by
    induction rs with
    | nil => exact ⟨[], rfl, rfl⟩
    | cons r rs ih =>
      obtain ⟨es, hes, hmap⟩ := ih
      obtain ⟨chunks, hne, hflatten, hchunks, hencoded⟩ := encodeHeader_words (lit " ") hsize hshort
        r.validUtf8 r.needsEncoding
      refine ⟨⟨r, chunks, hne, hchunks, hflatten⟩ :: es, by rw [List.map_cons, hes], ?_⟩
      rw [List.mapM_cons, hencoded, hmap]
      rfl
  obtain ⟨es, hes, hmap⟩ := hentries
  exact ⟨es, hes, by rw [toHeader, hmap]; rfl⟩

/-! ## What is read -/

section Decode

variable {a gap t : Bytes} {found : Bool} (e : Entry) (es : List Entry)

/-- An address without `=?`, and the name behind it. -/
theorem decodeRest_next (ha : ¬ lit "=?" <:+: a) :
    decodeRest found (a ++ '>'.toUInt8 :: behind Entry.written (e :: es)) =
      a ++ '>'.toUInt8 :: (lit ", " ++ e.name ++ lit " <") ++
        decodeRest false (e.address ++ '>'.toUInt8 :: behind Entry.written es) := by
  have hsplit : a ++ '>'.toUInt8 :: behind Entry.written (e :: es) = (a ++ lit ">, ") ++
      (words (lit " ") e.chunks ++
        (lit " <" ++ (e.address ++ '>'.toUInt8 :: behind Entry.written es))) := by
    rw [behind, List.flatMap_cons, List.append_assoc, mailbox_append, List.append_assoc]
    rfl
  have hopens : Opens (a ++ lit ">, ") := by
    refine .inr ⟨a ++ lit ">,", ' '.toUInt8, by rw [List.append_assoc]; rfl, rfl, ?_⟩
    have hcut : a ++ lit ">," = a ++ '>'.toUInt8 :: lit "," := rfl
    rw [hcut, infix_append_cons (by decide), not_or]
    exact ⟨ha, by decide⟩
  have hright : '>'.toUInt8 ∈ a ++ lit ">, " := List.mem_append_right a (by decide)
  have hleft : '<'.toUInt8 ∈ lit " <" := by decide
  rw [hsplit, decodeRest_words isSeparator_blank e.ne_nil e.isChunk hopens,
    keepGap_of_mem hright (by decide), decodeRest_append hleft (by decide) (by decide), e.flatten_eq]
  simp only [List.append_assoc, List.cons_append]
  rfl

/-- An address with a complete word in it, whatever follows. -/
theorem decodeRest_word {encoding text rest : Bytes} (hcut : cutSub (lit "=?") a = some (gap, t))
    (hword : wordBehind t = some (encoding, text, rest)) (tail : Bytes) :
    decodeRest found (a ++ tail) =
      keepGap found gap ++ decodePart encoding text ++ decodeRest true (rest ++ tail) :=
  decodeRest_of_word (cutSub_append_right hcut) (wordBehind_append hword tail)

/-- **An address in which a word is opened** loses its bracket, or keeps it in what was the word. -/
theorem exists_decodeRest_open (hcut : cutSub (lit "=?") a = some (gap, t))
    (hopen : wordBehind t = none) : ∃ part plain,
      decodeRest found (a ++ '>'.toUInt8 :: behind Entry.written (e :: es)) =
        keepGap found gap ++ part ++ plain ++ lit " <" ++
          decodeRest false (e.address ++ '>'.toUInt8 :: behind Entry.written es) ∧
      Unangled plain ∧ (Unangled part ∨
        ∃ z v, part = z ++ '>'.toUInt8 :: v ∧ z.length ≤ t.length ∧ Unangled v) := by
  obtain ⟨chunk, chunks, hchunks⟩ := List.exists_cons_of_ne_nil e.ne_nil
  have hall := e.isChunk
  rw [hchunks, List.forall_mem_cons] at hall
  let rest := chunks.flatMap (lit " " ++ wordOf ·) ++
    (lit " <" ++ (e.address ++ '>'.toUInt8 :: behind Entry.written es))
  have hsplit : a ++ '>'.toUInt8 :: behind Entry.written (e :: es) =
      a ++ (lit ">, " ++ (wordOf chunk ++ rest)) := by
    rw [behind, List.flatMap_cons, List.append_assoc, mailbox_append, Entry.written, hchunks, words,
      List.append_assoc]
    rfl
  obtain ⟨encoding, text, hword, hpart⟩ := exists_wordBehind_open hall.1 rest hopen
  have hplain : Unangled chunks.flatten := by
    have hname := e.unangled_name
    rw [Entry.name, ← e.flatten_eq, hchunks, List.flatten_cons] at hname
    exact (Brackets.plain_append.mp hname).2
  have hleft : '<'.toUInt8 ∈ lit " <" := by decide
  refine ⟨decodePart encoding text, chunks.flatten, ?_, hplain, hpart⟩
  rw [hsplit, decodeRest_of_word (cutSub_append_right hcut) hword,
    decodeRest_flatMap isSeparator_blank hall.2, decodeRest_append hleft (by decide) (by decide)]
  simp only [List.append_assoc]

/-- A bracket behind makes no word. -/
theorem wordBehind_bracket (h : wordBehind t = none) : wordBehind (t ++ lit ">") = none := by
  by_contra hsome
  obtain ⟨⟨encoding, text, rest⟩, hword⟩ := Option.ne_none_iff_exists'.mp hsome
  obtain ⟨charset, heq⟩ := eq_of_wordBehind hword
  rcases List.eq_nil_or_concat' rest with rfl | ⟨rest, c, rfl⟩
  · have hlast := congrArg List.getLast? heq
    rw [List.append_nil, List.getLast?_append, List.getLast?_append] at hlast
    have hbracket : '>'.toUInt8 = '='.toUInt8 := Option.some.inj hlast
    exact absurd hbracket (by decide)
  · rw [← List.append_assoc] at heq
    have ht := (List.append_inj' heq rfl).1
    have hholds : HoldsWord (lit "=?" ++ t) :=
      ⟨[], charset, encoding, text, rest, by rw [ht]; simp only [List.append_assoc, List.nil_append]⟩
    obtain ⟨gap, t', word, hcut, hword'⟩ := holdsWord_iff.mp hholds
    have hfirst := cutSub_of_prefix (lit "=?") t
    obtain ⟨-, rfl⟩ := Prod.mk.inj (Option.some.inj (hfirst.symm.trans hcut))
    exact nomatch h.symm.trans hword'

/-- **The last address**, if no word is complete in it: a gap at its start may get lost. -/
theorem exists_decodeRest_last (found : Bool) (hnone : ¬ HoldsWord a) : ∃ front,
    decodeRest found (a ++ lit ">") = front ++ lit ">" ∧ front.length ≤ a.length ∧
      (found = false → front = a) := by
  have hright : '>'.toUInt8 ∉ lit "=?" := by decide
  cases hcut : cutSub (lit "=?") a with
  | none =>
    have hnone : cutSub (lit "=?") (a ++ lit ">") = none := by
      rw [cutSub_eq_none_iff] at hcut ⊢
      intro h
      rcases (infix_append_cons (b := []) hright).mp h with h | h
      · exact hcut h
      · exact absurd h (by simp [lit])
    refine ⟨a, ?_, Nat.le_refl _, fun _ => rfl⟩
    rw [decodeRest_of_plain hnone]
    exact keepGap_of_mem (List.mem_append_right a (show '>'.toUInt8 ∈ lit ">" by decide)) (by decide)
  | some p =>
    obtain ⟨gap, t⟩ := p
    have hopen : wordBehind t = none := by
      by_contra hsome
      obtain ⟨word, hword⟩ := Option.ne_none_iff_exists'.mp hsome
      exact hnone (holdsWord_iff.mpr ⟨gap, t, word, hcut, hword⟩)
    have ha := eq_of_cutSub hcut
    refine ⟨keepGap found gap ++ lit "=?" ++ t, ?_, ?_, ?_⟩
    · rw [decodeRest_of_open (cutSub_append_right hcut) (wordBehind_bracket hopen)]
      simp only [List.append_assoc]
    · have hgap := length_keepGap_le found gap
      rw [ha]
      simp only [List.length_append]
      omega
    · rintro rfl
      rw [ha]
      rfl

end Decode

/-! ## Which lists come back -/

/-- No word is opened in an address, or completed in the last. -/
def Intact : Bytes → List Entry → Prop
  | a, [] => ¬ HoldsWord a
  | a, e :: es => ¬ lit "=?" <:+: a ∧ Intact e.address es

/-- How long the addresses are, with their brackets. -/
def total (es : List Entry) : ℕ := (es.map fun e => e.address.length + 2).sum

/-- **Where every address is intact**, the names stand in the list as they are. -/
theorem decodeRest_of_intact : ∀ {es : List Entry} {a : Bytes}, Intact a es →
    decodeRest false (a ++ '>'.toUInt8 :: behind Entry.written es) =
      a ++ '>'.toUInt8 :: behind Entry.name es
  | [], a, h => by
      obtain ⟨front, hdecode, -, hfront⟩ := exists_decodeRest_last false h
      obtain rfl := hfront rfl
      exact hdecode
  | e :: es, a, h => by
      rw [decodeRest_next e es h.1, decodeRest_of_intact h.2, behind, behind, List.flatMap_cons]
      simp only [List.append_assoc, List.cons_append, mailbox_append]

/-- What is added in front of the next address. -/
theorem weight_next {plain : Bytes} (hplain : Unangled plain) (o : Option ℕ) (s : Bytes) :
    Brackets.weight '<'.toUInt8 '>'.toUInt8 o (plain ++ lit " <" ++ s) =
      Brackets.weight '<'.toUInt8 '>'.toUInt8 (some 1) s := by
  have hsplit : plain ++ lit " <" ++ s = (plain ++ lit " ") ++ '<'.toUInt8 :: s := by
    simp only [List.append_assoc]
    rfl
  have hblank : Unangled (plain ++ lit " ") := Brackets.plain_append.mpr ⟨hplain, by decide⟩
  rw [hsplit, hblank.weight_append_cons]

/-- A word that is complete in an address takes some of it away, `rest` being what follows it
there. -/
theorem weight_word_lt (es : List Entry) (found : Bool) (o : Option ℕ)
    {a gap t encoding text rest : Bytes} (hcut : cutSub (lit "=?") a = some (gap, t))
    (hword : wordBehind t = some (encoding, text, rest))
    (hback : ∀ o, Brackets.weight '<'.toUInt8 '>'.toUInt8 o
        (decodeRest true (rest ++ '>'.toUInt8 :: behind Entry.written es)) ≤
      o.getD 0 + rest.length + 1 + total es) :
    Brackets.weight '<'.toUInt8 '>'.toUInt8 o
        (decodeRest found (a ++ '>'.toUInt8 :: behind Entry.written es)) <
      o.getD 0 + a.length + 1 + total es := by
  have hlength := congrArg List.length (eq_of_cutSub hcut)
  have hshort := length_lt_of_wordBehind hword
  have hgap := length_keepGap_le found gap
  have hpart := length_decodePart_le encoding text
  have htwo : (lit "=?").length = 2 := rfl
  simp only [List.length_append, htwo] at hlength
  have hfront := Brackets.weight_add_opened_le (l := '<'.toUInt8) (r := '>'.toUInt8) o
    (keepGap found gap ++ decodePart encoding text)
  have hback := hback (Brackets.opened '<'.toUInt8 '>'.toUInt8 o
    (keepGap found gap ++ decodePart encoding text))
  rw [decodeRest_word hcut hword, Brackets.weight_append]
  rw [List.length_append] at hfront
  omega

/-- An address that opens no word is passed as it is. -/
theorem weight_passed_le (e : Entry) (es : List Entry) (found : Bool) (o : Option ℕ) {a : Bytes}
    (ha : ¬ lit "=?" <:+: a) :
    Brackets.weight '<'.toUInt8 '>'.toUInt8 o
        (decodeRest found (a ++ '>'.toUInt8 :: behind Entry.written (e :: es))) ≤
      o.getD 0 + a.length + 1 + Brackets.weight '<'.toUInt8 '>'.toUInt8 (some 1)
        (decodeRest false (e.address ++ '>'.toUInt8 :: behind Entry.written es)) := by
  have hle := Brackets.weight_append_cons_le (l := '<'.toUInt8) (r := '>'.toUInt8) (by decide) o a
    ((lit ", " ++ e.name ++ lit " <") ++
      decodeRest false (e.address ++ '>'.toUInt8 :: behind Entry.written es))
  have hplain : Unangled (lit ", " ++ e.name) :=
    Brackets.plain_append.mpr ⟨by decide, e.unangled_name⟩
  rw [weight_next hplain] at hle
  rwa [decodeRest_next e es ha, List.append_assoc, List.cons_append]

/-- Nor does a word that is only opened in it add anything; its mark is lost. -/
theorem weight_open_lt (e : Entry) (es : List Entry) (found : Bool) (o : Option ℕ) {a gap t : Bytes}
    (hcut : cutSub (lit "=?") a = some (gap, t)) (hopen : wordBehind t = none) :
    Brackets.weight '<'.toUInt8 '>'.toUInt8 o
        (decodeRest found (a ++ '>'.toUInt8 :: behind Entry.written (e :: es))) <
      o.getD 0 + a.length + 1 + Brackets.weight '<'.toUInt8 '>'.toUInt8 (some 1)
        (decodeRest false (e.address ++ '>'.toUInt8 :: behind Entry.written es)) := by
  obtain ⟨part, plain, hdecode, hplain, hpart⟩ := exists_decodeRest_open e es hcut hopen
  have hlength := congrArg List.length (eq_of_cutSub hcut)
  have hgap := length_keepGap_le found gap
  have htwo : (lit "=?").length = 2 := rfl
  simp only [List.length_append, htwo] at hlength
  rw [hdecode]
  rcases hpart with hpart | ⟨z, v, rfl, hz, hv⟩
  · have hfront := Brackets.weight_add_opened_le (l := '<'.toUInt8) (r := '>'.toUInt8) o
      (keepGap found gap)
    have hall : Unangled (part ++ plain) := Brackets.plain_append.mpr ⟨hpart, hplain⟩
    rw [List.append_assoc (keepGap found gap), List.append_assoc (keepGap found gap),
      List.append_assoc (keepGap found gap), Brackets.weight_append, weight_next hall]
    omega
  · have hle := Brackets.weight_append_cons_le (l := '<'.toUInt8) (r := '>'.toUInt8) (by decide) o
      (keepGap found gap ++ z) (v ++ plain ++ lit " <" ++
        decodeRest false (e.address ++ '>'.toUInt8 :: behind Entry.written es))
    have hall : Unangled (v ++ plain) := Brackets.plain_append.mpr ⟨hv, hplain⟩
    rw [weight_next hall, List.length_append] at hle
    have hassoc : keepGap found gap ++ z ++ '>'.toUInt8 :: (v ++ plain ++ lit " <" ++
        decodeRest false (e.address ++ '>'.toUInt8 :: behind Entry.written es)) =
      keepGap found gap ++ (z ++ '>'.toUInt8 :: v) ++ plain ++ lit " <" ++
        decodeRest false (e.address ++ '>'.toUInt8 :: behind Entry.written es) := by
      simp only [List.append_assoc, List.cons_append]
    rw [← hassoc]
    omega

/-- **The addresses bound what stands in brackets**, and an address that is not intact takes some of
it away. -/
theorem weight_decodeRest_le (es : List Entry) (a : Bytes) (found : Bool) (o : Option ℕ) :
    Brackets.weight '<'.toUInt8 '>'.toUInt8 o
          (decodeRest found (a ++ '>'.toUInt8 :: behind Entry.written es)) ≤
        o.getD 0 + a.length + 1 + total es ∧
      (¬ Intact a es → Brackets.weight '<'.toUInt8 '>'.toUInt8 o
          (decodeRest found (a ++ '>'.toUInt8 :: behind Entry.written es)) <
        o.getD 0 + a.length + 1 + total es) := by
  by_cases hword : HoldsWord a
  · obtain ⟨gap, t, ⟨encoding, text, rest⟩, hcut, hword⟩ := holdsWord_iff.mp hword
    have hrest : rest.length < a.length := by
      have hlength := congrArg List.length (eq_of_cutSub hcut)
      have hshort := length_lt_of_wordBehind hword
      simp only [List.length_append] at hlength
      omega
    have hlt := weight_word_lt es found o hcut hword fun o =>
      (weight_decodeRest_le es rest true o).1
    exact ⟨hlt.le, fun _ => hlt⟩
  · match es with
    | [] =>
      obtain ⟨front, hdecode, hfront, -⟩ := exists_decodeRest_last found hword
      refine ⟨?_, fun h => absurd hword h⟩
      have hle := Brackets.weight_append_cons_le (l := '<'.toUInt8) (r := '>'.toUInt8) (by decide) o
        front []
      rw [Brackets.weight] at hle
      have hdecode : decodeRest found (a ++ '>'.toUInt8 :: behind Entry.written []) =
        front ++ ['>'.toUInt8] := hdecode
      rw [hdecode]
      omega
    | e :: es =>
      have htotal : total (e :: es) = e.address.length + 2 + total es := rfl
      have hnext := weight_decodeRest_le es e.address false (some 1)
      rw [Option.getD_some] at hnext
      cases hcut : cutSub (lit "=?") a with
      | none =>
        have ha := cutSub_eq_none_iff.mp hcut
        have hle := weight_passed_le e es found o ha
        refine ⟨by omega, fun h => ?_⟩
        have := hnext.2 fun hintact => h ⟨ha, hintact⟩
        omega
      | some p =>
        obtain ⟨gap, t⟩ := p
        have hopen : wordBehind t = none := by
          by_contra hsome
          obtain ⟨word, hsome⟩ := Option.ne_none_iff_exists'.mp hsome
          exact hword (holdsWord_iff.mpr ⟨gap, t, word, hcut, hsome⟩)
        have hlt := weight_open_lt e es found o hcut hopen
        exact ⟨by omega, fun _ => by omega⟩
termination_by a.length + total es
decreasing_by
  · exact Nat.add_lt_add_right hrest _
  · omega

/-- No address opens a word, and the last one, behind which nothing is, holds none. -/
theorem intact_iff : ∀ {e : Entry} {es : List Entry}, Intact e.address es ↔
    (∀ r ∈ ((e :: es).map (·.recipient)).dropLast, ¬ lit "=?" <:+: r.address) ∧
      ∀ r ∈ ((e :: es).map (·.recipient)).getLast?, ¬ HoldsWord r.address
  | e, [] => by simp [Intact, Entry.address]
  | e, e' :: es => by
      have ih := @intact_iff e' es
      rw [List.map_cons] at ih
      rw [Intact, ih, List.map_cons, List.map_cons, List.dropLast_cons_cons, List.forall_mem_cons,
        List.getLast?_cons_cons, Entry.address, and_assoc]

/-! ## The line of the header -/

/-- Encoded words have no break. -/
theorem noBreak_words : ∀ {chunks : List Bytes}, (∀ chunk ∈ chunks, IsChunk chunk) →
    NoBreak (words (lit " ") chunks)
  | [], _ => by decide
  | chunk :: chunks, h => by
      obtain ⟨hchunk, hchunks⟩ := List.forall_mem_cons.mp h
      rw [words, noBreak_append]
      refine ⟨hchunk.isEncodedWord.noBreak, ?_⟩
      clear h hchunk
      induction chunks with
      | nil => decide
      | cons chunk chunks ih =>
        obtain ⟨hchunk, hchunks⟩ := List.forall_mem_cons.mp hchunks
        rw [List.flatMap_cons, noBreak_append, noBreak_append]
        exact ⟨⟨by decide, hchunk.isEncodedWord.noBreak⟩, ih hchunks⟩

theorem noBreak_entry (e : Entry) : NoBreak (mailbox e.written e.address) := by
  rw [mailbox, noBreak_append, noBreak_append, noBreak_append]
  exact ⟨⟨⟨noBreak_words e.isChunk, by decide⟩, e.recipient.noBreak_address⟩, by decide⟩

/-- The line is read as it is written. -/
theorem getHeaderValue_toLine (e : Entry) (es : List Entry) :
    getHeaderValue (lit "To: " ++
        joinAddresses ((e :: es).map fun e => mailbox e.written e.address)) (lit "To:") =
      joinAddresses ((e :: es).map fun e => mailbox e.written e.address) := by
  let f : Field :=
    { name := lit "To"
      value := joinAddresses ((e :: es).map fun e => mailbox e.written e.address)
      isFieldName := by decide
      noBreak_value := noBreak_joinAddresses (List.forall_mem_map.mpr fun e _ => noBreak_entry e)
      noBreak_more := by simp }
  have hvalue := @getHeaderValue_blockLines (lit "To:") (lit "to") (by decide) [] (by simp) f
    (show iequals (lit "To") (lit "to") = true by decide) []
  have hline : joinLines (blockLines ([] ++ [f])) = lit "To: " ++ f.value := rfl
  rw [hline] at hvalue
  refine hvalue.trans (trim_of_not_blank (fun c hc => ?_) fun c hc => ?_)
  · have hfirst : f.value.head? = some '='.toUInt8 := by
      obtain ⟨chunk, chunks, hchunks⟩ := List.exists_cons_of_ne_nil e.ne_nil
      have heq : f.value = _ := joinAddresses_entries Entry.written e es
      rw [heq, mailbox_append, Entry.written, hchunks]
      rfl
    obtain rfl := Option.some.inj (hfirst.symm.trans hc)
    decide
  · have hlast : ∀ (es : List Entry) (e : Entry),
        (joinAddresses ((e :: es).map fun e => mailbox e.written e.address)).getLast? =
          some '>'.toUInt8 := by
      intro es
      induction es with
      | nil => exact fun e => List.getLast?_concat
      | cons e' es ih =>
        intro e
        have hjoin : joinAddresses ((e :: e' :: es).map fun e => mailbox e.written e.address) =
            mailbox e.written e.address ++ lit ", " ++
              joinAddresses ((e' :: es).map fun e => mailbox e.written e.address) := rfl
        rw [hjoin, List.getLast?_append, ih e']
        rfl
    obtain rfl := Option.some.inj ((hlast es e).symm.trans hc)
    decide

/-! ## The recipients -/

/-- The value of the header, decoded. -/
theorem decodeEncodedWord_entries (e : Entry) (es : List Entry) :
    decodeEncodedWord (joinAddresses ((e :: es).map fun e => mailbox e.written e.address)) =
      e.name ++ (lit " <" ++
        decodeRest false (e.address ++ '>'.toUInt8 :: behind Entry.written es)) := by
  have hleft : '<'.toUInt8 ∈ lit " <" := by decide
  rw [joinAddresses_entries Entry.written, mailbox_append, Entry.written,
    decodeEncodedWord_words isSeparator_blank e.ne_nil e.isChunk, e.flatten_eq,
    decodeRest_append hleft (by decide) (by decide)]
  rfl

/-- An entry is a mailbox. -/
theorem isMailbox_entry (e : Entry) : IsMailbox (e.name, e.address) := by
  refine ⟨e.recipient.plainName, fun c hc => e.recipient.plainAddress c ?_⟩
  exact (show lit "<>" ⊆ lit " ,\"<>" by decide) hc

/-- **The list comes back** exactly if every address is intact and the commas of every name lead.
Otherwise less stands in brackets than the addresses have. -/
theorem endsWith_entries_iff (e : Entry) (es : List Entry) :
    EndsWith (splitAddresses (decodeEncodedWord
        (joinAddresses ((e :: es).map fun e => mailbox e.written e.address))))
      ((e :: es).map (·.address)) ↔
        (∀ x ∈ e :: es, CommasLead x.name) ∧ Intact e.address es := by
  have hms : ∀ m ∈ (e :: es).map fun x => (x.name, x.address), IsMailbox m :=
    List.forall_mem_map.mpr fun x _ => isMailbox_entry x
  have haddresses : (e :: es).map (·.address) =
      ((e :: es).map fun x => (x.name, x.address)).map Prod.snd := by rw [List.map_map]; rfl
  rw [decodeEncodedWord_entries]
  by_cases hintact : Intact e.address es
  · have hlist : e.name ++ (lit " <" ++ (e.address ++ '>'.toUInt8 :: behind Entry.name es)) =
        mailboxes ((e :: es).map fun x => (x.name, x.address)) := by
      rw [mailboxes, List.map_map, ← mailbox_append]
      exact (joinAddresses_entries Entry.name e es).symm
    rw [decodeRest_of_intact hintact, hlist, haddresses, endsWith_splitAddresses_iff hms,
      List.forall_mem_map, and_iff_left hintact]
  · refine iff_of_false (fun h => ?_) fun h => hintact h.2
    have hsum := sum_length_le_of_endsWith (fun a ha => by
      obtain ⟨x, -, rfl⟩ := List.mem_map.mp ha
      exact (isMailbox_entry x).2) h
    have hlt := (weight_decodeRest_le es e.address false (some 1)).2 hintact
    have hname := weight_next e.unangled_name none
      (decodeRest false (e.address ++ '>'.toUInt8 :: behind Entry.written es))
    have htotal : (((e :: es).map (·.address)).map fun a => a.length + 2).sum = total (e :: es) := by
      rw [List.map_map]
      rfl
    have hcons : total (e :: es) = e.address.length + 2 + total es := rfl
    rw [htotal, angled, ← List.append_assoc, hname] at hsum
    rw [Option.getD_some] at hlt
    omega

/-- **Encoded display names change the list of recipients**, unless nothing but blanks and commas
stands before a comma in a name, no address but the last has a `=?` in it, and the last has no
complete encoded word in it. -/
theorem oneEntryEach_iff {config : MimeConfig} (hsize : 4 ≤ config.headerChunkSize)
    (hshort : config.headerChunkSize ≤ 57) (rs : List Recipient) :
    OneEntryEach config rs ↔ (∀ r ∈ rs, CommasLead r.name) ∧
      (∀ r ∈ rs.dropLast, ¬ lit "=?" <:+: r.address) ∧
        ∀ r ∈ rs.getLast?, ¬ HoldsWord r.address := by
  obtain ⟨es, rfl, hheader⟩ := exists_entries hsize hshort rs
  cases es with
  | nil =>
    refine iff_of_true ⟨[], hheader, fun topHeaders out hvalue => ?_⟩ (by simp)
    rw [parseMainHeaders, hvalue]
    exact .nil
  | cons e es =>
    have haddresses : ((e :: es).map (·.recipient)).map (·.address) = (e :: es).map (·.address) := by
      rw [List.map_map]
      rfl
    rw [← intact_iff, List.forall_mem_map]
    refine Iff.trans ⟨?_, fun h => ?_⟩ (endsWith_entries_iff e es)
    · rintro ⟨header, hok, hread⟩
      obtain rfl := Except.ok.inj (hheader.symm.trans hok)
      have hto := hread _ {} (getHeaderValue_toLine e es)
      rwa [parseMainHeaders, getHeaderValue_toLine, haddresses] at hto
    · refine ⟨_, hheader, fun topHeaders out hvalue => ?_⟩
      rwa [parseMainHeaders, hvalue, haddresses]

/-- A name without commas. -/
def zoe : Recipient where
  name := lit "Zo" ++ [0xC3, 0xA9]
  address := lit "zoe@example.org"
  validUtf8 := ⟨['Z', 'o', Char.ofNat 0xE9], by decide⟩
  nonAscii := ⟨0xC3, by decide, by decide⟩
  plainName := by decide +kernel
  mem_at := by decide
  plainAddress := by decide +kernel
  noBreak_address := by decide

/-- A name with a comma behind a letter. -/
def zoeBoss : Recipient where
  name := lit "Zo" ++ [0xC3, 0xA9] ++ lit ", boss"
  address := lit "zoe@example.org"
  validUtf8 := ⟨['Z', 'o', Char.ofNat 0xE9, ',', ' ', 'b', 'o', 's', 's'], by decide⟩
  nonAscii := ⟨0xC3, by decide, by decide⟩
  plainName := by decide +kernel
  mem_at := by decide
  plainAddress := by decide +kernel
  noBreak_address := by decide

theorem oneEntryEach_iff_zoe : OneEntryEach {} [zoe, zoe] := by
  have hopen : ¬ HoldsWord zoe.address := by
    rintro ⟨front, charset, encoding, text, back, heq⟩
    have hmem : '?'.toUInt8 ∈ zoe.address := by simp [heq, lit]
    exact absurd hmem (by decide)
  refine (oneEntryEach_iff (by decide) (by decide) [zoe, zoe]).mpr ⟨by decide, by decide, ?_⟩
  intro r hr
  obtain rfl := Option.some.inj hr
  exact hopen

/-- **A name with a comma in it** is read as two entries. -/
theorem not_oneEntryEach_boss : ¬ OneEntryEach {} [zoeBoss] := by
  rintro ⟨header, hheader, hread⟩
  have hwritten : toHeader {} [zoeBoss] =
      .ok (lit "=?UTF-8?B?Wm/DqSwgYm9zcw==?= <zoe@example.org>") := by decide
  obtain rfl := Except.ok.inj (hwritten.symm.trans hheader)
  have hto := hread (lit "To: =?UTF-8?B?Wm/DqSwgYm9zcw==?= <zoe@example.org>") {} (by decide)
  have hentries : (parseMainHeaders
      (lit "To: =?UTF-8?B?Wm/DqSwgYm9zcw==?= <zoe@example.org>") {}).to =
        [lit "Zo" ++ [0xC3, 0xA9], lit "boss <zoe@example.org>"] := by decide +kernel
  rw [hentries] at hto
  exact absurd hto.length_eq (by decide)

end MailStack.Mime
