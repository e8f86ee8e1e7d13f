import MailStack.Imap.Utils
import MailStack.Proto.SecureChannel

/-!
# Client/Exchange — the replies `imapExchange` reads

The client cuts each frame into lines, takes one CR off the end of each, and reads on until a line
starts with the tag it sent and `OK`, `NO` or `BAD`; what stands before that line is the reply.  It
does not count the literals of a reply.
-/

open Bytes

namespace MailStack.Client

open Imap Proto

/-- `nextTag`, the counter being `n` once it is incremented. -/
def nextTag (n : ℕ) : Bytes := lit "A" ++ decimal n

/-- The lines of a frame, each without its `'\r'`. -/
def frameLines (frame : Bytes) : List Bytes :=
  (getlines '\n'.toUInt8 frame).map fun l =>
    if l.getLast? = some '\r'.toUInt8 then l.dropLast else l

/-- The loop of `imapExchange` over the lines: the first with the tag decides. -/
def verdict (tag : Bytes) : List Bytes → Option Bool
  | [] => none
  | line :: lines =>
    if (tag ++ lit " OK").isPrefixOf line then some true
    else if (tag ++ lit " NO").isPrefixOf line || (tag ++ lit " BAD").isPrefixOf line then
      some false
    else verdict tag lines

/-- The lines that loop keeps: those before the one that decides. -/
def untaggedLines (tag : Bytes) (lines : List Bytes) : List Bytes :=
  lines.takeWhile fun line => (verdict tag [line]).isNone

/-- The `while` loop of `imapExchange` over the frames as they arrive; `none` where the connection
fails first. -/
def readReply (tag : Bytes) : List Bytes → List Bytes → Option (Bool × List Bytes)
  | _, [] => none
  | untagged, frame :: frames =>
    let lines := frameLines frame
    match verdict tag lines with
    | some ok => some (ok, untagged ++ untaggedLines tag lines)
    | none => readReply tag (untagged ++ lines) frames

/-- The first line of a frame starts as the frame does. -/
theorem exists_frameLines {a : Bytes} (hne : a ≠ []) (hlf : '\n'.toUInt8 ∉ a)
    (hcr : a.getLast? ≠ some '\r'.toUInt8) (b : Bytes) :
    ∃ t rest, frameLines (a ++ b) = (a ++ t) :: rest := by
  have hfirst : ∃ t rest, getlines '\n'.toUInt8 (a ++ b) = (a ++ t) :: rest := by
    by_cases hb : '\n'.toUInt8 ∈ b
    · obtain ⟨t, rest, rfl, ht⟩ := List.eq_append_cons_of_mem hb
      rw [← List.append_assoc, getlines_append_cons _ (List.not_mem_append hlf ht)]
      exact ⟨t, _, rfl⟩
    · refine ⟨b, [], getlines_of_notMem (List.not_mem_append hlf hb) ?_⟩
      exact List.append_ne_nil_of_left_ne_nil hne b
  obtain ⟨t, rest, ht⟩ := hfirst
  rw [frameLines, ht, List.map_cons]
  split_ifs with h
  · cases t with
    | nil => exact absurd ((congrArg List.getLast? (List.append_nil a)).symm.trans h) hcr
    | cons x t => exact ⟨_, _, by rw [List.dropLast_append_of_ne_nil (List.cons_ne_nil x t)]⟩
  · exact ⟨t, _, rfl⟩

/-- The lines of a text that ends each but the last of them by CRLF. -/
theorem frameLines_crlf {last : Bytes} (hne : last ≠ []) (hlf : '\n'.toUInt8 ∉ last)
    (hcr : last.getLast? ≠ some '\r'.toUInt8) :
    ∀ {lines : List Bytes}, (∀ l ∈ lines, '\n'.toUInt8 ∉ l) →
      frameLines (lines.flatMap (· ++ lit "\r\n") ++ last) = lines ++ [last]
  | [], _ => by
      rw [frameLines, List.flatMap_nil, List.nil_append, getlines_of_notMem hlf hne,
        List.map_singleton, if_neg hcr, List.nil_append]
  | l :: lines, h => by
      have hline : '\n'.toUInt8 ∉ l ++ ['\r'.toUInt8] :=
        List.not_mem_append (h l List.mem_cons_self) (by decide)
      have hsplit : (l :: lines).flatMap (· ++ lit "\r\n") ++ last =
          (l ++ ['\r'.toUInt8]) ++ '\n'.toUInt8 :: (lines.flatMap (· ++ lit "\r\n") ++ last) := by
        simp only [List.flatMap_cons, List.append_assoc]
        rfl
      have ih := frameLines_crlf hne hlf hcr fun l' hl' => h l' (List.mem_cons_of_mem l hl')
      rw [frameLines] at ih
      rw [hsplit, frameLines, getlines_append_cons _ hline, List.map_cons, ih, List.getLast?_concat,
        if_pos rfl, List.dropLast_concat, List.cons_append]

theorem isPrefixOf_append_left (tag l l' : Bytes) :
    (tag ++ l).isPrefixOf (tag ++ l') = l.isPrefixOf l' := by
  rw [Bool.eq_iff_iff, List.isPrefixOf_iff_prefix, List.isPrefixOf_iff_prefix,
    List.prefix_append_right_inj]

section

variable {tag line : Bytes} {lines rest : List Bytes}

theorem verdict_cons : verdict tag (line :: lines) =
    (verdict tag [line]).or (verdict tag lines) := by
  rw [verdict, verdict]
  split_ifs <;> rfl

/-- The lines before the one that decides are not tagged. -/
theorem verdict_append (h : ∀ l ∈ lines, verdict tag [l] = none) :
    verdict tag (lines ++ rest) = verdict tag rest := by
  induction lines with
  | nil => rfl
  | cons l lines ih =>
    rw [List.cons_append, verdict_cons, h l List.mem_cons_self, Option.none_or]
    exact ih fun l' hl' => h l' (List.mem_cons_of_mem l hl')

theorem untaggedLines_append (h : ∀ l ∈ lines, verdict tag [l] = none) :
    untaggedLines tag (lines ++ rest) = lines ++ untaggedLines tag rest := by
  rw [untaggedLines, List.takeWhile_append_of_pos fun l hl => by rw [h l hl]; rfl]
  rfl

/-- The line starts as the reply to the request of that tag. -/
def Tagged (tag line : Bytes) : Prop :=
  ∃ status ∈ [lit " OK", lit " NO", lit " BAD"], tag ++ status <+: line

instance (tag line : Bytes) : Decidable (Tagged tag line) :=
  inferInstanceAs (Decidable (∃ status ∈ [lit " OK", lit " NO", lit " BAD"], tag ++ status <+: line))

theorem verdict_eq_none_iff : verdict tag [line] = none ↔ ¬ Tagged tag line := by
  have htagged : Tagged tag line ↔ (tag ++ lit " OK").isPrefixOf line = true ∨
      ((tag ++ lit " NO").isPrefixOf line || (tag ++ lit " BAD").isPrefixOf line) = true := by
    simp [Tagged, List.isPrefixOf_iff_prefix]
  rw [verdict, verdict, htagged, not_or]
  split_ifs with hok hno
  · simp [hok]
  · simp [hno]
  · exact iff_of_true rfl ⟨hok, hno⟩

/-- A line that starts with another byte than the tag is no reply to it. -/
theorem not_tagged_cons {c x : UInt8} (h : c ≠ x) : ¬ Tagged (c :: tag) (x :: line) := by
  rintro ⟨status, -, hprefix⟩
  exact h (List.cons_prefix_cons.mp hprefix).1

/-- A response that starts with a number is no reply to a request, whatever the tag. -/
theorem not_tagged_response (htag : ' '.toUInt8 ∉ tag) (k : ℕ) (s : Bytes) :
    ¬ Tagged tag (lit "* " ++ decimal k ++ s) := by
  have key : ∀ (x : UInt8) (w : Bytes), isDigit x = false →
      ¬ tag ++ ' '.toUInt8 :: x :: w <+: lit "* " ++ decimal k ++ s := by
    rintro x w hx ⟨rest, hrest⟩
    have hcut : cut ' '.toUInt8 (lit "* " ++ decimal k ++ s) = some (lit "*", decimal k ++ s) :=
      cut_eq_some_iff.mpr ⟨by rw [List.append_assoc]; rfl, by decide⟩
    have htagCut : cut ' '.toUInt8 (lit "* " ++ decimal k ++ s) = some (tag, x :: w ++ rest) :=
      cut_eq_some_iff.mpr ⟨by rw [← hrest, List.append_assoc]; rfl, htag⟩
    have hdigits := (Prod.mk.inj (Option.some.inj (hcut.symm.trans htagCut))).2
    obtain ⟨c, ds, hk⟩ := List.exists_cons_of_ne_nil (decimal_ne_nil k)
    have hc : isDigit c = true :=
      isDigit_of_mem_decimal (n := k) (by rw [hk]; exact List.mem_cons_self)
    rw [hk] at hdigits
    exact isDigit_ne hc hx (List.cons.inj hdigits).1
  rintro ⟨status, hstatus, hprefix⟩
  simp only [List.mem_cons, List.not_mem_nil, or_false] at hstatus
  rcases hstatus with rfl | rfl | rfl
  · exact key _ _ (by decide) hprefix
  · exact key _ _ (by decide) hprefix
  · exact key _ _ (by decide) hprefix

/-- What a frame with a verdict leaves: its lines before the tagged one. -/
theorem lines_of_readReply {frame : Bytes} {ok : Bool}
    (h : readReply tag [] [frame] = some (ok, lines)) :
    lines = untaggedLines tag (frameLines frame) := by
  rw [readReply] at h
  split at h
  · exact (Prod.mk.inj (Option.some.inj h)).2.symm
  · exact nomatch h

/-- **A frame whose last line is the first that is tagged.** -/
theorem readReply_singleton {frame : Bytes} {ok : Bool} (hlines : frameLines frame = lines ++ [line])
    (h : ∀ l ∈ lines, verdict tag [l] = none) (hline : verdict tag [line] = some ok) :
    readReply tag [] [frame] = some (ok, lines) := by
  rw [readReply, hlines, verdict_append h, hline, untaggedLines_append h, untaggedLines,
    List.takeWhile_cons_of_neg (by rw [hline]; exact Bool.false_ne_true), List.append_nil]
  rfl

end

/-! ## The way of a frame -/

theorem popBack_concat (x : UInt8) (s : Bytes) : popBack x (s ++ [x]) = s := by
  rw [popBack, List.getLast?_concat, if_pos rfl, List.dropLast_concat]

theorem stripLineEnd_crlf (s : Bytes) : stripLineEnd (s ++ lit "\r\n") = s := by
  have hends : s ++ lit "\r\n" = s ++ ['\r'.toUInt8] ++ ['\n'.toUInt8] := by
    rw [List.append_assoc]
    rfl
  rw [hends, stripLineEnd, popBack_concat, popBack_concat]

/-- A reply sent over a secured channel, and the frame that the other end opens. -/
def Delivered (reply frame : Bytes) : Prop :=
  ∃ (κ : Type) (A : Aead) (tx rx : IConnection κ) (pending : κ → Bytes)
    (server server' client : SecureChannel) (nonce : Bytes) (k k' : κ),
    A.Lawful ∧ Stream tx rx pending ∧ server.secure = true ∧ client.secure = true ∧
    server.txKey = client.rxKey ∧ server.txSeq = client.rxSeq ∧ nonce.length = nonceSize ∧
    pending k = [] ∧ server.send A tx nonce k reply = (true, server', k') ∧
    (client.receive A rx k').1 = some frame

/-- **What is small enough arrives**, less the end of its last line. -/
theorem delivered_iff {reply frame : Bytes} :
    Delivered reply frame ↔
      reply.length + (nonceSize + tagSize) ≤ maxMessageSize ∧ frame = stripLineEnd reply := by
  constructor
  · rintro ⟨κ, A, tx, rx, pending, server, server', client, nonce, k, k', hA, hstream, hserver,
      hclient, hkey, hseq, hnonce, hempty, hsend, hreceive⟩
    obtain ⟨text, htext, hsize, hpending⟩ := pending_of_send hstream hserver hsend
    rw [hkey, hseq] at htext
    have hframe : pending k' =
        bigEndian 4 (nonce ++ text).length ++ (nonce ++ text ++ []) := by
      rw [hpending, hempty, List.nil_append, List.append_nil (nonce ++ text)]
    rw [receive_frame hA hstream hclient hnonce htext hsize hframe] at hreceive
    split_ifs at hreceive with hfits
    exact ⟨hfits, (Option.some.inj hreceive).symm⟩
  · rintro ⟨hfits, rfl⟩
    have hnonce : (List.replicate nonceSize (0 : UInt8)).length = nonceSize := List.length_replicate
    obtain ⟨k', hsend⟩ := send_pipe (a := secured) rfl reply [] hnonce (by omega)
    exact ⟨Bytes, markAead, pipe, pipe, id, secured, _, secured, _, [], k', lawful_markAead,
      stream_pipe, rfl, rfl, rfl, rfl, hnonce, rfl, hsend,
      (receive_send_iff lawful_markAead stream_pipe rfl rfl rfl rfl hnonce rfl hsend).mpr hfits⟩

end MailStack.Client
