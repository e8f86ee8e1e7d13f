import MailStack.Mime.StringUtils

/-!
# Mime/Utf8 — where a valid text can be cut

A text is valid on both sides of a byte that is no continuation byte (`validUtf8_split`), and
`FindUtf8SafeEnd` stops at such a byte, at the end of the text or where it started
(`findUtf8SafeEnd_stop`).
-/

open Bytes

namespace MailStack.Mime

/-- No character goes on at the start of the text. -/
def StartsCharacter (s : Bytes) : Prop := ∀ c ∈ s.head?, isContinuation c = false

theorem validUtf8_nil : ValidUtf8 [] := ⟨[], rfl⟩

theorem ValidUtf8.append {s t : Bytes} (hs : ValidUtf8 s) (ht : ValidUtf8 t) :
    ValidUtf8 (s ++ t) := by
  obtain ⟨cs, rfl⟩ := hs
  obtain ⟨ds, rfl⟩ := ht
  exact ⟨cs ++ ds, List.flatMap_append.symm⟩

/-- **A valid text is valid on both sides of a place where no character goes on.** -/
theorem validUtf8_split {s t : Bytes} (h : ValidUtf8 (s ++ t)) (ht : StartsCharacter t) :
    ValidUtf8 s ∧ ValidUtf8 t := by
  obtain ⟨cs, hcs⟩ := h
  induction cs generalizing s with
  | nil =>
    obtain ⟨rfl, rfl⟩ := List.append_eq_nil_iff.mp hcs
    exact ⟨validUtf8_nil, validUtf8_nil⟩
  | cons c cs ih =>
    rw [List.flatMap_cons] at hcs
    rcases List.append_eq_append_iff.mp hcs with ⟨u, hchar, ht'⟩ | ⟨u, rfl, hrest⟩
    · cases s with
      | nil =>
        exact ⟨validUtf8_nil, c :: cs, by rw [List.flatMap_cons]; exact hcs⟩
      | cons x s =>
        cases u with
        | nil =>
          rw [List.append_nil] at hchar
          refine ⟨⟨[c], ?_⟩, cs, ht'⟩
          rw [List.flatMap_singleton, hchar]
        | cons y u =>
          obtain ⟨b, bs, hc, -, -, hcont⟩ := exists_utf8EncodeChar c
          rw [hc] at hchar
          have hy : y ∈ bs := by
            rw [(List.cons.inj hchar).2]
            exact List.mem_append_right s List.mem_cons_self
          exact absurd (ht y (by rw [ht']; rfl)) (by simp [hcont y hy])
    · obtain ⟨hu, ht⟩ := ih hrest.symm
      exact ⟨.append ⟨[c], by rw [List.flatMap_singleton]⟩ hu, ht⟩

/-- Where the retreat stops. -/
theorem retreat_stop (text : Bytes) (start : ℕ) : ∀ e, retreat text start e ≤ start ∨
    text.length ≤ retreat text start e ∨
      isContinuation (text.getD (retreat text start e) 0) = false
  | 0 => .inl (Nat.zero_le start)
  | e + 1 => by
      rw [retreat]
      split_ifs with hback
      · exact retreat_stop text start e
      · by_cases hstart : start < e + 1
        · by_cases hlen : e + 1 < text.length
          · exact .inr (.inr (by simpa using fun h => hback ⟨hstart, hlen, h⟩))
          · exact .inr (.inl (Nat.le_of_not_lt hlen))
        · exact .inl (Nat.le_of_not_lt hstart)

/-- **`FindUtf8SafeEnd` stops between two characters**, or where it started. -/
theorem findUtf8SafeEnd_stop (text : Bytes) (start maxBytes : ℕ) :
    findUtf8SafeEnd text start maxBytes ≤ start ∨
      StartsCharacter (text.drop (findUtf8SafeEnd text start maxBytes)) := by
  rcases retreat_stop text start (min (start + maxBytes) text.length) with h | h | h
  · exact .inl h
  · refine .inr fun c hc => ?_
    rw [findUtf8SafeEnd, List.drop_eq_nil_of_le h] at hc
    exact absurd hc (by simp)
  · refine .inr fun c hc => ?_
    rw [List.head?_drop] at hc
    rw [List.getD_eq_getElem?_getD] at h
    rw [findUtf8SafeEnd] at hc
    rw [Option.mem_def.mp hc] at h
    exact h

/-- **A valid text is cut into valid texts** at such a place. -/
theorem validUtf8_cut {text : Bytes} {start stop : ℕ} (htext : ValidUtf8 (text.drop start))
    (hle : start ≤ stop) (hstop : StartsCharacter (text.drop stop)) :
    ValidUtf8 ((text.drop start).take (stop - start)) ∧ ValidUtf8 (text.drop stop) := by
  have hsplit : text.drop start = (text.drop start).take (stop - start) ++ text.drop stop := by
    conv_lhs => rw [← List.take_append_drop (stop - start) (text.drop start)]
    rw [List.drop_drop, Nat.add_sub_cancel' hle]
  exact validUtf8_split (hsplit ▸ htext) hstop

end MailStack.Mime
