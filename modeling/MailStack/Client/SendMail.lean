import MailStack.Smtp.Data

/-!
# Client/SendMail — the data loop of `MailWorker::handleSendMail`, against the server

The client cuts the MIME payload into lines, drops a CR at the end of each, escapes the lines that
start with `'.'` by another `'.'`, and ends with the line `"."`.  The server takes lines as they
come: nothing on its side removes the escape.

`transparent_iff` composes the two.  Its converse has to rule out that a message the server gave
up for its size is, by what the client goes on sending, put together again; `exec_text` does, by
counting LFs.
-/

open Bytes

namespace MailStack.Client

open Smtp

/-- `pop_back` of a CR. -/
def stripCR (line : Bytes) : Bytes :=
  if line.getLast? = some '\r'.toUInt8 then line.dropLast else line

/-- The escape: `'.'` before a line that starts with `'.'`. -/
def escapeDot (line : Bytes) : Bytes :=
  if line.head? = some '.'.toUInt8 then '.'.toUInt8 :: line else line

/-- The payload's lines, without their CR. -/
def payloadLines (payload : Bytes) : List Bytes := (getlines '\n'.toUInt8 payload).map stripCR

/-- What `handleSendMail` sends once `DATA` was answered, line by line. -/
def dataLines (payload : Bytes) : List Bytes :=
  (payloadLines payload).map escapeDot ++ [lit "."]

/-! ## Escaped lines -/

theorem notMem_of_mem_payloadLines {payload l : Bytes} (h : l ∈ payloadLines payload) :
    '\n'.toUInt8 ∉ l := by
  obtain ⟨l₀, hl₀, rfl⟩ := List.mem_map.mp h
  have hlf := notMem_of_mem_getlines hl₀
  unfold stripCR
  split_ifs
  · exact fun hmem => hlf (List.dropLast_subset l₀ hmem)
  · exact hlf

theorem escapeDot_ne_dot (l : Bytes) : escapeDot l ≠ lit "." := by
  unfold escapeDot
  split_ifs with h
  · intro heq
    have hl : l = [] := (List.cons.inj heq).2
    simp [hl] at h
  · rintro rfl
    exact h rfl

theorem notMem_escapeDot {l : Bytes} (h : '\n'.toUInt8 ∉ l) : '\n'.toUInt8 ∉ escapeDot l := by
  unfold escapeDot
  split_ifs
  · rw [List.mem_cons, not_or]
    exact ⟨by decide, h⟩
  · exact h

theorem length_escapeDot (l : Bytes) :
    (escapeDot l).length = l.length + if l.head? = some '.'.toUInt8 then 1 else 0 := by
  unfold escapeDot
  split_ifs <;> simp

/-- Each escape lengthens the text by a byte. -/
theorem length_joined_escapeDot (ls : List Bytes) :
    (joined (ls.map escapeDot)).length =
      (joined ls).length + ls.countP fun l => l.head? = some '.'.toUInt8 := by
  induction ls with
  | nil => rfl
  | cons l ls ih =>
    rw [List.map_cons, joined_cons, joined_cons, List.countP_cons]
    simp only [List.length_append, ih, length_escapeDot, decide_eq_true_eq]
    omega

theorem joined_escapeDot_eq_iff {ls : List Bytes} :
    joined (ls.map escapeDot) = joined ls ↔ ∀ l ∈ ls, l.head? ≠ some '.'.toUInt8 := by
  constructor
  · intro h
    have hlen := length_joined_escapeDot ls
    rw [h] at hlen
    have hzero : (ls.countP fun l => l.head? = some '.'.toUInt8) = 0 := by omega
    simpa using List.countP_eq_zero.mp hzero
  · intro h
    refine congrArg joined ((List.map_congr_left fun l hl => ?_).trans (List.map_id ls))
    exact if_neg (h l hl)

theorem count_joined {ls : List Bytes} (h : ∀ l ∈ ls, '\n'.toUInt8 ∉ l) :
    (joined ls).count '\n'.toUInt8 = ls.length := by
  induction ls with
  | nil => rfl
  | cons l ls ih =>
    have hlf : (lit "\n").count '\n'.toUInt8 = 1 := by decide
    rw [joined_cons, List.count_append, List.count_append, hlf,
      List.count_eq_zero.mpr (h l (by simp)), ih fun l hl => h l (by simp [hl]), List.length_cons]
    omega

/-! ## The server's side -/

variable {ω : Type*} (repo : Repo ω)

/-- The bodies handed to `SaveMessage`, the newest first. -/
def savedBodies (log : List Call) : List Bytes :=
  log.filterMap fun
    | .saveMessage _ _ body _ => some body
    | _ => none

theorem savedBodies_append (calls log : List Call) :
    savedBodies (calls ++ log) = savedBodies calls ++ savedBodies log := List.filterMap_append

theorem savedBodies_eq_nil {calls : List Call}
    (h : ∀ sender recipients body r, Call.saveMessage sender recipients body r ∉ calls) :
    savedBodies calls.reverse = [] := by
  refine List.filterMap_eq_nil_iff.mpr fun c hc => ?_
  cases c with
  | saveMessage sender recipients body r => exact absurd (List.mem_reverse.mp hc) (h _ _ _ _)
  | command | authorize => rfl

/-- A line of text, one that is not `"."` and holds no LF, stores nothing and brings the body at
most one more LF. -/
theorem serve_text {c c' : Connection ω} {l : Bytes} (hdot : l ≠ lit ".")
    (hlf : '\n'.toUInt8 ∉ l) (h : serve repo c (.line l) = some c') :
    savedBodies c'.log = savedBodies c.log ∧
      c'.session.body.count '\n'.toUInt8 ≤ c.session.body.count '\n'.toUInt8 + 1 := by
  have hf := failed_of_serve repo h
  by_cases hst : c.session.state = .receivingData
  · by_cases hlen : l.length ≤ maxSmtpLine
    · by_cases hfit : (c.session.body ++ l ++ lit "\n").length ≤ maxMessageSize
      · rw [serve_append repo hf hst hlen hdot hfit] at h
        obtain rfl := Option.some.inj h
        refine ⟨rfl, ?_⟩
        have hone : (lit "\n").count '\n'.toUInt8 = 1 := by decide
        simp only [Connection.grow, List.count_append, hone, List.count_eq_zero.mpr hlf]
        omega
      · rw [serve_overflow repo hf hst hlen hdot (by omega)] at h
        obtain rfl := Option.some.inj h
        exact ⟨rfl, by simp [SmtpSession.resetMessage]⟩
    · rw [serve_tooLong repo hf hst (by omega)] at h
      obtain rfl := Option.some.inj h
      exact ⟨rfl, by omega⟩
  · simp only [serve] at h
    split_ifs at h
    obtain rfl := Option.some.inj h
    rw [savedBodies_append]
    rcases processLine_quiet_or_begins repo hst c.world l with hq | hb
    · refine ⟨by rw [savedBodies_eq_nil hq.saves, List.nil_append], ?_⟩
      rcases hq.body with hbody | hbody
      · simp only [hbody]
        omega
      · simp [hbody]
    · refine ⟨by rw [savedBodies_eq_nil hb.saves, List.nil_append], ?_⟩
      simp only [hb.session]
      omega

/-- The same over any number of lines. -/
theorem exec_text_le :
    ∀ {ls : List Bytes} {c c' : Connection ω}, (∀ l ∈ ls, l ≠ lit "." ∧ '\n'.toUInt8 ∉ l) →
      Run.exec (serve repo) c (ls.map .line) = some c' →
      savedBodies c'.log = savedBodies c.log ∧
        c'.session.body.count '\n'.toUInt8 ≤ c.session.body.count '\n'.toUInt8 + ls.length
  | [], c, c', _, h => by
      obtain rfl : c = c' := Option.some.inj h
      exact ⟨rfl, Nat.le_refl _⟩
  | l :: ls, c, c', htext, h => by
      obtain ⟨c₁, h₁, h₂⟩ := Run.exec_cons_eq_some_iff.mp h
      have hl := htext l (by simp)
      obtain ⟨hlog₁, hcount₁⟩ := serve_text repo hl.1 hl.2 h₁
      obtain ⟨hlog₂, hcount₂⟩ := exec_text_le (fun l hl => htext l (by simp [hl])) h₂
      refine ⟨hlog₂.trans hlog₁, ?_⟩
      rw [List.length_cons]
      omega

/-- **Text either ends up in the body as it came, or the body lacks LFs.** -/
theorem exec_text :
    ∀ {ls : List Bytes} {c c' : Connection ω}, c.failed = false →
      c.session.state = .receivingData →
      (∀ l ∈ ls, l.length ≤ maxSmtpLine ∧ l ≠ lit "." ∧ '\n'.toUInt8 ∉ l) →
      Run.exec (serve repo) c (ls.map .line) = some c' →
      c' = c.grow (joined ls) ∨
        c'.session.body.count '\n'.toUInt8 < c.session.body.count '\n'.toUInt8 + ls.length
  | [], c, c', _, _, _, h => by
      obtain rfl : c = c' := Option.some.inj h
      left
      simp [Connection.grow]
  | l :: ls, c, c', hf, hst, htext, h => by
      obtain ⟨c₁, h₁, h₂⟩ := Run.exec_cons_eq_some_iff.mp h
      obtain ⟨hlen, hdot, hlf⟩ := htext l (by simp)
      have htext' : ∀ l ∈ ls, l.length ≤ maxSmtpLine ∧ l ≠ lit "." ∧ '\n'.toUInt8 ∉ l :=
        fun l hl => htext l (by simp [hl])
      by_cases hfit : (c.session.body ++ l ++ lit "\n").length ≤ maxMessageSize
      · rw [serve_append repo hf hst hlen hdot hfit] at h₁
        obtain rfl := Option.some.inj h₁
        rcases exec_text (c := c.grow (l ++ lit "\n")) hf hst htext' h₂ with rfl | hlt
        · left
          simp [Connection.grow, joined_cons]
        · right
          have hone : (lit "\n").count '\n'.toUInt8 = 1 := by decide
          simp only [Connection.grow, List.count_append, hone, List.count_eq_zero.mpr hlf] at hlt
          rw [List.length_cons]
          omega
      · rw [serve_overflow repo hf hst hlen hdot (by omega)] at h₁
        obtain rfl := Option.some.inj h₁
        have hle := (exec_text_le repo (fun l hl => (htext' l hl).2) h₂).2
        right
        simp only [SmtpSession.resetMessage, List.count_nil] at hle
        rw [List.length_cons]
        omega

/-! ## Transparency -/

/-- The payload arrives: the server takes every line sent, and stores exactly one message, the
payload's lines each followed by LF. -/
def Transparent (c : Connection ω) (payload : Bytes) : Prop :=
  ∃ c', Run.exec (serve repo) c ((dataLines payload).map .line) = some c' ∧
    savedBodies c'.log = joined (payloadLines payload) :: savedBodies c.log

/-- The end of data stores the body. -/
theorem savedBodies_dot {c : Connection ω} (hst : c.session.state = .receivingData) :
    savedBodies (processLine repo c.session c.world (lit ".")).calls.reverse =
      [c.session.body] := by
  rw [calls_dot repo c.world hst]
  rfl

/-- **The server's data phase inverts the client's escape exactly on payloads it leaves alone.** -/
theorem transparent_iff {c : Connection ω} (hf : c.failed = false)
    (hst : c.session.state = .receivingData) (hbody : c.session.body = []) {payload : Bytes}
    (hlen : ∀ l ∈ payloadLines payload, l.length ≤ 510)
    (hsize : (joined (payloadLines payload)).length ≤ maxMessageSize) :
    Transparent repo c payload ↔ ∀ l ∈ payloadLines payload, l.head? ≠ some '.'.toUInt8 := by
  have htext : ∀ l ∈ (payloadLines payload).map escapeDot,
      l.length ≤ maxSmtpLine ∧ l ≠ lit "." ∧ '\n'.toUInt8 ∉ l := by
    intro l hl
    obtain ⟨l₀, hl₀, rfl⟩ := List.mem_map.mp hl
    refine ⟨?_, escapeDot_ne_dot l₀, notMem_escapeDot (notMem_of_mem_payloadLines hl₀)⟩
    have h510 := hlen l₀ hl₀
    rw [length_escapeDot, maxSmtpLine]
    split_ifs <;> omega
  rw [← joined_escapeDot_eq_iff, Transparent, dataLines, List.map_append, Run.exec_append]
  constructor
  · rintro ⟨c', hrun, hsaved⟩
    obtain ⟨c₁, h₁, h₂⟩ := Option.bind_eq_some_iff.mp hrun
    have hlog := (exec_text_le repo (fun l hl => (htext l hl).2) h₁).1
    obtain ⟨c₂, hdot, hend⟩ := Run.exec_cons_eq_some_iff.mp h₂
    obtain rfl : c₂ = c' := Option.some.inj hend
    simp only [serve] at hdot
    split_ifs at hdot
    obtain rfl := Option.some.inj hdot
    rw [savedBodies_append, hlog] at hsaved
    have hst₁ : c₁.session.state = .receivingData := by
      by_contra hne
      have hnone : savedBodies
          (processLine repo c₁.session c₁.world (lit ".")).calls.reverse = [] :=
        savedBodies_eq_nil fun _ _ _ _ hmem => hne (receivingData_of_saveMessage repo hmem)
      rw [hnone, List.nil_append] at hsaved
      exact absurd (congrArg List.length hsaved) (by simp)
    rw [savedBodies_dot repo hst₁, List.singleton_append, List.cons.injEq] at hsaved
    rcases exec_text repo hf hst htext h₁ with rfl | hlt
    · rw [← hsaved.1]
      simp [Connection.grow, hbody]
    · exfalso
      rw [hsaved.1, count_joined fun l hl => notMem_of_mem_payloadLines hl, hbody] at hlt
      simp at hlt
  · intro hjoin
    have haccept : accepted ((payloadLines payload).map escapeDot) =
        joined (payloadLines payload) :=
      (accepted_eq_joined fun l hl => (htext l hl).1).trans hjoin
    have hdata := exec_data repo ((payloadLines payload).map escapeDot) c hf hst
      (fun hmem => (htext _ hmem).2.1 rfl) (by simpa [haccept, hbody] using hsize)
    rw [haccept] at hdata
    have hst' : (c.grow (joined (payloadLines payload))).session.state = .receivingData := hst
    refine ⟨_, by rw [hdata, Option.bind_some, List.map_cons, List.map_nil, Run.exec,
      serve_data repo (c := c.grow _) hf hst', Option.bind_some, Run.exec], ?_⟩
    rw [savedBodies_append, savedBodies_dot repo hst']
    simp [Connection.grow, hbody]

theorem transparent_hello : Transparent aliceRepo aliceData (lit "hello\r\n\r\nworld") :=
  (transparent_iff aliceRepo rfl rfl rfl (by decide) (by decide)).mpr (by decide)

/-- **A line that starts with a dot arrives with two.** -/
theorem not_transparent_dot :
    (∀ l ∈ payloadLines (lit ".x\r\n"), l.length ≤ 510) ∧
      (joined (payloadLines (lit ".x\r\n"))).length ≤ maxMessageSize ∧
      aliceData.session.state = .receivingData ∧ aliceData.session.body = [] ∧
      ¬ Transparent aliceRepo aliceData (lit ".x\r\n") := by
  refine ⟨by decide, by decide, rfl, rfl, ?_⟩
  rintro ⟨c', hrun, hsaved⟩
  obtain rfl := Option.some.inj (hrun.symm.trans (by rfl : _ = some _))
  exact absurd (List.cons.inj hsaved).1 (by decide)

end MailStack.Client
