import MailStack.Api.Passwords
import MailStack.Client.Quote
import MailStack.Imap.Serve
import MailStack.Smtp.Auth

/-!
# Api/Login — an account that was registered, on both protocols

The API and IMAP look an account up under its name as it is; `AUTH` of SMTP takes the name only up
to its first `@`.  So a registered account works on both exactly when its name has no `@`, or the
account that is named by the part before it happens to have the same password: `worksOnBoth_iff`.
-/

open Bytes Prog MailStack.Store MailStack.Smtp MailStack.Client

namespace MailStack.Client

/-- `BuildSmtpPlainAuthPayload`. -/
def buildSmtpPlainAuthPayload (username password : Bytes) : Option Bytes :=
  match Base64.encodeBase64 (0 :: (username ++ 0 :: password)) with
  | .error _ => none
  | .ok out => if eraseBreaks out = [] then none else some (eraseBreaks out)

/-- The payload decodes to the credentials; it is not empty, and has no break. -/
theorem decode_payload {username password payload : Bytes}
    (h : buildSmtpPlainAuthPayload username password = some payload) :
    Base64.decodeBase64 payload = .ok (0 :: (username ++ 0 :: password)) ∧ payload ≠ [] ∧
      NoBreak payload := by
  rw [buildSmtpPlainAuthPayload, Base64.encodeBase64] at h
  split_ifs at h with hsize
  dsimp only at h
  split_ifs at h with hne
  obtain rfl := Option.some.inj h
  exact ⟨Base64.decodeBase64_chunkBytes _, hne, noBreak_eraseBreaks _⟩

end MailStack.Client

namespace MailStack.Api

/-! ## `AUTH PLAIN` -/

section Payload

variable {ω : Type*} (repo : Repo ω) {username password payload : Bytes} {s : SmtpSession}

/-- **A session in which `AUTH` may begin reads the payload as it was built.** -/
theorem processLine_payload (hpayload : buildSmtpPlainAuthPayload username password = some payload)
    (hlen : (lit "AUTH PLAIN " ++ payload).length ≤ maxSmtpLine) (hnul : 0 ∉ username)
    (hs : Ready s) (w : ω) : processLine repo s w (lit "AUTH PLAIN " ++ payload) =
      { authorizeAs repo s w (extractUsername username) password with
        calls := .command (lit "AUTH PLAIN " ++ payload) ::
          (authorizeAs repo s w (extractUsername username) password).calls } := by
  obtain ⟨hdecode, hne, hbreak⟩ := decode_payload hpayload
  rw [processLine_command repo hlen hs.state, parse_authPlain hbreak, Smtp.handleCommand]
  dsimp only
  rw [handleAuth_plain repo hs w hne hdecode hnul]

/-- **The client's payload is decoded faithfully**: the user table is asked, once, about the part of
the name before its first `@` and about the password, whatever its bytes. -/
theorem calls_payload (hpayload : buildSmtpPlainAuthPayload username password = some payload)
    (hlen : (lit "AUTH PLAIN " ++ payload).length ≤ maxSmtpLine) (hnul : 0 ∉ username)
    (hs : Ready s) (w : ω) : (processLine repo s w (lit "AUTH PLAIN " ++ payload)).calls =
      [.command (lit "AUTH PLAIN " ++ payload),
        .authorize (extractUsername username) password
          (repo.authorize w (extractUsername username) password).1] := by
  rw [processLine_payload repo hpayload hlen hnul hs, authorizeAs]
  split
  · rename_i w' hgranted
    rw [hgranted]
  · rename_i w' hdenied
    rw [hdenied]

/-- A password with a NUL and an `=`, and a name with an `@`. -/
theorem calls_payload_alice :
    let s : SmtpSession := { domain := lit "localhost", state := .waitMail, secure := true }
    let line := lit "AUTH PLAIN AGFsaWNlQHgAcAA9"
    (processLine aliceRepo s () line).calls =
      [.command line, .authorize (lit "alice") (lit "p" ++ [0] ++ lit "=") false] := by
  intro s line
  have hpayload : buildSmtpPlainAuthPayload (lit "alice@x") (lit "p" ++ [0] ++ lit "=") =
      some (lit "AGFsaWNlQHgAcAA9") := by decide +kernel
  exact calls_payload aliceRepo hpayload (by decide +kernel) (by decide +kernel) ⟨rfl, rfl, rfl⟩ ()

end Payload

/-- The lookup of `authorize` succeeds where nothing fails. -/
theorem runFaults_authorize (P : PasswordHash) (username password : Bytes) (server : Server) :
    (runFaults serverStore (Smtp.authorize P username password) (server, fun _ => none)).2 =
      UserRepository.authorize P username password server.db := by
  rw [Smtp.authorize, runFaults_bind]
  have hlookup : runFaults serverStore (lookup (UserDAL.findByUsername · username))
      (server, fun _ => none) =
        ((server, fun _ => none), UserDAL.findByUsername server.db username) := rfl
  rw [hlookup, UserRepository.authorize]
  cases UserDAL.findByUsername server.db username with
  | none => rfl
  | some user => rfl

/-- **`AUTH PLAIN` in a secure session after `EHLO`** is answered 235 exactly when the password is
that of the account named by the part of the name before its first `@`. -/
theorem code_authPlain_iff {P : PasswordHash} {logger : Bool} {username password payload : Bytes}
    (hpayload : buildSmtpPlainAuthPayload username password = some payload)
    (hlen : (lit "AUTH PLAIN " ++ payload).length ≤ maxSmtpLine) (hnul : 0 ∉ username)
    {s : SmtpSession} (hsecure : s.secure = true) (command : SmtpCommand) {w : World}
    {server : Server} (hw : w.found = (server, fun _ => none)) :
    (processLine (repo P logger) (s.handleHelo command).2 w (lit "AUTH PLAIN " ++ payload)).code =
        some (lit "235") ↔
      UserRepository.authorize P (extractUsername username) password server.db = true := by
  have hgrant : ((repo P logger).authorize w (extractUsername username) password).1 =
      UserRepository.authorize P (extractUsername username) password server.db := by
    rw [repo]
    dsimp only
    rw [hw, runFaults_authorize]
  have hready : Ready (s.handleHelo command).2 := ⟨rfl, rfl, hsecure⟩
  rw [processLine_payload (repo P logger) hpayload hlen hnul hready, ← hgrant, authorizeAs,
    Outcome.code]
  cases (repo P logger).authorize w (extractUsername username) password with
  | mk granted w' =>
    cases granted with
    | true => exact iff_of_true rfl rfl
    | false =>
      have hcode : some (SmtpResponse.code SmtpResponse.authFailed) ≠ some (lit "235") := by decide
      exact iff_of_false hcode Bool.false_ne_true

/-! ## `LOGIN` -/

/-- The quoted credentials are read back as the arguments of `LOGIN`. -/
theorem parse_login {tag : Bytes} (htag : ' '.toUInt8 ∉ tag) (username password : Bytes) {n : ℕ}
    (hn : 2 ≤ n) :
    Imap.parse n (commandLine tag (lit "LOGIN") [username, password]) =
      some ⟨tag, .login, [username, password]⟩ := by
  have hline : commandLine tag (lit "LOGIN") [username, password] =
      tag ++ ' '.toUInt8 :: (lit "LOGIN" ++ ' '.toUInt8 :: quoteArgs [username, password]) := by
    simp only [commandLine, List.append_assoc]
    rfl
  have hsplit : Imap.splitCommand (lit "LOGIN" ++ ' '.toUInt8 :: quoteArgs [username, password]) =
      (lit "LOGIN", quoteArgs [username, password]) := by
    rw [Imap.splitCommand, cut_eq_some_iff.mpr ⟨rfl, by decide⟩, Option.getD_some]
  rw [Imap.parse, if_neg (by simp [hline]), hline, cut_eq_some_iff.mpr ⟨rfl, htag⟩]
  dsimp only
  have huid : ¬ Imap.toUpper (lit "LOGIN") = lit "UID" := by decide
  rw [hsplit, if_neg huid, Imap.parseArguments, parseArgs_quoteArgs [] hn]
  rfl

/-- **`LOGIN` with the password of the account succeeds**, in whatever session. -/
theorem serves_login {P : PasswordHash} {S : Imap.Services} (hS : S.verify = P.verify)
    {username password : Bytes} {db : DB}
    (h : UserRepository.authorize P username password db = true) (tag : Bytes)
    (d : Imap.Dispatcher) :
    ∃ d', Imap.Serves (Imap.handleCommand S ⟨tag, .login, [username, password]⟩) d db
      (Imap.ImapResponse.ok tag (lit "Login successful")) d' db := by
  have hany := h
  rw [UserRepository.authorize, Option.any_eq_true] at hany
  obtain ⟨user, hfind, -⟩ := hany
  obtain ⟨r, -, hr⟩ := Option.map_eq_some_iff.mp hfind
  have hid : user.id = some r.1 := by
    rw [← hr]
    rfl
  have hgrant : (run store (Imap.authorize S username password) db).2 = true := by
    have hrun : (run store (Imap.authorize S username password) db).2 =
        (UserDAL.findByUsername db username).any fun u => S.verify u.passwordHash password := rfl
    rw [hrun, hS]
    exact h
  have hsame : (run store (Imap.authorize S username password) db).1 = db := rfl
  have hask : (run store (query (UserDAL.findByUsername · username)) db).2 = some user := hfind
  refine ⟨{ d with
    authenticatedUserName := username
    authenticatedUserID := user.id
    state := .authenticated }, .get_bind ?_⟩
  have hdispatch : Imap.Serves (Imap.handleLogin S ⟨tag, .login, [username, password]⟩) d db
      (Imap.ImapResponse.ok tag (lit "Login successful")) { d with
        authenticatedUserName := username
        authenticatedUserID := user.id
        state := .authenticated } db := by
    refine .bind (.arg rfl) (.bind (.arg rfl) (.bind (.ask _) ?_))
    rw [hgrant]
    refine .bind (.arg rfl) (.bind (.ask _) ?_)
    rw [hsame, hask]
    exact .bind (.arg rfl) (.bind rfl (.bind (.get_bind (.value hid)) (.pure _)))
  exact .catching hdispatch

/-! ## The password stays -/

section Stays

variable {P : PasswordHash} {username password : Bytes} {db db' : DB}

/-- The account that the name finds, and whether the password opens it, are decided by the first row
with that name. -/
theorem authorize_of_users (h : UserRepository.authorize P username password db = true)
    (hrow : ∀ r, db.users.rows.find? (fun r => r.2.username = cstr username) = some r →
      ∃ i, db'.users.rows.find? (fun r => r.2.username = cstr username) = some (i, r.2)) :
    UserRepository.authorize P username password db' = true := by
  rw [UserRepository.authorize, Option.any_eq_true] at h
  obtain ⟨user, huser, hverify⟩ := h
  obtain ⟨r, hr, rfl⟩ := Option.map_eq_some_iff.mp huser
  obtain ⟨i, hi⟩ := hrow r hr
  rw [UserRepository.authorize, UserDAL.findByUsername, hi]
  exact hverify

theorem authorize_of_eq (h : UserRepository.authorize P username password db = true)
    (husers : db'.users = db.users) : UserRepository.authorize P username password db' = true :=
  authorize_of_users h fun r hr => ⟨r.1, by rw [husers]; exact hr⟩

/-- A new account is behind the old ones. -/
theorem authorize_of_insert {d : UserData}
    (h : UserRepository.authorize P username password db = true)
    (husers : db'.users = db.users.insert d) :
    UserRepository.authorize P username password db' = true := by
  refine authorize_of_users h fun r hr => ⟨r.1, ?_⟩
  rw [husers, Table.insert, List.find?_append, hr]
  rfl

/-- The account of another name is changed. -/
theorem authorize_of_modify {id : ℤ} {d : UserData} {hash : Bytes}
    (h : UserRepository.authorize P username password db = true)
    (hd : db.users.get? id = some d) (hname : d.username ≠ cstr username)
    (husers : db'.users = db.users.modify id fun d => { d with passwordHash := hash }) :
    UserRepository.authorize P username password db' = true := by
  refine authorize_of_users h fun r hr => ⟨r.1, ?_⟩
  have hne : r.1 ≠ id := by
    rintro rfl
    have hrow := Table.mem_rows_iff.mp (List.mem_of_find?_eq_some hr)
    obtain rfl := Option.some.inj (hd.symm.trans hrow)
    exact hname (by simpa using List.find?_some hr)
  have hsame : ((fun r : ℤ × UserData => decide (r.2.username = cstr username)) ∘ fun r : ℤ × UserData =>
      (r.1, if r.1 = id then { r.2 with passwordHash := hash } else r.2)) =
        fun r : ℤ × UserData => decide (r.2.username = cstr username) := by
    funext r
    by_cases hr : r.1 = id <;> simp [hr]
  rw [husers, Table.modify, Table.map, List.find?_map, hsame, hr, Option.map_some, if_neg hne]

theorem authorize_of_autoEnrols {recipients : List Bytes} {users users' : Table UserData}
    (h : Relation.ReflTransGen (AutoEnrols P recipients) users users')
    (hauth : UserRepository.authorize P username password { db with users } = true) :
    UserRepository.authorize P username password { db with users := users' } = true := by
  induction h with
  | refl => exact hauth
  | tail _ hstep ih =>
    obtain ⟨r, -, salt, hash, -, -, rfl⟩ := hstep
    exact authorize_of_insert ih rfl

end Stays

section Runs

variable (P : PasswordHash) (parseJson : Bytes → Option Json)

/-- **The password is unchanged**: no request to change it is answered `ok`. -/
def LeavesPassword (username : Bytes) (t : Site) (r : Request) : Prop :=
  match r.event with
  | .changePassword body salt =>
    ∀ fields, readChangePassword parseJson body = .ok fields → fields.getD 0 [] = username →
      (answer t r.faults (handleChangePassword P parseJson body salt)).2.status ≠ .ok
  | _ => True

variable {P parseJson}

/-- One request leaves the password that it does not change. -/
theorem authorize_of_step {username password : Bytes} (hnul : cstr username = username)
    {t t' : Site} {r : Request} (h : UserRepository.authorize P username password t.server.db = true)
    (hleaves : LeavesPassword P parseJson username t r) (hstep : step P parseJson t r = some t') :
    UserRepository.authorize P username password t'.server.db = true := by
  obtain ⟨event, faults⟩ := r
  cases event with
  | register body salt =>
    obtain rfl := Option.some.inj hstep
    dsimp only [answer, handleRegister]
    cases hread : readRegister parseJson body with
    | error response => exact h
    | ok fields =>
      obtain ⟨ws, hrun⟩ := runs_runFaults mailStore
        (register P (fields.getD 0 []) (fields.getD 1 []) salt) (t.server.db, faults)
      rcases users_of_register hrun with ⟨-, husers⟩ | ⟨hash, -, -, husers⟩
      · exact authorize_of_eq h husers
      · exact authorize_of_insert h husers
  | changePassword body salt =>
    obtain rfl := Option.some.inj hstep
    dsimp only [LeavesPassword, answer, handleChangePassword] at hleaves ⊢
    cases hread : readChangePassword parseJson body with
    | error response => exact h
    | ok fields =>
      rw [hread] at hleaves
      obtain ⟨ws, hrun⟩ := runs_runFaults mailStore (changePassword P (fields.getD 0 [])
        (fields.getD 1 []) (fields.getD 2 []) salt) (t.server.db, faults)
      rcases users_of_changePassword hrun with ⟨-, husers⟩ | ⟨hstatus, id, d, hd, hname, husers⟩
      · exact authorize_of_eq h husers
      · refine authorize_of_modify h hd ?_ husers
        rw [hname, hnul, cstr_getD_of_readFields hread]
        exact fun heq => hleaves fields rfl heq hstatus
  | deliver logger chances sender recipients body =>
    obtain rfl := Option.some.inj hstep
    obtain ⟨ws, hrun⟩ := runs_runFaults serverStore
      (saveMessage P logger chances sender recipients body) (t.server, faults)
    exact authorize_of_eq (authorize_of_autoEnrols (users_of_saveMessage hrun) h) rfl

/-- A registration that is answered `ok` sets the password. -/
theorem authorize_of_registered (hP : P.Exact) {t t' : Site} {body salt username password : Bytes}
    {faults : ℕ → Option Bytes} (hread : readRegister parseJson body = .ok [username, password])
    (hok : (answer t faults (handleRegister P parseJson body salt)).2.status = .ok)
    (hstep : step P parseJson t ⟨.register body salt, faults⟩ = some t') :
    UserRepository.authorize P username password t'.server.db = true := by
  have hnul : cstr username = username := ((of_readFields hread).2 username (by simp)).2
  obtain rfl := Option.some.inj hstep
  dsimp only [answer, handleRegister] at hok ⊢
  rw [hread] at hok ⊢
  obtain ⟨ws, hrun⟩ := runs_runFaults mailStore (register P username password salt)
    (t.server.db, faults)
  obtain ⟨hash, hhash, hfree, husers⟩ := (users_of_register hrun).resolve_left fun h => h.1 hok
  have hnone : t.server.db.users.rows.find? (fun r => r.2.username = cstr username) = none := by
    refine List.find?_eq_none.mpr fun r hr => ?_
    simpa using hfree r.1 r.2 (Table.mem_rows_iff.mp hr)
  have hnew : (runFaults mailStore (register P ([username, password].getD 0 [])
      ([username, password].getD 1 []) salt) (t.server.db, faults)).1.1.users =
        t.server.db.users.insert ⟨cstr username, cstr hash⟩ := husers
  rw [UserRepository.authorize, UserDAL.findByUsername]
  dsimp only
  rw [hnew, Table.insert, List.find?_append, hnone, Option.none_or, List.find?_singleton,
    if_pos (by simp), Option.map_some, Option.any_some]
  rw [UserDAL.rowToUser, hP.cstr_hash hhash]
  exact (hP.verify_iff hhash).mpr rfl

/-- `AUTH PLAIN` in a session that said `EHLO` is answered 235. -/
def AuthPlainAccepted (P : PasswordHash) (logger : Bool) (s : SmtpSession) (command : SmtpCommand)
    (w : World) (payload : Bytes) : Prop :=
  (processLine (repo P logger) (s.handleHelo command).2 w (lit "AUTH PLAIN " ++ payload)).code =
    some (lit "235")

/-- The line of `LOGIN` is read, within `n` iterations, and answered `OK`. -/
def LoginAccepted (S : Imap.Services) (n : ℕ) (d : Imap.Dispatcher) (db : DB)
    (tag username password : Bytes) : Prop :=
  ∃ cmd, Imap.parse n (commandLine tag (lit "LOGIN") [username, password]) = some cmd ∧
    (Imap.serve (Imap.handleCommand S cmd) d db).2.1 =
      .ok (Imap.ImapResponse.ok tag (lit "Login successful"))

/-- Another account is found under the part of the name before its first `@`, and the password
opens it. -/
def OpensNamesake (P : PasswordHash) (db : DB) (username password : Bytes) : Prop :=
  ∃ name rest user, username = name ++ '@'.toUInt8 :: rest ∧ '@'.toUInt8 ∉ name ∧
    UserDAL.findByUsername db name = some user ∧ P.verify user.passwordHash password = true

theorem authorize_extractUsername_iff {username password : Bytes} {db : DB}
    (h : UserRepository.authorize P username password db = true) :
    UserRepository.authorize P (extractUsername username) password db = true ↔
      '@'.toUInt8 ∉ username ∨ OpensNamesake P db username password := by
  by_cases hat : '@'.toUInt8 ∈ username
  · obtain ⟨name, rest, heq, hname⟩ := List.eq_append_cons_of_mem hat
    have hcut := cut_eq_some_iff.mpr ⟨heq, hname⟩
    rw [extractUsername, hcut, UserRepository.authorize, Option.any_eq_true]
    constructor
    · rintro ⟨user, huser, hverify⟩
      exact .inr ⟨name, rest, user, heq, hname, huser, hverify⟩
    · rintro (hat' | ⟨name', rest', user, heq', hname', huser, hverify⟩)
      · exact absurd hat hat'
      · have hcut' := cut_eq_some_iff.mpr ⟨heq', hname'⟩
        obtain ⟨rfl, -⟩ := Prod.mk.inj (Option.some.inj (hcut.symm.trans hcut'))
        exact ⟨user, huser, hverify⟩
  · rw [extractUsername, cut_eq_none hat]
    exact iff_of_true h (.inl hat)

/-- **A registered account works on both protocols**, as long as its password is unchanged, exactly
when its name has no `@`, or the password also opens the account under the part before it. -/
theorem worksOnBoth_iff (hP : P.Exact) {S : Imap.Services} (hS : S.verify = P.verify)
    {t₀ t₁ t : Site} {body salt username password : Bytes} {faults : ℕ → Option Bytes}
    (hread : readRegister parseJson body = .ok [username, password])
    (hok : (answer t₀ faults (handleRegister P parseJson body salt)).2.status = .ok)
    (hstep : step P parseJson t₀ ⟨.register body salt, faults⟩ = some t₁) {requests : List Request}
    (hleaves : Run.Along (step P parseJson) (LeavesPassword P parseJson username) t₁ requests)
    (hrun : Run.exec (step P parseJson) t₁ requests = some t) {payload : Bytes}
    (hpayload : buildSmtpPlainAuthPayload username password = some payload)
    (hlen : (lit "AUTH PLAIN " ++ payload).length ≤ maxSmtpLine) {s : SmtpSession}
    (hsecure : s.secure = true) (command : SmtpCommand) {w : World} (logger : Bool)
    (hw : w.found = (t.server, fun _ => none)) {tag : Bytes} (htag : ' '.toUInt8 ∉ tag) {n : ℕ}
    (hn : 2 ≤ n) (d : Imap.Dispatcher) :
    (LoginAccepted S n d t.server.db tag username password ∧
        AuthPlainAccepted P logger s command w payload) ↔
      '@'.toUInt8 ∉ username ∨ OpensNamesake P t.server.db username password := by
  have hcstr : cstr username = username := ((of_readFields hread).2 username (by simp)).2
  have hauth : UserRepository.authorize P username password t.server.db = true :=
    Run.exec_invariant_of_along
      (I := fun t => UserRepository.authorize P username password t.server.db = true)
      (fun _ _ _ hs hC hstep => authorize_of_step hcstr hs hC hstep)
      (authorize_of_registered hP hread hok hstep) hleaves hrun
  have hlogin : LoginAccepted S n d t.server.db tag username password := by
    obtain ⟨d', hserves⟩ := serves_login hS hauth tag d
    refine ⟨_, parse_login htag username password hn, ?_⟩
    rw [hserves]
  rw [and_iff_right hlogin, ← authorize_extractUsername_iff hauth]
  refine code_authPlain_iff hpayload hlen ?_ hsecure command hw
  rw [← hcstr]
  exact fun hnul => absurd (List.mem_takeWhile_imp hnul) (by simp)

end Runs

/-! ## Alice, and Alice at localhost -/

/-- No one has written mail yet. -/
def noServices (P : PasswordHash) : Imap.Services where
  verify := P.verify
  getBodyContent _ := []
  getParsedEmail _ := .ok none
  getBodySection _ _ := .ok []
  buildBodystructure _ := .ok []
  buildEnvelope _ _ _ := .ok []
  dateToIMAPInternal s := .ok s
  splitHeadersAndBody s := (s, [])
  getHeaderValue _ _ := []

/-- The server as it is, with nothing failing. -/
def quietWorld (server : Server) : World :=
  ⟨server, fun _ => ⟨id, fun _ => none, fun _ => noChance⟩⟩

theorem worksOnBoth_iff_alice :
    (LoginAccepted (noServices markedHash) 2 {} aliceSite.server.db (lit "A1") (lit "alice")
        (lit "secret") ∧
      AuthPlainAccepted markedHash true { domain := lit "localhost", secure := true }
        { type := .ehlo } (quietWorld aliceSite.server) (lit "AGFsaWNlAHNlY3JldA==")) ↔
      '@'.toUInt8 ∉ lit "alice" ∨
        OpensNamesake markedHash aliceSite.server.db (lit "alice") (lit "secret") := by
  have hread : readRegister aliceJson [] = .ok [lit "alice", lit "secret"] := by decide
  have hok : (answer Site.empty (fun _ => none) (handleRegister markedHash aliceJson [] [])).2.status =
      .ok := by decide
  have hpayload : buildSmtpPlainAuthPayload (lit "alice") (lit "secret") =
      some (lit "AGFsaWNlAHNlY3JldA==") := by decide
  have hleaves : Run.Along (step markedHash aliceJson)
      (LeavesPassword markedHash aliceJson (lit "alice")) aliceSite [] := trivial
  have hrun : Run.exec (step markedHash aliceJson) aliceSite [] = some aliceSite := rfl
  exact worksOnBoth_iff exact_markedHash rfl hread hok rfl hleaves hrun hpayload (by decide) rfl _
    true rfl (by decide) (Nat.le_refl 2) _

/-- Every body gives Alice at localhost and her password. -/
def aliceAtJson : Bytes → Option Json := fun _ =>
  some (.object [(lit "username", .string (lit "alice@localhost")),
    (lit "password", .string (lit "secret"))])

/-- The site once she is registered. -/
def aliceAtSite : Site := (step markedHash aliceAtJson Site.empty aliceRegisters).getD Site.empty

/-- **Alice at localhost cannot send mail**: her registration is answered `ok`, `LOGIN` takes her
credentials, and `AUTH PLAIN` is answered 535. -/
theorem not_authPlainAccepted :
    (answer Site.empty (fun _ => none) (handleRegister markedHash aliceAtJson [] [])).2.status = .ok ∧
      LoginAccepted (noServices markedHash) 2 {} aliceAtSite.server.db (lit "A1")
        (lit "alice@localhost") (lit "secret") ∧
      buildSmtpPlainAuthPayload (lit "alice@localhost") (lit "secret") =
        some (lit "AGFsaWNlQGxvY2FsaG9zdABzZWNyZXQ=") ∧
      ¬ AuthPlainAccepted markedHash true { domain := lit "localhost", secure := true }
        { type := .ehlo } (quietWorld aliceAtSite.server)
        (lit "AGFsaWNlQGxvY2FsaG9zdABzZWNyZXQ=") := by
  have hauth : UserRepository.authorize markedHash (lit "alice@localhost") (lit "secret")
      aliceAtSite.server.db = true := by decide
  have hpayload : buildSmtpPlainAuthPayload (lit "alice@localhost") (lit "secret") =
      some (lit "AGFsaWNlQGxvY2FsaG9zdABzZWNyZXQ=") := by decide
  refine ⟨by decide, ?_, hpayload, ?_⟩
  · obtain ⟨d', hserves⟩ := serves_login (S := noServices markedHash) rfl hauth (lit "A1") {}
    refine ⟨_, parse_login (by decide) _ _ (Nat.le_refl 2), ?_⟩
    rw [hserves]
  · have hw : (quietWorld aliceAtSite.server).found = (aliceAtSite.server, fun _ => none) := rfl
    rw [AuthPlainAccepted, code_authPlain_iff hpayload (by decide) (by decide) rfl _ hw]
    decide

end MailStack.Api
