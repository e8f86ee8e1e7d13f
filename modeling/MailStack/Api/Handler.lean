import MailStack.Store.Accounts

/-!
# Api/Handler — `ApiHandler`: registration and change of password over HTTP

Both handlers read the texts they need from the members of a JSON object, and refuse the request
where one is missing, no text, or empty; `readFields` is that part, with the messages of the
handler.  A text is read through `c_str()`, so it ends before its first NUL.

The JSON parser is a library: a function from the body to a value, or none where it throws.
-/

open Bytes Prog MailStack.Store

namespace MailStack.Api

/-- A JSON value, as far as the handlers look into it. -/
inductive Json
  | string (s : Bytes)
  | object (members : List (Bytes × Json))
  | other

namespace Json

/-- `if_string`. -/
def ifString : Json → Option Bytes
  | string s => some s
  | _ => none

/-- `if_object`. -/
def ifObject : Json → Option (List (Bytes × Json))
  | object members => some members
  | _ => none

end Json

/-- `if_contains`. -/
def ifContains (obj : List (Bytes × Json)) (key : Bytes) : Option Json :=
  (obj.find? fun m => m.1 = key).map (·.2)

/-! ## Responses -/

/-- The statuses the handlers answer with. -/
inductive Status
  | ok | badRequest | unauthorized | notFound | conflict | internalServerError
  deriving DecidableEq, Repr

/-- A response: its status, and the two members of the JSON object in its body. -/
structure Response where
  status : Status
  bodyStatus : Bytes
  message : Bytes
  deriving DecidableEq, Repr

/-- `okResponse`. -/
def okResponse (message : Bytes) : Response := ⟨.ok, lit "ok", message⟩

/-- `errorResponse`. -/
def errorResponse (status : Status) (message : Bytes) : Response := ⟨status, lit "error", message⟩

/-- The response to a request that is refused before anything is done. -/
def badRequest (message : String) : Response := errorResponse .badRequest (lit message)

/-! ## Reading a request -/

/-- The messages of a handler for members that are missing, no texts, or empty. -/
structure Complaints where
  missing : String
  notStrings : String
  empty : String

/-- The texts of the members, in the order of their names. -/
def readFields (parseJson : Bytes → Option Json) (names : List Bytes) (complaints : Complaints)
    (body : Bytes) : Except Response (List Bytes) :=
  match parseJson body with
  | none => .error (badRequest "Invalid JSON")
  | some parsed =>
    match parsed.ifObject with
    | none => .error (badRequest "Expected JSON object")
    | some obj =>
      match names.mapM (ifContains obj) with
      | none => .error (badRequest complaints.missing)
      | some values =>
        match values.mapM Json.ifString with
        | none => .error (badRequest complaints.notStrings)
        | some strings =>
          if (strings.map cstr).any (· = []) then .error (badRequest complaints.empty)
          else .ok (strings.map cstr)

/-- What `handleRegister` reads. -/
def readRegister (parseJson : Bytes → Option Json) : Bytes → Except Response (List Bytes) :=
  readFields parseJson [lit "username", lit "password"]
    { missing := "Missing 'username' or 'password'"
      notStrings := "'username' and 'password' must be strings"
      empty := "'username' and 'password' must not be empty" }

/-- What `handleChangePassword` reads. -/
def readChangePassword (parseJson : Bytes → Option Json) : Bytes → Except Response (List Bytes) :=
  readFields parseJson [lit "username", lit "old_password", lit "new_password"]
    { missing := "Missing 'username', 'old_password' or 'new_password'"
      notStrings := "All fields must be strings"
      empty := "Fields must not be empty" }

theorem length_of_mapM {α β : Type} {f : α → Option β} :
    ∀ {xs : List α} {ys : List β}, xs.mapM f = some ys → ys.length = xs.length
  | [], ys, h => by
      obtain rfl : [] = ys := Option.some.inj h
      rfl
  | x :: xs, ys, h => by
      rw [List.mapM_cons] at h
      obtain ⟨y, -, h⟩ := Option.bind_eq_some_iff.mp h
      obtain ⟨zs, hzs, h⟩ := Option.bind_eq_some_iff.mp h
      obtain rfl := Option.some.inj h
      rw [List.length_cons, List.length_cons, length_of_mapM hzs]

theorem cstr_cstr (s : Bytes) : cstr (cstr s) = cstr s := List.takeWhile_idem

/-- **What was read** is as many texts as were asked for; none is empty, and none has a NUL. -/
theorem of_readFields {parseJson : Bytes → Option Json} {names : List Bytes}
    {complaints : Complaints} {body : Bytes} {fields : List Bytes}
    (h : readFields parseJson names complaints body = .ok fields) :
    fields.length = names.length ∧ ∀ t ∈ fields, t ≠ [] ∧ cstr t = t := by
  rw [readFields] at h
  split at h
  · exact absurd h (by simp)
  · split at h
    · exact absurd h (by simp)
    · split at h
      · exact absurd h (by simp)
      · rename_i values hvalues
        split at h
        · exact absurd h (by simp)
        · rename_i strings hstrings
          split_ifs at h with hempty
          obtain rfl := Except.ok.inj h
          refine ⟨?_, fun t ht => ⟨fun hnil => hempty ?_, ?_⟩⟩
          · rw [List.length_map, length_of_mapM hstrings, length_of_mapM hvalues]
          · exact List.any_eq_true.mpr ⟨t, ht, by simpa using hnil⟩
          · obtain ⟨s, -, rfl⟩ := List.mem_map.mp ht
            exact cstr_cstr s

/-! ## The handlers -/

section Handlers

variable (P : PasswordHash) (parseJson : Bytes → Option Json)

/-- `m_user_repo.getLastError()` after a failure. -/
def lastError (e : Option Bytes) : Bytes := e.getD []

/-- `handleRegister` once the request is read. -/
def register (username password salt : Bytes) : StoreM Response := do
  let user : User := { username, passwordHash := [] }
  match ← UserRepository.registerUser P user password salt with
  | .error e => return errorResponse .conflict (lastError e)
  | .ok _ => return okResponse (lit "User registered successfully")

/-- `handleRegister`. -/
def handleRegister (body salt : Bytes) : StoreM Response :=
  match readRegister parseJson body with
  | .error response => return response
  | .ok fields => register P (fields.getD 0 []) (fields.getD 1 []) salt

/-- `handleChangePassword` once the request is read. -/
def changePassword (username oldPassword newPassword salt : Bytes) : StoreM Response := do
  if ← query (UserRepository.authorize P username oldPassword) then
    match (← query (UserDAL.findByUsername · username)).bind (·.id) with
    | none => return errorResponse .notFound (lit "User not found")
    | some id =>
      match ← UserRepository.changePassword P id newPassword salt with
      | .error e => return errorResponse .internalServerError (lastError e)
      | .ok _ => return okResponse (lit "Password changed successfully")
  else return errorResponse .unauthorized (lit "Invalid credentials")

/-- `handleChangePassword`. -/
def handleChangePassword (body salt : Bytes) : StoreM Response :=
  match readChangePassword parseJson body with
  | .error response => return response
  | .ok fields =>
    changePassword P (fields.getD 0 []) (fields.getD 1 []) (fields.getD 2 []) salt

end Handlers

end MailStack.Api
