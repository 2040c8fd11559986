import KasmVNC.Network.PasswordStore

/-!
# Requests that change users

`ownerapi_post` takes a list of users in JSON, and makes one change to the password file
after the other. An entry that cannot be dealt with ends the loop with an error, and what
the entries before it have done stays.

`cJSON_Parse` and `crypt_r` are parameters.
-/

namespace KasmVNC.Network

open KasmVNC.Lib

/-! ## Users in JSON -/

/-- A value with as much of it as is looked at. -/
inductive CJson
  | false
  | true
  | null
  | number
  | string (s : CString)
  | array (items : List CJson)
  | object (fields : List (CString × CJson))

/-- An entry after `calloc`. -/
def KasmpasswdEntry.blank : KasmpasswdEntry where
  user := CString.empty
  password := CString.empty
  read := false
  write := false
  owner := false
  user_lt := empty_fits
  password_lt := empty_fits

/-- One field of a user. -/
def parseField (entry : KasmpasswdEntry) (field : CString × CJson) : Option KasmpasswdEntry :=
  if field.1.bytes = ascii "user" then
    match field.2 with
    | .string s =>
      if h : s.bytes.length ≥ USERNAME_LEN then none
      else some { entry with user := s, user_lt := lt_of_fits h }
    | _ => none
  else if field.1.bytes = ascii "password" then
    match field.2 with
    | .string s =>
      if h : s.bytes.length ≥ PASSWORD_LEN then none
      else some { entry with password := s, password_lt := lt_of_fits h }
    | _ => none
  else if field.1.bytes = ascii "write" then
    match field.2 with
    | .true => some { entry with write := Bool.true }
    | .false => some entry
    | _ => none
  else if field.1.bytes = ascii "owner" then
    match field.2 with
    | .true => some { entry with owner := Bool.true }
    | .false => some entry
    | _ => none
  else if field.1.bytes = ascii "read" then
    match field.2 with
    | .true => some { entry with read := Bool.true }
    | .false => some entry
    | _ => none
  else none

def parseUser : CJson → Option KasmpasswdEntry
  | .object fields => fields.foldlM parseField KasmpasswdEntry.blank
  | _ => none

def parseJsonUsers (cJSON_Parse : CString → Option CJson) (data : CString) :
    Option (List KasmpasswdEntry) :=
  match cJSON_Parse data with
  | some (.array items) => items.mapM parseUser
  | _ => none

/-! ## The file -/

/-- The password file. `rename` puts a new one in the place of the old one. -/
structure PasswordFile where
  content : List Byte
  /-- How often it has been replaced. -/
  writes : ℕ
deriving DecidableEq

/-- A change writes the file once if it is made. -/
def PasswordFile.apply (file : PasswordFile) (c : UserChange) : Bool × PasswordFile :=
  let changed := c.apply file.content
  (changed.1, if changed.1 then ⟨changed.2, file.writes + 1⟩ else file)

def allUsersPresent (file : PasswordFile) (inset : List KasmpasswdEntry) : Bool :=
  let fullset := readkasmpasswd file.content
  if fullset = [] then false
  else inset.all fun e => fullset.any fun f => e.user = f.user

/-! ## The loops -/

/-- `crypt_r` with the salt of the server. What it returns fits an entry, and has only
letters, digits, dots, slashes and dollar signs in it. -/
structure Crypt where
  hash : CString → CString
  hash_lt : ∀ s, (hash s).bytes.length < PASSWORD_LEN
  separable : ∀ s, Separable (hash s)

def KasmpasswdEntry.encrypted (e : KasmpasswdEntry) (crypt : Crypt) : KasmpasswdEntry :=
  { e with password := crypt.hash e.password, password_lt := crypt.hash_lt e.password }

inductive Answer
  /-- Not for this function. -/
  | unhandled
  | ok
  | badRequest
deriving DecidableEq, Repr

/-- The three kinds of requests. -/
inductive Endpoint
  | create_user
  | remove_user
  | update_user
deriving DecidableEq, Repr

namespace Endpoint

/-- What an entry of the request makes the server do, if nothing is missing in it. -/
def change (crypt : Crypt) : Endpoint → KasmpasswdEntry → Option UserChange
  | create_user, e =>
    if e.user.bytes = [] ∨ e.password.bytes = [] then none
    else some (.netAddOrUpdateUser (e.encrypted crypt))
  | remove_user, e => if e.user.bytes = [] then none else some (.netRemoveUser e.user)
  | update_user, e =>
    if e.user.bytes = [] then none
    else
      let mask := USER_UPDATE_READ_MASK ||| USER_UPDATE_WRITE_MASK ||| USER_UPDATE_OWNER_MASK
      if e.password.bytes ≠ [] then
        some (.netUpdateUser e.user (mask ||| USER_UPDATE_PASSWORD_MASK) (crypt.hash e.password)
          e.read e.write e.owner)
      else some (.netUpdateUser e.user mask e.password e.read e.write e.owner)

/-- The users have to be there, unless they are to be created. -/
def present (file : PasswordFile) (set : List KasmpasswdEntry) : Endpoint → Bool
  | create_user => true
  | remove_user | update_user => allUsersPresent file set

def ofPath (path : List Byte) : Option Endpoint :=
  if path = ascii "/api/create_user" then some create_user
  else if path = ascii "/api/remove_user" then some remove_user
  else if path = ascii "/api/update_user" then some update_user
  else none

end Endpoint

/-- The loop over the entries. -/
def changeUsers (change : KasmpasswdEntry → Option UserChange) :
    List KasmpasswdEntry → PasswordFile → Answer × PasswordFile
  | [], file => (.ok, file)
  | e :: set, file =>
    match change e with
    | none => (.badRequest, file)
    | some c =>
      match file.apply c with
      | (false, file) => (.badRequest, file)
      | (true, file) => changeUsers change set file

section Post

variable (cJSON_Parse : CString → Option CJson) (crypt : Crypt)

def Endpoint.post (endpoint : Endpoint) (data : CString) (file : PasswordFile) :
    Answer × PasswordFile :=
  match parseJsonUsers cJSON_Parse data with
  | none => (.badRequest, file)
  | some set =>
    if endpoint.present file set then changeUsers (endpoint.change crypt) set file
    else (.badRequest, file)

/-- The path and the content of a request, which starts behind `"POST "`. -/
def postedContent (request : CString) : Option (List Byte × CString) := do
  let (path, _) ← cut 0x20 request.bytes
  if path.length < 1 ∨ path.length > 1024 ∨ (strstr (ascii "../") request.bytes).isSome then none
  else if 0x3F ∈ path then none
  else
    let rest ← strstr (ascii "\r\n\r\n") request.bytes
    some (path, CString.ofBuffer (rest.drop 4))

def ownerapi_post (request : CString) (file : PasswordFile) : Answer × PasswordFile :=
  match postedContent request with
  | none => (.unhandled, file)
  | some (path, data) =>
    match Endpoint.ofPath path with
    | none => (.unhandled, file)
    | some endpoint => endpoint.post cJSON_Parse crypt data file

end Post

end KasmVNC.Network
