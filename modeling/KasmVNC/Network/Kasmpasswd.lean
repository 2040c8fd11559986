import KasmVNC.Lib.Text

/-!
# The password file

One line for each user: the name, the hash of the password and the permissions, with
colons between them. The HTTP API changes the file by reading it, changing the entries and
writing all of them again. Failures of the file system and of the mutex are left out, and a
file that does not exist is like an empty one.
-/

namespace KasmVNC.Network

open KasmVNC.Lib

abbrev USERNAME_LEN : ℕ := 128

abbrev PASSWORD_LEN : ℕ := 128

theorem empty_fits : CString.empty.bytes.length < 128 := by decide

theorem lt_of_fits {s : CString} (h : ¬s.bytes.length ≥ 128) : s.bytes.length < 128 :=
  Nat.not_le.mp h

theorem lt_of_succ_fits {s : CString} (h : ¬s.bytes.length + 1 > 128) : s.bytes.length < 128 :=
  Nat.not_lt.mp h

/-- `kasmpasswd_entry_t`. The strings fit their arrays. -/
structure KasmpasswdEntry where
  user : CString
  password : CString
  read : Bool
  write : Bool
  owner : Bool
  user_lt : user.bytes.length < USERNAME_LEN := by decide
  password_lt : password.bytes.length < PASSWORD_LEN := by decide
deriving DecidableEq

abbrev colon : Byte := 0x3A

abbrev newline : Byte := 0x0A

/-! ## Reading and writing -/

/-- The loop body of `readkasmpasswd`. Lines that are not as expected are skipped. -/
def parseLine (buf : List Byte) : Option KasmpasswdEntry := do
  let (user, rest) ← cut colon (CString.ofBuffer buf).bytes
  let (pw, perms) ← cut colon rest
  let perms := perms.takeWhile (· ≠ newline)
  let user := CString.ofBuffer user
  let pw := CString.ofBuffer pw
  if hu : user.bytes.length + 1 > USERNAME_LEN then none
  else if hp : pw.bytes.length + 1 > PASSWORD_LEN then none
  else
    some
      { user := user
        password := pw
        read := perms.contains 0x72
        write := perms.contains 0x77
        owner := perms.contains 0x6F
        user_lt := lt_of_succ_fits hu
        password_lt := lt_of_succ_fits hp }

def readkasmpasswd (file : List Byte) : List KasmpasswdEntry :=
  (fgetsLines newline 4095 [] file).filterMap parseLine

/-- `"%s:%s:%s%s%s\n"` -/
def KasmpasswdEntry.line (e : KasmpasswdEntry) : List Byte :=
  e.user.bytes ++ colon :: (e.password.bytes ++ colon ::
    ((if e.read then [0x72] else []) ++ (if e.write then [0x77] else []) ++
      (if e.owner then [0x6F] else []) ++ [newline]))

/-- Entries without a name have been deleted. -/
def remaining (set : List KasmpasswdEntry) : List KasmpasswdEntry :=
  set.filter fun e => e.user.bytes ≠ []

/-- The file after `writekasmpasswd`, which does nothing if there are no entries. -/
def writekasmpasswd (file : List Byte) (set : List KasmpasswdEntry) : List Byte :=
  if set = [] then file else (remaining set).flatMap KasmpasswdEntry.line

/-! ## Changes -/

/-- The entries with the first one of this name changed, if there is one. -/
def changeFirst (name : CString) (change : KasmpasswdEntry → KasmpasswdEntry) :
    List KasmpasswdEntry → Option (List KasmpasswdEntry)
  | [] => none
  | e :: set =>
    if e.user = name then some (change e :: set)
    else (changeFirst name change set).map (e :: ·)

abbrev USER_UPDATE_WRITE_MASK : BitVec 64 := 1

abbrev USER_UPDATE_OWNER_MASK : BitVec 64 := 2

abbrev USER_UPDATE_PASSWORD_MASK : BitVec 64 := 4

abbrev USER_UPDATE_READ_MASK : BitVec 64 := 8

/-- Whether a change was made, and the file afterwards. -/
abbrev Changed := Bool × List Byte

def netAddUser (name pw : CString) (read write owner : Bool) (file : List Byte) : Changed :=
  if hn : name.bytes.length ≥ USERNAME_LEN then (false, file)
  else if hp : pw.bytes.length ≥ PASSWORD_LEN then (false, file)
  else
    let act : KasmpasswdEntry :=
      { user := name
        password := pw
        read := read
        write := write
        owner := owner
        user_lt := lt_of_fits hn
        password_lt := lt_of_fits hp }
    let set := readkasmpasswd file
    if set.any fun e => e.user = name then (false, file)
    else (true, writekasmpasswd file (set ++ [act]))

/-- The name of an entry that is to be deleted is overwritten. -/
def KasmpasswdEntry.deleted (e : KasmpasswdEntry) : KasmpasswdEntry :=
  { e with
    user := CString.empty
    user_lt := empty_fits }

def netRemoveUser (name : CString) (file : List Byte) : Changed :=
  if name.bytes.length ≥ USERNAME_LEN then (false, file)
  else
    match changeFirst name KasmpasswdEntry.deleted (readkasmpasswd file) with
    | some set => (true, writekasmpasswd file set)
    | none => (false, file)

/-- The fields the mask asks for are replaced. -/
def KasmpasswdEntry.updated (e : KasmpasswdEntry) (mask : BitVec 64) (password : CString)
    (read write owner : Bool) (hp : password.bytes.length < PASSWORD_LEN) : KasmpasswdEntry where
  user := e.user
  password := if mask &&& USER_UPDATE_PASSWORD_MASK ≠ 0 then password else e.password
  read := if mask &&& USER_UPDATE_READ_MASK ≠ 0 then read else e.read
  write := if mask &&& USER_UPDATE_WRITE_MASK ≠ 0 then write else e.write
  owner := if mask &&& USER_UPDATE_OWNER_MASK ≠ 0 then owner else e.owner
  user_lt := e.user_lt
  password_lt := by
    split
    · exact hp
    · exact e.password_lt

def netUpdateUser (name : CString) (mask : BitVec 64) (password : CString)
    (read write owner : Bool) (file : List Byte) : Changed :=
  if name.bytes.length ≥ USERNAME_LEN then (false, file)
  else if hp : password.bytes.length ≥ PASSWORD_LEN then (false, file)
  else if mask = 0 then (false, file)
  else
    let change := fun e : KasmpasswdEntry =>
      e.updated mask password read write owner (lt_of_fits hp)
    match changeFirst name change (readkasmpasswd file) with
    | some set => (true, writekasmpasswd file set)
    | none => (false, file)

def netAddOrUpdateUser (entry : KasmpasswdEntry) (file : List Byte) : Changed :=
  let set := readkasmpasswd file
  let set := (changeFirst entry.user (fun _ => entry) set).getD (set ++ [entry])
  (true, writekasmpasswd file set)

end KasmVNC.Network
