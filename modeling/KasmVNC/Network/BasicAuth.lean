import KasmVNC.Lib.Base64
import KasmVNC.Network.ParseHandshake
import KasmVNC.Network.PasswordStore

/-!
# Basic authentication

`do_handshake` compares two strings: `authbuf`, made of the entry of the password file, and
`response`, made of what the client sent. Where one of them cannot be made, the two are set to
something different. The HTTP API is for owners only.

Base64 and `crypt_r` are parameters. A password file that does not exist is like an empty one.
-/

namespace KasmVNC.Network

open KasmVNC.Lib

/-! ## The decision -/

structure AuthSettings where
  disablebasicauth : Bool
  /-- What is in the file, if there is one in the settings. -/
  passwdfile : Option (List Byte)
  httpdir : Bool

/-- What `ws_b64_pton` returns, and what it leaves in the buffer before the zero. -/
structure DecodedValue where
  len : ℤ
  dst : List Byte

/-- `snprintf` of a string, with the size of the buffer. -/
def snprintf (size : ℕ) (s : List Byte) : CString := CString.ofBuffer (s.take (size - 1))

/-- What is compared, with the name of the user and whether they are an owner. -/
structure Login where
  authbuf : CString
  response : CString
  inuser : CString
  owner : Bool

/-- `"-"` -/
def noUser : CString := ⟨[0x2D], by decide⟩

inductive Verdict
  /-- With the status of the answer. -/
  | denied (status : ℕ) (inuser : CString)
  | passed (owner : Bool) (inuser : CString)

/-- What is done with a request that is not for a WebSocket. -/
inductive HttpCall
  | ownerapi
  | unauthorized
  | servefile
deriving DecidableEq, Repr

section Decision

variable (ws_b64_pton : List Byte → DecodedValue) (crypt_r : CString → CString)

/-- The login against the password file. An empty password fails. -/
def fileLogin (file : List Byte) (response : CString) : Login :=
  let failed : Login := ⟨⟨[0x61], by decide⟩, CString.empty, noUser, false⟩
  match cut colon response.bytes with
  | none => failed
  | some (user, resppw) =>
    if resppw ≠ [] ∧ user.length + 1 < USERNAME_LEN + 1 then
      let set := readkasmpasswd file
      let inuser := CString.ofBuffer user
      let entry := set.find? fun e => e.user = inuser
      let encrypted := crypt_r (CString.ofBuffer resppw)
      { authbuf :=
          match entry with
          | none => CString.empty
          | some e => snprintf 4096 (e.user.bytes ++ colon :: e.password.bytes)
        response := snprintf 4096 (user ++ colon :: encrypted.bytes)
        inuser := if set = [] then noUser else inuser
        owner := entry.any fun e => e.owner }
    else failed

/-- The value of the first header for basic authentication, up to the end of its line. -/
def basicValue (text : List Byte) : Option (List Byte) := do
  let hdr ← strcasestr (ascii "Authorization: Basic ") text
  let (value, _) ← cut 0x0D (hdr.drop (ascii "Authorization: Basic ").length)
  some value

/-- The authentication step of `do_handshake`. -/
def authenticate (settings : AuthSettings) (text : List Byte) : Verdict :=
  if settings.disablebasicauth then .passed false noUser
  else if (strcasestr (ascii "Authorization: Basic ") text).isNone then .denied 401 noUser
  else
    match basicValue text with
    | none => .denied 403 noUser
    | some value =>
      if value.length > 256 then .denied 403 noUser
      else
        let decoded := ws_b64_pton value
        let response := CString.ofBuffer decoded.dst
        let login : Login :=
          match settings.passwdfile with
          | none => ⟨CString.empty, response, noUser, false⟩
          | some file => fileLogin crypt_r file response
        if decoded.len ≤ 0 ∨ login.authbuf ≠ login.response then .denied 401 login.inuser
        else .passed login.owner login.inuser

/-- What is called for an HTTP request. `handled` is what `ownerapi` returns. -/
def dispatch (settings : AuthSettings) (owner handled : Bool) (text : List Byte) : List HttpCall :=
  let files := if settings.httpdir then [HttpCall.servefile] else []
  if (strstr (ascii "/api/") text).isSome then
    if owner then .ownerapi :: if handled then [] else files
    else [.unauthorized]
  else files

/-- `do_handshake`, from the authentication step on, unless the parser is misused. -/
def authenticated (settings : AuthSettings) (handled : Bool) (handshake : CString) :
    Option (List HttpCall) :=
  match authenticate ws_b64_pton crypt_r settings handshake.bytes with
  | .denied _ _ => some []
  | .passed owner _ =>
    match parse_handshake handshake unwritten with
    | .misused _ => none
    | .accepted _ => some []
    | .refused _ _ => some (dispatch settings owner handled handshake.bytes)

/-! ## Who passes -/

/-- The login is the name of a user and a password, not an empty one, and the first entry of this
name has the hash of the password. -/
def Authenticates (file : List Byte) (login : CString) (e : KasmpasswdEntry) : Prop :=
  ∃ user password : CString, login.bytes = user.bytes ++ colon :: password.bytes ∧
    password.bytes ≠ [] ∧ user.bytes.length < USERNAME_LEN ∧
    (readkasmpasswd file).find? (fun e => e.user = user) = some e ∧
    e.password = crypt_r password

variable {ws_b64_pton crypt_r} {file : List Byte} {response : CString} {e : KasmpasswdEntry}

theorem bytes_snprintf {size : ℕ} {s : List Byte} (h : 0 ∉ s) :
    (snprintf size s).bytes = s.take (size - 1) :=
  CString.bytes_ofBuffer_of_not_mem fun hmem => h (List.mem_of_mem_take hmem)

/-- What is cut off does not make different texts equal, if one of them is short. -/
theorem eq_of_take_eq {α : Type*} {s t : List α} {n : ℕ} (hs : s.length < n)
    (h : s.take n = t.take n) : s = t := by
  have hlength := congrArg List.length h
  rw [List.length_take, List.length_take] at hlength
  rwa [List.take_of_length_le hs.le, List.take_of_length_le (by omega)] at h

/-- A colon is not in the name, so the login has only one form. -/
theorem cut_login {user password : CString} {set : List KasmpasswdEntry}
    (hset : ∀ e ∈ set, e.Clean) (hlogin : response.bytes = user.bytes ++ colon :: password.bytes)
    (hfind : set.find? (fun e => e.user = user) = some e) :
    cut colon response.bytes = some (user.bytes, password.bytes) := by
  have huser : e.user = user := by simpa using List.find?_some hfind
  have hclean := hset e (List.mem_of_find?_eq_some hfind)
  rw [hlogin, cut_append password.bytes (huser ▸ hclean.1.1)]

theorem CString.ofBuffer_bytes (s : CString) : CString.ofBuffer s.bytes = s :=
  CString.ext (CString.bytes_ofBuffer_of_not_mem s.no_nul)

theorem notMem_login (user password : CString) : 0 ∉ user.bytes ++ colon :: password.bytes := by
  intro hmem
  rcases List.mem_append.mp hmem with h | h
  · exact user.no_nul h
  · rcases List.mem_cons.mp h with h | h
    · exact absurd h (by decide)
    · exact password.no_nul h

/-- The strings of an entry are short, so what is cut off does not make them equal to others. -/
theorem snprintf_eq_iff {user hash : CString} (huser : e.user = user) :
    snprintf 4096 (e.user.bytes ++ colon :: e.password.bytes) =
        snprintf 4096 (user.bytes ++ colon :: hash.bytes) ↔ e.password = hash := by
  have hshort : (e.user.bytes ++ colon :: e.password.bytes).length < 4095 := by
    have huserlt : e.user.bytes.length < 128 := e.user_lt
    have hpasslt : e.password.bytes.length < 128 := e.password_lt
    rw [List.length_append, List.length_cons]
    omega
  constructor
  · intro h
    have hbytes := congrArg CString.bytes h
    rw [bytes_snprintf (notMem_login _ _), bytes_snprintf (notMem_login _ _)] at hbytes
    have heq := eq_of_take_eq hshort hbytes
    rw [huser, List.append_cancel_left_eq, List.cons.injEq] at heq
    exact CString.ext heq.2
  · rintro rfl
    rw [huser]

/-- What is known of a login for which the strings are equal. -/
theorem of_fileLogin_eq (h : (fileLogin crypt_r file response).authbuf =
      (fileLogin crypt_r file response).response) :
    ∃ e, Authenticates crypt_r file response e ∧
      (fileLogin crypt_r file response).owner = e.owner := by
  unfold fileLogin at h ⊢
  dsimp only at h ⊢
  split at h
  · cases h
  · next user resppw hcut =>
      obtain ⟨hbytes, -⟩ := of_cut_eq_some hcut
      have hnul := hbytes ▸ response.no_nul
      simp only [List.mem_append, List.mem_cons, not_or] at hnul
      have huser : (CString.ofBuffer user).bytes = user := CString.bytes_ofBuffer_of_not_mem hnul.1
      have hpw : (CString.ofBuffer resppw).bytes = resppw :=
        CString.bytes_ofBuffer_of_not_mem hnul.2.2
      split at h
      · next hform =>
          rw [if_pos hform]
          dsimp only at h ⊢
          cases hfind : (readkasmpasswd file).find? fun e => e.user = CString.ofBuffer user with
          | none =>
            -- nothing is compared with a text that has a colon in it
            rw [hfind, ← huser] at h
            have hempty := (bytes_snprintf (notMem_login _ _)).symm.trans
              (congrArg CString.bytes h).symm
            rcases List.take_eq_nil_iff.mp hempty with hzero | hnil
            · cases hzero
            · simp at hnil
          | some e =>
            rw [hfind] at h
            dsimp only at h
            have hname : e.user = CString.ofBuffer user := by simpa using List.find?_some hfind
            rw [← huser, snprintf_eq_iff hname] at h
            refine ⟨e, ⟨_, _, ?_, ?_, ?_, hfind, h⟩, rfl⟩
            · rw [huser, hpw, hbytes]
            · rw [hpw]
              exact hform.1
            · rw [huser]
              exact Nat.lt_of_succ_lt_succ hform.2
      · cases h

theorem fileLogin_eq (h : Authenticates crypt_r file response e) :
    (fileLogin crypt_r file response).authbuf = (fileLogin crypt_r file response).response := by
  obtain ⟨user, password, hlogin, hempty, hlt, hfind, hhash⟩ := h
  have hcut := cut_login (fun e he => clean_of_mem_read he) hlogin hfind
  have hname : e.user = user := by simpa using List.find?_some hfind
  have hform : password.bytes ≠ [] ∧ user.bytes.length + 1 < USERNAME_LEN + 1 :=
    ⟨hempty, Nat.succ_lt_succ hlt⟩
  unfold fileLogin
  dsimp only
  rw [hcut]
  dsimp only
  rw [if_pos hform, CString.ofBuffer_bytes, CString.ofBuffer_bytes, hfind]
  exact (snprintf_eq_iff hname).mpr hhash

/-! ## The whole step -/

variable {settings : AuthSettings} {text : List Byte}

/-- The value is not too long and is decoded, and the login is one of a user with an entry. -/
def Admits (ws_b64_pton : List Byte → DecodedValue) (crypt_r : CString → CString) (file text : List Byte)
    (e : KasmpasswdEntry) : Prop :=
  ∃ value, basicValue text = some value ∧ value.length ≤ 256 ∧ 0 < (ws_b64_pton value).len ∧
    Authenticates crypt_r file (CString.ofBuffer (ws_b64_pton value).dst) e

theorem authenticate_value {value : List Byte} (hauth : settings.disablebasicauth = false)
    (hfile : settings.passwdfile = some file) (hvalue : basicValue text = some value) :
    authenticate ws_b64_pton crypt_r settings text =
      if value.length > 256 then .denied 403 noUser
      else
        let decoded := ws_b64_pton value
        let login := fileLogin crypt_r file (CString.ofBuffer decoded.dst)
        if decoded.len ≤ 0 ∨ login.authbuf ≠ login.response then .denied 401 login.inuser
        else .passed login.owner login.inuser := by
  have hheader : ¬(strcasestr (ascii "Authorization: Basic ") text).isNone := by
    intro hnone
    rw [basicValue, Option.isNone_iff_eq_none.mp hnone] at hvalue
    cases hvalue
  rw [authenticate, hauth, if_neg (by decide), if_neg hheader, hvalue, hfile]

theorem of_passed {owner : Bool} {inuser : CString} (hauth : settings.disablebasicauth = false)
    (hfile : settings.passwdfile = some file)
    (h : authenticate ws_b64_pton crypt_r settings text = .passed owner inuser) :
    ∃ e, Admits ws_b64_pton crypt_r file text e ∧ owner = e.owner := by
  cases hvalue : basicValue text with
  | none =>
    rw [authenticate, hauth, if_neg (by decide), hvalue] at h
    split at h
    · cases h
    · cases h
  | some value =>
    rw [authenticate_value hauth hfile hvalue] at h
    split at h
    · cases h
    · next hlength =>
        dsimp only at h
        split at h
        · cases h
        · next hlogin =>
            rw [not_or, not_not, not_le] at hlogin
            cases h
            obtain ⟨e, hadmits, howner⟩ := of_fileLogin_eq hlogin.2
            exact ⟨e, ⟨value, hvalue, not_lt.mp hlength, hlogin.1, hadmits⟩, howner⟩

theorem passed_of_admits (hauth : settings.disablebasicauth = false)
    (hfile : settings.passwdfile = some file) (h : Admits ws_b64_pton crypt_r file text e) :
    ∃ owner inuser, authenticate ws_b64_pton crypt_r settings text = .passed owner inuser := by
  obtain ⟨value, hvalue, hlength, hlen, hlogin⟩ := h
  have hsame : ¬((ws_b64_pton value).len ≤ 0 ∨ _ ≠ _) :=
    not_or.mpr ⟨not_le.mpr hlen, not_not.mpr (fileLogin_eq hlogin)⟩
  rw [authenticate_value hauth hfile hvalue, if_neg (not_lt.mpr hlength)]
  exact ⟨_, _, if_neg hsame⟩

/-- **Who passes the authentication**, and who gets to the HTTP API for owners. -/
theorem authenticate_passed_iff (ws_b64_pton : List Byte → DecodedValue) (crypt_r : CString → CString)
    (file : List Byte) (httpdir handled : Bool) (handshake : CString) :
    ((∃ owner inuser, authenticate ws_b64_pton crypt_r ⟨false, some file, httpdir⟩
        handshake.bytes = .passed owner inuser) ↔
      ∃ e, Admits ws_b64_pton crypt_r file handshake.bytes e) ∧
    ∀ calls, authenticated ws_b64_pton crypt_r ⟨false, some file, httpdir⟩ handled handshake =
        some calls →
      HttpCall.ownerapi ∈ calls →
      ∃ e, Admits ws_b64_pton crypt_r file handshake.bytes e ∧ e.owner := by
  refine ⟨⟨?_, ?_⟩, ?_⟩
  · rintro ⟨owner, inuser, h⟩
    obtain ⟨e, he, -⟩ := of_passed rfl rfl h
    exact ⟨e, he⟩
  · rintro ⟨e, he⟩
    exact passed_of_admits rfl rfl he
  · intro calls hcalls howner
    unfold authenticated at hcalls
    split at hcalls
    · cases hcalls
      cases howner
    · next owner inuser hpassed =>
        obtain ⟨e, he, rfl⟩ := of_passed rfl rfl hpassed
        refine ⟨e, he, ?_⟩
        split at hcalls
        · cases hcalls
        · cases hcalls
          cases howner
        · cases hcalls
          by_contra hnot
          rw [dispatch, if_neg hnot] at howner
          split at howner <;> simp at howner

end Decision

/-! ## Long values -/

/-- Base64 as the library decodes it, up to the size of the buffer. -/
def decodeBase64 (value : List Byte) : DecodedValue :=
  match Base64.decode value with
  | none => ⟨-1, []⟩
  | some s => ⟨(s.take 256).length, s.take 256⟩

def longPassword : CString :=
  ⟨List.replicate 193 0x68, fun h => absurd (List.eq_of_mem_replicate h) (by decide)⟩

/-- The hash of this password. -/
def longHash : CString :=
  ⟨ascii "$5$kasm$52OLuDpw3KAiO4Hb3BISLOSC35PbAXX/wgiD1k6n9w0", by rw [ascii_ofList]; decide⟩

theorem nul_notMem_shortName : (0 : Byte) ∉ [0x75] := by decide

def longEntry : KasmpasswdEntry where
  user := ⟨[0x75], nul_notMem_shortName⟩
  password := longHash
  read := true
  write := true
  owner := true
  password_lt := by
    show (ascii "$5$kasm$52OLuDpw3KAiO4Hb3BISLOSC35PbAXX/wgiD1k6n9w0").length < 128
    rw [ascii_ofList]
    decide

def longLogin : List Byte := 0x75 :: colon :: longPassword.bytes

def longRequest : List Byte :=
  ascii "GET / HTTP/1.1\r\nAuthorization: Basic " ++ (Base64.encode longLogin ++
    ascii "\r\n\r\n")

theorem basicValue_longRequest : basicValue longRequest = some (Base64.encode longLogin) := by
  have hcr : (0x0D : Byte) ∉ Base64.encode longLogin := by
    refine Base64.notMem_encode ?_ (by decide) longLogin
    rw [Base64.alphabet, ascii_ofList]
    decide
  have hfound : ∀ rest, strcasestr (ascii "Authorization: Basic ")
      (ascii "GET / HTTP/1.1\r\nAuthorization: Basic " ++ rest) =
        some (ascii "Authorization: Basic " ++ rest) := by
    intro rest
    rw [ascii_ofList, ascii_ofList]
    rfl
  rw [basicValue, longRequest, hfound, Option.bind_eq_bind, Option.bind_some, List.drop_left,
    show ascii "\r\n\r\n" = 0x0D :: [0x0A, 0x0D, 0x0A] by rw [ascii_ofList]; rfl,
    cut_append _ hcr]
  rfl

theorem length_longLogin : longLogin.length = 195 := by
  show (List.replicate 193 (0x68 : Byte)).length + 1 + 1 = 195
  rw [List.length_replicate]

theorem length_longValue : (Base64.encode longLogin).length = 260 := by
  rw [Base64.length_encode, length_longLogin]

def longFile : List Byte := [longEntry].flatMap KasmpasswdEntry.line

/-- A user whose password makes the value too long. -/
theorem long_password_denied :
    (∃ value, basicValue longRequest = some value ∧ 0 < (decodeBase64 value).len ∧
      ∃ e, Authenticates (fun _ => longHash) longFile
        (CString.ofBuffer (decodeBase64 value).dst) e) ∧
    ¬∃ owner inuser, authenticate decodeBase64 (fun _ => longHash) ⟨false, some longFile, true⟩
      longRequest = .passed owner inuser := by
  have hdecoded : decodeBase64 (Base64.encode longLogin) = ⟨195, longLogin⟩ := by
    rw [decodeBase64, Base64.decode_encode]
    dsimp only
    rw [List.take_of_length_le (by rw [length_longLogin]; decide), length_longLogin]
    rfl
  have hclean : longEntry.Clean := by
    show (_ ∧ _) ∧ colon ∉ ascii _ ∧ newline ∉ ascii _
    rw [ascii_ofList]
    decide
  have hread : readkasmpasswd longFile = [longEntry] :=
    read_lines fun e he => List.mem_singleton.mp he ▸ hclean
  have hnul : 0 ∉ longLogin := notMem_login ⟨[0x75], by decide⟩ longPassword
  constructor
  · refine ⟨_, basicValue_longRequest, by rw [hdecoded]; decide, longEntry, longEntry.user,
      longPassword, ?_, by decide, by decide, ?_, rfl⟩
    · rw [hdecoded]
      exact CString.bytes_ofBuffer_of_not_mem hnul
    · rw [hread]
      simp
  · rintro ⟨owner, inuser, h⟩
    rw [authenticate_value rfl rfl basicValue_longRequest,
      if_pos (by rw [length_longValue]; decide)] at h
    cases h

end KasmVNC.Network
