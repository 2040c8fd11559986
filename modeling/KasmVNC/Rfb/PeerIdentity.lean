import KasmVNC.Network.PeerName
import KasmVNC.Rfb.Permissions

/-!
# Who a connection belongs to

The websocket handler lets a user in and names its socket after them. The VNC server reads the
name back from the socket's peer and looks the user up again, to find out what the connection
may do.
-/

namespace KasmVNC.Rfb

open KasmVNC.Lib KasmVNC.Network

/-! ## Letting in -/

/-- The user that `do_handshake` lets in with these credentials. -/
def basicAuth (crypt_r : CString → CString) (file : List Byte) (response : CString) :
    Option CString :=
  match cut colon response.bytes with
  | none => none
  | some (name, resppw) =>
    -- an empty password just fails them
    if resppw = [] ∨ name.length ≥ USERNAME_LEN then none
    else
      let inuser := CString.ofBuffer name
      match (readkasmpasswd file).find? fun e => e.user = inuser with
      | none => none
      | some e =>
        if e.password = crypt_r (CString.ofBuffer resppw) then some inuser else none

/-! ## The connection -/

/-- The user, as `VNCSConnectionST` finds it in the endpoint. -/
def connectionUser (peerEndpoint : List Byte) : CString :=
  match cutLast atSign peerEndpoint with
  | some (before, _) =>
    if 1 < before.length ∧ before.length < USERNAME_LEN then CString.ofBuffer before
    else CString.empty
  | none => CString.empty

/-- What `getPerms` finds out. -/
structure FoundPerms where
  found : Bool
  read : Bool
  write : Bool

/-- `getPerms`. What it does not set stays as it was. -/
def getPerms (disablebasicauth : Bool) (file : List Byte) (user : CString) (read write : Bool) :
    FoundPerms :=
  if disablebasicauth then ⟨true, true, true⟩
  else if user.bytes = [] then ⟨false, read, write⟩
  else
    match (readkasmpasswd file).find? fun e => e.user = user with
    -- a writer can always read
    | some e => ⟨true, e.read || e.write, e.write⟩
    | none => ⟨false, read, write⟩

/-- What is left of the default rights. -/
def FoundPerms.accessRights (p : FoundPerms) : BitVec 16 :=
  let rights :=
    if !p.found then AccessDefault &&& ~~~(WRITER_PERMS ||| AccessView) else AccessDefault
  let rights := if !p.write then rights &&& ~~~WRITER_PERMS else rights
  if !p.read then rights &&& ~~~AccessView else rights

structure NewConnection where
  user : CString
  accessRights : BitVec 16

/-- The constructor of `VNCSConnectionST`. `read` and `write` are not initialised. -/
def newConnection (disablebasicauth : Bool) (file peerEndpoint : List Byte) (read write : Bool) :
    NewConnection :=
  let user := connectionUser peerEndpoint
  ⟨user, (getPerms disablebasicauth file user read write).accessRights⟩

/-! ## What is to be found -/

/-- The rights an entry of the password file grants. -/
def grantedRights (e : KasmpasswdEntry) : BitVec 16 :=
  AccessDefault &&& ~~~(if e.write then 0 else WRITER_PERMS) &&&
    ~~~(if e.read || e.write then 0 else AccessView)

/-- The connection of a peer has the peer's name and rights. -/
structure IdentityReaches (file : List Byte) (p : WebPeer) (read write : Bool) : Prop where
  fits : p.FitsSunPath
  user_eq : (newConnection false file p.getPeerEndpoint read write).user = p.user
  rights_eq : ∃ e, (readkasmpasswd file).find? (fun e => e.user = p.user) = some e ∧
    (newConnection false file p.getPeerEndpoint read write).accessRights = grantedRights e

theorem accessRights_granted (e : KasmpasswdEntry) :
    FoundPerms.accessRights ⟨true, e.read || e.write, e.write⟩ = grantedRights e := by
  unfold FoundPerms.accessRights grantedRights
  cases e.read <;> cases e.write <;> decide

theorem fitsSunPath_iff (p : WebPeer) : p.FitsSunPath ↔
    p.user.bytes.length + p.ip.length + (decimal p.tv_sec).length + (decimal p.tv_usec).length + 5 ≤
      SUN_PATH_LEN := by
  have hlength : p.printed.length =
      p.user.bytes.length + p.ip.length + (decimal p.tv_sec).length +
        (decimal p.tv_usec).length + 5 := by
    simp only [WebPeer.printed, WebPeer.name, List.length_cons, List.length_append,
      List.length_nil]
    omega
  rw [WebPeer.FitsSunPath, hlength]

/-- Names of a single byte are taken for no name. -/
theorem connectionUser_eq {p : WebPeer} (hfits : p.FitsSunPath) (hnul : (0 : Byte) ∉ p.ip)
    (hat : atSign ∉ p.ip) :
    connectionUser p.getPeerEndpoint =
      if 2 ≤ p.user.bytes.length then p.user else CString.empty := by
  have hshort : p.user.bytes.length < USERNAME_LEN := by
    have hlength : _ ≤ 108 := (fitsSunPath_iff p).mp hfits
    show _ < 128
    omega
  rw [connectionUser, WebPeer.cutLast_getPeerEndpoint hfits hnul hat]
  dsimp only
  by_cases hlong : 2 ≤ p.user.bytes.length
  · rw [if_pos ⟨hlong, hshort⟩, if_pos hlong]
    exact CString.ext (CString.bytes_ofBuffer_of_not_mem p.user.no_nul)
  · rw [if_neg fun h => hlong h.1, if_neg hlong]

/-- Who is let in has an entry. -/
theorem entry_of_basicAuth {crypt_r : CString → CString} {file : List Byte}
    {response user : CString} (h : basicAuth crypt_r file response = some user) :
    ∃ e, (readkasmpasswd file).find? (fun e => e.user = user) = some e := by
  unfold basicAuth at h
  split at h
  · cases h
  · split at h
    · cases h
    · dsimp only at h
      split at h
      · cases h
      · next e hfound =>
          split at h
          · obtain rfl := Option.some.inj h
            exact ⟨e, hfound⟩
          · cases h

/-- **Who an identity reaches**: the names of at least two bytes whose socket name fits. -/
theorem identity_reaches_iff (crypt_r : CString → CString) (file : List Byte)
    (response user : CString) (hauth : basicAuth crypt_r file response = some user)
    (hname : user.bytes ≠ []) (peer : Ipv4) (forwarded : Option (List Byte)) (sec usec : ℕ)
    (read write : Bool) :
    IdentityReaches file ⟨user, storedIp peer forwarded, sec, usec⟩ read write ↔
      2 ≤ user.bytes.length ∧
        user.bytes.length + (storedIp peer forwarded).length + (decimal sec).length +
          (decimal usec).length + 5 ≤ SUN_PATH_LEN := by
  let p : WebPeer := ⟨user, storedIp peer forwarded, sec, usec⟩
  have hnul : (0 : Byte) ∉ p.ip := notMem_storedIp (by decide) (by decide) (by decide) _ _
  have hat : atSign ∉ p.ip := notMem_storedIp (by decide) (by decide) (by decide) _ _
  constructor
  · rintro ⟨hfits, huser, -⟩
    refine ⟨?_, (fitsSunPath_iff p).mp hfits⟩
    by_contra hshort
    have hempty : connectionUser p.getPeerEndpoint = user := huser
    rw [connectionUser_eq hfits hnul hat, if_neg hshort] at hempty
    exact hname (hempty ▸ rfl)
  · rintro ⟨hlong, hlength⟩
    have hfits : p.FitsSunPath := (fitsSunPath_iff p).mpr hlength
    have huser : connectionUser p.getPeerEndpoint = user := by
      rw [connectionUser_eq hfits hnul hat, if_pos hlong]
    obtain ⟨e, he⟩ := entry_of_basicAuth hauth
    refine ⟨hfits, huser, e, he, ?_⟩
    have hperms : getPerms false file user read write = ⟨true, e.read || e.write, e.write⟩ := by
      unfold getPerms
      rw [if_neg Bool.false_ne_true, if_neg hname, he]
    show (getPerms false file (connectionUser p.getPeerEndpoint) read write).accessRights = _
    rw [huser, hperms]
    exact accessRights_granted e

/-! ## A short name -/

/-- `ab:x:w` and `a:x:w` -/
def writersFile : List Byte := ascii "ab:x:w" ++ newline :: (ascii "a:x:w" ++ [newline])

def localhost : Ipv4 := ⟨127, 0, 0, 1⟩

theorem identity_reaches_ab :
    IdentityReaches writersFile ⟨⟨ascii "ab", by decide⟩, storedIp localhost none, 1700000000, 5⟩
      false false :=
  (identity_reaches_iff (fun _ => ⟨ascii "x", by decide⟩) writersFile ⟨ascii "ab:pw", by decide⟩
    ⟨ascii "ab", by decide⟩ (by decide) (by decide) localhost none 1700000000 5 false false).mpr
    (by decide)

/-- A user whose name is one letter gets in, and their connection has no name. -/
theorem one_letter_name :
    ¬∀ user : CString,
      basicAuth (fun _ => ⟨ascii "x", by decide⟩) writersFile ⟨ascii "a:pw", by decide⟩ =
          some user →
        IdentityReaches writersFile ⟨user, storedIp localhost none, 1700000000, 5⟩ false false := by
  intro h
  have huser := (h ⟨ascii "a", by decide⟩ (by decide)).user_eq
  exact absurd huser (by decide)

end KasmVNC.Rfb
