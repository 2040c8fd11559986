import KasmVNC.Network.Kasmpasswd

/-!
# The name of a websocket's peer

The websocket handler connects to the VNC server through a socket in the abstract namespace.
It puts the user, the address of the client and the time into the name of its own end, where
the server finds them. The socket calls are taken to succeed.
-/

namespace KasmVNC.Network

open KasmVNC.Lib

abbrev atSign : Byte := 0x40

abbrev underscore : Byte := 0x5F

abbrev fullStop : Byte := 0x2E

/-! ## Addresses -/

structure Ipv4 where
  a : Byte
  b : Byte
  c : Byte
  d : Byte
deriving DecidableEq

/-- `inet_ntop(AF_INET, …)` -/
def inet_ntop (ip : Ipv4) : List Byte :=
  decimal ip.a.toNat ++ fullStop :: (decimal ip.b.toNat ++ fullStop ::
    (decimal ip.c.toNat ++ fullStop :: decimal ip.d.toNat))

/-- A byte that is no digit and no dot is not in an address. -/
theorem notMem_inet_ntop {b : Byte} (hdigit : ∀ d < 10, b ≠ digit d) (hdot : b ≠ fullStop)
    (ip : Ipv4) : b ∉ inet_ntop ip := by
  simp only [inet_ntop, List.mem_append, List.mem_cons, not_or]
  exact ⟨notMem_decimal hdigit _, hdot, notMem_decimal hdigit _, hdot, notMem_decimal hdigit _,
    hdot, notMem_decimal hdigit _⟩

/-- `isValidIp` -/
def isValidIp (s : List Byte) : Bool :=
  s.all fun b =>
    (0x30 ≤ b && b ≤ 0x39) || (0x41 ≤ b && b ≤ 0x46) || (0x61 ≤ b && b ≤ 0x66) ||
      b = fullStop || b = colon

/-- The address the handler stores: that of the socket, or a forwarded one. -/
def storedIp (peer : Ipv4) (forwarded : Option (List Byte)) : List Byte :=
  match forwarded with
  | some fwd => if !isValidIp fwd || fwd.length ≥ 64 then inet_ntop peer else fwd
  | none => inet_ntop peer

/-! ## The socket's name -/

/-- `sizeof(sun_path)` -/
abbrev SUN_PATH_LEN : ℕ := 108

/-- What `proxy_handler` puts into the name. -/
structure WebPeer where
  user : CString
  ip : List Byte
  tv_sec : ℕ
  tv_usec : ℕ

namespace WebPeer

variable (p : WebPeer)

/-- `".%s@%s_%lu.%lu"`, behind its first byte -/
def name : List Byte :=
  p.user.bytes ++ atSign :: (p.ip ++ underscore ::
    (decimal p.tv_sec ++ fullStop :: decimal p.tv_usec))

/-- The first byte of the path is set to zero, and a zero ends the text. -/
def printed : List Byte := 0 :: (p.name ++ [0])

def FitsSunPath : Prop := p.printed.length ≤ SUN_PATH_LEN

instance : Decidable p.FitsSunPath := inferInstanceAs (Decidable (_ ≤ _))

/-- What `bind` takes of it. -/
def sun_path : List Byte := p.printed.take SUN_PATH_LEN

/-- `WebSocket::getPeerAddress`. A path that is filled to its end has no zero there; what is
behind the array is left out. -/
def getPeerAddress : CString := CString.ofBuffer (p.sun_path.drop 1)

def getPeerEndpoint : List Byte := p.getPeerAddress.bytes ++ ascii "::websocket"

variable {p}

theorem nul_notMem_name (hip : (0 : Byte) ∉ p.ip) : (0 : Byte) ∉ p.name := by
  simp only [name, List.mem_append, List.mem_cons, not_or]
  exact ⟨p.user.no_nul, by decide, hip, by decide, notMem_decimal (by decide) _, by decide,
    notMem_decimal (by decide) _⟩

/-- A name that fits comes back as it was. -/
theorem getPeerAddress_of_fits (hfits : p.FitsSunPath) (hip : (0 : Byte) ∉ p.ip) :
    p.getPeerAddress.bytes = p.name := by
  have hwhole : p.sun_path = 0 :: (p.name ++ [0]) := List.take_of_length_le hfits
  have hterminated : p.sun_path.drop 1 = p.name ++ 0 :: [] := congrArg (List.drop 1) hwhole
  rw [getPeerAddress, hterminated]
  exact congrArg CString.bytes
    (CString.ofBuffer_append ⟨p.name, nul_notMem_name hip⟩ [])

/-- What is behind the last "@" of the endpoint. -/
def behindAt : List Byte :=
  p.ip ++ underscore :: (decimal p.tv_sec ++ fullStop :: (decimal p.tv_usec ++ ascii "::websocket"))

theorem getPeerEndpoint_of_fits (hfits : p.FitsSunPath) (hip : (0 : Byte) ∉ p.ip) :
    p.getPeerEndpoint = p.user.bytes ++ atSign :: p.behindAt := by
  rw [getPeerEndpoint, getPeerAddress_of_fits hfits hip, name, behindAt]
  simp only [List.append_assoc, List.cons_append]

/-- The user is found before the last "@", also if there is another one in the name. -/
theorem cutLast_getPeerEndpoint (hfits : p.FitsSunPath) (hip : (0 : Byte) ∉ p.ip)
    (hat : atSign ∉ p.ip) :
    cutLast atSign p.getPeerEndpoint = some (p.user.bytes, p.behindAt) := by
  rw [getPeerEndpoint_of_fits hfits hip]
  refine cutLast_append _ ?_
  simp only [behindAt, List.mem_append, List.mem_cons, not_or]
  exact ⟨hat, by decide, notMem_decimal (by decide) _, by decide, notMem_decimal (by decide) _,
    by decide⟩

end WebPeer

/-! ## Stored addresses -/

/-- A byte that no address has is not in a stored one. -/
theorem notMem_storedIp {b : Byte} (hdigit : ∀ d < 10, b ≠ digit d) (hdot : b ≠ fullStop)
    (hvalid : isValidIp [b] = false) (peer : Ipv4) (forwarded : Option (List Byte)) :
    b ∉ storedIp peer forwarded := by
  unfold storedIp
  cases forwarded with
  | none => exact notMem_inet_ntop hdigit hdot peer
  | some fwd =>
    dsimp only
    split
    · exact notMem_inet_ntop hdigit hdot peer
    · next hok =>
        intro hmem
        have hall : isValidIp fwd = true := by
          by_contra hbad
          exact hok (by simp [hbad])
        have hone : isValidIp [b] = true := by
          rw [isValidIp, List.all_cons, List.all_nil, Bool.and_true]
          exact List.all_eq_true.mp hall b hmem
        rw [hvalid] at hone
        cases hone

end KasmVNC.Network
