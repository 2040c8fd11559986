import KasmVNC.Lib.Run
import KasmVNC.Network.PeerName

/-!
# Who gets the UDP channel

A client asks for the UDP channel on its connection and then joins over UDP. All that ties the
two together is the address: `upgradeClientToUdp` looks for the text of the joining peer's
address behind the last "@" of the endpoint.
-/

namespace KasmVNC.Rfb

open KasmVNC.Lib KasmVNC.Network

/-- A connection, as far as the UDP channel is concerned. -/
structure ChannelClient where
  peerEndpoint : List Byte
  upgradingToUdp : Bool
  useCopyRect : Bool
  supportsUdp : Bool
deriving DecidableEq

namespace ChannelClient

/-- A new connection. -/
def new (peerEndpoint : List Byte) : ChannelClient := ⟨peerEndpoint, false, false, false⟩

/-- The handshake's answer begins with "H" if WebUdp refused. -/
def udpUpgrade (refused : Bool) (cl : ChannelClient) : ChannelClient :=
  if refused then cl else { cl with upgradingToUdp := true }

def udpDowngrade (watermarkImage : Bool) (cl : ChannelClient) : ChannelClient :=
  { cl with supportsUdp := false, useCopyRect := !watermarkImage }

/-- The channel is the client's from now on. -/
def upgraded (cl : ChannelClient) : ChannelClient :=
  { cl with upgradingToUdp := false, useCopyRect := false, supportsUdp := true }

/-- It is looked at for a peer of this address, and chosen. -/
def matchesPeer (ip : Ipv4) (cl : ChannelClient) : Bool :=
  cl.upgradingToUdp &&
    match cutLast atSign cl.peerEndpoint with
    | some (_, start) => (inet_ntop ip).isPrefixOf start
    | none => false

/-- The text of the address that the endpoint records: between the last "@" and the time. -/
def recordedAddress (cl : ChannelClient) : Option (List Byte) :=
  (cutLast atSign cl.peerEndpoint).map fun p => p.2.takeWhile (· ≠ underscore)

end ChannelClient

/-- `upgradeClientToUdp`, for a peer that has joined from `ip` -/
def upgradeJoined (ip : Ipv4) : List ChannelClient → List ChannelClient
  | [] => []
  | cl :: clients =>
    if cl.matchesPeer ip then cl.upgraded :: clients else cl :: upgradeJoined ip clients

/-- What happens to the clients. -/
inductive ChannelEvent
  | accept (peerEndpoint : List Byte)
  | close (n : ℕ)
  | udpUpgrade (n : ℕ) (refused : Bool)
  | udpDowngrade (n : ℕ) (watermarkImage : Bool)
  | join (ip : Ipv4)

def channelStep (clients : List ChannelClient) : ChannelEvent → List ChannelClient
  | .accept peerEndpoint => .new peerEndpoint :: clients
  | .close n => clients.eraseIdx n
  | .udpUpgrade n refused => clients.modify n (·.udpUpgrade refused)
  | .udpDowngrade n watermarkImage => clients.modify n (·.udpDowngrade watermarkImage)
  | .join ip => upgradeJoined ip clients

/-! ## Its own client -/

/-- A join changes only a client that asked for it, from the peer's address. -/
def UpgradesOwn (clients : List ChannelClient) : ChannelEvent → Prop
  | .join ip => ∀ (n : ℕ) (cl : ChannelClient), clients[n]? = some cl →
      (channelStep clients (.join ip))[n]? ≠ some cl →
        cl.upgradingToUdp = true ∧ cl.recordedAddress = some (inet_ntop ip)
  | _ => True

/-- No client that asked for the channel, and whose address only begins with the peer's, comes
before all that asked for it from the peer's own address. -/
def OwnAddressFirst (clients : List ChannelClient) : ChannelEvent → Prop
  | .join ip => ∀ (before : List ChannelClient) (cl : ChannelClient) (after : List ChannelClient),
      clients = before ++ cl :: after → cl.upgradingToUdp = true →
        (∃ more ≠ [], cl.recordedAddress = some (inet_ntop ip ++ more)) →
          ∃ own ∈ before, own.upgradingToUdp = true ∧ own.recordedAddress = some (inet_ntop ip)
  | _ => True

namespace ChannelClient

variable {ip : Ipv4} {cl : ChannelClient}

theorem takeWhile_prefix_iff {s t : List Byte} (h : underscore ∉ s) :
    s <+: t.takeWhile (· ≠ underscore) ↔ s <+: t := by
  constructor
  · exact fun hpre => hpre.trans (List.takeWhile_prefix _)
  · rintro ⟨rest, rfl⟩
    have hall : ∀ b ∈ s, decide (b ≠ underscore) = true := by
      intro b hb
      exact decide_eq_true fun heq => h (heq ▸ hb)
    rw [List.takeWhile_append_of_pos hall]
    exact List.prefix_append s _

/-- Chosen are those whose address begins with the peer's. -/
theorem matchesPeer_iff : cl.matchesPeer ip = true ↔
    cl.upgradingToUdp = true ∧ ∃ more, cl.recordedAddress = some (inet_ntop ip ++ more) := by
  have hnone : underscore ∉ inet_ntop ip := notMem_inet_ntop (by decide) (by decide) ip
  unfold matchesPeer recordedAddress
  rw [Bool.and_eq_true]
  refine and_congr_right fun _ => ?_
  cases cutLast atSign cl.peerEndpoint with
  | none => simp
  | some p =>
    dsimp only
    rw [List.isPrefixOf_iff_prefix, ← takeWhile_prefix_iff hnone, Option.map_some]
    constructor
    · rintro ⟨more, hmore⟩
      exact ⟨more, hmore ▸ rfl⟩
    · rintro ⟨more, hmore⟩
      exact ⟨more, (Option.some.inj hmore).symm⟩

theorem upgraded_ne (h : cl.upgradingToUdp = true) : cl.upgraded ≠ cl := by
  intro heq
  have hfalse : cl.upgraded.upgradingToUdp = false := rfl
  rw [heq, h] at hfalse
  cases hfalse

end ChannelClient

/-- The client that is chosen, if there is one. -/
theorem upgradeJoined_cases (ip : Ipv4) (clients : List ChannelClient) :
    (upgradeJoined ip clients = clients ∧ ∀ cl ∈ clients, cl.matchesPeer ip = false) ∨
      ∃ before cl after, clients = before ++ cl :: after ∧
        upgradeJoined ip clients = before ++ cl.upgraded :: after ∧
        cl.matchesPeer ip = true ∧ ∀ other ∈ before, other.matchesPeer ip = false := by
  induction clients with
  | nil => exact .inl ⟨rfl, fun _ h => absurd h List.not_mem_nil⟩
  | cons first rest ih =>
    unfold upgradeJoined
    cases hfirst : first.matchesPeer ip with
    | true =>
      exact .inr ⟨[], first, rest, rfl, if_pos rfl, hfirst,
        fun _ h => absurd h List.not_mem_nil⟩
    | false =>
      rw [if_neg Bool.false_ne_true]
      rcases ih with ⟨hsame, hnone⟩ | ⟨before, cl, after, rfl, hafter, hcl, hnone⟩
      · exact .inl ⟨congrArg _ hsame, List.forall_mem_cons.mpr ⟨hfirst, hnone⟩⟩
      · exact .inr ⟨first :: before, cl, after, rfl, congrArg _ hafter, hcl,
          List.forall_mem_cons.mpr ⟨hfirst, hnone⟩⟩

section Chosen

variable {ip : Ipv4} {before after : List ChannelClient} {cl : ChannelClient}

/-- Only the chosen client changes. -/
theorem upgradesOwn_chosen (hcl : cl.matchesPeer ip = true)
    (hafter : upgradeJoined ip (before ++ cl :: after) = before ++ cl.upgraded :: after) :
    UpgradesOwn (before ++ cl :: after) (.join ip) ↔
      cl.recordedAddress = some (inet_ntop ip) := by
  have hasked : cl.upgradingToUdp = true := (ChannelClient.matchesPeer_iff.mp hcl).1
  have hset : upgradeJoined ip (before ++ cl :: after) =
      (before ++ cl :: after).set before.length cl.upgraded := by
    rw [hafter, List.set_append_right _ _ le_rfl, Nat.sub_self]
    rfl
  have hchosen : (before ++ cl :: after)[before.length]? = some cl := by
    rw [List.getElem?_append_right le_rfl, Nat.sub_self]
    rfl
  constructor
  · intro hown
    refine (hown before.length cl hchosen ?_).2
    show (upgradeJoined ip _)[before.length]? ≠ some cl
    rw [hafter, List.getElem?_append_right le_rfl, Nat.sub_self]
    exact fun heq => ChannelClient.upgraded_ne hasked (Option.some.inj heq)
  · intro hrecorded n other hn hchanged
    have hother : (before ++ cl :: after)[n]? = some other := hn
    by_cases hpos : before.length = n
    · subst hpos
      obtain rfl := Option.some.inj (hchosen.symm.trans hother)
      exact ⟨hasked, hrecorded⟩
    · refine absurd ?_ hchanged
      show (upgradeJoined ip _)[n]? = some other
      rw [hset, List.getElem?_set_ne hpos]
      exact hother

/-- The condition, said of the chosen client. -/
theorem ownAddressFirst_chosen (hcl : cl.matchesPeer ip = true)
    (hnone : ∀ other ∈ before, other.matchesPeer ip = false) :
    OwnAddressFirst (before ++ cl :: after) (.join ip) ↔
      cl.recordedAddress = some (inet_ntop ip) := by
  obtain ⟨hasked, rest, hrest⟩ := ChannelClient.matchesPeer_iff.mp hcl
  constructor
  · intro hfirst
    by_cases hnil : rest = []
    · rw [hrest, hnil, List.append_nil]
    · obtain ⟨own, hmem, hown, haddress⟩ :=
        hfirst before cl after rfl hasked ⟨rest, hnil, hrest⟩
      have hmatch : own.matchesPeer ip = true :=
        ChannelClient.matchesPeer_iff.mpr ⟨hown, [], by rw [haddress, List.append_nil]⟩
      rw [hnone own hmem] at hmatch
      cases hmatch
  · rintro hrecorded before' other after' hsplit hother ⟨more, hmore, haddress⟩
    have hne : cl ≠ other := by
      rintro rfl
      rw [hrecorded] at haddress
      exact hmore (List.self_eq_append_right.mp (Option.some.inj haddress))
    rcases List.append_eq_append_iff.mp hsplit with
      ⟨between, rfl, hbehind⟩ | ⟨between, rfl, hbehind⟩
    · cases between with
      | nil => exact absurd (List.cons.inj hbehind).1 hne
      | cons own between =>
        obtain rfl := (List.cons.inj hbehind).1
        exact ⟨cl, List.mem_append_right _ List.mem_cons_self, hasked, hrecorded⟩
    · cases between with
      | nil => exact absurd (List.cons.inj hbehind).1.symm hne
      | cons first between =>
        obtain rfl := (List.cons.inj hbehind).1
        have hmatch : other.matchesPeer ip = true :=
          ChannelClient.matchesPeer_iff.mpr ⟨hother, more, haddress⟩
        rw [hnone other (List.mem_append_right _ List.mem_cons_self)] at hmatch
        cases hmatch

end Chosen

theorem upgradesOwn_iff (clients : List ChannelClient) (e : ChannelEvent) :
    UpgradesOwn clients e ↔ OwnAddressFirst clients e := by
  cases e with
  | join ip =>
    rcases upgradeJoined_cases ip clients with
      ⟨hsame, hnone⟩ | ⟨before, cl, after, rfl, hafter, hcl, hnone⟩
    · -- nobody is chosen
      refine iff_of_true ?_ ?_
      · intro n cl hn hchanged
        refine absurd ?_ hchanged
        show (upgradeJoined ip clients)[n]? = some cl
        rw [hsame]
        exact hn
      · rintro before cl after rfl hasked ⟨more, -, haddress⟩
        have hmatch := ChannelClient.matchesPeer_iff.mpr ⟨hasked, more, haddress⟩
        rw [hnone cl (List.mem_append_right _ List.mem_cons_self)] at hmatch
        cases hmatch
    · rw [upgradesOwn_chosen hcl hafter, ownAddressFirst_chosen hcl hnone]
  | _ => exact Iff.rfl

/-- **Who gets the channel**, over every run from every set of clients. -/
theorem udp_channel_own_iff (clients : List ChannelClient) (es : List ChannelEvent) :
    Guarded channelStep UpgradesOwn clients es ↔
      Guarded channelStep OwnAddressFirst clients es :=
  guarded_congr (fun clients e => upgradesOwn_iff clients e) clients es

/-- 10.0.0.12 has asked for the channel, and 10.0.0.1 after it; the newest client is first.
The peer that joins from 10.0.0.1 opens the channel of 10.0.0.12. -/
theorem udp_channel_of_other :
    ¬Guarded channelStep UpgradesOwn []
      [.accept (ascii "bob@10.0.0.1_1700000000.5::websocket"), .udpUpgrade 0 false,
        .accept (ascii "eve@10.0.0.12_1700000001.7::websocket"), .udpUpgrade 0 false,
        .join ⟨10, 0, 0, 1⟩] := by
  rintro ⟨-, -, -, -, hown, -⟩
  have hchosen := (hown 0 _ rfl (by decide)).2
  exact absurd hchosen (by decide)

end KasmVNC.Rfb
