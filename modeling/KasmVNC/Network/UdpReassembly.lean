import KasmVNC.Lib.Reassembly
import KasmVNC.Lib.Run
import KasmVNC.Network.Udp

/-!
# What a UDP client can put together

The pieces of a packet are tied together by the `id` of the stream, which moves on when a
packet has been sent as a whole. A packet that is cut short leaves it, and the next packet
has the same one: a client that has pieces of both may put together what was never flushed.
-/

namespace KasmVNC.Network

open KasmVNC.Lib

/-- A datagram as its receiver reads it. -/
def Datagram.fragment (d : Datagram) : Fragment (BitVec 32) Byte :=
  ⟨d.id, d.index.toNat, d.pieces.toNat, d.payload⟩

/-! ## One packet -/

section Udpsend

variable (XXH64 : List Byte → BitVec 64) {udpSize : UdpSize} (sends : ℕ → Bool)
  (frame : BitVec 32) {m : Message (BitVec 32) Byte}

theorem datagram_fragment {i : ℕ} (hi : i < m.count) (hcount : m.count < 2 ^ 32) :
    (datagram XXH64 m.key frame m.count i (m.piece i)).fragment = m.fragment i := by
  have hindex : (BitVec.ofNat 32 i).toNat = i := by
    rw [BitVec.toNat_ofNat]
    exact Nat.mod_eq_of_lt (Nat.lt_trans hi hcount)
  have hpieces : (BitVec.ofNat 32 m.count).toNat = m.count := by
    rw [BitVec.toNat_ofNat]
    exact Nat.mod_eq_of_lt hcount
  unfold Datagram.fragment datagram Message.fragment
  dsimp only
  rw [hindex, hpieces]

/-- The loop sends the fragments from `i` on; only if it fails are there some missing at the
end. -/
theorem sendPieces_fragments (hsize : m.size = udpSize.val) (hcount : m.count < 2 ^ 32) :
    ∀ n i : ℕ, i + n = m.count →
      let sent := sendPieces XXH64 udpSize sends m.key frame m.count n i
        (m.data.drop (i * m.size))
      sent.1.map Datagram.fragment <+: (List.range' i n).map m.fragment ∧
        (sent.2 = false → sent.1.map Datagram.fragment = (List.range' i n).map m.fragment)
  | 0, i, _ => ⟨List.nil_prefix, fun _ => rfl⟩
  | n + 1, i, hn => by
    intro sent
    have hdrop : (m.data.drop (i * m.size)).drop udpSize.val =
        m.data.drop ((i + 1) * m.size) := by
      rw [List.drop_drop, ← hsize, Nat.add_mul, Nat.one_mul]
    have hpiece : (m.data.drop (i * m.size)).take udpSize.val = m.piece i := by
      rw [← hsize]
      rfl
    have ih := sendPieces_fragments hsize hcount n (i + 1) (by omega)
    rw [← hdrop] at ih
    obtain ⟨hpre, hall⟩ := ih
    have hfirst : (datagram XXH64 m.key frame m.count i (m.piece i)).fragment =
        m.fragment i :=
      datagram_fragment XXH64 frame (by omega) hcount
    simp only [sent, sendPieces, hpiece]
    rw [List.range'_succ, List.map_cons]
    cases sends i with
    | false => exact ⟨List.nil_prefix, fun hok => nomatch hok⟩
    | true =>
      simp only [if_true, List.map_cons, hfirst]
      exact ⟨List.cons_prefix_cons.mpr ⟨rfl, hpre⟩, fun hok => congrArg _ (hall hok)⟩

/-- A packet is sent as the fragments of a message, or as the first few of them. -/
theorem udpsend_fragments (hsize : m.size = udpSize.val) (hcount : m.count < 2 ^ 32) :
    let sent := udpsend XXH64 udpSize sends m.data m.key frame
    sent.1.map Datagram.fragment <+: m.fragments ∧
      (sent.2.1 = false → sent.1.map Datagram.fragment = m.fragments) := by
  have hpieces : pieces udpSize m.data.length = m.count := by
    unfold pieces Message.count
    rw [hsize]
  have h := sendPieces_fragments XXH64 sends frame hsize hcount m.count 0 (Nat.zero_add _)
  rw [Nat.zero_mul, List.drop_zero, ← List.range_eq_range'] at h
  intro sent
  simp only [sent, udpsend, hpieces]
  exact h

/-- Something is sent only of a packet that is not empty and whose first piece goes through. -/
theorem udpsend_ne_nil {XXH64 : List Byte → BitVec 64} {sends : ℕ → Bool} {frame : BitVec 32}
    {data : List Byte} {id : BitVec 32}
    (h : (udpsend XXH64 udpSize sends data id frame).1 ≠ []) : data ≠ [] ∧ sends 0 = true := by
  constructor
  · rintro rfl
    refine h ?_
    have hnone : pieces udpSize ([] : List Byte).length = 0 := by
      unfold pieces
      rw [List.length_nil, Nat.zero_div, Nat.zero_mod]
      rfl
    simp only [udpsend, hnone]
    rfl
  · by_contra hfails
    refine h ?_
    simp only [udpsend]
    cases pieces udpSize data.length with
    | zero => rfl
    | succ n => simp only [sendPieces, if_neg hfails]

end Udpsend

/-! ## The stream and what it has sent -/

/-- A packet of which a piece has been sent. -/
structure Packet (γ : Type*) where
  client : γ
  /-- How many packets had been sent as a whole. -/
  number : ℕ
  size : UdpSize
  data : List Byte

variable {γ : Type*}

def Packet.message (p : Packet γ) : Message (BitVec 32) Byte :=
  ⟨.ofNat 32 p.number, p.size.val, p.size.pos, p.data⟩

/-- The stream, with a record of what it has sent. The record is not read by the stream. -/
structure UdpLink (γ : Type*) where
  stream : UdpStream γ
  sent : List (γ × Datagram)
  packets : List (Packet γ)
  succeeded : ℕ
  /-- Who has pieces of a packet that was cut short and whose `id` is still in use. -/
  partly : List γ

inductive UdpEvent (γ : Type*)
  | setClient (cli : γ)
  | setFrameNumber (frame : BitVec 32)
  | write (bytes : List Byte)
  | flush (udpSize : UdpSize) (sends : ℕ → Bool)
  | clearFailed

/-- `UdpStream::overrun` ends the server. -/
inductive UdpAbort
  | overrun

namespace UdpLink

def new : UdpLink γ := ⟨.new, [], [], 0, []⟩

variable (XXH64 : List Byte → BitVec 64)

def flush (l : UdpLink γ) (udpSize : UdpSize) (sends : ℕ → Bool) : UdpLink γ :=
  let stream := (l.stream.flush XXH64 udpSize sends).2
  match l.stream.client with
  | none => { l with stream }
  | some cli =>
    let (sent, failed, _) := udpsend XXH64 udpSize sends l.stream.data l.stream.id l.stream.frame
    let started := sent ≠ []
    { stream
      sent := l.sent ++ sent.map (cli, ·)
      packets :=
        if started then ⟨cli, l.succeeded, udpSize, l.stream.data⟩ :: l.packets else l.packets
      succeeded := if failed then l.succeeded else l.succeeded + 1
      partly :=
        if failed then (if started then cli :: l.partly else l.partly) else [] }

def step (l : UdpLink γ) : UdpEvent γ → Except UdpAbort (UdpLink γ)
  | .setClient cli => .ok { l with stream := l.stream.setClient cli }
  | .setFrameNumber frame => .ok { l with stream := l.stream.setFrameNumber frame }
  | .write bytes =>
    match l.stream.write bytes with
    | some stream => .ok { l with stream }
    | none => .error .overrun
  | .flush udpSize sends => .ok (l.flush XXH64 udpSize sends)
  | .clearFailed => .ok { l with stream := l.stream.clearFailed }

/-- Whatever a client gets of what was sent to it, however often and in whatever order, it
puts together only packets that were flushed to it. -/
def Reassembles (l : UdpLink γ) : Prop :=
  ∀ (cli : γ) (arrived : List Datagram), (∀ d ∈ arrived, (cli, d) ∈ l.sent) →
    ∀ data, Completes (arrived.map Datagram.fragment) data →
      ∃ p ∈ l.packets, p.client = cli ∧ data = p.data

/-- A packet does not start towards a client that has pieces of a packet that was cut short,
unless another one has been sent since; and the numbers are not used up. -/
def Fresh (l : UdpLink γ) : UdpEvent γ → Prop
  | .flush _ sends => ∀ cli ∈ l.stream.client, l.stream.data ≠ [] → sends 0 = true →
      cli ∉ l.partly ∧ l.succeeded < 2 ^ 32
  | _ => True

/-! ## The numbers of the packets -/

/-- A client has no two packets of one number. -/
structure Numbered (l : UdpLink γ) : Prop where
  id_eq : l.stream.id = .ofNat 32 l.succeeded
  fits : l.stream.data.length ≤ UDPSTREAM_BUFSIZE
  sent_of : ∀ e ∈ l.sent, ∃ p ∈ l.packets, p.client = e.1 ∧ e.2.fragment ∈ p.message.fragments
  number_lt : ∀ p ∈ l.packets, p.number < 2 ^ 32
  number_le : ∀ p ∈ l.packets, p.number ≤ l.succeeded
  in_use : ∀ p ∈ l.packets, p.number = l.succeeded → p.client ∈ l.partly
  unique : ∀ p ∈ l.packets, ∀ q ∈ l.packets, p.client = q.client → p.number = q.number → p = q

variable {XXH64} {l : UdpLink γ}

theorem numbered_new : (new : UdpLink γ).Numbered where
  id_eq := rfl
  fits := Nat.zero_le _
  sent_of := fun _ he => absurd he List.not_mem_nil
  number_lt := fun _ hp => absurd hp List.not_mem_nil
  number_le := fun _ hp => absurd hp List.not_mem_nil
  in_use := fun _ hp => absurd hp List.not_mem_nil
  unique := fun _ hp => absurd hp List.not_mem_nil

/-- The stream may change, but for the number of its packet. -/
theorem Numbered.stream (h : l.Numbered) {stream : UdpStream γ} (hid : stream.id = l.stream.id)
    (hfits : stream.data.length ≤ UDPSTREAM_BUFSIZE) :
    ({ l with stream } : UdpLink γ).Numbered where
  id_eq := hid.trans h.id_eq
  fits := hfits
  sent_of := h.sent_of
  number_lt := h.number_lt
  number_le := h.number_le
  in_use := h.in_use
  unique := h.unique

/-- What is sent of a packet are fragments of its message. -/
theorem mem_fragments_of_sent {p : Packet γ} {sends : ℕ → Bool} {frame : BitVec 32}
    (hfits : p.data.length ≤ UDPSTREAM_BUFSIZE) {d : Datagram}
    (hd : d ∈ (udpsend XXH64 p.size sends p.data (.ofNat 32 p.number) frame).1) :
    d.fragment ∈ p.message.fragments := by
  have hcount : p.message.count < 2 ^ 32 := by
    calc p.message.count ≤ p.data.length := p.message.count_le
      _ ≤ UDPSTREAM_BUFSIZE := hfits
      _ < 2 ^ 32 := by decide
  have hsize : p.message.size = p.size.val := rfl
  have hpre := (udpsend_fragments XXH64 sends frame hsize hcount).1
  exact hpre.subset (List.mem_map_of_mem hd)

/-- A new packet for a client that has none of this number. -/
theorem Numbered.started (h : l.Numbered) {p : Packet γ} (hnumber : p.number = l.succeeded)
    (hlt : l.succeeded < 2 ^ 32) (hfresh : p.client ∉ l.partly) {sent : List Datagram}
    (hsent : ∀ d ∈ sent, d.fragment ∈ p.message.fragments) :
    ({ l with
        sent := l.sent ++ sent.map (p.client, ·)
        packets := p :: l.packets
        partly := p.client :: l.partly } : UdpLink γ).Numbered where
  id_eq := h.id_eq
  fits := h.fits
  sent_of := by
    intro e he
    rcases List.mem_append.mp he with hold | hnew
    · obtain ⟨q, hq, hq'⟩ := h.sent_of e hold
      exact ⟨q, List.mem_cons_of_mem p hq, hq'⟩
    · obtain ⟨d, hd, rfl⟩ := List.mem_map.mp hnew
      exact ⟨p, List.mem_cons_self, rfl, hsent d hd⟩
  number_lt := List.forall_mem_cons.mpr ⟨hnumber ▸ hlt, h.number_lt⟩
  number_le := List.forall_mem_cons.mpr ⟨Nat.le_of_eq hnumber, h.number_le⟩
  in_use := List.forall_mem_cons.mpr ⟨fun _ => List.mem_cons_self,
    fun q hq hq' => List.mem_cons_of_mem _ (h.in_use q hq hq')⟩
  unique := by
    -- an old packet of this number is for another client
    have hother : ∀ q ∈ l.packets, q.client = p.client → q.number ≠ p.number := by
      intro q hq hclient hsame
      exact hfresh (hclient ▸ h.in_use q hq (hsame.trans hnumber))
    intro q hq r hr hclient hsame
    rcases List.mem_cons.mp hq with rfl | hqold
    · rcases List.mem_cons.mp hr with rfl | hrold
      · rfl
      · exact absurd hsame.symm (hother r hrold hclient.symm)
    · rcases List.mem_cons.mp hr with rfl | hrold
      · exact absurd hsame (hother q hqold hclient)
      · exact h.unique q hqold r hrold hclient hsame

/-- The next number. -/
theorem Numbered.finished (h : l.Numbered) {stream : UdpStream γ}
    (hid : stream.id = l.stream.id + 1) (hfits : stream.data.length ≤ UDPSTREAM_BUFSIZE) :
    ({ l with stream, succeeded := l.succeeded + 1, partly := [] } : UdpLink γ).Numbered where
  id_eq := by
    show stream.id = .ofNat 32 (l.succeeded + 1)
    rw [hid, h.id_eq, BitVec.ofNat_add]
    rfl
  fits := hfits
  sent_of := h.sent_of
  number_lt := h.number_lt
  number_le := fun p hp => Nat.le_succ_of_le (h.number_le p hp)
  in_use := fun p hp hsame => absurd (hsame ▸ h.number_le p hp) (Nat.not_succ_le_self _)
  unique := h.unique

theorem Numbered.flush (h : l.Numbered) {udpSize : UdpSize} {sends : ℕ → Bool}
    (hfresh : l.Fresh (.flush udpSize sends)) : (l.flush XXH64 udpSize sends).Numbered := by
  unfold UdpLink.flush UdpStream.flush
  cases hcli : l.stream.client with
  | none => exact h.stream rfl (Nat.zero_le _)
  | some cli =>
    dsimp only
    let p : Packet γ := ⟨cli, l.succeeded, udpSize, l.stream.data⟩
    have hfragments : ∀ d ∈ (udpsend XXH64 udpSize sends l.stream.data l.stream.id
        l.stream.frame).1, d.fragment ∈ p.message.fragments := by
      rw [h.id_eq]
      exact fun d hd => mem_fragments_of_sent (p := p) h.fits hd
    have hid : (udpsend XXH64 udpSize sends l.stream.data l.stream.id l.stream.frame).2.2 =
        if (udpsend XXH64 udpSize sends l.stream.data l.stream.id l.stream.frame).2.1 then
          l.stream.id else l.stream.id + 1 := rfl
    have hnonempty : (udpsend XXH64 udpSize sends l.stream.data l.stream.id
        l.stream.frame).1 ≠ [] → l.stream.data ≠ [] ∧ sends 0 = true := udpsend_ne_nil
    generalize udpsend XXH64 udpSize sends l.stream.data l.stream.id l.stream.frame = sending
      at *
    obtain ⟨sent, failed, id⟩ := sending
    dsimp only at *
    by_cases hstarted : sent = []
    · -- the record only learns of a packet without pieces that it is over
      subst hstarted
      simp only [ne_eq, not_true_eq_false, if_false, List.map_nil, List.append_nil]
      cases failed with
      | true => exact h.stream hid (Nat.zero_le _)
      | false => exact h.finished hid (Nat.zero_le _)
    · obtain ⟨hdata, hsends⟩ := hnonempty hstarted
      obtain ⟨hnew, hlt⟩ := hfresh cli hcli hdata hsends
      have hbegun := h.started (p := p) rfl hlt hnew hfragments
      simp only [ne_eq, hstarted, not_false_eq_true, if_true]
      cases failed with
      | true => exact hbegun.stream hid (Nat.zero_le _)
      | false => exact hbegun.finished hid (Nat.zero_le _)

theorem Numbered.step (h : l.Numbered) (e : UdpEvent γ) (hfresh : l.Fresh e) {l' : UdpLink γ}
    (hstep : l.step XXH64 e = .ok l') : l'.Numbered := by
  cases e with
  | setClient cli =>
    obtain rfl := Except.ok.inj hstep
    exact h.stream rfl h.fits
  | setFrameNumber frame =>
    obtain rfl := Except.ok.inj hstep
    exact h.stream rfl h.fits
  | write bytes =>
    cases hwrite : l.stream.write bytes with
    | none =>
      rw [UdpLink.step, hwrite] at hstep
      cases hstep
    | some stream =>
      rw [UdpLink.step, hwrite] at hstep
      obtain rfl := Except.ok.inj hstep
      obtain ⟨hroom, rfl⟩ := (UdpStream.write_eq_some _).mp hwrite
      exact h.stream rfl (by rw [List.length_append]; exact hroom)
  | flush udpSize sends =>
    obtain rfl := Except.ok.inj hstep
    exact h.flush hfresh
  | clearFailed =>
    obtain rfl := Except.ok.inj hstep
    exact h.stream rfl h.fits

/-- While the numbers are told apart, only packets are put together. -/
theorem Numbered.all_reassemble (h : l.Numbered) : l.Reassembles := by
  intro cli arrived harrived data hcomplete
  classical
  let own := l.packets.filter (·.client = cli)
  have hown : ∀ {p}, p ∈ own ↔ p ∈ l.packets ∧ p.client = cli := by simp [own]
  have hfrom : ∀ f ∈ arrived.map Datagram.fragment, ∃ m ∈ own.map Packet.message,
      f ∈ m.fragments := by
    intro f hf
    obtain ⟨d, hd, rfl⟩ := List.mem_map.mp hf
    obtain ⟨p, hp, hclient, hfragment⟩ := h.sent_of _ (harrived d hd)
    exact ⟨p.message, List.mem_map_of_mem (hown.mpr ⟨hp, hclient⟩), hfragment⟩
  have hkeys : ∀ m ∈ own.map Packet.message, ∀ n ∈ own.map Packet.message,
      m.key = n.key → m = n := by
    intro m hm n hn hkey
    obtain ⟨p, hp, rfl⟩ := List.mem_map.mp hm
    obtain ⟨q, hq, rfl⟩ := List.mem_map.mp hn
    obtain ⟨hpold, hpclient⟩ := hown.mp hp
    obtain ⟨hqold, hqclient⟩ := hown.mp hq
    have hnumber : p.number = q.number := by
      have hnat := congrArg BitVec.toNat hkey
      simpa only [Packet.message, BitVec.toNat_ofNat, Nat.mod_eq_of_lt (h.number_lt p hpold),
        Nat.mod_eq_of_lt (h.number_lt q hqold)] using hnat
    rw [h.unique p hpold q hqold (hpclient.trans hqclient.symm) hnumber]
  obtain ⟨m, hm, rfl⟩ := hcomplete.mem hfrom hkeys
  obtain ⟨p, hp, rfl⟩ := List.mem_map.mp hm
  exact ⟨p, (hown.mp hp).1, (hown.mp hp).2, rfl⟩

/-- **Only packets are put together**, over every run of the stream. -/
theorem reassembles (XXH64 : List Byte → BitVec 64) (es : List (UdpEvent γ)) {l : UdpLink γ}
    (hrun : tryRun (step XXH64) new es = .ok l) (hfresh : TryGuarded (step XXH64) Fresh new es) :
    l.Reassembles :=
  (tryRun_keeps (fun _ e _ h hok hstep => Numbered.step h e hok hstep) numbered_new hfresh
    hrun).all_reassemble

/-! ## A packet in two pieces -/

theorem smallest_le : 500 ≤ 1400 := by decide

/-- The smallest pieces. -/
def smallestPieces : UdpSize := ⟨500, Nat.le_refl 500, smallest_le⟩

/-- A packet whose first piece does not go through is written and flushed again. -/
theorem reassembles_retried :
    (⟨⟨[], some 0, 4, 1, false, 0⟩, [(0, ⟨0, 0, 1, 0, 0, [1, 2]⟩)],
      [⟨0, 0, smallestPieces, [1, 2]⟩], 1, []⟩ : UdpLink ℕ).Reassembles := by
  refine reassembles (fun _ => 0)
    [.setClient 0, .write [1, 2], .flush smallestPieces fun _ => false, .clearFailed,
      .write [1, 2], .flush smallestPieces fun _ => true] rfl ?_
  refine tryGuarded_cons trivial rfl (tryGuarded_cons trivial rfl (tryGuarded_cons ?_ rfl
    (tryGuarded_cons trivial rfl (tryGuarded_cons trivial rfl (tryGuarded_cons ?_ rfl trivial)))))
  · rintro cli - - hsends
    cases hsends
  · rintro cli - - -
    exact ⟨List.not_mem_nil, by decide⟩

set_option maxRecDepth 8000 in
/-- A packet of zeros is cut short after its first piece, and the client gets its end from
the packet of ones that follows. -/
theorem packets_mixed :
    ∃ l : UdpLink ℕ, tryRun (step fun _ => 0) new
        [.setClient 0, .write (List.replicate 501 0), .flush smallestPieces fun i => i = 0,
          .write (List.replicate 501 1), .flush smallestPieces fun _ => true] = .ok l ∧
      ¬l.Reassembles := by
  refine ⟨_, rfl, fun h => ?_⟩
  let zeros : Datagram := ⟨0, 0, 2, 0, 0, List.replicate 500 0⟩
  let one : Datagram := ⟨0, 1, 2, 0, 0, [1]⟩
  have hmixed : Completes ([zeros, one].map Datagram.fragment) (List.replicate 500 0 ++ [1]) := by
    refine ⟨one.fragment, by simp, [List.replicate 500 0, [1]], rfl, ?_, by simp⟩
    intro i hi
    have hi' : i < 2 := hi
    match i with
    | 0 => exact ⟨zeros.fragment, by simp, rfl, rfl, rfl⟩
    | 1 => exact ⟨one.fragment, by simp, rfl, rfl, rfl⟩
  obtain ⟨p, hp, -, hdata⟩ := h 0 [zeros, one] (by decide) _ hmixed
  revert hdata
  revert p
  decide

end UdpLink

end KasmVNC.Network
