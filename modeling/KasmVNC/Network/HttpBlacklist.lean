import KasmVNC.Network.BasicAuth
import KasmVNC.Network.PeerName
import KasmVNC.Rfb.Blacklist

/-!
# The blacklist of the web server

Failed authentications are counted for an address. At the threshold the address is put on the
blacklist, and there it stays while its requests keep coming. The address is the one a proxy has
put into the request, if there is one, and otherwise that of the peer.

The parameters are the ones of the RFB blacklist, converted to unsigned numbers. A clock is read
when a request arrives and when its failure is counted.
-/

namespace KasmVNC.Network

open KasmVNC.Lib

open KasmVNC.Rfb (BlacklistParameters)

/-! ## The address -/

/-- The value of the first header `X-Forwarded-For`, up to the first comma in it. Without an end of
its line the value is not defined. -/
def forwardedFor (text : List Byte) : Except Unit (Option (List Byte)) :=
  match strcasestr (ascii "X-Forwarded-For: ") text with
  | none => .ok none
  | some fwd =>
    match cut 0x0D (fwd.drop (ascii "X-Forwarded-For: ").length) with
    | none => .error ()
    | some (value, _) => .ok (some (value.takeWhile (· ≠ 0x2C)))

/-- What is in `ip` behind the check for proxies. -/
def effectiveIp (ip : CString) (text : List Byte) : Except Unit CString :=
  (forwardedFor text).map fun forwarded =>
    match forwarded with
    | none => ip
    | some fwd => if !isValidIp fwd || fwd.length ≥ 64 then ip else CString.ofBuffer fwd

/-! ## The lists -/

structure HttpBlacklist where
  hits : CString → Option (BitVec 32)
  blacklist : CString → Option ℤ

section Lists

variable (p : BlacklistParameters)

/-- `(unsigned) rfb::Blacklist::threshold` -/
def httpThreshold : ℕ := (BitVec.ofInt 32 p.threshold).toNat

def httpTimeout : ℤ := (BitVec.ofInt 32 p.initialTimeout).toNat

def bl_isBlacklisted (b : HttpBlacklist) (addr : CString) (now : ℤ) : HttpBlacklist × Bool :=
  match b.blacklist addr with
  | none => (b, false)
  | some last =>
    if now - httpTimeout p > last then
      ({ hits := Function.update b.hits addr none
         blacklist := Function.update b.blacklist addr none }, false)
    else ({ b with blacklist := Function.update b.blacklist addr (some now) }, true)

def bl_addFailure (b : HttpBlacklist) (addr : CString) (now : ℤ) : HttpBlacklist :=
  if httpThreshold p = 0 then b
  else
    let num := (b.hits addr).getD 0 + 1
    { hits := Function.update b.hits addr (some num)
      blacklist :=
        if num.toNat ≥ httpThreshold p then Function.update b.blacklist addr (some now)
        else b.blacklist }

end Lists

/-! ## Requests -/

/-- A request, with the settings and the password file of its time. -/
structure HttpRequest where
  peer : CString
  text : List Byte
  settings : AuthSettings
  arrival : ℤ
  denial : ℤ

inductive HttpAnswer
  /-- The address is on the blacklist, and the password is not looked at. -/
  | refused
  | denied
  | passed
deriving DecidableEq, Repr

/-- A request that has been answered. -/
structure Served where
  ip : CString
  arrival : ℤ
  denial : ℤ
  answer : HttpAnswer

/-- The lists, and all requests so far. -/
structure HttpFront where
  lists : HttpBlacklist
  served : List Served

section Serve

variable (p : BlacklistParameters) (ws_b64_pton : List Byte → DecodedValue) (crypt_r : CString → CString)

/-- What a request is answered with in `do_handshake`, up to the authentication. -/
def answer (b : HttpBlacklist) (ip : CString) (r : HttpRequest) : HttpBlacklist × HttpAnswer :=
  let (b, listed) := bl_isBlacklisted p b ip r.arrival
  if listed then (b, .refused)
  else
    match authenticate ws_b64_pton crypt_r r.settings r.text with
    | .denied _ _ => (bl_addFailure p b ip r.denial, .denied)
    | .passed _ _ => (b, .passed)

def serve (s : HttpFront) (r : HttpRequest) : Except Unit HttpFront :=
  (effectiveIp r.peer r.text).map fun ip =>
    let (lists, a) := answer p ws_b64_pton crypt_r s.lists ip r
    { lists := lists
      served := s.served ++ [⟨ip, r.arrival, r.denial, a⟩] }

def unserved : HttpFront := ⟨⟨fun _ => none, fun _ => none⟩, []⟩

def serveAll (s : HttpFront) (requests : List HttpRequest) : Except Unit HttpFront :=
  tryRun (serve p ws_b64_pton crypt_r) s requests

end Serve

/-! ## What the lists are for -/

/-- An address with some failures, or one that is blocked since the time of its last request. -/
inductive Host
  | counting (failures : ℕ)
  | blocked (last : ℤ)
deriving DecidableEq, Repr

section Host

variable (p : BlacklistParameters)

/-- The failures that count. Those before a block are forgotten when it is over. -/
def Host.failures : Host → ℕ
  | counting n => n
  | blocked _ => 0

@[simp]
theorem Host.failures_counting (n : ℕ) : (counting n).failures = n := rfl

@[simp]
theorem Host.failures_blocked (last : ℤ) : (blocked last).failures = 0 := rfl

/-- What follows from an answer. The threshold blocks, unless it is zero. -/
def Host.after (h : Host) (e : Served) : Host :=
  match e.answer with
  | .refused => .blocked e.arrival
  | .passed => .counting h.failures
  | .denied =>
    if httpThreshold p ≠ 0 ∧ httpThreshold p ≤ h.failures + 1 then .blocked e.denial
    else .counting (h.failures + 1)

/-- An address, by its requests so far. -/
def status (ip : CString) (served : List Served) : Host :=
  (served.filter (·.ip = ip)).foldl (Host.after p) (.counting 0)

/-- Whether a request that arrives at this time is refused. -/
def Host.refuses (h : Host) (arrival : ℤ) : Prop :=
  match h with
  | counting _ => False
  | blocked last => arrival ≤ last + httpTimeout p

/-- From the time of its last request on, an address does not pause for more than the timeout. -/
def Steady (ip : CString) : ℤ → List HttpRequest → Prop
  | _, [] => True
  | last, r :: rest =>
    (effectiveIp r.peer r.text = .ok ip →
      r.arrival ≤ last + httpTimeout p ∧ Steady ip r.arrival rest) ∧
    (effectiveIp r.peer r.text ≠ .ok ip → Steady ip last rest)

end Host

/-! ## One call -/

section Calls

variable {p : BlacklistParameters} {b : HttpBlacklist} {h : Host} {ip : CString} {now : ℤ}

/-- The entries of an address are what they should be. -/
def Reflects (p : BlacklistParameters) (b : HttpBlacklist) (ip : CString) : Host → Prop
  | .counting n => b.blacklist ip = none ∧
      (httpThreshold p ≠ 0 → ((b.hits ip).getD 0).toNat = n ∧ n < httpThreshold p)
  | .blocked last => b.blacklist ip = some last

/-- The entries of the other addresses stay as they are. -/
def Elsewhere (ip : CString) (b b' : HttpBlacklist) : Prop :=
  ∀ other ≠ ip, b'.hits other = b.hits other ∧ b'.blacklist other = b.blacklist other

theorem Elsewhere.refl : Elsewhere ip b b := fun _ _ => ⟨rfl, rfl⟩

theorem Elsewhere.trans {b' b'' : HttpBlacklist} (h : Elsewhere ip b b')
    (h' : Elsewhere ip b' b'') : Elsewhere ip b b'' := fun other hother =>
  ⟨(h' other hother).1.trans (h other hother).1, (h' other hother).2.trans (h other hother).2⟩

theorem Reflects.elsewhere {b' : HttpBlacklist} {other : CString} (hb : Reflects p b other h)
    (he : Elsewhere ip b b') (hne : other ≠ ip) : Reflects p b' other h := by
  obtain ⟨hhits, hblacklist⟩ := he other hne
  cases h with
  | counting n => exact ⟨hblacklist.trans hb.1, fun ht => by rw [hhits]; exact hb.2 ht⟩
  | blocked last => exact hblacklist.trans hb

theorem bl_isBlacklisted_elsewhere : Elsewhere ip b (bl_isBlacklisted p b ip now).1 := by
  intro other hother
  unfold bl_isBlacklisted
  split
  · exact ⟨rfl, rfl⟩
  · split
    · exact ⟨Function.update_of_ne hother _ _, Function.update_of_ne hother _ _⟩
    · exact ⟨rfl, Function.update_of_ne hother _ _⟩

theorem bl_addFailure_elsewhere : Elsewhere ip b (bl_addFailure p b ip now) := by
  intro other hother
  unfold bl_addFailure
  dsimp only
  split
  · exact ⟨rfl, rfl⟩
  · refine ⟨Function.update_of_ne hother _ _, ?_⟩
    split
    · exact Function.update_of_ne hother _ _
    · rfl

/-- A blocked address is blocked from now on, or counts from zero again. -/
theorem bl_isBlacklisted_spec (hb : Reflects p b ip h) :
    (h.refuses p now ∧ (bl_isBlacklisted p b ip now).2 = true ∧
        Reflects p (bl_isBlacklisted p b ip now).1 ip (.blocked now)) ∨
      ¬h.refuses p now ∧ (bl_isBlacklisted p b ip now).2 = false ∧
        Reflects p (bl_isBlacklisted p b ip now).1 ip (.counting h.failures) := by
  unfold bl_isBlacklisted
  cases h with
  | counting n =>
    rw [hb.1]
    exact Or.inr ⟨id, rfl, hb⟩
  | blocked last =>
    have hlast : b.blacklist ip = some last := hb
    rw [hlast]
    dsimp only
    split
    · next hover =>
        refine Or.inr ⟨fun hle => ?_, rfl, Function.update_self _ _ _, fun ht => ?_⟩
        · change now ≤ last + httpTimeout p at hle
          omega
        · dsimp only
          rw [Function.update_self]
          exact ⟨rfl, Nat.pos_of_ne_zero ht⟩
    · next hover =>
        refine Or.inl ⟨?_, rfl, Function.update_self _ _ _⟩
        change now ≤ last + httpTimeout p
        omega

theorem bl_addFailure_spec {n : ℕ} (hb : Reflects p b ip (.counting n)) :
    Reflects p (bl_addFailure p b ip now) ip
      (if httpThreshold p ≠ 0 ∧ httpThreshold p ≤ n + 1 then .blocked now
        else .counting (n + 1)) := by
  unfold bl_addFailure
  dsimp only
  by_cases hzero : httpThreshold p = 0
  · rw [if_pos hzero, if_neg fun h => h.1 hzero]
    exact ⟨hb.1, fun ht => absurd hzero ht⟩
  · obtain ⟨hhits, hlt⟩ := hb.2 hzero
    have hbound : httpThreshold p < 2 ^ 32 := (BitVec.ofInt 32 p.threshold).isLt
    have hnum : ((b.hits ip).getD 0 + 1).toNat = n + 1 := by
      have hone : (1 : BitVec 32).toNat = 1 := rfl
      rw [BitVec.toNat_add, hhits, hone]
      exact Nat.mod_eq_of_lt (by omega)
    rw [if_neg hzero, hnum]
    by_cases hle : httpThreshold p ≤ n + 1
    · rw [if_pos hle, if_pos ⟨hzero, hle⟩]
      exact Function.update_self _ _ _
    · rw [if_neg hle, if_neg fun h => hle h.2]
      refine ⟨hb.1, fun _ => ⟨?_, not_le.mp hle⟩⟩
      dsimp only
      rw [Function.update_self]
      exact hnum

end Calls

/-! ## Runs -/

section Runs

variable {p : BlacklistParameters} {ws_b64_pton : List Byte → DecodedValue}
  {crypt_r : CString → CString} {b : HttpBlacklist} {ip : CString} {r : HttpRequest}

theorem answer_spec {h : Host} (hb : Reflects p b ip h) :
    let result := answer p ws_b64_pton crypt_r b ip r
    (result.2 = .refused ↔ h.refuses p r.arrival) ∧
      Reflects p result.1 ip (h.after p ⟨ip, r.arrival, r.denial, result.2⟩) ∧
      Elsewhere ip b result.1 := by
  have helsewhere := @bl_isBlacklisted_elsewhere p b ip r.arrival
  unfold answer
  rcases hcall : bl_isBlacklisted p b ip r.arrival with ⟨b', listed⟩
  rcases @bl_isBlacklisted_spec p b h ip r.arrival hb with
    ⟨hrefuses, hlisted, hb'⟩ | ⟨hnot, hlisted, hb'⟩
  · rw [hcall] at hlisted hb' helsewhere
    dsimp only at hlisted hb' helsewhere ⊢
    rw [if_pos hlisted]
    exact ⟨iff_of_true rfl hrefuses, hb', helsewhere⟩
  · rw [hcall] at hlisted hb' helsewhere
    dsimp only at hlisted hb' helsewhere ⊢
    rw [if_neg (by rw [hlisted]; decide)]
    split
    · exact ⟨iff_of_false nofun hnot, bl_addFailure_spec hb',
        helsewhere.trans bl_addFailure_elsewhere⟩
    · exact ⟨iff_of_false nofun hnot, hb', helsewhere⟩

theorem status_concat_of_eq {served : List Served} {e : Served} (h : e.ip = ip) :
    status p ip (served ++ [e]) = (status p ip served).after p e := by
  rw [status, List.filter_append, List.filter_cons_of_pos (by simpa using h), List.foldl_append]
  rfl

theorem status_concat_of_ne {served : List Served} {e : Served} (h : e.ip ≠ ip) :
    status p ip (served ++ [e]) = status p ip served := by
  rw [status, List.filter_append, List.filter_cons_of_neg (by simpa using h), List.filter_nil,
    List.append_nil]
  rfl

/-- Each answer is the one that the earlier requests with the same address call for. -/
def Lawful (p : BlacklistParameters) (served : List Served) : Prop :=
  ∀ before e after, served = before ++ e :: after →
    (e.answer = .refused ↔ (status p e.ip before).refuses p e.arrival)

/-- The lists reflect the requests so far. -/
structure HttpFront.Sound (p : BlacklistParameters) (s : HttpFront) : Prop where
  reflects : ∀ ip, Reflects p s.lists ip (status p ip s.served)
  lawful : Lawful p s.served

theorem unserved_sound : unserved.Sound p where
  reflects _ := ⟨rfl, fun ht => ⟨rfl, Nat.pos_of_ne_zero ht⟩⟩
  lawful before e after h := by simp [unserved] at h

theorem Lawful.concat {served : List Served} {e : Served} (h : Lawful p served)
    (he : e.answer = .refused ↔ (status p e.ip served).refuses p e.arrival) :
    Lawful p (served ++ [e]) := by
  intro before e' after hsplit
  rcases List.eq_nil_or_concat' after with rfl | ⟨init, last, rfl⟩
  · obtain ⟨rfl, hlast⟩ := List.append_inj' hsplit rfl
    cases hlast
    exact he
  · rw [← List.cons_append, ← List.append_assoc] at hsplit
    exact h before e' init (List.append_inj' hsplit rfl).1

/-- **One request.** -/
theorem serve_spec {s s' : HttpFront} (hs : s.Sound p)
    (hserve : serve p ws_b64_pton crypt_r s r = .ok s') :
    ∃ e, s'.served = s.served ++ [e] ∧ effectiveIp r.peer r.text = .ok e.ip ∧
      e.arrival = r.arrival ∧
      (e.answer = .refused ↔ (status p e.ip s.served).refuses p r.arrival) ∧ s'.Sound p := by
  obtain ⟨ip, hip, hs'⟩ := of_map_ok hserve
  obtain ⟨hanswer, hreflects, helsewhere⟩ := @answer_spec p ws_b64_pton crypt_r s.lists ip r _
    (hs.reflects ip)
  rcases hresult : answer p ws_b64_pton crypt_r s.lists ip r with ⟨lists, a⟩
  rw [hresult] at hs' hanswer hreflects helsewhere
  subst hs'
  refine ⟨_, rfl, hip, rfl, hanswer, fun other => ?_, hs.lawful.concat hanswer⟩
  by_cases hother : ip = other
  · subst hother
    have hstatus : status p ip (s.served ++ [⟨ip, r.arrival, r.denial, a⟩]) = _ :=
      status_concat_of_eq rfl
    dsimp only
    rw [hstatus]
    exact hreflects
  · dsimp only
    rw [status_concat_of_ne hother]
    exact (hs.reflects other).elsewhere helsewhere (Ne.symm hother)

theorem serveAll_sound {s s' : HttpFront} {requests : List HttpRequest} (hs : s.Sound p)
    (hrun : serveAll p ws_b64_pton crypt_r s requests = .ok s') : s'.Sound p := by
  have hguard : ∀ s r, (fun (_ : HttpFront) (_ : HttpRequest) => True) s r := fun _ _ => trivial
  refine tryRun_keeps (fun s r s' hs _ hserve => ?_) hs (tryGuarded_of_forall hguard _ _) hrun
  obtain ⟨e, -, -, -, -, hs'⟩ := serve_spec hs hserve
  exact hs'

/-! ## The threshold -/

/-- The failures of an address among some requests. -/
def failuresOf (ip : CString) (served : List Served) : ℕ :=
  served.countP fun e => e.ip = ip ∧ e.answer = .denied

theorem Lawful.of_concat {served : List Served} {e : Served} (h : Lawful p (served ++ [e])) :
    Lawful p served := fun before e' after hsplit =>
  h before e' (after ++ [e]) (by rw [hsplit, List.append_assoc, List.cons_append])

/-- Below the threshold all failures count. -/
theorem failures_eq {before window : List Served} (hlawful : Lawful p (before ++ window))
    (hzero : (status p ip before).failures = 0) (hlt : failuresOf ip window < httpThreshold p) :
    (status p ip (before ++ window)).failures = failuresOf ip window := by
  induction window using List.reverseRecOn with
  | nil =>
    rw [List.append_nil, hzero]
    rfl
  | append_singleton window e ih =>
    rw [← List.append_assoc] at hlawful ⊢
    rw [failuresOf, List.countP_append, ← failuresOf] at hlt ⊢
    have ih := ih hlawful.of_concat (by omega)
    by_cases hip : e.ip = ip
    · rw [status_concat_of_eq hip, Host.after]
      cases hanswer : e.answer with
      | refused =>
        -- the address is blocked, so nothing is counted
        have hrefuses := (hlawful _ e [] rfl).mp hanswer
        rw [hip] at hrefuses
        cases hstatus : status p ip (before ++ window) with
        | counting n =>
          rw [hstatus] at hrefuses
          exact absurd hrefuses id
        | blocked last =>
          rw [hstatus] at ih
          simpa [hanswer] using ih
      | passed => simpa [hanswer] using ih
      | denied =>
        have hone : [e].countP (fun e => e.ip = ip ∧ e.answer = .denied) = 1 := by
          simp [hip, hanswer]
        rw [hone] at hlt ⊢
        dsimp only
        rw [if_neg fun h => by omega, ih]
        rfl
    · rw [status_concat_of_ne hip, ih]
      simp [hip]

/-- **The threshold.** The failure that makes it full blocks the address. -/
theorem status_blocked {before window : List Served} {e : Served}
    (hlawful : Lawful p (before ++ window ++ [e]))
    (hzero : (status p e.ip before).failures = 0) (hdenied : e.answer = .denied)
    (hfull : failuresOf e.ip window + 1 = httpThreshold p) :
    status p e.ip (before ++ window ++ [e]) = .blocked e.denial := by
  have hfailures := failures_eq hlawful.of_concat hzero (Nat.lt_of_succ_le hfull.le)
  rw [status_concat_of_eq rfl, Host.after, hdenied]
  exact if_pos ⟨by omega, by omega⟩

/-! ## The block -/

/-- **The block.** While an address is blocked and does not pause, it is refused. -/
theorem refused_of_steady : ∀ {requests : List HttpRequest} {s s' : HttpFront} {last : ℤ},
    s.Sound p → serveAll p ws_b64_pton crypt_r s requests = .ok s' →
    status p ip s.served = .blocked last → Steady p ip last requests →
    ∃ more, s'.served = s.served ++ more ∧ ∀ e ∈ more, e.ip = ip → e.answer = .refused
  | [], s, s', last, hs, hrun, hblocked, hsteady => by
    obtain rfl := Except.ok.inj hrun
    exact ⟨[], (List.append_nil _).symm, nofun⟩
  | r :: requests, s, s', last, hs, hrun, hblocked, hsteady => by
    obtain ⟨s₁, hserve, hrest⟩ := of_bind_ok hrun
    obtain ⟨e, hserved, hip, harrival, hanswer, hs₁⟩ := serve_spec hs hserve
    by_cases he : e.ip = ip
    · rw [he] at hip hanswer
      obtain ⟨hpause, hsteady⟩ := hsteady.1 hip
      have hrefused : e.answer = .refused := by
        rw [hanswer, hblocked]
        exact hpause
      have hblocked₁ : status p ip s₁.served = .blocked r.arrival := by
        rw [hserved, status_concat_of_eq he, Host.after, hrefused, harrival]
      obtain ⟨more, hmore, hall⟩ := refused_of_steady hs₁ hrest hblocked₁ hsteady
      refine ⟨e :: more, ?_, List.forall_mem_cons.mpr ⟨fun _ => hrefused, hall⟩⟩
      rw [hmore, hserved, List.append_assoc, List.singleton_append]
    · have hblocked₁ : status p ip s₁.served = .blocked last := by
        rw [hserved, status_concat_of_ne he, hblocked]
      have hother : effectiveIp r.peer r.text ≠ .ok ip := fun h =>
        he (Except.ok.inj (hip.symm.trans h))
      obtain ⟨more, hmore, hall⟩ := refused_of_steady hs₁ hrest hblocked₁ (hsteady.2 hother)
      refine ⟨e :: more, ?_, List.forall_mem_cons.mpr ⟨fun h => absurd h he, hall⟩⟩
      rw [hmore, hserved, List.append_assoc, List.singleton_append]

/-- **Brute force.** Once as many requests with one address have failed as the threshold says,
every further one is refused until there is a pause of more than the timeout, and no other
request is refused. Requests with other addresses may come in between. -/
theorem brute_force_refused (p : BlacklistParameters) (ws_b64_pton : List Byte → DecodedValue)
    (crypt_r : CString → CString) (requests : List HttpRequest) (s : HttpFront)
    (hrun : serveAll p ws_b64_pton crypt_r unserved requests = .ok s) :
    (∀ before window e, s.served = before ++ window ++ [e] →
      (status p e.ip before).failures = 0 → e.answer = .denied →
      failuresOf e.ip window + 1 = httpThreshold p →
      ∀ later s', Steady p e.ip e.denial later → serveAll p ws_b64_pton crypt_r s later = .ok s' →
        ∃ more, s'.served = s.served ++ more ∧ ∀ e' ∈ more, e'.ip = e.ip → e'.answer = .refused) ∧
    ∀ before e after, s.served = before ++ e :: after →
      (e.answer = .refused ↔ (status p e.ip before).refuses p e.arrival) := by
  have hs := serveAll_sound unserved_sound hrun
  refine ⟨?_, hs.lawful⟩
  intro before window e hserved hzero hdenied hfull later s' hsteady hlater
  refine refused_of_steady hs hlater ?_ hsteady
  rw [hserved]
  exact status_blocked (hserved ▸ hs.lawful) hzero hdenied hfull

end Runs

/-! ## Two requests of one peer -/

/-- `u:p` in base64, and its hash. -/
def decodeShort : List Byte → DecodedValue := fun _ => ⟨3, [0x75, colon, 0x70]⟩

def hashShort : CString → CString := fun _ =>
  ⟨ascii "$5$kasm$FE423./y5B7n9tyQ03wnVtA/EB8Yq5whL/KnraiUV.B", by rw [ascii_ofList]; decide⟩

/-- A request at one time, with an empty password file. -/
def requestOf (text : List Byte) : HttpRequest where
  peer := ⟨[0x31], by decide⟩
  text := text
  settings := ⟨false, some [], true⟩
  arrival := 0
  denial := 0

def withoutPassword : HttpRequest := requestOf (ascii "GET / HTTP/1.1\r\n\r\n")

def forwarded : HttpRequest :=
  requestOf (ascii "GET / HTTP/1.1\r\nX-Forwarded-For: 2\r\nAuthorization: Basic dTpw\r\n\r\n")

theorem effectiveIp_withoutPassword :
    effectiveIp withoutPassword.peer withoutPassword.text = .ok ⟨[0x31], by decide⟩ := by
  rw [withoutPassword, ascii_ofList]
  decide

theorem effectiveIp_forwarded :
    effectiveIp forwarded.peer forwarded.text = .ok ⟨[0x32], by decide⟩ := by
  rw [forwarded, ascii_ofList]
  decide

theorem serve_ok {p : BlacklistParameters} {ws_b64_pton : List Byte → DecodedValue}
    {crypt_r : CString → CString} {s : HttpFront} {r : HttpRequest} {ip : CString}
    (h : effectiveIp r.peer r.text = .ok ip) :
    serve p ws_b64_pton crypt_r s r =
      .ok ⟨(answer p ws_b64_pton crypt_r s.lists ip r).1, s.served ++
        [⟨ip, r.arrival, r.denial, (answer p ws_b64_pton crypt_r s.lists ip r).2⟩]⟩ := by
  rw [serve, h]
  rfl

/-- With a threshold of one, the second request is refused. -/
theorem brute_force_refused_second : ∃ s s' more,
    serveAll ⟨1, 10⟩ decodeShort hashShort unserved [withoutPassword] = .ok s ∧
    serveAll ⟨1, 10⟩ decodeShort hashShort s [withoutPassword] = .ok s' ∧
    s'.served = s.served ++ more ∧ ∀ e ∈ more, e.ip = ⟨[0x31], by decide⟩ → e.answer = .refused := by
  have hdenied : (answer ⟨1, 10⟩ decodeShort hashShort unserved.lists ⟨[0x31], by decide⟩
      withoutPassword).2 = .denied := by
    rw [withoutPassword, ascii_ofList]
    decide
  have hrun : ∀ s, ∃ s', serveAll ⟨1, 10⟩ decodeShort hashShort s [withoutPassword] = .ok s' :=
    fun s => ⟨_, (bind_ok (serve_ok effectiveIp_withoutPassword) _).trans rfl⟩
  have hfirst : serveAll ⟨1, 10⟩ decodeShort hashShort unserved [withoutPassword] = _ :=
    bind_ok (serve_ok effectiveIp_withoutPassword) _
  obtain ⟨s', hs'⟩ := hrun _
  have hsteady : Steady ⟨1, 10⟩ ⟨[0x31], by decide⟩ 0 [withoutPassword] :=
    ⟨fun _ => ⟨by decide, trivial⟩, fun h => absurd effectiveIp_withoutPassword h⟩
  obtain ⟨more, hmore, hall⟩ := (brute_force_refused ⟨1, 10⟩ decodeShort hashShort
    [withoutPassword] _ hfirst).1 [] [] _ rfl rfl hdenied (by decide) [withoutPassword] s' hsteady hs'
  exact ⟨_, s', more, hfirst, hs', hmore, hall⟩

/-- The password of a peer that has failed as often as the threshold allows is looked at. -/
theorem forwarded_not_refused : forwarded.peer = withoutPassword.peer ∧
    (serveAll ⟨1, 10⟩ decodeShort hashShort unserved
      [withoutPassword, forwarded]).toOption.map (fun s => s.served.map Served.answer) =
        some [.denied, .denied] := by
  have hpeer : ∀ text text', (requestOf text).peer = (requestOf text').peer := fun _ _ => rfl
  refine ⟨hpeer _ _, ?_⟩
  simp only [serveAll, tryRun, serve, effectiveIp_withoutPassword, effectiveIp_forwarded]
  rw [withoutPassword, forwarded, ascii_ofList, ascii_ofList]
  decide

end KasmVNC.Network
