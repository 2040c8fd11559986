import KasmVNC.Lib.Run
import KasmVNC.Network.ParseHandshake
import KasmVNC.Network.PeerName

/-!
# The filter of addresses

A specification is a list of patterns: a sign for what to do, and a network of addresses, or none
for all of them. The first pattern that matches the peer decides.

`getaddrinfo` and `getnameinfo`, for numeric addresses, are parameters. Words are as `ntohl` gives
them; `htonl` goes around each of them in the source. An IPv6 mask is not modelled: it is computed
and not used.
-/

namespace KasmVNC.Network.TcpFilter

open KasmVNC.Lib

/-! ## Patterns -/

inductive Action
  | Accept
  | Reject
  | Query
deriving DecidableEq, Repr

inductive Address
  | inet (s_addr : BitVec 32)
  | inet6 (s6_addr : Vector Byte 16)
deriving DecidableEq

/-- A pattern without an address is for the family `AF_UNSPEC`. -/
structure Pattern where
  action : Action
  address : Option Address
  prefixlen : ℕ
  mask : BitVec 32
deriving DecidableEq

/-- The longest prefix of an address of this family. -/
def maxPrefixlen : Option Address → ℕ
  | some (.inet _) => 32
  | _ => 128

def INADDR_NONE : BitVec 32 := 0xFFFFFFFF

/-! ## Matching -/

/-- The mask for one byte. -/
def byteMask (prefixlen n : ℕ) : BitVec 32 :=
  let bits := (n + 1) * 8
  if prefixlen > bits then 0xFF else ((0xFF : BitVec 32) <<< (bits - prefixlen)) &&& 0xFF

/-- The loop over the bytes from the `n`-th on. -/
def matchBytes (prefixlen : ℕ) : ℕ → List Byte → List Byte → Bool
  | n, a :: as, b :: bs =>
    let mask := byteMask prefixlen n
    if a.setWidth 32 &&& mask ≠ b.setWidth 32 &&& mask then false
    else if mask < 0xFF then true
    else matchBytes prefixlen (n + 1) as bs
  | _, _, _ => true

/-- The peer is `none` if it is of another family. -/
def patternMatchIP (pattern : Pattern) (sa : Option Address) : Bool :=
  match pattern.address, sa with
  | none, _ => true
  | some (.inet s_addr), some (.inet address) =>
    if address = INADDR_NONE then false
    else s_addr &&& pattern.mask = address &&& pattern.mask
  | some (.inet6 s6_addr), some (.inet6 address) =>
    matchBytes pattern.prefixlen 0 s6_addr.toList address.toList
  | some _, _ => false

/-- What `verifyConnection` returns, and whether it calls `setRequiresQuery`. -/
structure Verified where
  accepted : Bool
  requiresQuery : Bool
deriving DecidableEq

def Action.verified : Action → Verified
  | Accept => ⟨true, false⟩
  | Query => ⟨true, true⟩
  | Reject => ⟨false, false⟩

/-- The peer is `none` if `getpeername` fails. -/
def verifyConnection (filter : List Pattern) (peer : Option (Option Address)) : Verified :=
  match peer with
  | none => ⟨false, false⟩
  | some sa =>
    match filter.find? fun pattern => patternMatchIP pattern sa with
    | none => ⟨false, false⟩
    | some pattern => pattern.action.verified

/-! ## Reading a specification -/

abbrev comma : Byte := 0x2C

abbrev bracket : Byte := 0x5B

abbrev closingBracket : Byte := 0x5D

inductive ParseError
  /-- `"unable to resolve host by name"` -/
  | unresolved
  /-- `"mask no longer supported for filter, use prefix instead"` -/
  | maskUnsupported
  /-- `"invalid prefix length for filter address: %u"` -/
  | invalidLength (prefixlen : ℕ)
  /-- Without a sign the action is not set. -/
  | noAction
deriving DecidableEq

/-- `rfb::strSplit`: what is before the limiter, and what is behind it if there is one. -/
def strSplit (src : List Byte) (limiter : Byte) : List Byte × Option (List Byte) :=
  match cut limiter src with
  | some (out1, out2) => (out1, some out2)
  | none => (src, none)

/-- The address without its brackets, if there are any. -/
def unbracket (addr : List Byte) : List Byte :=
  match addr with
  | [] => []
  | b :: p =>
    if b = bracket then if p.getLast? = some closingBracket then p.dropLast else p
    else addr

/-- `(unsigned int) atoi(s)` -/
def atoi (s : List Byte) : ℕ := (BitVec.ofInt 32 (strtol s)).toNat

/-- The loop that computes the mask of an IPv4 pattern: an `int` is shifted, and the sum is cut off
by `htonl`. -/
def inetMask (prefixlen : ℕ) : BitVec 32 :=
  ((List.range prefixlen).foldl (fun (mask : BitVec 64) i =>
    mask ||| ((1 : BitVec 32) <<< (31 - i)).signExtend 64) 0).setWidth 32

def maskOf (address : Option Address) (prefixlen : ℕ) : BitVec 32 :=
  match address with
  | some (.inet _) => inetMask prefixlen
  | _ => 0

def actionOf (sign : Byte) : Except ParseError Action :=
  if sign = 0x2B then .ok .Accept
  else if sign = 0x2D then .ok .Reject
  else if sign = 0x3F then .ok .Query
  else .error .noAction

def Address.isInet : Address → Bool
  | inet _ => true
  | inet6 _ => false

section Parse

variable (getaddrinfo : List Byte → Option Address)

/-- The address and the length of the prefix, before the length is checked. -/
def parseNetwork (addr : List Byte) (pref : Option (List Byte)) :
    Except ParseError (Option Address × ℕ) :=
  if addr = [] then .ok (none, 0)
  else
    match getaddrinfo (unbracket addr) with
    | none => .error .unresolved
    | some address =>
      match pref with
      | none => .ok (some address, maxPrefixlen (some address))
      | some pref =>
        if address.isInet ∧ dot ∈ pref then .error .maskUnsupported
        else .ok (some address, atoi pref)

def parsePattern (p : List Byte) : Except ParseError Pattern :=
  match p with
  | [] => .error .noAction
  | sign :: rest => do
      let split := strSplit rest slash
      let network ← parseNetwork getaddrinfo split.1 split.2
      if network.2 > maxPrefixlen network.1 then .error (.invalidLength network.2)
      else
        let action ← actionOf sign
        .ok ⟨action, network.1, network.2, maskOf network.1 network.2⟩

/-- What stands between the commas, if it is not empty. -/
def patternTexts (spec : List Byte) : List (List Byte) :=
  ((segments comma 0 spec).map Prod.snd).filter (· ≠ [])

/-- The constructor. -/
def tcpFilter (spec : List Byte) : Except ParseError (List Pattern) :=
  (patternTexts spec).mapM (parsePattern getaddrinfo)

end Parse

/-! ## Writing a pattern -/

def Action.sign : Action → Byte
  | Accept => 0x2B
  | Reject => 0x2D
  | Query => 0x3F

/-- The address as `patternToStr` writes it, in brackets if it is an IPv6 one. -/
def addressText (getnameinfo : Address → List Byte) : Option Address → List Byte
  | none => []
  | some (.inet s_addr) => getnameinfo (.inet s_addr)
  | some (.inet6 s6_addr) => bracket :: (getnameinfo (.inet6 s6_addr) ++ [closingBracket])

/-- The buffer has room for a length of three digits. -/
def patternToStr (getnameinfo : Address → List Byte) (p : Pattern) : List Byte :=
  let addr := addressText getnameinfo p.address
  let resultlen := 1 + addr.length + 1 + 3 + 1
  let result :=
    if addr = [] then [p.action.sign]
    else p.action.sign :: (addr ++ slash :: decimal p.prefixlen)
  result.take (resultlen - 1)

/-! ## What a specification says -/

/-- The bits of an address, from the first one of the network on. -/
def Address.bit : Address → ℕ → Bool
  | inet s_addr, i => s_addr.getMsbD i
  | inet6 s6_addr, i => (s6_addr.toList.getD (i / 8) 0).getMsbD (i % 8)

structure Rule where
  action : Action
  address : Option Address
  prefixlen : ℕ

/-- A rule is for all addresses, or for the addresses of a network. -/
def Rule.Covers (r : Rule) (peer : Address) : Prop :=
  match r.address with
  | none => True
  | some a => a.isInet = peer.isInet ∧ ∀ i < r.prefixlen, a.bit i = peer.bit i

instance (r : Rule) (peer : Address) : Decidable (r.Covers peer) := by
  unfold Rule.Covers
  cases r.address <;> infer_instance

/-- The first rule decides, and without one the peer is rejected. -/
def decision (rules : List Rule) (peer : Address) : Action :=
  match rules.find? fun r => r.Covers peer with
  | none => .Reject
  | some r => r.action

def isDigit (b : Byte) : Prop := 0x30 ≤ b ∧ b ≤ 0x39

/-- The number that digits stand for. -/
def valueOf (digits : List Byte) : ℕ := digits.foldl (fun n b => 10 * n + (b.toNat - 0x30)) 0

/-- Texts for an address: none at all, or one that is resolved, in brackets or not. -/
inductive HostText (getaddrinfo : List Byte → Option Address) : List Byte → Option Address → Prop
  | any : HostText getaddrinfo [] none
  | bare {host : List Byte} {a : Address} : host ≠ [] → slash ∉ host → host.head? ≠ some bracket →
      getaddrinfo host = some a → HostText getaddrinfo host (some a)
  | bracketed {host : List Byte} {a : Address} : slash ∉ host → getaddrinfo host = some a →
      HostText getaddrinfo (bracket :: (host ++ [closingBracket])) (some a)

/-- Texts for the length of a prefix: none at all, or a slash and digits. -/
inductive LengthText (longest : ℕ) : List Byte → ℕ → Prop
  | full : LengthText longest [] longest
  | digits {digits : List Byte} : digits ≠ [] → (∀ b ∈ digits, isDigit b) →
      valueOf digits ≤ longest → LengthText longest (slash :: digits) (valueOf digits)

/-- Texts for a rule. For all addresses there is no prefix. -/
inductive RuleText (getaddrinfo : List Byte → Option Address) : List Byte → Rule → Prop
  | any {length : List Byte} {n : ℕ} (action : Action) : LengthText 128 length n →
      RuleText getaddrinfo (action.sign :: length) ⟨action, none, 0⟩
  | network {host length : List Byte} {a : Address} {n : ℕ} (action : Action) :
      HostText getaddrinfo host (some a) → LengthText (maxPrefixlen (some a)) length n →
      RuleText getaddrinfo (action.sign :: (host ++ length)) ⟨action, some a, n⟩

/-! ## Numbers -/

theorem foldl_cast : ∀ {digits : List Byte}, (∀ b ∈ digits, isDigit b) → ∀ n : ℕ,
    digits.foldl (fun n b => 10 * n + (b.toNat - 0x30 : ℤ)) (n : ℤ) =
      ((digits.foldl (fun n b => 10 * n + (b.toNat - 0x30)) n : ℕ) : ℤ)
  | [], _, _ => rfl
  | b :: digits, h, n => by
    obtain ⟨hb, hdigits⟩ := List.forall_mem_cons.mp h
    have hle : 0x30 ≤ b.toNat := BitVec.le_def.mp hb.1
    rw [List.foldl_cons, List.foldl_cons, ← foldl_cast hdigits]
    congr 1
    omega

/-- A digit is no blank and no sign. -/
theorem isDigit.not_skipped {b : Byte} (h : isDigit b) : ¬isspace b ∧ b ≠ 0x2D ∧ b ≠ 0x2B := by
  obtain ⟨hlow, hhigh⟩ := h
  refine ⟨?_, ?_, ?_⟩
  · rintro (rfl | ⟨-, hle⟩)
    · exact absurd hlow (by decide)
    · exact absurd (BitVec.le_trans hlow hle) (by decide)
  · rintro rfl
    exact absurd hlow (by decide)
  · rintro rfl
    exact absurd hlow (by decide)

theorem strtol_digits {digits : List Byte} (hne : digits ≠ []) (hdigits : ∀ b ∈ digits, isDigit b)
    (hlt : valueOf digits < 2 ^ 31) : strtol digits = valueOf digits := by
  cases digits with
  | nil => exact absurd rfl hne
  | cons b rest =>
    obtain ⟨hspace, hminus, hplus⟩ := (List.forall_mem_cons.mp hdigits).1.not_skipped
    have hall : (b :: rest).takeWhile (fun b => 0x30 ≤ b ∧ b ≤ 0x39) = b :: rest :=
      List.takeWhile_eq_self_iff.mpr fun c hc => decide_eq_true (hdigits c hc)
    have hvalue := foldl_cast hdigits 0
    unfold strtol
    dsimp only
    rw [List.dropWhile_cons_of_neg (by simpa using hspace)]
    dsimp only
    rw [if_neg hminus, if_neg hplus, hall, show (0 : ℤ) = ((0 : ℕ) : ℤ) from rfl, hvalue]
    change max _ (min _ (valueOf (b :: rest) : ℤ)) = _
    omega

theorem atoi_digits {digits : List Byte} (hne : digits ≠ []) (hdigits : ∀ b ∈ digits, isDigit b)
    (hlt : valueOf digits < 2 ^ 31) : atoi digits = valueOf digits := by
  rw [atoi, strtol_digits hne hdigits hlt, BitVec.ofInt_natCast, BitVec.toNat_ofNat]
  exact Nat.mod_eq_of_lt (by omega)

theorem valueOf_concat (digits : List Byte) (b : Byte) :
    valueOf (digits ++ [b]) = 10 * valueOf digits + (b.toNat - 0x30) := by
  rw [valueOf, List.foldl_append]
  rfl

theorem value_digit : ∀ d < 10, isDigit (digit d) ∧ (digit d).toNat - 0x30 = d := by
  unfold isDigit
  decide

theorem decimal_digits (n : ℕ) : (∀ b ∈ decimal n, isDigit b) ∧ valueOf (decimal n) = n := by
  constructor
  · intro b hb
    obtain ⟨d, hd, rfl⟩ := mem_decimal hb
    exact (value_digit d hd).1
  · induction n using Nat.strong_induction_on with
    | _ n ih =>
      rcases lt_or_ge n 10 with hlt | hge
      · rw [decimal_of_lt hlt, ← List.nil_append [digit n], valueOf_concat, (value_digit n hlt).2]
        exact Nat.zero_add n
      · rw [decimal_of_le hge, valueOf_concat, ih _ (Nat.div_lt_self (by omega) (by decide)),
          (value_digit _ (Nat.mod_lt n (by decide))).2]
        omega

/-- The text of a length has at most three digits. -/
theorem length_decimal_le {n : ℕ} (h : n ≤ 128) : (decimal n).length ≤ 3 := by
  have hsplit : ∀ m, (decimal m).length = 1 ∨
      (decimal m).length = (decimal (m / 10)).length + 1 := by
    intro m
    rcases lt_or_ge m 10 with hlt | hge
    · exact Or.inl (by rw [decimal_of_lt hlt]; rfl)
    · exact Or.inr (by rw [decimal_of_le hge, List.length_append, List.length_singleton])
  have hlast : (decimal (n / 10 / 10)).length = 1 := by
    rw [decimal_of_lt (by omega)]
    rfl
  have hfirst := hsplit n
  have hsecond := hsplit (n / 10)
  omega

/-! ## Reading well-formed texts -/

section Read

variable {getaddrinfo : List Byte → Option Address} {text host length : List Byte} {r : Rule}
  {a : Address} {n longest : ℕ}

/-- The pattern of a rule. -/
def Rule.pattern (r : Rule) : Pattern := ⟨r.action, r.address, r.prefixlen, maskOf r.address r.prefixlen⟩

theorem actionOf_sign (action : Action) : actionOf action.sign = .ok action := by
  cases action <;> rfl

theorem LengthText.le (h : LengthText longest length n) : n ≤ longest := by
  cases h with
  | full => exact Nat.le_refl _
  | digits _ _ hle => exact hle

theorem HostText.unbracket (h : HostText getaddrinfo host (some a)) :
    host ≠ [] ∧ slash ∉ host ∧ getaddrinfo (unbracket host) = some a := by
  cases h with
  | bare hne hslash hhead ha =>
    refine ⟨hne, hslash, ?_⟩
    cases host with
    | nil => exact absurd rfl hne
    | cons b rest =>
      rw [TcpFilter.unbracket, if_neg fun hb => hhead (congrArg some hb)]
      exact ha
  | bracketed hslash ha =>
    refine ⟨List.cons_ne_nil _ _, ?_, ?_⟩
    · simpa using hslash
    · rw [TcpFilter.unbracket, if_pos rfl, if_pos List.getLast?_concat, List.dropLast_concat]
      exact ha

theorem LengthText.cases_pref (h : LengthText longest length n) :
    length = [] ∧ n = longest ∨ ∃ digits, length = slash :: digits ∧ digits ≠ [] ∧
      (∀ b ∈ digits, isDigit b) ∧ n = valueOf digits ∧ n ≤ longest := by
  cases h with
  | full => exact Or.inl ⟨rfl, rfl⟩
  | digits hne hdigits hle => exact Or.inr ⟨_, rfl, hne, hdigits, rfl, hle⟩

theorem maxPrefixlen_le (address : Option Address) : maxPrefixlen address ≤ 128 := by
  unfold maxPrefixlen
  split
  · decide
  · exact Nat.le_refl _

theorem isDigit.ne_dot {b : Byte} (h : isDigit b) : b ≠ dot := by
  rintro rfl
  exact absurd h.1 (by decide)

theorem strSplit_eq (hslash : slash ∉ host) : strSplit host slash = (host, none) := by
  rw [strSplit, cut_eq_none_iff.mpr hslash]

theorem strSplit_append (hslash : slash ∉ host) (rest : List Byte) :
    strSplit (host ++ slash :: rest) slash = (host, some rest) := by
  rw [strSplit, cut_append rest hslash]

theorem parsePattern_cons {sign : Byte} {action : Action} {network : Option Address × ℕ}
    (hnetwork : parseNetwork getaddrinfo (strSplit text slash).1 (strSplit text slash).2 = .ok network)
    (hle : network.2 ≤ maxPrefixlen network.1) (haction : actionOf sign = .ok action) :
    parsePattern getaddrinfo (sign :: text) =
      .ok ⟨action, network.1, network.2, maskOf network.1 network.2⟩ := by
  unfold parsePattern
  dsimp only
  rw [bind_ok hnetwork, if_neg (not_lt.mpr hle), bind_ok haction]

/-- **A well-formed text is read as its rule.** -/
theorem parsePattern_ok (h : RuleText getaddrinfo text r) :
    parsePattern getaddrinfo text = .ok r.pattern := by
  cases h with
  | any action hlength =>
    have haddr : ∀ pref, parseNetwork getaddrinfo [] pref = .ok (none, 0) := fun _ => if_pos rfl
    refine @parsePattern_cons _ _ _ _ (none, 0) ?_ (Nat.zero_le _) (actionOf_sign action)
    rcases hlength.cases_pref with ⟨rfl, -⟩ | ⟨digits, rfl, -⟩
    · exact haddr none
    · exact haddr (some digits)
  | @network host length a n action hhost hlength =>
    obtain ⟨hne, hslash, hresolved⟩ := hhost.unbracket
    refine @parsePattern_cons _ _ _ _ (some a, n) ?_ hlength.le (actionOf_sign action)
    rcases hlength.cases_pref with ⟨rfl, rfl⟩ | ⟨digits, rfl, hdne, hdigits, rfl, hle⟩
    · rw [List.append_nil, strSplit_eq hslash, parseNetwork, if_neg hne, hresolved]
    · have hdot : dot ∉ digits := fun hmem => (hdigits _ hmem).ne_dot rfl
      have hlt : valueOf digits < 2 ^ 31 :=
        (hle.trans (maxPrefixlen_le _)).trans_lt (by decide)
      rw [strSplit_append hslash, parseNetwork, if_neg hne, hresolved]
      dsimp only
      rw [if_neg fun h => hdot h.2, atoi_digits hdne hdigits hlt]

theorem RuleText.le (h : RuleText getaddrinfo text r) : r.prefixlen ≤ maxPrefixlen r.address := by
  cases h with
  | any action hlength => exact Nat.zero_le _
  | network action hhost hlength => exact hlength.le

/-- **The whole specification.** -/
theorem tcpFilter_ok {spec : List Byte} {rules : List Rule}
    (h : List.Forall₂ (RuleText getaddrinfo) (patternTexts spec) rules) :
    tcpFilter getaddrinfo spec = .ok (rules.map Rule.pattern) := by
  have hall : ∀ {texts : List (List Byte)} {rules : List Rule},
      List.Forall₂ (RuleText getaddrinfo) texts rules →
        texts.mapM (parsePattern getaddrinfo) = .ok (rules.map Rule.pattern) := by
    intro texts rules h
    induction h with
    | nil => rfl
    | cons hr _ ih => rw [List.mapM_cons, bind_ok (parsePattern_ok hr), bind_ok ih]; rfl
  exact hall h

end Read

/-! ## Matching -/

/-- Words are equal under a mask if the bits of the mask are. -/
theorem and_eq_and_iff {w : ℕ} {a b m : BitVec w} :
    a &&& m = b &&& m ↔ ∀ i < w, m.getLsbD i → a.getLsbD i = b.getLsbD i := by
  constructor
  · intro h i _ hm
    have hbit := congrArg (BitVec.getLsbD · i) h
    simpa [hm] using hbit
  · intro h
    refine BitVec.eq_of_getLsbD_eq fun i hi => ?_
    rw [BitVec.getLsbD_and, BitVec.getLsbD_and]
    cases hm : m.getLsbD i with
    | false => rw [Bool.and_false, Bool.and_false]
    | true => rw [h i hi hm]

/-- The loop sets one bit after the other, from the highest one on. -/
theorem getLsbD_inetMask {n : ℕ} (hn : n ≤ 32) {i : ℕ} (hi : i < 32) :
    (inetMask n).getLsbD i = decide (31 - i < n) := by
  have hone : ∀ k < 32, (((1 : BitVec 32) <<< (31 - k)).signExtend 64).getLsbD i =
      decide (i = 31 - k) := by
    intro k hk
    have hbit : ∀ j, (1 : BitVec 32).getLsbD j = decide (j = 0) := fun j => by simp
    rw [BitVec.getLsbD_signExtend, if_pos hi, BitVec.getLsbD_shiftLeft, hbit, decide_eq_true hi,
      Bool.true_and, ← decide_not, ← Bool.decide_and, decide_eq_true (by omega : i < 64),
      Bool.true_and]
    exact decide_eq_decide.mpr (by omega)
  rw [inetMask, BitVec.getLsbD_setWidth, decide_eq_true hi, Bool.true_and]
  induction n with
  | zero => simp
  | succ n ih =>
    rw [List.range_succ, List.foldl_append, List.foldl_cons, List.foldl_nil, BitVec.getLsbD_or,
      ih (by omega), hone n (by omega), ← Bool.decide_or]
    exact decide_eq_decide.mpr (by omega)

theorem inet_match_iff {a b : BitVec 32} {n : ℕ} (hn : n ≤ 32) :
    a &&& inetMask n = b &&& inetMask n ↔ ∀ i < n, a.getMsbD i = b.getMsbD i := by
  rw [and_eq_and_iff]
  constructor
  · intro h i hi
    have hbit := h (31 - i) (by omega) (by
      rw [getLsbD_inetMask hn (by omega)]
      exact decide_eq_true (by omega))
    rw [BitVec.getMsbD_eq_getLsbD, BitVec.getMsbD_eq_getLsbD]
    exact congrArg _ hbit
  · intro h i hi hm
    rw [getLsbD_inetMask hn hi, decide_eq_true_eq] at hm
    have hbit := h (31 - i) hm
    rw [BitVec.getMsbD_eq_getLsbD, BitVec.getMsbD_eq_getLsbD, decide_eq_true (by omega),
      Bool.true_and, Bool.true_and, show 32 - 1 - (31 - i) = i by omega] at hbit
    exact hbit

/-- The mask of the `n`-th byte has the bits of the prefix that are in it. -/
theorem getLsbD_byteMask {prefixlen n i : ℕ} (hi : i < 32) :
    (byteMask prefixlen n).getLsbD i = decide (i < 8 ∧ 8 * n + (7 - i) < prefixlen) := by
  have hbyte : ∀ j < 32, (0xFF : BitVec 32).getLsbD j = decide (j < 8) := by decide
  unfold byteMask
  dsimp only
  split
  · next h =>
      rw [hbyte i hi]
      exact decide_eq_decide.mpr (by omega)
  · next h =>
      rw [BitVec.getLsbD_and, BitVec.getLsbD_shiftLeft, hbyte i hi, decide_eq_true hi, Bool.true_and]
      by_cases hs : i < (n + 1) * 8 - prefixlen
      · rw [decide_eq_true hs]
        exact (decide_eq_false (by omega)).symm
      · rw [decide_eq_false hs, hbyte _ (by omega)]
        simp only [Bool.not_false, Bool.true_and, ← Bool.decide_and]
        exact decide_eq_decide.mpr (by omega)

theorem byte_match_iff {a b : Byte} {prefixlen n : ℕ} :
    a.setWidth 32 &&& byteMask prefixlen n = b.setWidth 32 &&& byteMask prefixlen n ↔
      ∀ j < 8, 8 * n + j < prefixlen → a.getMsbD j = b.getMsbD j := by
  rw [and_eq_and_iff]
  constructor
  · intro h j hj hlt
    have hbit := h (7 - j) (by omega) (by
      rw [getLsbD_byteMask (by omega)]
      exact decide_eq_true (by omega))
    rw [BitVec.getLsbD_setWidth, BitVec.getLsbD_setWidth, decide_eq_true (by omega),
      Bool.true_and, Bool.true_and] at hbit
    rw [BitVec.getMsbD_eq_getLsbD, BitVec.getMsbD_eq_getLsbD]
    exact congrArg _ hbit
  · intro h i hi hm
    rw [getLsbD_byteMask hi, decide_eq_true_eq] at hm
    have hbit := h (7 - i) (by omega) hm.2
    rw [BitVec.getMsbD_eq_getLsbD, BitVec.getMsbD_eq_getLsbD, decide_eq_true (by omega),
      Bool.true_and, Bool.true_and, show 8 - 1 - (7 - i) = i by omega] at hbit
    rw [BitVec.getLsbD_setWidth, BitVec.getLsbD_setWidth, hbit]

theorem byteMask_eq {prefixlen n : ℕ} (h : (n + 1) * 8 < prefixlen) :
    byteMask prefixlen n = 0xFF := if_pos h

/-- A bit of a string of bytes. -/
def bitAt (bytes : List Byte) (i : ℕ) : Bool := (bytes.getD (i / 8) 0).getMsbD (i % 8)

theorem bitAt_cons_of_lt {b : Byte} {bytes : List Byte} {j : ℕ} (hj : j < 8) :
    bitAt (b :: bytes) j = b.getMsbD j := by
  rw [bitAt, Nat.div_eq_of_lt hj, Nat.mod_eq_of_lt hj, List.getD_cons_zero]

theorem bitAt_cons_add {b : Byte} {bytes : List Byte} (i : ℕ) :
    bitAt (b :: bytes) (i + 8) = bitAt bytes i := by
  rw [bitAt, Nat.add_div_right i (by decide), Nat.add_mod_right, List.getD_cons_succ]
  rfl

/-- **The loop** looks at the bits of the prefix that are in the bytes from the `n`-th one on. -/
theorem matchBytes_iff {prefixlen : ℕ} : ∀ {as bs : List Byte} {n : ℕ}, as.length = bs.length →
    (matchBytes prefixlen n as bs ↔
      ∀ i < 8 * as.length, 8 * n + i < prefixlen → bitAt as i = bitAt bs i)
  | [], bs, n, hlength => by
    unfold matchBytes
    simp
  | a :: as, [], n, hlength => by cases hlength
  | a :: as, b :: bs, n, hlength => by
    have hrest := @matchBytes_iff prefixlen as bs (n + 1) (Nat.succ.inj hlength)
    -- the first byte, and the others
    have hsplit : (∀ i < 8 * (a :: as).length, 8 * n + i < prefixlen →
        bitAt (a :: as) i = bitAt (b :: bs) i) ↔
          (∀ j < 8, 8 * n + j < prefixlen → a.getMsbD j = b.getMsbD j) ∧
            ∀ i < 8 * as.length, 8 * (n + 1) + i < prefixlen → bitAt as i = bitAt bs i := by
      rw [List.length_cons]
      constructor
      · intro h
        refine ⟨fun j hj hlt => ?_, fun i hi hlt => ?_⟩
        · have hbit := h j (by omega) hlt
          rwa [bitAt_cons_of_lt hj, bitAt_cons_of_lt hj] at hbit
        · have hbit := h (i + 8) (by omega) (by omega)
          rwa [bitAt_cons_add, bitAt_cons_add] at hbit
      · rintro ⟨hfirst, hothers⟩ i hi hlt
        rcases lt_or_ge i 8 with hj | hj
        · rw [bitAt_cons_of_lt hj, bitAt_cons_of_lt hj]
          exact hfirst i hj hlt
        · obtain ⟨k, rfl⟩ := Nat.exists_eq_add_of_le' hj
          rw [bitAt_cons_add, bitAt_cons_add]
          exact hothers k (by omega) (by omega)
    rw [hsplit, ← byte_match_iff, matchBytes]
    split
    · next hne => exact iff_of_false nofun fun h => hne h.1
    · next heq =>
        rw [not_not] at heq
        split
        · next hlast =>
            -- the prefix ends in this byte
            have hle : prefixlen ≤ (n + 1) * 8 := by
              by_contra hlt
              rw [byteMask_eq (not_le.mp hlt)] at hlast
              exact absurd hlast (by decide)
            exact iff_of_true rfl ⟨heq, fun i _ hlt => by omega⟩
        · exact hrest.trans (and_iff_right heq).symm

/-! ## The decision -/

section Decision

variable {getaddrinfo : List Byte → Option Address} {r : Rule} {peer : Address}

theorem patternMatchIP_iff (hle : r.prefixlen ≤ maxPrefixlen r.address)
    (hpeer : peer ≠ .inet INADDR_NONE) : patternMatchIP r.pattern (some peer) ↔ r.Covers peer := by
  obtain ⟨action, address, prefixlen⟩ := r
  cases address with
  | none => exact iff_of_true rfl trivial
  | some a =>
    cases a with
    | inet s_addr =>
      cases peer with
      | inet other =>
        have hnone : other ≠ INADDR_NONE := fun h => hpeer (congrArg Address.inet h)
        have hmatch := @inet_match_iff s_addr other prefixlen hle
        show (if other = INADDR_NONE then false
          else decide (s_addr &&& inetMask prefixlen = other &&& inetMask prefixlen)) = true ↔ _
        rw [if_neg hnone, decide_eq_true_iff, hmatch]
        exact (and_iff_right rfl).symm
      | inet6 other => exact iff_of_false nofun fun h => nomatch h.1
    | inet6 s6_addr =>
      cases peer with
      | inet other => exact iff_of_false nofun fun h => nomatch h.1
      | inet6 other =>
        have hlength : s6_addr.toList.length = other.toList.length := by simp
        have hlength16 : s6_addr.toList.length = 16 := by simp
        have hle : prefixlen ≤ 128 := hle
        refine (@matchBytes_iff prefixlen _ _ 0 hlength).trans ?_
        rw [hlength16]
        constructor
        · intro h
          refine ⟨rfl, fun i hi => h i (lt_of_lt_of_le hi hle) ?_⟩
          rwa [Nat.zero_add]
        · rintro ⟨-, h⟩ i - hlt
          rw [Nat.zero_add] at hlt
          exact h i hlt

/-- **The first rule decides.** -/
theorem verifyConnection_rules {rules : List Rule}
    (hle : ∀ r ∈ rules, r.prefixlen ≤ maxPrefixlen r.address) (hpeer : peer ≠ .inet INADDR_NONE) :
    verifyConnection (rules.map Rule.pattern) (some (some peer)) =
      (decision rules peer).verified := by
  induction rules with
  | nil => rfl
  | cons r rules ih =>
    obtain ⟨hr, hrules⟩ := List.forall_mem_cons.mp hle
    have hmatch := patternMatchIP_iff hr hpeer
    have ih := ih hrules
    unfold verifyConnection decision at ih ⊢
    dsimp only at ih ⊢
    by_cases hcovers : r.Covers peer
    · rw [List.map_cons, List.find?_cons, hmatch.mpr hcovers, List.find?_cons,
        decide_eq_true hcovers]
      rfl
    · rw [List.map_cons, List.find?_cons, Bool.eq_false_iff.mpr fun h => hcovers (hmatch.mp h),
        List.find?_cons, decide_eq_false hcovers]
      exact ih

theorem forall_le_of_forall₂ {texts : List (List Byte)} {rules : List Rule}
    (h : List.Forall₂ (RuleText getaddrinfo) texts rules) :
    ∀ r ∈ rules, r.prefixlen ≤ maxPrefixlen r.address := by
  induction h with
  | nil => exact nofun
  | cons hr _ ih => exact List.forall_mem_cons.mpr ⟨hr.le, ih⟩

end Decision

/-! ## The round trip -/

/-- A numeric address is written with hexadecimal digits, dots and colons, and what is written is
resolved to it. -/
def NumericNames (getaddrinfo : List Byte → Option Address) (getnameinfo : Address → List Byte) :
    Prop :=
  ∀ host a, getaddrinfo host = some a →
    getaddrinfo (getnameinfo a) = some a ∧ getnameinfo a ≠ [] ∧ isValidIp (getnameinfo a)

section RoundTrip

variable {getaddrinfo : List Byte → Option Address} {getnameinfo : Address → List Byte}
  {text : List Byte} {p : Pattern}

/-- What is known of a pattern that has been read. -/
theorem of_parsePattern (h : parsePattern getaddrinfo text = .ok p) :
    p.prefixlen ≤ maxPrefixlen p.address ∧ p.mask = maskOf p.address p.prefixlen ∧
      (p.address = none → p.prefixlen = 0) ∧
      ∀ a, p.address = some a → ∃ host, getaddrinfo host = some a := by
  cases text with
  | nil => cases h
  | cons sign rest =>
    unfold parsePattern at h
    obtain ⟨network, hnetwork, h⟩ := of_bind_ok h
    have hfacts : (network.1 = none → network.2 = 0) ∧
        ∀ a, network.1 = some a → ∃ host, getaddrinfo host = some a := by
      unfold parseNetwork at hnetwork
      split at hnetwork
      · cases hnetwork
        exact ⟨fun _ => rfl, nofun⟩
      split at hnetwork
      · cases hnetwork
      · next address haddress =>
          split at hnetwork
          · cases hnetwork
            exact ⟨nofun, fun a ha => ⟨_, Option.some.inj ha ▸ haddress⟩⟩
          split at hnetwork
          · cases hnetwork
          · cases hnetwork
            exact ⟨nofun, fun a ha => ⟨_, Option.some.inj ha ▸ haddress⟩⟩
    split at h
    · cases h
    · next hle =>
        obtain ⟨action, -, h⟩ := of_bind_ok h
        cases h
        exact ⟨not_lt.mp hle, rfl, hfacts⟩

/-- No byte of a valid address is a slash or a bracket. -/
theorem notMem_of_isValidIp {s : List Byte} (h : isValidIp s) {b : Byte}
    (hb : isValidIp [b] = false) : b ∉ s := by
  intro hmem
  have hone : isValidIp [b] = true := by
    rw [isValidIp, List.all_cons, List.all_nil, Bool.and_true]
    exact List.all_eq_true.mp h b hmem
  rw [hb] at hone
  cases hone

/-- What is written for a pattern is the text of its rule. -/
theorem patternToStr_ruleText (hnames : NumericNames getaddrinfo getnameinfo)
    (hle : p.prefixlen ≤ maxPrefixlen p.address) (hzero : p.address = none → p.prefixlen = 0)
    (hresolved : ∀ a, p.address = some a → ∃ host, getaddrinfo host = some a) :
    RuleText getaddrinfo (patternToStr getnameinfo p) ⟨p.action, p.address, p.prefixlen⟩ := by
  obtain ⟨action, address, prefixlen, mask⟩ := p
  cases address with
  | none =>
    obtain rfl : prefixlen = 0 := hzero rfl
    exact RuleText.any action LengthText.full
  | some a =>
    obtain ⟨host, hhost⟩ := hresolved a rfl
    obtain ⟨hback, hne, hvalid⟩ := hnames host a hhost
    have hslash : slash ∉ getnameinfo a := notMem_of_isValidIp hvalid (by decide)
    have hbracket : bracket ∉ getnameinfo a := notMem_of_isValidIp hvalid (by decide)
    obtain ⟨hdigits, hvalue⟩ := decimal_digits prefixlen
    have hlength : LengthText (maxPrefixlen (some a)) (slash :: decimal prefixlen) prefixlen := by
      have htext : LengthText (maxPrefixlen (some a)) (slash :: decimal prefixlen)
          (valueOf (decimal prefixlen)) :=
        LengthText.digits (decimal_ne_nil prefixlen) hdigits (hvalue.symm ▸ hle)
      rwa [hvalue] at htext
    have haddress : HostText getaddrinfo (addressText getnameinfo (some a)) (some a) := by
      cases a with
      | inet s_addr =>
        refine HostText.bare hne hslash (fun h => hbracket ?_) hback
        exact List.mem_of_mem_head? h
      | inet6 s6_addr => exact HostText.bracketed hslash hback
    have htext : patternToStr getnameinfo ⟨action, some a, prefixlen, mask⟩ =
        action.sign :: (addressText getnameinfo (some a) ++ slash :: decimal prefixlen) := by
      have hthree := length_decimal_le (hle.trans (maxPrefixlen_le _))
      unfold patternToStr
      dsimp only
      rw [if_neg haddress.unbracket.1]
      refine List.take_of_length_le ?_
      simp only [List.length_cons, List.length_append]
      dsimp only at hthree
      omega
    rw [htext]
    exact RuleText.network action haddress hlength

theorem parsePattern_patternToStr (hnames : NumericNames getaddrinfo getnameinfo)
    (h : parsePattern getaddrinfo text = .ok p) :
    parsePattern getaddrinfo (patternToStr getnameinfo p) = .ok p := by
  obtain ⟨hle, hmask, hzero, hresolved⟩ := of_parsePattern h
  rw [parsePattern_ok (patternToStr_ruleText hnames hle hzero hresolved), Rule.pattern, ← hmask]

end RoundTrip

/-- **The filter of addresses.** -/
theorem tcpFilter_sound (getaddrinfo : List Byte → Option Address)
    (getnameinfo : Address → List Byte) (hnames : NumericNames getaddrinfo getnameinfo) :
    (∀ spec rules peer, List.Forall₂ (RuleText getaddrinfo) (patternTexts spec) rules →
      peer ≠ .inet INADDR_NONE →
      ∃ filter, tcpFilter getaddrinfo spec = .ok filter ∧
        verifyConnection filter (some (some peer)) = (decision rules peer).verified) ∧
    ∀ text p, parsePattern getaddrinfo text = .ok p →
      parsePattern getaddrinfo (patternToStr getnameinfo p) = .ok p := by
  refine ⟨?_, fun text p h => parsePattern_patternToStr hnames h⟩
  intro spec rules peer hspec hpeer
  exact ⟨_, tcpFilter_ok hspec, verifyConnection_rules (forall_le_of_forall₂ hspec) hpeer⟩

/-- The address `192.168.0.0`, and its name. -/
def privateNetwork : Address := .inet 0xC0A80000

def privateName : List Byte := ascii "192.168.0.0"

def resolvePrivate (host : List Byte) : Option Address :=
  if host = privateName then some privateNetwork else none

def namePrivate (a : Address) : List Byte := if a = privateNetwork then privateName else []

/-- `+192.168.0.0/16` -/
def acceptPrivate : List Byte := 0x2B :: (privateName ++ slash :: [0x31, 0x36])

theorem tcpFilter_sound_private :
    (∃ filter, tcpFilter resolvePrivate (acceptPrivate ++ comma :: [0x2D]) = .ok filter ∧
      verifyConnection filter (some (some (.inet 0xC0A80105))) = ⟨true, false⟩) ∧
    ∃ p, parsePattern resolvePrivate acceptPrivate = .ok p ∧
      parsePattern resolvePrivate (patternToStr namePrivate p) = .ok p := by
  have hbytes : ∀ b ∈ [comma, slash, bracket], b ∉ privateName := by
    rw [privateName, ascii_ofList]
    decide
  have hne : privateName ≠ [] := by
    rw [privateName, ascii_ofList]
    decide
  have hvalid : isValidIp privateName := by
    rw [privateName, ascii_ofList]
    decide
  have hresolve : resolvePrivate privateName = some privateNetwork := if_pos rfl
  have hnames : NumericNames resolvePrivate namePrivate := by
    intro host a h
    obtain rfl : privateNetwork = a := Option.some.inj (Option.ite_none_right_eq_some.mp h).2
    rw [namePrivate, if_pos rfl]
    exact ⟨hresolve, hne, hvalid⟩
  have haccept : RuleText resolvePrivate acceptPrivate ⟨.Accept, some privateNetwork, 16⟩ := by
    refine RuleText.network .Accept (HostText.bare hne (hbytes slash (by decide)) (fun h => ?_)
      hresolve) (LengthText.digits (by decide) (by unfold isDigit; decide) (by decide))
    exact hbytes bracket (by decide) (List.mem_of_mem_head? h)
  have htexts : patternTexts (acceptPrivate ++ comma :: [0x2D]) = [acceptPrivate, [0x2D]] := by
    have hcomma : comma ∉ acceptPrivate := by
      simp only [acceptPrivate, List.mem_cons, List.mem_append, hbytes comma (by decide)]
      decide
    rw [patternTexts, segments_append hcomma, segments_last (by decide)]
    rfl
  obtain ⟨hverify, hround⟩ := tcpFilter_sound resolvePrivate namePrivate hnames
  obtain ⟨filter, hfilter, hdecision⟩ := hverify (acceptPrivate ++ comma :: [0x2D])
    [⟨.Accept, some privateNetwork, 16⟩, ⟨.Reject, none, 0⟩] (.inet 0xC0A80105)
    (htexts ▸ .cons haccept (.cons (RuleText.any .Reject LengthText.full) .nil)) (by decide)
  refine ⟨⟨filter, hfilter, hdecision.trans (by decide)⟩, _, parsePattern_ok haccept, ?_⟩
  exact hround acceptPrivate _ (parsePattern_ok haccept)

end KasmVNC.Network.TcpFilter
