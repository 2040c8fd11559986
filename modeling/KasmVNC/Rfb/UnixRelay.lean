import KasmVNC.Lib.Text
import KasmVNC.Rfb.ClientMessage
import KasmVNC.Rfb.Permissions

/-!
# Unix relays

A client subscribes to the channels that have been configured, and exchanges data with the
programs behind them. What it has subscribed to is a table of strings, of the same size as the
table of channels. Free places of both are empty strings, which are compared with what the client
sends like all the others.
-/

namespace KasmVNC.Rfb

open KasmVNC.Lib

abbrev MAX_UNIX_RELAYS : ℕ := 4

abbrev MAX_UNIX_RELAY_NAME_LEN : ℕ := 64

/-- A name that fits its field. -/
structure RelayName where
  name : CString
  fits : name.bytes.length < MAX_UNIX_RELAY_NAME_LEN
deriving DecidableEq

namespace RelayName

/-- A free place of a table. -/
def free : RelayName := ⟨.empty, by decide⟩

/-- What the reader makes of the bytes of a name. -/
def ofWire (bytes : List Byte) (h : bytes.length < MAX_UNIX_RELAY_NAME_LEN) : RelayName :=
  ⟨CString.ofBuffer bytes, (List.takeWhile_prefix _).length_le.trans_lt h⟩

end RelayName

/-! ## The channels -/

/-- The channels that have been configured, which all have their sockets. `addrelay` refuses any
others. -/
structure RelayChannels where
  names : List RelayName
  few : names.length ≤ MAX_UNIX_RELAYS

namespace RelayChannels

/-- The table of names, for the sockets that are there and for those that are not. -/
def unixrelaynames (c : RelayChannels) : List RelayName :=
  c.names ++ List.replicate (MAX_UNIX_RELAYS - c.names.length) .free

/-- `XserverDesktop::receivedUnixRelayData`: the socket that the data goes to. -/
def receivedUnixRelayData (c : RelayChannels) (name : RelayName) : Option ℕ :=
  c.names.findIdx? (· = name)

end RelayChannels

/-! ## The connection -/

inductive RelayEvent
  /-- A subscription, with what the password file says at that moment. -/
  | subscribe (name : RelayName) (passwd : Passwd)
  | relay (name : RelayName) (buf : List Byte)
  /-- A program has sent to its channel. -/
  | channelData (i : ℕ) (buf : List Byte)

/-- What a connection does. -/
inductive RelayOutput
  /-- `writeSubscribeUnixRelay`, for this name -/
  | answer (name : RelayName) (success : Bool) (msg : List Byte)
  /-- `receivedUnixRelayData`, with the socket that the data goes to -/
  | received (name : RelayName) (buf : List Byte) (socket : Option ℕ)
  /-- `writeUnixRelay` -/
  | written (name : RelayName) (buf : List Byte)
deriving DecidableEq

structure RelayConn where
  unixRelaySubscriptions : List RelayName
  /-- What the connection has done so far. -/
  log : List RelayOutput
deriving DecidableEq

/-- The second loop of `subscribeUnixRelay`. -/
def storeRelay (name : RelayName) : List RelayName → List RelayName
  | [] => []
  | r :: rs => if r = .free then name :: rs else r :: storeRelay name rs

namespace RelayConn

variable (c : RelayChannels)

def start : RelayConn := ⟨List.replicate MAX_UNIX_RELAYS .free, []⟩

def subscribeUnixRelay (s : RelayConn) (name : RelayName) (passwd : Passwd) : RelayConn :=
  if !passwd.grantsWrite then
    { s with log := s.log ++ [.answer name false (ascii "No permissions")] }
  else if name ∉ c.unixrelaynames then
    { s with log := s.log ++ [.answer name false (ascii "No such unix channel")] }
  else
    { unixRelaySubscriptions := storeRelay name s.unixRelaySubscriptions
      log := s.log ++ [.answer name true (ascii "Ok")] }

def isSubscribedToUnixRelay (s : RelayConn) (name : RelayName) : Bool :=
  name ∈ s.unixRelaySubscriptions

def unixRelay (s : RelayConn) (name : RelayName) (buf : List Byte) : RelayConn :=
  if s.isSubscribedToUnixRelay name then
    { s with log := s.log ++ [.received name buf (c.receivedUnixRelayData name)] }
  else s

/-- The part of `VNCServerST::sendUnixRelayData` for one client. -/
def sendUnixRelayData (s : RelayConn) (name : RelayName) (buf : List Byte) : RelayConn :=
  if s.isSubscribedToUnixRelay name then { s with log := s.log ++ [.written name buf] } else s

def step (s : RelayConn) : RelayEvent → RelayConn
  | .subscribe name passwd => s.subscribeUnixRelay c name passwd
  | .relay name buf => s.unixRelay c name buf
  | .channelData i buf =>
    -- only the sockets that are there are read
    match c.names[i]? with
    | some name => s.sendUnixRelayData name buf
    | none => s

/-- The client has been answered that it may use the channel. -/
def Granted (s : RelayConn) (name : RelayName) : Prop :=
  .answer name true (ascii "Ok") ∈ s.log

/-- What is granted exists, may be written to and is subscribed to from then on; and what is
passed on in either direction has been granted before, while nothing that has been is dropped. -/
def Respects (s : RelayConn) (e : RelayEvent) : Prop :=
  match e with
  | .subscribe name passwd =>
    (s.step c e).log = s.log ++ [.answer name true (ascii "Ok")] →
      name ∈ c.names ∧ name ≠ .free ∧ passwd.grantsWrite ∧
        (s.step c e).isSubscribedToUnixRelay name
  | .relay name buf =>
    ((∃ socket, (s.step c e).log = s.log ++ [.received name buf socket]) ↔ s.Granted name) ∧
      (s.Granted name → ∃ i, (s.step c e).log = s.log ++ [.received name buf (some i)] ∧
        c.names[i]? = some name)
  | .channelData i buf =>
    ∀ name ∈ c.names[i]?, (s.step c e).log = s.log ++ [.written name buf] ↔ s.Granted name

/-- A name that is found is not empty, and there is a place for it unless it has one. Nothing is
sent under the empty name as long as there are free places. -/
def Meets (s : RelayConn) : RelayEvent → Prop
  | .subscribe name passwd =>
    passwd.grantsWrite → name ∈ c.unixrelaynames →
      name ≠ .free ∧
        (name ∈ s.unixRelaySubscriptions ∨ .free ∈ s.unixRelaySubscriptions)
  | .relay name _ => name = .free → .free ∉ s.unixRelaySubscriptions
  | .channelData i _ => c.names[i]? = some .free → .free ∉ s.unixRelaySubscriptions

/-- What the table holds besides free places is what has been granted. -/
structure Agrees (s : RelayConn) : Prop where
  subscribed : ∀ name, name ≠ .free → (name ∈ s.unixRelaySubscriptions ↔ s.Granted name)
  nonempty : ¬s.Granted .free
  configured : ∀ name, s.Granted name → name ∈ c.names

end RelayConn

/-! ## One event -/

theorem mem_storeRelay {name r : RelayName} : ∀ {rs : List RelayName}, r ≠ .free →
    (r ∈ storeRelay name rs ↔ r ∈ rs ∨ r = name ∧ .free ∈ rs)
  | [], _ => by simp [storeRelay]
  | q :: rs, hr => by
    have ih : r ∈ storeRelay name rs ↔ r ∈ rs ∨ r = name ∧ .free ∈ rs := mem_storeRelay hr
    rw [storeRelay]
    by_cases hq : q = .free
    · rw [if_pos hq, List.mem_cons, List.mem_cons, hq]
      simp [hr, or_comm]
    · rw [if_neg hq, List.mem_cons, List.mem_cons, List.mem_cons, ih, or_assoc]
      simp [Ne.symm hq]

namespace RelayConn

variable {c : RelayChannels} {s : RelayConn}

theorem agrees_start : start.Agrees c where
  subscribed name hname := by
    refine iff_of_false ?_ List.not_mem_nil
    intro hmem
    exact hname (List.eq_of_mem_replicate hmem)
  nonempty := List.not_mem_nil
  configured _ h := absurd h List.not_mem_nil

/-- What a subscription does. -/
theorem subscribe_cases (s : RelayConn) (name : RelayName) (passwd : Passwd) :
    (passwd.grantsWrite = true ∧ name ∈ c.unixrelaynames ∧
        s.subscribeUnixRelay c name passwd =
          ⟨storeRelay name s.unixRelaySubscriptions,
            s.log ++ [.answer name true (ascii "Ok")]⟩) ∨
      ¬(passwd.grantsWrite = true ∧ name ∈ c.unixrelaynames) ∧
        ∃ msg, s.subscribeUnixRelay c name passwd =
          ⟨s.unixRelaySubscriptions, s.log ++ [.answer name false msg]⟩ := by
  rw [subscribeUnixRelay]
  cases hwrite : passwd.grantsWrite with
  | false => exact Or.inr ⟨fun h => Bool.false_ne_true h.1, _, rfl⟩
  | true =>
    rw [if_neg (by simp)]
    by_cases hname : name ∈ c.unixrelaynames
    · rw [if_neg (not_not.mpr hname)]
      exact Or.inl ⟨rfl, hname, rfl⟩
    · rw [if_pos hname]
      exact Or.inr ⟨fun h => hname h.2, _, rfl⟩

theorem mem_unixrelaynames {name : RelayName} (hname : name ≠ .free) :
    name ∈ c.unixrelaynames ↔ name ∈ c.names := by
  rw [RelayChannels.unixrelaynames, List.mem_append, List.mem_replicate]
  exact or_iff_left fun h => hname h.2

/-- The desktop finds the socket of a channel. -/
theorem receivedUnixRelayData_some {name : RelayName} (h : name ∈ c.names) :
    ∃ i, c.receivedUnixRelayData name = some i ∧ c.names[i]? = some name := by
  have hfound : (c.receivedUnixRelayData name).isSome := by
    rw [RelayChannels.receivedUnixRelayData, List.findIdx?_isSome]
    exact List.any_eq_true.mpr ⟨name, h, decide_eq_true rfl⟩
  obtain ⟨i, hi⟩ := Option.isSome_iff_exists.mp hfound
  obtain ⟨hlt, hname, -⟩ := List.findIdx?_eq_some_iff_getElem.mp hi
  exact ⟨i, hi, List.getElem?_eq_some_iff.mpr ⟨hlt, of_decide_eq_true hname⟩⟩

theorem log_ne_append (log : List RelayOutput) (x : RelayOutput) : log ≠ log ++ [x] := by
  intro h
  have hlength := congrArg List.length h
  rw [List.length_append] at hlength
  exact absurd hlength (Nat.ne_of_lt (Nat.lt_succ_self _))

/-- Data is passed on under the names in the table. -/
theorem received_iff {name : RelayName} {buf : List Byte} {socket : Option ℕ} :
    (s.unixRelay c name buf).log = s.log ++ [.received name buf socket] ↔
      name ∈ s.unixRelaySubscriptions ∧ c.receivedUnixRelayData name = socket := by
  rw [unixRelay, isSubscribedToUnixRelay]
  by_cases hname : name ∈ s.unixRelaySubscriptions
  · rw [if_pos (decide_eq_true hname), and_iff_right hname]
    simp
  · rw [if_neg (by simpa using hname)]
    exact iff_of_false (log_ne_append _ _) fun h => hname h.1

theorem written_iff {name : RelayName} {buf : List Byte} :
    (s.sendUnixRelayData name buf).log = s.log ++ [.written name buf] ↔
      name ∈ s.unixRelaySubscriptions := by
  rw [sendUnixRelayData, isSubscribedToUnixRelay]
  by_cases hname : name ∈ s.unixRelaySubscriptions
  · rw [if_pos (decide_eq_true hname)]
    exact iff_of_true rfl hname
  · rw [if_neg (by simpa using hname)]
    exact iff_of_false (log_ne_append _ _) hname

theorem Agrees.mem_iff (h : s.Agrees c) (name : RelayName) :
    (name ∈ s.unixRelaySubscriptions ↔ s.Granted name) ↔
      (name = .free → .free ∉ s.unixRelaySubscriptions) := by
  by_cases hname : name = .free
  · rw [hname, iff_false_right h.nonempty, forall_prop_of_true rfl]
  · exact iff_of_true (h.subscribed name hname) fun hfree => absurd hfree hname

theorem respects_subscribe_iff (name : RelayName) (passwd : Passwd) :
    s.Respects c (.subscribe name passwd) ↔ s.Meets c (.subscribe name passwd) := by
  show ((s.subscribeUnixRelay c name passwd).log = _ → _ ∧ _ ∧ _ ∧
    (s.subscribeUnixRelay c name passwd).isSubscribedToUnixRelay name) ↔ (_ → _ → _)
  rcases s.subscribe_cases name passwd with ⟨hwrite, hname, hs⟩ | ⟨hrefused, msg, hs⟩
  · rw [hs, forall_prop_of_true rfl, forall_prop_of_true hwrite, forall_prop_of_true hname]
    rw [isSubscribedToUnixRelay, decide_eq_true_iff]
    constructor
    · rintro ⟨-, hne, -, hmem⟩
      exact ⟨hne, ((mem_storeRelay hne).mp hmem).imp_right And.right⟩
    · rintro ⟨hne, hplace⟩
      exact ⟨(mem_unixrelaynames hne).mp hname, hne, hwrite,
        (mem_storeRelay hne).mpr (hplace.imp_right fun hfree => ⟨rfl, hfree⟩)⟩
  · rw [hs]
    refine iff_of_true (fun hlog => ?_) fun hwrite hname => absurd ⟨hwrite, hname⟩ hrefused
    simp at hlog

/-- Of a single event. -/
theorem respects_iff (h : s.Agrees c) (e : RelayEvent) : s.Respects c e ↔ s.Meets c e := by
  cases e with
  | subscribe name passwd => exact respects_subscribe_iff name passwd
  | relay name buf =>
    have hreceived : (∃ socket, (s.step c (.relay name buf)).log =
        s.log ++ [.received name buf socket]) ↔ name ∈ s.unixRelaySubscriptions := by
      refine (exists_congr fun socket => received_iff).trans ?_
      exact ⟨fun ⟨_, hmem, _⟩ => hmem, fun hmem => ⟨_, hmem, rfl⟩⟩
    show _ ∧ _ ↔ _
    rw [hreceived, h.mem_iff]
    refine and_iff_left_of_imp fun hfree hgranted => ?_
    obtain ⟨i, hi, hsocket⟩ := receivedUnixRelayData_some (h.configured name hgranted)
    exact ⟨i, received_iff.mpr ⟨((h.mem_iff name).mpr hfree).mpr hgranted, hi⟩, hsocket⟩
  | channelData i buf =>
    show (∀ name ∈ c.names[i]?, _) ↔ (c.names[i]? = some .free → _)
    rw [step]
    cases c.names[i]? with
    | none => exact iff_of_true nofun nofun
    | some name =>
      simp only [Option.mem_some_iff, forall_eq', Option.some.injEq]
      rw [written_iff, h.mem_iff]

/-- What has been logged without an `Ok` grants nothing. -/
theorem granted_concat {x : RelayOutput} {rs : List RelayName} (name : RelayName) :
    Granted ⟨rs, s.log ++ [x]⟩ name ↔ s.Granted name ∨ .answer name true (ascii "Ok") = x := by
  rw [Granted, List.mem_append, List.mem_singleton]
  rfl

theorem Agrees.logged (h : s.Agrees c) {x : RelayOutput}
    (hx : ∀ name msg, x ≠ .answer name true msg) :
    Agrees c ⟨s.unixRelaySubscriptions, s.log ++ [x]⟩ := by
  have hgranted (name : RelayName) :
      Granted ⟨s.unixRelaySubscriptions, s.log ++ [x]⟩ name ↔ s.Granted name := by
    rw [granted_concat]
    exact or_iff_left (Ne.symm (hx name _))
  exact ⟨fun name hname => (h.subscribed name hname).trans (hgranted name).symm,
    fun hfree => h.nonempty ((hgranted _).mp hfree),
    fun name hname => h.configured name ((hgranted name).mp hname)⟩

/-- A subscription that is granted and finds a place. -/
theorem Agrees.granted (h : s.Agrees c) {name : RelayName} (hne : name ≠ .free)
    (hname : name ∈ c.names)
    (hplace : name ∈ s.unixRelaySubscriptions ∨ .free ∈ s.unixRelaySubscriptions) :
    Agrees c ⟨storeRelay name s.unixRelaySubscriptions,
      s.log ++ [.answer name true (ascii "Ok")]⟩ where
  subscribed r hr := by
    rw [granted_concat]
    show r ∈ storeRelay name s.unixRelaySubscriptions ↔ _
    rw [mem_storeRelay hr, h.subscribed r hr]
    constructor
    · rintro (hgranted | ⟨rfl, -⟩)
      · exact Or.inl hgranted
      · exact Or.inr rfl
    · rintro (hgranted | hanswer)
      · exact Or.inl hgranted
      · obtain ⟨rfl, -⟩ : r = name ∧ _ := RelayOutput.answer.inj hanswer
        exact hplace.imp (h.subscribed r hr).mp fun hfree => ⟨rfl, hfree⟩
  nonempty hfree := by
    rcases (granted_concat _).mp hfree with hold | hanswer
    · exact h.nonempty hold
    · exact hne (RelayOutput.answer.inj hanswer).1.symm
  configured r hr := by
    rcases (granted_concat _).mp hr with hold | hanswer
    · exact h.configured r hold
    · exact (RelayOutput.answer.inj hanswer).1 ▸ hname

theorem agrees_step (h : s.Agrees c) (e : RelayEvent) (hmeets : s.Meets c e) :
    (s.step c e).Agrees c := by
  cases e with
  | subscribe name passwd =>
    show Agrees c (s.subscribeUnixRelay c name passwd)
    rcases s.subscribe_cases name passwd with ⟨hwrite, hname, hs⟩ | ⟨-, msg, hs⟩
    · rw [hs]
      obtain ⟨hne, hplace⟩ := hmeets hwrite hname
      exact h.granted hne ((mem_unixrelaynames hne).mp hname) hplace
    · rw [hs]
      exact h.logged nofun
  | relay name buf =>
    show Agrees c (s.unixRelay c name buf)
    rw [unixRelay]
    split
    · exact h.logged nofun
    · exact h
  | channelData i buf =>
    rw [step]
    split
    · rw [sendUnixRelayData]
      split
      · exact h.logged nofun
      · exact h
    · exact h

/-- **Access to the relays**, over every run of a connection: what is granted exists, may be
written to and is not dropped, and nothing else is passed on, exactly if every event meets the
condition. -/
theorem relay_access_iff (c : RelayChannels) (es : List RelayEvent) :
    Guarded (step c) (Respects c) start es ↔ Guarded (step c) (Meets c) start es := by
  constructor
  · exact guarded_imp (I := Agrees c)
      (fun s e h hrespects => agrees_step h e ((respects_iff h e).mp hrespects))
      (fun s e h hrespects => (respects_iff h e).mp hrespects) agrees_start
  · exact guarded_imp (I := Agrees c) (fun s e h hmeets => agrees_step h e hmeets)
      (fun s e h hmeets => (respects_iff h e).mpr hmeets) agrees_start

end RelayConn

/-! ## Empty names and repeated ones -/

section Examples

open RelayConn

def printChannel : RelayName := .ofWire (ascii "print") (by decide)

def scanChannel : RelayName := .ofWire (ascii "scan") (by decide)

def twoChannels : RelayChannels := ⟨[printChannel, scanChannel], by decide⟩

/-- A writer. -/
def writer : Passwd := ⟨false, some ⟨true, true⟩⟩

/-- Data under the empty name from a client without a subscription, a subscription to the empty
name, and data to a channel that was granted after four subscriptions to another one. -/
theorem relays_misused :
    ¬Guarded (step twoChannels) (Respects twoChannels) start [.relay .free [0x61]] ∧
      ¬Guarded (step twoChannels) (Respects twoChannels) start [.subscribe .free writer] ∧
      ¬Guarded (step twoChannels) (Respects twoChannels) start
        [.subscribe printChannel writer, .subscribe printChannel writer,
          .subscribe printChannel writer, .subscribe printChannel writer,
          .subscribe scanChannel writer, .relay scanChannel [0x61]] := by
  refine ⟨?_, ?_, ?_⟩
  · rintro ⟨⟨hiff, -⟩, -⟩
    exact absurd (hiff.mp ⟨none, by decide⟩) List.not_mem_nil
  · rintro ⟨hgrant, -⟩
    exact (hgrant (by decide)).2.1 rfl
  · rintro ⟨-, -, -, -, -, ⟨hiff, -⟩, -⟩
    obtain ⟨socket, hlog⟩ := hiff.mpr (by unfold Granted; decide +kernel)
    exact absurd (received_iff.mp hlog).1 (by decide +kernel)

end Examples

end KasmVNC.Rfb
