import Mathlib.Data.List.Basic
import Mathlib.Data.List.Perm.Basic
import Mathlib.Tactic.Tauto

/-!
# Fences

`processMessages` handles the client's messages one after another. A fence that
asks for a response gets it at once, or, with `SyncNext`, after the message that
follows it; no framebuffer update may slip out while that message is handled.
The payload to send back is kept in a single place of the connection.
-/

namespace KasmVNC.Rfb

abbrev fenceFlagBlockBefore : BitVec 32 := 1
abbrev fenceFlagBlockAfter : BitVec 32 := 2
abbrev fenceFlagSyncNext : BitVec 32 := 4
abbrev fenceFlagRequest : BitVec 32 := 0x80000000
abbrev fenceFlagsSupported : BitVec 32 :=
  fenceFlagBlockBefore ||| fenceFlagBlockAfter ||| fenceFlagSyncNext ||| fenceFlagRequest

/-- What a fence carries; `readFence` drops longer ones. -/
abbrev FencePayload := { data : List (BitVec 8) // data.length ≤ 64 }

structure FenceMsg where
  flags : BitVec 32
  data : FencePayload
deriving DecidableEq

namespace FenceMsg

def isRequest (f : FenceMsg) : Bool := f.flags &&& fenceFlagRequest ≠ 0

def isSyncNext (f : FenceMsg) : Bool := f.isRequest && f.flags &&& fenceFlagSyncNext ≠ 0

end FenceMsg

/-- What the connection writes, as far as fences and updates are concerned. -/
inductive FenceOut
  | fence (flags : BitVec 32) (data : FencePayload)
  | update
  | other
deriving DecidableEq

namespace FenceOut

/-- A fence without the request flag answers one of the client's. -/
def isResponse : FenceOut → Bool
  | .fence flags _ => flags &&& fenceFlagRequest = 0
  | _ => false

end FenceOut

/-- What the handling of another message may do: write something, make use of
fences possible, provoke an update, or fail. -/
inductive HandlerAct
  | write
  | announceFence
  | tryUpdate (ready : Bool)
  | throw
deriving DecidableEq

inductive ClientMsg
  | fence (f : FenceMsg)
  | other (acts : List HandlerAct)
deriving DecidableEq

/-- The members of `VNCSConnectionST` that fences use. -/
structure FenceState where
  supportsFence : Bool
  inProcessMessages : Bool
  pendingSyncFence : Bool
  syncFence : Bool
  fenceFlags : BitVec 32
  fenceData : FencePayload
deriving DecidableEq

namespace FenceState

def init : FenceState := ⟨false, false, false, false, 0, ⟨[], by decide⟩⟩

/-- `SMsgWriter::writeFence`; `none` stands for the exception. -/
def writeFence (s : FenceState) (flags : BitVec 32) (data : FencePayload) :
    Option (List FenceOut) :=
  if !s.supportsFence then none
  else if data.val.length > 64 then none
  else if flags &&& ~~~fenceFlagsSupported ≠ 0 then none
  else some [.fence flags data]

def fence (s : FenceState) (f : FenceMsg) : Option (FenceState × List FenceOut) :=
  if f.flags &&& fenceFlagRequest ≠ 0 then
    if f.flags &&& fenceFlagSyncNext ≠ 0 then
      some ({ s with
        pendingSyncFence := true
        fenceFlags := f.flags &&&
          (fenceFlagBlockBefore ||| fenceFlagBlockAfter ||| fenceFlagSyncNext)
        fenceData := f.data }, [])
    else
      (s.writeFence (f.flags &&& (fenceFlagBlockBefore ||| fenceFlagBlockAfter)) f.data).map
        fun outs => (s, outs)
  else some (s, [])

/-- `writeFramebufferUpdate`; `ready` sums up all conditions that have nothing
to do with fences. -/
def writeFramebufferUpdate (s : FenceState) (ready : Bool) : List FenceOut :=
  if s.syncFence then []
  else if s.inProcessMessages then []
  else if ready then [.update] else []

def act (s : FenceState) : HandlerAct → Option (FenceState × List FenceOut)
  | .write => some (s, [.other])
  | .announceFence =>
    if s.supportsFence then some (s, [])
    else
      let s := { s with supportsFence := true }
      (s.writeFence fenceFlagRequest ⟨[0], by decide⟩).map fun outs => (s, outs)
  | .tryUpdate ready => some (s, s.writeFramebufferUpdate ready)
  | .throw => none

def acts (s : FenceState) : List HandlerAct → Option (FenceState × List FenceOut)
  | [] => some (s, [])
  | a :: as => do
      let (s, outs) ← s.act a
      let (s, more) ← acts s as
      return (s, outs ++ more)

def processMsg (s : FenceState) : ClientMsg → Option (FenceState × List FenceOut)
  | .fence f => s.fence f
  | .other as => s.acts as

/-- One turn of the loop in `processMessages`. -/
def processNext (s : FenceState) (m : ClientMsg) : Option (FenceState × List FenceOut) := do
  let s := if s.pendingSyncFence then
    { s with syncFence := true, pendingSyncFence := false } else s
  let (s, outs) ← s.processMsg m
  if s.syncFence then
    let reply ← s.writeFence s.fenceFlags s.fenceData
    return ({ s with syncFence := false }, outs ++ reply)
  else return (s, outs)

end FenceState

/-! ## Sessions -/

/-- A message with what was written before the next one, or what was written
while no message was being processed. -/
inductive FenceEntry
  | message (m : ClientMsg) (outs : List FenceOut)
  | idle (outs : List FenceOut)
deriving DecidableEq

namespace FenceState

/-- Messages up to the first exception, which closes the connection. -/
def loop (s : FenceState) : List ClientMsg → List FenceEntry × Option FenceState
  | [] => ([], some s)
  | m :: ms =>
    match s.processNext m with
    | none => ([], none)
    | some (s, outs) =>
      let (log, s) := loop s ms
      (.message m outs :: log, s)

def processMessages (s : FenceState) (ms : List ClientMsg) (ready : Bool) :
    List FenceEntry × Option FenceState :=
  match loop { s with inProcessMessages := true } ms with
  | (log, none) => (log, none)
  | (log, some s) =>
    let s := { s with inProcessMessages := false }
    (log ++ [.idle (s.writeFramebufferUpdate ready)], some s)

end FenceState

/-- A batch of messages, or an attempt to send an update in between: a server
frame, a timer or a flushed socket. -/
inductive ConnEvent
  | batch (ms : List ClientMsg) (ready : Bool)
  | attempt (ready : Bool)
deriving DecidableEq

def fenceSession (s : FenceState) : List ConnEvent → List FenceEntry
  | [] => []
  | .batch ms ready :: es =>
    match s.processMessages ms ready with
    | (log, none) => log
    | (log, some s) => log ++ fenceSession s es
  | .attempt ready :: es => .idle (s.writeFramebufferUpdate ready) :: fenceSession s es

/-- The messages whose processing was completed, with what was written. -/
def processed : List FenceEntry → List (ClientMsg × List FenceOut)
  | [] => []
  | .message m outs :: log => (m, outs) :: processed log
  | .idle _ :: log => processed log

theorem processed_append : ∀ log more : List FenceEntry,
    processed (log ++ more) = processed log ++ processed more
  | [], _ => rfl
  | .message m outs :: log, more => by
    rw [List.cons_append, processed, processed, processed_append log, List.cons_append]
  | .idle _ :: log, more => by
    rw [List.cons_append, processed, processed, processed_append log]

/-! ## What the client is owed -/

/-- The response of a fence: its own payload, its flags cut down to the
supported ones. -/
def FenceMsg.response (f : FenceMsg) : FenceOut :=
  .fence (f.flags &&& (fenceFlagBlockBefore ||| fenceFlagBlockAfter ||| fenceFlagSyncNext))
    f.data

/-- The fence to be answered after the next message. -/
def ClientMsg.syncNext : ClientMsg → Option FenceMsg
  | .fence f => if f.isSyncNext then some f else none
  | .other _ => none

/-- What a message may have written itself: a fence its immediate response and
nothing else, other messages neither responses nor updates. -/
def ClientMsg.Own : ClientMsg → List FenceOut → Prop
  | .fence f, own =>
    own = if f.isRequest && !f.isSyncNext then [f.response] else []
  | .other _, own => ∀ o ∈ own, o ≠ .update ∧ o.isResponse = false

/-- **The fence contract.** `owed` is the fence to be answered after the next
message: directly after what that message wrote itself comes its response. -/
def Answered (owed : Option FenceMsg) : List (ClientMsg × List FenceOut) → Prop
  | [] => True
  | (m, outs) :: rest =>
    (∃ own, m.Own own ∧ outs = own ++ owed.toList.map FenceMsg.response) ∧
      Answered m.syncNext rest

/-- No fence that awaits the next message is followed by another such fence
with a different response. -/
def NotOverwritten (owed : Option FenceMsg) : List ClientMsg → Prop
  | [] => True
  | m :: rest =>
    (∀ f g, owed = some f → m.syncNext = some g → g.response = f.response) ∧
      NotOverwritten m.syncNext rest

/-! ## One message -/

namespace FenceState

theorem writeFence_eq_some {s : FenceState} {flags : BitVec 32} {data : FencePayload}
    {outs : List FenceOut} (h : s.writeFence flags data = some outs) :
    outs = [.fence flags data] := by
  unfold writeFence at h
  split at h
  · cases h
  split at h
  · cases h
  split at h
  · cases h
  · exact (Option.some.inj h).symm

/-- What the handling of a message does to the fence state. -/
structure Handles (s : FenceState) (m : ClientMsg) (s' : FenceState)
    (outs : List FenceOut) : Prop where
  own : m.Own outs
  sync : s'.syncFence = s.syncFence
  busy : s'.inProcessMessages = s.inProcessMessages
  keeps : m.syncNext = none → s'.pendingSyncFence = s.pendingSyncFence ∧
    s'.fenceFlags = s.fenceFlags ∧ s'.fenceData = s.fenceData
  saves : ∀ g, m.syncNext = some g → s'.pendingSyncFence = true ∧
    FenceOut.fence s'.fenceFlags s'.fenceData = g.response

theorem response_of_not_sync {f : FenceMsg} (h : f.flags &&& fenceFlagSyncNext = 0) :
    f.response =
      .fence (f.flags &&& (fenceFlagBlockBefore ||| fenceFlagBlockAfter)) f.data := by
  unfold FenceMsg.response
  rw [BitVec.and_or_distrib_left (z := fenceFlagSyncNext), h]
  exact congrArg (FenceOut.fence · f.data) BitVec.or_zero

theorem fence_handles {s s' : FenceState} {f : FenceMsg} {outs : List FenceOut}
    (h : s.fence f = some (s', outs)) : Handles s (.fence f) s' outs := by
  unfold fence at h
  split at h
  · rename_i hreq
    have hrequest : f.isRequest = true := decide_eq_true hreq
    split at h
    · rename_i hsync
      have hnext : f.isSyncNext = true := by
        rw [FenceMsg.isSyncNext, hrequest, Bool.true_and]
        exact decide_eq_true hsync
      obtain ⟨rfl, rfl⟩ := Prod.mk.inj (Option.some.inj h)
      refine ⟨?_, rfl, rfl, ?_, ?_⟩
      · simp [ClientMsg.Own, hnext]
      · simp [ClientMsg.syncNext, hnext]
      · intro g hg
        simp only [ClientMsg.syncNext, hnext, if_true, Option.some.injEq] at hg
        exact hg ▸ ⟨rfl, rfl⟩
    · rename_i hsync
      have hnext : f.isSyncNext = false := by
        rw [FenceMsg.isSyncNext, hrequest, Bool.true_and]
        exact decide_eq_false hsync
      obtain ⟨reply, hreply, hr⟩ := Option.map_eq_some_iff.mp h
      obtain ⟨rfl, rfl⟩ := Prod.mk.inj hr
      refine ⟨?_, rfl, rfl, fun _ => ⟨rfl, rfl, rfl⟩, ?_⟩
      · simp only [ClientMsg.Own, hrequest, hnext, Bool.not_false, Bool.and_self, if_true]
        rw [response_of_not_sync (not_not.mp hsync)]
        exact writeFence_eq_some hreply
      · simp [ClientMsg.syncNext, hnext]
  · rename_i hreq
    have hrequest : f.isRequest = false := decide_eq_false hreq
    have hnext : f.isSyncNext = false := by
      rw [FenceMsg.isSyncNext, hrequest, Bool.false_and]
    obtain ⟨rfl, rfl⟩ := Prod.mk.inj (Option.some.inj h)
    refine ⟨?_, rfl, rfl, fun _ => ⟨rfl, rfl, rfl⟩, ?_⟩
    · simp [ClientMsg.Own, hrequest]
    · simp [ClientMsg.syncNext, hnext]

/-- While messages are processed, other handlers write no updates. -/
theorem act_handles {s s' : FenceState} {a : HandlerAct} {outs : List FenceOut}
    (hbusy : s.inProcessMessages = true) (h : s.act a = some (s', outs)) :
    s' = { s with supportsFence := s'.supportsFence } ∧
      ∀ o ∈ outs, o ≠ .update ∧ o.isResponse = false := by
  cases a with
  | write =>
    obtain ⟨rfl, rfl⟩ := Prod.mk.inj (Option.some.inj h)
    exact ⟨rfl, by simp [FenceOut.isResponse]⟩
  | announceFence =>
    simp only [act] at h
    split at h
    · obtain ⟨rfl, rfl⟩ := Prod.mk.inj (Option.some.inj h)
      exact ⟨rfl, by simp⟩
    · obtain ⟨reply, hreply, hr⟩ := Option.map_eq_some_iff.mp h
      obtain ⟨rfl, rfl⟩ := Prod.mk.inj hr
      rw [writeFence_eq_some hreply]
      exact ⟨rfl, by simp [FenceOut.isResponse]⟩
  | tryUpdate ready =>
    obtain ⟨rfl, rfl⟩ := Prod.mk.inj (Option.some.inj h)
    exact ⟨rfl, by simp [writeFramebufferUpdate, hbusy]⟩
  | throw => cases h

theorem acts_handles : ∀ {as : List HandlerAct} {s s' : FenceState}
    {outs : List FenceOut}, s.inProcessMessages = true → s.acts as = some (s', outs) →
    s' = { s with supportsFence := s'.supportsFence } ∧
      ∀ o ∈ outs, o ≠ .update ∧ o.isResponse = false
  | [], s, s', outs, _, h => by
    obtain ⟨rfl, rfl⟩ := Prod.mk.inj (Option.some.inj h)
    exact ⟨rfl, by simp⟩
  | a :: as, s, s', outs, hbusy, h => by
    obtain ⟨⟨t, first⟩, hact, h⟩ := Option.bind_eq_some_iff.mp h
    obtain ⟨⟨u, more⟩, hacts, h⟩ := Option.bind_eq_some_iff.mp h
    obtain ⟨rfl, rfl⟩ := Prod.mk.inj (Option.some.inj h)
    obtain ⟨ht, hfirst⟩ := act_handles hbusy hact
    obtain ⟨hu, hmore⟩ := acts_handles (by rw [ht]; exact hbusy) hacts
    refine ⟨by rw [hu, ht], fun o ho => ?_⟩
    rcases List.mem_append.mp ho with ho | ho
    · exact hfirst o ho
    · exact hmore o ho

theorem processMsg_handles {s s' : FenceState} {m : ClientMsg} {outs : List FenceOut}
    (hbusy : s.inProcessMessages = true) (h : s.processMsg m = some (s', outs)) :
    Handles s m s' outs := by
  cases m with
  | fence f => exact fence_handles h
  | other as =>
    obtain ⟨hs, houts⟩ := acts_handles hbusy h
    rw [hs]
    exact ⟨houts, rfl, rfl, fun _ => ⟨rfl, rfl, rfl⟩, fun g hg => by cases hg⟩

/-- Between messages: the saved response is that of the fence owed. -/
structure Owes (s : FenceState) (owed : Option FenceMsg) : Prop where
  pending : s.pendingSyncFence = owed.isSome
  sync : s.syncFence = false
  saved : ∀ f, owed = some f → FenceOut.fence s.fenceFlags s.fenceData = f.response

/-- A response is written for the fence owed, but with the payload of the
message just processed if that is such a fence itself. -/
theorem processNext_owes {s s' : FenceState} {m : ClientMsg} {outs : List FenceOut}
    {owed : Option FenceMsg} (hbusy : s.inProcessMessages = true) (howes : Owes s owed)
    (h : s.processNext m = some (s', outs)) :
    s'.inProcessMessages = true ∧ Owes s' m.syncNext ∧
      ∃ own, m.Own own ∧ outs = own ++
        owed.toList.map fun f => (m.syncNext.getD f).response := by
  unfold processNext at h
  obtain ⟨⟨t, own⟩, hmsg, h⟩ := Option.bind_eq_some_iff.mp h
  cases owed with
  | none =>
    simp only [howes.pending, Option.isSome_none, Bool.false_eq_true, if_false] at hmsg
    have hm := processMsg_handles hbusy hmsg
    simp only [hm.sync, howes.sync, Bool.false_eq_true, if_false] at h
    obtain ⟨rfl, rfl⟩ := Prod.mk.inj (Option.some.inj h)
    refine ⟨hm.busy.trans hbusy, ⟨?_, hm.sync.trans howes.sync, ?_⟩, own, hm.own, by simp⟩
    · cases hnext : m.syncNext with
      | none => exact (hm.keeps hnext).1.trans howes.pending
      | some g => exact (hm.saves g hnext).1
    · exact fun g hg => (hm.saves g hg).2
  | some f =>
    simp only [howes.pending, Option.isSome_some, if_true] at hmsg
    have hm := processMsg_handles
      (s := { s with syncFence := true, pendingSyncFence := false }) hbusy hmsg
    simp only [hm.sync, if_true] at h
    obtain ⟨reply, hreply, h⟩ := Option.bind_eq_some_iff.mp h
    obtain ⟨rfl, rfl⟩ := Prod.mk.inj (Option.some.inj h)
    refine ⟨hm.busy.trans hbusy, ⟨?_, rfl, ?_⟩, own, hm.own, ?_⟩
    · cases hnext : m.syncNext with
      | none => exact (hm.keeps hnext).1
      | some g => exact (hm.saves g hnext).1
    · exact fun g hg => (hm.saves g hg).2
    · rw [writeFence_eq_some hreply]
      cases hnext : m.syncNext with
      | none =>
        obtain ⟨-, hflags, hdata⟩ := hm.keeps hnext
        rw [hflags, hdata, howes.saved f rfl]
        rfl
      | some g =>
        rw [(hm.saves g hnext).2]
        rfl

end FenceState

/-! ## Whole sessions -/

/-- What the connection writes: like `Answered`, but a fence that awaits the
next message takes over the response owed for the one before. -/
def Replied (owed : Option FenceMsg) : List (ClientMsg × List FenceOut) → Prop
  | [] => True
  | (m, outs) :: rest =>
    (∃ own, m.Own own ∧
      outs = own ++ owed.toList.map fun f => (m.syncNext.getD f).response) ∧
      Replied m.syncNext rest

/-- The fence owed after some messages. -/
def owedAfter (owed : Option FenceMsg) (ms : List ClientMsg) : Option FenceMsg :=
  ms.foldl (fun _ m => m.syncNext) owed

theorem replied_append : ∀ {log more : List (ClientMsg × List FenceOut)}
    {owed : Option FenceMsg}, Replied owed log →
    Replied (owedAfter owed (log.map Prod.fst)) more → Replied owed (log ++ more)
  | [], _, _, _, hmore => hmore
  | (_, _) :: _, _, _, hlog, hmore => ⟨hlog.1, replied_append hlog.2 hmore⟩

namespace FenceState

theorem loop_replied : ∀ {ms : List ClientMsg} {s : FenceState} {owed : Option FenceMsg},
    s.inProcessMessages = true → Owes s owed →
    Replied owed (processed (s.loop ms).1) ∧
      ∀ s', (s.loop ms).2 = some s' →
        Owes s' (owedAfter owed ((processed (s.loop ms).1).map Prod.fst))
  | [], s, owed, _, howes => by
    refine ⟨trivial, fun s' hs' => ?_⟩
    cases hs'
    exact howes
  | m :: ms, s, owed, hbusy, howes => by
    rw [loop]
    cases hnext : s.processNext m with
    | none => exact ⟨trivial, fun s' hs' => by cases hs'⟩
    | some r =>
      obtain ⟨t, outs⟩ := r
      obtain ⟨hbusy', howes', hown⟩ := processNext_owes hbusy howes hnext
      obtain ⟨hlog, hend⟩ := @loop_replied ms _ _ hbusy' howes'
      exact ⟨⟨hown, hlog⟩, hend⟩

theorem processMessages_replied {s : FenceState} {owed : Option FenceMsg}
    (howes : Owes s owed) (ms : List ClientMsg) (ready : Bool) :
    Replied owed (processed (s.processMessages ms ready).1) ∧
      ∀ s', (s.processMessages ms ready).2 = some s' →
        Owes s' (owedAfter owed
          ((processed (s.processMessages ms ready).1).map Prod.fst)) := by
  have hloop := @loop_replied ms { s with inProcessMessages := true } owed rfl
    ⟨howes.pending, howes.sync, howes.saved⟩
  unfold processMessages
  rcases hl : loop { s with inProcessMessages := true } ms with ⟨log, _ | t⟩
  · rw [hl] at hloop
    exact ⟨hloop.1, fun s' hs' => by cases hs'⟩
  · rw [hl] at hloop
    have ht := hloop.2 t rfl
    simp only [processed_append, processed, List.append_nil]
    refine ⟨hloop.1, fun s' hs' => ?_⟩
    cases hs'
    exact ⟨ht.pending, ht.sync, ht.saved⟩

end FenceState

theorem fenceSession_replied : ∀ {es : List ConnEvent} {s : FenceState}
    {owed : Option FenceMsg}, s.Owes owed → Replied owed (processed (fenceSession s es))
  | [], _, _, _ => trivial
  | .batch ms ready :: es, s, owed, howes => by
    have hbatch := FenceState.processMessages_replied howes ms ready
    rw [fenceSession]
    rcases hp : s.processMessages ms ready with ⟨log, _ | t⟩
    · rw [hp] at hbatch
      exact hbatch.1
    · rw [hp] at hbatch
      rw [processed_append]
      exact replied_append hbatch.1 (fenceSession_replied (hbatch.2 t rfl))
  | .attempt ready :: es, s, owed, howes => @fenceSession_replied es _ _ howes

/-- What is written meets the contract exactly when nothing is overwritten. -/
theorem answered_iff_of_replied : ∀ {log : List (ClientMsg × List FenceOut)}
    {owed : Option FenceMsg}, Replied owed log →
    (Answered owed log ↔ NotOverwritten owed (log.map Prod.fst))
  | [], _, _ => Iff.rfl
  | (m, outs) :: rest, owed, h => by
    obtain ⟨⟨own, hown, houts⟩, hrest⟩ := h
    refine and_congr ?_ (answered_iff_of_replied hrest)
    constructor
    · rintro ⟨own', -, houts'⟩ f g rfl hg
      have hsame : own ++ [g.response] = own' ++ [f.response] := by
        simpa [hg] using houts.symm.trans houts'
      simpa using (List.append_inj' hsame rfl).2
    · intro hkept
      refine ⟨own, hown, houts.trans ?_⟩
      cases owed with
      | none => rfl
      | some f =>
        cases hnext : m.syncNext with
        | none => rfl
        | some g => simp [hkept f g rfl hnext]

/-! ## The contract is one to one -/

/-- The fences among the messages that ask for a response. -/
def fenceRequests (ms : List ClientMsg) : List FenceMsg :=
  ms.filterMap fun
    | .fence f => if f.isRequest then some f else none
    | .other _ => none

def fenceResponses (outs : List FenceOut) : List FenceOut :=
  outs.filter FenceOut.isResponse

theorem FenceMsg.response_isResponse (f : FenceMsg) : f.response.isResponse = true := by
  refine decide_eq_true ?_
  rw [BitVec.and_assoc]
  have : (fenceFlagBlockBefore ||| fenceFlagBlockAfter ||| fenceFlagSyncNext) &&&
      fenceFlagRequest = 0 := by decide
  rw [this]
  exact BitVec.and_zero

theorem fenceResponses_map_response (fs : List FenceMsg) :
    fenceResponses (fs.map FenceMsg.response) = fs.map FenceMsg.response :=
  List.filter_eq_self.mpr fun o ho => by
    obtain ⟨f, -, rfl⟩ := List.mem_map.mp ho
    exact f.response_isResponse

/-- The responses a message wrote itself, and the one it leaves owed, are those
of the message if it is a request. -/
theorem ClientMsg.own_responses {m : ClientMsg} {own : List FenceOut} (h : m.Own own) :
    fenceResponses own ++ m.syncNext.toList.map FenceMsg.response =
      (fenceRequests [m]).map FenceMsg.response := by
  cases m with
  | fence f =>
    rw [h]
    unfold ClientMsg.syncNext FenceMsg.isSyncNext
    cases hreq : f.isRequest <;>
      cases hsync : (f.flags &&& fenceFlagSyncNext != 0) <;>
      simp_all [fenceRequests, fenceResponses, FenceMsg.response_isResponse]
  | other as =>
    have hnone : fenceResponses own = [] :=
      List.filter_eq_nil_iff.mpr fun o ho => by simp [(h o ho).2]
    simp [hnone, ClientMsg.syncNext, fenceRequests]

/-- Under the contract the responses written are, up to order, those of the
fences that asked for one, except the one still owed at the end. -/
theorem answered_perm : ∀ {log : List (ClientMsg × List FenceOut)}
    {owed : Option FenceMsg}, Answered owed log →
    (fenceResponses (log.flatMap Prod.snd) ++
      (owedAfter owed (log.map Prod.fst)).toList.map FenceMsg.response).Perm
    ((owed.toList ++ fenceRequests (log.map Prod.fst)).map FenceMsg.response)
  | [], owed, _ => by simp [fenceResponses, owedAfter, fenceRequests]
  | (m, outs) :: rest, owed, h => by
    obtain ⟨⟨own, hown, rfl⟩, hrest⟩ := h
    have ih := answered_perm hrest
    have hm := ClientMsg.own_responses hown
    have hsplit : fenceRequests (m :: rest.map Prod.fst) =
        fenceRequests [m] ++ fenceRequests (rest.map Prod.fst) :=
      List.filterMap_append (l := [m])
    have howed := fenceResponses_map_response owed.toList
    unfold fenceResponses at ih hm howed ⊢
    simp only [List.flatMap_cons, List.map_cons, List.filter_append, List.append_assoc,
      List.map_append, hsplit, ← hm, howed, owedAfter, List.foldl_cons] at ih ⊢
    exact ((ih.append_left _).append_left _).trans (List.perm_append_comm_assoc _ _ _)

/-- **Fence responses.** In every session the fence contract is met exactly when
no fence awaiting the next message is followed by another such fence that asks
for a different response; then responses and requests match one to one. -/
theorem fences_answered_iff (es : List ConnEvent) :
    let log := processed (fenceSession FenceState.init es)
    let ms := log.map Prod.fst
    (Answered none log ↔ NotOverwritten none ms) ∧
    (NotOverwritten none ms →
      (fenceResponses (log.flatMap Prod.snd) ++
        (owedAfter none ms).toList.map FenceMsg.response).Perm
      ((fenceRequests ms).map FenceMsg.response)) := by
  intro log ms
  have hiff : Answered none log ↔ NotOverwritten none ms :=
    answered_iff_of_replied (fenceSession_replied ⟨rfl, rfl, nofun⟩)
  exact ⟨hiff, fun hkept => answered_perm (hiff.mpr hkept)⟩

/-- Two fences with `SyncNext` in a row: the second one's payload is sent twice. -/
theorem sync_fence_overwritten :
    ¬ ∀ es : List ConnEvent, Answered none (processed (fenceSession FenceState.init es)) := by
  intro h
  obtain ⟨-, -, ⟨own, hown, houts⟩, -⟩ := h [.batch
    [.other [.announceFence],
      .fence ⟨fenceFlagRequest ||| fenceFlagSyncNext, ⟨[1], by decide⟩⟩,
      .fence ⟨fenceFlagRequest ||| fenceFlagSyncNext, ⟨[2], by decide⟩⟩,
      .other [.write]] true]
  rw [hown] at houts
  revert houts
  decide

end KasmVNC.Rfb
