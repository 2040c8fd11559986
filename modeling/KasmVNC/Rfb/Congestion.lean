import KasmVNC.Lib.Checked

/-!
# Congestion control

The transport is measured with pings: a ping records the stream position, and when
its pong arrives everything up to that position has made it through. The window is
adjusted by the latency that three pongs have seen (TCP Vegas). All arithmetic is on
32-bit words that wrap around. A clock reading is an argument of the function that
takes it.
-/

namespace KasmVNC.Rfb

open KasmVNC.Lib

/-- `struct timeval` -/
structure Timeval where
  sec : ℕ
  usec : ℕ
deriving DecidableEq

/-- The difference of the seconds is truncated to a word. -/
def msBetween (first second : Timeval) : UInt32 :=
  (UInt32.ofNat second.sec - UInt32.ofNat first.sec) * 1000 +
    UInt32.ofNat (second.usec / 1000) - UInt32.ofNat (first.usec / 1000)

def isBefore (first second : Timeval) : Bool :=
  first.sec < second.sec || first.sec = second.sec && first.usec < second.usec

abbrev INITIAL_WINDOW : UInt32 := 16384

abbrev MINIMUM_WINDOW : UInt32 := 4096

abbrev MAXIMUM_WINDOW : UInt32 := 4194304

/-- `(unsigned)-1`: not measured yet -/
abbrev unmeasured : UInt32 := 0xFFFFFFFF

/-- Compare position even when wrapped around -/
def isAfter (a b : UInt32) : Bool := a ≠ b && a - b ≤ 0xFFFFFFFF / 2

structure RTTInfo where
  tv : Timeval
  pos : UInt32
  extra : UInt32
  congested : Bool
deriving DecidableEq

structure Congestion where
  lastPosition : UInt32
  extraBuffer : UInt32
  lastUpdate : Timeval
  lastSent : Timeval
  baseRTT : UInt32
  congWindow : UInt32
  inSlowStart : Bool
  safeBaseRTT : UInt32
  pings : List RTTInfo
  lastPong : RTTInfo
  lastPongArrival : Timeval
  measurements : ℕ
  lastAdjustment : Timeval
  minRTT : UInt32
  minCongestedRTT : UInt32
deriving DecidableEq

namespace Congestion

/-- The constructor reads the clock four times. -/
def init (updated sent arrived adjusted : Timeval) : Congestion where
  lastPosition := 0
  extraBuffer := 0
  lastUpdate := updated
  lastSent := sent
  baseRTT := unmeasured
  congWindow := INITIAL_WINDOW
  inSlowStart := true
  safeBaseRTT := unmeasured
  pings := []
  lastPong := ⟨⟨0, 0⟩, 0, 0, false⟩
  lastPongArrival := arrived
  measurements := 0
  lastAdjustment := adjusted
  minRTT := unmeasured
  minCongestedRTT := unmeasured

/-- The delay that the extra buffering of a ping causes. -/
def bufferDelay (c : Congestion) (extra : UInt32) : Except Fault UInt32 :=
  divide (extra * c.baseRTT) c.congWindow

/-! ## Positions -/

/-- Close congestion window and redo wire latency measurement -/
def resetIdle (c : Congestion) (adjusted : Timeval) : Congestion :=
  { c with
    congWindow := if INITIAL_WINDOW < c.congWindow then INITIAL_WINDOW else c.congWindow
    baseRTT := unmeasured
    measurements := 0
    lastAdjustment := adjusted
    minRTT := unmeasured
    minCongestedRTT := unmeasured
    inSlowStart := true }

/-- Estimate the overbuffering, once there is a measurement. -/
def estimateBuffer (c : Congestion) (delta : UInt32) (now : Timeval) :
    Except Fault Congestion :=
  if c.baseRTT ≠ unmeasured then do
    let extraBuffer := c.extraBuffer + delta
    let consumed ← divide (msBetween c.lastUpdate now * c.congWindow) c.baseRTT
    .ok { c with
      extraBuffer := if extraBuffer < consumed then 0 else extraBuffer - consumed }
  else .ok c

def updatePosition (c : Congestion) (pos : UInt32) (now adjusted : Timeval) :
    Except Fault Congestion := do
  let delta := pos - c.lastPosition
  let c := if delta > 0 || c.extraBuffer > 0 then { c with lastSent := now } else c
  -- Idle for too long?
  let c := if msBetween c.lastSent now > max (c.baseRTT * 2) 100 then c.resetIdle adjusted else c
  let c ← c.estimateBuffer delta now
  .ok { c with lastPosition := pos, lastUpdate := now }

/-! ## Queries -/

def getExtraBuffer (c : Congestion) (now : Timeval) : Except Fault UInt32 :=
  if c.baseRTT = unmeasured then .ok 0
  else do
    let consumed ← divide (msBetween c.lastUpdate now * c.congWindow) c.baseRTT
    .ok (if consumed ≥ c.extraBuffer then 0 else c.extraBuffer - consumed)

/-- A ping just after the last position update, where none is on its way. -/
def pretendedPing (c : Congestion) : RTTInfo :=
  ⟨c.lastUpdate, c.lastPosition, c.extraBuffer, false⟩

/-- The time between two pings, compensated for buffering delays. -/
def etaBetween (c : Congestion) (prev next : RTTInfo) : Except Fault UInt32 := do
  let delayNext ← c.bufferDelay next.extra
  let etaNext := msBetween prev.tv next.tv + delayNext
  let delay ← c.bufferDelay prev.extra
  .ok (if delay ≥ etaNext then 0 else etaNext - delay)

/-- How many bytes have not arrived yet, interpolated between the last pong and the
next one. -/
def getInFlight (c : Congestion) (now : Timeval) : Except Fault UInt32 :=
  if c.lastPosition = c.lastPong.pos then .ok 0
  else if c.baseRTT = unmeasured then
    match c.pings with
    | [] => .ok 0
    | ping :: _ => .ok (c.lastPosition - ping.pos)
  else do
    let nextPong := c.pings.headD c.pretendedPing
    let etaNext ← c.etaBetween c.lastPong nextPong
    let elapsed := msBetween c.lastPongArrival now
    -- The pong should be here any second
    if etaNext ≤ elapsed then .ok (c.lastPosition - nextPong.pos)
    else do
      let acked ← divide ((nextPong.pos - c.lastPong.pos) * elapsed) etaNext
      .ok (c.lastPosition - (c.lastPong.pos + acked))

def isCongested (c : Congestion) (now : Timeval) : Except Fault Bool := do
  let inFlight ← c.getInFlight now
  .ok (inFlight ≥ c.congWindow)

/-- Walk the ping queue and figure out which ping clears the congested state; after
the last one comes the pretended one. -/
def walkPings (c : Congestion) (targetAcked elapsed : UInt32) :
    RTTInfo → UInt32 → List RTTInfo → Except Fault UInt32
  | prevPing, eta, pings => do
      let curPing := pings.headD c.pretendedPing
      let etaNext ← c.etaBetween prevPing curPing
      if isAfter curPing.pos targetAcked then do
        let part ← divide (etaNext * (curPing.pos - targetAcked)) (curPing.pos - prevPing.pos)
        let eta := eta + part
        .ok (if elapsed > eta then 0 else eta - elapsed)
      else
        match pings with
        -- assert(iter != pings.end())
        | [] => .error .assertion
        | ping :: rest => c.walkPings targetAcked elapsed ping (eta + etaNext) rest

/-- The number of milliseconds until the transport is no longer congested, `-1` if
that is unknown. The words are converted to `int`. -/
def getUncongestedETA (c : Congestion) (now : Timeval) : Except Fault Int32 :=
  let targetAcked := c.lastPosition - c.congWindow
  if isAfter c.lastPong.pos targetAcked then .ok 0
  else if c.baseRTT = unmeasured then .ok (-1)
  else do
    let eta ← c.walkPings targetAcked (msBetween c.lastPongArrival now) c.lastPong 0 c.pings
    .ok eta.toInt32

/-- Without a measurement, guess an RTT of 60 ms. -/
def getBandwidth (c : Congestion) : Except Fault UInt32 :=
  if c.safeBaseRTT = unmeasured then divide (c.congWindow * 1000) 60
  else divide (c.congWindow * 1000) c.safeBaseRTT

/-! ## Pings and pongs -/

def sentPing (c : Congestion) (tv extraRead congestedRead : Timeval) :
    Except Fault Congestion := do
  let extra ← c.getExtraBuffer extraRead
  let congested ← c.isCongested congestedRead
  .ok { c with pings := c.pings ++ [⟨tv, c.lastPosition, extra, congested⟩] }

/-- The window and the mode that `updateCongestion` works on. -/
abbrev Window := UInt32 × Bool

/-- How much the latency has risen above that of the wire. -/
def addedRTT (c : Congestion) : UInt32 := c.minRTT - c.baseRTT

/-- Massive latency is taken for packet loss. -/
def latencySpike (c : Congestion) : Bool := c.addedRTT > max 100 (c.baseRTT / 2)

/-- Scale the window to what the wire can take and leave slow start. -/
def backOff (c : Congestion) (window : UInt32) : Except Fault Window := do
  let window ← divide (window * c.baseRTT) c.minRTT
  .ok (window, false)

/-- Adjust the window after a spike and go directly to congestion avoidance. -/
def checkSpike (c : Congestion) : Except Fault Window :=
  if c.latencySpike then c.backOff c.congWindow else .ok (c.congWindow, c.inSlowStart)

/-- Slow start. Aggressive growth until we see congestion. -/
def slowStart (c : Congestion) (window : UInt32) : Except Fault Window :=
  if c.addedRTT > 25 then c.backOff window
  else
    -- It's not safe to increase unless we actually used the entire congestion window
    .ok (if c.minCongestedRTT - c.baseRTT < 25 then window * 2 else window, true)

/-- Congestion avoidance (VEGAS) -/
def avoidCongestion (c : Congestion) (window : UInt32) : UInt32 :=
  if c.addedRTT > 50 then window - 4096
  else
    let diff := c.minCongestedRTT - c.baseRTT
    if diff < 5 then window + 8192
    else if diff < 25 then window + 4096
    else window

def adjustWindow (c : Congestion) (w : Window) : Except Fault Window :=
  if w.2 then c.slowStart w.1 else .ok (c.avoidCongestion w.1, false)

def clampWindow (window : UInt32) : UInt32 :=
  let window := if window < MINIMUM_WINDOW then MINIMUM_WINDOW else window
  if window > MAXIMUM_WINDOW then MAXIMUM_WINDOW else window

def updateCongestion (c : Congestion) (adjusted : Timeval) : Except Fault Congestion :=
  -- We want at least three measurements to avoid noise
  if c.measurements < 3 then .ok c
  else do
    require (c.minRTT ≥ c.baseRTT)
    require (c.minCongestedRTT ≥ c.baseRTT)
    let w ← c.checkSpike
    let w ← c.adjustWindow w
    .ok { c with
      congWindow := clampWindow w.1
      inSlowStart := w.2
      measurements := 0
      lastAdjustment := adjusted
      minRTT := unmeasured
      minCongestedRTT := unmeasured }

/-- The pong of the first ping has arrived: the state, and the round trip time. -/
def popPong (c : Congestion) (ping : RTTInfo) (rest : List RTTInfo) (now : Timeval) :
    Congestion × UInt32 :=
  let rtt := max (msBetween ping.tv now) 1
  ({ c with
      pings := rest
      lastPong := ping
      lastPongArrival := now
      baseRTT := if rtt < c.baseRTT then rtt else c.baseRTT
      safeBaseRTT := if rtt < c.baseRTT then rtt else c.safeBaseRTT }, rtt)

/-- The latency without the delay of overtaxed buffers, but no less than that of the
wire. -/
def wireRTT (c : Congestion) (ping : RTTInfo) (rtt : UInt32) : Except Fault UInt32 := do
  let delay ← c.bufferDelay ping.extra
  let rtt := if delay < rtt then rtt - delay else 1
  .ok (if rtt < c.baseRTT then c.baseRTT else rtt)

/-- Record the minimum seen delay. -/
def measure (c : Congestion) (ping : RTTInfo) (rtt : UInt32) : Congestion :=
  { c with
    minRTT := if rtt < c.minRTT then rtt else c.minRTT
    minCongestedRTT :=
      if ping.congested && rtt < c.minCongestedRTT then rtt else c.minCongestedRTT
    measurements := c.measurements + 1 }

/-- What `gotPong` has done when it calls `updateCongestion`, if it does: pings sent
before the last adjustment aren't interesting. -/
def recordPong (c : Congestion) (now : Timeval) : Except Fault (Congestion × Bool) :=
  match c.pings with
  | [] => .ok (c, false)
  | ping :: rest =>
    let c' := c.popPong ping rest now
    if isBefore ping.tv c.lastAdjustment then .ok (c'.1, false)
    else do
      let rtt ← c'.1.wireRTT ping c'.2
      .ok (c'.1.measure ping rtt, true)

def gotPong (c : Congestion) (now adjusted : Timeval) : Except Fault Congestion := do
  let recorded ← c.recordPong now
  if recorded.2 then recorded.1.updateCongestion adjusted else .ok recorded.1

end Congestion

end KasmVNC.Rfb
