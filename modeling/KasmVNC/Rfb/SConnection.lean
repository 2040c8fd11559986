import KasmVNC.Lib.Actions
import KasmVNC.Lib.Text

/-!
# The handshake

A connection of the server goes from the protocol version over the security type to
authentication, approval and initialisation. Messages of the client and calls of the server
change its state, and an exception closes it. What a security type does with its messages, what
messages do after the handshake and what the rest of the server is like are parameters.

Two kinds of entries of the log are of no use to the code: the types that were offered, which
it also writes, and what the security object has said. GnuTLS is compiled in. Exceptions are those
of `rdr`, the only ones that are caught.
-/

namespace KasmVNC.Rfb

open KasmVNC.Lib

/-! ## Versions -/

def isspace (b : Byte) : Bool := b = 0x20 ∨ 0x09 ≤ b ∧ b ≤ 0x0D

def isdigit (b : Byte) : Bool := 0x30 ≤ b ∧ b ≤ 0x39

/-- What `%d` of `sscanf` makes of a field of the given width, and what is left. -/
def scanInt (width : ℕ) (s : List Byte) : Option (ℤ × List Byte) :=
  let s := s.dropWhile isspace
  let sign := if s.head? = some 0x2D ∨ s.head? = some 0x2B then 1 else 0
  let digits := ((s.take width).drop sign).takeWhile isdigit
  let value := digits.foldl (fun n d => 10 * n + (d.toNat - 0x30 : ℕ)) 0
  if digits = [] then none
  else some (if s.head? = some 0x2D then -value else value, s.drop (sign + digits.length))

/-- `sscanf(verStr, "RFB %03d.%03d\n", ..)`: the numbers it finds. -/
def scanVersion (verStr : List Byte) : List ℤ :=
  let s := verStr.takeWhile (· ≠ 0)
  if (ascii "RFB").isPrefixOf s then
    match scanInt 3 ((s.drop 3).dropWhile isspace) with
    | none => []
    | some (major, rest) =>
      match rest with
      | 0x2E :: rest => major :: ((scanInt 3 rest).map Prod.fst).toList
      | _ => [major]
  else []

/-! ## Security types -/

abbrev secTypeNone : BitVec 32 := 1

abbrev secTypeVncAuth : BitVec 32 := 2

abbrev secTypeVeNCrypt : BitVec 32 := 19

/-- The types `GetSSecurity` has a class for: the two above, VeNCrypt, Plain and the six that
go on with TLS. -/
def implementedSecTypes : List (BitVec 32) :=
  [secTypeNone, secTypeVncAuth, secTypeVeNCrypt, 256, 257, 258, 259, 260, 261, 262]

/-- What `SSecurity::processMsg` does: it says whether it is done, having read and written
something, or it throws. -/
inductive SecurityResult (σ : Type)
  | said (done : Bool) (object : σ) (input written : List Byte)
  | authFailure (reason : Option String) (written : List Byte)
  | exception (text : String)

/-- The configuration of the server, and the security classes. -/
structure SecurityServer (σ : Type) where
  protocol3_3 : Bool
  enabledSecTypes : List (BitVec 32)
  create : BitVec 32 → σ
  getType : σ → BitVec 32
  processMsg : σ → List Byte → SecurityResult σ

namespace SecurityServer

variable {σ : Type} (security : SecurityServer σ)

def GetEnabledSecTypes : List Byte :=
  (if security.enabledSecTypes.any (0x100 ≤ ·) then [secTypeVeNCrypt.setWidth 8] else []) ++
    (security.enabledSecTypes.filter (· < 0x100)).map (·.setWidth 8)

def IsSupported (secType : BitVec 32) : Bool :=
  secType ∈ security.enabledSecTypes ∨ secType = secTypeVeNCrypt

def GetSSecurity (secType : BitVec 32) : Option σ :=
  if security.IsSupported secType ∧ secType ∈ implementedSecTypes then
    some (security.create secType)
  else none

end SecurityServer

/-! ## Connections -/

inductive StateEnum
  | uninitialised
  | protocolVersion
  | securityType
  | security
  | querying
  | initialisation
  | normal
  | closing
  | invalid
deriving DecidableEq

def StateEnum.authenticated (s : StateEnum) : Bool := s = .initialisation ∨ s = .normal

/-- What a connection does. -/
inductive SAction
  | writes (bytes : List Byte)
  | offers (secTypes : List Byte)
  | processed (secType : Byte) (done : Bool)
  | approves (accept : Bool)
  | state (s : StateEnum)
deriving DecidableEq

inductive SException
  | endOfStream
  | authFailure (reason : Option String)
  | connFailed (reason : String)
  | other (text : String)
deriving DecidableEq

namespace SException

def str : SException → String
  | endOfStream => "End of stream"
  | authFailure none => "Authentication failure"
  | authFailure (some reason) => "Authentication failure: " ++ reason
  | connFailed reason => "Connection failed: " ++ reason
  | other text => text

end SException

/-- The members of `SConnection` and `VNCSConnectionST` that the handshake depends on, with
what there is to read. The security object comes with the type it was made for. -/
structure SConn (σ : Type) where
  state : StateEnum
  majorVersion : ℤ
  minorVersion : ℤ
  verStr : List Byte
  ssecurity : Option (Byte × σ)
  input : List Byte
  closeReason : Option String
  log : List SAction

/-- What `queryConnection`, `authSuccess` and `clientInit` find in the rest of the server. The
number of clients is that of the others. -/
structure ServerEnv where
  neverShared : Bool
  alwaysShared : Bool
  disconnectClients : Bool
  reverseConnection : Bool
  queryConnect : Bool
  requiresQuery : Bool
  accessNoQuery : Bool
  accessNonShared : Bool
  authClientCount : ℕ
  /-- What `VNCServerST::queryConnection` answers: nothing yet, or whether to accept. -/
  query : Option Bool
  queryReason : Option String
  /-- What `startDesktop` throws. -/
  startDesktop : Option SException
  serverInit : List Byte

/-- What a message after the handshake, or an update, does to the connection. -/
inductive Outcome
  | done
  | closes (reason : String)
  | throws (e : SException)

namespace SConn

variable {σ : Type} (security : SecurityServer σ) (env : ServerEnv) (c : SConn σ)

abbrev Step (σ : Type) := Throwing (SConn σ) SException

def act (a : SAction) : SConn σ := { c with log := c.log ++ [a] }

def write (bytes : List Byte) : SConn σ := c.act (.writes bytes)

def setState (s : StateEnum) : SConn σ := { c.act (.state s) with state := s }

def throw (e : SException) : Step σ := .error (c, e)

def beforeVersion (major minor : ℤ) : Bool :=
  c.majorVersion < major ∨ c.majorVersion = major ∧ c.minorVersion < minor

def isVersion (major minor : ℤ) : Bool := c.majorVersion = major ∧ c.minorVersion = minor

def version : String := s!"{c.majorVersion}.{c.minorVersion}"

/-- `OutStream::writeString` -/
def stringBytes (s : String) : List Byte := be32 (BitVec.ofNat 32 (ascii s).length) ++ ascii s

abbrev secResultOK : BitVec 32 := 0

abbrev secResultFailed : BitVec 32 := 1

/-- `VNCSConnectionST::close` -/
def close (reason : String) : SConn σ :=
  let c := { c with closeReason := some (c.closeReason.getD reason) }
  if c.state = .closing then c else c.setState .closing

/-! ### Approval -/

/-- `VNCSConnectionST::authSuccess` -/
def authSuccess : Step σ :=
  match env.startDesktop with
  | some e => c.throw e
  | none => .ok c

/-- The answer `approveConnection` sends. -/
def secResult (accept : Bool) (reason : Option String) : List Byte :=
  if accept then be32 secResultOK
  else be32 secResultFailed ++
    if !c.beforeVersion 3 8 then stringBytes (reason.getD "Authentication failure") else []

def approveConnection (accept : Bool) (reason : Option String) : Step σ :=
  let c := c.act (.approves accept)
  if c.state ≠ .querying then
    c.throw (.other "SConnection::approveConnection: invalid state")
  else
    let answers := !c.beforeVersion 3 8 ||
      c.ssecurity.any fun s => security.getType s.2 ≠ secTypeNone
    let c := if answers then c.write (c.secResult accept reason) else c
    if accept then (c.setState .initialisation).authSuccess env
    else (c.setState .invalid).throw (.authFailure reason)

/-- `VNCSConnectionST::queryConnection` -/
def queryConnection : Step σ :=
  if env.neverShared && !env.disconnectClients && env.authClientCount > 0 then
    c.approveConnection security env false (some "The server is already in use")
  else if env.reverseConnection || !(env.queryConnect || env.requiresQuery) ||
      env.accessNoQuery then
    c.approveConnection security env true none
  else
    match env.query with
    | none => .ok c
    | some accept => c.approveConnection security env accept env.queryReason

/-! ### Security -/

/-- The handler in `processSecurityMsg`. -/
def writeAuthFailure (c : SConn σ) (e : SException) : Step σ :=
  match e with
  | .authFailure _ =>
    let message := if !c.beforeVersion 3 8 then stringBytes e.str else []
    (c.write (be32 secResultFailed ++ message)).throw e
  | _ => c.throw e

/-- There is a security object in the states this is called in. -/
def processSecurityMsg : Step σ :=
  match c.ssecurity with
  | none => c.throw (.other "no security object")
  | some (secType, object) =>
    let r : Step σ :=
      match security.processMsg object c.input with
      | .authFailure reason written => (c.write written).throw (.authFailure reason)
      | .exception text => c.throw (.other text)
      | .said done object input written =>
        let c := { c.write written with ssecurity := some (secType, object), input := input }
        let c := c.act (.processed secType done)
        if done then (c.setState .querying).queryConnection security env else .ok c
    r.catching writeAuthFailure

def throwConnFailedException (str : String) : Step σ :=
  let message := if c.isVersion 3 3 then be32 0 else [0]
  let c := if c.state = .protocolVersion then c.write (message ++ stringBytes str) else c
  (c.setState .invalid).throw (.connFailed str)

def processSecurityType (secType : Byte) : Step σ :=
  if secType ∉ security.GetEnabledSecTypes then
    c.throw (.other "Requested security type not available")
  else
    let c := c.setState .security
    match security.GetSSecurity (secType.setWidth 32) with
    | none => c.throwConnFailedException "Security type not supported"
    | some object =>
      { c with ssecurity := some (secType, object) }.processSecurityMsg security env

def processSecurityTypeMsg : Step σ :=
  match c.input with
  | [] => c.throw .endOfStream
  | secType :: input => { c with input := input }.processSecurityType security env secType

/-! ### The version -/

/-- Versions that are not official are taken for the official one below them. -/
def officialMinor (minor : ℤ) : ℤ :=
  if minor ≠ 3 ∧ minor ≠ 7 ∧ minor ≠ 8 then if minor ≥ 8 then 8 else 3 else minor

def defaultMinorVersion (security : SecurityServer σ) : ℤ := if security.protocol3_3 then 3 else 8

/-- The rest of `processVersionMsg`, with the version known. -/
def versionReceived : Step σ :=
  let secTypes := security.GetEnabledSecTypes
  if c.isVersion 3 3 then
    match secTypes.find? fun t =>
      t.setWidth 32 = secTypeNone ∨ t.setWidth 32 = secTypeVncAuth with
    | none => c.throwConnFailedException s!"No supported security type for {c.version} client"
    | some secType =>
      let c := (c.write (be32 (secType.setWidth 32))).act (.offers [secType])
      let c := c.setState .security
      match security.GetSSecurity (secType.setWidth 32) with
      | none => c.throw (.other "Security type not supported")
      | some object =>
        { c with ssecurity := some (secType, object) }.processSecurityMsg security env
  else if secTypes = [] then c.throwConnFailedException "No supported security types"
  else
    let c := c.write (BitVec.ofNat 8 secTypes.length :: secTypes)
    .ok ((c.act (.offers secTypes)).setState .securityType)

/-- `ConnParams::readVersion` stops short while the version is not there as a whole. -/
def processVersionMsg : Step σ :=
  if c.verStr.length ≥ 12 then
    (c.setState .invalid).throw (.other "reading version failed: not an RFB client?")
  else
    let missing := 12 - c.verStr.length
    let c := { c with verStr := c.verStr ++ c.input.take missing, input := c.input.drop missing }
    if c.verStr.length < 12 then .ok c
    else
      let found := scanVersion c.verStr
      let c := { c with
        majorVersion := found.head?.getD c.majorVersion
        minorVersion := found.tail.head?.getD c.minorVersion }
      if found.length ≠ 2 then
        (c.setState .invalid).throw (.other "reading version failed: not an RFB client?")
      else if c.majorVersion ≠ 3 then
        let server := defaultMinorVersion security
        c.throwConnFailedException
          s!"Client needs protocol version {c.version}, server has 3.{server}"
      else
        { c with minorVersion := officialMinor c.minorVersion }.versionReceived security env

/-! ### Initialisation -/

/-- `VNCSConnectionST::clientInit` -/
def clientInit (wantsShared : Bool) : SConn σ :=
  let shared := (wantsShared || env.alwaysShared || env.reverseConnection ||
    !env.accessNonShared) && !env.neverShared
  if !shared && !(env.disconnectClients && env.accessNonShared) && env.authClientCount > 0 then
    c.close "Server is already in use"
  else (c.write env.serverInit).setState .normal

def processInitMsg : Step σ :=
  match c.input with
  | [] => c.throw .endOfStream
  | b :: input => .ok ({ c with input := input }.clientInit env (b ≠ 0))

def outcome : Outcome → Step σ
  | .done => .ok c
  | .closes reason => .ok (c.close reason)
  | .throws e => c.throw e

/-- `SConnection::processMsg`. A message after the handshake takes its bytes off the input. -/
def processMsg (message : List Byte → List Byte × Outcome) : Step σ :=
  match c.state with
  | .protocolVersion => c.processVersionMsg security env
  | .securityType => c.processSecurityTypeMsg security env
  | .security => c.processSecurityMsg security env
  | .initialisation => c.processInitMsg env
  | .normal => { c with input := (message c.input).1 }.outcome (message c.input).2
  | .querying =>
    c.throw (.other "SConnection::processMsg: bogus data from client while querying")
  | .uninitialised => c.throw (.other "SConnection::processMsg: not initialised yet?")
  | _ => c.throw (.other "SConnection::processMsg: invalid state")

end SConn

/-! ## Runs -/

/-- One turn of the loop in `processMessages`: what arrives before it, and what it finds. -/
structure Turn where
  received : List Byte
  env : ServerEnv
  message : List Byte → List Byte × Outcome

inductive SEvent
  | processMessages (turns : List Turn) (update : Outcome)
  | approveConnectionOrClose (env : ServerEnv) (accept : Bool) (reason : Option String)
  | close (reason : String)

namespace SConn

variable {σ : Type} (security : SecurityServer σ)

/-- The connection after `init`. -/
def initial : SConn σ where
  state := .protocolVersion
  majorVersion := 3
  minorVersion := defaultMinorVersion security
  verStr := []
  ssecurity := none
  input := []
  closeReason := none
  log := [.writes (ascii s!"RFB 003.00{defaultMinorVersion security}\n"), .state .protocolVersion]

/-- The loop in `processMessages`, which goes on while there is something to read. -/
def processTurns (c : SConn σ) : List Turn → Step σ
  | [] => .ok c
  | t :: turns =>
    let c := { c with input := c.input ++ t.received }
    if c.input = [] then .ok c
    else (c.processMsg security t.env t.message).andThen fun c => c.processTurns turns

/-- Updates are only sent after the handshake. -/
def writeFramebufferUpdate (c : SConn σ) (update : Outcome) : Step σ :=
  if c.state ≠ .normal then .ok c else c.outcome update

/-- What is tried. -/
def attempt (c : SConn σ) : SEvent → Step σ
  | .processMessages turns update =>
    if c.state = .closing then .ok c
    else (c.processTurns security turns).andThen fun c => c.writeFramebufferUpdate update
  | .approveConnectionOrClose env accept reason => c.approveConnection security env accept reason
  | .close reason => .ok (c.close reason)

/-- The reason a connection is closed for. -/
def caught : SEvent → SException → String
  | .processMessages .., .endOfStream => "Clean disconnection"
  | _, e => e.str

/-- An exception closes the connection. -/
def step (c : SConn σ) (e : SEvent) : SConn σ :=
  match c.attempt security e with
  | .ok c => c
  | .error (c, thrown) => c.close (caught e thrown)

end SConn

end KasmVNC.Rfb
