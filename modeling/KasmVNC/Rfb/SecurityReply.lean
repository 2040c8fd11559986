import KasmVNC.Rfb.Authentication

/-!
# One SecurityResult

What a handshake has come to is read off the log. Behind the change to `RFBSTATE_SECURITY` the
security object writes its messages, each of which is followed by what the object says. If it
says nothing, it has refused the client. If it is done, the approval decides. From then on, all
that is written before ServerInit is the server's reply.

An approval that rejects throws, and `processSecurityMsg` takes this exception for one of the
security object's if the approval came from `queryConnection`.
-/

namespace KasmVNC.Rfb

open KasmVNC.Lib Throwing

/-! ## Reading the log -/

inductive Phase
  | negotiating
  | secured
  /-- The security object has written something. -/
  | spoken
  /-- It is done. The writes are those since then. -/
  | satisfied (replies : List (List Byte))
  | decided (accept : Bool) (replies : List (List Byte))
  /-- ServerInit is written. -/
  | running (replies : List (List Byte))
  /-- The connection was closed before there was a decision. -/
  | dropped
deriving DecidableEq

def Phase.next : Phase → SAction → Phase
  | .negotiating, .state .security => .secured
  | .secured, .writes _ => .spoken
  | .secured, .state .closing => .dropped
  | .secured, .state .invalid => .dropped
  | .spoken, .processed _ done => if done then .satisfied [] else .secured
  | .spoken, .writes reply => .decided false [reply]
  | .spoken, .state .closing => .decided false []
  | .satisfied replies, .writes reply => .satisfied (replies ++ [reply])
  | .satisfied replies, .approves accept => .decided accept replies
  | .satisfied _, .state .closing => .dropped
  | .decided accept replies, .writes reply => .decided accept (replies ++ [reply])
  | .decided _ replies, .state .normal => .running replies.dropLast
  | phase, _ => phase

def phase (log : List SAction) : Phase := log.foldl Phase.next .negotiating

namespace SConn

variable {σ : Type} (security : SecurityServer σ)

/-- There is to be a SecurityResult: always from 3.8 on, and for all types but None before. -/
def answers (c : SConn σ) : Bool :=
  !c.beforeVersion 3 8 || c.ssecurity.any fun s => security.getType s.2 ≠ secTypeNone

/-- A SecurityResult, with the reason of a failure from 3.8 on. -/
def IsResult (c : SConn σ) (accept : Bool) (reply : List Byte) : Prop :=
  if accept then reply = be32 secResultOK
  else if c.beforeVersion 3 8 then reply = be32 secResultFailed
  else ∃ reason, reply = be32 secResultFailed ++ stringBytes reason

/-- Exactly one of them, or none. -/
def Proper (c : SConn σ) (accept : Bool) (replies : List (List Byte)) : Prop :=
  if c.answers security then ∃ reply, replies = [reply] ∧ c.IsResult accept reply
  else replies = []

/-- What has been written for the decision, if there is one, is proper. -/
def Replied (c : SConn σ) : Prop :=
  match phase c.log with
  | .satisfied replies => replies = []
  | .decided accept replies => c.Proper security accept replies
  | .running replies => c.Proper security true replies
  | _ => True

end SConn

/-! ## What is asked of the approval -/

/-- What `queryConnection` comes to without waiting. -/
def ServerEnv.verdict (env : ServerEnv) : Option Bool :=
  if env.neverShared && !env.disconnectClients && env.authClientCount > 0 then some false
  else if env.reverseConnection || !(env.queryConnect || env.requiresQuery) ||
      env.accessNoQuery then some true
  else env.query

/-- It rejects the client, or what it starts throws the same exception. -/
def ServerEnv.Rejects (env : ServerEnv) : Prop :=
  match env.verdict with
  | none => False
  | some false => True
  | some true => ∃ reason, env.startDesktop = some (.authFailure reason)

namespace SecurityServer

variable {σ : Type} (security : SecurityServer σ)

/-- `SSecurityNone` lets every client in. -/
def NoneAccepts : Prop :=
  ∀ object input reason written, security.getType object = secTypeNone →
    security.processMsg object input ≠ .authFailure reason written

/-- The object is done with what there is to read. -/
def Done (object : σ) (input : List Byte) : Prop :=
  ∃ object' input' written, security.processMsg object input = .said true object' input' written

/-- There is an object for the type, which is done at once. -/
def Starts (secType : Byte) (input : List Byte) : Prop :=
  ∃ object ∈ security.GetSSecurity (secType.setWidth 32), security.Done object input

end SecurityServer

namespace SConn

variable {σ : Type} (security : SecurityServer σ)

/-- With the message that is there the security object is done: one of its own, the choice of
its type, or the version of a client that is told its type. -/
def Finishes (c : SConn σ) : Prop :=
  match c.state with
  | .security => ∃ chosen ∈ c.ssecurity, security.Done chosen.2 c.input
  | .securityType =>
    ∃ secType input, c.input = secType :: input ∧ secType ∈ security.GetEnabledSecTypes ∧
      security.Starts secType input
  | .protocolVersion =>
    let missing := 12 - c.verStr.length
    0 < missing ∧ missing ≤ c.input.length ∧
      ∃ minor, scanVersion (c.verStr ++ c.input.take missing) = [3, minor] ∧
        officialMinor minor = 3 ∧
        ∃ secType ∈ security.GetEnabledSecTypes.find? fun t =>
            t.setWidth 32 = secTypeNone ∨ t.setWidth 32 = secTypeVncAuth,
          security.Starts secType (c.input.drop missing)
  | _ => False

/-- No client is rejected by the message with which its security object is done. -/
def TurnsWait (c : SConn σ) : List Turn → Prop
  | [] => True
  | t :: turns =>
    let c := { c with input := c.input ++ t.received }
    c.input ≠ [] →
      (c.Finishes security → ¬ t.env.Rejects) ∧
        ∀ c', c.processMsg security t.env t.message = .ok c' → TurnsWait c' turns

def RejectsLater (c : SConn σ) : SEvent → Prop
  | .processMessages turns _ => c.state ≠ .closing → c.TurnsWait security turns
  | _ => True

end SConn

/-! ## Phases and states -/

@[simp] theorem phase_append (log : List SAction) (a : SAction) :
    phase (log ++ [a]) = (phase log).next a := by
  rw [phase, List.foldl_append]
  rfl

section Fit

variable {σ : Type} {security : SecurityServer σ} {env : ServerEnv} {c c' : SConn σ}

theorem SConn.Proper.of_same {accept : Bool} {replies : List (List Byte)}
    (h : c.Proper security accept replies) (hmajor : c'.majorVersion = c.majorVersion)
    (hminor : c'.minorVersion = c.minorVersion) (hsec : c'.ssecurity = c.ssecurity) :
    c'.Proper security accept replies := by
  unfold SConn.Proper SConn.answers SConn.IsResult SConn.beforeVersion at h ⊢
  rwa [hmajor, hminor, hsec]

/-- There is no room for another reply. -/
theorem SConn.Proper.not_concat {accept accept' : Bool} {replies : List (List Byte)}
    {reply : List Byte} (h : c.Proper security accept replies) :
    ¬ c.Proper security accept' (replies ++ [reply]) := by
  unfold SConn.Proper at h ⊢
  split at h
  · obtain ⟨first, rfl, -⟩ := h
    rw [if_pos ‹_›]
    rintro ⟨_, htwo, -⟩
    cases htwo
  · rw [if_neg ‹_›]
    exact List.concat_ne_nil _ _

theorem replied_iff_of_decided {accept : Bool} {replies : List (List Byte)}
    (h : phase c.log = .decided accept replies) :
    c.Replied security ↔ c.Proper security accept replies := by
  unfold SConn.Replied
  rw [h]

/-- What may be left when a connection is closed. -/
def Settled (security : SecurityServer σ) (c : SConn σ) : Phase → Prop
  | .negotiating | .dropped => True
  | .decided accept replies => c.Proper security accept replies
  | .running replies => c.Proper security true replies
  | _ => False

/-- The phase of a state. -/
def InPhase (security : SecurityServer σ) (c : SConn σ) : StateEnum → Phase → Prop
  | .protocolVersion, phase | .securityType, phase => phase = .negotiating
  | .security, phase => phase = .secured
  | .querying, phase => phase = .satisfied []
  | .initialisation, phase =>
    ∃ replies, phase = .decided true replies ∧ c.Proper security true replies
  | .normal, phase => ∃ replies, phase = .running replies ∧ c.Proper security true replies
  | .closing, phase => Settled security c phase
  | _, _ => False

def Fit (security : SecurityServer σ) (c : SConn σ) : Prop :=
  InPhase security c c.state (phase c.log)

theorem fit_of_state {s : StateEnum} (hstate : c.state = s)
    (h : InPhase security c s (phase c.log)) : Fit security c := by
  unfold Fit
  rwa [hstate]

theorem Fit.inPhase {s : StateEnum} (h : Fit security c) (hstate : c.state = s) :
    InPhase security c s (phase c.log) := hstate ▸ h

theorem Settled.of_same {p : Phase} (h : Settled security c p)
    (hmajor : c'.majorVersion = c.majorVersion) (hminor : c'.minorVersion = c.minorVersion)
    (hsec : c'.ssecurity = c.ssecurity) : Settled security c' p := by
  cases p with
  | decided accept replies => exact SConn.Proper.of_same h hmajor hminor hsec
  | running replies => exact SConn.Proper.of_same h hmajor hminor hsec
  | _ => exact h

/-- Other members may change. -/
theorem Fit.of_same (h : Fit security c) (hlog : c'.log = c.log) (hstate : c'.state = c.state)
    (hmajor : c'.majorVersion = c.majorVersion) (hminor : c'.minorVersion = c.minorVersion)
    (hsec : c'.ssecurity = c.ssecurity) : Fit security c' := by
  unfold Fit at h ⊢
  rw [hlog, hstate]
  cases hs : c.state with
  | initialisation =>
    rw [hs] at h
    obtain ⟨replies, hphase, hproper⟩ := h
    exact ⟨replies, hphase, hproper.of_same hmajor hminor hsec⟩
  | normal =>
    rw [hs] at h
    obtain ⟨replies, hphase, hproper⟩ := h
    exact ⟨replies, hphase, hproper.of_same hmajor hminor hsec⟩
  | closing =>
    rw [hs] at h
    exact Settled.of_same h hmajor hminor hsec
  | _ =>
    rw [hs] at h
    exact h

theorem Fit.replied (h : Fit security c) : c.Replied security := by
  unfold Fit at h
  unfold SConn.Replied
  cases hs : c.state with
  | initialisation =>
    rw [hs] at h
    obtain ⟨replies, hphase, hproper⟩ := h
    exact (replied_iff_of_decided hphase).mpr hproper
  | normal =>
    rw [hs] at h
    obtain ⟨replies, hphase, hproper⟩ := h
    rw [hphase]
    exact hproper
  | closing =>
    rw [hs] at h
    generalize phase c.log = p at h ⊢
    cases p with
    | satisfied replies => exact h.elim
    | decided accept replies => exact h
    | running replies => exact h
    | _ => trivial
  | uninitialised =>
    rw [hs] at h
    exact h.elim
  | invalid =>
    rw [hs] at h
    exact h.elim
  | querying =>
    rw [hs] at h
    have hphase : phase c.log = .satisfied [] := h
    rw [hphase]
  | _ =>
    rw [hs] at h
    have hphase : phase c.log = _ := h
    rw [hphase]
    trivial

/-! ### Closing -/

theorem close_eq (hstate : c.state ≠ .closing) (reason : String) :
    c.close reason =
      SConn.setState { c with closeReason := some (c.closeReason.getD reason) } .closing :=
  if_neg hstate

theorem fit_close (hstate : c.state ≠ .closing)
    (h : Settled security c ((phase c.log).next (.state .closing))) (reason : String) :
    Fit security (c.close reason) := by
  rw [close_eq hstate]
  show Settled security _ (phase (c.log ++ [.state .closing]))
  rw [phase_append]
  exact h.of_same rfl rfl rfl

theorem Fit.close (h : Fit security c) (reason : String) : Fit security (c.close reason) := by
  by_cases hclosing : c.state = .closing
  · unfold SConn.close
    dsimp only
    rw [if_pos hclosing]
    exact h.of_same rfl rfl rfl rfl rfl
  · refine fit_close hclosing ?_ reason
    unfold Fit at h
    cases hs : c.state with
    | closing => exact absurd hs hclosing
    | initialisation =>
      rw [hs] at h
      obtain ⟨replies, hphase, hproper⟩ := h
      rw [hphase]
      exact hproper
    | normal =>
      rw [hs] at h
      obtain ⟨replies, hphase, hproper⟩ := h
      rw [hphase]
      exact hproper
    | uninitialised =>
      rw [hs] at h
      exact h.elim
    | invalid =>
      rw [hs] at h
      exact h.elim
    | _ =>
      rw [hs] at h
      have hphase : phase c.log = _ := h
      rw [hphase]
      trivial

/-- The connection is fit, or will be when its exception has closed it. -/
def Good (security : SecurityServer σ) (r : SConn.Step σ) : Prop :=
  match r with
  | .ok c => Fit security c
  | .error (c, _) => ∀ reason, Fit security (c.close reason)

/-- It throws, and what has been written for the decision is not proper. -/
def Bad (security : SecurityServer σ) (r : SConn.Step σ) : Prop :=
  ∃ c e, r = .error (c, e) ∧ ∀ reason, ¬ (c.close reason).Replied security

theorem Fit.throws (h : Fit security c) (e : SException) : Good security (c.throw e) :=
  fun reason => h.close reason

theorem Good.andThen {r : SConn.Step σ} {f : SConn σ → SConn.Step σ} (hr : Good security r)
    (hf : ∀ c, Fit security c → Good security (f c)) : Good security (r.andThen f) := by
  cases r with
  | ok c => exact hf c hr
  | error thrown => exact hr

/-! ### Approval -/

/-- The decision is made and, where there is to be one, the SecurityResult written. -/
structure Judged (security : SecurityServer σ) (c : SConn σ) (accept : Bool) : Prop where
  state : c.state = .querying
  decided : ∃ replies, phase c.log = .decided accept replies ∧ c.Proper security accept replies

theorem isResult_secResult (c : SConn σ) (accept : Bool) (reason : Option String) :
    c.IsResult accept (c.secResult accept reason) := by
  unfold SConn.IsResult SConn.secResult
  cases accept with
  | true => exact rfl
  | false =>
    cases hbefore : c.beforeVersion 3 8 with
    | true => exact List.append_nil _
    | false => exact ⟨_, rfl⟩

theorem approveConnection_eq (security : SecurityServer σ) (env : ServerEnv)
    (hstate : c.state = .querying) (hphase : phase c.log = .satisfied []) (accept : Bool)
    (reason : Option String) :
    ∃ answered, Judged security answered accept ∧
      c.approveConnection security env accept reason =
        if accept then (answered.setState .initialisation).authSuccess env
        else (answered.setState .invalid).throw (.authFailure reason) := by
  have hact : phase (c.act (.approves accept)).log = .decided accept [] := by
    rw [SConn.act, phase_append, hphase]
    rfl
  have hquerying : (c.act (.approves accept)).state = .querying := hstate
  refine ⟨if c.answers security then
    (c.act (.approves accept)).write ((c.act (.approves accept)).secResult accept reason)
    else c.act (.approves accept), ?_, if_neg (not_not.mpr hquerying)⟩
  by_cases hanswers : c.answers security = true
  · rw [if_pos hanswers]
    refine ⟨hstate, [(c.act (.approves accept)).secResult accept reason], ?_, ?_⟩
    · rw [SConn.write, SConn.act, phase_append, hact]
      rfl
    · exact (if_pos hanswers).mpr ⟨_, rfl, isResult_secResult _ accept reason⟩
  · rw [if_neg hanswers]
    exact ⟨hstate, [], hact, (if_neg hanswers).mpr rfl⟩

theorem Judged.accepted (h : Judged security c true) :
    Fit security (c.setState .initialisation) := by
  obtain ⟨-, replies, hphase, hproper⟩ := h
  refine ⟨replies, ?_, hproper.of_same rfl rfl rfl⟩
  rw [SConn.setState, SConn.act, phase_append, hphase]
  rfl

theorem Judged.rejected {accept : Bool} (h : Judged security c accept) (reason : String) :
    Fit security ((c.setState .invalid).close reason) := by
  obtain ⟨-, replies, hphase, hproper⟩ := h
  refine fit_close (by decide : StateEnum.invalid ≠ .closing) ?_ reason
  rw [SConn.setState, SConn.act, phase_append, hphase]
  exact hproper.of_same rfl rfl rfl

/-- **Approval**, when it is not called by `processSecurityMsg`. -/
theorem good_approveConnection (hstate : c.state = .querying)
    (hphase : phase c.log = .satisfied []) (accept : Bool) (reason : Option String) :
    Good security (c.approveConnection security env accept reason) := by
  obtain ⟨answered, hanswered, heq⟩ := approveConnection_eq security env hstate hphase accept reason
  rw [heq]
  cases accept with
  | false => exact hanswered.rejected
  | true =>
    show Good security ((answered.setState .initialisation).authSuccess env)
    unfold SConn.authSuccess
    cases env.startDesktop with
    | none => exact hanswered.accepted
    | some e => exact hanswered.accepted.throws e

/-- **A second reply** comes from the handler, if there has been a decision. -/
theorem bad_writeAuthFailure (hstate : c.state ≠ .closing) {accept : Bool}
    {replies : List (List Byte)} (hphase : phase c.log = .decided accept replies)
    (hproper : c.Proper security accept replies) (reason : Option String) :
    Bad security (SConn.writeAuthFailure c (.authFailure reason)) := by
  refine ⟨_, _, rfl, fun why => ?_⟩
  generalize hreply : be32 SConn.secResultFailed ++
    (if (!c.beforeVersion 3 8) = true then SConn.stringBytes (SException.authFailure reason).str
      else []) = reply
  have hclosed : phase ((c.write reply).close why).log = .decided accept (replies ++ [reply]) := by
    rw [close_eq (c := c.write reply) hstate, SConn.setState, SConn.act, phase_append]
    show (phase (c.log ++ [.writes reply])).next _ = _
    rw [phase_append, hphase]
    rfl
  have hsame : ((c.write reply).close why).Proper security accept (replies ++ [reply]) →
      c.Proper security accept (replies ++ [reply]) := by
    intro h
    rw [close_eq (c := c.write reply) hstate] at h
    exact h.of_same rfl rfl rfl
  rw [replied_iff_of_decided hclosed]
  exact fun h => hproper.not_concat (hsame h)

/-- The security object is done; what `queryConnection` throws is caught. -/
def askQuery (security : SecurityServer σ) (env : ServerEnv) (c : SConn σ) : SConn.Step σ :=
  (c.queryConnection security env).catching SConn.writeAuthFailure

theorem queryConnection_eq (security : SecurityServer σ) (env : ServerEnv) (c : SConn σ) :
    match env.verdict with
    | none => c.queryConnection security env = .ok c
    | some accept => ∃ reason, c.queryConnection security env =
        c.approveConnection security env accept reason := by
  unfold SConn.queryConnection ServerEnv.verdict
  split_ifs
  · exact ⟨_, rfl⟩
  · exact ⟨_, rfl⟩
  · cases env.query with
    | none => rfl
    | some accept => exact ⟨_, rfl⟩

section Query

variable (hstate : c.state = .querying) (hphase : phase c.log = .satisfied [])

include hstate hphase

theorem good_askQuery (security : SecurityServer σ) (henv : ¬ env.Rejects) :
    Good security (askQuery security env c) := by
  have heq := queryConnection_eq security env c
  unfold ServerEnv.Rejects at henv
  unfold askQuery
  cases hverdict : env.verdict with
  | none =>
    rw [hverdict] at heq
    rw [heq]
    show InPhase security c c.state (phase c.log)
    rw [hstate]
    exact hphase
  | some accept =>
    rw [hverdict] at heq henv
    obtain ⟨reason, heq⟩ := heq
    obtain ⟨answered, hanswered, happrove⟩ :=
      approveConnection_eq security env hstate hphase accept reason
    rw [heq, happrove]
    cases accept with
    | false => exact absurd trivial henv
    | true =>
      show Good security (((answered.setState .initialisation).authSuccess env).catching _)
      unfold SConn.authSuccess
      cases hstart : env.startDesktop with
      | none => exact hanswered.accepted
      | some e =>
        cases e with
        | authFailure why => exact absurd ⟨why, hstart⟩ henv
        | _ => exact hanswered.accepted.throws _

theorem bad_askQuery (security : SecurityServer σ) (henv : env.Rejects) :
    Bad security (askQuery security env c) := by
  have heq := queryConnection_eq security env c
  unfold ServerEnv.Rejects at henv
  unfold askQuery
  cases hverdict : env.verdict with
  | none =>
    rw [hverdict] at henv
    exact henv.elim
  | some accept =>
    rw [hverdict] at heq henv
    obtain ⟨reason, heq⟩ := heq
    obtain ⟨answered, ⟨-, replies, hdecided, hproper⟩, happrove⟩ :=
      approveConnection_eq security env hstate hphase accept reason
    rw [heq, happrove]
    cases accept with
    | false =>
      have hinvalid : phase (answered.setState .invalid).log = .decided false replies := by
        rw [SConn.setState, SConn.act, phase_append, hdecided]
        rfl
      exact bad_writeAuthFailure (by decide : StateEnum.invalid ≠ .closing) hinvalid
        (hproper.of_same rfl rfl rfl) reason
    | true =>
      obtain ⟨why, hstart⟩ := henv
      show Bad security (((answered.setState .initialisation).authSuccess env).catching _)
      unfold SConn.authSuccess
      rw [hstart]
      have hopen : phase (answered.setState .initialisation).log = .decided true replies := by
        rw [SConn.setState, SConn.act, phase_append, hdecided]
        rfl
      exact bad_writeAuthFailure (by decide : StateEnum.initialisation ≠ .closing) hopen
        (hproper.of_same rfl rfl rfl) why

end Query

/-! ### One message -/

/-- Either the security object is done, or the rest of the server does not matter. -/
def Split (security : SecurityServer σ) (finishes : Prop) (f : ServerEnv → SConn.Step σ) : Prop :=
  (finishes ∧ ∃ c, c.state = .querying ∧ phase c.log = .satisfied [] ∧
    ∀ env, f env = askQuery security env c) ∨
  (¬ finishes ∧ ∀ env, Good security (f env))

theorem Split.of_iff {p q : Prop} {f : ServerEnv → SConn.Step σ} (h : Split security p f)
    (hpq : p ↔ q) : Split security q f := by
  unfold Split at h ⊢
  rwa [← hpq]

theorem good_invalid
    (h : Settled security c (((phase c.log).next (.state .invalid)).next (.state .closing)))
    (e : SException) : Good security ((c.setState .invalid).throw e) := by
  intro reason
  refine fit_close (by decide : StateEnum.invalid ≠ .closing) ?_ reason
  rw [SConn.setState, SConn.act, phase_append]
  exact h.of_same rfl rfl rfl

/-- **Refusal** by the security object. -/
theorem good_refusal {secType : Byte} {object : σ} (hstate : c.state = .security)
    (hphase : phase c.log = .secured) (hsec : c.ssecurity = some (secType, object))
    (htype : security.getType object ≠ secTypeNone) (reason : Option String)
    (written : List Byte) :
    Good security (SConn.writeAuthFailure (c.write written) (.authFailure reason)) := by
  intro why
  have hopen : c.state ≠ .closing := by
    rw [hstate]
    decide
  have hspoken : phase (c.write written).log = .spoken := by
    rw [SConn.write, SConn.act, phase_append, hphase]
    rfl
  refine fit_close (c := (c.write written).write _) hopen ?_ why
  rw [SConn.write, SConn.act, phase_append, hspoken]
  have hanswers : c.answers security = true := by
    unfold SConn.answers
    rw [hsec, Option.any_some, decide_eq_true htype, Bool.or_true]
  refine (if_pos hanswers).mpr ⟨_, rfl, ?_⟩
  show c.IsResult false (_ ++ if (!c.beforeVersion 3 8) = true then _ else _)
  unfold SConn.IsResult
  cases hbefore : c.beforeVersion 3 8 with
  | true => exact List.append_nil _
  | false => exact ⟨_, rfl⟩

theorem done_iff {object object' : σ} {input input' written : List Byte} {done : Bool}
    (h : security.processMsg object input = .said done object' input' written) :
    security.Done object input ↔ done = true := by
  unfold SecurityServer.Done
  rw [h]
  constructor
  · rintro ⟨_, _, _, heq⟩
    cases heq
    rfl
  · rintro rfl
    exact ⟨_, _, _, rfl⟩

variable (hnone : security.NoneAccepts)

include hnone

theorem split_processSecurityMsg (hstate : c.state = .security)
    (hphase : phase c.log = .secured) :
    Split security (∃ chosen ∈ c.ssecurity, security.Done chosen.2 c.input)
      fun env => c.processSecurityMsg security env := by
  have hfit : Fit security c := fit_of_state hstate hphase
  unfold SConn.processSecurityMsg
  cases hsec : c.ssecurity with
  | none =>
    refine .inr ⟨?_, fun env => hfit.throws _⟩
    rintro ⟨_, hmem, -⟩
    cases hmem
  | some chosen =>
    obtain ⟨secType, object⟩ := chosen
    refine Split.of_iff (p := security.Done object c.input) ?_ ?_
    · dsimp only
      cases hsaid : security.processMsg object c.input with
      | authFailure reason written =>
        have htype : security.getType object ≠ secTypeNone :=
          fun h => hnone object c.input reason written h hsaid
        refine .inr ⟨?_, fun env => good_refusal hstate hphase hsec htype reason written⟩
        rintro ⟨_, _, _, hdone⟩
        cases hsaid.symm.trans hdone
      | exception text =>
        refine .inr ⟨?_, fun env => hfit.throws _⟩
        rintro ⟨_, _, _, hdone⟩
        cases hsaid.symm.trans hdone
      | said done object input written =>
        have hspoken : phase (c.log ++ [.writes written]) = .spoken := by
          rw [phase_append, hphase]
          rfl
        cases done with
        | false =>
          refine .inr ⟨fun h => Bool.false_ne_true ((done_iff hsaid).mp h), fun env => ?_⟩
          show InPhase security _ c.state (phase (c.log ++ [.writes written] ++ [_]))
          rw [hstate, phase_append, hspoken]
          rfl
        | true =>
          refine .inl ⟨(done_iff hsaid).mpr rfl, _, rfl, ?_, fun env => rfl⟩
          show phase (c.log ++ [.writes written] ++ [.processed secType true] ++
            [.state .querying]) = _
          rw [phase_append, phase_append, hspoken]
          rfl
    · constructor
      · exact fun h => ⟨_, rfl, h⟩
      · rintro ⟨_, hmem, h⟩
        cases hmem
        exact h

/-- The type has been chosen. -/
theorem split_starts (hstate : c.state = .security) (hphase : phase c.log = .secured)
    (secType : Byte) {throws : SConn.Step σ} (hthrows : Good security throws) :
    Split security (security.Starts secType c.input) fun env =>
      match security.GetSSecurity (secType.setWidth 32) with
      | none => throws
      | some object =>
        ({ c with ssecurity := some (secType, object) } : SConn σ).processSecurityMsg
          security env := by
  unfold SecurityServer.Starts
  cases security.GetSSecurity (secType.setWidth 32) with
  | none =>
    refine .inr ⟨?_, fun env => hthrows⟩
    rintro ⟨_, hmem, -⟩
    cases hmem
  | some object =>
    refine Split.of_iff (split_processSecurityMsg
      (c := { c with ssecurity := some (secType, object) }) hnone hstate hphase) ?_
    constructor
    · rintro ⟨_, hmem, h⟩
      cases hmem
      exact ⟨object, rfl, h⟩
    · rintro ⟨_, hmem, h⟩
      cases hmem
      exact ⟨_, rfl, h⟩

theorem split_processSecurityTypeMsg (hfit : Fit security c) (hstate : c.state = .securityType) :
    Split security
      (∃ secType input, c.input = secType :: input ∧ secType ∈ security.GetEnabledSecTypes ∧
        security.Starts secType input)
      fun env => c.processSecurityTypeMsg security env := by
  unfold SConn.processSecurityTypeMsg
  cases c.input with
  | nil =>
    refine .inr ⟨?_, fun env => hfit.throws _⟩
    rintro ⟨_, _, heq, -⟩
    cases heq
  | cons secType input =>
    have hphase : phase c.log = .negotiating := hfit.inPhase hstate
    have hread : Fit security { c with input := input } := hfit.of_same rfl rfl rfl rfl rfl
    refine Split.of_iff
      (p := secType ∈ security.GetEnabledSecTypes ∧ security.Starts secType input) ?_ ?_
    · unfold SConn.processSecurityType
      by_cases hin : secType ∈ security.GetEnabledSecTypes
      · simp only [if_neg (not_not.mpr hin)]
        have hsecured : phase (c.setState .security).log = .secured := by
          rw [SConn.setState, SConn.act, phase_append, hphase]
          rfl
        refine Split.of_iff (split_starts
          (c := SConn.setState { c with input := input } .security) hnone rfl hsecured secType
          (good_invalid ?_ _)) (and_iff_right hin).symm
        show Settled security _ (((phase (c.setState .security).log).next _).next _)
        rw [hsecured]
        trivial
      · simp only [if_pos hin]
        exact .inr ⟨fun h => hin h.1, fun env => hread.throws _⟩
    · constructor
      · exact fun h => ⟨_, _, rfl, h⟩
      · rintro ⟨_, _, heq, h⟩
        cases heq
        exact h

omit hnone in
/-- What is written before a type is chosen does not matter. -/
theorem good_throwConnFailedException (hphase : phase c.log = .negotiating) (str : String) :
    Good security (c.throwConnFailedException str) := by
  unfold SConn.throwConnFailedException
  dsimp only
  split
  · refine good_invalid ?_ _
    rw [SConn.write, SConn.act, phase_append, hphase]
    trivial
  · refine good_invalid ?_ _
    rw [hphase]
    trivial

theorem split_versionReceived (hphase : phase c.log = .negotiating) :
    Split security
      (c.isVersion 3 3 = true ∧ ∃ secType ∈ security.GetEnabledSecTypes.find? fun t =>
          t.setWidth 32 = secTypeNone ∨ t.setWidth 32 = secTypeVncAuth,
        security.Starts secType c.input)
      fun env => c.versionReceived security env := by
  unfold SConn.versionReceived
  dsimp only
  by_cases hversion : c.isVersion 3 3 = true
  · simp only [if_pos hversion]
    cases security.GetEnabledSecTypes.find? _ with
    | none =>
      refine .inr ⟨?_, fun env => good_throwConnFailedException hphase _⟩
      rintro ⟨-, _, hmem, -⟩
      cases hmem
    | some secType =>
      have hsecured : phase (((c.write (be32 (secType.setWidth 32))).act
          (.offers [secType])).setState .security).log = .secured := by
        rw [SConn.setState, SConn.act, phase_append, SConn.act, phase_append, SConn.write,
          SConn.act, phase_append, hphase]
        rfl
      refine Split.of_iff (split_starts hnone rfl hsecured secType
        (Fit.throws (fit_of_state (s := .security) rfl hsecured) _)) ?_
      constructor
      · exact fun h => ⟨hversion, secType, rfl, h⟩
      · rintro ⟨-, _, hmem, h⟩
        cases hmem
        exact h
  · simp only [if_neg hversion]
    refine .inr ⟨fun h => hversion h.1, fun env => ?_⟩
    split
    · exact good_throwConnFailedException hphase _
    · refine fit_of_state (s := .securityType) rfl ?_
      show phase (c.log ++ [_] ++ [_] ++ [_]) = _
      rw [phase_append, phase_append, phase_append, hphase]
      rfl

theorem split_processVersionMsg (hfit : Fit security c) (hstate : c.state = .protocolVersion) :
    Split security (c.Finishes security) fun env => c.processVersionMsg security env := by
  have hphase : phase c.log = .negotiating := hfit.inPhase hstate
  unfold SConn.Finishes SConn.processVersionMsg
  rw [hstate]
  dsimp only
  by_cases hlong : c.verStr.length ≥ 12
  · simp only [if_pos hlong]
    refine .inr ⟨fun h => absurd h.1 (by omega), fun env => good_invalid ?_ _⟩
    rw [hphase]
    trivial
  · simp only [if_neg hlong]
    have hmissing : 0 < 12 - c.verStr.length := by omega
    by_cases hshort : (c.verStr ++ c.input.take (12 - c.verStr.length)).length < 12
    · simp only [if_pos hshort]
      rw [List.length_append, List.length_take] at hshort
      exact .inr ⟨fun h => absurd h.2.1 (by omega),
        fun env => hfit.of_same rfl hstate.symm rfl rfl rfl⟩
    · simp only [if_neg hshort]
      rw [List.length_append, List.length_take] at hshort
      have hthere : 12 - c.verStr.length ≤ c.input.length := by omega
      generalize scanVersion (c.verStr ++ c.input.take (12 - c.verStr.length)) = found
      by_cases hfound : found.length ≠ 2
      · simp only [if_pos hfound]
        refine .inr ⟨?_, fun env => good_invalid ?_ _⟩
        · rintro ⟨-, -, minor, rfl, -⟩
          exact hfound rfl
        · rw [hphase]
          trivial
      · simp only [if_neg hfound]
        obtain ⟨major, minor, rfl⟩ := List.length_eq_two.mp (not_not.mp hfound)
        by_cases hmajor : [major, minor].head?.getD c.majorVersion ≠ 3
        · simp only [if_pos hmajor]
          refine .inr ⟨?_, fun env => good_throwConnFailedException ?_ _⟩
          · rintro ⟨-, -, _, heq, -⟩
            cases heq
            exact hmajor rfl
          · exact hphase
        · simp only [if_neg hmajor]
          obtain rfl : major = 3 := not_not.mp hmajor
          refine Split.of_iff (split_versionReceived hnone ?_) ?_
          · exact hphase
          · constructor
            · rintro ⟨hversion, h⟩
              exact ⟨hmissing, hthere, minor, rfl, (of_decide_eq_true hversion).2, h⟩
            · rintro ⟨-, -, _, heq, hminor, h⟩
              cases heq
              exact ⟨decide_eq_true ⟨rfl, hminor⟩, h⟩

omit hnone in
theorem fit_clientInit (hfit : Fit security c) (hstate : c.state = .initialisation)
    (b : Byte) (input : List Byte) :
    Fit security (({ c with input := input } : SConn σ).clientInit env (b ≠ 0)) := by
  have hread : Fit security ({ c with input := input } : SConn σ) :=
    hfit.of_same rfl rfl rfl rfl rfl
  unfold SConn.clientInit
  dsimp only
  split
  · exact hread.close _
  · obtain ⟨replies, hphase, hproper⟩ := hfit.inPhase hstate
    refine ⟨replies, ?_, hproper.of_same rfl rfl rfl⟩
    show phase (c.log ++ [.writes env.serverInit] ++ [.state .normal]) = _
    rw [phase_append, phase_append, hphase]
    show Phase.running (replies ++ [env.serverInit]).dropLast = _
    rw [List.dropLast_concat]

omit hnone in
theorem good_processInitMsg (hfit : Fit security c) (hstate : c.state = .initialisation) :
    Good security (c.processInitMsg env) := by
  unfold SConn.processInitMsg
  cases c.input with
  | nil => exact hfit.throws _
  | cons b input => exact fit_clientInit hfit hstate b input

omit hnone in
theorem good_outcome (hfit : Fit security c) (o : Outcome) : Good security (c.outcome o) := by
  cases o with
  | done => exact hfit
  | closes reason => exact hfit.close reason
  | throws e => exact hfit.throws e

/-- **One message**, in any state. -/
theorem split_processMsg (hfit : Fit security c) (message : List Byte → List Byte × Outcome) :
    Split security (c.Finishes security) fun env => c.processMsg security env message := by
  unfold SConn.processMsg
  cases hstate : c.state with
  | protocolVersion => exact split_processVersionMsg hnone hfit hstate
  | securityType =>
    unfold SConn.Finishes
    rw [hstate]
    exact split_processSecurityTypeMsg hnone hfit hstate
  | security =>
    unfold SConn.Finishes
    rw [hstate]
    exact split_processSecurityMsg hnone hstate (hfit.inPhase hstate)
  | initialisation =>
    unfold SConn.Finishes
    rw [hstate]
    exact .inr ⟨id, fun env => good_processInitMsg hfit hstate⟩
  | normal =>
    have hread : Fit security { c with state := .normal, input := (message c.input).1 } :=
      hfit.of_same rfl hstate.symm rfl rfl rfl
    unfold SConn.Finishes
    rw [hstate]
    exact .inr ⟨id, fun env => good_outcome hread _⟩
  | _ =>
    unfold SConn.Finishes
    rw [hstate]
    exact .inr ⟨id, fun env => hfit.throws _⟩

/-! ### Runs -/

/-- The condition tells good results from bad ones. -/
def Tells (security : SecurityServer σ) (ok : Prop) (r : SConn.Step σ) : Prop :=
  (ok → Good security r) ∧ (¬ ok → Bad security r)

omit hnone in
theorem Good.tells {r : SConn.Step σ} (h : Good security r) : Tells security True r :=
  ⟨fun _ => h, fun hfalse => absurd trivial hfalse⟩

omit hnone in
theorem Good.tells_andThen {r : SConn.Step σ} {ok : SConn σ → Prop}
    {f : SConn σ → SConn.Step σ} (hr : Good security r)
    (hf : ∀ c, Fit security c → Tells security (ok c) (f c)) :
    Tells security (∀ c, r = .ok c → ok c) (r.andThen f) := by
  cases r with
  | error thrown => exact ⟨fun _ => hr, fun h => absurd (fun _ heq => nomatch heq) h⟩
  | ok c =>
    constructor
    · exact fun h => (hf c hr).1 (h c rfl)
    · refine fun h => (hf c hr).2 fun hok => h fun c' heq => ?_
      cases heq
      exact hok

theorem tells_turn (hfit : Fit security c) (t : Turn) {ok : SConn σ → Prop}
    {f : SConn σ → SConn.Step σ} (hf : ∀ c, Fit security c → Tells security (ok c) (f c)) :
    Tells security
      ((c.Finishes security → ¬ t.env.Rejects) ∧
        ∀ c', c.processMsg security t.env t.message = .ok c' → ok c')
      ((c.processMsg security t.env t.message).andThen f) := by
  rcases split_processMsg hnone hfit t.message with
    ⟨hfinishes, c₁, hstate, hphase, heq⟩ | ⟨hfinishes, hgood⟩
  · rw [show c.processMsg security t.env t.message = _ from heq t.env]
    by_cases hrejects : t.env.Rejects
    · obtain ⟨c₂, e, herror, hbad⟩ := bad_askQuery hstate hphase security hrejects
      rw [herror]
      exact ⟨fun h => absurd hrejects (h.1 hfinishes), fun _ => ⟨c₂, e, rfl, hbad⟩⟩
    · have hrest := (good_askQuery hstate hphase security hrejects).tells_andThen hf
      exact ⟨fun h => hrest.1 h.2, fun h => hrest.2 fun hok => h ⟨fun _ => hrejects, hok⟩⟩
  · have hrest := (hgood t.env).tells_andThen hf
    exact ⟨fun h => hrest.1 h.2, fun h => hrest.2 fun hok => h ⟨fun h => absurd h hfinishes, hok⟩⟩

/-- **The loop.** Only a rejection by the message that ends the authentication is bad. -/
theorem tells_processTurns : ∀ (turns : List Turn) {c : SConn σ}, Fit security c →
    Tells security (c.TurnsWait security turns) (c.processTurns security turns)
  | [], _, hfit => Good.tells hfit
  | t :: turns, c, hfit => by
    have hreceived : Fit security { c with input := c.input ++ t.received } :=
      hfit.of_same rfl rfl rfl rfl rfl
    unfold SConn.TurnsWait SConn.processTurns
    dsimp only
    by_cases hnil : c.input ++ t.received = []
    · rw [if_pos hnil]
      exact ⟨fun _ => hreceived, fun h => absurd (fun hinput => absurd hnil hinput) h⟩
    · rw [if_neg hnil]
      have hturn := tells_turn hnone hreceived t fun c hfit => tells_processTurns turns hfit
      exact ⟨fun h => hturn.1 (h hnil), fun h => hturn.2 fun hok => h fun _ => hok⟩

omit hnone in
/-- An approval in the wrong state. -/
theorem Fit.approves (hfit : Fit security c) (hstate : c.state ≠ .querying) (accept : Bool) :
    Fit security (c.act (.approves accept)) := by
  have hsame : phase (c.act (.approves accept)).log = phase c.log := by
    rw [SConn.act, phase_append]
    unfold Fit at hfit
    generalize phase c.log = p at hfit ⊢
    cases p with
    | satisfied replies =>
      cases hs : c.state with
      | querying => exact absurd hs hstate
      | initialisation =>
        rw [hs] at hfit
        obtain ⟨_, hphase, -⟩ := hfit
        cases hphase
      | normal =>
        rw [hs] at hfit
        obtain ⟨_, hphase, -⟩ := hfit
        cases hphase
      | closing =>
        rw [hs] at hfit
        exact hfit.elim
      | _ =>
        rw [hs] at hfit
        cases hfit
    | _ => rfl
  unfold Fit
  rw [hsame]
  have hkept : Fit security { c.act (.approves accept) with log := c.log } :=
    hfit.of_same rfl rfl rfl rfl rfl
  exact hkept

theorem tells_attempt (hfit : Fit security c) (e : SEvent) :
    Tells security (c.RejectsLater security e) (c.attempt security e) := by
  cases e with
  | approveConnectionOrClose env accept reason =>
    refine Good.tells ?_
    by_cases hstate : c.state = .querying
    · exact good_approveConnection hstate (hfit.inPhase hstate) accept reason
    · have heq : c.attempt security (.approveConnectionOrClose env accept reason) =
          (c.act (.approves accept)).throw
            (.other "SConnection::approveConnection: invalid state") := if_pos hstate
      rw [heq]
      exact (hfit.approves hstate accept).throws _
  | close reason => exact Good.tells (hfit.close reason)
  | processMessages turns update =>
    unfold SConn.RejectsLater SConn.attempt
    dsimp only
    by_cases hclosing : c.state = .closing
    · rw [if_pos hclosing]
      exact ⟨fun _ => hfit, fun h => absurd (fun hopen => absurd hclosing hopen) h⟩
    · rw [if_neg hclosing]
      obtain ⟨hgood, hbad⟩ := tells_processTurns hnone turns hfit
      constructor
      · refine fun h => (hgood (h hclosing)).andThen fun c hfit => ?_
        unfold SConn.writeFramebufferUpdate
        split
        · exact hfit
        · exact good_outcome hfit update
      · intro h
        obtain ⟨c₂, e, herror, hbad⟩ := hbad fun hok => h fun _ => hok
        rw [herror]
        exact ⟨c₂, e, rfl, hbad⟩

theorem Fit.step (hfit : Fit security c) {e : SEvent} (h : c.RejectsLater security e) :
    Fit security (c.step security e) := by
  have hgood := (tells_attempt hnone hfit e).1 h
  unfold SConn.step
  cases hr : c.attempt security e with
  | ok c =>
    rw [hr] at hgood
    exact hgood
  | error thrown =>
    rw [hr] at hgood
    exact hgood _

theorem Fit.step_replied_iff (hfit : Fit security c) (e : SEvent) :
    (c.step security e).Replied security ↔ c.RejectsLater security e := by
  constructor
  · intro hreplied
    by_contra h
    obtain ⟨c₂, thrown, herror, hbad⟩ := (tells_attempt hnone hfit e).2 h
    unfold SConn.step at hreplied
    rw [herror] at hreplied
    exact hbad _ hreplied
  · exact fun h => (hfit.step hnone h).replied

omit hnone in
theorem fit_initial (security : SecurityServer σ) : Fit security (SConn.initial security) := rfl

end Fit

/-- **One SecurityResult** if and only if no client is rejected by the message that ends its
authentication: in every run, the replies are proper behind all the steps exactly if none of
the steps makes such a rejection. -/
theorem one_security_result_iff {σ : Type} (security : SecurityServer σ)
    (hnone : security.NoneAccepts) (es : List SEvent) :
    Guarded (SConn.step security) (fun c e => (c.step security e).Replied security)
        (SConn.initial security) es ↔
      Guarded (SConn.step security) (SConn.RejectsLater security) (SConn.initial security) es := by
  constructor
  · refine guarded_imp (I := Fit security) (fun c e hfit hok => ?_) (fun c e hfit hok => ?_)
      (fit_initial security)
    · exact hfit.step hnone ((hfit.step_replied_iff hnone e).mp hok)
    · exact (hfit.step_replied_iff hnone e).mp hok
  · refine guarded_imp (I := Fit security) (fun c e hfit hok => ?_) (fun c e hfit hok => ?_)
      (fit_initial security)
    · exact hfit.step hnone hok
    · exact (hfit.step_replied_iff hnone e).mpr hok

theorem turnsWait_of_forall {σ : Type} {security : SecurityServer σ} :
    ∀ {turns : List Turn} {c : SConn σ}, (∀ t ∈ turns, ¬ t.env.Rejects) →
      c.TurnsWait security turns
  | [], _, _ => trivial
  | t :: _, _, h => fun _ => ⟨fun _ => h t List.mem_cons_self,
      fun _ _ => turnsWait_of_forall fun t ht => h t (List.mem_cons_of_mem _ ht)⟩

theorem one_security_result_quietSession :
    Guarded (SConn.step openServer) (fun c e => (c.step openServer e).Replied openServer)
      (SConn.initial openServer) quietSession := by
  refine (one_security_result_iff openServer (fun _ _ _ _ _ h => nomatch h) quietSession).mpr ?_
  refine ⟨fun _ => turnsWait_of_forall fun t ht => ?_, trivial⟩
  have henv : t.env = quietServerEnv := by
    simp only [List.mem_cons, List.not_mem_nil, or_false] at ht
    rcases ht with rfl | rfl | rfl <;> rfl
  rw [henv]
  rintro ⟨_, h⟩
  cases h

/-- Somebody is using the server, and nobody else is to. -/
def busyTurn (received : List Byte) : Turn :=
  ⟨received, { quietServerEnv with neverShared := true, authClientCount := 1 },
    fun _ => ([], .done)⟩

/-- The version and the type of a client that is refused. -/
def refusedSession : List SEvent :=
  [.processMessages [busyTurn (ascii "RFB 003.008\n"), busyTurn [1]] .done]

/-- It is told twice. -/
theorem refusedSession_replies :
    phase (run (SConn.step openServer) (SConn.initial openServer) refusedSession).log =
        .decided false
          [be32 SConn.secResultFailed ++ SConn.stringBytes "The server is already in use",
            be32 SConn.secResultFailed ++
              SConn.stringBytes "Authentication failure: The server is already in use"] ∧
      ¬ Guarded (SConn.step openServer) (fun c e => (c.step openServer e).Replied openServer)
        (SConn.initial openServer) refusedSession := by
  have hphase : phase (run (SConn.step openServer) (SConn.initial openServer) refusedSession).log =
      .decided false
        [be32 SConn.secResultFailed ++ SConn.stringBytes "The server is already in use",
          be32 SConn.secResultFailed ++
            SConn.stringBytes "Authentication failure: The server is already in use"] := by
    rfl
  refine ⟨hphase, fun h => ?_⟩
  have hreplied := (replied_iff_of_decided hphase).mp h.1
  unfold SConn.Proper at hreplied
  split at hreplied
  · obtain ⟨_, htwo, -⟩ := hreplied
    cases htwo
  · cases hreplied

end KasmVNC.Rfb
