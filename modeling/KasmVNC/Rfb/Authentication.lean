import KasmVNC.Lib.Run
import KasmVNC.Rfb.SConnection

/-!
# No session without authentication

Before a connection is in one of its last two states, the security object of a type that was
offered has said that it is done, and after that the connection has been approved. Once an
exception has left `processMessages` the connection is closed for good.
-/

namespace KasmVNC.Rfb

open KasmVNC.Lib Throwing

/-! ## What is to be -/

/-- The type has been offered. -/
def Offered (log : List SAction) (secType : Byte) : Prop :=
  ∃ secTypes, .offers secTypes ∈ log ∧ secType ∈ secTypes

/-- A security object has said that it is done, and its type had been offered. -/
def Completed (log : List SAction) : Prop :=
  ∃ before secType after, log = before ++ .processed secType true :: after ∧
    Offered before secType

/-- The connection has been approved after that. -/
def Authenticated (log : List SAction) : Prop :=
  ∃ before after, log = before ++ .approves true :: after ∧ Completed before

/-- The connection changes to one of the last two states. -/
def OpensSession (a : SAction) : Prop := ∃ s, a = .state s ∧ s.authenticated = true

theorem Offered.append {log : List SAction} {secType : Byte} (h : Offered log secType)
    (more : List SAction) : Offered (log ++ more) secType := by
  obtain ⟨secTypes, hmem, hin⟩ := h
  exact ⟨secTypes, List.mem_append_left more hmem, hin⟩

theorem Completed.append {log : List SAction} (h : Completed log) (more : List SAction) :
    Completed (log ++ more) := by
  obtain ⟨before, secType, after, rfl, hoffered⟩ := h
  exact ⟨before, secType, after ++ more, by simp, hoffered⟩

theorem Authenticated.append {log : List SAction} (h : Authenticated log)
    (more : List SAction) : Authenticated (log ++ more) := by
  obtain ⟨before, after, rfl, hcompleted⟩ := h
  exact ⟨before, after ++ more, by simp, hcompleted⟩

/-! ## The invariant -/

/-- What the log says about a state. -/
def Justified {σ : Type} (security : SecurityServer σ) (log : List SAction) :
    StateEnum → Prop
  | .securityType => .offers security.GetEnabledSecTypes ∈ log
  | .querying => Completed log
  | .initialisation | .normal => Authenticated log
  | _ => True

structure Sound {σ : Type} (security : SecurityServer σ) (c : SConn σ) : Prop where
  opened : Preceded OpensSession Authenticated c.log
  justified : Justified security c.log c.state
  chosen : ∀ secType object, c.ssecurity = some (secType, object) → Offered c.log secType

section Sound

variable {σ : Type} {security : SecurityServer σ} {env : ServerEnv} {c : SConn σ}

theorem Justified.append {log : List SAction} {s : StateEnum} (h : Justified security log s)
    (more : List SAction) : Justified security (log ++ more) s := by
  cases s with
  | securityType => exact List.mem_append_left more h
  | querying => exact Completed.append h more
  | initialisation => exact Authenticated.append h more
  | normal => exact Authenticated.append h more
  | _ => trivial

theorem justified_authenticated {log : List SAction} {s : StateEnum}
    (h : Justified security log s) (hs : s.authenticated = true) : Authenticated log := by
  cases s with
  | initialisation => exact h
  | normal => exact h
  | _ => exact absurd hs (by decide)

/-- Other members may change. -/
theorem Sound.of_same {c' : SConn σ} (h : Sound security c) (hlog : c'.log = c.log)
    (hstate : c'.state = c.state) (hsec : c'.ssecurity = c.ssecurity) : Sound security c' where
  opened := hlog ▸ h.opened
  justified := hlog ▸ hstate ▸ h.justified
  chosen := hlog ▸ hsec ▸ h.chosen

/-- An action that is no change of state. -/
theorem Sound.act {a : SAction} (h : Sound security c) (ha : ¬OpensSession a) :
    Sound security (c.act a) where
  opened := h.opened.concat fun hopens => absurd hopens ha
  justified := h.justified.append [a]
  chosen secType object hsome := (h.chosen secType object hsome).append [a]

theorem Sound.write (h : Sound security c) (bytes : List Byte) : Sound security (c.write bytes) :=
  h.act fun ⟨_, h, _⟩ => nomatch h

/-- A change of state has to be justified. -/
theorem Sound.setState {s : StateEnum} (h : Sound security c) (hs : Justified security c.log s) :
    Sound security (c.setState s) where
  opened := h.opened.concat fun ⟨_, heq, hauth⟩ => by
    cases heq
    exact justified_authenticated hs hauth
  justified := hs.append [.state s]
  chosen secType object hsome := (h.chosen secType object hsome).append [.state s]

/-- Two states are always justified. -/
theorem Sound.invalid (h : Sound security c) : Sound security (c.setState .invalid) :=
  h.setState trivial

theorem Sound.enterSecurity (h : Sound security c) : Sound security (c.setState .security) :=
  h.setState trivial

theorem Sound.close (h : Sound security c) (reason : String) :
    Sound security (c.close reason) := by
  have hc : Sound security { c with closeReason := some (c.closeReason.getD reason) } :=
    h.of_same rfl rfl rfl
  unfold SConn.close
  dsimp only
  split
  · exact hc
  · exact hc.setState trivial

theorem close_state (c : SConn σ) (reason : String) : (c.close reason).state = .closing := by
  unfold SConn.close
  dsimp only
  split
  · assumption
  · rfl

theorem Sound.throw (h : Sound security c) (e : SException) :
    (c.throw e).Leaves (Sound security) := h

/-! ### Approval -/

theorem Sound.authSuccess (h : Sound security c) :
    (c.authSuccess env).Leaves (Sound security) := by
  unfold SConn.authSuccess
  cases env.startDesktop with
  | none => exact h
  | some e => exact h

/-- **Approval** is what is missing when the connection is queried. -/
theorem Sound.approveConnection (h : Sound security c) (accept : Bool)
    (reason : Option String) :
    (c.approveConnection security env accept reason).Leaves (Sound security) := by
  have hact : Sound security (c.act (.approves accept)) := h.act fun ⟨_, h, _⟩ => nomatch h
  unfold SConn.approveConnection
  dsimp only
  by_cases hstate : (c.act (.approves accept)).state = .querying
  · have hcompleted : Completed c.log := by
      have hj := h.justified
      rw [show c.state = .querying from hstate] at hj
      exact hj
    have hanswered : ∀ answered : SConn σ, Sound security answered →
        (∃ more, answered.log = c.log ++ .approves accept :: more) →
        Leaves (if accept = true then (answered.setState .initialisation).authSuccess env
          else (answered.setState .invalid).throw (.authFailure reason)) (Sound security) := by
      rintro answered hsound ⟨more, hlog⟩
      cases accept with
      | false => exact hsound.invalid.throw _
      | true =>
        have happroved : Authenticated answered.log := ⟨c.log, more, hlog, hcompleted⟩
        exact (hsound.setState (s := .initialisation) happroved).authSuccess
    rw [if_neg (not_not.mpr hstate)]
    refine hanswered _ ?_ ?_
    · split
      · exact hact.write _
      · exact hact
    · split
      · exact ⟨_, List.append_assoc _ _ _⟩
      · exact ⟨[], rfl⟩
  · rw [if_pos hstate]
    exact hact.throw _

theorem Sound.queryConnection (h : Sound security c) :
    (c.queryConnection security env).Leaves (Sound security) := by
  unfold SConn.queryConnection
  split
  · exact h.approveConnection _ _
  · split
    · exact h.approveConnection _ _
    · cases env.query with
      | none => exact h
      | some accept => exact h.approveConnection _ _

/-! ### Security -/

theorem Sound.writeAuthFailure (h : Sound security c) (e : SException) :
    (SConn.writeAuthFailure c e).Leaves (Sound security) := by
  cases e with
  | authFailure reason => exact (h.write _).throw _
  | _ => exact h.throw _

/-- **Completion** is reported by an object whose type was offered. -/
theorem Sound.processSecurityMsg (h : Sound security c) :
    (c.processSecurityMsg security env).Leaves (Sound security) := by
  unfold SConn.processSecurityMsg
  cases hsec : c.ssecurity with
  | none => exact h.throw _
  | some chosen =>
    obtain ⟨secType, object⟩ := chosen
    have hoffered := h.chosen secType object hsec
    refine Leaves.catching ?_ fun c e h => h.writeAuthFailure e
    cases hsaid : security.processMsg object c.input with
    | authFailure reason written => exact (h.write written).throw _
    | exception text => exact h.throw _
    | said done object input written =>
      have hwritten := h.write written
      have hkept : Sound security
          { c.write written with ssecurity := some (secType, object), input := input } :=
        { opened := hwritten.opened
          justified := hwritten.justified
          chosen := by
            rintro _ _ heq
            cases heq
            exact hoffered.append _ }
      have hact := hkept.act (a := .processed secType done) fun ⟨_, h, _⟩ => nomatch h
      dsimp only
      cases done with
      | false => exact hact
      | true =>
        refine (hact.setState ?_).queryConnection
        exact ⟨_, secType, [], rfl, hoffered.append _⟩

theorem Sound.throwConnFailedException (h : Sound security c) (str : String) :
    (c.throwConnFailedException str).Leaves (Sound security) := by
  unfold SConn.throwConnFailedException
  dsimp only
  split
  · exact (h.write _).invalid.throw _
  · exact h.invalid.throw _

/-- The new security object. -/
theorem Sound.chooses (h : Sound security c) {secType : Byte} (object : σ)
    (hoffered : Offered c.log secType) :
    (({ c with ssecurity := some (secType, object) } : SConn σ).processSecurityMsg
      security env).Leaves (Sound security) := by
  refine Sound.processSecurityMsg ⟨h.opened, h.justified, ?_⟩
  rintro _ _ heq
  cases heq
  exact hoffered

theorem Sound.processSecurityType (h : Sound security c) (hstate : c.state = .securityType)
    (secType : Byte) :
    (c.processSecurityType security env secType).Leaves (Sound security) := by
  have hoffers : .offers security.GetEnabledSecTypes ∈ c.log := by
    have hj := h.justified
    rw [hstate] at hj
    exact hj
  unfold SConn.processSecurityType
  by_cases hin : secType ∈ security.GetEnabledSecTypes
  · have hset := h.enterSecurity
    have hoffered : Offered (c.setState .security).log secType :=
      Offered.append ⟨_, hoffers, hin⟩ _
    rw [if_neg (not_not.mpr hin)]
    dsimp only
    cases security.GetSSecurity (secType.setWidth 32) with
    | none => exact hset.throwConnFailedException _
    | some object => exact hset.chooses object hoffered
  · rw [if_pos hin]
    exact h.throw _

theorem Sound.processSecurityTypeMsg (h : Sound security c) (hstate : c.state = .securityType) :
    (c.processSecurityTypeMsg security env).Leaves (Sound security) := by
  unfold SConn.processSecurityTypeMsg
  cases c.input with
  | nil => exact h.throw _
  | cons secType input =>
    have hread : Sound security { c with input := input } := h.of_same rfl rfl rfl
    exact hread.processSecurityType hstate secType

/-! ### The version -/

theorem Sound.versionReceived (h : Sound security c) :
    (c.versionReceived security env).Leaves (Sound security) := by
  unfold SConn.versionReceived
  dsimp only
  split
  · cases security.GetEnabledSecTypes.find? _ with
    | none => exact h.throwConnFailedException _
    | some secType =>
      have hoffers : Sound security ((c.write (be32 (secType.setWidth 32))).act
          (.offers [secType])) := (h.write _).act fun ⟨_, h, _⟩ => nomatch h
      have hset := hoffers.enterSecurity
      dsimp only
      cases security.GetSSecurity (secType.setWidth 32) with
      | none => exact hset.throw _
      | some object =>
        refine hset.chooses object (Offered.append ⟨[secType], ?_, List.mem_singleton_self _⟩ _)
        exact List.mem_append_right _ (List.mem_singleton_self _)
  · split
    · exact h.throwConnFailedException _
    · refine Sound.setState (Sound.act (h.write _) ?_) ?_
      · exact fun ⟨_, h, _⟩ => nomatch h
      · exact List.mem_append_right _ (List.mem_singleton_self _)

theorem Sound.processVersionMsg (h : Sound security c) :
    (c.processVersionMsg security env).Leaves (Sound security) := by
  unfold SConn.processVersionMsg
  dsimp only
  split
  · exact h.invalid.throw _
  · split
    · exact h.of_same rfl rfl rfl
    · split
      · refine Sound.throw (Sound.invalid ?_) _
        exact h.of_same rfl rfl rfl
      · split
        · refine Sound.throwConnFailedException ?_ _
          exact h.of_same rfl rfl rfl
        · refine Sound.versionReceived ?_
          exact h.of_same rfl rfl rfl

/-! ### After the handshake -/

theorem Sound.clientInit (h : Sound security c) (hstate : c.state = .initialisation)
    (wantsShared : Bool) : Sound security (c.clientInit env wantsShared) := by
  have hauth : Authenticated c.log := justified_authenticated h.justified (by rw [hstate]; rfl)
  unfold SConn.clientInit
  dsimp only
  split
  · exact h.close _
  · exact (h.write _).setState (Authenticated.append hauth _)

theorem Sound.processInitMsg (h : Sound security c) (hstate : c.state = .initialisation) :
    (c.processInitMsg env).Leaves (Sound security) := by
  unfold SConn.processInitMsg
  cases c.input with
  | nil => exact h.throw _
  | cons b input =>
    have hread : Sound security { c with input := input } := h.of_same rfl rfl rfl
    exact hread.clientInit hstate (b ≠ 0)

theorem Sound.outcome (h : Sound security c) (o : Outcome) :
    (c.outcome o).Leaves (Sound security) := by
  cases o with
  | done => exact h
  | closes reason => exact h.close reason
  | throws e => exact h.throw e

/-- **One message**, in any state. -/
theorem Sound.processMsg (h : Sound security c) (message : List Byte → List Byte × Outcome) :
    (c.processMsg security env message).Leaves (Sound security) := by
  unfold SConn.processMsg
  cases hstate : c.state with
  | protocolVersion => exact h.processVersionMsg
  | securityType => exact h.processSecurityTypeMsg hstate
  | security => exact h.processSecurityMsg
  | initialisation => exact h.processInitMsg hstate
  | normal =>
    refine Sound.outcome ?_ _
    exact h.of_same rfl hstate.symm rfl
  | _ => exact h.throw _

/-! ### Runs -/

theorem Sound.processTurns : ∀ {turns : List Turn} {c : SConn σ}, Sound security c →
    (c.processTurns security turns).Leaves (Sound security)
  | [], _, h => h
  | t :: turns, c, h => by
    have hreceived : Sound security { c with input := c.input ++ t.received } :=
      h.of_same rfl rfl rfl
    unfold SConn.processTurns
    dsimp only
    split
    · exact hreceived
    · exact (hreceived.processMsg t.message).andThen fun c h => h.processTurns

theorem Sound.attempt (h : Sound security c) (e : SEvent) :
    (c.attempt security e).Leaves (Sound security) := by
  cases e with
  | processMessages turns update =>
    rw [SConn.attempt]
    by_cases hstate : c.state = .closing
    · rw [if_pos hstate]
      exact h
    · rw [if_neg hstate]
      refine h.processTurns.andThen fun c h => ?_
      unfold SConn.writeFramebufferUpdate
      split
      · exact h
      · exact h.outcome update
  | approveConnectionOrClose env accept reason => exact h.approveConnection accept reason
  | close reason => exact h.close reason

theorem Sound.step (h : Sound security c) (e : SEvent) : Sound security (c.step security e) := by
  have hattempt := h.attempt e
  unfold SConn.step
  cases hr : c.attempt security e with
  | ok c =>
    rw [hr] at hattempt
    exact hattempt
  | error thrown =>
    rw [hr] at hattempt
    exact Sound.close hattempt _

theorem sound_initial (security : SecurityServer σ) :
    Sound security (SConn.initial security) where
  opened := by
    refine Preceded.concat (Preceded.concat preceded_nil ?_) ?_
    · rintro ⟨_, h, _⟩
      cases h
    · rintro ⟨_, h, hauth⟩
      cases h
      exact absurd hauth (by decide)
  justified := trivial
  chosen _ _ h := nomatch h

/-! ## Closed connections -/

theorem step_of_closing (hstate : c.state = .closing) (e : SEvent) :
    (c.step security e).state = .closing := by
  unfold SConn.step
  cases hr : c.attempt security e with
  | error thrown => exact close_state _ _
  | ok c' =>
    cases e with
    | processMessages turns update =>
      rw [SConn.attempt, if_pos hstate] at hr
      cases hr
      exact hstate
    | approveConnectionOrClose env accept reason =>
      have hne : (c.act (.approves accept)).state ≠ .querying := by
        show c.state ≠ _
        rw [hstate]
        decide
      rw [SConn.attempt, SConn.approveConnection, if_pos hne] at hr
      cases hr
    | close reason =>
      cases hr
      exact close_state c reason

theorem step_of_throws {e : SEvent} {thrown : SConn σ × SException}
    (h : c.attempt security e = .error thrown) : (c.step security e).state = .closing := by
  unfold SConn.step
  rw [h]
  exact close_state _ _

/-- **No session without authentication.** In every run each change to one of the last two
states, and being in one of them, comes after a completed authentication with an offered type
and an approval behind it; and after an exception the connection stays closed. -/
theorem no_session_without_authentication (security : SecurityServer σ) (es : List SEvent) :
    let c := run (SConn.step security) (SConn.initial security) es
    Preceded OpensSession Authenticated c.log ∧
      (c.state.authenticated = true → Authenticated c.log) ∧
      ∀ e thrown, c.attempt security e = .error thrown →
        ∀ fs, (run (SConn.step security) (c.step security e) fs).state = .closing := by
  have hsound := run_invariant_all (I := Sound security) (fun _ e h => Sound.step h e) es
    (sound_initial security)
  refine ⟨hsound.opened, justified_authenticated hsound.justified, fun e thrown hthrown fs => ?_⟩
  exact run_invariant_all (I := fun c : SConn σ => c.state = .closing)
    (fun _ e h => step_of_closing h e) fs (step_of_throws hthrown)

end Sound

/-- A server that asks for nothing. -/
def openServer : SecurityServer Unit where
  protocol3_3 := false
  enabledSecTypes := [secTypeNone]
  create _ := ()
  getType _ := secTypeNone
  processMsg _ input := .said true () input []

def quietServerEnv : ServerEnv where
  neverShared := false
  alwaysShared := false
  disconnectClients := false
  reverseConnection := false
  queryConnect := false
  requiresQuery := false
  accessNoQuery := false
  accessNonShared := true
  authClientCount := 0
  query := none
  queryReason := none
  startDesktop := none
  serverInit := []

def quietTurn (received : List Byte) : Turn := ⟨received, quietServerEnv, fun _ => ([], .done)⟩

/-- The version, the type and the flag of the client. -/
def quietSession : List SEvent :=
  [.processMessages
    [quietTurn (ascii "RFB 003.008\n"), quietTurn [1], quietTurn [1]] .done]

def openSession : SConn Unit :=
  run (SConn.step openServer) (SConn.initial openServer) quietSession

theorem openSession_state : openSession.state = .normal := by decide

/-- The session is there, and an update that cannot be written ends it. -/
theorem no_session_openServer :
    Authenticated openSession.log ∧ ∀ fs, (run (SConn.step openServer)
      (openSession.step openServer (.processMessages [] (.throws .endOfStream))) fs).state =
        .closing := by
  have h := no_session_without_authentication openServer quietSession
  refine ⟨h.2.1 ?_, h.2.2 _ (openSession, .endOfStream) ?_⟩
  · show openSession.state.authenticated = true
    rw [openSession_state]
    rfl
  · show SConn.attempt openServer openSession _ = _
    rw [SConn.attempt, if_neg (by rw [openSession_state]; decide)]
    show openSession.writeFramebufferUpdate _ = _
    rw [SConn.writeFramebufferUpdate, if_neg (not_not.mpr openSession_state)]
    rfl

end KasmVNC.Rfb
