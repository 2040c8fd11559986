import KasmVNC.Lib.Run
import KasmVNC.Rfb.SConnection

/-!
# Exclusive access

The connections of a server whose parameter `NeverShared` is set. A client that has sent its
ClientInit closes all others, or it is refused if there is another one that is authenticated.
The other parameters, access rights and the rest of the server are what each message finds.
-/

namespace KasmVNC.Rfb

open KasmVNC.Lib Throwing

variable {σ : Type} (security : SecurityServer σ)

/-! ## The server -/

structure VNCServerST (σ : Type) where
  neverShared : Bool
  clients : List (SConn σ)

inductive ServerEvent
  | addSocket
  | removeSocket (n : ℕ)
  /-- One turn of the loop in `processMessages`. Between two turns there may be other events. -/
  | processMessage (n : ℕ) (turn : Turn)
  | writeFramebufferUpdate (n : ℕ) (update : Outcome)
  | approveConnection (n : ℕ) (env : ServerEnv) (accept : Bool) (reason : Option String)
  | close (n : ℕ) (reason : String)
  | closeClients (reason : String)

/-- The first part of `clientInit`: the other clients are to be closed. -/
def ServerEnv.closesClients (env : ServerEnv) (wantsShared : Bool) : Bool :=
  let shared := (wantsShared || env.alwaysShared || env.reverseConnection ||
    !env.accessNonShared) && !env.neverShared
  !shared && (env.disconnectClients && env.accessNonShared)

namespace VNCServerST

variable (s : VNCServerST σ)

def initial (neverShared : Bool) : VNCServerST σ := ⟨neverShared, []⟩

/-- `authClientCount`, less the client itself. -/
def authClientCount (n : ℕ) : ℕ := (s.clients.eraseIdx n).countP fun c => c.state.authenticated

/-- What a message finds. -/
def env (n : ℕ) (env : ServerEnv) : ServerEnv :=
  { env with neverShared := s.neverShared, authClientCount := s.authClientCount n }

def modify (n : ℕ) (f : SConn σ → SConn σ) : VNCServerST σ :=
  { s with clients := s.clients.modify n f }

/-- `closeClients`, with or without an exception. -/
def closeClients (reason : String) (except : Option ℕ) : VNCServerST σ :=
  { s with clients := s.clients.mapIdx fun i c =>
    if except = some i then c else c.close reason }

/-- A message is ClientInit if the client is to be initialised. -/
def processMessage (n : ℕ) (turn : Turn) : VNCServerST σ :=
  let turn := { turn with env := s.env n turn.env }
  let closes := s.clients[n]?.any fun c => c.state = .initialisation ∧
    (c.input ++ turn.received).head?.any fun b => turn.env.closesClients (b ≠ 0)
  let s := if closes then s.closeClients "Non-shared connection requested" (some n) else s
  s.modify n fun c => c.step security (.processMessages [turn] .done)

def step : ServerEvent → VNCServerST σ
  | .addSocket => { s with clients := SConn.initial security :: s.clients }
  | .removeSocket n => { s with clients := s.clients.eraseIdx n }
  | .processMessage n turn => s.processMessage security n turn
  | .writeFramebufferUpdate n update =>
    s.modify n fun c => c.step security (.processMessages [] update)
  | .approveConnection n env accept reason =>
    s.modify n fun c => c.step security (.approveConnectionOrClose env accept reason)
  | .close n reason => s.modify n fun c => c.close reason
  | .closeClients reason => s.closeClients reason none

end VNCServerST

/-- A connection that is not closing, authenticated and in `RFBSTATE_NORMAL`. -/
def SConn.inSession (c : SConn σ) : Bool :=
  c.state ≠ .closing ∧ c.state.authenticated ∧ c.state = .normal

theorem SConn.inSession_iff {c : SConn σ} : c.inSession = true ↔ c.state = .normal := by
  unfold SConn.inSession
  rw [decide_eq_true_iff]
  constructor
  · exact fun h => h.2.2
  · intro h
    rw [h]
    decide

/-! ## One connection -/

section Connection

variable {security} {env : ServerEnv} {c : SConn σ}

/-- It is not in a session. -/
def Outside (c : SConn σ) : Prop := c.state ≠ .normal

theorem outside_setState {s : StateEnum} (c : SConn σ) (h : s ≠ .normal) :
    Outside (c.setState s) := h

theorem Outside.throw (h : Outside c) (e : SException) : (c.throw e).Leaves Outside := h

theorem outside_close (c : SConn σ) (reason : String) : Outside (c.close reason) := by
  unfold SConn.close
  dsimp only
  split
  · rename_i hclosing
    unfold Outside
    rw [hclosing]
    decide
  · exact outside_setState _ (by decide)

theorem Outside.approveConnection (h : Outside c) (accept : Bool) (reason : Option String) :
    (c.approveConnection security env accept reason).Leaves Outside := by
  unfold SConn.approveConnection
  dsimp only
  split
  · exact h
  · cases accept with
    | false => exact (outside_setState _ (by decide)).throw _
    | true =>
      rw [if_pos rfl]
      unfold SConn.authSuccess
      cases env.startDesktop with
      | none => exact outside_setState _ (by decide)
      | some e => exact (outside_setState _ (by decide)).throw e

theorem Outside.queryConnection (h : Outside c) :
    (c.queryConnection security env).Leaves Outside := by
  unfold SConn.queryConnection
  split
  · exact h.approveConnection _ _
  · split
    · exact h.approveConnection _ _
    · cases env.query with
      | none => exact h
      | some accept => exact h.approveConnection _ _

theorem Outside.processSecurityMsg (h : Outside c) :
    (c.processSecurityMsg security env).Leaves Outside := by
  unfold SConn.processSecurityMsg
  cases c.ssecurity with
  | none => exact h
  | some chosen =>
    refine Leaves.catching ?_ fun c e h => ?_
    · cases security.processMsg chosen.2 c.input with
      | authFailure reason written => exact h
      | exception text => exact h
      | said done object input written =>
        cases done with
        | false => exact h
        | true => exact (outside_setState _ (by decide)).queryConnection
    · cases e with
      | authFailure reason => exact h
      | _ => exact h

theorem leaves_throwConnFailedException (c : SConn σ) (str : String) :
    (c.throwConnFailedException str).Leaves Outside :=
  outside_setState _ (by decide)

theorem Outside.processSecurityTypeMsg (h : Outside c) :
    (c.processSecurityTypeMsg security env).Leaves Outside := by
  unfold SConn.processSecurityTypeMsg
  cases c.input with
  | nil => exact h
  | cons secType input =>
    dsimp only
    unfold SConn.processSecurityType
    split
    · exact h
    · dsimp only
      cases security.GetSSecurity (secType.setWidth 32) with
      | none => exact leaves_throwConnFailedException _ _
      | some object =>
        refine Outside.processSecurityMsg ?_
        exact (by decide : StateEnum.security ≠ .normal)

theorem leaves_versionReceived (c : SConn σ) :
    (c.versionReceived security env).Leaves Outside := by
  unfold SConn.versionReceived
  dsimp only
  split
  · cases security.GetEnabledSecTypes.find? _ with
    | none => exact leaves_throwConnFailedException _ _
    | some secType =>
      dsimp only
      cases security.GetSSecurity (secType.setWidth 32) with
      | none => exact outside_setState _ (by decide)
      | some object =>
        refine Outside.processSecurityMsg ?_
        exact (by decide : StateEnum.security ≠ .normal)
  · split
    · exact leaves_throwConnFailedException _ _
    · exact outside_setState _ (by decide)

theorem Outside.processVersionMsg (h : Outside c) :
    (c.processVersionMsg security env).Leaves Outside := by
  unfold SConn.processVersionMsg
  dsimp only
  split
  · exact outside_setState _ (by decide)
  · split
    · exact h
    · split
      · exact outside_setState _ (by decide)
      · split
        · exact leaves_throwConnFailedException _ _
        · exact leaves_versionReceived _

/-- The client is refused. -/
theorem outside_clientInit {wantsShared : Bool} (hnever : env.neverShared = true)
    (hcount : env.authClientCount ≠ 0) (hcloses : env.closesClients wantsShared = false) :
    Outside (c.clientInit env wantsShared) := by
  unfold ServerEnv.closesClients at hcloses
  unfold SConn.clientInit
  simp only [hnever, Bool.not_true, Bool.and_false, Bool.not_false, Bool.true_and] at hcloses ⊢
  rw [hcloses, if_pos (by simpa [Nat.pos_iff_ne_zero] using hcount)]
  exact outside_close _ _

/-- Only ClientInit lets a connection in, if it closes the others or there are none. -/
theorem Outside.processMsg {message : List Byte → List Byte × Outcome} (h : Outside c)
    (hinit : c.state = .initialisation → env.authClientCount ≠ 0 ∧
      ∀ b ∈ c.input.head?, env.closesClients (b ≠ 0) = false) (hnever : env.neverShared = true) :
    (c.processMsg security env message).Leaves Outside := by
  unfold SConn.processMsg
  cases hstate : c.state with
  | protocolVersion => exact h.processVersionMsg
  | securityType => exact h.processSecurityTypeMsg
  | security => exact h.processSecurityMsg
  | normal => exact absurd hstate h
  | initialisation =>
    obtain ⟨hcount, hcloses⟩ := hinit hstate
    unfold SConn.processInitMsg
    cases hinput : c.input with
    | nil => exact h
    | cons b input =>
      have hb : env.closesClients (b ≠ 0) = false := hcloses b (by rw [hinput]; rfl)
      exact outside_clientInit hnever hcount hb
  | _ => exact h

/-- What is left behind is outside, whether or not an exception closes it. -/
theorem outside_step {e : SEvent} (h : (c.attempt security e).Leaves Outside) :
    Outside (c.step security e) := by
  unfold SConn.step
  cases hr : c.attempt security e with
  | ok c =>
    rw [hr] at h
    exact h
  | error thrown => exact outside_close _ _

theorem outside_processMessage (h : Outside c) {turn : Turn}
    (hinit : c.state = .initialisation → turn.env.authClientCount ≠ 0 ∧
      ∀ b ∈ (c.input ++ turn.received).head?, turn.env.closesClients (b ≠ 0) = false)
    (hnever : turn.env.neverShared = true) :
    Outside (c.step security (.processMessages [turn] .done)) := by
  apply outside_step
  unfold SConn.attempt
  dsimp only
  split
  · exact h
  · refine Leaves.andThen ?_ fun c h => ?_
    · unfold SConn.processTurns
      dsimp only
      split
      · exact h
      · refine Leaves.andThen ?_ fun c h => h
        exact Outside.processMsg (c := { c with input := _ }) h hinit hnever
    · unfold SConn.writeFramebufferUpdate
      split
      · exact h
      · exact h

theorem outside_writeFramebufferUpdate (h : Outside c) (update : Outcome) :
    Outside (c.step security (.processMessages [] update)) := by
  apply outside_step
  unfold SConn.attempt
  dsimp only
  split
  · exact h
  · show (c.writeFramebufferUpdate update).Leaves Outside
    rw [SConn.writeFramebufferUpdate, if_pos (show c.state ≠ .normal from h)]
    exact h

theorem outside_approveConnection (h : Outside c) (accept : Bool) (reason : Option String) :
    Outside (c.step security (.approveConnectionOrClose env accept reason)) :=
  outside_step (h.approveConnection accept reason)

end Connection

/-! ## All connections -/

section Server

variable {security} {s : VNCServerST σ}

/-- At most one connection is in a session. -/
structure Exclusive (s : VNCServerST σ) : Prop where
  neverShared : s.neverShared = true
  one : s.clients.countP SConn.inSession ≤ 1

/-- Something happens to a connection that does not let it in. -/
theorem Exclusive.modify (h : Exclusive s) {n : ℕ} {f : SConn σ → SConn σ}
    (hf : ∀ c ∈ s.clients[n]?, Outside c → Outside (f c)) : Exclusive (s.modify n f) where
  neverShared := h.neverShared
  one := by
    refine le_trans (countP_modify_le fun c hc hin => ?_) h.one
    rw [SConn.inSession_iff] at hin ⊢
    by_contra hout
    exact hf c hc hout hin

/-- The others are outside. -/
theorem Exclusive.enters (h : s.neverShared = true) {n : ℕ} {f : SConn σ → SConn σ}
    (hothers : ∀ c ∈ s.clients.eraseIdx n, Outside c) : Exclusive (s.modify n f) where
  neverShared := h
  one := by
    have hnone : (s.clients.eraseIdx n).countP SConn.inSession = 0 := by
      refine List.countP_eq_zero.mpr fun c hc hin => ?_
      exact hothers c hc (SConn.inSession_iff.mp hin)
    have hle := countP_modify_le_succ SConn.inSession f s.clients n
    rwa [hnone] at hle

theorem outside_closeClients {reason : String} {except : Option ℕ} {i : ℕ} {c : SConn σ}
    (hi : (s.closeClients reason except).clients[i]? = some c) (hne : except ≠ some i) :
    Outside c := by
  rw [VNCServerST.closeClients, List.getElem?_mapIdx] at hi
  obtain ⟨old, -, rfl⟩ := Option.map_eq_some_iff.mp hi
  rw [if_neg hne]
  exact outside_close old reason

theorem Exclusive.closeClients (h : Exclusive s) (reason : String) :
    Exclusive (s.closeClients reason none) where
  neverShared := h.neverShared
  one := by
    have hnone : (s.closeClients reason none).clients.countP SConn.inSession = 0 := by
      refine List.countP_eq_zero.mpr fun c hc hin => ?_
      obtain ⟨i, hi⟩ := List.mem_iff_getElem?.mp hc
      exact outside_closeClients hi nofun (SConn.inSession_iff.mp hin)
    rw [hnone]
    exact Nat.zero_le 1

/-- **ClientInit** closes the others, or there are none, or it is refused. -/
theorem Exclusive.processMessage (h : Exclusive s) (n : ℕ) (turn : Turn) :
    Exclusive (s.processMessage security n turn) := by
  unfold VNCServerST.processMessage
  dsimp only
  split
  · refine Exclusive.enters (s := s.closeClients _ (some n)) h.neverShared fun c hc => ?_
    obtain ⟨i, hne, hi⟩ := List.mem_eraseIdx_iff_getElem?.mp hc
    exact outside_closeClients hi fun heq => hne (Option.some.inj heq).symm
  · rename_i hcloses
    by_cases hcount : s.authClientCount n = 0
    · refine Exclusive.enters h.neverShared fun c hc hnormal => ?_
      refine List.countP_eq_zero.mp hcount c hc ?_
      rw [hnormal]
      rfl
    · refine h.modify fun c hc hout => outside_processMessage hout (fun hinit => ?_) h.neverShared
      refine ⟨hcount, fun b hb => ?_⟩
      by_contra hb'
      refine hcloses ?_
      have hread : (c.input ++ turn.received).head?.any
          (fun b => (s.env n turn.env).closesClients (b ≠ 0)) = true := by
        rw [Option.mem_def.mp hb]
        exact Bool.of_not_eq_false hb'
      rw [Option.mem_def.mp hc, Option.any_some]
      exact decide_eq_true ⟨hinit, hread⟩

/-- **One event.** -/
theorem Exclusive.step (h : Exclusive s) (e : ServerEvent) : Exclusive (s.step security e) := by
  cases e with
  | addSocket =>
    refine ⟨h.neverShared, ?_⟩
    show (SConn.initial security :: s.clients).countP SConn.inSession ≤ 1
    rw [List.countP_cons_of_neg (by simp [SConn.inSession_iff, SConn.initial])]
    exact h.one
  | removeSocket n =>
    exact ⟨h.neverShared, le_trans (List.eraseIdx_sublist _ n).countP_le h.one⟩
  | processMessage n turn => exact h.processMessage n turn
  | writeFramebufferUpdate n update =>
    exact h.modify fun c _ hout => outside_writeFramebufferUpdate hout update
  | approveConnection n env accept reason =>
    exact h.modify fun c _ hout => outside_approveConnection hout accept reason
  | close n reason => exact h.modify fun c _ _ => outside_close c reason
  | closeClients reason => exact h.closeClients reason

/-- **Exclusive access.** In every run of a server with `NeverShared` at most one connection that
is not closing is authenticated and in `RFBSTATE_NORMAL`. -/
theorem at_most_one_in_session (security : SecurityServer σ) (es : List ServerEvent) :
    (run (VNCServerST.step security) (VNCServerST.initial true) es).clients.countP
      SConn.inSession ≤ 1 :=
  (run_invariant_all (I := Exclusive) (fun _ e h => h.step e) es
    (s := VNCServerST.initial true) ⟨rfl, Nat.zero_le 1⟩).one

end Server

end KasmVNC.Rfb
