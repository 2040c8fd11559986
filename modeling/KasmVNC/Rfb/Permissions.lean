import KasmVNC.Rfb.KeysBalanced

/-!
# Permissions

The rights of a connection come from the password file. When the file has changed,
`recheckPerms` sets a flag; the file is read again by `writeFramebufferUpdate`, after
all of its early returns. The input handlers look at the rights alone.
-/

namespace KasmVNC.Rfb

open KasmVNC.Lib

abbrev AccessView : BitVec 16 := 0x0001
abbrev AccessKeyEvents : BitVec 16 := 0x0002
abbrev AccessPtrEvents : BitVec 16 := 0x0004
abbrev AccessCutText : BitVec 16 := 0x0008
abbrev AccessSetDesktopSize : BitVec 16 := 0x0010
abbrev AccessDefault : BitVec 16 := 0x03ff

abbrev WRITER_PERMS : BitVec 16 :=
  AccessKeyEvents ||| AccessPtrEvents ||| AccessCutText ||| AccessSetDesktopSize

/-- The rights that the input handlers ask for. -/
abbrev inputPerms : BitVec 16 := AccessKeyEvents ||| AccessPtrEvents ||| AccessCutText

/-! ## The password file -/

structure PasswdEntry where
  read : Bool
  write : Bool
deriving DecidableEq

/-- The entry of the connection's user, if there is one. -/
structure Passwd where
  disablebasicauth : Bool
  entry : Option PasswdEntry
deriving DecidableEq

namespace Passwd

/-- Whether the user may read and write. Writer can always read -/
def getPerms (p : Passwd) : Option (Bool × Bool) :=
  if p.disablebasicauth then some (true, true)
  else p.entry.map fun e => (e.read || e.write, e.write)

def grantsWrite (p : Passwd) : Bool := (p.getPerms.map Prod.snd).getD false

end Passwd

/-! ## Messages -/

/-- What `pointerEvent` reads of the server, with the translated DLP region. -/
structure PointerEnv where
  acceptPointerEvents : Bool
  otherPointerClient : Bool
  width : ℤ
  height : ℤ
  dlpRegion : Option Rect
  allowClick : Bool
  allowRelease : Bool

structure PointerMsg where
  x : ℕ
  y : ℕ
  buttonMask : ℕ
  scrollX : ℤ
  scrollY : ℤ

inductive InputMsg
  | key (env : KeyEnv) (keysym keycode : UInt32) (down : Bool)
  | pointer (env : PointerEnv) (msg : PointerMsg)
  | clipboard (acceptCutText : Bool) (mimes : List String)
  | updateRequest (incremental nonempty : Bool)
  | enableContinuousUpdates (enable : Bool)
  | syncNextFence
  | other

/-- What the desktop is told. -/
inductive DesktopCall
  | key (call : KeyCall)
  | pointer (pos abspos : Point) (buttonMask : ℕ) (skipClick skipRelease : Bool)
      (scrollX scrollY : ℤ)
  | clipboard (mimes : List String)
deriving DecidableEq

/-! ## The connection -/

inductive RFBState
  | handshake
  | normal
  | closing
deriving DecidableEq

/-- The members of `VNCSConnectionST` that rights and input depend on; of the requested
region only whether there is one. -/
structure InputConn where
  state : RFBState
  accessRights : BitVec 16
  needsPermCheck : Bool
  requested : Bool
  continuousUpdates : Bool
  inProcessMessages : Bool
  pendingSyncFence : Bool
  syncFence : Bool
  keys : KeyState
  pointerEventPos : Point

namespace InputConn

def may (c : InputConn) (right : BitVec 16) : Bool := c.accessRights &&& right ≠ 0

def recheckPerms (c : InputConn) : InputConn := { c with needsPermCheck := true }

/-- A relative coordinate, with its sign in a bit. -/
def relative (v : ℕ) : ℤ :=
  let v := v - (v &&& 0x4000)
  if v &&& 0x8000 ≠ 0 then -((v - 0x8000 : ℕ) : ℤ) else v

/-- Move a coordinate, but not out of the screen. -/
def moveBy (pos delta limit : ℤ) : ℤ :=
  if delta < 0 then if pos + delta ≥ 0 then pos + delta else 0
  else if pos + delta ≥ limit then limit else pos + delta

def pointerEvent (env : PointerEnv) (c : InputConn) (msg : PointerMsg) :
    InputConn × List DesktopCall :=
  if !c.may AccessPtrEvents then (c.recheckPerms, [])
  else if !env.acceptPointerEvents then (c, [])
  else if env.otherPointerClient then (c, [])
  else
    let isRelative : Bool := msg.x &&& 0x4000 ≠ 0
    let pos : Point := (msg.x, msg.y)
    let newpos : Point := if isRelative then (relative msg.x, relative msg.y) else pos
    let abspos : Point :=
      if isRelative then
        (moveBy c.pointerEventPos.1 newpos.1 env.width,
          moveBy c.pointerEventPos.2 newpos.2 env.height)
      else pos
    let outside : Bool := env.dlpRegion.any fun r =>
      pos.1 < r.tl.1 || pos.1 ≥ r.br.1 || pos.2 < r.tl.2 || pos.2 ≥ r.br.2
    ({ c with pointerEventPos := abspos },
      [.pointer newpos abspos msg.buttonMask (outside && !env.allowClick)
        (outside && !env.allowRelease) msg.scrollX msg.scrollY])

def handleClipboardAnnounceBinary (acceptCutText : Bool) (c : InputConn) (mimes : List String) :
    InputConn × List DesktopCall :=
  if !c.may AccessCutText then (c, [])
  else if !acceptCutText then (c, [])
  else (c, [.clipboard mimes])

def framebufferUpdateRequest (c : InputConn) (incremental nonempty : Bool) : InputConn :=
  if !c.may AccessView then c
  else if !incremental || !c.continuousUpdates then
    { c with requested := c.requested || nonempty }
  else c

def enableContinuousUpdates (c : InputConn) (enable : Bool) : InputConn :=
  { c with continuousUpdates := enable, requested := !enable && c.requested }

/-- Messages are handled in the normal state. -/
def processMsg (c : InputConn) : InputMsg → InputConn × List DesktopCall
  | m =>
    if c.state ≠ .normal then (c, [])
    else
      match m with
      | .key env keysym keycode down =>
        let r := keyEvent { env with accessKeyEvents := c.may AccessKeyEvents } c.keys
          keysym keycode down
        ({ c with keys := r.1 }, r.2.map .key)
      | .pointer env msg => c.pointerEvent env msg
      | .clipboard acceptCutText mimes => c.handleClipboardAnnounceBinary acceptCutText mimes
      | .updateRequest incremental nonempty =>
        (c.framebufferUpdateRequest incremental nonempty, [])
      | .enableContinuousUpdates enable => (c.enableContinuousUpdates enable, [])
      | .syncNextFence => ({ c with pendingSyncFence := true }, [])
      | .other => (c, [])

/-- One turn of the loop in `processMessages`. -/
def receive (c : InputConn) (m : InputMsg) : InputConn × List DesktopCall :=
  let c := { c with syncFence := c.syncFence || c.pendingSyncFence, pendingSyncFence := false }
  let r := c.processMsg m
  ({ r.1 with syncFence := false }, r.2)

/-! ## Updates -/

/-- Read the password file again. A user who is not in it is thrown out. -/
def checkPerms (c : InputConn) (passwd : Passwd) : InputConn :=
  match passwd.getPerms with
  | none => { c with needsPermCheck := false, state := .closing }
  | some (read, write) =>
    let rights :=
      if !write then c.accessRights &&& ~~~WRITER_PERMS else c.accessRights ||| WRITER_PERMS
    { c with
      needsPermCheck := false
      accessRights := if !read then rights &&& ~~~AccessView else rights ||| AccessView }

/-- What an attempt to write an update meets: congestion, and whether a request is left
when the update has been written. -/
structure UpdateEnv where
  congested : Bool
  requestLeft : Bool

/-- `writeFramebufferUpdate` gets past its early returns. -/
def passesReturns (c : InputConn) (env : UpdateEnv) : Bool :=
  !c.syncFence && !c.inProcessMessages && c.state = .normal &&
    (c.requested || c.continuousUpdates) && !env.congested

def writeFramebufferUpdate (c : InputConn) (passwd : Passwd) (env : UpdateEnv) : InputConn :=
  if !c.passesReturns env then c
  else
    -- Check for permission changes?
    let c := if c.needsPermCheck then c.checkPerms passwd else c
    if c.state ≠ .normal then c
    else if !c.may AccessView then c
    else { c with requested := c.requested && env.requestLeft }

end InputConn

/-! ## Runs -/

structure InputWorld where
  conn : InputConn
  passwd : Passwd

/-- The messages are handled in `processMessages`, between its begin and its end. A
server frame sets the flag and then tries to write an update, as timers do too. -/
inductive InputEvent
  | beginMessages
  | message (m : InputMsg)
  | endMessages (env : InputConn.UpdateEnv)
  | writeFramebufferUpdate (env : InputConn.UpdateEnv)
  | recheckPerms
  | setPasswd (passwd : Passwd)

namespace InputWorld

def step (w : InputWorld) : InputEvent → InputWorld
  | .beginMessages =>
    if w.conn.state = .closing then w
    else { w with conn := { w.conn with inProcessMessages := true } }
  | .message m =>
    if w.conn.inProcessMessages then { w with conn := (w.conn.receive m).1 } else w
  | .endMessages env =>
    if w.conn.inProcessMessages then
      { w with conn :=
          { w.conn with inProcessMessages := false }.writeFramebufferUpdate w.passwd env }
    else w
  | .writeFramebufferUpdate env =>
    { w with conn := w.conn.writeFramebufferUpdate w.passwd env }
  | .recheckPerms => { w with conn := w.conn.recheckPerms }
  | .setPasswd passwd => { w with passwd := passwd }

/-- The step is an update that gets past the early returns. -/
def Refreshes (w : InputWorld) : InputEvent → Prop
  | .endMessages env =>
    w.conn.inProcessMessages = true ∧
      { w.conn with inProcessMessages := false }.passesReturns env = true
  | .writeFramebufferUpdate env => w.conn.passesReturns env = true
  | _ => False

/-- Some update of the run gets past the early returns. -/
def Refreshed : InputWorld → List InputEvent → Prop
  | _, [] => False
  | w, e :: es => w.Refreshes e ∨ Refreshed (w.step e) es

end InputWorld

/-! ## After a revocation -/

namespace InputConn

variable {c : InputConn}

/-- The connection has no rights to input, or is closed. -/
def Revoked (c : InputConn) : Prop := c.state ≠ .normal ∨ c.accessRights &&& inputPerms = 0

theorem and_eq_zero_of_subset {r big small : BitVec 16} (hsub : small &&& big = small)
    (h : r &&& big = 0) : r &&& small = 0 := by
  rw [← hsub, BitVec.and_comm small, ← BitVec.and_assoc, h]
  exact BitVec.zero_and

theorem may_eq_false {right : BitVec 16} (hsub : right &&& inputPerms = right)
    (h : c.accessRights &&& inputPerms = 0) : c.may right = false := by
  unfold may
  rw [and_eq_zero_of_subset hsub h]
  rfl

/-- The keyboard is not asked if the right is missing. -/
theorem keyEvent_refused (env : KeyEnv) (st : KeyState) (keysym keycode : UInt32) (down : Bool) :
    keyEvent { env with accessKeyEvents := false } st keysym keycode down = (st, []) := by
  unfold keyEvent refusesKey
  simp

/-- Nothing of a revoked connection reaches the desktop. -/
theorem Revoked.silent (h : c.Revoked) (m : InputMsg) : (c.processMsg m).2 = [] := by
  unfold processMsg
  split
  · rfl
  · rename_i hstate
    have hrights := h.resolve_left hstate
    cases m with
    | key env keysym keycode down =>
      dsimp only
      rw [may_eq_false (by decide) hrights, keyEvent_refused]
      rfl
    | pointer env msg =>
      show (c.pointerEvent env msg).2 = []
      unfold pointerEvent
      rw [may_eq_false (by decide) hrights]
      rfl
    | clipboard acceptCutText mimes =>
      show (c.handleClipboardAnnounceBinary acceptCutText mimes).2 = []
      unfold handleClipboardAnnounceBinary
      rw [may_eq_false (by decide) hrights]
      rfl
    | updateRequest incremental nonempty => rfl
    | enableContinuousUpdates enable => rfl
    | syncNextFence => rfl
    | other => rfl

theorem Revoked.of_same {c c' : InputConn} (hstate : c'.state = c.state)
    (hrights : c'.accessRights = c.accessRights) (h : c.Revoked) : c'.Revoked := by
  unfold Revoked
  rw [hstate, hrights]
  exact h

theorem Revoked.receive_silent (h : c.Revoked) (m : InputMsg) : (c.receive m).2 = [] := by
  have hsame : { c with
      syncFence := c.syncFence || c.pendingSyncFence
      pendingSyncFence := false }.Revoked := Revoked.of_same rfl rfl h
  exact hsame.silent m

/-- Handling a message changes neither the state nor the rights, and does not forget
that the rights are to be checked. -/
structure SameRights (c c' : InputConn) : Prop where
  state : c'.state = c.state
  rights : c'.accessRights = c.accessRights
  flag : c.needsPermCheck = true → c'.needsPermCheck = true

theorem processMsg_sameRights (c : InputConn) (m : InputMsg) : c.SameRights (c.processMsg m).1 := by
  have hself : c.SameRights c := ⟨rfl, rfl, id⟩
  unfold processMsg
  split
  · exact hself
  · cases m with
    | key env keysym keycode down => exact ⟨rfl, rfl, id⟩
    | pointer env msg =>
      show c.SameRights (c.pointerEvent env msg).1
      unfold pointerEvent
      split
      · exact ⟨rfl, rfl, fun _ => rfl⟩
      · split
        · exact hself
        · split
          · exact hself
          · exact ⟨rfl, rfl, id⟩
    | clipboard acceptCutText mimes =>
      show c.SameRights (c.handleClipboardAnnounceBinary acceptCutText mimes).1
      unfold handleClipboardAnnounceBinary
      split
      · exact hself
      · split <;> exact hself
    | updateRequest incremental nonempty =>
      show c.SameRights (c.framebufferUpdateRequest incremental nonempty)
      unfold framebufferUpdateRequest
      split
      · exact hself
      · split
        · exact ⟨rfl, rfl, id⟩
        · exact hself
    | enableContinuousUpdates enable => exact ⟨rfl, rfl, id⟩
    | syncNextFence => exact ⟨rfl, rfl, id⟩
    | other => exact hself

theorem receive_sameRights (c : InputConn) (m : InputMsg) : c.SameRights (c.receive m).1 := by
  obtain ⟨hstate, hrights, hflag⟩ := processMsg_sameRights
    { c with syncFence := c.syncFence || c.pendingSyncFence, pendingSyncFence := false } m
  exact ⟨hstate, hrights, hflag⟩

/-- The check takes the rights away if the file does not grant them. -/
theorem checkPerms_revoked {passwd : Passwd} (h : passwd.grantsWrite = false) (c : InputConn) :
    (c.checkPerms passwd).Revoked := by
  unfold checkPerms
  unfold Passwd.grantsWrite at h
  split
  · exact Or.inl (fun hstate => nomatch hstate)
  · rename_i read write hperms
    rw [hperms] at h
    have hwrite : write = false := h
    subst hwrite
    refine Or.inr ?_
    have hkept : ∀ b : BitVec 16, (b &&& ~~~WRITER_PERMS) &&& inputPerms = 0 := by
      intro b
      rw [BitVec.and_assoc]
      exact BitVec.and_zero
    cases read with
    | true =>
      show ((c.accessRights &&& ~~~WRITER_PERMS) ||| AccessView) &&& inputPerms = 0
      rw [BitVec.and_comm, BitVec.and_or_distrib_left, BitVec.and_comm, hkept]
      rfl
    | false =>
      show ((c.accessRights &&& ~~~WRITER_PERMS) &&& ~~~AccessView) &&& inputPerms = 0
      rw [BitVec.and_assoc, BitVec.and_comm _ inputPerms, ← BitVec.and_assoc, hkept]
      exact BitVec.zero_and

theorem writeFramebufferUpdate_blocked {passwd : Passwd} {env : UpdateEnv}
    (h : c.passesReturns env = false) : c.writeFramebufferUpdate passwd env = c := by
  unfold writeFramebufferUpdate
  rw [h]
  rfl

/-- An update that gets past the returns leaves no rights behind, if a check is due or
there were none. -/
theorem writeFramebufferUpdate_revoked {passwd : Passwd} {env : UpdateEnv}
    (hfile : passwd.grantsWrite = false) (hpass : c.passesReturns env = true)
    (h : c.needsPermCheck = true ∨ c.Revoked) :
    (c.writeFramebufferUpdate passwd env).Revoked := by
  have hchecked : (if c.needsPermCheck then c.checkPerms passwd else c).Revoked := by
    split
    · exact checkPerms_revoked hfile c
    · rename_i hflag
      exact h.resolve_left hflag
  unfold writeFramebufferUpdate
  rw [hpass]
  dsimp only
  generalize (if c.needsPermCheck then c.checkPerms passwd else c) = c' at *
  rw [if_neg (by decide)]
  split
  · exact hchecked
  · split
    · exact hchecked
    · exact Revoked.of_same rfl rfl hchecked

/-- An accepted key event reaches the desktop. -/
theorem keyEvent_plain (st : KeyState) :
    (keyEvent plainEnv st XK_a 38 true).2 ≠ [] := by
  have hpass : refusesKey plainEnv st XK_a 38 true = false := by
    simp [refusesKey, tooSoon, plainEnv]
  unfold keyEvent
  rw [hpass]
  show (pressKey plainEnv st.pressedKeys XK_a 38 true).2 ≠ []
  unfold pressKey
  have htab : XK_a ≠ XK_ISO_Left_Tab := by decide
  simp [needsCapsLock, needsNumLock, syncsLocks, plainEnv, withShift, trackKey, htab]

/-- With any of the rights, some message reaches the desktop. -/
theorem exists_reaching (hstate : c.state = .normal) (h : c.accessRights &&& inputPerms ≠ 0) :
    ∃ m, (c.receive m).2 ≠ [] := by
  have hmay : c.may AccessKeyEvents = true ∨ c.may AccessPtrEvents = true ∨
      c.may AccessCutText = true := by
    by_contra hnone
    simp only [may, not_or, Bool.not_eq_true, decide_eq_false_iff_not, not_not] at hnone
    obtain ⟨hkey, hptr, hcut⟩ := hnone
    refine h ?_
    rw [BitVec.and_or_distrib_left, BitVec.and_or_distrib_left, hkey, hptr, hcut]
    rfl
  let c' : InputConn :=
    { c with syncFence := c.syncFence || c.pendingSyncFence, pendingSyncFence := false }
  have hstate' : ¬ c'.state ≠ .normal := not_not.mpr hstate
  rcases hmay with hkey | hptr | hcut
  · refine ⟨.key plainEnv XK_a 38 true, ?_⟩
    show (c'.processMsg _).2 ≠ []
    unfold processMsg
    rw [if_neg hstate']
    show ((keyEvent { plainEnv with accessKeyEvents := c.may AccessKeyEvents } c.keys
      XK_a 38 true).2.map DesktopCall.key) ≠ []
    rw [hkey]
    exact fun hnil => keyEvent_plain c.keys (List.map_eq_nil_iff.mp hnil)
  · refine ⟨.pointer ⟨true, false, 0, 0, none, true, true⟩ ⟨0, 0, 0, 0, 0⟩, ?_⟩
    have hptr' : c'.may AccessPtrEvents = true := hptr
    show (c'.processMsg _).2 ≠ []
    unfold processMsg
    rw [if_neg hstate']
    show (c'.pointerEvent _ _).2 ≠ []
    unfold pointerEvent
    rw [hptr']
    exact List.cons_ne_nil _ _
  · refine ⟨.clipboard true [], ?_⟩
    have hcut' : c'.may AccessCutText = true := hcut
    show (c'.processMsg _).2 ≠ []
    unfold processMsg
    rw [if_neg hstate']
    show (c'.handleClipboardAnnounceBinary _ _).2 ≠ []
    unfold handleClipboardAnnounceBinary
    rw [hcut']
    exact List.cons_ne_nil _ _

end InputConn

namespace InputWorld

variable {w : InputWorld}

/-- The password file is not changed to one that grants write access. -/
def StaysRevoked : InputEvent → Prop
  | .setPasswd passwd => passwd.grantsWrite = false
  | _ => True

theorem step_passwd (hfile : w.passwd.grantsWrite = false) {e : InputEvent} (he : StaysRevoked e) :
    (w.step e).passwd.grantsWrite = false := by
  cases e with
  | beginMessages =>
    unfold step
    dsimp only
    split <;> exact hfile
  | message m =>
    unfold step
    dsimp only
    split <;> exact hfile
  | endMessages env =>
    unfold step
    dsimp only
    split <;> exact hfile
  | writeFramebufferUpdate env => exact hfile
  | recheckPerms => exact hfile
  | setPasswd passwd => exact he

/-- A step that is not such an update keeps the rights and the pending check. -/
theorem step_sameRights {e : InputEvent} (he : ¬ w.Refreshes e) :
    w.conn.SameRights (w.step e).conn := by
  have hself : w.conn.SameRights w.conn := ⟨rfl, rfl, id⟩
  cases e with
  | beginMessages =>
    unfold step
    dsimp only
    split
    · exact hself
    · exact ⟨rfl, rfl, id⟩
  | message m =>
    unfold step
    dsimp only
    split
    · exact InputConn.receive_sameRights _ m
    · exact hself
  | endMessages env =>
    unfold step
    dsimp only
    split
    · rename_i hin
      have hblocked : { w.conn with inProcessMessages := false }.passesReturns env = false :=
        Bool.eq_false_iff.mpr fun hpass => he ⟨hin, hpass⟩
      rw [InputConn.writeFramebufferUpdate_blocked hblocked]
      exact ⟨rfl, rfl, id⟩
    · exact hself
  | writeFramebufferUpdate env =>
    have hblocked : w.conn.passesReturns env = false := Bool.eq_false_iff.mpr he
    show w.conn.SameRights (w.conn.writeFramebufferUpdate w.passwd env)
    rw [InputConn.writeFramebufferUpdate_blocked hblocked]
    exact hself
  | recheckPerms => exact ⟨rfl, rfl, fun _ => rfl⟩
  | setPasswd passwd => exact hself

theorem step_revoked (hfile : w.passwd.grantsWrite = false) {e : InputEvent}
    (hdue : w.conn.needsPermCheck = true ∨ w.conn.Revoked) (he : w.Refreshes e) :
    (w.step e).conn.Revoked := by
  cases e with
  | endMessages env =>
    obtain ⟨hin, hpass⟩ := he
    unfold step
    dsimp only
    rw [if_pos hin]
    exact InputConn.writeFramebufferUpdate_revoked hfile hpass
      (hdue.imp id (InputConn.Revoked.of_same rfl rfl))
  | writeFramebufferUpdate env => exact InputConn.writeFramebufferUpdate_revoked hfile he hdue
  | beginMessages => exact he.elim
  | message m => exact he.elim
  | recheckPerms => exact he.elim
  | setPasswd passwd => exact he.elim

theorem Revoked.run : ∀ {es : List InputEvent} {w : InputWorld},
    w.passwd.grantsWrite = false → (∀ e ∈ es, StaysRevoked e) → w.conn.Revoked →
      (Lib.run InputWorld.step w es).conn.Revoked
  | [], _, _, _, h => h
  | e :: es, w, hfile, hes, h => by
    obtain ⟨he, hes⟩ := List.forall_mem_cons.mp hes
    rw [run_cons]
    refine Revoked.run (step_passwd hfile he) hes ?_
    by_cases hpass : w.Refreshes e
    · exact step_revoked hfile (Or.inr h) hpass
    · obtain ⟨hstate, hrights, -⟩ := step_sameRights hpass
      exact h.of_same hstate hrights

/-- A run in which the rights are refreshed ends without them, and any other run with
those it began with. -/
theorem run_rights : ∀ {es : List InputEvent} {w : InputWorld},
    w.passwd.grantsWrite = false → (∀ e ∈ es, StaysRevoked e) → w.conn.needsPermCheck = true →
      (w.Refreshed es → (Lib.run InputWorld.step w es).conn.Revoked) ∧
        (¬ w.Refreshed es → w.conn.SameRights (Lib.run InputWorld.step w es).conn)
  | [], _, _, _, _ => ⟨fun h => h.elim, fun _ => ⟨rfl, rfl, id⟩⟩
  | e :: es, w, hfile, hes, hflag => by
    obtain ⟨he, hes⟩ := List.forall_mem_cons.mp hes
    have hfile' := step_passwd hfile he
    rw [run_cons]
    by_cases hpass : w.Refreshes e
    · have hrevoked := step_revoked hfile (Or.inl hflag) hpass
      exact ⟨fun _ => Revoked.run hfile' hes hrevoked, fun h => absurd (Or.inl hpass) h⟩
    · have hsame := step_sameRights hpass
      obtain ⟨hrefreshed, hkept⟩ := run_rights hfile' hes (hsame.flag hflag)
      refine ⟨fun h => hrefreshed (h.resolve_left hpass), fun h => ?_⟩
      obtain ⟨hstate, hrights, hflag'⟩ := hkept fun hrest => h (Or.inr hrest)
      exact ⟨hstate.trans hsame.state, hrights.trans hsame.rights,
        fun hf => hflag' (hsame.flag hf)⟩

end InputWorld

/-- A connection with all rights whose client has not asked for an update. -/
def quietConn : InputConn where
  state := .normal
  accessRights := AccessDefault
  needsPermCheck := false
  requested := false
  continuousUpdates := false
  inProcessMessages := false
  pendingSyncFence := false
  syncFence := false
  keys := ⟨∅, ⟨0, 0⟩⟩
  pointerEventPos := (0, 0)

/-- Its user may no longer write. -/
def quietWorld : InputWorld := ⟨quietConn, ⟨false, some ⟨true, false⟩⟩⟩

end KasmVNC.Rfb
