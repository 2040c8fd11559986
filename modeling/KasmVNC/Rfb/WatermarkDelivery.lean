import KasmVNC.Lib.Run

/-!
# Sending the watermark

The watermark is rendered for the size of the screen, again when the size changes, and for a
text with the time in it once a second. One flag of the server says that it is to be sent; the
updates that are written while it is on carry the watermark, and every frame ends with turning
it off.
-/

namespace KasmVNC.Rfb

open KasmVNC.Lib

variable {S W : Type*}

/-! ## The server -/

/-- What the watermark is made of. Drawing a text gives its picture; rendering fills the screen
with the picture and packs it. -/
structure WatermarkSettings (S W : Type*) where
  /-- `DLP_WatermarkText[0]`; otherwise there is `DLP_WatermarkImage`. -/
  text : Bool
  /-- `strchr(DLP_WatermarkText, '%')` -/
  percent : Bool
  /-- `drawtext`, which may come to nothing. -/
  drawtext : ℕ → Option S
  render : S → ℕ → ℕ → W

/-- A client. `served` only records that since the last rendering an update has been written to
it while the flag was on. -/
structure WatermarkClient (W : Type*) where
  /-- An update with data has been sent. -/
  gotData : Bool
  /-- The watermark it was sent last. -/
  lastSent : Option W
  served : Bool

structure WatermarkServer (S W : Type*) where
  width : ℕ
  height : ℕ
  /-- The size of the rendered watermark. -/
  rw : ℕ
  rh : ℕ
  /-- `watermarkInfo.src` -/
  src : S
  watermarkData : W
  sendWatermark : Bool
  now : ℕ
  lastUpdate : ℕ
  clients : List (WatermarkClient W)

/-- `doUpdate`, which looks at the flag. -/
def WatermarkClient.doUpdate (flag : Bool) (data : W) (c : WatermarkClient W) :
    WatermarkClient W where
  gotData := true
  lastSent := if flag then some data else c.lastSent
  served := c.served || flag

/-- What a frame finds: the time when it begins, the time when a text is drawn, and to which
clients an update with data is written. -/
structure WatermarkFrame where
  now : ℕ
  drawn : ℕ
  written : ℕ → Bool

inductive WatermarkEvent
  | addSocket
  | removeSocket (n : ℕ)
  /-- A client asks for another size, which may be refused. -/
  | setDesktopSize
  | setPixelBuffer (width height : ℕ)
  /-- Between frames, an update with data is written to a client. -/
  | writeFramebufferUpdate (n : ℕ)
  | writeUpdate (frame : WatermarkFrame)

namespace WatermarkServer

variable (cfg : WatermarkSettings S W) (s : WatermarkServer S W)

/-- `watermarkTextNeedsUpdate(false)` -/
def watermarkTextNeedsUpdate : Bool := s.now ≠ s.lastUpdate && cfg.percent

/-- The beginning of `writeUpdate`: the text may have changed. -/
def lookAtClock (now : ℕ) : WatermarkServer S W :=
  if cfg.text then
    let s := { s with now := now }
    if s.watermarkTextNeedsUpdate cfg then { s with sendWatermark := true } else s
  else s

/-- Whether `updateWatermark` renders. -/
def rendersAnew : Bool :=
  s.rw ≠ s.width || s.rh ≠ s.height || (cfg.text && s.watermarkTextNeedsUpdate cfg)

def updateWatermark (drawn : ℕ) : WatermarkServer S W :=
  if s.rendersAnew cfg then
    let draws := cfg.text && s.watermarkTextNeedsUpdate cfg
    let src := if draws then (cfg.drawtext drawn).getD s.src else s.src
    { s with
      lastUpdate := if draws then drawn else s.lastUpdate
      src := src
      rw := s.width
      rh := s.height
      watermarkData := cfg.render src s.width s.height
      sendWatermark := true
      clients := s.clients.map fun c => { c with served := false } }
  else s

/-- The frame, up to the updates of the clients. -/
def beginFrame (frame : WatermarkFrame) : WatermarkServer S W :=
  (s.lookAtClock cfg frame.now).updateWatermark cfg frame.drawn

def writeUpdate (frame : WatermarkFrame) : WatermarkServer S W :=
  let s := s.beginFrame cfg frame
  { s with
    clients := s.clients.mapIdx fun n c =>
      if frame.written n then c.doUpdate s.sendWatermark s.watermarkData else c
    -- the client now caches it, only send once
    sendWatermark := false }

def step (s : WatermarkServer S W) : WatermarkEvent → WatermarkServer S W
  | .addSocket =>
    { s with clients := ⟨false, none, false⟩ :: s.clients, sendWatermark := true }
  | .removeSocket n => { s with clients := s.clients.eraseIdx n }
  | .setDesktopSize => { s with sendWatermark := true }
  | .setPixelBuffer width height => { s with width := width, height := height }
  | .writeFramebufferUpdate n =>
    { s with clients := s.clients.modify n (·.doUpdate s.sendWatermark s.watermarkData) }
  | .writeUpdate frame => s.writeUpdate cfg frame

/-- A server that has just been made; nothing is rendered yet. -/
def start (src : S) (blank : W) (width height : ℕ) (lastUpdate : ℕ) : WatermarkServer S W :=
  ⟨width, height, 0, 0, src, blank, true, 0, lastUpdate, []⟩

/-! ## Keeping up -/

/-- The client with this number has been sent an update with data. -/
def HasData (n : ℕ) : Prop := ∃ c, s.clients[n]? = some c ∧ c.gotData = true

/-- The client with this number was last sent the current watermark. -/
def HasWatermark (n : ℕ) : Prop :=
  ∃ c, s.clients[n]? = some c ∧ c.lastSent = some s.watermarkData

/-- An update with data that is not a client's first leaves the client with the current
watermark. -/
def KeepsUp : WatermarkEvent → Prop
  | .writeFramebufferUpdate n =>
    s.HasData n → (s.step cfg (.writeFramebufferUpdate n)).HasWatermark n
  | .writeUpdate frame => ∀ n, frame.written n = true → s.HasData n →
      (s.step cfg (.writeUpdate frame)).HasWatermark n
  | _ => True

/-- The flag is on, or the client has had an update written while it was on, since the last
rendering. -/
def InTime (n : ℕ) : Prop :=
  s.sendWatermark = true ∨ ∃ c, s.clients[n]? = some c ∧ c.served = true

/-- An update with data that is not a client's first is written in time. -/
def WritesInTime : WatermarkEvent → Prop
  | .writeFramebufferUpdate n => s.HasData n → s.InTime n
  | .writeUpdate frame => ∀ n, frame.written n = true → s.HasData n →
      (s.beginFrame cfg frame).InTime n
  | _ => True

/-- Who has been served has the watermark. -/
def Inv : Prop := ∀ c ∈ s.clients, c.served = true → c.lastSent = some s.watermarkData

variable {cfg s}

theorem inv_doUpdate {flag : Bool} {c : WatermarkClient W} {data : W}
    (h : c.served = true → c.lastSent = some data) :
    (c.doUpdate flag data).served = true → (c.doUpdate flag data).lastSent = some data := by
  cases flag with
  | true => exact fun _ => rfl
  | false =>
    intro hserved
    exact h ((Bool.or_false c.served).symm.trans hserved)

theorem inv_beginFrame (h : s.Inv) (frame : WatermarkFrame) : (s.beginFrame cfg frame).Inv := by
  have hclock : (s.lookAtClock cfg frame.now).Inv := by
    unfold lookAtClock
    split
    · dsimp only
      split
      · exact h
      · exact h
    · exact h
  unfold beginFrame updateWatermark
  split
  · intro c hc hserved
    obtain ⟨old, -, rfl⟩ := List.mem_map.mp hc
    exact Bool.noConfusion hserved
  · exact hclock

theorem inv_step (h : s.Inv) (e : WatermarkEvent) : (s.step cfg e).Inv := by
  cases e with
  | addSocket => exact List.forall_mem_cons.mpr ⟨fun hserved => Bool.noConfusion hserved, h⟩
  | removeSocket n => exact fun c hc => h c (List.mem_of_mem_eraseIdx hc)
  | setDesktopSize => exact h
  | setPixelBuffer width height => exact h
  | writeFramebufferUpdate n => exact forall_mem_modify h fun c _ hc => inv_doUpdate hc
  | writeUpdate frame =>
    have hbegun : (s.beginFrame cfg frame).Inv := inv_beginFrame h frame
    intro c hc
    obtain ⟨n, hn, rfl⟩ := List.mem_mapIdx.mp hc
    have hold := hbegun _ (List.getElem_mem hn)
    split
    · exact inv_doUpdate hold
    · exact hold

/-- An update that is written in time leaves its client with the watermark. -/
theorem lastSent_doUpdate {n : ℕ} {c : WatermarkClient W} (h : s.Inv)
    (hc : s.clients[n]? = some c) (htime : s.InTime n) :
    (c.doUpdate s.sendWatermark s.watermarkData).lastSent = some s.watermarkData := by
  unfold WatermarkClient.doUpdate
  dsimp only
  split
  · rfl
  · next hoff =>
      obtain ⟨c', hc', hserved⟩ := htime.resolve_left hoff
      obtain rfl := Option.some.inj (hc.symm.trans hc')
      exact h c (List.mem_of_getElem? hc) hserved

/-- A frame does not change who has data. -/
theorem beginFrame_client {n : ℕ} {c : WatermarkClient W} (hc : s.clients[n]? = some c)
    (frame : WatermarkFrame) : ∃ c', (s.beginFrame cfg frame).clients[n]? = some c' := by
  have hclock : (s.lookAtClock cfg frame.now).clients = s.clients := by
    unfold lookAtClock
    split
    · dsimp only
      split <;> rfl
    · rfl
  unfold beginFrame updateWatermark
  split
  · exact ⟨_, by rw [List.getElem?_map, hclock, hc]; rfl⟩
  · exact ⟨c, by rw [hclock, hc]⟩

theorem keepsUp_step (h : s.Inv) {e : WatermarkEvent} (htime : s.WritesInTime cfg e) :
    s.KeepsUp cfg e := by
  cases e with
  | writeFramebufferUpdate n =>
    intro hdata
    have hin := htime hdata
    obtain ⟨c, hc, -⟩ := hdata
    refine ⟨c.doUpdate s.sendWatermark s.watermarkData, ?_, lastSent_doUpdate h hc hin⟩
    show (s.clients.modify n _)[n]? = _
    rw [List.getElem?_modify_eq, hc]
    rfl
  | writeUpdate frame =>
    intro n hwritten hdata
    have hin := htime n hwritten hdata
    obtain ⟨c, hc, -⟩ := hdata
    obtain ⟨c', hc'⟩ := @beginFrame_client _ _ cfg _ _ _ hc frame
    have hbegun : (s.beginFrame cfg frame).Inv := inv_beginFrame h frame
    have hsent := lastSent_doUpdate hbegun hc' hin
    refine ⟨_, ?_, hsent⟩
    show ((s.beginFrame cfg frame).clients.mapIdx _)[n]? = _
    rw [List.getElem?_mapIdx, hc', Option.map_some, if_pos hwritten]
  | _ => trivial

/-- **Who gets the watermark**: all clients, in every run whose updates are written in time. -/
theorem watermark_keeps_up (cfg : WatermarkSettings S W) (src : S) (blank : W)
    (width height lastUpdate : ℕ) (es : List WatermarkEvent)
    (htime : Guarded (step cfg) (WritesInTime cfg) (start src blank width height lastUpdate) es) :
    Guarded (step cfg) (KeepsUp cfg) (start src blank width height lastUpdate) es :=
  guarded_imp (fun _ e h _ => inv_step h e) (fun _ _ h hok => keepsUp_step h hok)
    (fun _ hc => absurd hc List.not_mem_nil) htime

/-! ## A client that connects -/

/-- An image that is rendered as its own size. -/
def imageSettings : WatermarkSettings Unit (ℕ × ℕ) :=
  ⟨false, false, fun _ => none, fun _ width height => (width, height)⟩

/-- The first frame after the connection already has an update for the client. -/
theorem watermark_keeps_up_at_once :
    Guarded (step imageSettings) (KeepsUp imageSettings) (start () (0, 0) 640 480 0)
      [.addSocket, .writeUpdate ⟨0, 0, fun _ => true⟩, .writeFramebufferUpdate 0] :=
  watermark_keeps_up imageSettings () (0, 0) 640 480 0 _
    ⟨trivial, fun _ _ _ => .inl rfl, fun _ => .inr ⟨_, rfl, rfl⟩, trivial⟩

/-- There is a frame during the client's handshake. After it, the client is sent updates without
the watermark. -/
theorem watermark_missed :
    ¬Guarded (step imageSettings) (KeepsUp imageSettings) (start () (0, 0) 640 480 0)
      [.addSocket, .writeUpdate ⟨0, 0, fun _ => false⟩, .writeFramebufferUpdate 0,
        .writeFramebufferUpdate 0] := by
  rintro ⟨-, -, -, hkeeps, -⟩
  obtain ⟨c, hc, hsent⟩ := hkeeps ⟨_, rfl, rfl⟩
  cases hc
  cases hsent

end WatermarkServer

end KasmVNC.Rfb
