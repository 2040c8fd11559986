import KasmVNC.Rfb.Congestion

/-!
# Congestion control is safe

Every function keeps the invariant `Sane`: the window lies between its limits, no
measured latency is zero, and no recorded latency is below that of the wire. No
division by zero and no failed assertion follows, whatever the clock says, and so
do the limits of the window.
-/

namespace KasmVNC.Rfb

open KasmVNC.Lib

namespace Congestion

/-- What holds between two calls, and inside of them. -/
structure Sane (c : Congestion) : Prop where
  window_ge : MINIMUM_WINDOW ≤ c.congWindow
  window_le : c.congWindow ≤ MAXIMUM_WINDOW
  baseRTT_pos : 0 < c.baseRTT
  safeBaseRTT_pos : 0 < c.safeBaseRTT
  minRTT_ge : c.baseRTT ≤ c.minRTT
  minCongestedRTT_ge : c.baseRTT ≤ c.minCongestedRTT

theorem le_unmeasured (a : UInt32) : a ≤ unmeasured :=
  UInt32.le_iff_toNat_le.mpr (Nat.le_of_lt_succ a.toNat_lt)

theorem zero_lt_unmeasured : 0 < unmeasured := by decide

theorem sane_init (updated sent arrived adjusted : Timeval) :
    (init updated sent arrived adjusted).Sane :=
  ⟨show MINIMUM_WINDOW ≤ INITIAL_WINDOW by decide, show INITIAL_WINDOW ≤ MAXIMUM_WINDOW by decide,
    zero_lt_unmeasured, zero_lt_unmeasured, le_unmeasured _, le_unmeasured _⟩

variable {c : Congestion}

namespace Sane

theorem window_ne_zero (h : c.Sane) : c.congWindow ≠ 0 := by
  rintro hzero
  have hge := h.window_ge
  rw [hzero] at hge
  exact absurd hge (by decide)

theorem baseRTT_ne_zero (h : c.Sane) : c.baseRTT ≠ 0 := Word.ne_zero_of_lt h.baseRTT_pos

theorem minRTT_ne_zero (h : c.Sane) : c.minRTT ≠ 0 :=
  Word.ne_zero_of_lt (UInt32.lt_of_lt_of_le h.baseRTT_pos h.minRTT_ge)

end Sane

/-! ## Queries -/

theorem Sane.bufferDelay_ok (h : c.Sane) (extra : UInt32) :
    ∃ d, c.bufferDelay extra = .ok d :=
  ⟨_, divide_ok h.window_ne_zero⟩

theorem Sane.etaBetween_ok (h : c.Sane) (prev next : RTTInfo) :
    ∃ eta, c.etaBetween prev next = .ok eta := by
  obtain ⟨d, hd⟩ := h.bufferDelay_ok next.extra
  obtain ⟨d', hd'⟩ := h.bufferDelay_ok prev.extra
  unfold etaBetween
  rw [bind_ok hd, bind_ok hd']
  exact ⟨_, rfl⟩

theorem Sane.getExtraBuffer_ok (h : c.Sane) (now : Timeval) :
    ∃ extra, c.getExtraBuffer now = .ok extra := by
  unfold getExtraBuffer
  split
  · exact ⟨_, rfl⟩
  · rw [bind_ok (divide_ok h.baseRTT_ne_zero)]
    exact ⟨_, rfl⟩

/-- A quotient is only taken by a time that is longer than another. -/
theorem Sane.getInFlight_ok (h : c.Sane) (now : Timeval) :
    ∃ inFlight, c.getInFlight now = .ok inFlight := by
  unfold getInFlight
  split
  · exact ⟨_, rfl⟩
  · split
    · split <;> exact ⟨_, rfl⟩
    · obtain ⟨eta, heta⟩ := h.etaBetween_ok c.lastPong (c.pings.headD c.pretendedPing)
      dsimp only
      rw [bind_ok heta]
      split
      · exact ⟨_, rfl⟩
      · rename_i hlong
        rw [bind_ok (divide_ok (Word.ne_zero_of_lt (UInt32.not_le.mp hlong)))]
        exact ⟨_, rfl⟩

theorem Sane.isCongested_ok (h : c.Sane) (now : Timeval) :
    ∃ congested, c.isCongested now = .ok congested := by
  obtain ⟨inFlight, hflight⟩ := h.getInFlight_ok now
  unfold isCongested
  rw [bind_ok hflight]
  exact ⟨_, rfl⟩

/-- The position that is waited for lies before the last one. -/
theorem Sane.isAfter_lastPosition (h : c.Sane) :
    isAfter c.lastPosition (c.lastPosition - c.congWindow) = true := by
  have hge := UInt32.le_iff_toNat_le.mp h.window_ge
  have hle := UInt32.le_iff_toNat_le.mp h.window_le
  have hge : 4096 ≤ c.congWindow.toNat := hge
  have hle : c.congWindow.toNat ≤ 4194304 := hle
  have hback : c.lastPosition - (c.lastPosition - c.congWindow) = c.congWindow := by
    rw [← UInt32.toNat_inj, UInt32.toNat_sub, UInt32.toNat_sub]
    have := c.lastPosition.toNat_lt
    omega
  unfold isAfter
  rw [hback, Bool.and_eq_true, decide_eq_true_iff, decide_eq_true_iff]
  constructor
  · intro heq
    rw [← heq, UInt32.sub_self] at hback
    exact h.window_ne_zero hback.symm
  · rw [UInt32.le_iff_toNat_le]
    show _ ≤ 2147483647
    omega

/-- **The walk ends.** Two pings with the same position are on the same side of the
position that is waited for, so the interpolation does not divide by zero. -/
theorem Sane.walkPings_ok (h : c.Sane) {elapsed : UInt32} :
    ∀ {pings : List RTTInfo} {prev : RTTInfo} {eta : UInt32},
      isAfter prev.pos (c.lastPosition - c.congWindow) = false →
      ∃ eta', c.walkPings (c.lastPosition - c.congWindow) elapsed prev eta pings = .ok eta'
  | pings, prev, eta, hprev => by
    obtain ⟨etaNext, heta⟩ := h.etaBetween_ok prev (pings.headD c.pretendedPing)
    unfold walkPings
    dsimp only
    rw [bind_ok heta]
    split
    · rename_i hcur
      have hne : (pings.headD c.pretendedPing).pos - prev.pos ≠ 0 := by
        intro hzero
        rw [Word.eq_of_sub_eq_zero hzero, hprev] at hcur
        cases hcur
      rw [bind_ok (divide_ok hne)]
      exact ⟨_, rfl⟩
    · rename_i hcur
      cases pings with
      | nil => exact absurd h.isAfter_lastPosition hcur
      | cons ping rest => exact h.walkPings_ok (Bool.eq_false_iff.mpr hcur)

theorem Sane.getUncongestedETA_ok (h : c.Sane) (now : Timeval) :
    ∃ eta, c.getUncongestedETA now = .ok eta := by
  unfold getUncongestedETA
  dsimp only
  split
  · exact ⟨_, rfl⟩
  · rename_i hsimple
    split
    · exact ⟨_, rfl⟩
    · obtain ⟨eta, heta⟩ := h.walkPings_ok (Bool.eq_false_iff.mpr hsimple)
      rw [bind_ok heta]
      exact ⟨_, rfl⟩

theorem Sane.getBandwidth_ok (h : c.Sane) : ∃ bandwidth, c.getBandwidth = .ok bandwidth := by
  unfold getBandwidth
  split
  · exact ⟨_, divide_ok (by decide)⟩
  · exact ⟨_, divide_ok (Word.ne_zero_of_lt h.safeBaseRTT_pos)⟩

/-! ## Positions and pings -/

theorem Sane.resetIdle (h : c.Sane) (adjusted : Timeval) : (c.resetIdle adjusted).Sane := by
  refine ⟨?_, ?_, zero_lt_unmeasured, h.safeBaseRTT_pos, le_unmeasured _, le_unmeasured _⟩
  · show MINIMUM_WINDOW ≤ if INITIAL_WINDOW < c.congWindow then INITIAL_WINDOW else c.congWindow
    split
    · decide
    · exact h.window_ge
  · show (if INITIAL_WINDOW < c.congWindow then INITIAL_WINDOW else c.congWindow) ≤ MAXIMUM_WINDOW
    split
    · decide
    · exact h.window_le

theorem Sane.estimateBuffer_ok (h : c.Sane) (delta : UInt32) (now : Timeval) :
    ∃ extra, c.estimateBuffer delta now = .ok { c with extraBuffer := extra } := by
  unfold estimateBuffer
  split
  · rw [bind_ok (divide_ok h.baseRTT_ne_zero)]
    exact ⟨_, rfl⟩
  · exact ⟨c.extraBuffer, rfl⟩

/-- A new position changes nothing that is waited for, except that an idle time
resets the measurements. -/
theorem Sane.updatePosition_ok (h : c.Sane) (pos : UInt32) (now adjusted : Timeval) :
    ∃ c', c.updatePosition pos now adjusted = .ok c' ∧ c'.Sane ∧ c'.lastPosition = pos ∧
      c'.pings = c.pings ∧ c'.lastPong = c.lastPong := by
  unfold Congestion.updatePosition
  dsimp only
  generalize hsent : (if decide (pos - c.lastPosition > 0) || decide (c.extraBuffer > 0) then
    { c with lastSent := now } else c) = c₁
  have h₁ : c₁.Sane ∧ c₁.pings = c.pings ∧ c₁.lastPong = c.lastPong := by
    subst hsent
    split
    · exact ⟨⟨h.window_ge, h.window_le, h.baseRTT_pos, h.safeBaseRTT_pos, h.minRTT_ge,
        h.minCongestedRTT_ge⟩, rfl, rfl⟩
    · exact ⟨h, rfl, rfl⟩
  generalize hidle : (if msBetween c₁.lastSent now > max (c₁.baseRTT * 2) 100 then
    c₁.resetIdle adjusted else c₁) = c₂
  have h₂ : c₂.Sane ∧ c₂.pings = c.pings ∧ c₂.lastPong = c.lastPong := by
    subst hidle
    split
    · exact ⟨h₁.1.resetIdle adjusted, h₁.2⟩
    · exact h₁
  obtain ⟨extra, hextra⟩ := h₂.1.estimateBuffer_ok (pos - c.lastPosition) now
  rw [bind_ok hextra]
  refine ⟨_, rfl, ?_, rfl, h₂.2⟩
  obtain ⟨hge, hle, hbase, hsafe, hmin, hcong⟩ := h₂.1
  exact ⟨hge, hle, hbase, hsafe, hmin, hcong⟩

theorem Sane.sentPing_ok (h : c.Sane) (tv extraRead congestedRead : Timeval) :
    ∃ ping : RTTInfo, ping.pos = c.lastPosition ∧
      c.sentPing tv extraRead congestedRead = .ok { c with pings := c.pings ++ [ping] } := by
  obtain ⟨extra, hextra⟩ := h.getExtraBuffer_ok extraRead
  obtain ⟨congested, hcongested⟩ := h.isCongested_ok congestedRead
  unfold sentPing
  rw [bind_ok hextra, bind_ok hcongested]
  exact ⟨⟨tv, c.lastPosition, extra, congested⟩, rfl, rfl⟩

/-! ## Pongs -/

theorem Sane.popPong (h : c.Sane) (ping : RTTInfo) (rest : List RTTInfo) (now : Timeval) :
    (c.popPong ping rest now).1.Sane ∧
      (c.popPong ping rest now).1.baseRTT ≤ (c.popPong ping rest now).2 := by
  unfold Congestion.popPong
  dsimp only
  have hpos : 0 < max (msBetween ping.tv now) 1 :=
    UInt32.lt_of_lt_of_le (by decide) (Word.le_max_right _ _)
  generalize max (msBetween ping.tv now) 1 = rtt at *
  split
  · rename_i hlt
    have hle := UInt32.le_of_lt hlt
    exact ⟨⟨h.window_ge, h.window_le, hpos, hpos, UInt32.le_trans hle h.minRTT_ge,
      UInt32.le_trans hle h.minCongestedRTT_ge⟩, UInt32.le_refl _⟩
  · rename_i hge
    exact ⟨⟨h.window_ge, h.window_le, h.baseRTT_pos, h.safeBaseRTT_pos, h.minRTT_ge,
      h.minCongestedRTT_ge⟩, UInt32.not_lt.mp hge⟩

theorem Sane.wireRTT_ok (h : c.Sane) (ping : RTTInfo) (rtt : UInt32) :
    ∃ rtt', c.wireRTT ping rtt = .ok rtt' ∧ c.baseRTT ≤ rtt' := by
  obtain ⟨delay, hdelay⟩ := h.bufferDelay_ok ping.extra
  unfold wireRTT
  rw [bind_ok hdelay]
  dsimp only
  generalize (if delay < rtt then rtt - delay else 1) = latency
  refine ⟨_, rfl, ?_⟩
  split
  · exact UInt32.le_refl _
  · rename_i hge
    exact UInt32.not_lt.mp hge

theorem Sane.measure (h : c.Sane) (ping : RTTInfo) {rtt : UInt32} (hrtt : c.baseRTT ≤ rtt) :
    (c.measure ping rtt).Sane := by
  refine ⟨h.window_ge, h.window_le, h.baseRTT_pos, h.safeBaseRTT_pos, ?_, ?_⟩
  · show c.baseRTT ≤ if rtt < c.minRTT then rtt else c.minRTT
    split
    · exact hrtt
    · exact h.minRTT_ge
  · show c.baseRTT ≤ if ping.congested && rtt < c.minCongestedRTT then rtt else c.minCongestedRTT
    split
    · exact hrtt
    · exact h.minCongestedRTT_ge

/-- A pong takes the first ping, if there is one, for the last pong, and leaves the
window alone. -/
theorem Sane.recordPong_ok (h : c.Sane) (now : Timeval) :
    ∃ c₁ adjust, c.recordPong now = .ok (c₁, adjust) ∧ c₁.Sane ∧
      c₁.congWindow = c.congWindow ∧ c₁.lastPosition = c.lastPosition ∧
      c₁.pings = c.pings.tail ∧ c₁.lastPong = c.pings.headD c.lastPong := by
  unfold recordPong
  split
  · rename_i hnone
    exact ⟨c, false, rfl, h, rfl, rfl, by rw [hnone]; rfl, by rw [hnone]; rfl⟩
  · rename_i ping rest hpings
    obtain ⟨hsane, hrtt⟩ := h.popPong ping rest now
    have hsame : (c.popPong ping rest now).1.congWindow = c.congWindow ∧
        (c.popPong ping rest now).1.lastPosition = c.lastPosition ∧
        (c.popPong ping rest now).1.pings = c.pings.tail ∧
        (c.popPong ping rest now).1.lastPong = c.pings.headD c.lastPong := by
      rw [hpings]
      exact ⟨rfl, rfl, rfl, rfl⟩
    dsimp only
    split
    · exact ⟨_, false, rfl, hsane, hsame⟩
    · obtain ⟨rtt, hwire, hge⟩ := hsane.wireRTT_ok ping (c.popPong ping rest now).2
      rw [bind_ok hwire]
      exact ⟨_, true, rfl, hsane.measure ping hge, hsame⟩

/-! ## The window -/

theorem clampWindow_ge (window : UInt32) : MINIMUM_WINDOW ≤ clampWindow window := by
  unfold clampWindow
  dsimp only
  generalize hraised : (if window < MINIMUM_WINDOW then MINIMUM_WINDOW else window) = raised
  split
  · decide
  · subst hraised
    split
    · exact UInt32.le_refl _
    · rename_i hge
      exact UInt32.not_lt.mp hge

theorem clampWindow_le (window : UInt32) : clampWindow window ≤ MAXIMUM_WINDOW := by
  unfold clampWindow
  dsimp only
  generalize (if window < MINIMUM_WINDOW then MINIMUM_WINDOW else window) = raised
  split
  · exact UInt32.le_refl _
  · rename_i hle
    exact UInt32.not_lt.mp hle

/-- The latency is too high for the window. -/
def TooFast (c : Congestion) : Prop :=
  50 < c.addedRTT ∧ c.inSlowStart = false ∨ c.latencySpike = true

/-- The window after a possible latency spike. -/
def scaledWindow (c : Congestion) : UInt32 :=
  if c.latencySpike then c.congWindow * c.baseRTT / c.minRTT else c.congWindow

theorem addedRTT_of_spike (h : c.latencySpike = true) : 50 < c.addedRTT := by
  have hspike : max 100 (c.baseRTT / 2) < c.addedRTT := of_decide_eq_true h
  exact UInt32.lt_trans (by decide) (UInt32.lt_of_le_of_lt (Word.le_max_left 100 _) hspike)

theorem TooFast.addedRTT (h : c.TooFast) : 50 < c.addedRTT := by
  rcases h with ⟨hfast, -⟩ | hspike
  · exact hfast
  · exact addedRTT_of_spike hspike

theorem Sane.backOff_ok (h : c.Sane) (window : UInt32) :
    c.backOff window = .ok (window * c.baseRTT / c.minRTT, false) :=
  bind_ok (divide_ok h.minRTT_ne_zero) _

/-- After a spike slow start is over. -/
theorem Sane.checkSpike_ok (h : c.Sane) :
    c.checkSpike = .ok (c.scaledWindow, !c.latencySpike && c.inSlowStart) := by
  unfold checkSpike scaledWindow
  rw [h.backOff_ok]
  cases c.latencySpike <;> rfl

theorem Sane.slowStart_ok (h : c.Sane) (window : UInt32) :
    ∃ w, c.slowStart window = .ok w := by
  unfold slowStart
  rw [h.backOff_ok]
  split <;> exact ⟨_, rfl⟩

/-- If the latency is too high, the window is reduced by the constant. -/
theorem Sane.adjustWindow_ok (h : c.Sane) (w : Window) :
    ∃ w', c.adjustWindow w = .ok w' ∧
      (w.2 = false → 50 < c.addedRTT → w'.1 = w.1 - 4096) := by
  unfold adjustWindow
  split
  · rename_i hslow
    obtain ⟨w', hw'⟩ := h.slowStart_ok w.1
    refine ⟨w', hw', fun hmode => ?_⟩
    rw [hslow] at hmode
    cases hmode
  · refine ⟨_, rfl, fun _ hfast => ?_⟩
    exact if_pos hfast

/-- Both assertions hold, and if the latency is too high the window is scaled down
and then reduced. -/
theorem Sane.updateCongestion_ok (h : c.Sane) (adjusted : Timeval) :
    ∃ c', c.updateCongestion adjusted = .ok c' ∧ c'.Sane ∧
      c'.lastPosition = c.lastPosition ∧ c'.pings = c.pings ∧ c'.lastPong = c.lastPong ∧
      (3 ≤ c.measurements → c.TooFast → c'.congWindow = clampWindow (c.scaledWindow - 4096)) := by
  unfold updateCongestion
  split
  · rename_i hfew
    exact ⟨c, rfl, h, rfl, rfl, rfl, fun hmany => absurd hfew (not_lt.mpr hmany)⟩
  · obtain ⟨w, hw, hreduced⟩ := h.adjustWindow_ok (c.scaledWindow, !c.latencySpike && c.inSlowStart)
    rw [bind_ok (require_ok h.minRTT_ge), bind_ok (require_ok h.minCongestedRTT_ge),
      bind_ok h.checkSpike_ok, bind_ok hw]
    refine ⟨_, rfl, ?_, rfl, rfl, rfl, fun _ hfast => ?_⟩
    · exact ⟨clampWindow_ge _, clampWindow_le _, h.baseRTT_pos, h.safeBaseRTT_pos,
        le_unmeasured _, le_unmeasured _⟩
    · refine congrArg clampWindow (hreduced ?_ hfast.addedRTT)
      rcases hfast with ⟨-, hmode⟩ | hspike
      · rw [hmode, Bool.and_false]
      · rw [hspike, Bool.not_true, Bool.false_and]

theorem Sane.scaledWindow_le (h : c.Sane) : c.scaledWindow ≤ c.congWindow := by
  unfold scaledWindow
  split
  · exact Word.mul_div_le h.minRTT_ge
  · exact UInt32.le_refl _

/-- The constant can be subtracted from the scaled window. The largest window cannot
be exceeded anyway. -/
def CanBackOff (c : Congestion) : Prop :=
  c.latencySpike = true →
    MINIMUM_WINDOW ≤ c.congWindow * c.baseRTT / c.minRTT ∨ c.congWindow = MAXIMUM_WINDOW

theorem Sane.canBackOff_iff (h : c.Sane) :
    c.CanBackOff ↔ MINIMUM_WINDOW ≤ c.scaledWindow ∨ c.congWindow = MAXIMUM_WINDOW := by
  unfold CanBackOff scaledWindow
  constructor
  · intro hcan
    split
    · exact hcan (by assumption)
    · exact Or.inl h.window_ge
  · intro hscaled hspike
    rwa [if_pos hspike] at hscaled

theorem clampWindow_le_max (window : UInt32) : clampWindow window ≤ max window MINIMUM_WINDOW := by
  have hraise : (if window < MINIMUM_WINDOW then MINIMUM_WINDOW else window) ≤
      max window MINIMUM_WINDOW := by
    split
    · exact Word.le_max_right _ _
    · exact Word.le_max_left _ _
  unfold clampWindow
  dsimp only
  generalize (if window < MINIMUM_WINDOW then MINIMUM_WINDOW else window) = raised at *
  split
  · rename_i hgt
    exact UInt32.le_trans (UInt32.le_of_lt hgt) hraise
  · exact hraise

/-- A subtraction that wraps around ends in the largest window. -/
theorem clampWindow_borrow {window : UInt32} (h : window < MINIMUM_WINDOW) :
    clampWindow (window - 4096) = MAXIMUM_WINDOW := by
  have hlt : window.toNat < 4096 := UInt32.lt_iff_toNat_lt.mp h
  have hwrap : (window - 4096).toNat = window.toNat + (2 ^ 32 - 4096) := by
    rw [UInt32.toNat_sub]
    show (2 ^ 32 - 4096 + window.toNat) % 2 ^ 32 = _
    omega
  have hmin : ¬ window - 4096 < MINIMUM_WINDOW := by
    rw [UInt32.lt_iff_toNat_lt, hwrap]
    show ¬ _ < 4096
    omega
  have hmax : window - 4096 > MAXIMUM_WINDOW := by
    show MAXIMUM_WINDOW < _
    rw [UInt32.lt_iff_toNat_lt, hwrap]
    show 4194304 < _
    omega
  unfold clampWindow
  dsimp only
  rw [if_neg hmin, if_pos hmax]

/-- The new window is not larger than the old one exactly if the constant could be
subtracted. -/
theorem Sane.clampWindow_sub (h : c.Sane) :
    clampWindow (c.scaledWindow - 4096) ≤ max c.congWindow MINIMUM_WINDOW ↔ c.CanBackOff := by
  rw [h.canBackOff_iff]
  by_cases hscaled : MINIMUM_WINDOW ≤ c.scaledWindow
  · have hreduced : clampWindow (c.scaledWindow - 4096) ≤ max c.congWindow MINIMUM_WINDOW := by
      refine UInt32.le_trans (clampWindow_le_max _) (Word.max_le ?_ (Word.le_max_right _ _))
      refine UInt32.le_trans (Word.sub_le_self hscaled) ?_
      exact UInt32.le_trans h.scaledWindow_le (Word.le_max_left _ _)
    exact iff_of_true hreduced (Or.inl hscaled)
  · rw [clampWindow_borrow (UInt32.not_le.mp hscaled)]
    have hmax : max c.congWindow MINIMUM_WINDOW = c.congWindow := by
      refine UInt32.le_antisymm (Word.max_le (UInt32.le_refl _) h.window_ge) ?_
      exact Word.le_max_left _ _
    rw [hmax]
    constructor
    · exact fun hle => Or.inr (UInt32.le_antisymm h.window_le hle)
    · rintro (hle | heq)
      · exact absurd hle hscaled
      · rw [heq]
        exact UInt32.le_refl _

theorem Sane.gotPong_ok (h : c.Sane) (now adjusted : Timeval) :
    ∃ c', c.gotPong now adjusted = .ok c' ∧ c'.Sane ∧ c'.lastPosition = c.lastPosition ∧
      c'.pings = c.pings.tail ∧ c'.lastPong = c.pings.headD c.lastPong := by
  obtain ⟨c₁, adjust, hrecord, hsane, -, hpos, hpings, hpong⟩ := h.recordPong_ok now
  unfold gotPong
  rw [bind_ok hrecord]
  dsimp only
  split
  · obtain ⟨c₂, hupdate, hsane', hpos', hpings', hpong', -⟩ := hsane.updateCongestion_ok adjusted
    exact ⟨c₂, hupdate, hsane', hpos'.trans hpos, hpings'.trans hpings, hpong'.trans hpong⟩
  · exact ⟨c₁, rfl, hsane, hpos, hpings, hpong⟩

end Congestion

/-! ## Runs -/

/-- A call of a function, with the clock readings it takes. The length of the stream
is counted without a limit and truncated to a word. -/
inductive CongestionEvent
  | updatePosition (length : ℕ) (now adjusted : Timeval)
  | sentPing (tv extraRead congestedRead : Timeval)
  | gotPong (now adjusted : Timeval)
  | isCongested (now : Timeval)
  | getUncongestedETA (now : Timeval)
  | getBandwidth
deriving DecidableEq

namespace CongestionEvent

def readings : CongestionEvent → List Timeval
  | updatePosition _ now adjusted => [now, adjusted]
  | sentPing tv extraRead congestedRead => [tv, extraRead, congestedRead]
  | gotPong now adjusted => [now, adjusted]
  | isCongested now => [now]
  | getUncongestedETA now => [now]
  | getBandwidth => []

/-- The clock does not go back. -/
def MonotoneClock (events : List CongestionEvent) : Prop :=
  (events.flatMap readings).IsChain fun t t' => isBefore t' t = false

instance (events : List CongestionEvent) : Decidable (MonotoneClock events) :=
  inferInstanceAs (Decidable (List.IsChain _ _))

end CongestionEvent

def Congestion.step (c : Congestion) : CongestionEvent → Except Fault Congestion
  | .updatePosition length now adjusted => c.updatePosition (UInt32.ofNat length) now adjusted
  | .sentPing tv extraRead congestedRead => c.sentPing tv extraRead congestedRead
  | .gotPong now adjusted => c.gotPong now adjusted
  | .isCongested now => do
      let _ ← c.isCongested now
      .ok c
  | .getUncongestedETA now => do
      let _ ← c.getUncongestedETA now
      .ok c
  | .getBandwidth => do
      let _ ← c.getBandwidth
      .ok c

/-- No call fails, and every call keeps the invariant. -/
theorem Congestion.Sane.step_ok {c : Congestion} (h : c.Sane) (e : CongestionEvent) :
    ∃ c', c.step e = .ok c' ∧ c'.Sane := by
  cases e with
  | updatePosition length now adjusted =>
    obtain ⟨c', hc', hsane, -⟩ := h.updatePosition_ok (UInt32.ofNat length) now adjusted
    exact ⟨c', hc', hsane⟩
  | sentPing tv extraRead congestedRead =>
    obtain ⟨ping, -, hping⟩ := h.sentPing_ok tv extraRead congestedRead
    exact ⟨_, hping, h.window_ge, h.window_le, h.baseRTT_pos, h.safeBaseRTT_pos, h.minRTT_ge,
      h.minCongestedRTT_ge⟩
  | gotPong now adjusted =>
    obtain ⟨c', hc', hsane, -⟩ := h.gotPong_ok now adjusted
    exact ⟨c', hc', hsane⟩
  | isCongested now =>
    obtain ⟨congested, hcongested⟩ := h.isCongested_ok now
    exact ⟨c, bind_ok hcongested _, h⟩
  | getUncongestedETA now =>
    obtain ⟨eta, heta⟩ := h.getUncongestedETA_ok now
    exact ⟨c, bind_ok heta _, h⟩
  | getBandwidth =>
    obtain ⟨bandwidth, hbandwidth⟩ := h.getBandwidth_ok
    exact ⟨c, bind_ok hbandwidth _, h⟩

theorem Congestion.run_sane (updated sent arrived adjusted : Timeval)
    (events : List CongestionEvent) :
    ∃ c, tryRun step (init updated sent arrived adjusted) events = .ok c ∧ c.Sane := by
  have hguard : ∀ c e, (fun (_ : Congestion) (_ : CongestionEvent) => True) c e := fun _ _ => trivial
  exact tryRun_invariant (fun c e hc _ => hc.step_ok e) (sane_init _ _ _ _)
    (tryGuarded_of_forall hguard events _)

/-- **The window.** It is within its limits after every run, and an adjustment with a
latency that is too high does not make it larger, exactly if the subtraction of the
constant does not wrap around. -/
theorem congestion_window_sound (updated sent arrived adjusted : Timeval)
    (events : List CongestionEvent) :
    ∃ c, tryRun Congestion.step (Congestion.init updated sent arrived adjusted) events = .ok c ∧
      (MINIMUM_WINDOW ≤ c.congWindow ∧ c.congWindow ≤ MAXIMUM_WINDOW) ∧
      ∀ now adjusted' c₁, c.recordPong now = .ok (c₁, true) → 3 ≤ c₁.measurements →
        c₁.TooFast →
        ∃ c₂, c.gotPong now adjusted' = .ok c₂ ∧
          (c₂.congWindow ≤ max c.congWindow MINIMUM_WINDOW ↔ c₁.CanBackOff) := by
  obtain ⟨c, hrun, hc⟩ := Congestion.run_sane updated sent arrived adjusted events
  refine ⟨c, hrun, ⟨hc.window_ge, hc.window_le⟩, fun now adjusted' c₁ hrecord hmany hfast => ?_⟩
  obtain ⟨c', adjust, hrecord', hsane, hwindow, -⟩ := hc.recordPong_ok now
  obtain ⟨rfl, rfl⟩ := Prod.mk.inj (Except.ok.inj (hrecord'.symm.trans hrecord))
  obtain ⟨c₂, hupdate, -, -, -, -, hnew⟩ := hsane.updateCongestion_ok adjusted'
  refine ⟨c₂, ?_, ?_⟩
  · unfold Congestion.gotPong
    rw [bind_ok hrecord]
    exact hupdate
  · rw [hnew hmany hfast, ← hwindow]
    exact hsane.clampWindow_sub

/-! ## A latency spike -/

/-- A new position and a ping; the pong takes a second or a millisecond. -/
def pingPong (length sec usec : ℕ) (slow : Bool) : List CongestionEvent :=
  let sent : Timeval := ⟨sec, usec⟩
  let arrived : Timeval := if slow then ⟨sec + 1, usec⟩ else ⟨sec, usec + 1000⟩
  [.updatePosition length sent sent, .sentPing sent sent sent, .gotPong arrived arrived]

/-- Three fast round trips, then two slow ones and the ping of a third. -/
def spikeRun : List CongestionEvent :=
  pingPong 100 1 0 false ++ pingPong 200 1 10000 false ++ pingPong 300 1 20000 false ++
    pingPong 400 1 30000 true ++ pingPong 500 2 40000 true ++
    (pingPong 600 3 50000 true).take 2

/-- The state at the third slow pong, before the window is adjusted. -/
def spikedCongestion : Congestion where
  lastPosition := 600
  extraBuffer := 0
  lastUpdate := ⟨3, 50000⟩
  lastSent := ⟨3, 50000⟩
  baseRTT := 1
  congWindow := INITIAL_WINDOW
  inSlowStart := true
  safeBaseRTT := 1
  pings := []
  lastPong := ⟨⟨3, 50000⟩, 600, 0, false⟩
  lastPongArrival := ⟨4, 50000⟩
  measurements := 3
  lastAdjustment := ⟨1, 21000⟩
  minRTT := 1000
  minCongestedRTT := unmeasured

theorem tryRun_spikeRun : ((tryRun Congestion.step
    (Congestion.init ⟨1, 0⟩ ⟨1, 0⟩ ⟨1, 0⟩ ⟨1, 0⟩) spikeRun).bind fun c =>
      c.recordPong ⟨4, 50000⟩) = .ok (spikedCongestion, true) := by
  decide

/-- **A spike opens the window.** 16 is left of the window after the latency has risen
from 1 ms to a second; subtracting the constant wraps around. -/
theorem latency_spike_speeds_up :
    CongestionEvent.MonotoneClock (spikeRun ++ [.gotPong ⟨4, 50000⟩ ⟨4, 50000⟩]) ∧
      ∃ c c₁ c₂, tryRun Congestion.step
          (Congestion.init ⟨1, 0⟩ ⟨1, 0⟩ ⟨1, 0⟩ ⟨1, 0⟩) spikeRun = .ok c ∧
        c.recordPong ⟨4, 50000⟩ = .ok (c₁, true) ∧ 3 ≤ c₁.measurements ∧
        c₁.latencySpike = true ∧ c.gotPong ⟨4, 50000⟩ ⟨4, 50000⟩ = .ok c₂ ∧
        c.congWindow = 16384 ∧ c₂.congWindow = 4194304 ∧
        ¬ c₂.congWindow ≤ max c.congWindow MINIMUM_WINDOW := by
  obtain ⟨c, hrun, hrecord⟩ := of_bind_ok tryRun_spikeRun
  have hspiked : ((tryRun Congestion.step
      (Congestion.init ⟨1, 0⟩ ⟨1, 0⟩ ⟨1, 0⟩ ⟨1, 0⟩) spikeRun).bind fun c =>
        (c.gotPong ⟨4, 50000⟩ ⟨4, 50000⟩).map fun c₂ => (c.congWindow, c₂.congWindow)) =
      .ok (16384, 4194304) := by
    decide
  rw [hrun] at hspiked
  obtain ⟨c₂, hpong, hwindows⟩ := of_map_ok hspiked
  obtain ⟨hold, hnew⟩ := Prod.mk.inj hwindows
  refine ⟨by decide, c, _, c₂, hrun, hrecord, by decide, by decide, hpong, hold,
    hnew, ?_⟩
  rw [hold, hnew]
  decide

/-! ## What is in flight -/

/-- The positions of the stream, without wrapping around. -/
structure StreamPositions where
  last : ℕ
  pings : List ℕ
  pong : ℕ

namespace StreamPositions

def init : StreamPositions := ⟨0, [], 0⟩

def step (s : StreamPositions) : CongestionEvent → StreamPositions
  | .updatePosition length _ _ => { s with last := length }
  | .sentPing _ _ _ => { s with pings := s.pings ++ [s.last] }
  | .gotPong _ _ => { s with pings := s.pings.tail, pong := s.pings.headD s.pong }
  | _ => s

/-- The stream does not shrink. -/
def Grows (s : StreamPositions) : CongestionEvent → Prop
  | .updatePosition length _ _ => s.last ≤ length
  | _ => True

/-- And it grows by less than half of the words between two pings. -/
def GrowsSlowly (s : StreamPositions) : CongestionEvent → Prop
  | .updatePosition length _ _ =>
    s.last ≤ length ∧ length - s.pings.getLastD s.pong < 2 ^ 31
  | _ => True

/-- The pongs are in the order of the positions. -/
structure Ordered (s : StreamPositions) : Prop where
  pong_le : s.pong ≤ s.last
  pings_le : ∀ p ∈ s.pings, s.pong ≤ p ∧ p ≤ s.last
  sorted : s.pings.Pairwise (· ≤ ·)

theorem Ordered.step {s : StreamPositions} (h : s.Ordered) {e : CongestionEvent}
    (he : s.Grows e) : (s.step e).Ordered := by
  obtain ⟨hpong, hpings, hsorted⟩ := h
  cases e with
  | updatePosition length now adjusted =>
    exact ⟨hpong.trans he, fun p hp => ⟨(hpings p hp).1, (hpings p hp).2.trans he⟩, hsorted⟩
  | sentPing tv extraRead congestedRead =>
    refine ⟨hpong, fun p hp => ?_, ?_⟩
    · rcases List.mem_append.mp hp with hp | hp
      · exact hpings p hp
      · obtain rfl := List.mem_singleton.mp hp
        exact ⟨hpong, le_rfl⟩
    · refine List.pairwise_append.mpr ⟨hsorted, List.pairwise_singleton _ _, fun p hp q hq => ?_⟩
      obtain rfl := List.mem_singleton.mp hq
      exact (hpings p hp).2
  | gotPong now adjusted =>
    obtain ⟨last, pings, pong⟩ := s
    cases pings with
    | nil => exact ⟨hpong, fun p hp => absurd hp List.not_mem_nil, List.Pairwise.nil⟩
    | cons ping rest =>
      obtain ⟨hfirst, hrest⟩ := List.pairwise_cons.mp hsorted
      exact ⟨(hpings ping List.mem_cons_self).2, fun p hp =>
        ⟨hfirst p hp, (hpings p (List.mem_cons_of_mem _ hp)).2⟩, hrest⟩
  | isCongested now => exact ⟨hpong, hpings, hsorted⟩
  | getUncongestedETA now => exact ⟨hpong, hpings, hsorted⟩
  | getBandwidth => exact ⟨hpong, hpings, hsorted⟩

/-- The words of the implementation are the positions, truncated. -/
structure Follows (s : StreamPositions) (c : Congestion) : Prop where
  last : c.lastPosition = UInt32.ofNat s.last
  pings : c.pings.map RTTInfo.pos = s.pings.map UInt32.ofNat
  pong : c.lastPong.pos = UInt32.ofNat s.pong

theorem Follows.step {s : StreamPositions} {c c' : Congestion} {e : CongestionEvent}
    (h : s.Follows c) (hc : c.Sane) (he : c.step e = .ok c') : (s.step e).Follows c' := by
  cases e with
  | updatePosition length now adjusted =>
    obtain ⟨c₁, hc₁, -, hlast, hpings, hpong⟩ :=
      hc.updatePosition_ok (UInt32.ofNat length) now adjusted
    obtain rfl := Except.ok.inj (hc₁.symm.trans he)
    exact ⟨hlast, hpings ▸ h.pings, hpong ▸ h.pong⟩
  | sentPing tv extraRead congestedRead =>
    obtain ⟨ping, hpos, hping⟩ := hc.sentPing_ok tv extraRead congestedRead
    obtain rfl := Except.ok.inj (hping.symm.trans he)
    refine ⟨h.last, ?_, h.pong⟩
    show (c.pings ++ [ping]).map RTTInfo.pos = (s.pings ++ [s.last]).map UInt32.ofNat
    rw [List.map_append, List.map_append, h.pings, List.map_singleton, List.map_singleton, hpos,
      h.last]
  | gotPong now adjusted =>
    obtain ⟨c₁, hc₁, -, hlast, hpings, hpong⟩ := hc.gotPong_ok now adjusted
    obtain rfl := Except.ok.inj (hc₁.symm.trans he)
    refine ⟨hlast.trans h.last, ?_, ?_⟩
    · show c₁.pings.map RTTInfo.pos = s.pings.tail.map UInt32.ofNat
      rw [hpings, List.map_tail, List.map_tail, h.pings]
    · show c₁.lastPong.pos = UInt32.ofNat (s.pings.headD s.pong)
      have hsame := h.pings
      rw [hpong]
      cases hc : c.pings with
      | nil =>
        rw [hc, List.map_nil, eq_comm, List.map_eq_nil_iff] at hsame
        rw [hsame]
        exact h.pong
      | cons ping rest =>
        rw [hc, List.map_cons] at hsame
        obtain ⟨p, ps, hps, hp, -⟩ := List.map_eq_cons_iff.mp hsame.symm
        rw [hps]
        exact hp.symm
  | isCongested now =>
    obtain ⟨_, _, hsame⟩ := of_bind_ok he
    obtain rfl := Except.ok.inj hsame
    exact h
  | getUncongestedETA now =>
    obtain ⟨_, _, hsame⟩ := of_bind_ok he
    obtain rfl := Except.ok.inj hsame
    exact h
  | getBandwidth =>
    obtain ⟨_, _, hsame⟩ := of_bind_ok he
    obtain rfl := Except.ok.inj hsame
    exact h

/-- The next pong to come lies between the last one and the last position. -/
theorem Follows.next_le {s : StreamPositions} {c : Congestion} (h : s.Follows c)
    (hs : s.Ordered) (hfit : s.last - s.pong < 2 ^ 32) :
    (c.pings.headD c.pretendedPing).pos - c.lastPong.pos ≤ c.lastPosition - c.lastPong.pos := by
  rw [h.pong]
  cases hc : c.pings with
  | nil => exact UInt32.le_refl _
  | cons ping rest =>
    have hsame := h.pings
    rw [hc, List.map_cons] at hsame
    obtain ⟨p, ps, hps, hp, -⟩ := List.map_eq_cons_iff.mp hsame.symm
    obtain ⟨hlow, hhigh⟩ := hs.pings_le p (hps ▸ List.mem_cons_self)
    show ping.pos - _ ≤ _
    rw [← hp, h.last]
    exact Word.ofNat_sub_le_sub hlow hhigh hfit

theorem Follows.run : ∀ {events : List CongestionEvent} {s : StreamPositions} {c c' : Congestion},
    s.Follows c → c.Sane → tryRun Congestion.step c events = .ok c' →
      (Lib.run StreamPositions.step s events).Follows c'
  | [], s, c, c', h, _, hrun => by
    obtain rfl := Except.ok.inj hrun
    exact h
  | e :: events, s, c, c', h, hc, hrun => by
    obtain ⟨c₁, he, hrest⟩ := of_bind_ok hrun
    obtain ⟨c₂, he', hsane⟩ := hc.step_ok e
    obtain rfl := Except.ok.inj (he'.symm.trans he)
    rw [run_cons]
    exact Follows.run (h.step hc he) hsane hrest

end StreamPositions

/-- The bytes in flight are those after the last pong, or some of them. -/
theorem Congestion.getInFlight_le {c : Congestion} {now : Timeval} {inFlight : UInt32}
    (h : c.getInFlight now = .ok inFlight)
    (hnext : (c.pings.headD c.pretendedPing).pos - c.lastPong.pos ≤
      c.lastPosition - c.lastPong.pos) :
    inFlight ≤ c.lastPosition - c.lastPong.pos := by
  unfold getInFlight at h
  split at h
  · obtain rfl := Except.ok.inj h
    exact Word.zero_le _
  · split at h
    · split at h
      · obtain rfl := Except.ok.inj h
        exact Word.zero_le _
      · rename_i ping rest hpings
        obtain rfl := Except.ok.inj h
        rw [hpings] at hnext
        exact Word.sub_le_sub_of_sub_le hnext
    · obtain ⟨eta, -, h⟩ := of_bind_ok h
      dsimp only at h
      split at h
      · obtain rfl := Except.ok.inj h
        exact Word.sub_le_sub_of_sub_le hnext
      · rename_i hlong
        obtain ⟨acked, hacked, h⟩ := of_bind_ok h
        obtain rfl := Except.ok.inj h
        have hlt := UInt32.not_le.mp hlong
        rw [divide_ok (Word.ne_zero_of_lt hlt)] at hacked
        obtain rfl := Except.ok.inj hacked
        have hpart := Word.mul_div_le (a := (c.pings.headD c.pretendedPing).pos - c.lastPong.pos)
          (UInt32.le_of_lt hlt)
        rw [Word.sub_add_eq]
        exact Word.sub_le_self (UInt32.le_trans hpart hnext)

/-- **Safe arithmetic.** No call of a run divides by zero or fails an assertion. If the
stream grows and the part after the last pong fits a word, no more than this part is
said to be in flight. -/
theorem congestion_arithmetic_safe (updated sent arrived adjusted : Timeval)
    (events : List CongestionEvent) :
    ∃ c, tryRun Congestion.step (Congestion.init updated sent arrived adjusted) events = .ok c ∧
      (Guarded StreamPositions.step StreamPositions.Grows StreamPositions.init events →
        (run StreamPositions.step StreamPositions.init events).last -
          (run StreamPositions.step StreamPositions.init events).pong < 2 ^ 32 →
        ∀ now, ∃ inFlight, c.getInFlight now = .ok inFlight ∧
          inFlight ≤ c.lastPosition - c.lastPong.pos) := by
  obtain ⟨c, hrun, hc⟩ := Congestion.run_sane updated sent arrived adjusted events
  refine ⟨c, hrun, fun hgrows hfit now => ?_⟩
  obtain ⟨inFlight, hflight⟩ := hc.getInFlight_ok now
  refine ⟨inFlight, hflight, Congestion.getInFlight_le hflight ?_⟩
  have hordered := run_invariant (fun s e hs he => StreamPositions.Ordered.step hs he)
    ⟨le_rfl, fun p hp => absurd hp List.not_mem_nil, List.Pairwise.nil⟩ hgrows
  have hfollows : StreamPositions.init.Follows (Congestion.init updated sent arrived adjusted) :=
    ⟨rfl, rfl, rfl⟩
  exact (hfollows.run (Congestion.sane_init _ _ _ _) hrun).next_le hordered hfit

/-- Three pieces of 2^31 - 1 bytes, with pings after the first two. -/
def longRun : List CongestionEvent :=
  let now : Timeval := ⟨1, 0⟩
  [.updatePosition (2 ^ 31 - 1) now now, .sentPing now now now,
    .updatePosition (2 * (2 ^ 31 - 1)) now now, .sentPing now now now,
    .updatePosition (3 * (2 ^ 31 - 1)) now now]

/-- **More than a word in flight.** Before the first pong, what lies after the first of
several pings can be more than the distance from the last pong, which has wrapped
around. -/
theorem inFlight_wraps :
    CongestionEvent.MonotoneClock longRun ∧
      Guarded StreamPositions.step StreamPositions.GrowsSlowly StreamPositions.init longRun ∧
      ∃ c inFlight, tryRun Congestion.step
          (Congestion.init ⟨1, 0⟩ ⟨1, 0⟩ ⟨1, 0⟩ ⟨1, 0⟩) longRun = .ok c ∧
        c.getInFlight ⟨1, 0⟩ = .ok inFlight ∧ inFlight = 4294967294 ∧
        c.lastPosition - c.lastPong.pos = 2147483645 := by
  have hview : ((tryRun Congestion.step
      (Congestion.init ⟨1, 0⟩ ⟨1, 0⟩ ⟨1, 0⟩ ⟨1, 0⟩) longRun).bind fun c =>
        (c.getInFlight ⟨1, 0⟩).map fun inFlight =>
          (inFlight, c.lastPosition - c.lastPong.pos)) = .ok (4294967294, 2147483645) := by
    decide
  obtain ⟨c, hrun, hflight⟩ := of_bind_ok hview
  obtain ⟨inFlight, hflight, hvalues⟩ := of_map_ok hflight
  obtain ⟨hvalue, hdistance⟩ := Prod.mk.inj hvalues
  refine ⟨by decide, ?_, c, inFlight, hrun, hflight, hvalue, hdistance⟩
  simp [longRun, Guarded, StreamPositions.GrowsSlowly, StreamPositions.step,
    StreamPositions.init]

end KasmVNC.Rfb
