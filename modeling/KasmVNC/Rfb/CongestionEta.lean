import KasmVNC.Rfb.CongestionSafe

/-!
# How long the transport stays congested

`getInFlight` interpolates between the last pong and the next one to come: the further the
wanted position is from the last pong, the longer it takes. `getUncongestedETA` goes through
the same pings, but takes the part of the segment *behind* the wanted position for the part
before it. Both agree if the position is in the middle of the segment, up to the rounding, and
if it is in the first segment: no time makes up for a pong that has not arrived.
-/

namespace KasmVNC.Rfb

open KasmVNC.Lib

/-! ## Milliseconds -/

/-- A clock reading in the unit of `msBetween`. -/
def Timeval.ms (t : Timeval) : ℕ := t.sec * 1000 + t.usec / 1000

/-- Some milliseconds later. -/
def Timeval.after (t : Timeval) (k : ℕ) : Timeval :=
  ⟨t.sec + (t.usec + 1000 * k) / 1000000, (t.usec + 1000 * k) % 1000000⟩

theorem Timeval.ms_after (t : Timeval) (k : ℕ) : (t.after k).ms = t.ms + k := by
  simp only [ms, after]
  omega

theorem toNat_msBetween_add {first now later : Timeval} {k : ℕ} (h : later.ms = now.ms + k)
    (hfit : (msBetween first now).toNat + k < 2 ^ 32) :
    (msBetween first later).toNat = (msBetween first now).toNat + k := by
  have hnow : (msBetween first now).toNat =
      (2 ^ 32 - first.ms % 2 ^ 32 + now.ms) % 2 ^ 32 := by
    simp only [msBetween, Timeval.ms, UInt32.toNat_sub, UInt32.toNat_add, UInt32.toNat_mul,
      UInt32.toNat_ofNat', UInt32.reduceToNat]
    omega
  have hlater : (msBetween first later).toNat =
      (2 ^ 32 - first.ms % 2 ^ 32 + later.ms) % 2 ^ 32 := by
    simp only [msBetween, Timeval.ms, UInt32.toNat_sub, UInt32.toNat_add, UInt32.toNat_mul,
      UInt32.toNat_ofNat', UInt32.reduceToNat]
    omega
  omega

/-! ## The first segment -/

namespace Congestion

variable (c : Congestion) (now : Timeval)

/-- The next pong to come, or what is pretended to be one. -/
def nextPong : RTTInfo := c.pings.headD c.pretendedPing

/-- The transport is uncongested once more than this position has arrived. -/
def targetAcked : UInt32 := c.lastPosition - c.congWindow

/-- How many bytes of the segment have to arrive, and how many it has. -/
def needed : ℕ := (c.targetAcked - c.lastPong.pos).toNat

def span : ℕ := (c.nextPong.pos - c.lastPong.pos).toNat

/-- The time between the last pong and the next one. -/
def wait : ℕ := ((c.etaBetween c.lastPong c.nextPong).toOption.getD 0).toNat

def elapsed : ℕ := (msBetween c.lastPongArrival now).toNat

/-- The time in which one byte more than needed arrives, rounded up. -/
def passTime : ℕ := ((c.needed + 1) * c.wait + (c.span - 1)) / c.span

/-- The time in which the rest of the segment arrives, rounded down. -/
def restTime : ℕ := c.wait * (c.span - c.needed) / c.span

/-- The position is in the first segment and, as far as it still matters, in its middle. -/
structure InMiddle : Prop where
  first : isAfter c.nextPong.pos c.targetAcked = true
  late : c.passTime ≤ max c.restTime (c.elapsed now) + 1
  early : c.elapsed now + 2 ≤ c.restTime → c.restTime ≤ c.passTime + 1

/-- The products fit their words, and so does the time. -/
structure NoOverflow (e : ℕ) : Prop where
  clock : c.elapsed now + e + 1 < 2 ^ 32
  acked : ∀ t ≤ c.elapsed now + e + 1, t < c.wait → c.span * t < 2 ^ 32
  eta : isAfter c.nextPong.pos c.targetAcked = true →
    c.wait * (c.nextPong.pos - c.targetAcked).toNat < 2 ^ 32

/-- If nothing happens, the transport is uncongested after one millisecond more than the time
that is announced, and congested until one millisecond less. -/
def EtaExact (e : ℕ) : Prop :=
  (∀ later : Timeval, later.ms = now.ms + (e + 1) → c.isCongested later = .ok false) ∧
    ∀ (later : Timeval) (k : ℕ), k + 1 < e → later.ms = now.ms + k →
      c.isCongested later = .ok true

variable {c now}

/-- What is in flight comes after the last pong, and so does the next pong. -/
structure Waiting (c : Congestion) : Prop where
  sane : c.Sane
  measured : c.baseRTT ≠ unmeasured
  unacked : c.lastPosition ≠ c.lastPong.pos
  next_le : c.nextPong.pos - c.lastPong.pos ≤ c.lastPosition - c.lastPong.pos
  window_le : c.congWindow ≤ c.lastPosition - c.lastPong.pos

theorem needed_add (h : c.congWindow ≤ c.lastPosition - c.lastPong.pos) :
    c.needed + c.congWindow.toNat = (c.lastPosition - c.lastPong.pos).toNat := by
  have hle := UInt32.le_iff_toNat_le.mp h
  have hsub : c.targetAcked - c.lastPong.pos = c.lastPosition - c.lastPong.pos - c.congWindow := by
    rw [targetAcked, ← Word.sub_add_eq, ← Word.sub_add_eq, UInt32.add_comm]
  rw [needed, hsub, UInt32.toNat_sub_of_le _ _ h]
  omega

theorem Waiting.span_le (h : c.Waiting) : c.span ≤ c.needed + c.congWindow.toNat := by
  rw [needed_add h.window_le]
  exact UInt32.le_iff_toNat_le.mp h.next_le

theorem Waiting.etaBetween_eq (h : c.Waiting) :
    ∃ eta, c.etaBetween c.lastPong c.nextPong = .ok eta ∧ eta.toNat = c.wait := by
  obtain ⟨eta, heta⟩ := h.sane.etaBetween_ok c.lastPong c.nextPong
  refine ⟨eta, heta, ?_⟩
  rw [wait, heta]
  rfl

/-- How much of the segment has arrived. -/
def arrived (c : Congestion) (t : ℕ) : ℕ :=
  if c.wait ≤ t then c.span else c.span * t / c.wait

theorem arrived_le (c : Congestion) (t : ℕ) : c.arrived t ≤ c.span := by
  unfold arrived
  split
  · exact le_rfl
  · exact Nat.div_le_of_le_mul (by rw [Nat.mul_comm]; exact Nat.mul_le_mul_right _ (by omega))

/-- More than needed has arrived from `passTime` on. -/
theorem needed_lt_arrived (h : c.needed < c.span) (t : ℕ) :
    c.needed < c.arrived t ↔ c.passTime ≤ t := by
  have hpass : c.passTime ≤ t ↔ (c.needed + 1) * c.wait ≤ c.span * t := by
    rw [passTime, Nat.div_le_iff_le_mul_add_pred (by omega)]
    omega
  rw [hpass]
  unfold arrived
  split
  case isTrue hlong =>
    refine ⟨fun _ => ?_, fun _ => h⟩
    exact Nat.mul_le_mul h hlong
  case isFalse hshort =>
    rw [Nat.lt_iff_add_one_le, Nat.le_div_iff_mul_le (by omega)]

theorem Waiting.getInFlight_eq (h : c.Waiting)
    (hfit : c.elapsed now < c.wait → c.span * c.elapsed now < 2 ^ 32) :
    ∃ inFlight, c.getInFlight now = .ok inFlight ∧
      inFlight.toNat + c.arrived (c.elapsed now) = c.needed + c.congWindow.toNat := by
  obtain ⟨eta, heta, hwait⟩ := h.etaBetween_eq
  have hspan := h.span_le
  have hsplit : ∀ a : UInt32, a ≤ c.nextPong.pos - c.lastPong.pos →
      (c.lastPosition - c.lastPong.pos - a).toNat + a.toNat = c.needed + c.congWindow.toNat := by
    intro a ha
    have hle := UInt32.le_iff_toNat_le.mp (UInt32.le_trans ha h.next_le)
    rw [UInt32.toNat_sub_of_le _ _ (UInt32.le_trans ha h.next_le), needed_add h.window_le]
    omega
  have hflight : c.getInFlight now = (do
      let etaNext ← c.etaBetween c.lastPong c.nextPong
      let elapsed := msBetween c.lastPongArrival now
      if etaNext ≤ elapsed then .ok (c.lastPosition - c.nextPong.pos)
      else do
        let acked ← divide ((c.nextPong.pos - c.lastPong.pos) * elapsed) etaNext
        .ok (c.lastPosition - (c.lastPong.pos + acked))) := by
    rw [getInFlight, if_neg h.unacked, if_neg h.measured]
    rfl
  rw [hflight, bind_ok heta]
  dsimp only
  split
  case isTrue hlong =>
    have hlong' : c.wait ≤ c.elapsed now := hwait ▸ UInt32.le_iff_toNat_le.mp hlong
    refine ⟨_, rfl, ?_⟩
    have hall := hsplit _ (UInt32.le_refl _)
    have hpos : c.lastPosition - c.lastPong.pos - (c.nextPong.pos - c.lastPong.pos) =
        c.lastPosition - c.nextPong.pos := by
      rw [← Word.sub_add_eq, UInt32.add_comm, UInt32.sub_add_cancel]
    rw [hpos] at hall
    rw [arrived, if_pos hlong']
    exact hall
  case isFalse hshort =>
    have hlt := UInt32.not_le.mp hshort
    have hlt' : c.elapsed now < c.wait := hwait ▸ UInt32.lt_iff_toNat_lt.mp hlt
    rw [bind_ok (divide_ok (Word.ne_zero_of_lt hlt))]
    refine ⟨_, rfl, ?_⟩
    have hpart := hsplit _ (Word.mul_div_le (a := c.nextPong.pos - c.lastPong.pos)
      (UInt32.le_of_lt hlt))
    rw [Word.sub_add_eq, arrived, if_neg (by omega)]
    have hdiv : ((c.nextPong.pos - c.lastPong.pos) * msBetween c.lastPongArrival now / eta).toNat =
        c.span * c.elapsed now / c.wait := by
      rw [UInt32.toNat_div, UInt32.toNat_mul, hwait]
      exact congrArg (· / c.wait) (Nat.mod_eq_of_lt (hfit hlt'))
    rw [hdiv] at hpart
    exact hpart

theorem Waiting.isCongested_eq (h : c.Waiting)
    (hfit : c.elapsed now < c.wait → c.span * c.elapsed now < 2 ^ 32) :
    c.isCongested now = .ok (decide (c.arrived (c.elapsed now) ≤ c.needed)) := by
  obtain ⟨inFlight, hflight, hsum⟩ := h.getInFlight_eq hfit
  rw [isCongested, bind_ok hflight]
  refine congrArg _ (decide_eq_decide.mpr ?_)
  show c.congWindow ≤ inFlight ↔ _
  rw [UInt32.le_iff_toNat_le]
  omega

/-! ## The time that is announced -/

theorem isAfter_eq_decide {a b base : UInt32} (ha : (a - base).toNat < 2 ^ 31)
    (hb : (b - base).toNat < 2 ^ 31) :
    isAfter a b = decide ((b - base).toNat < (a - base).toNat) := by
  have hdiff : (a - b).toNat = (2 ^ 32 - (b - base).toNat + (a - base).toNat) % 2 ^ 32 := by
    rw [UInt32.toNat_sub, UInt32.toNat_sub, UInt32.toNat_sub]
    have := a.toNat_lt
    have := b.toNat_lt
    have := base.toNat_lt
    omega
  have hne : a ≠ b ↔ (a - base).toNat ≠ (b - base).toNat := by
    rw [Ne, Ne, UInt32.toNat_inj, UInt32.sub_left_inj]
  rw [isAfter, ← Bool.decide_and, decide_eq_decide, hne, UInt32.le_iff_toNat_le, hdiff]
  show _ ∧ _ ≤ 2147483647 ↔ _
  omega

/-- What has arrived does not clear the congestion if more than the window is in flight. -/
theorem isAfter_lastPong (h : c.congWindow ≤ c.lastPosition - c.lastPong.pos)
    (hfit : (c.lastPosition - c.lastPong.pos).toNat < 2 ^ 31) :
    isAfter c.lastPong.pos c.targetAcked = false := by
  have hsum := needed_add h
  have hneeded : (c.targetAcked - c.lastPong.pos).toNat < 2 ^ 31 := by
    show c.needed < _
    omega
  rw [isAfter_eq_decide (by rw [UInt32.sub_self]; decide) hneeded, UInt32.sub_self]
  exact decide_eq_false (Nat.not_lt_zero _)

theorem Waiting.isAfter_nextPong (h : c.Waiting)
    (hfit : (c.lastPosition - c.lastPong.pos).toNat < 2 ^ 31) :
    isAfter c.nextPong.pos c.targetAcked = decide (c.needed < c.span) := by
  have hsum := needed_add h.window_le
  have hspan := h.span_le
  refine isAfter_eq_decide ?_ ?_
  · show c.span < _
    omega
  · show c.needed < _
    omega

theorem waiting_of_congested (hc : c.Sane)
    (hnext : c.nextPong.pos - c.lastPong.pos ≤ c.lastPosition - c.lastPong.pos)
    (hfit : (c.lastPosition - c.lastPong.pos).toNat < 2 ^ 31)
    (hcongested : c.isCongested now = .ok true) {eta : Int32}
    (heta : c.getUncongestedETA now = .ok eta) (hpos : 0 ≤ eta) : c.Waiting := by
  obtain ⟨inFlight, hflight, hfull⟩ := of_bind_ok hcongested
  have hwindow : c.congWindow ≤ c.lastPosition - c.lastPong.pos := by
    have hfull : c.congWindow ≤ inFlight := of_decide_eq_true (Except.ok.inj hfull)
    exact UInt32.le_trans hfull (getInFlight_le hflight hnext)
  have hunacked : c.lastPosition ≠ c.lastPong.pos := by
    intro heq
    rw [heq, UInt32.sub_self] at hwindow
    exact hc.window_ne_zero (UInt32.le_antisymm hwindow (Word.zero_le _))
  refine ⟨hc, fun hunmeasured => ?_, hunacked, hnext, hwindow⟩
  have hsimple : isAfter c.lastPong.pos (c.lastPosition - c.congWindow) = false :=
    isAfter_lastPong hwindow hfit
  rw [getUncongestedETA, if_neg (by rw [hsimple]; decide), if_pos hunmeasured] at heta
  obtain rfl := Except.ok.inj heta
  exact absurd hpos (by decide)

theorem toNat_toInt32 {a : UInt32} (h : 0 ≤ a.toInt32) : a.toInt32.toInt.toNat = a.toNat := by
  have hle : 0 ≤ a.toBitVec.toInt := Int32.le_iff_toInt_le.mp h
  have hcond := BitVec.toInt_eq_toNat_cond a.toBitVec
  have hnat : a.toBitVec.toNat = a.toNat := rfl
  have := a.toNat_lt
  show a.toBitVec.toInt.toNat = a.toNat
  split at hcond <;> omega

/-- In the first segment it is the time of the rest, from the last pong on. -/
theorem Waiting.max_restTime (h : c.Waiting)
    (hfit : (c.lastPosition - c.lastPong.pos).toNat < 2 ^ 31)
    (hfirst : isAfter c.nextPong.pos c.targetAcked = true)
    (hprod : c.wait * (c.nextPong.pos - c.targetAcked).toNat < 2 ^ 32) {eta : Int32}
    (heta : c.getUncongestedETA now = .ok eta) (hpos : 0 ≤ eta) :
    c.elapsed now + eta.toInt.toNat = max c.restTime (c.elapsed now) := by
  obtain ⟨etaNext, hnext, hwait⟩ := h.etaBetween_eq
  have hshort : c.needed < c.span := by
    rw [h.isAfter_nextPong hfit] at hfirst
    exact of_decide_eq_true hfirst
  have hdiff : (c.nextPong.pos - c.targetAcked).toNat = c.span - c.needed := by
    have hback : c.nextPong.pos - c.targetAcked =
        (c.nextPong.pos - c.lastPong.pos) - (c.targetAcked - c.lastPong.pos) := by
      rw [← Word.sub_add_eq, UInt32.add_comm, UInt32.sub_add_cancel]
    rw [hback]
    exact UInt32.toNat_sub_of_le _ _ (UInt32.le_iff_toNat_le.mpr hshort.le)
  have hspan : c.nextPong.pos - c.lastPong.pos ≠ 0 := by
    intro hzero
    rw [span, hzero] at hshort
    exact absurd hshort (Nat.not_lt_zero _)
  obtain ⟨rest, hrest⟩ : ∃ rest,
      rest = etaNext * (c.nextPong.pos - c.targetAcked) / (c.nextPong.pos - c.lastPong.pos) :=
    ⟨_, rfl⟩
  have hrestTime : rest.toNat = c.restTime := by
    rw [hrest, UInt32.toNat_div, UInt32.toNat_mul, hwait, Nat.mod_eq_of_lt hprod, hdiff]
    rfl
  have hsimple : isAfter c.lastPong.pos (c.lastPosition - c.congWindow) = false :=
    isAfter_lastPong h.window_le hfit
  have hwalk : c.walkPings (c.lastPosition - c.congWindow) (msBetween c.lastPongArrival now)
      c.lastPong 0 c.pings = .ok (if msBetween c.lastPongArrival now > 0 + rest then 0
        else 0 + rest - msBetween c.lastPongArrival now) := by
    unfold walkPings
    show bind (c.etaBetween c.lastPong c.nextPong) _ = _
    rw [bind_ok hnext]
    show ite (isAfter c.nextPong.pos c.targetAcked = true) _ _ = _
    rw [if_pos hfirst, hrest]
    exact bind_ok (divide_ok hspan) _
  rw [getUncongestedETA, if_neg (by rw [hsimple]; decide), if_neg h.measured, bind_ok hwalk,
    UInt32.zero_add] at heta
  obtain rfl := Except.ok.inj heta
  rw [toNat_toInt32 hpos, ← hrestTime]
  show (msBetween c.lastPongArrival now).toNat + _ = max _ (msBetween c.lastPongArrival now).toNat
  split
  case isTrue hover =>
    have := UInt32.lt_iff_toNat_lt.mp hover
    rw [UInt32.toNat_zero, max_eq_right this.le, Nat.add_zero]
  case isFalse hrests =>
    have hle := UInt32.not_lt.mp hrests
    rw [UInt32.toNat_sub_of_le _ _ hle]
    have := UInt32.le_iff_toNat_le.mp hle
    omega

/-! ## When it is right -/

/-- As long as nothing happens, the transport is congested until `passTime`. -/
theorem Waiting.isCongested_later (h : c.Waiting) (hshort : c.needed < c.span) {e k : ℕ}
    (hsafe : c.NoOverflow now e) (hk : k ≤ e + 1) {later : Timeval}
    (hlater : later.ms = now.ms + k) :
    c.isCongested later = .ok (decide (c.elapsed now + k < c.passTime)) := by
  have hclock := hsafe.clock
  have helapsed : c.elapsed later = c.elapsed now + k :=
    toNat_msBetween_add hlater (show c.elapsed now + k < 2 ^ 32 by omega)
  rw [h.isCongested_eq (fun hw => hsafe.acked _ (by omega) hw), helapsed]
  refine congrArg _ (decide_eq_decide.mpr ?_)
  have hpass := needed_lt_arrived hshort (c.elapsed now + k)
  omega

theorem Waiting.isCongested_always (h : c.Waiting) (hlong : c.span ≤ c.needed) {e : ℕ}
    (hsafe : c.NoOverflow now e) {later : Timeval} (hlater : later.ms = now.ms + (e + 1)) :
    c.isCongested later = .ok true := by
  have helapsed : c.elapsed later = c.elapsed now + (e + 1) :=
    toNat_msBetween_add hlater hsafe.clock
  rw [h.isCongested_eq (fun hw => hsafe.acked _ (by omega) hw)]
  exact congrArg _ (decide_eq_true ((arrived_le c _).trans hlong))

theorem Waiting.etaExact_iff (h : c.Waiting)
    (hfit : (c.lastPosition - c.lastPong.pos).toNat < 2 ^ 31) {eta : Int32}
    (heta : c.getUncongestedETA now = .ok eta) (hpos : 0 ≤ eta)
    (hsafe : c.NoOverflow now eta.toInt.toNat) :
    c.EtaExact now eta.toInt.toNat ↔ c.InMiddle now := by
  have hfirst := h.isAfter_nextPong hfit
  by_cases hshort : c.needed < c.span
  · rw [decide_eq_true hshort] at hfirst
    have hsum := h.max_restTime hfit hfirst (hsafe.eta hfirst) heta hpos
    have hlater : ∀ k ≤ eta.toInt.toNat + 1, ∀ later : Timeval, later.ms = now.ms + k →
        c.isCongested later = .ok (decide (c.elapsed now + k < c.passTime)) :=
      fun k hk later => h.isCongested_later hshort hsafe hk
    constructor
    · rintro ⟨hfree, hbusy⟩
      refine ⟨hfirst, ?_, fun hearly => ?_⟩
      · have hend := hfree _ (now.ms_after _)
        rw [hlater _ le_rfl _ (now.ms_after _)] at hend
        have := of_decide_eq_false (Except.ok.inj hend)
        omega
      · -- the last millisecond at which it still has to be congested
        have hstart := hbusy _ (eta.toInt.toNat - 2) (by omega) (now.ms_after _)
        rw [hlater _ (by omega) _ (now.ms_after _)] at hstart
        have := of_decide_eq_true (Except.ok.inj hstart)
        omega
    · rintro ⟨-, hlate, hearly⟩
      constructor
      · intro later hms
        rw [hlater _ le_rfl _ hms]
        exact congrArg _ (decide_eq_false (by omega))
      · intro later k hk hms
        rw [hlater _ (by omega) _ hms]
        have := hearly (by omega)
        exact congrArg _ (decide_eq_true (by omega))
  · rw [decide_eq_false hshort] at hfirst
    refine ⟨fun hexact => ?_, fun hmiddle => ?_⟩
    · have hlater := hexact.1 (now.after (eta.toInt.toNat + 1)) (now.ms_after _)
      rw [h.isCongested_always (not_lt.mp hshort) hsafe (now.ms_after _)] at hlater
      cases hlater
    · rw [hmiddle.first] at hfirst
      cases hfirst

end Congestion

open Congestion in
/-- **The announced time is right in the middle of the first segment.** After every run in
which the stream grows, and less than 2^31 bytes of it lie behind the last pong. -/
theorem uncongested_eta_exact_iff {updated sent arrived adjusted now : Timeval}
    {events : List CongestionEvent} {c : Congestion}
    (hrun : tryRun Congestion.step (init updated sent arrived adjusted) events = .ok c)
    (hgrows : Guarded StreamPositions.step StreamPositions.Grows StreamPositions.init events)
    (hfit : (run StreamPositions.step StreamPositions.init events).last -
      (run StreamPositions.step StreamPositions.init events).pong < 2 ^ 31)
    (hcongested : c.isCongested now = .ok true) {eta : Int32}
    (heta : c.getUncongestedETA now = .ok eta) (hpos : 0 ≤ eta)
    (hsafe : c.NoOverflow now eta.toInt.toNat) :
    c.EtaExact now eta.toInt.toNat ↔ c.InMiddle now := by
  obtain ⟨c', hrun', hc⟩ := run_sane updated sent arrived adjusted events
  obtain rfl := Except.ok.inj (hrun'.symm.trans hrun)
  have hordered := run_invariant (fun s e hs he => StreamPositions.Ordered.step hs he)
    ⟨le_rfl, fun p hp => absurd hp List.not_mem_nil, List.Pairwise.nil⟩ hgrows
  have hinit : StreamPositions.init.Follows (init updated sent arrived adjusted) := ⟨rfl, rfl, rfl⟩
  have hfollows := hinit.run (sane_init _ _ _ _) hrun
  have hbehind : (c'.lastPosition - c'.lastPong.pos).toNat < 2 ^ 31 := by
    rw [hfollows.last, hfollows.pong, Word.toNat_ofNat_sub hordered.pong_le (by omega)]
    exact hfit
  have hnext := hfollows.next_le hordered (by omega)
  have hwaiting := waiting_of_congested hc hnext hbehind hcongested heta hpos
  exact hwaiting.etaExact_iff hbehind heta hpos hsafe

/-- A round trip of 100 ms, then this many bytes and another ping. -/
def etaRun (length : ℕ) : List CongestionEvent :=
  let start : Timeval := ⟨1, 0⟩
  let later : Timeval := ⟨1, 100000⟩
  [.sentPing start start start, .gotPong later later, .updatePosition length later later,
    .sentPing later later later]

/-- The state after it, if the bytes are more than the window. -/
def etaState (length : UInt32) : Congestion where
  lastPosition := length
  extraBuffer := length - INITIAL_WINDOW
  lastUpdate := ⟨1, 100000⟩
  lastSent := ⟨1, 100000⟩
  baseRTT := 100
  congWindow := INITIAL_WINDOW
  inSlowStart := true
  safeBaseRTT := 100
  pings := [⟨⟨1, 100000⟩, length, length - INITIAL_WINDOW, true⟩]
  lastPong := ⟨⟨1, 0⟩, 0, 0, false⟩
  lastPongArrival := ⟨1, 100000⟩
  measurements := 1
  lastAdjustment := ⟨1, 0⟩
  minRTT := 100
  minCongestedRTT := unmeasured

theorem tryRun_etaRun : tryRun Congestion.step
    (Congestion.init ⟨1, 0⟩ ⟨1, 0⟩ ⟨1, 0⟩ ⟨1, 0⟩) (etaRun 32768) = .ok (etaState 32768) := by
  decide

theorem guarded_etaRun (length : ℕ) :
    Guarded StreamPositions.step StreamPositions.Grows StreamPositions.init (etaRun length) := by
  simp [etaRun, Guarded, StreamPositions.Grows, StreamPositions.step, StreamPositions.init]


theorem noOverflow_of_small {c : Congestion} {now : Timeval} {e : ℕ}
    (helapsed : c.elapsed now + e + 1 < 1000) (hspan : c.span < 2 ^ 20) (hwait : c.wait < 2 ^ 10)
    (hrest : (c.nextPong.pos - c.targetAcked).toNat < 2 ^ 20) : c.NoOverflow now e where
  clock := by omega
  acked t ht _ := by
    have := Nat.mul_le_mul hspan.le (show t ≤ 1000 by omega)
    omega
  eta _ := by
    have := Nat.mul_le_mul hwait.le hrest.le
    omega

theorem uncongested_eta_exact_twoWindows :
    (etaState 32768).EtaExact ⟨1, 100000⟩ 100 := by
  have hsafe : (etaState 32768).NoOverflow ⟨1, 100000⟩ 100 :=
    noOverflow_of_small (by decide) (by decide) (by decide)
      (by decide)
  have hmiddle : (etaState 32768).InMiddle ⟨1, 100000⟩ :=
    ⟨by decide, by decide, by decide⟩
  have heta : (etaState 32768).getUncongestedETA ⟨1, 100000⟩ = .ok 100 := by decide
  exact (uncongested_eta_exact_iff tryRun_etaRun (guarded_etaRun _)
    (by decide) (by decide) heta (by decide) hsafe).mpr hmiddle

/-- **The wrong part of the segment.** 99 milliseconds are announced for a state that is left
after 23: not 16384 of 20000 bytes are waited for, but 3616. -/
theorem announced_for_too_long :
    Guarded StreamPositions.step StreamPositions.Grows StreamPositions.init (etaRun 20000) ∧
      ∃ c, tryRun Congestion.step (Congestion.init ⟨1, 0⟩ ⟨1, 0⟩ ⟨1, 0⟩ ⟨1, 0⟩)
          (etaRun 20000) = .ok c ∧
        c.isCongested ⟨1, 100000⟩ = .ok true ∧ c.getUncongestedETA ⟨1, 100000⟩ = .ok 99 ∧
        c.NoOverflow ⟨1, 100000⟩ 99 ∧ c.isCongested ⟨1, 123000⟩ = .ok false ∧
        ¬ c.EtaExact ⟨1, 100000⟩ 99 := by
  have hfree : (etaState 20000).isCongested ⟨1, 123000⟩ = .ok false := by
    decide
  refine ⟨guarded_etaRun _, etaState 20000, by decide, by decide,
    by decide, ?_, hfree, fun hexact => ?_⟩
  · exact noOverflow_of_small (by decide) (by decide) (by decide)
      (by decide)
  · have hbusy := hexact.2 ⟨1, 123000⟩ 23 (by decide) (by decide)
    rw [hfree] at hbusy
    cases hbusy

end KasmVNC.Rfb
