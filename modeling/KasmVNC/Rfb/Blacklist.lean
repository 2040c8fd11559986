import KasmVNC.Lib.Run
import KasmVNC.Lib.Text
import Mathlib.Algebra.Order.Ring.Int
import Mathlib.Tactic.Positivity
import Mathlib.Data.List.Induction

/-!
# The blacklist

A host may try to connect `threshold` times. After that it is let through again only when its
block has expired, and each block is twice as long as the one before. A host whose mark is cleared
starts afresh.

With a threshold of zero there is no blacklist.
-/

namespace KasmVNC.Rfb

open KasmVNC.Lib

/-! ## The list -/

structure BlacklistInfo where
  marks : ℤ
  blockUntil : ℤ
  blockTimeout : BitVec 32
deriving DecidableEq

structure BlacklistParameters where
  threshold : ℤ
  initialTimeout : ℤ
deriving DecidableEq

/-- The entries, by the names of the hosts. -/
abbrev BlacklistMap := CString → Option BlacklistInfo

variable (p : BlacklistParameters)

/-- The entry that is created for a host. -/
def newEntry : BlacklistInfo where
  marks := 1
  blockUntil := 0
  blockTimeout := BitVec.ofInt 32 p.initialTimeout

/-- The entry after an attempt, and whether it is rejected. -/
def attempt (i : BlacklistInfo) (now : ℤ) : BlacklistInfo × Bool :=
  if i.marks ≥ p.threshold then
    if now ≥ i.blockUntil then
      ({ i with
          blockUntil := now + i.blockTimeout.toNat
          blockTimeout := i.blockTimeout * 2 }, false)
    else (i, true)
  else ({ i with marks := i.marks + 1 }, false)

def isBlackmarked (blm : BlacklistMap) (name : CString) (now : ℤ) : BlacklistMap × Bool :=
  if p.threshold = 0 then (blm, false)
  else
    let r := attempt p ((blm name).getD (newEntry p)) now
    (Function.update blm name (some r.1), r.2)

def clearBlackmark (blm : BlacklistMap) (name : CString) : BlacklistMap :=
  Function.update blm name none

/-! ## Runs -/

inductive BlacklistCall
  | isBlackmarked (name : CString) (now : ℤ)
  | clearBlackmark (name : CString)

def BlacklistCall.name : BlacklistCall → CString
  | .isBlackmarked name _ => name
  | .clearBlackmark name => name

/-- The list, when each host was allowed to pass since its last clear, and all that was returned. -/
structure Watched where
  blm : BlacklistMap
  allowed : CString → List ℤ
  answers : List (CString × Bool)

def watchCall (w : Watched) : BlacklistCall → Watched
  | .isBlackmarked name now =>
    let r := isBlackmarked p w.blm name now
    { blm := r.1
      allowed :=
        if r.2 then w.allowed else Function.update w.allowed name (w.allowed name ++ [now])
      answers := w.answers ++ [(name, r.2)] }
  | .clearBlackmark name =>
    { w with
      blm := clearBlackmark w.blm name
      allowed := Function.update w.allowed name [] }

def unwatched : Watched := ⟨fun _ => none, fun _ => [], []⟩

def watch (calls : List BlacklistCall) : Watched := run (watchCall p) unwatched calls

/-! ## Backing off -/

/-- From the `m`-th time on, each one is a timeout after the one before, and the timeouts double
as long as they do not overflow. -/
def BacksOff (m : ℕ) (initialTimeout : ℤ) (times : List ℤ) : Prop :=
  ∀ k i t t', 1 ≤ k → m + k = i + 2 → initialTimeout * 2 ^ (k - 1) < 2 ^ 32 →
    times[i]? = some t → times[i + 1]? = some t' → t + initialTimeout * 2 ^ (k - 1) ≤ t'

/-- The timeout after `j` doublings. -/
def timeoutAfter : ℕ → BitVec 32
  | 0 => BitVec.ofInt 32 p.initialTimeout
  | j + 1 => timeoutAfter j * 2

/-- As many attempts are allowed without a block. -/
def free : ℕ := (max p.threshold 1).toNat

/-- The times are at least as far apart as the timeouts, whether these overflow or not. -/
def Spaced (times : List ℤ) : Prop :=
  ∀ j t t', times[free p + j - 1]? = some t → times[free p + j]? = some t' →
    t + (timeoutAfter p j).toNat ≤ t'

/-- What the entry of a host tells of the times at which it was allowed to pass. -/
structure Remembers (i : BlacklistInfo) (times : List ℤ) : Prop where
  counting : i.marks < p.threshold →
    i.marks = times.length + 1 ∧ i.blockTimeout = timeoutAfter p 0
  blocking : p.threshold ≤ i.marks →
    free p ≤ times.length + 1 ∧ i.blockTimeout = timeoutAfter p (times.length + 1 - free p)
  until_ : p.threshold ≤ i.marks → free p ≤ times.length → ∀ t, times.getLast? = some t →
    i.blockUntil = t + (timeoutAfter p (times.length - free p)).toNat

/-- The times are spaced, and the entry, or a new one, tells of them. -/
def SpacedEntry (entry : Option BlacklistInfo) (times : List ℤ) : Prop :=
  Spaced p times ∧ Remembers p (entry.getD (newEntry p)) times

variable {p}

theorem free_pos : 0 < free p := by
  unfold free
  omega

theorem remembers_newEntry : Remembers p (newEntry p) [] where
  counting _ := ⟨rfl, rfl⟩
  blocking h := by
    have hone : free p = 1 := by
      have h1 : p.threshold ≤ 1 := h
      unfold free
      omega
    rw [hone]
    exact ⟨Nat.le_refl 1, rfl⟩
  until_ _ hle := absurd hle (Nat.not_le.mpr free_pos)

theorem spaced_nil : Spaced p [] := fun _ _ _ h => absurd h nofun

theorem spaced_append {times : List ℤ} {now : ℤ} (h : Spaced p times)
    (hnow : free p ≤ times.length → ∀ t, times.getLast? = some t →
      t + (timeoutAfter p (times.length - free p)).toNat ≤ now) : Spaced p (times ++ [now]) := by
  intro j t t' ht ht'
  have hpos := free_pos (p := p)
  rcases Nat.lt_trichotomy (free p + j) times.length with hlt | heq | hgt
  · rw [List.getElem?_append_left hlt] at ht'
    rw [List.getElem?_append_left (by omega)] at ht
    exact h j t t' ht ht'
  · rw [heq, List.getElem?_concat_length] at ht'
    rw [heq, List.getElem?_append_left (by omega), ← List.getLast?_eq_getElem?] at ht
    obtain rfl := Option.some.inj ht'
    have hj : times.length - free p = j := by omega
    rw [← hj]
    exact hnow (by omega) t ht
  · rw [List.getElem?_eq_none (by rw [List.length_append, List.length_singleton]; omega)] at ht'
    cases ht'

/-- An attempt is rejected, and nothing changes, or it is allowed and remembered. -/
theorem attempt_cases {i : BlacklistInfo} {times : List ℤ} (hspaced : Spaced p times)
    (h : Remembers p i times) (now : ℤ) :
    attempt p i now = (i, true) ∨ (attempt p i now).2 = false ∧ Spaced p (times ++ [now]) ∧
      Remembers p (attempt p i now).1 (times ++ [now]) := by
  have hlength : (times ++ [now]).length = times.length + 1 := by simp
  by_cases hmarks : i.marks ≥ p.threshold
  · obtain ⟨hfree, htimeout⟩ := h.blocking hmarks
    by_cases hnow : now ≥ i.blockUntil
    · -- the block has expired
      rw [attempt, if_pos hmarks, if_pos hnow]
      refine Or.inr ⟨rfl, spaced_append hspaced fun hle t ht => ?_, ?_⟩
      · rw [← h.until_ hmarks hle t ht]
        exact hnow
      · have hnext : times.length + 1 + 1 - free p = times.length + 1 - free p + 1 := by omega
        constructor
        · intro hlt
          exact absurd hmarks (Int.not_le.mpr hlt)
        · rintro -
          rw [hlength, hnext, timeoutAfter, ← htimeout]
          exact ⟨Nat.le_succ_of_le hfree, rfl⟩
        · rintro - - t ht
          rw [List.getLast?_concat] at ht
          rw [← Option.some.inj ht, hlength, ← htimeout]
    · left
      rw [attempt, if_pos hmarks, if_neg hnow]
  · -- the attempt is counted
    obtain ⟨hcount, htimeout⟩ := h.counting (Int.not_le.mp hmarks)
    have hfree : times.length + 1 < free p := by
      unfold free
      omega
    rw [attempt, if_neg hmarks]
    refine Or.inr ⟨rfl, spaced_append hspaced fun hle => absurd hle (by omega), ?_⟩
    constructor
    · rintro -
      rw [hlength, htimeout]
      exact ⟨by push_cast; omega, rfl⟩
    · intro hle
      have hle' : p.threshold ≤ i.marks + 1 := hle
      have heq : free p = times.length + 1 + 1 := by
        unfold free
        omega
      rw [hlength, heq, Nat.sub_self]
      exact ⟨Nat.le_refl _, htimeout⟩
    · rintro - hle
      rw [hlength] at hle
      exact absurd hle (by omega)

/-- One call keeps what the entries tell. -/
theorem spacedEntry_call (hthreshold : p.threshold ≠ 0) {w : Watched} (name : CString)
    (h : ∀ name, SpacedEntry p (w.blm name) (w.allowed name)) (c : BlacklistCall) :
    SpacedEntry p ((watchCall p w c).blm name) ((watchCall p w c).allowed name) := by
  cases c with
  | clearBlackmark other =>
    by_cases hname : name = other
    · subst hname
      simp only [watchCall, clearBlackmark, Function.update_self]
      exact ⟨spaced_nil, remembers_newEntry⟩
    · simp only [watchCall, clearBlackmark, Function.update_of_ne hname]
      exact h name
  | isBlackmarked other now =>
    by_cases hname : name = other
    · subst hname
      obtain ⟨hspaced, hentry⟩ := h name
      simp only [watchCall, isBlackmarked, if_neg hthreshold, Function.update_self]
      rcases attempt_cases hspaced hentry now with hrejected | ⟨hallowed, hspaced', hentry'⟩
      · rw [hrejected]
        exact ⟨hspaced, hentry⟩
      · rw [hallowed, if_neg Bool.false_ne_true, Function.update_self]
        exact ⟨hspaced', hentry'⟩
    · simp only [watchCall, isBlackmarked, if_neg hthreshold, Function.update_of_ne hname]
      split
      · exact h name
      · rw [Function.update_of_ne hname]
        exact h name

/-- What the entries tell holds in every run. -/
theorem spacedEntry_watch (hthreshold : p.threshold ≠ 0) (name : CString)
    (calls : List BlacklistCall) :
    SpacedEntry p ((watch p calls).blm name) ((watch p calls).allowed name) := by
  have hall : ∀ name, SpacedEntry p ((watch p calls).blm name) ((watch p calls).allowed name) :=
    run_invariant_all (I := fun w : Watched => ∀ name, SpacedEntry p (w.blm name) (w.allowed name))
      (fun w c h name => spacedEntry_call hthreshold name h c) calls
      fun _ => ⟨spaced_nil, remembers_newEntry⟩
  exact hall name

/-- A timeout that has not overflown. -/
theorem le_timeoutAfter {j : ℕ} (h : p.initialTimeout * 2 ^ j < 2 ^ 32) :
    p.initialTimeout * 2 ^ j ≤ (timeoutAfter p j).toNat := by
  rcases Int.lt_or_le p.initialTimeout 0 with hneg | hpos
  · have hprod : p.initialTimeout * 2 ^ j ≤ 0 :=
      Int.mul_nonpos_of_nonpos_of_nonneg (Int.le_of_lt hneg) (by positivity)
    omega
  · refine Int.le_of_eq ?_
    induction j with
    | zero =>
      rw [pow_zero, mul_one] at h ⊢
      rw [timeoutAfter, BitVec.toNat_ofInt]
      omega
    | succ j ih =>
      rw [pow_succ, ← mul_assoc] at h ⊢
      have hprod : 0 ≤ p.initialTimeout * 2 ^ j := by positivity
      have hsmall := ih (by omega)
      have htwo : (2 : BitVec 32).toNat = 2 := rfl
      rw [timeoutAfter, BitVec.toNat_mul, htwo]
      omega

theorem backsOff_of_spaced {times : List ℤ} (h : Spaced p times) :
    BacksOff (free p) p.initialTimeout times := by
  intro k i t t' hk hi hsmall ht ht'
  obtain ⟨j, rfl⟩ := Nat.exists_eq_add_of_le' hk
  rw [Nat.add_sub_cancel] at hsmall ⊢
  have hindex : free p + j = i + 1 := by omega
  have hspaced := h j t t' (by rw [hindex, Nat.add_sub_cancel, ht]) (by rw [hindex, ht'])
  have hle := le_timeoutAfter hsmall
  omega

/-! ## Other hosts -/

/-- What concerns one host is the same in both. -/
structure SameFor (name : CString) (w w' : Watched) : Prop where
  blm : w.blm name = w'.blm name
  allowed : w.allowed name = w'.allowed name
  answers : w.answers.filter (fun a => a.1 = name) = w'.answers

/-- A call for another host does not concern this one. -/
theorem SameFor.other {name : CString} {w w' : Watched} (h : SameFor name w w')
    {c : BlacklistCall} (hc : c.name ≠ name) : SameFor name (watchCall p w c) w' := by
  cases c with
  | clearBlackmark other =>
    have hne : name ≠ other := Ne.symm hc
    refine ⟨?_, ?_, h.answers⟩
    · exact (Function.update_of_ne hne _ _).trans h.blm
    · exact (Function.update_of_ne hne _ _).trans h.allowed
  | isBlackmarked other now =>
    have hne : name ≠ other := Ne.symm hc
    have hblm : (isBlackmarked p w.blm other now).1 name = w.blm name := by
      rw [isBlackmarked]
      split
      · rfl
      · exact Function.update_of_ne hne _ _
    refine ⟨hblm.trans h.blm, ?_, ?_⟩
    · dsimp only [watchCall]
      split
      · exact h.allowed
      · exact (Function.update_of_ne hne _ _).trans h.allowed
    · have hnone : [(other, (isBlackmarked p w.blm other now).2)].filter
          (fun a => a.1 = name) = [] :=
        List.filter_cons_of_neg fun heq => hc (of_decide_eq_true heq)
      dsimp only [watchCall]
      rw [List.filter_append, h.answers, hnone, List.append_nil]

theorem SameFor.same {name : CString} {w w' : Watched} (h : SameFor name w w')
    {c : BlacklistCall} (hc : c.name = name) :
    SameFor name (watchCall p w c) (watchCall p w' c) := by
  cases c with
  | clearBlackmark other =>
    obtain rfl : other = name := hc
    refine ⟨?_, ?_, h.answers⟩ <;> simp [watchCall, clearBlackmark]
  | isBlackmarked other now =>
    obtain rfl : other = name := hc
    have hanswer : (isBlackmarked p w.blm other now).2 = (isBlackmarked p w'.blm other now).2 ∧
        (isBlackmarked p w.blm other now).1 other =
          (isBlackmarked p w'.blm other now).1 other := by
      rw [isBlackmarked, isBlackmarked, h.blm]
      split
      · exact ⟨rfl, h.blm⟩
      · simp
    refine ⟨hanswer.2, ?_, ?_⟩
    · dsimp only [watchCall]
      rw [hanswer.1]
      split
      · exact h.allowed
      · rw [Function.update_self, Function.update_self, h.allowed]
    · dsimp only [watchCall]
      rw [List.filter_append, h.answers, List.filter_cons_of_pos (by simp), List.filter_nil,
        hanswer.1]

/-- A run, and the calls of it that are for one host. -/
theorem sameFor_filter (name : CString) (calls : List BlacklistCall) {w w' : Watched}
    (h : SameFor name w w') : SameFor name (run (watchCall p) w calls)
      (run (watchCall p) w' (calls.filter fun c => c.name = name)) := by
  induction calls generalizing w w' with
  | nil => exact h
  | cons c calls ih =>
    by_cases hc : c.name = name
    · rw [List.filter_cons_of_pos (by simpa using hc), run_cons, run_cons]
      exact ih (h.same hc)
    · rw [List.filter_cons_of_neg (by simpa using hc), run_cons]
      exact ih (h.other hc)

/-- Nothing is blocked. -/
theorem answers_of_threshold_zero (hzero : p.threshold = 0) (calls : List BlacklistCall) :
    ∀ a ∈ (watch p calls).answers, a.2 = false := by
  refine run_invariant_all (I := fun w : Watched => ∀ a ∈ w.answers, a.2 = false) ?_ calls
    (fun _ ha => absurd ha List.not_mem_nil)
  intro w c h
  cases c with
  | clearBlackmark other => exact h
  | isBlackmarked other now =>
    intro a ha
    rcases List.mem_append.mp ha with hold | hnew
    · exact h a hold
    · rw [List.mem_singleton.mp hnew, isBlackmarked, if_pos hzero]

/-- **Backing off.** In every run a host that has been allowed to pass as often as it may is
blocked for timeouts that double, whatever other hosts do, unless the threshold is zero. -/
theorem blacklist_backs_off (p : BlacklistParameters) (name : CString)
    (calls : List BlacklistCall) :
    (p.threshold = 0 → ∀ a ∈ (watch p calls).answers, a.2 = false) ∧
      (p.threshold ≠ 0 → BacksOff (max p.threshold 1).toNat p.initialTimeout
        ((watch p calls).allowed name)) ∧
      (watch p calls).answers.filter (fun a => a.1 = name) =
        (watch p (calls.filter fun c => c.name = name)).answers ∧
      (watch p calls).allowed name =
        (watch p (calls.filter fun c => c.name = name)).allowed name := by
  have hsame : SameFor name (watch p calls) (watch p (calls.filter fun c => c.name = name)) :=
    sameFor_filter name calls ⟨rfl, rfl, rfl⟩
  refine ⟨fun hzero => answers_of_threshold_zero hzero calls, fun hthreshold => ?_, hsame.answers,
    hsame.allowed⟩
  exact backsOff_of_spaced (spacedEntry_watch hthreshold name calls).1

/-- A threshold of one, and attempts that are allowed after ten seconds and after twenty. -/
theorem blacklist_backs_off_twice :
    let calls := [0, 5, 10, 29, 30].map (BlacklistCall.isBlackmarked CString.empty)
    (watch ⟨1, 10⟩ calls).allowed CString.empty = [0, 10, 30] ∧
      BacksOff 1 10 ((watch ⟨1, 10⟩ calls).allowed CString.empty) :=
  ⟨by decide, (blacklist_backs_off ⟨1, 10⟩ CString.empty _).2.1 (by decide)⟩

/-- A threshold of zero, and two attempts at the same time. -/
theorem blacklist_switched_off :
    ¬BacksOff 0 10 ((watch ⟨0, 10⟩ [.isBlackmarked CString.empty 7,
      .isBlackmarked CString.empty 7]).allowed CString.empty) := by
  intro h
  exact absurd (h 2 0 7 7 (by decide) rfl (by decide) (by decide) (by decide)) (by decide)

end KasmVNC.Rfb
