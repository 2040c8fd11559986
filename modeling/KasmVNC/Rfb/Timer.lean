import KasmVNC.Lib.Run
import Mathlib.Data.List.Induction
import Mathlib.Data.Prod.Lex
import Mathlib.Order.Lattice
import Mathlib.Algebra.Order.Ring.Int

/-!
# Timers

The timers that run are in a list, ordered by the times at which they are due. `checkTimeouts`
takes the first timer off the list as long as it is due, and calls its handler, which can start
and stop any timer. When the handler says so the timer goes back to the list with its next due
time.

The calls of the handlers stand between those of the loop, so the loop is a machine with a phase.
The clock is whatever `gettimeofday` returns: it can stand still, jump forwards or run back.
-/

namespace KasmVNC.Rfb.Timer

open KasmVNC.Lib

/-! ## Times -/

/-- A normalised time. -/
structure Timeval where
  sec : ℤ
  usec : ℕ
  usec_lt : usec < 1000000
deriving DecidableEq

def Timeval.micros (t : Timeval) : ℤ := t.sec * 1000000 + t.usec

theorem Timeval.micros_injective : Function.Injective Timeval.micros := by
  rintro ⟨sec, usec, h⟩ ⟨sec', usec', h'⟩ heq
  simp only [Timeval.micros] at heq
  obtain ⟨rfl, rfl⟩ : sec = sec' ∧ usec = usec' := by omega
  rfl

instance : LinearOrder Timeval := LinearOrder.lift' Timeval.micros Timeval.micros_injective

theorem Timeval.lt_iff {s t : Timeval} : s < t ↔ s.micros < t.micros := Iff.rfl

def Timeval.isBefore (t other : Timeval) : Bool :=
  t.sec < other.sec || (t.sec = other.sec && t.usec < other.usec)

@[simp] theorem Timeval.isBefore_iff {t other : Timeval} : t.isBefore other = true ↔ t < other := by
  have h := t.usec_lt
  have h' := other.usec_lt
  simp only [Timeval.isBefore, Timeval.lt_iff, Timeval.micros, Bool.or_eq_true, Bool.and_eq_true,
    decide_eq_true_eq]
  omega

def addMillis (inTime : Timeval) (millis : ℕ) : Timeval :=
  let usec := inTime.usec + millis % 1000 * 1000
  if h : usec ≥ 1000000 then
    ⟨inTime.sec + (millis / 1000 : ℕ) + 1, usec - 1000000, by have := inTime.usec_lt; omega⟩
  else ⟨inTime.sec + (millis / 1000 : ℕ), usec, Nat.not_le.mp h⟩

/-- The difference in milliseconds, as an `int`. -/
def diffTimeMillis (later earlier : Timeval) : ℤ :=
  ((later.sec - earlier.sec) * 1000 +
    ((later.usec : ℤ) - earlier.usec).tdiv 1000).bmod (2 ^ 32)

/-! ## The list -/

structure Timers (τ : Type*) where
  pending : List τ
  dueTime : τ → Timeval
  timeoutMs : τ → ℕ

variable {τ : Type*} [DecidableEq τ]

namespace Timers

/-- Where a timer goes: in front of the first one that is due later. -/
def insertBefore (dueTime : τ → Timeval) (t : τ) : List τ → List τ
  | [] => [t]
  | u :: us =>
    if (dueTime t).isBefore (dueTime u) then t :: u :: us else u :: insertBefore dueTime t us

def insertTimer (s : Timers τ) (t : τ) : Timers τ :=
  { s with pending := insertBefore s.dueTime t s.pending }

def stop (s : Timers τ) (t : τ) : Timers τ :=
  { s with pending := s.pending.filter (· ≠ t) }

def setDueTime (s : Timers τ) (t : τ) (due : Timeval) : Timers τ :=
  { s with dueTime := Function.update s.dueTime t due }

def start (s : Timers τ) (t : τ) (timeoutMs : ℤ) (now : Timeval) : Timers τ :=
  let s := s.stop t
  -- the rest of the code assumes non-zero timeout
  let ms := if timeoutMs ≤ 0 then 1 else timeoutMs.toNat
  let s := { s with timeoutMs := Function.update s.timeoutMs t ms }
  (s.setDueTime t (addMillis now ms)).insertTimer t

/-- The next due time of a timer whose handler asks for another timeout. -/
def nextDueTime (s : Timers τ) (t : τ) (before now : Timeval) : Timeval :=
  let due := addMillis (s.dueTime t) (s.timeoutMs t)
  if due.isBefore now then
    -- time has jumped forwards, or there is not enough CPU time for the timers
    let due := addMillis before (s.timeoutMs t)
    if due.isBefore now then now else due
  else due

def rebase (s : Timers τ) (t : τ) (before now : Timeval) : Timers τ :=
  (s.setDueTime t (s.nextDueTime t before now)).insertTimer t

def getRemainingMs (s : Timers τ) (t : τ) (now : Timeval) : ℤ :=
  max 0 (diffTimeMillis (s.dueTime t) now)

/-- How long to wait for a timer. The macro for the maximum reads the clock twice. -/
def toWait (s : Timers τ) (t : τ) (now₁ now₂ : Timeval) : ℤ :=
  if 1 > s.getRemainingMs t now₁ then 1 else s.getRemainingMs t now₂

/-- Does the time to wait mean that time has jumped backwards? -/
def jumped (s : Timers τ) (t : τ) (now₁ now₂ : Timeval) : Bool :=
  s.toWait t now₁ now₂ > s.timeoutMs t && !(s.toWait t now₁ now₂ - s.timeoutMs t < 1000)

/-- The list, and how long to wait, unless there is no timer. -/
def getNextTimeout (s : Timers τ) (now now₁ now₂ : Timeval) : Option (Timers τ × ℤ) :=
  match s.pending with
  | [] => none
  | t :: _ =>
    if s.jumped t now₁ now₂ then some (s.setDueTime t now, 1)
    else some (s, s.toWait t now₁ now₂)

end Timers

/-! ## The machine -/

/-- What the main thread is doing. -/
inductive Phase (τ : Type*)
  | idle
  | checking (start : Timeval)
  | handling (start : Timeval) (t : τ) (before : Timeval)
deriving DecidableEq

/-- What happens to the timers: a timer gets a due time, it is stopped, or its handler is called
at a time that the clock has shown. -/
inductive Record (τ : Type*)
  | armed (t : τ) (due : Timeval)
  | stopped (t : τ)
  | fired (t : τ) (due start : Timeval)
deriving DecidableEq

structure Machine (τ : Type*) where
  timers : Timers τ
  phase : Phase τ
  log : List (Record τ)

/-- The calls from outside or from a handler, the turns of the loop, and what the handlers return;
each with what the clock shows. -/
inductive Event (τ : Type*)
  | start (t : τ) (timeoutMs : ℤ) (now : Timeval)
  | stop (t : τ)
  | checkTimeouts (start : Timeval)
  | turn (before : Timeval)
  | leave (now now₁ now₂ : Timeval)
  | handled (result : Bool) (now : Timeval)

namespace Machine

def start (m : Machine τ) (t : τ) (timeoutMs : ℤ) (now : Timeval) : Machine τ :=
  let s := m.timers.start t timeoutMs now
  { m with timers := s, log := m.log ++ [.stopped t, .armed t (s.dueTime t)] }

def stop (m : Machine τ) (t : τ) : Machine τ :=
  { m with timers := m.timers.stop t, log := m.log ++ [.stopped t] }

/-- The first timer is taken off the list and its handler is called. -/
def fire (m : Machine τ) (start : Timeval) (t : τ) (rest : List τ) (before : Timeval) :
    Machine τ where
  timers := { m.timers with pending := rest }
  phase := .handling start t before
  log := m.log ++ [.fired t (m.timers.dueTime t) start]

/-- The loop ends with the first timer, and the call with it. -/
def leave (m : Machine τ) (t : τ) (now now₁ now₂ : Timeval) : Machine τ :=
  match m.timers.getNextTimeout now now₁ now₂ with
  | none => m
  | some (timers, _) =>
    { timers, phase := .idle
      log := if m.timers.jumped t now₁ now₂ then m.log ++ [.armed t now] else m.log }

theorem leave_eq {m : Machine τ} {t : τ} {rest : List τ} (hpending : m.timers.pending = t :: rest)
    (now now₁ now₂ : Timeval) :
    m.leave t now now₁ now₂ = if m.timers.jumped t now₁ now₂ then
      { timers := m.timers.setDueTime t now, phase := .idle, log := m.log ++ [.armed t now] }
    else { m with phase := .idle } := by
  unfold leave Timers.getNextTimeout
  rw [hpending]
  dsimp only
  cases m.timers.jumped t now₁ now₂ <;> rfl

/-- The handler has asked for another timeout. -/
def again (m : Machine τ) (start : Timeval) (t : τ) (before now : Timeval) : Machine τ where
  timers := m.timers.rebase t before now
  phase := .checking start
  log := m.log ++ [.armed t (m.timers.nextDueTime t before now)]

end Machine

open Machine in
/-- An event that cannot happen in the phase that the machine is in changes nothing. -/
def step (m : Machine τ) (e : Event τ) : Machine τ :=
  match m.phase, e with
  | .idle, .start t timeoutMs now => start m t timeoutMs now
  | .idle, .stop t => stop m t
  | .idle, .checkTimeouts start =>
    if m.timers.pending.isEmpty then m else { m with phase := .checking start }
  | .checking start, .turn before =>
    match m.timers.pending with
    | [] => m
    | t :: rest =>
      if (m.timers.dueTime t).isBefore start then fire m start t rest before else m
  | .checking start, .leave now now₁ now₂ =>
    match m.timers.pending with
    | [] => m
    | t :: _ =>
      if (m.timers.dueTime t).isBefore start then m else leave m t now now₁ now₂
  | .handling _ _ _, .start t timeoutMs now => start m t timeoutMs now
  | .handling _ _ _, .stop t => stop m t
  | .handling start t before, .handled result now =>
    if result then again m start t before now
    else { m with phase := if m.timers.pending.isEmpty then .idle else .checking start }
  | _, _ => m

/-! ## The order of the list -/

/-- The timers are in the order of their due times, each at most once. -/
structure Timers.Ordered (s : Timers τ) : Prop where
  sorted : s.pending.Pairwise fun t u => s.dueTime t ≤ s.dueTime u
  nodup : s.pending.Nodup

namespace Timers

variable {s : Timers τ} {t : τ}

omit [DecidableEq τ] in
theorem perm_insertBefore (dueTime : τ → Timeval) (t : τ) : ∀ us : List τ,
    (insertBefore dueTime t us).Perm (t :: us)
  | [] => List.Perm.refl _
  | u :: us => by
    unfold insertBefore
    split
    · exact List.Perm.refl _
    · exact ((perm_insertBefore dueTime t us).cons u).trans (List.Perm.swap t u us)

omit [DecidableEq τ] in
@[simp] theorem mem_insertBefore {dueTime : τ → Timeval} {t u : τ} {us : List τ} :
    u ∈ insertBefore dueTime t us ↔ u = t ∨ u ∈ us := by
  rw [(perm_insertBefore dueTime t us).mem_iff, List.mem_cons]

omit [DecidableEq τ] in
theorem insertBefore_ne_nil (dueTime : τ → Timeval) (t : τ) (us : List τ) :
    insertBefore dueTime t us ≠ [] :=
  List.ne_nil_of_mem (mem_insertBefore.mpr (Or.inl rfl))

omit [DecidableEq τ] in
theorem pairwise_insertBefore {dueTime : τ → Timeval} (t : τ) : ∀ {us : List τ},
    us.Pairwise (fun t u => dueTime t ≤ dueTime u) →
      (insertBefore dueTime t us).Pairwise fun t u => dueTime t ≤ dueTime u
  | [], _ => List.pairwise_singleton _ _
  | u :: us, h => by
    obtain ⟨hu, hus⟩ := List.pairwise_cons.mp h
    unfold insertBefore
    split
    · rename_i hbefore
      have hlt : dueTime t < dueTime u := Timeval.isBefore_iff.mp hbefore
      refine List.pairwise_cons.mpr ⟨?_, h⟩
      intro v hv
      rcases List.mem_cons.mp hv with rfl | hv
      · exact hlt.le
      · exact hlt.le.trans (hu v hv)
    · rename_i hbefore
      have hle : dueTime u ≤ dueTime t := by
        rw [Timeval.isBefore_iff] at hbefore
        exact not_lt.mp hbefore
      refine List.pairwise_cons.mpr ⟨?_, pairwise_insertBefore t hus⟩
      intro v hv
      rcases mem_insertBefore.mp hv with rfl | hv
      · exact hle
      · exact hu v hv

@[simp] theorem mem_stop {u : τ} : u ∈ (s.stop t).pending ↔ u ∈ s.pending ∧ u ≠ t := by
  simp [stop]

theorem Ordered.stop (h : s.Ordered) (t : τ) : (s.stop t).Ordered where
  sorted := h.sorted.filter _
  nodup := h.nodup.filter _

/-- A timer that is not on the list can get any due time. -/
theorem Ordered.setDueTime (h : s.Ordered) (ht : t ∉ s.pending) (due : Timeval) :
    (s.setDueTime t due).Ordered where
  sorted := by
    refine h.sorted.imp_of_mem ?_
    intro u v hu hv hle
    have hut : u ≠ t := fun heq => ht (heq ▸ hu)
    have hvt : v ≠ t := fun heq => ht (heq ▸ hv)
    simpa only [Timers.setDueTime, Function.update_of_ne hut, Function.update_of_ne hvt] using hle
  nodup := h.nodup

omit [DecidableEq τ] in
theorem Ordered.insertTimer (h : s.Ordered) (ht : t ∉ s.pending) : (s.insertTimer t).Ordered where
  sorted := pairwise_insertBefore t h.sorted
  nodup := (perm_insertBefore s.dueTime t s.pending).nodup_iff.mpr
    (List.nodup_cons.mpr ⟨ht, h.nodup⟩)

theorem Ordered.start (h : s.Ordered) (t : τ) (timeoutMs : ℤ) (now : Timeval) :
    (s.start t timeoutMs now).Ordered := by
  have ht : t ∉ (s.stop t).pending := fun hmem => (mem_stop.mp hmem).2 rfl
  have hstopped : Ordered { s.stop t with
      timeoutMs := Function.update s.timeoutMs t
        (if timeoutMs ≤ 0 then 1 else timeoutMs.toNat) } :=
    ⟨(h.stop t).sorted, (h.stop t).nodup⟩
  exact (hstopped.setDueTime ht _).insertTimer ht

/-- A timer can go back to the list exactly when it is not there. -/
theorem ordered_rebase_iff (h : s.Ordered) (before now : Timeval) :
    (s.rebase t before now).Ordered ↔ t ∉ s.pending := by
  constructor
  · intro hrebased
    have hcons := (perm_insertBefore _ t s.pending).nodup_iff.mp hrebased.nodup
    exact (List.nodup_cons.mp hcons).1
  · intro ht
    exact (h.setDueTime ht _).insertTimer ht

/-- The first timer can get another due time exactly when no other timer is due before it. -/
theorem ordered_setDueTime_iff {rest : List τ} (h : s.Ordered) (hpending : s.pending = t :: rest)
    (due : Timeval) :
    (s.setDueTime t due).Ordered ↔ ∀ u ∈ rest, due ≤ s.dueTime u := by
  have hnodup := h.nodup
  have hsorted := h.sorted
  rw [hpending] at hnodup hsorted
  obtain ⟨ht, hrest⟩ := List.nodup_cons.mp hnodup
  have hother : ∀ u ∈ rest, (s.setDueTime t due).dueTime u = s.dueTime u := by
    intro u hu
    have hut : u ≠ t := fun heq => ht (heq ▸ hu)
    exact Function.update_of_ne hut _ _
  have hself : (s.setDueTime t due).dueTime t = due := Function.update_self _ _ _
  constructor
  · intro hset u hu
    have hpairs := hset.sorted
    rw [show (s.setDueTime t due).pending = t :: rest from hpending] at hpairs
    have hle := (List.pairwise_cons.mp hpairs).1 u hu
    rwa [hself, hother u hu] at hle
  · intro hle
    refine ⟨?_, h.nodup⟩
    rw [show (s.setDueTime t due).pending = t :: rest from hpending]
    refine List.pairwise_cons.mpr ⟨?_, ?_⟩
    · intro u hu
      rw [hself, hother u hu]
      exact hle u hu
    · refine (List.pairwise_cons.mp hsorted).2.imp_of_mem ?_
      intro u v hu hv huv
      rwa [hother u hu, hother v hv]

end Timers

/-! ## What the order needs -/

/-- The timer whose handler is being called. -/
def Phase.timer? : Phase τ → Option τ
  | .handling _ t _ => some t
  | _ => none

/-- The time of the call, between two turns of the loop. -/
def Phase.start? : Phase τ → Option Timeval
  | .checking start => some start
  | _ => none

/-- A handler that asks for another timeout has not left its own timer running, and when time
seems to have jumped backwards the clock does not show a time behind the due time of another
timer. -/
def Allowed (m : Machine τ) : Event τ → Prop
  | .handled result _ => ∀ t ∈ m.phase.timer?, result = true → t ∉ m.timers.pending
  | .leave now now₁ now₂ =>
    ∀ start ∈ m.phase.start?, ∀ t ∈ m.timers.pending.head?, ¬m.timers.dueTime t < start →
      m.timers.jumped t now₁ now₂ → ∀ u ∈ m.timers.pending.tail, now ≤ m.timers.dueTime u
  | _ => True

instance (m : Machine τ) : (e : Event τ) → Decidable (Allowed m e)
  | .start _ _ _ => inferInstanceAs (Decidable True)
  | .stop _ => inferInstanceAs (Decidable True)
  | .checkTimeouts _ => inferInstanceAs (Decidable True)
  | .turn _ => inferInstanceAs (Decidable True)
  | .leave now now₁ now₂ =>
    inferInstanceAs (Decidable (∀ start ∈ m.phase.start?, ∀ t ∈ m.timers.pending.head?,
      ¬m.timers.dueTime t < start → m.timers.jumped t now₁ now₂ →
        ∀ u ∈ m.timers.pending.tail, now ≤ m.timers.dueTime u))
  | .handled result _ =>
    inferInstanceAs
      (Decidable (∀ t ∈ m.phase.timer?, result = true → t ∉ m.timers.pending))

/-- **Step lemma for the order.** -/
theorem ordered_step_iff {m : Machine τ} (h : m.timers.Ordered) (e : Event τ) :
    (step m e).timers.Ordered ↔ Allowed m e := by
  rcases m with ⟨s, phase, log⟩
  have hsame : s.Ordered ↔ True := iff_true_intro h
  cases phase with
  | idle =>
    cases e with
    | start t timeoutMs now => exact iff_true_intro (Timers.Ordered.start h t timeoutMs now)
    | stop t => exact iff_true_intro (Timers.Ordered.stop h t)
    | checkTimeouts start =>
      refine iff_true_intro ?_
      dsimp only [step]
      split <;> exact h
    | turn before => exact hsame
    | leave now now₁ now₂ => exact iff_of_true h nofun
    | handled result now => exact iff_of_true h nofun
  | checking start =>
    rcases s with ⟨pending, dueTime, timeoutMs⟩
    cases e with
    | start t timeoutMs now => exact hsame
    | stop t => exact hsame
    | checkTimeouts start => exact hsame
    | handled result now => exact iff_of_true h nofun
    | turn before =>
      refine iff_true_intro ?_
      cases pending with
      | nil => exact h
      | cons t rest =>
        dsimp only [step]
        split
        · exact ⟨(List.pairwise_cons.mp h.sorted).2, (List.nodup_cons.mp h.nodup).2⟩
        · exact h
    | leave now now₁ now₂ =>
      cases pending with
      | nil => exact iff_of_true h nofun
      | cons t rest =>
        dsimp only [step, Allowed, Phase.start?, List.head?, List.tail]
        simp only [Option.mem_some_iff, forall_eq', Timeval.isBefore_iff,
          Machine.leave_eq (m := ⟨⟨t :: rest, dueTime, timeoutMs⟩, .checking start, log⟩) rfl]
        split
        · rename_i hbefore
          exact iff_of_true h fun hn => absurd hbefore hn
        · rename_i hbefore
          split
          · rename_i hjumped
            rw [Timers.ordered_setDueTime_iff h rfl]
            exact ⟨fun hle _ _ => hle, fun hle => hle hbefore hjumped⟩
          · rename_i hjumped
            exact iff_of_true h fun _ hj => absurd hj hjumped
  | handling start t before =>
    cases e with
    | start t timeoutMs now => exact iff_true_intro (Timers.Ordered.start h t timeoutMs now)
    | stop t => exact iff_true_intro (Timers.Ordered.stop h t)
    | checkTimeouts start => exact hsame
    | turn before => exact hsame
    | leave now now₁ now₂ => exact iff_of_true h nofun
    | handled result now =>
      simp only [Allowed, Phase.timer?, Option.mem_some_iff, forall_eq']
      cases result with
      | false => exact iff_of_true h nofun
      | true =>
        show (s.rebase t before now).Ordered ↔ _
        rw [Timers.ordered_rebase_iff h]
        exact ⟨fun ht _ => ht, fun ht => ht rfl⟩

/-! ## What timers are for -/

/-- The due times of the timers that run. -/
abbrev Alarms (τ : Type*) := τ → Option Timeval

def note (a : Alarms τ) : Record τ → Alarms τ
  | .armed t due => Function.update a t (some due)
  | .stopped t => Function.update a t none
  | .fired t _ _ => Function.update a t none

/-- A timer that fires runs, and the clock has shown a time behind the one it is due at. -/
def Rings (a : Alarms τ) : Record τ → Prop
  | .fired t due start => a t = some due ∧ due < start
  | _ => True

/-- Nothing has been started. -/
def noAlarms : Alarms τ := fun _ => none

/-- Every timer fires only when it is due, and between two times it is given a due time anew. -/
structure FiresOnce (log : List (Record τ)) : Prop where
  due : ∀ t due start, .fired t due start ∈ log → due < start
  once : ∀ before between after t due start due' start',
    log = before ++ .fired t due start :: (between ++ .fired t due' start' :: after) →
      .armed t due' ∈ between

theorem armed_of_note {t : τ} {due : Timeval} {rs : List (Record τ)} {a : Alarms τ}
    (h : run note a rs t = some due) : a t = some due ∨ .armed t due ∈ rs := by
  induction rs generalizing a with
  | nil => exact Or.inl h
  | cons r rs ih =>
    rcases ih h with hnote | hmem
    · by_cases hr : r = .armed t due
      · subst hr
        exact Or.inr List.mem_cons_self
      · left
        cases r with
        | armed u due' =>
          by_cases htu : t = u
          · subst htu
            simp only [note, Function.update_self, Option.some.injEq] at hnote
            subst hnote
            exact absurd rfl hr
          · rwa [note, Function.update_of_ne htu] at hnote
        | stopped u =>
          by_cases htu : t = u
          · subst htu
            simp [note] at hnote
          · rwa [note, Function.update_of_ne htu] at hnote
        | fired u due' start' =>
          by_cases htu : t = u
          · subst htu
            simp [note] at hnote
          · rwa [note, Function.update_of_ne htu] at hnote
    · exact Or.inr (List.mem_cons_of_mem r hmem)

/-- What the records of the abstract timers tell. -/
theorem firesOnce_of_guarded {log : List (Record τ)} (h : Guarded note Rings noAlarms log) :
    FiresOnce log where
  due := by
    intro t due start hmem
    obtain ⟨before, after, rfl⟩ := List.append_of_mem hmem
    exact ((guarded_append.mp h).2.1).2
  once := by
    rintro before between after t due start due' start' rfl
    have hfirst := (guarded_append.mp h).2
    have hsecond := (guarded_append.mp hfirst.2).2.1.1
    rcases armed_of_note hsecond with hnone | hmem
    · simp [note] at hnone
    · exact hmem

/-! ## The list is what timers are for -/

namespace Timers

def alarms (s : Timers τ) : Alarms τ := fun t => if t ∈ s.pending then some (s.dueTime t) else none

variable {s : Timers τ} {t : τ}

theorem alarms_stop (s : Timers τ) (t : τ) :
    (s.stop t).alarms = Function.update s.alarms t none := by
  funext u
  by_cases hu : u = t
  · subst hu
    simp [alarms]
  · rw [Function.update_of_ne hu]
    simp [alarms, hu, stop]

theorem alarms_insertTimer (s : Timers τ) (t : τ) (due : Timeval) :
    ((s.setDueTime t due).insertTimer t).alarms = Function.update s.alarms t (some due) := by
  funext u
  by_cases hu : u = t
  · subst hu
    simp [alarms, insertTimer, setDueTime]
  · rw [Function.update_of_ne hu]
    simp [alarms, insertTimer, setDueTime, hu]

theorem alarms_setDueTime (ht : t ∈ s.pending) (due : Timeval) :
    (s.setDueTime t due).alarms = Function.update s.alarms t (some due) := by
  funext u
  by_cases hu : u = t
  · subst hu
    simp [alarms, setDueTime, ht]
  · rw [Function.update_of_ne hu]
    simp [alarms, setDueTime, hu]

theorem alarms_start (s : Timers τ) (t : τ) (timeoutMs : ℤ) (now : Timeval) :
    (s.start t timeoutMs now).alarms =
      Function.update s.alarms t (some ((s.start t timeoutMs now).dueTime t)) := by
  have hdue : (s.start t timeoutMs now).dueTime t =
      addMillis now (if timeoutMs ≤ 0 then 1 else timeoutMs.toNat) :=
    Function.update_self _ _ _
  have hstopped : ∀ due : Option Timeval,
      Function.update s.alarms t due = Function.update (s.stop t).alarms t due := by
    intro due
    rw [alarms_stop, Function.update_idem]
  rw [hdue, hstopped]
  exact alarms_insertTimer _ t _

theorem alarms_tail {rest : List τ} (hpending : s.pending = t :: rest) (ht : t ∉ rest) :
    Timers.alarms { s with pending := rest } = Function.update s.alarms t none := by
  funext u
  by_cases hu : u = t
  · subst hu
    simp [alarms, ht]
  · rw [Function.update_of_ne hu]
    simp [alarms, hpending, hu]

end Timers

/-- What the log tells is the list, and the log is one of the abstract timers. -/
structure Refines (m : Machine τ) : Prop where
  alarms : run note noAlarms m.log = m.timers.alarms
  rings : Guarded note Rings noAlarms m.log

namespace Refines

variable {m : Machine τ}

theorem record (h : Refines m) {s : Timers τ} {phase : Phase τ} (r : Record τ)
    (hr : Rings m.timers.alarms r) (hs : s.alarms = note m.timers.alarms r) :
    Refines ⟨s, phase, m.log ++ [r]⟩ where
  alarms := by
    rw [run_append, h.alarms, hs]
    rfl
  rings := by
    refine guarded_append.mpr ⟨h.rings, ?_, trivial⟩
    rwa [h.alarms]

theorem stop (h : Refines m) (t : τ) : Refines (m.stop t) :=
  h.record (.stopped t) trivial (Timers.alarms_stop m.timers t)

theorem start (h : Refines m) (t : τ) (timeoutMs : ℤ) (now : Timeval) :
    Refines (m.start t timeoutMs now) where
  alarms := by
    rw [Machine.start, run_append, h.alarms, Timers.alarms_start]
    exact Function.update_idem _ _ _
  rings := guarded_append.mpr ⟨h.rings, trivial, trivial, trivial⟩

theorem fire (h : Refines m) (ho : m.timers.Ordered) {start before : Timeval} {t : τ}
    {rest : List τ} (hpending : m.timers.pending = t :: rest)
    (hdue : (m.timers.dueTime t).isBefore start = true) :
    Refines (m.fire start t rest before) := by
  have hnodup := ho.nodup
  rw [hpending] at hnodup
  refine h.record (.fired t _ start) ⟨?_, Timeval.isBefore_iff.mp hdue⟩
    (Timers.alarms_tail hpending (List.nodup_cons.mp hnodup).1)
  simp [Timers.alarms, hpending]

theorem leave (h : Refines m) {t : τ} {rest : List τ} (hpending : m.timers.pending = t :: rest)
    (now now₁ now₂ : Timeval) : Refines (m.leave t now now₁ now₂) := by
  rw [Machine.leave_eq hpending]
  split
  · refine h.record (.armed t now) trivial (Timers.alarms_setDueTime ?_ now)
    rw [hpending]
    exact List.mem_cons_self
  · exact ⟨h.alarms, h.rings⟩

theorem again (h : Refines m) (start : Timeval) (t : τ) (before now : Timeval) :
    Refines (m.again start t before now) :=
  h.record (.armed t _) trivial (Timers.alarms_insertTimer m.timers t _)

/-- **Step lemma for the log.** -/
theorem step (h : Refines m) (ho : m.timers.Ordered) (e : Event τ) : Refines (step m e) := by
  unfold Timer.step
  split
  · exact h.start _ _ _
  · exact h.stop _
  · split
    · exact h
    · exact ⟨h.alarms, h.rings⟩
  · split
    · exact h
    · rename_i hpending
      split
      · rename_i hdue
        exact h.fire ho hpending hdue
      · exact h
  · split
    · exact h
    · rename_i hpending
      split
      · exact h
      · exact h.leave hpending _ _ _
  · exact h.start _ _ _
  · exact h.stop _
  · split
    · exact h.again _ _ _ _
    · exact ⟨h.alarms, h.rings⟩
  · exact h

end Refines

/-! ## The loop ends -/

def Record.isFired : Record τ → Bool
  | .fired _ _ _ => true
  | _ => false

/-- How many handlers have been called. -/
def fires (log : List (Record τ)) : ℕ := log.countP Record.isFired

omit [DecidableEq τ] in
@[simp] theorem fires_append (log rs : List (Record τ)) :
    fires (log ++ rs) = fires log + fires rs :=
  List.countP_append

/-- How many timers are due. -/
def Timers.expired (s : Timers τ) (start : Timeval) : ℕ :=
  s.pending.countP fun t => (s.dueTime t).isBefore start

/-- No due time that is inserted is behind the time of the call. -/
def InsertsFrom (start : Timeval) (m : Machine τ) : Event τ → Prop
  | .start t timeoutMs now => start ≤ (m.timers.start t timeoutMs now).dueTime t
  | .handled result now =>
    match m.phase with
    | .handling _ t before => result = true → start ≤ m.timers.nextDueTime t before now
    | _ => True
  | .checkTimeouts _ => False
  | _ => True

/-- The call that the machine is in, if it is in one. -/
def Phase.OfCall (start : Timeval) : Phase τ → Prop
  | .idle => True
  | .checking start' => start' = start
  | .handling start' _ _ => start' = start

/-- As many handlers can still be called. -/
def Machine.left (m : Machine τ) (start : Timeval) : ℕ :=
  match m.phase with
  | .idle => 0
  | _ => m.timers.expired start

namespace Timers

variable {s : Timers τ} {t : τ} {start : Timeval}

theorem expired_stop_le (s : Timers τ) (t : τ) (start : Timeval) :
    (s.stop t).expired start ≤ s.expired start :=
  List.filter_sublist.countP_le

theorem expired_insertTimer_le {due : Timeval} (h : start ≤ due) :
    ((s.setDueTime t due).insertTimer t).expired start ≤ s.expired start := by
  have hself : ((s.setDueTime t due).dueTime t).isBefore start = false := by
    rw [Bool.eq_false_iff, Ne, Timeval.isBefore_iff]
    simpa [setDueTime] using h
  show (insertBefore (s.setDueTime t due).dueTime t s.pending).countP
    (fun u => ((s.setDueTime t due).dueTime u).isBefore start) ≤ s.expired start
  rw [(perm_insertBefore _ _ _).countP_eq, List.countP_cons, hself]
  refine List.countP_mono_left ?_
  intro u _ hu
  by_cases hut : u = t
  · subst hut
    rw [hself] at hu
    cases hu
  · simpa [setDueTime, hut] using hu

theorem expired_start_le {timeoutMs : ℤ} {now : Timeval}
    (h : start ≤ (s.start t timeoutMs now).dueTime t) :
    (s.start t timeoutMs now).expired start ≤ s.expired start := by
  have hdue : (s.start t timeoutMs now).dueTime t =
      addMillis now (if timeoutMs ≤ 0 then 1 else timeoutMs.toNat) :=
    Function.update_self _ _ _
  rw [hdue] at h
  exact (expired_insertTimer_le (s := { s.stop t with
    timeoutMs := Function.update s.timeoutMs t _ }) h).trans (expired_stop_le s t start)

end Timers

/-- What the calls of handlers are bounded by. -/
structure Bounded (start : Timeval) (n : ℕ) (m : Machine τ) : Prop where
  ofCall : m.phase.OfCall start
  le : fires m.log + m.left start ≤ n

namespace Bounded

variable {begun : Timeval} {n : ℕ} {m : Machine τ}

omit [DecidableEq τ] in
/-- A call that inserts no timer that is due. -/
theorem call (h : Bounded begun n m) {m' : Machine τ} (hphase : m'.phase = m.phase)
    (hlog : fires m'.log = fires m.log)
    (hexpired : m'.timers.expired begun ≤ m.timers.expired begun) : Bounded begun n m' where
  ofCall := hphase ▸ h.ofCall
  le := by
    have hle := h.le
    rw [hlog]
    refine Nat.le_trans (Nat.add_le_add_left ?_ _) hle
    unfold Machine.left
    rw [hphase]
    split
    · exact Nat.le_refl 0
    · exact hexpired

theorem start (h : Bounded begun n m) {t : τ} {timeoutMs : ℤ} {now : Timeval}
    (hinserts : begun ≤ (m.timers.start t timeoutMs now).dueTime t) :
    Bounded begun n (m.start t timeoutMs now) :=
  h.call rfl (fires_append _ _) (Timers.expired_start_le hinserts)

theorem stop (h : Bounded begun n m) (t : τ) : Bounded begun n (m.stop t) :=
  h.call rfl (fires_append _ _) (Timers.expired_stop_le m.timers t begun)

omit [DecidableEq τ] in
/-- A handler that is called is one that is left no more. -/
theorem fire (h : Bounded begun n m) (hphase : m.phase = .checking begun) {before : Timeval} {t : τ}
    {rest : List τ} (hpending : m.timers.pending = t :: rest)
    (hdue : (m.timers.dueTime t).isBefore begun = true) :
    Bounded begun n (m.fire begun t rest before) where
  ofCall := rfl
  le := by
    have hleft : m.left begun = (m.fire begun t rest before).left begun + 1 := by
      show m.left begun = rest.countP (fun t => (m.timers.dueTime t).isBefore begun) + 1
      unfold Machine.left
      rw [hphase]
      show m.timers.pending.countP _ = _
      rw [hpending]
      exact List.countP_cons_of_pos hdue
    have hlog : fires (m.fire begun t rest before).log = fires m.log + 1 := fires_append _ _
    have hle := h.le
    omega

theorem leave (h : Bounded begun n m) {t : τ} {rest : List τ}
    (hpending : m.timers.pending = t :: rest) (now now₁ now₂ : Timeval) :
    Bounded begun n (m.leave t now now₁ now₂) := by
  have hlog : fires (m.leave t now now₁ now₂).log = fires m.log := by
    rw [Machine.leave_eq hpending]
    split
    · exact fires_append _ _
    · rfl
  have hphase : (m.leave t now now₁ now₂).phase = .idle := by
    rw [Machine.leave_eq hpending]
    split <;> rfl
  constructor
  · rw [hphase]
    trivial
  · rw [hlog, Machine.left, hphase]
    exact Nat.le_of_add_right_le h.le

theorem again (h : Bounded begun n m) {t : τ} {before : Timeval}
    (hphase : m.phase = .handling begun t before) {now : Timeval}
    (hinserts : begun ≤ m.timers.nextDueTime t before now) :
    Bounded begun n (m.again begun t before now) where
  ofCall := rfl
  le := by
    have hlog : fires (m.again begun t before now).log = fires m.log := fires_append _ _
    have hleft : (m.again begun t before now).left begun ≤ m.left begun := by
      refine (Timers.expired_insertTimer_le hinserts).trans_eq ?_
      unfold Machine.left
      rw [hphase]
    have hle := h.le
    omega

/-- **Step lemma for the loop.** -/
theorem step (h : Bounded begun n m) (e : Event τ) (hinserts : InsertsFrom begun m e) :
    Bounded begun n (step m e) := by
  unfold Timer.step
  split
  · exact h.start hinserts
  · exact h.stop _
  · exact hinserts.elim
  · rename_i hphase
    obtain rfl := (hphase ▸ h.ofCall : Phase.OfCall begun (.checking _))
    split
    · exact h
    · rename_i hpending
      split
      · rename_i hdue
        exact h.fire hphase hpending hdue
      · exact h
  · split
    · exact h
    · rename_i hpending
      split
      · exact h
      · exact h.leave hpending _ _ _
  · exact h.start hinserts
  · exact h.stop _
  · rename_i hphase
    obtain rfl := (hphase ▸ h.ofCall : Phase.OfCall begun (.handling _ _ _))
    split
    · rename_i hresult
      rw [InsertsFrom, hphase] at hinserts
      exact h.again hphase (hinserts hresult)
    · have hle := h.le
      rw [Machine.left, hphase] at hle
      constructor
      · dsimp only
        split
        · trivial
        · rfl
      · rw [Machine.left]
        dsimp only
        split
        · exact Nat.le_of_add_right_le hle
        · exact hle
  · exact h

end Bounded

/-! ## Runs -/

/-- No timer has been started. What the timers hold is left over from their construction. -/
def begin (dueTime : τ → Timeval) (timeoutMs : τ → ℕ) : Machine τ where
  timers := ⟨[], dueTime, timeoutMs⟩
  phase := .idle
  log := []

/-- The loop looks at the first timer only when there is one. -/
def HasFront (m : Machine τ) : Prop := ∀ start ∈ m.phase.start?, m.timers.pending ≠ []

theorem HasFront.step {m : Machine τ} (h : HasFront m) (e : Event τ) : HasFront (step m e) := by
  unfold Timer.step
  split
  · rename_i hphase
    intro start' hstart
    rw [Machine.start, hphase] at hstart
    cases hstart
  · rename_i hphase
    intro start' hstart
    rw [Machine.stop, hphase] at hstart
    cases hstart
  · split
    · exact h
    · rename_i hpending
      intro start' _ hnil
      exact hpending (List.isEmpty_iff.mpr hnil)
  · split
    · exact h
    · split
      · exact nofun
      · exact h
  · split
    · exact h
    · rename_i hpending
      split
      · exact h
      · rw [Machine.leave_eq hpending]
        split <;> exact nofun
  · rename_i hphase
    intro start' hstart
    rw [Machine.start, hphase] at hstart
    cases hstart
  · rename_i hphase
    intro start' hstart
    rw [Machine.stop, hphase] at hstart
    cases hstart
  · split
    · intro start' _ hnil
      exact Timers.insertBefore_ne_nil _ _ _ hnil
    · split
      · exact nofun
      · rename_i hpending
        intro start' _ hnil
        exact hpending (List.isEmpty_iff.mpr hnil)
  · exact h

/-- **Timers.** Along every run the list stays in order, with each timer at most once, exactly as
long as no handler that asks for another timeout leaves its own timer running and the clock is
not behind when it seems to have jumped. In such a run every timer fires only when it is due, and
once for each due time. In every run the loop looks at a timer only when there is one, and calls
no more handlers than timers were due, unless a timer is inserted that is due. -/
theorem timers_iff (dueTime : τ → Timeval) (timeoutMs : τ → ℕ) (es : List (Event τ)) :
    ((∀ before, before <+: es → (run step (begin dueTime timeoutMs) before).timers.Ordered) ↔
      Guarded step Allowed (begin dueTime timeoutMs) es) ∧
    (Guarded step Allowed (begin dueTime timeoutMs) es →
      FiresOnce (run step (begin dueTime timeoutMs) es).log) ∧
    HasFront (run step (begin dueTime timeoutMs) es) ∧
    (∀ start call, (run step (begin dueTime timeoutMs) es).phase = .checking start →
      Guarded step (InsertsFrom start) (run step (begin dueTime timeoutMs) es) call →
        fires (run step (begin dueTime timeoutMs) (es ++ call)).log ≤
          fires (run step (begin dueTime timeoutMs) es).log +
            (run step (begin dueTime timeoutMs) es).timers.expired start) := by
  have hordered : (begin dueTime timeoutMs).timers.Ordered := ⟨List.Pairwise.nil, List.nodup_nil⟩
  refine ⟨guarded_iff_always (I := fun m : Machine τ => m.timers.Ordered) (fun m e h => ordered_step_iff h e)
    hordered, ?_, ?_, ?_⟩
  · intro hg
    have hrefines : Refines (begin dueTime timeoutMs) := ⟨rfl, trivial⟩
    have hrun := run_invariant (I := fun m : Machine τ => m.timers.Ordered ∧ Refines m)
      (fun m e h hok => ⟨(ordered_step_iff h.1 e).mpr hok, h.2.step h.1 e⟩)
      ⟨hordered, hrefines⟩ hg
    exact firesOnce_of_guarded hrun.2.rings
  · refine run_invariant_all (I := HasFront) (fun m e h => h.step e) es ?_
    intro start hstart
    cases hstart
  · intro start call hphase hg
    rw [run_append]
    generalize run step (begin dueTime timeoutMs) es = m at hphase hg ⊢
    have hbounded : Bounded start (fires m.log + m.timers.expired start) m := by
      constructor
      · rw [hphase]
        rfl
      · rw [Machine.left, hphase]
    have hrun := run_invariant (I := Bounded start (fires m.log + m.timers.expired start))
      (fun m e h hok => h.step e hok) hbounded hg
    exact Nat.le_of_add_right_le hrun.le

/-- So many milliseconds after the epoch. -/
def atMillis (millis : ℕ) : Timeval := addMillis ⟨0, 0, by decide⟩ millis

/-- No timer has been started. -/
def fresh : Machine ℕ := begin (fun _ => atMillis 0) (fun _ => 0)

/-- A timer of ten milliseconds, and the handler that is called for it. -/
def onceDue (calls : List (Event ℕ)) (result : Bool) : List (Event ℕ) :=
  [.start 0 10 (atMillis 0), .start 1 50 (atMillis 0), .checkTimeouts (atMillis 20),
    .turn (atMillis 20)] ++ calls ++ [.handled result (atMillis 20)]

/-- A handler that starts another timer and asks for another timeout. -/
theorem timers_iff_repeating :
    (run step fresh (onceDue [.start 2 5 (atMillis 20)] true)).timers.pending = [0, 2, 1] ∧
      FiresOnce (run step fresh (onceDue [.start 2 5 (atMillis 20)] true)).log :=
  ⟨by decide, (timers_iff _ _ _).2.1 (by decide)⟩

/-- A handler that restarts its own timer and asks for another timeout: the timer is on the list
twice, and fires twice for one due time. -/
theorem timers_restarting :
    let es := onceDue [.start 0 10 (atMillis 20)] true ++
      [.leave (atMillis 20) (atMillis 20) (atMillis 20), .checkTimeouts (atMillis 100),
        .turn (atMillis 100), .handled false (atMillis 100), .turn (atMillis 100)]
    (run step fresh (es.take 6)).timers.pending = [0, 0, 1] ∧
      ¬(run step fresh (es.take 6)).timers.Ordered ∧ ¬FiresOnce (run step fresh es).log := by
  have hpending : (run step fresh (onceDue [.start 0 10 (atMillis 20)] true)).timers.pending =
      [0, 0, 1] := by decide
  refine ⟨hpending, fun h => ?_, fun h => ?_⟩
  · have hnodup := h.nodup
    rw [show List.take 6 _ = onceDue [.start 0 10 (atMillis 20)] true from rfl, hpending] at hnodup
    exact absurd hnodup (by decide)
  · have hbetween := h.once [.stopped 0, .armed 0 (atMillis 10), .stopped 1,
      .armed 1 (atMillis 50), .fired 0 (atMillis 10) (atMillis 20), .stopped 0,
      .armed 0 (atMillis 30), .armed 0 (atMillis 40)] [] [] 0 (atMillis 40) (atMillis 100)
      (atMillis 40) (atMillis 100) (by decide)
    cases hbetween

end KasmVNC.Rfb.Timer
