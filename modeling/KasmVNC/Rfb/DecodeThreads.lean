import KasmVNC.Rfb.ParallelDecode

/-!
# The threads of the decode manager

`DecodeManager` has what the threads do to the queue. Here is what makes them do it: the
mutex, `producerCond` for the main thread, `consumerCond` for the workers, and the buffers
that go round. A step is all that a thread does under the mutex in one go, up to where it
unlocks it or waits.

A worker is not told apart from the others: it is about to look for an entry, asleep, or at
the entry that it has made active. That no worker sleeps while there is an entry for it
(`ThreadsSound.awakens`) rests on the place of an entry alone: whether it may be taken does not
depend on which others are active, so that taking one leaves the rest as they are
(`takeable_found`).
-/

namespace KasmVNC.Rfb

open KasmVNC.Lib

variable {width : PixelWidth} {d : DecodeParams width}

/-! ## The threads -/

/-- Where the main thread is. -/
inductive MainThread
  /-- Outside of the decode manager. -/
  | idle
  /-- In the loop of `decodeRect`. -/
  | buffer (hd : RectHeader) (asleep : Bool)
  /-- It has a buffer to read into, and has let go of the mutex. -/
  | reading (hd : RectHeader) (bufferStream : ℕ)
  /-- The entry is there, but not yet in the queue. -/
  | queueing (entry : QueueEntry) (bufferStream : ℕ)
  /-- In the loop of `flush`. -/
  | flushing (asleep : Bool)

namespace MainThread

/-- `producerCond->signal()`, which nobody else waits for. -/
def woken : MainThread → MainThread
  | .buffer hd _ => .buffer hd false
  | .flushing _ => .flushing false
  | main => main

def bufferStream : MainThread → Option ℕ
  | .reading _ b | .queueing _ b => some b
  | _ => none

def asleep : MainThread → Bool
  | .buffer _ asleep | .flushing asleep => asleep
  | _ => false

/-- The entry that is not yet in the queue. -/
def entry : MainThread → List QueueEntry
  | .queueing entry _ => [entry]
  | _ => []

/-- The rectangle that is not yet read. -/
def request : MainThread → List RectHeader
  | .buffer hd _ | .reading hd _ => [hd]
  | _ => []

@[simp] theorem woken_bufferStream (main : MainThread) :
    main.woken.bufferStream = main.bufferStream := by
  cases main <;> rfl

@[simp] theorem woken_asleep (main : MainThread) : main.woken.asleep = false := by
  cases main <;> rfl

@[simp] theorem woken_entry (main : MainThread) : main.woken.entry = main.entry := by
  cases main <;> rfl

@[simp] theorem woken_request (main : MainThread) : main.woken.request = main.request := by
  cases main <;> rfl

end MainThread

variable (d) in
/-- Each buffer has a number. The entries of the queue have theirs in `held`, in order. -/
structure DecodeThreads extends DecodeManager d where
  freeBuffers : List ℕ
  held : List ℕ
  /-- Workers that are about to look for an entry. -/
  awake : ℕ
  /-- Workers on `consumerCond`. -/
  sleeping : ℕ
  main : MainThread

/-- What the threads do. -/
inductive ThreadEvent
  /-- The main thread calls `decodeRect`. -/
  | decodeRect (hd : RectHeader)
  /-- The main thread calls `flush`. -/
  | flush
  /-- The main thread goes on. -/
  | goOn
  /-- A worker looks for an entry. -/
  | findEntry
  /-- A worker decodes its entry. -/
  | decode (i : ℕ)
  /-- A worker removes its entry from the queue and looks for the next. -/
  | remove (i : ℕ)
  /-- The main thread wakes without a signal. -/
  | stirMain
  /-- A worker wakes without a signal. -/
  | stirWorker

/-- A worker does it, and not without a reason. -/
def ThreadEvent.ofWorker : ThreadEvent → Prop
  | .findEntry | .decode _ | .remove _ => True
  | _ => False

namespace DecodeThreads

open DecodeManager (Stop)

variable (m : DecodeThreads d)

/-- `consumerCond->signal()`. -/
def signal : DecodeThreads d :=
  { m with awake := m.awake + min 1 m.sleeping, sleeping := m.sleeping - 1 }

/-- `consumerCond->broadcast()`. -/
def broadcast : DecodeThreads d := { m with awake := m.awake + m.sleeping, sleeping := 0 }

/-- `decodeRect` under the mutex: the front buffer, or `producerCond->wait()`. -/
def takeBuffer (hd : RectHeader) : DecodeThreads d :=
  match m.freeBuffers with
  | [] => { m with main := .buffer hd true }
  | b :: _ => { m with main := .reading hd b }

/-- `decodeRect` without the mutex. -/
def read (hd : RectHeader) (b : ℕ) : Except Stop (DecodeThreads d) := do
  m.throwThreadException.mapError .throws
  let (entry, input) ← (readEntry d hd m.input).mapError .throws
  pure { m with input := input, main := .queueing entry b }

/-- `decodeRect` under the mutex again. The front buffer is taken to be the same. -/
def push (entry : QueueEntry) (b : ℕ) : DecodeThreads d :=
  signal { m with
    freeBuffers := m.freeBuffers.tail, held := m.held ++ [b]
    workQueue := m.workQueue ++ [entry], main := .idle }

/-- `flush` under the mutex. Nobody sets an exception once the queue is empty. -/
def waitEmpty : Except Stop (DecodeThreads d) :=
  if m.workQueue = [] then
    (m.throwThreadException.mapError .throws).map fun _ => { m with main := .idle }
  else .ok { m with main := .flushing true }

/-- The loop of `worker`: an entry, or `consumerCond->wait()`. -/
def look : DecodeThreads d :=
  match Rfb.findEntry m.workQueue with
  | none => { m with sleeping := m.sleeping + 1 }
  | some i => { m with toDecodeManager := m.setPhase i .decoding }

/-- A worker is done with the entry in place `i`, whose buffer is `b`. -/
def giveBack (i b : ℕ) : DecodeThreads d :=
  { m with
    freeBuffers := m.freeBuffers ++ [b], workQueue := m.workQueue.eraseIdx i
    held := m.held.eraseIdx i, main := m.main.woken }

/-- Others may have waited for the entry that is gone. -/
def wakeOthers : DecodeThreads d := if m.workQueue.length > 1 then m.broadcast else m

def step : ThreadEvent → Except Stop (DecodeThreads d)
  | .decodeRect hd =>
    match m.main with
    | .idle => ((checkRect d hd.rect).mapError .throws).map fun _ => m.takeBuffer hd
    | _ => .error .waits
  | .flush =>
    match m.main with
    | .idle => m.waitEmpty
    | _ => .error .waits
  | .goOn =>
    match m.main with
    | .buffer hd false => .ok (m.takeBuffer hd)
    | .reading hd b => m.read hd b
    | .queueing entry b => .ok (m.push entry b)
    | .flushing false => m.waitEmpty
    | _ => .error .waits
  | .findEntry =>
    if m.awake = 0 then .error .waits else .ok (look { m with awake := m.awake - 1 })
  | .decode i =>
    (m.toDecodeManager.step (.decode i)).map fun manager =>
      { m with toDecodeManager := manager }
  | .remove i =>
    match m.workQueue[i]?, m.held[i]? with
    | some ⟨.decoded, _, _, _⟩, some b => .ok (m.giveBack i b).wakeOthers.look
    | _, _ => .error .waits
  | .stirMain => .ok { m with main := m.main.woken }
  | .stirWorker =>
    if m.sleeping = 0 then .error .waits
    else .ok { m with awake := m.awake + 1, sleeping := m.sleeping - 1 }

/-- The constructor, where there are several CPUs: no more than four threads, and two buffers
for each of them. -/
def create (s : Decoding d) (cpuCount : ℕ) : DecodeThreads d :=
  { DecodeManager.start s with
    freeBuffers := List.range (2 * min cpuCount 4), held := []
    awake := min cpuCount 4, sleeping := 0, main := .idle }

/-- The workers that are at an entry. -/
def busy : ℕ := m.workQueue.countP (·.active)

end DecodeThreads

/-! ## Entries that may be taken -/

/-- How many entries of the rest of the queue a worker may take. -/
def takeable (before : List QueueEntry) (lockedRegion : Region) : List QueueEntry → ℕ
  | [] => 0
  | e :: rest => (if mayTake before lockedRegion e then 1 else 0) +
      takeable (before ++ [e]) (lockedRegion ∪ e.affectedRegion) rest

section Takeable

variable {e : QueueEntry} {before after : List QueueEntry}

theorem takeable_le_length (rest : List QueueEntry) : ∀ {before lockedRegion},
    takeable before lockedRegion rest ≤ rest.length := by
  induction rest with
  | nil => exact fun {_ _} => le_rfl
  | cons e rest ih =>
    intro before lockedRegion
    have hrest := @ih (before ++ [e]) (lockedRegion ∪ e.affectedRegion)
    simp only [takeable, List.length_cons]
    split <;> omega

/-- Another entry at the end. -/
theorem takeable_concat (e : QueueEntry) (rest : List QueueEntry) : ∀ {before lockedRegion},
    takeable before lockedRegion (rest ++ [e]) ≤ takeable before lockedRegion rest + 1 := by
  induction rest with
  | nil => exact fun {_ _} => by simpa [takeable] using takeable_le_length [e]
  | cons a rest ih =>
    intro before lockedRegion
    have hrest := @ih (before ++ [a]) (lockedRegion ∪ a.affectedRegion)
    simp only [List.cons_append, takeable]
    omega

/-- The phase of an entry does not matter to those behind it. -/
theorem mayTake_replace (phase : EntryPhase) (lockedRegion : Region) (a : QueueEntry) :
    mayTake (before ++ { e with phase := phase } :: after) lockedRegion a =
      mayTake (before ++ e :: after) lockedRegion a := by
  simp only [mayTake, List.any_append, List.any_cons]
  rfl

theorem takeable_replace (phase : EntryPhase) (rest : List QueueEntry) :
    ∀ {after lockedRegion},
      takeable (before ++ { e with phase := phase } :: after) lockedRegion rest =
        takeable (before ++ e :: after) lockedRegion rest := by
  induction rest with
  | nil => exact fun {_ _} => rfl
  | cons a rest ih =>
    intro after lockedRegion
    have hrest := @ih (after ++ [a]) (lockedRegion ∪ a.affectedRegion)
    simp only [takeable, mayTake_replace, List.append_assoc, List.cons_append]
    rw [hrest]

/-- Another phase of an entry that stays active. -/
theorem takeable_active {phase : EntryPhase} (he : e.active = true)
    (hphase : QueueEntry.active { e with phase := phase } = true) (skipped : List QueueEntry) :
    ∀ {before lockedRegion},
      takeable before lockedRegion (skipped ++ { e with phase := phase } :: after) =
        takeable before lockedRegion (skipped ++ e :: after) := by
  induction skipped with
  | nil =>
    intro before lockedRegion
    have hrest := @takeable_replace e before phase after []
      (lockedRegion ∪ e.affectedRegion)
    simp only [List.nil_append, takeable, mayTake, he, hphase, Bool.not_true, Bool.false_and]
    exact congrArg _ hrest
  | cons a skipped ih =>
    intro before lockedRegion
    simp only [List.cons_append, takeable]
    rw [ih]

theorem findEntryLoop_none {rest : List QueueEntry} : ∀ {before lockedRegion},
    findEntryLoop before lockedRegion rest = none → takeable before lockedRegion rest = 0 := by
  induction rest with
  | nil => exact fun {_ _} _ => rfl
  | cons e rest ih =>
    intro before lockedRegion h
    rw [findEntryLoop] at h
    split at h
    case isTrue => cases h
    case isFalse hno =>
      rw [takeable, if_neg hno, ih h]

/-- Taking an entry leaves one less, and the rest as they are. -/
theorem findEntryLoop_takes {rest : List QueueEntry} : ∀ {before lockedRegion} {i : ℕ},
    findEntryLoop before lockedRegion rest = some i →
      ∃ j, i = before.length + j ∧
        takeable before lockedRegion (rest.modify j fun e => { e with phase := .decoding }) + 1 =
          takeable before lockedRegion rest := by
  induction rest with
  | nil => exact fun {_ _ _} h => nomatch h
  | cons e rest ih =>
    intro before lockedRegion i h
    rw [findEntryLoop] at h
    split at h
    case isTrue htake =>
      refine ⟨0, (Option.some.inj h).symm, ?_⟩
      have hno : ¬mayTake before lockedRegion { e with phase := .decoding } = true := by
        simp [mayTake, QueueEntry.active]
      have hrest := @takeable_replace e before .decoding rest []
        (lockedRegion ∪ e.affectedRegion)
      rw [List.modify_zero_cons, takeable, takeable, if_pos htake, if_neg hno, Nat.zero_add,
        Nat.add_comm 1]
      exact congrArg (· + 1) hrest
    case isFalse hno =>
      obtain ⟨j, rfl, hj⟩ := ih h
      refine ⟨j + 1, by rw [List.length_append, List.length_singleton]; omega, ?_⟩
      rw [List.modify_succ_cons, takeable, takeable, if_neg hno, Nat.zero_add, Nat.zero_add, hj]

theorem mayTake_front (he : e.active = false) : mayTake [] ∅ e = true := by
  simp [mayTake, he]

theorem takeable_none {queue : List QueueEntry} (h : findEntry queue = none) :
    takeable [] ∅ queue = 0 := by
  cases queue with
  | nil => rfl
  | cons front rest =>
    rw [findEntry] at h
    split at h
    case isTrue => cases h
    case isFalse => exact findEntryLoop_none h

theorem takeable_found {queue : List QueueEntry} {i : ℕ} (h : findEntry queue = some i) :
    takeable [] ∅ (queue.modify i fun e => { e with phase := .decoding }) + 1 =
      takeable [] ∅ queue := by
  have hloop : findEntryLoop [] ∅ queue = some i := by
    cases queue with
    | nil => cases h
    | cons front rest =>
      rw [findEntry] at h
      split at h
      case isTrue hfront =>
        rw [findEntryLoop, if_pos (mayTake_front (by simpa using hfront))]
        exact h
      case isFalse => exact h
  obtain ⟨j, rfl, hj⟩ := findEntryLoop_takes hloop
  rw [List.length_nil, Nat.zero_add]
  exact hj

/-- The front of the queue may always be taken. -/
theorem takeable_pos {queue : List QueueEntry} (hne : queue ≠ [])
    (hidle : queue.countP (·.active) = 0) : 0 < takeable [] ∅ queue := by
  cases queue with
  | nil => exact absurd rfl hne
  | cons front rest =>
    have hfront : front.active = false := by
      simpa using List.countP_eq_zero.mp hidle front List.mem_cons_self
    rw [takeable, if_pos (mayTake_front hfront)]
    omega

end Takeable

/-! ## The invariant -/

theorem countP_replace (phase : EntryPhase) (e : QueueEntry) (before after : List QueueEntry) :
    (before ++ { e with phase := phase } :: after).countP (·.active) + e.active.toNat =
      (before ++ e :: after).countP (·.active) +
        (QueueEntry.active { e with phase := phase }).toNat := by
  have hcons : ∀ a : QueueEntry, (before ++ a :: after).countP (·.active) =
      (before ++ after).countP (·.active) + a.active.toNat := by
    intro a
    rw [List.countP_append, List.countP_append, List.countP_cons]
    cases a.active with
    | false => simp
    | true =>
      simp
      omega
  rw [hcons, hcons]
  omega

namespace DecodeThreads

variable {n : ℕ} {buffers : List ℕ} {m m' : DecodeThreads d}

/-- There are `n` workers, and the buffers go round. `slack` is 1 while a worker that is
counted nowhere looks for an entry. -/
structure Sound (n : ℕ) (buffers : List ℕ) (slack : ℕ) (m : DecodeThreads d) : Prop where
  workers : m.awake + m.sleeping + m.busy + slack = n
  paired : m.held.length = m.workQueue.length
  circulate : (m.freeBuffers ++ m.held).Perm buffers
  /-- The buffer that is read into stays in front. -/
  front : ∀ b ∈ m.main.bufferStream, m.freeBuffers.head? = some b
  fresh : ∀ e ∈ m.main.entry, e.phase = .waiting
  /-- The main thread sleeps with good reason. -/
  waiting : m.main.asleep = true → m.freeBuffers = [] ∨ m.workQueue ≠ []
  /-- No worker sleeps while there is an entry for it. -/
  awakens : takeable [] ∅ m.workQueue ≤ m.awake + slack ∨ m.sleeping = 0

theorem busy_setPhase {before after : List QueueEntry} {e : QueueEntry} (phase : EntryPhase)
    {a b : Bool} (hq : m.workQueue = before ++ e :: after) (hold : e.active = a)
    (hnew : QueueEntry.active { e with phase := phase } = b) :
    (m.setPhase before.length phase).workQueue.countP (·.active) + a.toNat =
      m.busy + b.toNat := by
  subst hold hnew
  rw [DecodeManager.setPhase, hq, modify_split, busy, hq]
  exact countP_replace phase e before after

theorem Sound.look (h : Sound n buffers 1 m) : Sound n buffers 0 m.look := by
  have hworkers := h.workers
  have hawakens := h.awakens
  unfold DecodeThreads.look
  cases hfind : Rfb.findEntry m.workQueue with
  | none =>
    have hnone := takeable_none hfind
    refine ⟨?_, h.paired, h.circulate, h.front, h.fresh, h.waiting, .inl ?_⟩
    · show m.awake + (m.sleeping + 1) + m.busy + 0 = n
      omega
    · show takeable [] ∅ m.workQueue ≤ m.awake + 0
      omega
  | some i =>
    have htake := takeable_found hfind
    obtain ⟨before, e, after, hq, rfl, hidle, -⟩ := findEntry_eq_some hfind
    have hbusy := busy_setPhase .decoding hq hidle (b := true) rfl
    refine ⟨?_, ?_, h.circulate, h.front, h.fresh, fun hasleep => ?_, ?_⟩
    · show m.awake + m.sleeping +
        (m.setPhase before.length .decoding).workQueue.countP (·.active) + 0 = n
      rw [Bool.toNat_false, Bool.toNat_true] at hbusy
      omega
    · rw [h.paired]
      exact (List.length_modify ..).symm
    · refine (h.waiting hasleep).imp id fun hne hempty => hne ?_
      exact List.length_eq_zero_iff.mp ((List.length_modify ..).symm.trans
        (List.length_eq_zero_iff.mpr hempty))
    · exact hawakens.imp (fun hle => Nat.le_of_succ_le_succ (htake.trans_le hle)) id

/-! ### Steps -/

theorem sound_create (s : Decoding d) (cpuCount : ℕ) :
    Sound (min cpuCount 4) (List.range (2 * min cpuCount 4)) 0 (create s cpuCount) := by
  refine ⟨rfl, rfl, ?_, nofun, nofun, nofun, .inr rfl⟩
  rw [show (create s cpuCount).held = [] from rfl, List.append_nil]
  exact .refl _

/-- Only the main thread has gone on. -/
theorem Sound.setMain {main : MainThread} (h : Sound n buffers 0 m)
    (hfront : ∀ b ∈ main.bufferStream, m.freeBuffers.head? = some b)
    (hfresh : ∀ e ∈ main.entry, e.phase = .waiting)
    (hwaiting : main.asleep = true → m.freeBuffers = [] ∨ m.workQueue ≠ []) :
    Sound n buffers 0 { m with main := main } :=
  ⟨h.workers, h.paired, h.circulate, hfront, hfresh, hwaiting, h.awakens⟩

theorem Sound.takeBuffer (h : Sound n buffers 0 m) (hd : RectHeader) :
    Sound n buffers 0 (m.takeBuffer hd) := by
  unfold DecodeThreads.takeBuffer
  split
  case h_1 hfree => exact h.setMain nofun nofun fun _ => .inl hfree
  case h_2 b rest hfree =>
    refine h.setMain (fun b' hb' => ?_) nofun nofun
    rw [hfree, ← Option.some.inj hb']
    rfl

theorem read_ok {hd : RectHeader} {b : ℕ} (h : m.read hd b = .ok m') :
    ∃ e input, readEntry d hd m.input = .ok (e, input) ∧
      m' = { m with input := input, main := .queueing e b } := by
  obtain ⟨⟨⟩, -, h⟩ := of_bind_ok h
  obtain ⟨⟨e, input⟩, hread, h⟩ := of_bind_ok h
  refine ⟨e, input, ?_, (Except.ok.inj h).symm⟩
  cases hentry : readEntry d hd m.input with
  | error msg =>
    rw [hentry] at hread
    cases hread
  | ok res =>
    rw [hentry] at hread
    exact congrArg _ (Except.ok.inj hread)

theorem Sound.read {hd : RectHeader} {b : ℕ} (h : Sound n buffers 0 m)
    (hmain : m.main = .reading hd b) (hread : m.read hd b = .ok m') : Sound n buffers 0 m' := by
  obtain ⟨e, input, hentry, rfl⟩ := read_ok hread
  have hfront := h.front
  rw [hmain] at hfront
  refine ⟨h.workers, h.paired, h.circulate, hfront, fun e' he' => ?_, nofun, h.awakens⟩
  obtain rfl := List.mem_singleton.mp he'
  exact (readEntry_ok hentry).1

theorem Sound.push {e : QueueEntry} {b : ℕ} (h : Sound n buffers 0 m)
    (hmain : m.main = .queueing e b) : Sound n buffers 0 (m.push e b) := by
  have hfront := h.front b (by rw [hmain]; rfl)
  have hfresh := h.fresh e (by rw [hmain]; exact List.mem_singleton_self e)
  have hworkers := h.workers
  have hawakens := h.awakens
  have hmore := @takeable_concat e m.workQueue [] ∅
  refine ⟨?_, ?_, ?_, nofun, nofun, nofun, ?_⟩
  · show m.awake + min 1 m.sleeping + (m.sleeping - 1) +
      (m.workQueue ++ [e]).countP (·.active) + 0 = n
    have hbusy : (m.workQueue ++ [e]).countP (·.active) = m.busy := by
      have hidle : ¬e.active = true := by simp [QueueEntry.active, hfresh]
      rw [List.countP_append, busy, List.countP_singleton, if_neg hidle]
      rfl
    omega
  · show (m.held ++ [b]).length = (m.workQueue ++ [e]).length
    rw [List.length_append, List.length_append, h.paired]
    rfl
  · obtain ⟨rest, hrest⟩ : ∃ rest, m.freeBuffers = b :: rest := List.head?_eq_some_iff.mp hfront
    have hcirculate := h.circulate
    rw [hrest] at hcirculate
    show (m.freeBuffers.tail ++ (m.held ++ [b])).Perm buffers
    rw [hrest, List.tail_cons, ← List.append_assoc]
    exact (List.perm_append_singleton b _).trans hcirculate
  · show takeable [] ∅ (m.workQueue ++ [e]) ≤ m.awake + min 1 m.sleeping + 0 ∨ m.sleeping - 1 = 0
    omega

theorem Sound.waitEmpty (h : Sound n buffers 0 m) (hwait : m.waitEmpty = .ok m') :
    Sound n buffers 0 m' := by
  unfold DecodeThreads.waitEmpty at hwait
  split at hwait
  case isTrue =>
    obtain ⟨-, -, rfl⟩ := of_map_ok hwait
    exact h.setMain nofun nofun nofun
  case isFalse hne =>
    obtain rfl := Except.ok.inj hwait
    exact h.setMain nofun nofun fun _ => .inr hne

end DecodeThreads

/-- What decoding does to the queue. -/
theorem DecodeManager.decode_ok {m m' : DecodeManager d} {i : ℕ}
    (h : m.step (.decode i) = .ok m') :
    ∃ before e after, m.workQueue = before ++ e :: after ∧ before.length = i ∧
      e.phase = .decoding ∧ m'.workQueue = before ++ { e with phase := .decoded } :: after := by
  rw [step] at h
  split at h
  case h_2 => cases h
  case h_1 rect encoding bytes hentry =>
    obtain ⟨before, after, hq, rfl⟩ := exists_split hentry
    have hq' : (m.setPhase before.length .decoded).workQueue =
        before ++ ⟨.decoded, rect, encoding, bytes⟩ :: after := by
      rw [setPhase, hq]
      exact modify_split _ _ after before
    refine ⟨before, _, after, hq, rfl, rfl, ?_⟩
    split at h
    · rw [← Except.ok.inj h]
      exact hq'
    · rw [← Except.ok.inj h]
      exact hq'

namespace DecodeThreads

variable {n : ℕ} {buffers : List ℕ} {m m' : DecodeThreads d}

theorem Sound.decode {i : ℕ} {manager : DecodeManager d} (h : Sound n buffers 0 m)
    (hstep : m.toDecodeManager.step (.decode i) = .ok manager) :
    Sound n buffers 0 { m with toDecodeManager := manager } := by
  obtain ⟨before, e, after, hq, -, hphase, hq'⟩ := DecodeManager.decode_ok hstep
  have hactive : e.active = true := by simp [QueueEntry.active, hphase]
  have htake : takeable [] ∅ manager.workQueue = takeable [] ∅ m.workQueue := by
    rw [hq, hq']
    exact takeable_active hactive rfl before
  have hbusy : manager.workQueue.countP (·.active) = m.busy := by
    have hcount := countP_replace .decoded e before after
    rw [hactive] at hcount
    rw [busy, hq, hq']
    exact Nat.add_right_cancel hcount
  have hlength : manager.workQueue.length = m.workQueue.length := by
    rw [hq, hq', List.length_append, List.length_append]
    rfl
  refine ⟨?_, h.paired.trans hlength.symm, h.circulate, h.front, h.fresh, fun hasleep => ?_, ?_⟩
  · rw [← h.workers, ← hbusy]
    rfl
  · refine (h.waiting hasleep).imp id fun _ hempty => ?_
    rw [hq'] at hempty
    exact absurd hempty (by simp)
  · exact h.awakens.imp htake.trans_le id

/-- The worker that gives back its entry is not counted until it looks for the next. -/
theorem Sound.giveBack {i b : ℕ} {e : QueueEntry} (h : Sound n buffers 0 m)
    (hentry : m.workQueue[i]? = some e) (he : e.active = true) (hheld : m.held[i]? = some b) :
    Sound n buffers 1 (m.giveBack i b).wakeOthers := by
  obtain ⟨before, after, hq, hi⟩ := exists_split hentry
  obtain ⟨first, last, hheld', hi'⟩ := exists_split hheld
  have hworkers := h.workers
  have hbusy : (m.giveBack i b).busy + 1 = m.busy := by
    rw [busy, busy, DecodeThreads.giveBack, hq, ← hi, eraseIdx_split, List.countP_append,
      List.countP_append, List.countP_cons, he]
    rfl
  have hgiven : ∀ awake sleeping, awake + sleeping = m.awake + m.sleeping →
      (takeable [] ∅ (m.giveBack i b).workQueue ≤ awake + 1 ∨ sleeping = 0) →
      Sound n buffers 1 { m.giveBack i b with awake := awake, sleeping := sleeping } := by
    intro awake sleeping hsum hawakens
    refine ⟨?_, ?_, ?_, ?_, ?_, ?_, hawakens⟩
    · show awake + sleeping + (m.giveBack i b).busy + 1 = n
      omega
    · show (m.held.eraseIdx i).length = (m.workQueue.eraseIdx i).length
      rw [List.length_eraseIdx, List.length_eraseIdx, h.paired]
    · refine List.Perm.trans ?_ h.circulate
      show (m.freeBuffers ++ [b] ++ m.held.eraseIdx i).Perm (m.freeBuffers ++ m.held)
      rw [hheld', ← hi', eraseIdx_split, List.append_assoc, List.singleton_append]
      exact List.perm_middle.symm.append_left _
    · intro b' hb'
      have hhead := h.front b' (by simpa [DecodeThreads.giveBack] using hb')
      show (m.freeBuffers ++ [b]).head? = some b'
      rw [List.head?_append, hhead]
      rfl
    · intro e' he'
      exact h.fresh e' (by simpa [DecodeThreads.giveBack] using he')
    · intro hasleep
      simp [DecodeThreads.giveBack] at hasleep
  unfold DecodeThreads.wakeOthers
  split
  case isTrue => exact hgiven (m.awake + m.sleeping) 0 rfl (.inr rfl)
  case isFalse hfew =>
    have hlength := @takeable_le_length (m.giveBack i b).workQueue [] ∅
    exact hgiven m.awake m.sleeping rfl (.inl (by omega))

theorem Sound.step {e : ThreadEvent} (h : Sound n buffers 0 m) (hstep : m.step e = .ok m') :
    Sound n buffers 0 m' := by
  cases e with
  | decodeRect hd =>
    simp only [DecodeThreads.step] at hstep
    split at hstep
    · obtain ⟨-, -, rfl⟩ := of_map_ok hstep
      exact h.takeBuffer hd
    · cases hstep
  | flush =>
    simp only [DecodeThreads.step] at hstep
    split at hstep
    · exact h.waitEmpty hstep
    · cases hstep
  | goOn =>
    simp only [DecodeThreads.step] at hstep
    split at hstep
    case h_1 hd _ =>
      obtain rfl := Except.ok.inj hstep
      exact h.takeBuffer hd
    case h_2 hmain => exact h.read hmain hstep
    case h_3 hmain =>
      obtain rfl := Except.ok.inj hstep
      exact h.push hmain
    case h_4 => exact h.waitEmpty hstep
    case h_5 => cases hstep
  | findEntry =>
    simp only [DecodeThreads.step] at hstep
    split at hstep
    case isTrue => cases hstep
    case isFalse hawake =>
      obtain rfl := Except.ok.inj hstep
      have hworkers := h.workers
      refine Sound.look ⟨?_, h.paired, h.circulate, h.front, h.fresh, h.waiting, ?_⟩
      · show m.awake - 1 + m.sleeping + m.busy + 1 = n
        omega
      · refine h.awakens.imp (fun hle => ?_) id
        show takeable [] ∅ m.workQueue ≤ m.awake - 1 + 1
        omega
  | decode i =>
    obtain ⟨manager, hmanager, rfl⟩ := of_map_ok hstep
    exact h.decode hmanager
  | remove i =>
    simp only [DecodeThreads.step] at hstep
    split at hstep
    case h_1 hentry hheld =>
      obtain rfl := Except.ok.inj hstep
      exact (h.giveBack hentry rfl hheld).look
    case h_2 => cases hstep
  | stirMain =>
    obtain rfl := Except.ok.inj hstep
    exact h.setMain (by simpa using h.front) (by simpa using h.fresh) (by simp)
  | stirWorker =>
    simp only [DecodeThreads.step] at hstep
    split at hstep
    case isTrue => cases hstep
    case isFalse hsleeping =>
      obtain rfl := Except.ok.inj hstep
      have hworkers := h.workers
      have hawakens := h.awakens
      refine ⟨?_, h.paired, h.circulate, h.front, h.fresh, h.waiting, ?_⟩
      · show m.awake + 1 + (m.sleeping - 1) + m.busy + 0 = n
        omega
      · show takeable [] ∅ m.workQueue ≤ m.awake + 1 + 0 ∨ m.sleeping - 1 = 0
        omega

end DecodeThreads

end KasmVNC.Rfb
