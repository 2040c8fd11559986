import KasmVNC.Rfb.DecodeThreads

/-!
# Runs of the decoding threads

The main thread waits for a buffer or for the queue to be empty. However the workers take
turns, they come to an end of what there is to do, and then the wait is over
(`waits_end`). What has been decoded by then is what one thread would have decoded
(`threads_sequential`): under the mutex, the threads do nothing but what the queue allows.
-/

namespace KasmVNC.Rfb

open KasmVNC.Lib

variable {width : PixelWidth} {d : DecodeParams width}

namespace DecodeThreads

variable {n cpuCount : ℕ} {buffers : List ℕ} {m m' : DecodeThreads d} {s : Decoding d}
  {events : List ThreadEvent}

theorem sound_run (hrun : tryRun step (create s cpuCount) events = .ok m) :
    Sound (min cpuCount 4) (List.range (2 * min cpuCount 4)) 0 m := by
  exact tryRun_keeps (fun m e m' h _ hstep => h.step hstep) (sound_create s cpuCount)
    (tryGuarded_of_forall (fun _ _ => trivial) events _) hrun

/-- **Buffers and workers.** Along every run of the threads, no worker sleeps while there is an
entry for it; no buffer is lost or given to two; and the one that the main thread reads into
is still the front one, and no entry has it. -/
theorem buffers_and_workers (hrun : tryRun step (create s cpuCount) events = .ok m) :
    (takeable [] ∅ m.workQueue ≤ m.awake ∨ m.sleeping = 0) ∧
      (m.freeBuffers ++ m.held).Perm (List.range (2 * min cpuCount 4)) ∧
      m.held.length = m.workQueue.length ∧
      ∀ b ∈ m.main.bufferStream, m.freeBuffers.head? = some b ∧ b ∉ m.held := by
  have h := sound_run hrun
  refine ⟨h.awakens, h.circulate, h.paired, fun b hb => ⟨h.front b hb, fun hheld => ?_⟩⟩
  have hnodup := h.circulate.nodup_iff.mpr List.nodup_range
  exact List.disjoint_of_nodup_append hnodup (List.mem_of_mem_head? (h.front b hb)) hheld

/-! ## Waits end -/

/-- The steps that an entry still takes. One that is gone may wake `n` workers. -/
def toDo (n : ℕ) : EntryPhase → ℕ
  | .waiting => n + 2
  | .decoding => n + 1
  | .decoded => n

/-- The steps that the entries of a queue still take. -/
def queued (n : ℕ) (queue : List QueueEntry) : ℕ := (queue.map (toDo n ·.phase)).sum

/-- A bound for the steps of the workers. -/
def work (n : ℕ) (m : DecodeThreads d) : ℕ := m.awake + queued n m.workQueue

theorem queued_split (n : ℕ) (e : QueueEntry) (before after : List QueueEntry) :
    queued n (before ++ e :: after) = toDo n e.phase + queued n (before ++ after) := by
  simp only [queued, List.map_append, List.map_cons, List.sum_append, List.sum_cons]
  omega

theorem work_look (n : ℕ) (m : DecodeThreads d) : work n m.look ≤ work n m := by
  unfold look
  cases hfind : Rfb.findEntry m.workQueue with
  | none => exact le_rfl
  | some i =>
    obtain ⟨before, e, after, hq, rfl, hidle, -⟩ := findEntry_eq_some hfind
    have hphase : e.phase = .waiting := by simpa [QueueEntry.active] using hidle
    have hq' : (m.setPhase before.length .decoding).workQueue =
        before ++ { e with phase := .decoding } :: after := by
      rw [DecodeManager.setPhase, hq]
      exact modify_split _ e after before
    show m.awake + queued n (m.setPhase before.length .decoding).workQueue ≤ _
    rw [work, hq', hq, queued_split, queued_split, hphase]
    simp only [toDo]
    omega

/-- Whatever a worker does, there is less to do. -/
theorem Sound.work_step {e : ThreadEvent} (h : Sound n buffers 0 m) (he : e.ofWorker)
    (hstep : m.step e = .ok m') : work n m' < work n m := by
  cases e with
  | findEntry =>
    simp only [DecodeThreads.step] at hstep
    split at hstep
    case isTrue => cases hstep
    case isFalse hawake =>
      obtain rfl := Except.ok.inj hstep
      refine (work_look n _).trans_lt ?_
      show m.awake - 1 + queued n m.workQueue < m.awake + queued n m.workQueue
      omega
  | decode i =>
    obtain ⟨manager, hmanager, rfl⟩ := of_map_ok hstep
    obtain ⟨before, e, after, hq, -, hphase, hq'⟩ := DecodeManager.decode_ok hmanager
    show m.awake + queued n manager.workQueue < _
    rw [work, hq', hq, queued_split, queued_split, hphase]
    simp only [toDo]
    omega
  | remove i =>
    simp only [DecodeThreads.step] at hstep
    split at hstep
    case h_2 => cases hstep
    case h_1 rect encoding bytes b hentry hheld =>
      obtain rfl := Except.ok.inj hstep
      obtain ⟨before, after, hq, rfl⟩ := exists_split hentry
      have hworkers := h.workers
      have hbusy : 0 < m.busy := by
        rw [busy, List.countP_pos_iff]
        exact ⟨_, by rw [hq]; exact List.mem_append_right before List.mem_cons_self, rfl⟩
      refine (work_look n _).trans_lt ?_
      have hwoken : work n (m.giveBack before.length b).wakeOthers ≤
          m.awake + m.sleeping + queued n (m.giveBack before.length b).workQueue := by
        unfold wakeOthers
        split
        · exact le_rfl
        · show m.awake + _ ≤ _
          omega
      refine hwoken.trans_lt ?_
      show m.awake + m.sleeping + queued n (m.workQueue.eraseIdx before.length) < _
      rw [work, hq, eraseIdx_split, queued_split]
      simp only [toDo]
      omega
  | decodeRect _ | flush | goOn | stirMain | stirWorker => exact he.elim

/-- While the queue is not empty, some worker gets on. -/
theorem Sound.exists_step (hn : 0 < n) (h : Sound n buffers 0 m) (hne : m.workQueue ≠ []) :
    ∃ e, ThreadEvent.ofWorker e ∧ ∃ m', m.step e = .ok m' := by
  by_cases hidle : m.busy = 0
  · have hpos := takeable_pos hne hidle
    have hworkers := h.workers
    have hawakens := h.awakens
    exact ⟨.findEntry, trivial, _, if_neg (by omega)⟩
  · obtain ⟨e, he, hactive⟩ := List.countP_pos_iff.mp (Nat.pos_of_ne_zero hidle)
    obtain ⟨i, hi, hentry⟩ := List.getElem_of_mem he
    have hentry : m.workQueue[i]? = some e := hentry ▸ List.getElem?_eq_getElem hi
    obtain ⟨phase, rect, encoding, bytes⟩ := e
    cases phase with
    | waiting => cases hactive
    | decoding =>
      refine ⟨.decode i, trivial, ?_⟩
      simp only [DecodeThreads.step, DecodeManager.step, hentry]
      split
      · exact ⟨_, rfl⟩
      · exact ⟨_, rfl⟩
    | decoded =>
      have hi : i < m.held.length := h.paired ▸ hi
      have hheld : m.held[i]? = some m.held[i] := List.getElem?_eq_getElem hi
      refine ⟨.remove i, trivial, ?_⟩
      simp only [DecodeThreads.step, hentry, hheld]
      exact ⟨_, rfl⟩

theorem Sound.work_le (h : Sound n buffers 0 m) : work n m ≤ n + buffers.length * (n + 2) := by
  have hworkers := h.workers
  have hlength := h.circulate.length_eq
  rw [List.length_append, h.paired] at hlength
  have hsum : queued n m.workQueue ≤ m.workQueue.length * (n + 2) := by
    induction m.workQueue with
    | nil => exact Nat.zero_le _
    | cons e queue ih =>
      have he : toDo n e.phase ≤ n + 2 := by cases e.phase <;> simp only [toDo] <;> omega
      have hcons := queued_split n e [] queue
      rw [List.nil_append, List.nil_append] at hcons
      rw [hcons, List.length_cons, Nat.add_one_mul]
      omega
  have hmul : m.workQueue.length * (n + 2) ≤ buffers.length * (n + 2) :=
    Nat.mul_le_mul_right _ (by omega)
  rw [work]
  omega

/-- **Waits end.** Wherever a run has got to, the workers are done after at most 52 steps of
their own, in whatever order; when none of them can do anything, the queue is empty and the
main thread does not sleep. -/
theorem waits_end (hcpus : 1 < cpuCount)
    (hrun : tryRun step (create s cpuCount) events = .ok m) {es : List ThreadEvent}
    (hes : ∀ e ∈ es, ThreadEvent.ofWorker e) (hrun' : tryRun step m es = .ok m') :
    es.length ≤ 52 ∧ ((∀ e, ThreadEvent.ofWorker e → ∀ t, m'.step e ≠ .ok t) →
      m'.workQueue = [] ∧ m'.main.asleep = false) := by
  have h := sound_run hrun
  obtain ⟨h', hlength⟩ := tryRun_bounded
    (fun _ _ _ h he hstep => ⟨h.step hstep, h.work_step he hstep⟩) h hes hrun'
  constructor
  · have hwork := h.work_le
    have hfew : min cpuCount 4 ≤ 4 := Nat.min_le_right ..
    have hmul : (2 * min cpuCount 4) * (min cpuCount 4 + 2) ≤ 2 * 4 * (4 + 2) :=
      Nat.mul_le_mul (by omega) (by omega)
    rw [List.length_range] at hwork
    omega
  · intro hstuck
    have hempty : m'.workQueue = [] := by
      by_contra hne
      obtain ⟨e, he, t, ht⟩ := h'.exists_step (by omega) hne
      exact hstuck e he t ht
    refine ⟨hempty, Bool.eq_false_iff.mpr fun hasleep => ?_⟩
    have hheld : m'.held = [] := by
      rw [← List.length_eq_zero_iff, h'.paired, hempty]
      rfl
    rcases h'.waiting hasleep with hfree | hne
    · have hlength := h'.circulate.length_eq
      rw [hfree, hheld, List.length_range] at hlength
      simp only [List.append_nil, List.length_nil] at hlength
      omega
    · exact hne hempty

end DecodeThreads

/-! ## The outcome -/

theorem findEntryLoop_append {more rest : List QueueEntry} {i : ℕ} : ∀ {before lockedRegion},
    findEntryLoop before lockedRegion rest = some i →
      findEntryLoop before lockedRegion (rest ++ more) = some i := by
  induction rest with
  | nil => exact fun {_ _} h => nomatch h
  | cons e rest ih =>
    intro before lockedRegion h
    rw [List.cons_append, findEntryLoop]
    rw [findEntryLoop] at h
    split
    case isTrue htake => rwa [if_pos htake] at h
    case isFalse hno =>
      rw [if_neg hno] at h
      exact ih h

/-- An entry at the end changes nothing for those before it. -/
theorem findEntry_append {queue more : List QueueEntry} {i : ℕ} (h : findEntry queue = some i) :
    findEntry (queue ++ more) = some i := by
  cases queue with
  | nil => cases h
  | cons front rest =>
    rw [List.cons_append, findEntry]
    rw [findEntry] at h
    split
    case isTrue hfront => rwa [if_pos hfront] at h
    case isFalse hno =>
      rw [if_neg hno] at h
      exact findEntryLoop_append h

namespace DecodeManager

variable {m m' : DecodeManager d} {final : Decoding d} {rest : List RectHeader} {e : Event}

/-- With entries that nobody has got to yet. -/
def withMore (m : DecodeManager d) (more : List QueueEntry) : DecodeManager d :=
  { m with workQueue := m.workQueue ++ more }

def Event.ofWorker : Event → Prop
  | .findEntry | .decode _ | .remove _ => True
  | _ => False

theorem withMore_getElem? {i : ℕ} {entry : QueueEntry} (more : List QueueEntry)
    (h : m.workQueue[i]? = some entry) : (m.withMore more).workQueue[i]? = some entry :=
  (List.getElem?_append_left (List.getElem?_eq_some_iff.mp h).1).trans h

theorem withMore_setPhase {i : ℕ} {entry : QueueEntry} (more : List QueueEntry)
    (h : m.workQueue[i]? = some entry) (phase : EntryPhase) :
    (m.withMore more).setPhase i phase = (m.setPhase i phase).withMore more := by
  obtain ⟨before, after, hq, rfl⟩ := exists_split h
  simp only [withMore, setPhase, hq, List.append_assoc, List.cons_append, modify_split]

/-- The entries behind do not matter to what a worker does. -/
theorem step_withMore (more : List QueueEntry) (he : e.ofWorker) (h : m.step e = .ok m') :
    (m.withMore more).step e = .ok (m'.withMore more) := by
  cases e with
  | decodeRect _ | flush => exact he.elim
  | findEntry =>
    rw [step] at h
    split at h
    case h_1 => cases h
    case h_2 i hfind =>
      obtain rfl := Except.ok.inj h
      obtain ⟨before, entry, after, hq, rfl, -⟩ := findEntry_eq_some hfind
      have hentry : m.workQueue[before.length]? = some entry := by simp [hq]
      rw [step, withMore, findEntry_append hfind]
      exact congrArg _ (withMore_setPhase more hentry .decoding)
  | decode i =>
    rw [step] at h
    split at h
    case h_2 => cases h
    case h_1 hentry =>
      simp only [step, withMore_getElem? more hentry, withMore_setPhase more hentry]
      split at h
      case h_1 hdecode =>
        obtain rfl := Except.ok.inj h
        rw [withMore, hdecode]
        rfl
      case h_2 hdecode =>
        obtain rfl := Except.ok.inj h
        rw [withMore, hdecode]
        rfl
  | remove i =>
    rw [step] at h
    split at h
    case h_2 => cases h
    case h_1 hentry =>
      obtain rfl := Except.ok.inj h
      obtain ⟨before, after, hq, rfl⟩ := exists_split hentry
      simp only [step, withMore_getElem? more hentry]
      simp only [withMore, hq, List.append_assoc, List.cons_append, eraseIdx_split]

theorem sound_head {hd : RectHeader} (h : QueueSound final (hd :: rest) m) :
    checkRect d hd.rect = .ok () ∧ ∃ e input, readEntry d hd m.input = .ok (e, input) := by
  obtain ⟨_, -, hrun, -⟩ := h.sequential
  obtain ⟨s', hs', -⟩ := of_bind_ok hrun
  obtain ⟨e, hcheck, hread, -⟩ := decodeRect_ok hs'
  exact ⟨hcheck, e, s'.input, hread⟩

/-- The invariant allows for entries that are still to be added. -/
theorem worker_sound {more : List QueueEntry} (he : e.ofWorker)
    (h : QueueSound final rest (m.withMore more)) (hstep : m.step e = .ok m') :
    QueueSound final rest (m'.withMore more) := by
  have hmore := step_withMore more he hstep
  have hsound : (m.withMore more).step e = .error .waits ∨
      ∃ m', (m.withMore more).step e = .ok m' ∧ QueueSound final rest m' := by
    cases e with
    | findEntry => exact step_findEntry h
    | decode i => exact step_decode h
    | remove i => exact step_remove h
    | decodeRect _ | flush => exact he.elim
  rw [hmore] at hsound
  rcases hsound with hwait | ⟨m'', hm'', h''⟩
  · cases hwait
  · rwa [Except.ok.inj hm'']

end DecodeManager

namespace DecodeThreads

variable {cpuCount : ℕ} {m m' : DecodeThreads d} {s final : Decoding d} {rest : List RectHeader}
  {events : List ThreadEvent}

/-- The rectangles of a run. -/
def calls : List ThreadEvent → List RectHeader
  | [] => []
  | .decodeRect hd :: es => hd :: calls es
  | _ :: es => calls es

/-- The invariant of the queue, with what the main thread has in hand. -/
def InStep (final : Decoding d) (rest : List RectHeader) (m : DecodeThreads d) : Prop :=
  QueueSound final (m.main.request ++ rest) (m.toDecodeManager.withMore m.main.entry)

theorem InStep.look (h : InStep final rest m) : InStep final rest m.look := by
  unfold DecodeThreads.look
  cases hfind : Rfb.findEntry m.workQueue with
  | none => exact h
  | some i =>
    refine DecodeManager.worker_sound (e := .findEntry) trivial h ?_
    rw [DecodeManager.step, hfind]

theorem InStep.giveBack {i b : ℕ} {rect : Rect} {encoding : RectEncoding} {bytes : List Byte}
    (h : InStep final rest m) (hentry : m.workQueue[i]? = some ⟨.decoded, rect, encoding, bytes⟩) :
    InStep final rest (m.giveBack i b).wakeOthers := by
  have hgiven : InStep final rest (m.giveBack i b) := by
    unfold InStep DecodeThreads.giveBack
    rw [MainThread.woken_request, MainThread.woken_entry]
    refine DecodeManager.worker_sound (e := .remove i) trivial h ?_
    simp only [DecodeManager.step, hentry]
  unfold DecodeThreads.wakeOthers
  split
  · exact hgiven
  · exact hgiven

/-- The main thread takes no notice of the workers but for an exception, and there is none. -/
theorem InStep.waitEmpty (h : InStep final rest m) (hrequest : m.main.request = [])
    (hentry : m.main.entry = []) : ∃ m', m.waitEmpty = .ok m' ∧ InStep final rest m' := by
  have hexception : m.threadException = none := h.exception
  unfold InStep at h
  rw [hrequest, hentry] at h
  unfold DecodeThreads.waitEmpty
  split
  · refine ⟨{ m with main := .idle }, ?_, h⟩
    rw [DecodeManager.throwThreadException, hexception]
    rfl
  · exact ⟨_, rfl, h⟩

theorem InStep.takeBuffer {hd : RectHeader}
    (h : InStep final rest { m with main := .buffer hd false }) :
    InStep final rest (m.takeBuffer hd) := by
  unfold DecodeThreads.takeBuffer
  split
  · exact h
  · exact h

theorem InStep.read {hd : RectHeader} {b : ℕ} (h : InStep final rest m)
    (hmain : m.main = .reading hd b) : ∃ m', m.read hd b = .ok m' ∧ InStep final rest m' := by
  have hexception : m.threadException = none := h.exception
  have hno : m.throwThreadException = .ok () := by
    rw [DecodeManager.throwThreadException, hexception]
  unfold InStep at h
  rw [hmain] at h
  obtain ⟨hcheck, e, input, hread⟩ := DecodeManager.sound_head h
  obtain ⟨manager, hmanager, h'⟩ := DecodeManager.step_decodeRect h
  have hread' : readEntry d hd m.input = .ok (e, input) := hread
  have hqueued : (m.toDecodeManager.withMore (MainThread.reading hd b).entry).decodeRect hd =
      .ok { m.toDecodeManager with input := input, workQueue := m.workQueue ++ [] ++ [e] } :=
    (bind_ok hcheck _).trans ((bind_ok hno _).trans (bind_ok hread _))
  refine ⟨{ m with input := input, main := .queueing e b }, ?_, ?_⟩
  · rw [DecodeThreads.read, hno, hread']
    rfl
  · change (DecodeManager.decodeRect _ hd).mapError _ = .ok manager at hmanager
    rw [hqueued, List.append_nil] at hmanager
    rw [← Except.ok.inj hmanager] at h'
    exact h'

theorem InStep.push {e : QueueEntry} {b : ℕ} (h : InStep final rest m)
    (hmain : m.main = .queueing e b) : InStep final rest (m.push e b) := by
  unfold InStep at h
  rw [hmain] at h
  unfold InStep DecodeManager.withMore
  rw [show (m.push e b).main.entry = [] from rfl, List.append_nil]
  exact h

/-- As long as no rectangle is left out, no step throws. -/
theorem InStep.step {e : ThreadEvent} {es : List ThreadEvent}
    (h : InStep final (calls (e :: es)) m) :
    m.step e = .error .waits ∨ ∃ m', m.step e = .ok m' ∧ InStep final (calls es) m' := by
  cases e with
  | decodeRect hd =>
    simp only [DecodeThreads.step]
    split
    case h_1 hmain =>
      right
      unfold InStep at h
      rw [hmain] at h
      obtain ⟨hcheck, -⟩ := DecodeManager.sound_head h
      rw [hcheck]
      exact ⟨_, rfl, InStep.takeBuffer h⟩
    case h_2 => exact .inl rfl
  | flush =>
    simp only [DecodeThreads.step]
    split
    case h_1 hmain => exact .inr (h.waitEmpty (by rw [hmain]; rfl) (by rw [hmain]; rfl))
    case h_2 => exact .inl rfl
  | goOn =>
    simp only [DecodeThreads.step]
    split
    case h_1 hd hmain =>
      right
      unfold InStep at h
      rw [hmain] at h
      exact ⟨_, rfl, InStep.takeBuffer h⟩
    case h_2 hmain => exact .inr (h.read hmain)
    case h_3 hmain => exact .inr ⟨_, rfl, h.push hmain⟩
    case h_4 hmain => exact .inr (h.waitEmpty (by rw [hmain]; rfl) (by rw [hmain]; rfl))
    case h_5 => exact .inl rfl
  | findEntry =>
    simp only [DecodeThreads.step]
    split
    · exact .inl rfl
    · exact .inr ⟨_, rfl, InStep.look h⟩
  | decode i =>
    simp only [DecodeThreads.step]
    cases hstep : m.toDecodeManager.step (.decode i) with
    | ok manager =>
      exact .inr ⟨_, rfl, DecodeManager.worker_sound (e := .decode i) trivial h hstep⟩
    | error stop =>
      left
      rw [DecodeManager.step] at hstep
      split at hstep
      · split at hstep <;> cases hstep
      · cases hstep
        rfl
  | remove i =>
    simp only [DecodeThreads.step]
    split
    case h_1 hentry _ => exact .inr ⟨_, rfl, (h.giveBack hentry).look⟩
    case h_2 => exact .inl rfl
  | stirMain =>
    refine .inr ⟨_, rfl, ?_⟩
    unfold InStep
    rw [MainThread.woken_request, MainThread.woken_entry]
    exact h
  | stirWorker =>
    simp only [DecodeThreads.step]
    split
    · exact .inl rfl
    · exact .inr ⟨_, rfl, h⟩

theorem InStep.run {es : List ThreadEvent} : ∀ {m : DecodeThreads d}, InStep final (calls es) m →
    (∀ msg, tryRun DecodeThreads.step m es ≠ .error (.throws msg)) ∧
      ∀ m', tryRun DecodeThreads.step m es = .ok m' → InStep final [] m' := by
  induction es with
  | nil =>
    intro m h
    refine ⟨fun msg hthrow => ?_, fun m' hm' => ?_⟩
    · cases hthrow
    · obtain rfl := Except.ok.inj hm'
      exact h
  | cons e es ih =>
    intro m h
    rw [tryRun]
    rcases h.step with hwait | ⟨m', hm', h'⟩
    · rw [bind_error hwait]
      refine ⟨fun msg hthrow => ?_, fun m' hm' => ?_⟩
      · cases hthrow
      · cases hm'
    · rw [bind_ok hm']
      exact ih h'

/-- **The threads decode as one would.** Without the two kinds of rectangles, if those of a run
can be decoded one by one, then however the threads take turns, and whenever they wake, nothing
is thrown, no two workers touch the same cell at a time, and once the main thread is back from
waiting for the queue to be empty, all is as if it had decoded them itself. -/
theorem threads_sequential (events : List ThreadEvent)
    (hrun : tryRun Decoding.decodeRect s (calls events) = .ok final)
    (hregular : TryGuarded Decoding.decodeRect RegularRequest s (calls events)) :
    (∀ msg, tryRun step (create s cpuCount) events ≠ .error (.throws msg)) ∧
      ∀ m, tryRun step (create s cpuCount) events = .ok m →
        m.threadException = none ∧ m.NoRace ∧
          (m.main = .idle → m.workQueue = [] → m.toDecoding = final) := by
  have hstart : InStep final (calls events) (create s cpuCount) :=
    DecodeManager.start_sound hrun hregular
  obtain ⟨hthrow, hsound⟩ := InStep.run hstart
  refine ⟨hthrow, fun m hm => ?_⟩
  have h := hsound m hm
  refine ⟨h.exception, ?_, fun hmain hempty => ?_⟩
  · exact (List.pairwise_append.mp (DecodeManager.noRace_of_sound h)).1
  · unfold InStep at h
    rw [hmain] at h
    have hnone : (m.toDecodeManager.withMore []).workQueue = [] := by
      rw [DecodeManager.withMore, hempty]
      rfl
    exact @DecodeManager.eq_final_of_sound _ d final (m.toDecodeManager.withMore []) h hnone

/-! ### Two rectangles for two workers -/

def twoPixels : Decoding (rowOfPixels .stored 2) := blackRow [1, 2] 2

/-- Both rectangles are queued before the main thread waits, and the second one is decoded
first. -/
def bothQueued : List ThreadEvent :=
  [.findEntry, .decodeRect ⟨0, 0, 1, 1, .raw⟩, .goOn, .goOn, .findEntry,
    .decodeRect ⟨1, 0, 1, 1, .raw⟩, .goOn, .goOn, .flush, .findEntry, .decode 1, .decode 0]

theorem buffers_and_workers_two :
    ∃ m, tryRun step (create twoPixels 2) (bothQueued ++ [.remove 0]) = .ok m ∧
      (takeable [] ∅ m.workQueue ≤ m.awake ∨ m.sleeping = 0) := by
  obtain ⟨m, hm⟩ := exists_ok_of_isSome
    (x := tryRun step (create twoPixels 2) (bothQueued ++ [.remove 0])) (by decide +kernel)
  exact ⟨m, hm, (buffers_and_workers hm).1⟩

/-- Without an entry a worker that sleeps can do nothing. -/
theorem step_ne_ok {m t : DecodeThreads d} (hawake : m.awake = 0) (hempty : m.workQueue = [])
    {e : ThreadEvent} (he : e.ofWorker) : m.step e ≠ .ok t := by
  intro hstep
  cases e with
  | findEntry =>
    rw [step, if_pos hawake] at hstep
    cases hstep
  | decode i =>
    rw [step, DecodeManager.step, hempty] at hstep
    cases hstep
  | remove i =>
    rw [step, hempty] at hstep
    cases hstep
  | _ => exact he

/-- When both rectangles are decoded and removed, the two workers sleep. -/
theorem waits_end_two :
    ∃ m m', tryRun step (create twoPixels 2) bothQueued = .ok m ∧
      tryRun step m [.remove 0, .remove 0] = .ok m' ∧
        (∀ e, ThreadEvent.ofWorker e → ∀ t, m'.step e ≠ .ok t) ∧
          m'.workQueue = [] ∧ m'.main.asleep = false := by
  have hend : (tryRun step (create twoPixels 2) (bothQueued ++ [.remove 0, .remove 0])).toOption.map
      (fun m => (m.awake, m.workQueue.length)) = some (0, 0) := by decide +kernel
  obtain ⟨m', hall, hend⟩ := of_toOption_map hend
  obtain ⟨m, hm, hm'⟩ := of_tryRun_append hall
  obtain ⟨hawake, hlength⟩ := Prod.mk.inj hend
  have hstuck : ∀ e, ThreadEvent.ofWorker e → ∀ t, m'.step e ≠ .ok t :=
    fun e he t => step_ne_ok hawake (List.length_eq_zero_iff.mp hlength) he
  refine ⟨m, m', hm, hm', hstuck, (waits_end (by decide) hm (fun e he => ?_) hm').2 hstuck⟩
  rcases List.mem_cons.mp he with rfl | he
  · trivial
  · rw [List.mem_singleton.mp he]
    trivial

theorem threads_sequential_two :
    ∃ final, tryRun Decoding.decodeRect twoPixels
        [⟨0, 0, 1, 1, .raw⟩, ⟨1, 0, 1, 1, .raw⟩] = .ok final ∧
      ∀ m, tryRun step (create twoPixels 2) (bothQueued ++ [.remove 0, .remove 0, .goOn]) = .ok m →
        m.threadException = none ∧ m.NoRace ∧
          (m.main = .idle → m.workQueue = [] → m.toDecoding = final) := by
  obtain ⟨final, hfinal⟩ := exists_ok_of_isSome (x := tryRun Decoding.decodeRect twoPixels
    [⟨0, 0, 1, 1, .raw⟩, ⟨1, 0, 1, 1, .raw⟩]) (by decide +kernel)
  exact ⟨final, hfinal, (threads_sequential (bothQueued ++ [.remove 0, .remove 0, .goOn]) hfinal
    (by decide +kernel)).2⟩

end DecodeThreads

end KasmVNC.Rfb
