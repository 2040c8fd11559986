import KasmVNC.Rfb.DecoderFootprint
import KasmVNC.Rfb.TightRoundTrip

/-!
# Decoding in parallel

An entry that `findEntry` lets a worker take touches no cell of the entries before it, if
the region library and `doRectsConflict` have them right. Two kinds of rectangles they get
wrong: a box is kept in 16 bits, so an edge at 32768 or beyond comes out to the left of one
before it, and Tight rectangles in the ways of sending above JPEG use a stream that
`doRectsConflict` does not look for.

Without these, the entries still to be decoded could be decoded one after another, in any
state of the queue, to the same end: this is the invariant (`QueueSound`). A worker decodes an
entry that commutes with all that are before it (`perform_move_front`).
-/

namespace KasmVNC.Rfb

open KasmVNC.Lib Reader

variable {width : PixelWidth} {d : DecodeParams width}

/-! ## Boxes in 16 bits -/

/-- No edges on both sides of 32768. -/
def Rect.Straight (r : Rect) : Prop :=
  r.isEmpty = true ∨ (r.tl.1 < 32768 → r.br.1 < 32768) ∧ (r.tl.2 < 32768 → r.br.2 < 32768)

instance (r : Rect) : Decidable r.Straight := inferInstanceAs (Decidable (_ ∨ _))

theorem short_of_lt {v : ℤ} (hv : 0 ≤ v) (h : v < 32768) : short v = v := by
  rw [short, BitVec.toInt_ofInt, Int.bmod_def]
  omega

theorem short_of_le {v : ℤ} (h : 32768 ≤ v) (hv : v < 65536) : short v = v - 65536 := by
  rw [short, BitVec.toInt_ofInt, Int.bmod_def]
  omega

/-- A span on one side of 32768. -/
theorem short_mem {lo hi v : ℤ} (hlo : 0 ≤ lo) (hhi : hi < 65536) (hside : lo < 32768 → hi < 32768)
    (hv : lo ≤ v ∧ v < hi) : short lo ≤ short v ∧ short v < short hi := by
  by_cases h : lo < 32768
  · have hhi' := hside h
    rw [short_of_lt hlo h, short_of_lt (by omega) (by omega), short_of_lt (by omega) hhi']
    exact hv
  · rw [short_of_le (by omega) (by omega), short_of_le (by omega) (by omega),
      short_of_le (by omega) hhi]
    omega

theorem short_mem_reset {r : Rect} (hr : r.Straight) (hin : r.enclosedBy d.fbRect) {p : Point}
    (hp : p ∈ Region.ofRect r) : (short p.1, short p.2) ∈ Region.reset r := by
  have hmem := Region.mem_ofRect.mp hp
  have hne : r.isEmpty = false := by
    simp only [Rect.isEmpty, Bool.or_eq_false_iff, decide_eq_false_iff_not]
    omega
  have hside := hr.resolve_left (by simp [hne])
  have hx := d.fbWidth.isLt
  have hy := d.fbHeight.isLt
  simp only [Rect.enclosedBy, DecodeParams.fbRect] at hin
  rw [Region.reset, if_neg (by simp [hne]), Region.mem_ofRect]
  exact ⟨short_mem hin.1 (by omega) hside.1 hmem.1, short_mem hin.2.1 (by omega) hside.2 hmem.2⟩

/-! ## Entries -/

namespace QueueEntry

/-- Neither of the two kinds of rectangles. -/
structure Regular (e : QueueEntry) : Prop where
  straight : ∀ r ∈ e.areas, r.Straight
  known : e.encoding = .tight → e.bufferStream.headD 0 >>> 4 ≤ tightJpeg

instance (e : QueueEntry) : Decidable e.Regular :=
  decidable_of_iff ((∀ r ∈ e.areas, r.Straight) ∧
    (e.encoding = .tight → e.bufferStream.headD 0 >>> 4 ≤ tightJpeg))
    ⟨fun h => ⟨h.1, h.2⟩, fun h => ⟨h.straight, h.known⟩⟩

variable (d) in
/-- The entry lies in the framebuffer. -/
def Placed (e : QueueEntry) : Prop := ∀ r ∈ e.areas, r.enclosedBy d.fbRect

/-- What `findEntry` asks of an entry and one before it. -/
structure MayOvertake (e before : QueueEntry) : Prop where
  ordered : e.encoding.flags = .ordered → e.encoding ≠ before.encoding
  partially : e.encoding.flags = .partiallyOrdered → e.encoding = before.encoding →
    doRectsConflict e before = false
  region : Disjoint before.affectedRegion e.affectedRegion

theorem mem_affectedRegion {e : QueueEntry} {p : Point} :
    p ∈ e.affectedRegion ↔ ∃ r ∈ e.areas, p ∈ Region.reset r := by
  unfold affectedRegion
  induction e.areas with
  | nil => simp
  | cons r rs ih =>
    rw [List.foldr_cons, Finset.mem_union, ih]
    simp

/-- Streams that both rectangles use. -/
theorem doRectsConflict_of_mem {e before : QueueEntry} {i : Fin 4}
    (he : i ∈ tightStreams (e.bufferStream.headD 0))
    (hb : i ∈ tightStreams (before.bufferStream.headD 0)) : doRectsConflict e before = true := by
  have hlow : ∀ i : Fin 4, (0x0f : Byte).getLsbD i = true := by decide
  rw [doRectsConflict, decide_eq_true_iff]
  intro hzero
  have hbit := congrArg (fun b : Byte => b.getLsbD i) hzero
  simp only [BitVec.getLsbD_and, hlow, Bool.and_true] at hbit
  rw [he, hb] at hbit
  simp at hbit

/-- Entries that may overtake each other share nothing. -/
theorem MayOvertake.cells_disjoint {e before : QueueEntry} (h : MayOvertake e before)
    (he : e.Regular ∧ e.Placed d) (hb : before.Regular ∧ before.Placed d) :
    ∀ c ∈ before.cells, c ∉ e.cells := by
  intro c hcb hce
  cases c with
  | pixel p =>
    obtain ⟨r, hr, hp⟩ := hcb
    obtain ⟨r', hr', hp'⟩ := hce
    have hmem := mem_affectedRegion.mpr
      ⟨r, hr, short_mem_reset (hb.1.straight r hr) (hb.2 r hr) hp⟩
    have hmem' := mem_affectedRegion.mpr
      ⟨r', hr', short_mem_reset (he.1.straight r' hr') (he.2 r' hr') hp'⟩
    exact Finset.disjoint_left.mp h.region hmem hmem'
  | zlib z =>
    cases z with
    | zrle =>
      have hbe : before.encoding = .zrle := hcb
      have hee : e.encoding = .zrle := hce
      exact h.ordered (by rw [hee]; rfl) (hee.trans hbe.symm)
    | tight i =>
      obtain ⟨hbe, hbi⟩ : before.encoding = .tight ∧ _ := hcb
      obtain ⟨hee, hei⟩ : e.encoding = .tight ∧ _ := hce
      have hno := h.partially (by rw [hee]; rfl) (hee.trans hbe.symm)
      rw [doRectsConflict_of_mem hei hbi] at hno
      cases hno

variable (d) in
/-- Decoding as an action. -/
def act (e : QueueEntry) (s : DecodeState d) : Option (DecodeState d) := (e.decode d s).toOption

theorem act_eq_some {e : QueueEntry} {s t : DecodeState d} :
    e.act d s = some t ↔ e.decode d s = .ok t := by
  unfold act
  cases e.decode d s with
  | error msg => simp [Except.toOption]
  | ok t' => simp [Except.toOption]

theorem MayOvertake.comm {e before : QueueEntry} (h : MayOvertake e before)
    (he : e.Regular ∧ e.Placed d) (hb : before.Regular ∧ before.Placed d) (s : DecodeState d) :
    (before.act d s).bind (e.act d) = (e.act d s).bind (before.act d) :=
  ActsOn.comm DecodeState.get_injective (actsOn_decode d before hb.1.known)
    (actsOn_decode d e he.1.known) (h.cells_disjoint he hb) s

end QueueEntry

open QueueEntry

/-! ## Finding an entry -/

theorem mayTake_eq_true {before : List QueueEntry} {lockedRegion : Region} {e : QueueEntry}
    (hlocked : ∀ b ∈ before, b.affectedRegion ⊆ lockedRegion)
    (h : mayTake before lockedRegion e = true) :
    e.active = false ∧ ∀ b ∈ before, MayOvertake e b := by
  simp only [mayTake, Bool.and_eq_true, Bool.not_eq_true', Bool.and_eq_false_iff,
    decide_eq_true_iff, decide_eq_false_iff_not, List.any_eq_false] at h
  obtain ⟨⟨⟨hactive, hordered⟩, hpartially⟩, hregion⟩ := h
  refine ⟨hactive, fun b hb => ⟨fun hflags => ?_, fun hflags henc => ?_, ?_⟩⟩
  · exact hordered.resolve_left (fun hne => hne hflags) b hb
  · have hboth := hpartially.resolve_left (fun hne => hne hflags) b hb
    simpa [henc] using hboth
  · have hdisj : Disjoint lockedRegion e.affectedRegion :=
      Finset.disjoint_iff_inter_eq_empty.mpr hregion
    exact Finset.disjoint_of_subset_left (hlocked b hb) hdisj

theorem findEntryLoop_eq_some {rest : List QueueEntry} {i : ℕ} :
    ∀ {before : List QueueEntry} {lockedRegion : Region},
      (∀ b ∈ before, b.affectedRegion ⊆ lockedRegion) →
      findEntryLoop before lockedRegion rest = some i →
        ∃ skipped e after, rest = skipped ++ e :: after ∧ (before ++ skipped).length = i ∧
          e.active = false ∧ ∀ b ∈ before ++ skipped, MayOvertake e b := by
  induction rest with
  | nil => intro before lockedRegion _ h; cases h
  | cons e rest ih =>
    intro before lockedRegion hlocked h
    rw [findEntryLoop] at h
    split at h
    case isTrue htake =>
      obtain ⟨hactive, hbefore⟩ := mayTake_eq_true hlocked htake
      exact ⟨[], e, rest, rfl, by simpa using h, hactive, by simpa using hbefore⟩
    case isFalse =>
      have hlocked' : ∀ b ∈ before ++ [e],
          b.affectedRegion ⊆ lockedRegion ∪ e.affectedRegion := by
        intro b hb
        rcases List.mem_append.mp hb with hb | hb
        · exact (hlocked b hb).trans Finset.subset_union_left
        · obtain rfl := List.mem_singleton.mp hb
          exact Finset.subset_union_right
      obtain ⟨skipped, e', after, rfl, hi, hactive, hbefore⟩ := ih hlocked' h
      rw [List.append_assoc, List.singleton_append] at hi hbefore
      exact ⟨e :: skipped, e', after, rfl, hi, hactive, hbefore⟩

theorem findEntry_eq_some {queue : List QueueEntry} {i : ℕ} (h : findEntry queue = some i) :
    ∃ before e after, queue = before ++ e :: after ∧ before.length = i ∧ e.active = false ∧
      ∀ b ∈ before, MayOvertake e b := by
  cases queue with
  | nil => cases h
  | cons front rest =>
    rw [findEntry] at h
    split at h
    case isTrue hfront =>
      refine ⟨[], front, rest, rfl, Option.some.inj h, by simpa using hfront, ?_⟩
      exact fun b hb => nomatch hb
    case isFalse =>
      have hnone : ∀ b ∈ ([] : List QueueEntry), b.affectedRegion ⊆ (∅ : Region) :=
        fun b hb => nomatch hb
      obtain ⟨skipped, e, after, hq, hi, hrest⟩ := findEntryLoop_eq_some hnone h
      exact ⟨skipped, e, after, hq, hi, hrest⟩

/-! ## The invariant -/

/-- The entries that are still to be decoded. -/
def pending (queue : List QueueEntry) : List QueueEntry := queue.filter (·.phase ≠ .decoded)

/-- The rectangle that is read is of neither of the two kinds. -/
def RegularRequest (s : Decoding d) (hd : RectHeader) : Prop :=
  ∀ res ∈ (readEntry d hd s.input).toOption, res.1.Regular

instance (s : Decoding d) (hd : RectHeader) : Decidable (RegularRequest s hd) :=
  inferInstanceAs (Decidable (∀ res ∈ (readEntry d hd s.input).toOption, res.1.Regular))

theorem RegularRequest.regular {s : Decoding d} {hd : RectHeader} {e : QueueEntry}
    {input : List Byte} (h : RegularRequest s hd)
    (hread : readEntry d hd s.input = .ok (e, input)) : e.Regular :=
  h (e, input) (by rw [hread]; rfl)

/-- An entry that is taken may overtake those before it that are still to be decoded. -/
def Apart (before e : QueueEntry) : Prop :=
  e.active = true → before.phase ≠ .decoded → MayOvertake e before

/-- With the rest of the rectangles, the queue leads to the end of the sequential run. -/
structure QueueSound (final : Decoding d) (rest : List RectHeader) (m : DecodeManager d) :
    Prop where
  exception : m.threadException = none
  entries : ∀ e ∈ m.workQueue, e.Regular ∧ e.Placed d
  apart : m.workQueue.Pairwise Apart
  sequential : ∃ s, perform (act d) (pending m.workQueue) m.state = some s ∧
    tryRun Decoding.decodeRect ⟨m.input, s⟩ rest = .ok final ∧
      TryGuarded Decoding.decodeRect RegularRequest ⟨m.input, s⟩ rest

/-! ### Places in the queue -/

section Places

variable {α : Type*}

theorem exists_split {l : List α} {i : ℕ} {a : α} (h : l[i]? = some a) :
    ∃ before after, l = before ++ a :: after ∧ before.length = i := by
  obtain ⟨hi, rfl⟩ := List.getElem?_eq_some_iff.mp h
  refine ⟨l.take i, l.drop (i + 1), ?_, List.length_take_of_le hi.le⟩
  rw [List.getElem_cons_drop, List.take_append_drop]

theorem modify_split (f : α → α) (a : α) (after : List α) : ∀ before : List α,
    (before ++ a :: after).modify before.length f = before ++ f a :: after
  | [] => rfl
  | b :: before => congrArg (b :: ·) (modify_split f a after before)

theorem eraseIdx_split (a : α) (after : List α) : ∀ before : List α,
    (before ++ a :: after).eraseIdx before.length = before ++ after
  | [] => rfl
  | b :: before => congrArg (b :: ·) (eraseIdx_split a after before)

end Places

section Pending

variable {before after queue : List QueueEntry} {e : QueueEntry}

theorem pending_append : pending (before ++ after) = pending before ++ pending after :=
  List.filter_append ..

theorem pending_cons (h : e.phase ≠ .decoded) : pending (e :: queue) = e :: pending queue :=
  List.filter_cons_of_pos (by simpa using h)

theorem pending_cons_decoded (h : e.phase = .decoded) : pending (e :: queue) = pending queue :=
  List.filter_cons_of_neg (by simpa using h)

/-- Another phase for an entry that was not decoded before. -/
theorem apart_replace {phase : EntryPhase} (h : (before ++ e :: after).Pairwise Apart)
    (hold : e.phase ≠ .decoded) (hbefore : ∀ b ∈ before, Apart b { e with phase := phase }) :
    (before ++ { e with phase := phase } :: after).Pairwise Apart := by
  rw [List.pairwise_append, List.pairwise_cons] at h ⊢
  obtain ⟨hpre, ⟨hhead, htail⟩, hcross⟩ := h
  refine ⟨hpre, ⟨fun a ha hactive _ => ?_, htail⟩, fun b hb a ha => ?_⟩
  · obtain ⟨hordered, hpartially, hregion⟩ := hhead a ha hactive hold
    exact ⟨hordered, hpartially, hregion⟩
  · rcases List.mem_cons.mp ha with rfl | ha
    · exact hbefore b hb
    · exact hcross b hb a (List.mem_cons_of_mem e ha)

/-- The phase does not matter to where an entry lies. -/
theorem entries_replace {phase : EntryPhase}
    (h : ∀ a ∈ before ++ e :: after, a.Regular ∧ a.Placed d) :
    ∀ a ∈ before ++ { e with phase := phase } :: after, a.Regular ∧ a.Placed d := by
  intro a ha
  rcases List.mem_append.mp ha with ha | ha
  · exact h a (List.mem_append_left _ ha)
  rcases List.mem_cons.mp ha with rfl | ha
  · obtain ⟨⟨hstraight, hknown⟩, hplaced⟩ :=
      h e (List.mem_append_right before List.mem_cons_self)
    exact ⟨⟨hstraight, hknown⟩, hplaced⟩
  · exact h a (List.mem_append_right before (List.mem_cons_of_mem e ha))

end Pending

/-! ### Steps -/

theorem readEntry_ok {hd : RectHeader} {input input' : List Byte} {e : QueueEntry}
    (h : readEntry d hd input = .ok (e, input')) : e.phase = .waiting ∧ e.rect = hd.rect := by
  obtain ⟨res, -, hres⟩ := of_map_ok h
  cases hres
  exact ⟨rfl, rfl⟩

theorem checkRect_ok {r : Rect} (h : checkRect d r = .ok ()) :
    r.br.1 ≤ d.fbRect.br.1 ∧ r.br.2 ≤ d.fbRect.br.2 := by
  unfold checkRect at h
  split at h
  case isTrue => cases h
  case isFalse hin =>
    rw [not_or, not_lt, not_lt] at hin
    exact hin

/-- An entry that can be decoded lies in the framebuffer with its source. -/
theorem placed_of_decode {hd : RectHeader} {e : QueueEntry} {s t : DecodeState d}
    (hcheck : checkRect d hd.rect = .ok ()) (hrect : e.rect = hd.rect)
    (hdecode : e.decode d s = .ok t) : e.Placed d := by
  have hdest : e.rect.enclosedBy d.fbRect := by
    obtain ⟨hx, hy⟩ := checkRect_ok hcheck
    rw [hrect]
    exact ⟨Int.natCast_nonneg _, Int.natCast_nonneg _, hx, hy⟩
  intro r hr
  obtain ⟨phase, rect, encoding, bytes⟩ := e
  by_cases hcopy : encoding = .copyRect
  · subst hcopy
    obtain ⟨⟨f, st⟩, hres, -⟩ := of_decode_ok hdecode
    obtain ⟨src, hsrc, hcopied⟩ := copyRectDecode_ok hres
    simp only [areas, if_pos, hsrc, List.mem_cons, List.not_mem_nil, or_false] at hr
    rcases hr with rfl | rfl
    · exact hdest
    · have hin := (copyRect_enclosed hcopied).2
      rwa [neg_sub] at hin
  · simp only [areas, if_neg hcopy, List.mem_singleton] at hr
    rw [hr]
    exact hdest

theorem decodeRect_ok {s s' : Decoding d} {hd : RectHeader} (h : s.decodeRect hd = .ok s') :
    ∃ e, checkRect d hd.rect = .ok () ∧ readEntry d hd s.input = .ok (e, s'.input) ∧
      e.decode d s.state = .ok s'.state := by
  obtain ⟨⟨⟩, hcheck, h⟩ := of_bind_ok h
  obtain ⟨⟨e, input⟩, hread, h⟩ := of_bind_ok h
  obtain ⟨state, hdecode, hpure⟩ := of_bind_ok h
  cases hpure
  exact ⟨e, hcheck, hread, hdecode⟩

namespace DecodeManager

variable {final : Decoding d} {rest : List RectHeader} {m : DecodeManager d}

theorem step_decodeRect {hd : RectHeader} (h : QueueSound final (hd :: rest) m) :
    ∃ m', m.step (.decodeRect hd) = .ok m' ∧ QueueSound final rest m' := by
  obtain ⟨s, hpending, hrun, hguard⟩ := h.sequential
  obtain ⟨s', hs', hrest⟩ := of_bind_ok hrun
  obtain ⟨e, hcheck, hread, hdecode⟩ := decodeRect_ok hs'
  obtain ⟨hphase, hrect⟩ := readEntry_ok hread
  have hstep : m.decodeRect hd =
      .ok { m with input := s'.input, workQueue := m.workQueue ++ [e] } := by
    have hno : m.throwThreadException = .ok () := by
      rw [throwThreadException, h.exception]
    exact (bind_ok hcheck _).trans ((bind_ok hno _).trans (bind_ok hread _))
  refine ⟨{ m with input := s'.input, workQueue := m.workQueue ++ [e] }, ?_, ?_⟩
  · rw [step, hstep]
    rfl
  constructor
  · exact h.exception
  · intro a ha
    rcases List.mem_append.mp ha with ha | ha
    · exact h.entries a ha
    · obtain rfl := List.mem_singleton.mp ha
      exact ⟨hguard.1.regular hread, placed_of_decode hcheck hrect hdecode⟩
  · refine List.pairwise_append.mpr ⟨h.apart, List.pairwise_singleton _ _, fun b _ a ha => ?_⟩
    obtain rfl := List.mem_singleton.mp ha
    intro hactive
    rw [active, hphase] at hactive
    cases hactive
  · refine ⟨s'.state, ?_, hrest, hguard.2 s' hs'⟩
    have hlast : pending [e] = [e] := pending_cons (by rw [hphase]; exact nofun)
    rw [pending_append, perform_append, hpending, hlast, Option.bind_some, perform_cons,
      act_eq_some.mpr hdecode]
    rfl

theorem step_flush (h : QueueSound final rest m) :
    m.step .flush = .error .waits ∨ ∃ m', m.step .flush = .ok m' ∧ QueueSound final rest m' := by
  by_cases hempty : m.workQueue = []
  · right
    refine ⟨m, ?_, h⟩
    rw [step, if_pos hempty, throwThreadException, h.exception]
    rfl
  · left
    rw [step, if_neg hempty]

theorem step_findEntry (h : QueueSound final rest m) :
    m.step .findEntry = .error .waits ∨
      ∃ m', m.step .findEntry = .ok m' ∧ QueueSound final rest m' := by
  cases hfind : Rfb.findEntry m.workQueue with
  | none =>
    left
    rw [step, hfind]
  | some i =>
    right
    refine ⟨m.setPhase i .decoding, by rw [step, hfind], ?_⟩
    obtain ⟨before, e, after, hq, rfl, hactive, hovertake⟩ := findEntry_eq_some hfind
    have hphase : e.phase ≠ .decoded := by
      intro hdec
      rw [active, hdec] at hactive
      cases hactive
    have hq' : (m.setPhase before.length .decoding).workQueue =
        before ++ { e with phase := .decoding } :: after := by
      rw [setPhase, hq]
      exact modify_split _ e after before
    constructor
    · exact h.exception
    · rw [hq']
      exact entries_replace (hq ▸ h.entries)
    · rw [hq']
      refine apart_replace (hq ▸ h.apart) hphase fun b hb _ _ => ?_
      obtain ⟨hordered, hpartially, hregion⟩ := hovertake b hb
      exact ⟨hordered, hpartially, hregion⟩
    · obtain ⟨s, hpending, hrun⟩ := h.sequential
      refine ⟨s, ?_, hrun⟩
      have hnew : ({ e with phase := .decoding } : QueueEntry).phase ≠ .decoded := by
        exact nofun
      rw [hq, pending_append, pending_cons hphase, perform_append] at hpending
      rw [hq', pending_append, pending_cons hnew, perform_append]
      exact hpending

theorem step_decode {i : ℕ} (h : QueueSound final rest m) :
    m.step (.decode i) = .error .waits ∨
      ∃ m', m.step (.decode i) = .ok m' ∧ QueueSound final rest m' := by
  rw [step]
  split
  case h_2 => exact .inl rfl
  case h_1 rect encoding bytes hentry =>
    right
    obtain ⟨before, after, hq, rfl⟩ := exists_split hentry
    generalize hdef : (⟨.decoding, rect, encoding, bytes⟩ : QueueEntry) = e at hq ⊢
    have hphase : e.phase = .decoding := by rw [← hdef]
    have hnot : e.phase ≠ .decoded := by rw [hphase]; exact nofun
    have hq' : (m.setPhase before.length .decoded).workQueue =
        before ++ { e with phase := .decoded } :: after := by
      rw [setPhase, hq]
      exact modify_split _ e after before
    obtain ⟨s, hpending, hrun⟩ := h.sequential
    have hall : ∀ a ∈ before ++ e :: after, a.Regular ∧ a.Placed d := hq ▸ h.entries
    have hapart : (before ++ e :: after).Pairwise Apart := hq ▸ h.apart
    -- the entry commutes with all before it that are still to be decoded
    have hcomm : ∀ b ∈ pending before, ∀ s,
        (b.act d s).bind (e.act d) = (e.act d s).bind (b.act d) := by
      intro b hb s
      obtain ⟨hmem, hb⟩ := List.mem_filter.mp hb
      have hover : MayOvertake e b := (List.pairwise_append.mp hapart).2.2 b hmem e
        List.mem_cons_self (by rw [active, hphase]; rfl) (of_decide_eq_true hb)
      exact hover.comm (hall e (List.mem_append_right before List.mem_cons_self))
        (hall b (List.mem_append_left _ hmem)) s
    rw [hq, pending_append, pending_cons hnot, perform_move_front hcomm, perform_cons] at hpending
    obtain ⟨state, hstate, hafter⟩ := Option.bind_eq_some_iff.mp hpending
    rw [act_eq_some.mp hstate]
    refine ⟨_, rfl, ⟨h.exception, ?_, ?_, s, ?_, hrun⟩⟩
    · rw [hq']
      exact entries_replace hall
    · rw [hq']
      refine apart_replace hapart hnot fun b hb _ hpend => ?_
      obtain ⟨hordered, hpartially, hregion⟩ := (List.pairwise_append.mp hapart).2.2 b hb e
        List.mem_cons_self (by rw [active, hphase]; rfl) hpend
      exact ⟨hordered, hpartially, hregion⟩
    · rw [hq', pending_append, pending_cons_decoded rfl]
      exact hafter

theorem step_remove {i : ℕ} (h : QueueSound final rest m) :
    m.step (.remove i) = .error .waits ∨
      ∃ m', m.step (.remove i) = .ok m' ∧ QueueSound final rest m' := by
  rw [step]
  split
  case h_2 => exact .inl rfl
  case h_1 hentry =>
    right
    obtain ⟨before, after, hq, rfl⟩ := exists_split hentry
    have hq' : m.workQueue.eraseIdx before.length = before ++ after := by
      rw [hq]
      exact eraseIdx_split _ after before
    have hsub : (m.workQueue.eraseIdx before.length).Sublist m.workQueue :=
      List.eraseIdx_sublist ..
    obtain ⟨s, hpending, hrun⟩ := h.sequential
    refine ⟨_, rfl, h.exception, fun a ha => h.entries a (hsub.subset ha), h.apart.sublist hsub,
      s, ?_, hrun⟩
    rw [hq, pending_append, pending_cons_decoded rfl, ← pending_append] at hpending
    rw [hq']
    exact hpending

theorem step_sound {e : Event} {es : List Event} (h : QueueSound final (requests (e :: es)) m) :
    m.step e = .error .waits ∨ ∃ m', m.step e = .ok m' ∧ QueueSound final (requests es) m' := by
  cases e with
  | decodeRect hd => exact .inr (step_decodeRect h)
  | flush => exact step_flush h
  | findEntry => exact step_findEntry h
  | decode i => exact step_decode h
  | remove i => exact step_remove h

/-- The main thread never throws, and the invariant holds wherever a run gets to. -/
theorem run_sound {es : List Event} (h : QueueSound final (requests es) m) :
    (∀ msg, tryRun step m es ≠ .error (.throws msg)) ∧
      ∀ m', tryRun step m es = .ok m' → QueueSound final [] m' := by
  induction es generalizing m with
  | nil =>
    constructor
    · intro msg hthrow
      cases hthrow
    · intro m' hm'
      obtain rfl := Except.ok.inj hm'
      exact h
  | cons e es ih =>
    rw [tryRun]
    rcases step_sound h with hwait | ⟨m', hm', h'⟩
    · rw [bind_error hwait]
      constructor
      · intro msg hthrow
        cases hthrow
      · intro m' hm'
        cases hm'
    · rw [bind_ok hm']
      exact ih h'

theorem start_sound {s : Decoding d} (hrun : tryRun Decoding.decodeRect s rest = .ok final)
    (hregular : TryGuarded Decoding.decodeRect RegularRequest s rest) :
    QueueSound final rest (start s) :=
  ⟨rfl, (fun _ he => nomatch he), List.Pairwise.nil, s.state, rfl, hrun, hregular⟩

/-- No two workers touch the same cell at a time. -/
def NoRace (m : DecodeManager d) : Prop :=
  m.workQueue.Pairwise fun before e =>
    before.phase = .decoding → e.phase = .decoding → ∀ c ∈ before.cells, c ∉ e.cells

theorem noRace_of_sound (h : QueueSound final rest m) : m.NoRace := by
  refine h.apart.imp_of_mem fun {before e} hbefore he hapart hdec hdec' => ?_
  have hover : MayOvertake e before :=
    hapart (by rw [active, hdec']; rfl) (by rw [hdec]; exact nofun)
  exact hover.cells_disjoint (h.entries e he) (h.entries before hbefore)

theorem eq_final_of_sound (h : QueueSound final [] m) (hempty : m.workQueue = []) :
    m.toDecoding = final := by
  obtain ⟨s, hpending, hrun, -⟩ := h.sequential
  rw [hempty] at hpending
  obtain rfl := Option.some.inj hpending
  exact Except.ok.inj hrun

end DecodeManager

open DecodeManager

/-! ## Parallel and sequential decoding -/

/-- **Parallel decoding is sequential decoding**, without the two kinds of rectangles: if they
can be decoded one by one, then no exception is thrown, no two workers touch the same cell at
a time, and once the queue is empty all is as if they had been decoded in that order. -/
theorem parallel_decoding {s final : Decoding d} (events : List Event)
    (hrun : tryRun Decoding.decodeRect s (requests events) = .ok final)
    (hregular : TryGuarded Decoding.decodeRect RegularRequest s (requests events)) :
    (∀ msg, tryRun step (start s) events ≠ .error (.throws msg)) ∧
      ∀ m, tryRun step (start s) events = .ok m →
        m.threadException = none ∧ m.NoRace ∧ (m.workQueue = [] → m.toDecoding = final) := by
  obtain ⟨hthrow, hsound⟩ := run_sound (start_sound hrun hregular)
  refine ⟨hthrow, fun m hm => ?_⟩
  exact ⟨(hsound m hm).exception, noRace_of_sound (hsound m hm), eq_final_of_sound (hsound m hm)⟩

/-! ### Two rectangles -/

/-- Three bits of red and green, and two of blue. -/
def narrowFormat : PixelFormatOf .bpp8 where
  bpp := 8
  depth := 8
  bigEndian := false
  trueColour := true
  redMax := 7
  greenMax := 7
  blueMax := 3
  redShift := 0
  greenShift := 3
  blueShift := 6
  sane := by decide
  bpp_eq := rfl

/-- A row of pixels of one byte. -/
def rowOfPixels (Z : Zlib) (fbWidth : BitVec 16) : DecodeParams .bpp8 :=
  ⟨narrowFormat, ⟨fun _ => default, fun _ => default⟩, Z, fbWidth, 1⟩

/-- Two rectangles are queued and taken, and the second one is decoded first. -/
def secondFirst (a b : RectHeader) : List Event :=
  [.decodeRect a, .decodeRect b, .findEntry, .findEntry, .decode 1, .decode 0, .remove 0, .remove 0]

def blackRow (input : List Byte) (fbWidth : BitVec 16) : Decoding (rowOfPixels .stored fbWidth) :=
  ⟨input, fun _ => PixelWidth.black, (), fun _ => ()⟩

theorem parallel_decoding_twoPixels :
    ∃ final, tryRun Decoding.decodeRect (blackRow [1, 2] 2)
        [⟨0, 0, 1, 1, .raw⟩, ⟨1, 0, 1, 1, .raw⟩] = .ok final ∧
      ∀ m, tryRun step (start (blackRow [1, 2] 2))
          (secondFirst ⟨0, 0, 1, 1, .raw⟩ ⟨1, 0, 1, 1, .raw⟩) = .ok m →
        m.threadException = none ∧ m.NoRace ∧ (m.workQueue = [] → m.toDecoding = final) := by
  obtain ⟨final, hfinal⟩ := exists_ok_of_isSome (x := tryRun Decoding.decodeRect
    (blackRow [1, 2] 2) [⟨0, 0, 1, 1, .raw⟩, ⟨1, 0, 1, 1, .raw⟩]) (by decide +kernel)
  refine ⟨final, hfinal, ?_⟩
  exact (parallel_decoding (secondFirst ⟨0, 0, 1, 1, .raw⟩ ⟨1, 0, 1, 1, .raw⟩) hfinal
    (by decide +kernel)).2

/-- In whatever order workers decode the rectangles, the outcome is that of the first to the
last. -/
def ParallelIsSequential (d : DecodeParams width) : Prop :=
  ∀ (s final : Decoding d) (events : List Event) (m : DecodeManager d),
    tryRun Decoding.decodeRect s (requests events) = .ok final →
      tryRun step (start s) events = .ok m → m.workQueue = [] → m.toDecoding = final

theorem not_parallelIsSequential {β : Type} (look : Decoding d → β) (s : Decoding d)
    (events : List Event) {a b : β}
    (hseq : (tryRun Decoding.decodeRect s (requests events)).toOption.map look = some a)
    (hpar : (tryRun step (start s) events).toOption.map
      (fun m => (m.workQueue, look m.toDecoding)) = some ([], b)) (hne : a ≠ b) :
    ¬ParallelIsSequential d := by
  intro h
  obtain ⟨final, hfinal, rfl⟩ := of_toOption_map hseq
  obtain ⟨m, hm, hlook⟩ := of_toOption_map hpar
  obtain ⟨hempty, rfl⟩ := Prod.ext_iff.mp hlook
  exact hne (congrArg look (h s final events m hfinal hm hempty)).symm

/-- A codec with streams that remember all that has gone through them. -/
def recordedZlib : Zlib where
  Deflate := List Byte
  Inflate := List Byte
  compress := fun d data => (data, d ++ data)
  decompress := fun i bytes => .ok (bytes, i ++ bytes)
  resetDeflate := fun _ => []
  resetInflate := fun _ => []
  InStep := (· = ·)
  lossless := fun h _ => ⟨_, rfl, by rw [h]⟩
  inStep_reset := fun _ _ => rfl

/-- A Tight rectangle of twelve pixels of one value, in the way of sending that is 10. -/
def twelvePixels (value : Byte) : List Byte := 0xa0 :: 12 :: List.replicate 12 value

def recordedRow : Decoding (rowOfPixels recordedZlib 24) :=
  ⟨twelvePixels 1 ++ twelvePixels 2, fun _ => PixelWidth.black, [], fun _ => []⟩

/-- What has gone through the stream of both rectangles. -/
def recordedStream (s : Decoding (rowOfPixels recordedZlib 24)) : List Byte := s.state.tight 2

/-- Two pixels on both sides of 32768 are overwritten twice, and two Tight rectangles in the
way of sending that is 10 use the same stream. -/
theorem overtaken_rectangles :
    ¬ParallelIsSequential (rowOfPixels .stored 40000) ∧
      ¬ParallelIsSequential (rowOfPixels recordedZlib 24) := by
  have hpixels : ([2] : List Byte) ≠ [1] := by decide
  have hstreams : List.replicate 12 1 ++ List.replicate 12 2 ≠
      (List.replicate 12 2 ++ List.replicate 12 1 : List Byte) := by decide
  constructor
  · exact not_parallelIsSequential (fun s => (s.state.frame (32767, 0)).val)
      (blackRow [1, 1, 2, 2] 40000)
      (secondFirst ⟨32767, 0, 2, 1, .raw⟩ ⟨32767, 0, 2, 1, .raw⟩) (by decide +kernel)
      (by decide +kernel) hpixels
  · exact not_parallelIsSequential recordedStream recordedRow
      (secondFirst ⟨0, 0, 12, 1, .tight⟩ ⟨12, 0, 12, 1, .tight⟩) (by decide +kernel)
      (by decide +kernel) hstreams

end KasmVNC.Rfb
