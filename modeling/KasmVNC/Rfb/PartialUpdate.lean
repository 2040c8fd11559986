import KasmVNC.Rfb.DataUpdate

/-!
# Requests for part of the screen

A client may ask for any part of the screen. Its answer executes the part of
the copy that lies in the request and repaints the part of `changed` that does;
the rest stays in the tracker. What stays of `copied` still refers to pixels of
the client, so it must not refer to pixels the answer has just overwritten.
-/

namespace KasmVNC.Rfb

open KasmVNC.Lib

variable {C : Type*}

/-- A tracker with the two images it relates. -/
structure Session (C : Type*) extends Tracking C where
  client : Point → C

def Session.start (t : SimpleUpdateTracker) (image : Point → C) : Session C :=
  ⟨⟨t.clear, image⟩, image⟩

inductive SessionEvent (C : Type*)
  | server (e : TrackerEvent C)
  | request (req : Region)

/-- What stays in the tracker after the answer to `req`. -/
def SimpleUpdateTracker.answer (t : SimpleUpdateTracker) (req : Region) :
    SimpleUpdateTracker := (t.getUpdateInfo req).1.subtract req

def Session.step (s : Session C) : SessionEvent C → Session C
  | .server e => { s with toTracking := s.toTracking.step e }
  | .request req =>
    { s with
      tracker := s.tracker.answer req
      client := (s.tracker.getUpdateInfo req).2.apply s.server s.client }

/-! ## When the answer keeps the session in sync -/

/-- No pixel that stays in `copied` has its source among the pixels the answer
to `req` overwrites. -/
def SimpleUpdateTracker.SourcesKept (t : SimpleUpdateTracker) (req : Region) : Prop :=
  ∀ p ∈ t.copied, p ∉ t.changed → p ∉ req →
    p - t.copyDelta ∈ req → p - t.copyDelta ∉ t.changed ∪ t.copied

instance (t : SimpleUpdateTracker) (req : Region) : Decidable (t.SourcesKept req) :=
  inferInstanceAs (Decidable (∀ p ∈ t.copied, _))

theorem UpdateInfo.apply_of_notMem {ui : UpdateInfo} {server client : Point → C}
    {p : Point} (hchanged : p ∉ ui.changed) (hcopied : p ∉ ui.copied) :
    ui.apply server client p = client p := by
  rw [UpdateInfo.apply, paint_of_notMem hchanged]
  exact congrArg client (Move.origin_of_notMem hcopied)

/-- Pixels outside the request, and pixels the tracker knows nothing about, are
left alone by the answer. -/
theorem SimpleUpdateTracker.answer_frame {t : SimpleUpdateTracker} {req : Region}
    {server client : Point → C} {p : Point}
    (h : p ∈ req → p ∉ t.changed ∪ t.copied) :
    (t.getUpdateInfo req).2.apply server client p = client p := by
  refine UpdateInfo.apply_of_notMem ?_ ?_
  · intro hc
    rw [mem_info_changed] at hc
    exact h hc.2 (Finset.mem_union_left _ hc.1)
  · intro hc
    rw [mem_info_copied] at hc
    exact h hc.2 (Finset.mem_union_right _ hc.1.1)

theorem InSync.answer {t : SimpleUpdateTracker} {client server : Point → C}
    (h : InSync t client server) {req : Region} (hreq : t.SourcesKept req) :
    InSync (t.answer req) ((t.getUpdateInfo req).2.apply server client) server := by
  rw [inSync_iff]
  intro p hp
  simp only [SimpleUpdateTracker.answer, SimpleUpdateTracker.subtract,
    Finset.mem_sdiff, not_and_not_right, SimpleUpdateTracker.mem_getUpdateInfo_copied,
    SimpleUpdateTracker.getUpdateInfo_changed,
    SimpleUpdateTracker.getUpdateInfo_copyDelta] at hp ⊢
  by_cases hin : p ∈ req
  · rw [if_neg (fun hc => hc.2 hin)]
    exact (h.apply_eq hin).symm
  have hchanged : p ∉ t.changed := fun hc => hin (hp hc)
  split
  · rename_i hcopied
    rw [SimpleUpdateTracker.answer_frame (hreq p hcopied.1.1 hchanged hin)]
    exact h.of_copied hchanged hcopied.1.1
  · rename_i hcopied
    rw [SimpleUpdateTracker.answer_frame (fun hc => absurd hc hin)]
    exact h.of_kept hchanged fun hc => hcopied ⟨⟨hc, hchanged⟩, hin⟩

/-! ## Runs -/

def Session.Answerable (s : Session C) : SessionEvent C → Prop
  | .server _ => True
  | .request req => s.tracker.SourcesKept req

theorem Session.step_inSync {s : Session C} {e : SessionEvent C}
    (h : InSync s.tracker s.client s.server) (he : s.Answerable e) :
    InSync (s.step e).tracker (s.step e).client (s.step e).server := by
  cases e with
  | server e => exact Tracking.step_inSync h e
  | request req => exact h.answer he

/-- **Partial requests.** As long as every answered request leaves the sources
of the remaining copy alone, each pixel outside `changed` is accounted for. -/
theorem partial_requests_sound (t : SimpleUpdateTracker) (image : Point → C)
    {es : List (SessionEvent C)}
    (h : Guarded Session.step Session.Answerable (Session.start t image) es) :
    let s := run Session.step (Session.start t image) es
    ∀ p, p ∉ s.tracker.changed → s.server p =
      if p ∈ s.tracker.copied then s.client (p - s.tracker.copyDelta) else s.client p :=
  inSync_iff.mp (run_invariant
    (I := fun s : Session C => InSync s.tracker s.client s.server)
    (fun _ _ hs he => Session.step_inSync hs he) (inSync_clear t image) h)

/-- A scroll by one row, followed by a request for the rows above it. -/
theorem partial_requests_sound_scroll :
    let es : List (SessionEvent ℤ) :=
      [.server (.addCopied {(0, 1)} (0, 1)), .server (.addChanged {(0, 0)} fun _ => 7),
        .request {(0, 1)}]
    let s := run Session.step (Session.start ⟨∅, ∅, 0, true⟩ Prod.snd) es
    Guarded Session.step Session.Answerable (Session.start ⟨∅, ∅, 0, true⟩ Prod.snd) es ∧
    ∀ p, p ∉ s.tracker.changed → s.server p =
      if p ∈ s.tracker.copied then s.client (p - s.tracker.copyDelta) else s.client p :=
  have h : Guarded Session.step Session.Answerable
      (Session.start ⟨∅, ∅, 0, true⟩ Prod.snd)
      [.server (.addCopied {(0, 1)} (0, 1)), .server (.addChanged {(0, 0)} fun _ => 7),
        .request {(0, 1)}] :=
    ⟨trivial, trivial, by unfold Session.Answerable; decide, trivial⟩
  ⟨h, partial_requests_sound _ _ h⟩

/-- Without the condition the remaining copy reads a repainted pixel: the pixel
`(0, 0)` is copied to `(0, 1)` and redrawn, and only `(0, 0)` is requested. -/
theorem partial_request_stale_source :
    ¬ ∀ (t : SimpleUpdateTracker) (image : Point → ℤ) (es : List (SessionEvent ℤ)),
      let s := run Session.step (Session.start t image) es
      ∀ p, p ∉ s.tracker.changed → s.server p =
        if p ∈ s.tracker.copied then s.client (p - s.tracker.copyDelta)
        else s.client p := by
  intro h
  have hstale := h ⟨∅, ∅, 0, true⟩ Prod.snd
    [.server (.addCopied {(0, 1)} (0, 1)), .server (.addChanged {(0, 0)} fun _ => 7),
      .request {(0, 0)}] (0, 1) (by decide)
  revert hstale
  decide

end KasmVNC.Rfb
