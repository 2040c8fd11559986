import KasmVNC.Lib.Run
import KasmVNC.Rfb.Region

/-!
# Update tracking

`SimpleUpdateTracker` summarises what a client has not been told yet: a
`changed` region, and one `copied` region with its offset. A tracker is in
*sync* with a client image and a server image when applying the copy and
repainting `changed` turns the first into the second. Every method keeps this,
whichever of the outcomes of `add_copied` is taken.
-/

namespace KasmVNC.Rfb

open KasmVNC.Lib

structure CopyPassRect where
  rect : Rect
  srcX : ℕ
  srcY : ℕ
deriving DecidableEq, Repr

structure UpdateInfo where
  changed : Region
  copied : Region
  copyDelta : Point
  copypassed : List CopyPassRect
deriving DecidableEq

def UpdateInfo.isEmpty (ui : UpdateInfo) : Bool :=
  ui.copied = ∅ && ui.changed = ∅ && ui.copypassed.isEmpty

structure SimpleUpdateTracker where
  changed : Region
  copied : Region
  copyDelta : Point
  copyEnabled : Bool
deriving DecidableEq

namespace SimpleUpdateTracker

def clear (t : SimpleUpdateTracker) : SimpleUpdateTracker :=
  { t with changed := ∅, copied := ∅ }

def addChanged (t : SimpleUpdateTracker) (region : Region) : SimpleUpdateTracker :=
  { t with changed := t.changed ∪ region }

def enableCopyrect (t : SimpleUpdateTracker) (enable : Bool) : SimpleUpdateTracker :=
  if !enable && t.copyEnabled then
    { t.addChanged t.copied with copied := ∅, copyEnabled := enable }
  else
    { t with copyEnabled := enable }

def addCopied (t : SimpleUpdateTracker) (dest : Region) (delta : Point) :
    SimpleUpdateTracker :=
  if !t.copyEnabled then t.addChanged dest
  else if dest = ∅ then t
  else
    let src := dest.translate (-delta)
    let overlap := src ∩ t.copied
    if overlap = ∅ then
      if t.copied.getBoundingRect.area > dest.getBoundingRect.area then
        { t with changed := t.changed ∪ dest }
      else
        let invalidSrc := (src ∩ t.changed).translate delta
        { t with
          changed := t.changed ∪ invalidSrc ∪ t.copied
          copied := dest
          copyDelta := delta }
    else
      let invalidSrc := (overlap ∩ t.changed).translate delta
      let overlap := overlap.translate delta
      let nonoverlappedCopied := (dest ∪ t.copied) \ overlap
      { t with
        changed := t.changed ∪ invalidSrc ∪ nonoverlappedCopied
        copied := overlap
        copyDelta := t.copyDelta + delta }

def subtract (t : SimpleUpdateTracker) (region : Region) : SimpleUpdateTracker :=
  { t with copied := t.copied \ region, changed := t.changed \ region }

/-- The overlap of `copied` and `changed` leaves the tracker for good. -/
def getUpdateInfo (t : SimpleUpdateTracker) (clip : Region) :
    SimpleUpdateTracker × UpdateInfo :=
  let t' := { t with copied := t.copied \ t.changed }
  (t', { changed := t'.changed ∩ clip
         copied := t'.copied ∩ clip
         copyDelta := t'.copyDelta
         copypassed := [] })

section

variable {t : SimpleUpdateTracker} {clip : Region} {p : Point}

@[simp] theorem getUpdateInfo_changed : (t.getUpdateInfo clip).1.changed = t.changed := rfl

@[simp] theorem getUpdateInfo_copyDelta :
    (t.getUpdateInfo clip).1.copyDelta = t.copyDelta := rfl

@[simp] theorem mem_getUpdateInfo_copied :
    p ∈ (t.getUpdateInfo clip).1.copied ↔ p ∈ t.copied ∧ p ∉ t.changed :=
  Finset.mem_sdiff

@[simp] theorem mem_info_changed :
    p ∈ (t.getUpdateInfo clip).2.changed ↔ p ∈ t.changed ∧ p ∈ clip :=
  Finset.mem_inter

@[simp] theorem mem_info_copied :
    p ∈ (t.getUpdateInfo clip).2.copied ↔ (p ∈ t.copied ∧ p ∉ t.changed) ∧ p ∈ clip := by
  simp [getUpdateInfo]

@[simp] theorem info_copyDelta : (t.getUpdateInfo clip).2.copyDelta = t.copyDelta := rfl

end

end SimpleUpdateTracker

/-! ## The clipping tracker

`ClippingUpdateTracker` forwards to another tracker what lies inside its clip
rectangle; a copy whose source lies outside becomes a change. -/

namespace ClippingUpdateTracker

def addChanged (clipRect : Rect) (ut : SimpleUpdateTracker) (region : Region) :
    SimpleUpdateTracker :=
  ut.addChanged (region ∩ Region.ofRect clipRect)

/-- The part of a copy's destination whose source is inside the clip rectangle. -/
def copyable (clipRect : Rect) (dest : Region) (delta : Point) : Region :=
  ((((dest ∩ Region.ofRect clipRect).translate (-delta)) ∩
    Region.ofRect clipRect)).translate delta

def addCopied (clipRect : Rect) (ut : SimpleUpdateTracker) (dest : Region)
    (delta : Point) : SimpleUpdateTracker :=
  let clipdest := dest ∩ Region.ofRect clipRect
  if clipdest = ∅ then ut
  else
    let tmp := copyable clipRect dest delta
    let ut := if tmp = ∅ then ut else ut.addCopied tmp delta
    let rest := clipdest \ tmp
    if rest = ∅ then ut else ut.addChanged rest

theorem mem_copyable {clipRect : Rect} {dest : Region} {delta p : Point} :
    p ∈ copyable clipRect dest delta ↔
      (p ∈ dest ∧ p ∈ Region.ofRect clipRect) ∧ p - delta ∈ Region.ofRect clipRect := by
  simp only [copyable, Region.mem_translate, Finset.mem_inter, sub_neg_eq_add,
    sub_add_cancel]

end ClippingUpdateTracker

/-! ## Trackers in sync with two images -/

section Sync

variable {C : Type*}

/-- The copy a tracker or an update describes. -/
def SimpleUpdateTracker.copy (t : SimpleUpdateTracker) : Move Point :=
  ⟨t.copied, t.copyDelta⟩

def UpdateInfo.copy (ui : UpdateInfo) : Move Point := ⟨ui.copied, ui.copyDelta⟩

/-- Executing an update: the copy first, then fresh data for `changed`. -/
def UpdateInfo.apply (ui : UpdateInfo) (server client : Point → C) : Point → C :=
  paint ui.changed server (move ui.copy client)

/-- Outside `changed`, the server image is the client image after the copy. -/
def InSync (t : SimpleUpdateTracker) (client server : Point → C) : Prop :=
  ∀ p, p ∉ t.changed → server p = move t.copy client p

variable {t : SimpleUpdateTracker} {client server : Point → C}

theorem inSync_iff : InSync t client server ↔ ∀ p, p ∉ t.changed →
    server p = if p ∈ t.copied then client (p - t.copyDelta) else client p := by
  refine forall_congr' fun p => imp_congr_right fun _ => ?_
  unfold move Move.origin SimpleUpdateTracker.copy
  split <;> rfl

theorem InSync.of_copied (h : InSync t client server) {p : Point}
    (hchanged : p ∉ t.changed) (hcopied : p ∈ t.copied) :
    server p = client (p - t.copyDelta) := by
  rw [inSync_iff] at h
  rw [h p hchanged, if_pos hcopied]

theorem InSync.of_kept (h : InSync t client server) {p : Point}
    (hchanged : p ∉ t.changed) (hcopied : p ∉ t.copied) :
    server p = client p := by
  rw [inSync_iff] at h
  rw [h p hchanged, if_neg hcopied]

theorem inSync_clear (t : SimpleUpdateTracker) (image : Point → C) :
    InSync t.clear image image := by
  rw [inSync_iff]
  intro p _
  exact (if_neg (Finset.notMem_empty p)).symm

theorem InSync.addChanged (h : InSync t client server) (region : Region)
    (fresh : Point → C) :
    InSync (t.addChanged region) client (paint region fresh server) := by
  intro p hp
  rw [SimpleUpdateTracker.addChanged, Finset.notMem_union] at hp
  rw [paint_of_notMem hp.2]
  exact h p hp.1

theorem InSync.enableCopyrect (h : InSync t client server) (enable : Bool) :
    InSync (t.enableCopyrect enable) client server := by
  rw [inSync_iff]
  intro p hp
  unfold SimpleUpdateTracker.enableCopyrect at hp ⊢
  split
  · rename_i hoff
    rw [if_pos hoff] at hp
    obtain ⟨hchanged, hcopied⟩ := Finset.notMem_union.mp hp
    rw [if_neg (Finset.notMem_empty p)]
    exact h.of_kept hchanged hcopied
  · rename_i hon
    rw [if_neg hon] at hp
    exact inSync_iff.mp h p hp

/-- Dropping a copy in favour of a repaint of its destination. -/
theorem InSync.dropCopied (h : InSync t client server) (dest : Region)
    (delta : Point) :
    InSync { t with changed := t.changed ∪ dest } client
      (move ⟨dest, delta⟩ server) := by
  intro p hp
  obtain ⟨hchanged, hdest⟩ := Finset.notMem_union.mp hp
  calc move ⟨dest, delta⟩ server p
      = server p := by rw [move, Move.origin_of_notMem hdest]
    _ = move t.copy client p := h p hchanged

/-- Replacing the old copy by one that does not read its destination. -/
theorem InSync.replaceCopied (h : InSync t client server) {dest : Region}
    {delta : Point} (hoverlap : dest.translate (-delta) ∩ t.copied = ∅) :
    InSync { t with
        changed := t.changed ∪ (dest.translate (-delta) ∩ t.changed).translate delta
          ∪ t.copied
        copied := dest
        copyDelta := delta } client (move ⟨dest, delta⟩ server) := by
  rw [inSync_iff]
  intro p hp
  obtain ⟨hp, hcopied⟩ := Finset.notMem_union.mp hp
  obtain ⟨hchanged, hinvalid⟩ := Finset.notMem_union.mp hp
  split
  · rename_i hdest
    have hsrc : p - delta ∈ dest.translate (-delta) := by
      rw [Region.mem_translate, sub_neg_eq_add, sub_add_cancel]
      exact hdest
    have hsrcChanged : p - delta ∉ t.changed := fun hc =>
      hinvalid (Region.mem_translate.mpr (Finset.mem_inter.mpr ⟨hsrc, hc⟩))
    have hsrcCopied : p - delta ∉ t.copied := fun hc =>
      Finset.eq_empty_iff_forall_notMem.mp hoverlap _ (Finset.mem_inter.mpr ⟨hsrc, hc⟩)
    rw [move, Move.origin_of_mem hdest]
    exact h.of_kept hsrcChanged hsrcCopied
  · rename_i hdest
    rw [move, Move.origin_of_notMem hdest]
    exact h.of_kept hchanged hcopied

/-- Chaining a copy that reads the destination of the old one onto it. -/
theorem InSync.chainCopied (h : InSync t client server) {dest : Region}
    {delta : Point} {overlap : Region}
    (hoverlap : overlap = dest.translate (-delta) ∩ t.copied) :
    InSync { t with
        changed := t.changed ∪ (overlap ∩ t.changed).translate delta
          ∪ (dest ∪ t.copied) \ overlap.translate delta
        copied := overlap.translate delta
        copyDelta := t.copyDelta + delta } client (move ⟨dest, delta⟩ server) := by
  rw [inSync_iff]
  intro p hp
  obtain ⟨hp, hrest⟩ := Finset.notMem_union.mp hp
  obtain ⟨hchanged, hinvalid⟩ := Finset.notMem_union.mp hp
  split
  · rename_i hp
    rw [Region.mem_translate] at hp
    have hsrc := Finset.mem_inter.mp (hoverlap ▸ hp)
    have hdest : p ∈ dest := by
      simpa only [Region.mem_translate, sub_neg_eq_add, sub_add_cancel] using hsrc.1
    have hsrcChanged : p - delta ∉ t.changed := fun hc =>
      hinvalid (Region.mem_translate.mpr (Finset.mem_inter.mpr ⟨hp, hc⟩))
    calc move ⟨dest, delta⟩ server p
        = server (p - delta) := by rw [move, Move.origin_of_mem hdest]
      _ = client (p - delta - t.copyDelta) := h.of_copied hsrcChanged hsrc.2
      _ = client (p - (t.copyDelta + delta)) := by
          rw [sub_sub, add_comm delta]
  · rename_i hp
    have hout : p ∉ dest ∪ t.copied := fun hc =>
      hrest (Finset.mem_sdiff.mpr ⟨hc, hp⟩)
    obtain ⟨hdest, hcopied⟩ := Finset.notMem_union.mp hout
    rw [move, Move.origin_of_notMem hdest]
    exact h.of_kept hchanged hcopied

/-- **`add_copied` follows the server's copy**, whichever branch it takes. -/
theorem InSync.addCopied (h : InSync t client server) (dest : Region)
    (delta : Point) :
    InSync (t.addCopied dest delta) client (move ⟨dest, delta⟩ server) := by
  unfold SimpleUpdateTracker.addCopied
  split
  · exact h.dropCopied dest delta
  split
  · rename_i hempty
    intro p hp
    rw [move, Move.origin_of_notMem (by rw [hempty]; exact Finset.notMem_empty p)]
    exact h p hp
  simp only
  split
  · rename_i hoverlap
    split
    · exact h.dropCopied dest delta
    · exact h.replaceCopied hoverlap
  · exact h.chainCopied rfl

/-- What a clipped copy does to the server image: pixels whose source is on the
screen are copied, the rest of the clipped destination is redrawn. -/
def clippedCopy (clipRect : Rect) (dest : Region) (delta : Point)
    (fresh server : Point → C) : Point → C :=
  let tmp := ClippingUpdateTracker.copyable clipRect dest delta
  paint ((dest ∩ Region.ofRect clipRect) \ tmp) fresh (move ⟨tmp, delta⟩ server)

theorem InSync.clippedAddCopied (h : InSync t client server) (clipRect : Rect)
    (dest : Region) (delta : Point) (fresh : Point → C) :
    InSync (ClippingUpdateTracker.addCopied clipRect t dest delta) client
      (clippedCopy clipRect dest delta fresh server) := by
  unfold ClippingUpdateTracker.addCopied clippedCopy
  simp only
  generalize htmp : ClippingUpdateTracker.copyable clipRect dest delta = tmp
  have hsub : tmp ⊆ dest ∩ Region.ofRect clipRect := by
    intro p hp
    rw [← htmp, ClippingUpdateTracker.mem_copyable] at hp
    exact Finset.mem_inter.mpr hp.1
  have hcopy : InSync (if tmp = ∅ then t else t.addCopied tmp delta) client
      (move ⟨tmp, delta⟩ server) := by
    split
    · rename_i hempty
      intro p hp
      rw [move, Move.origin_of_notMem (by rw [hempty]; exact Finset.notMem_empty p)]
      exact h p hp
    · exact h.addCopied tmp delta
  split
  · -- nothing of the destination is on the screen
    rename_i hclip
    have hnone : ∀ p, p ∉ dest ∩ Region.ofRect clipRect := fun p => by
      rw [hclip]
      exact Finset.notMem_empty p
    intro p hp
    rw [paint_of_notMem fun hc => hnone p (Finset.mem_sdiff.mp hc).1, move,
      Move.origin_of_notMem fun hc => hnone p (hsub hc)]
    exact h p hp
  split
  · rename_i hrest
    intro p hp
    rw [paint_of_notMem (by rw [hrest]; exact Finset.notMem_empty p)]
    exact hcopy p hp
  · exact hcopy.addChanged _ fresh

/-- Asking for the update leaves the tracker in sync. -/
theorem InSync.getUpdateInfo (h : InSync t client server) (clip : Region) :
    InSync (t.getUpdateInfo clip).1 client server := by
  rw [inSync_iff]
  intro p hp
  rw [SimpleUpdateTracker.getUpdateInfo_changed] at hp
  simp only [inSync_iff.mp h p hp, SimpleUpdateTracker.mem_getUpdateInfo_copied, hp,
    not_false_eq_true, and_true, SimpleUpdateTracker.getUpdateInfo_copyDelta]

/-- **An update is exact on the clip region it was asked for.** -/
theorem InSync.apply_eq (h : InSync t client server) {clip : Region} {p : Point}
    (hp : p ∈ clip) :
    (t.getUpdateInfo clip).2.apply server client p = server p := by
  unfold UpdateInfo.apply
  by_cases hchanged : p ∈ t.changed
  · exact paint_of_mem (SimpleUpdateTracker.mem_info_changed.mpr ⟨hchanged, hp⟩)
  · rw [paint_of_notMem fun hc =>
      hchanged (SimpleUpdateTracker.mem_info_changed.mp hc).1]
    by_cases hcopied : p ∈ t.copied
    · rw [h.of_copied hchanged hcopied]
      exact congrArg client (Move.origin_of_mem
        (SimpleUpdateTracker.mem_info_copied.mpr ⟨⟨hcopied, hchanged⟩, hp⟩))
    · rw [h.of_kept hchanged hcopied]
      exact congrArg client (Move.origin_of_notMem fun hc =>
        hcopied (SimpleUpdateTracker.mem_info_copied.mp hc).1.1)

end Sync

/-! ## Runs of server events -/

section Runs

variable {C : Type*}

/-- A tracker method together with what happens to the server image. -/
inductive TrackerEvent (C : Type*)
  | addChanged (region : Region) (fresh : Point → C)
  | addCopied (dest : Region) (delta : Point)
  | clipAddChanged (clipRect : Rect) (region : Region) (fresh : Point → C)
  | clipAddCopied (clipRect : Rect) (dest : Region) (delta : Point) (fresh : Point → C)
  | enableCopyrect (enable : Bool)

structure Tracking (C : Type*) where
  tracker : SimpleUpdateTracker
  server : Point → C

def Tracking.step (s : Tracking C) : TrackerEvent C → Tracking C
  | .addChanged region fresh =>
    ⟨s.tracker.addChanged region, paint region fresh s.server⟩
  | .addCopied dest delta =>
    ⟨s.tracker.addCopied dest delta, move ⟨dest, delta⟩ s.server⟩
  | .clipAddChanged clipRect region fresh =>
    ⟨ClippingUpdateTracker.addChanged clipRect s.tracker region,
      paint (region ∩ Region.ofRect clipRect) fresh s.server⟩
  | .clipAddCopied clipRect dest delta fresh =>
    ⟨ClippingUpdateTracker.addCopied clipRect s.tracker dest delta,
      clippedCopy clipRect dest delta fresh s.server⟩
  | .enableCopyrect enable =>
    ⟨s.tracker.enableCopyrect enable, s.server⟩

theorem Tracking.step_inSync {s : Tracking C} {client : Point → C}
    (h : InSync s.tracker client s.server) (e : TrackerEvent C) :
    InSync (s.step e).tracker client (s.step e).server := by
  cases e with
  | addChanged region fresh => exact h.addChanged region fresh
  | addCopied dest delta => exact h.addCopied dest delta
  | clipAddChanged clipRect region fresh => exact h.addChanged _ fresh
  | clipAddCopied clipRect dest delta fresh =>
    exact h.clippedAddCopied clipRect dest delta fresh
  | enableCopyrect enable => exact h.enableCopyrect enable

theorem Tracking.run_inSync {s : Tracking C} {client : Point → C}
    (h : InSync s.tracker client s.server) (es : List (TrackerEvent C)) :
    InSync (run Tracking.step s es).tracker client (run Tracking.step s es).server :=
  run_invariant_all (I := fun s : Tracking C => InSync s.tracker client s.server)
    (fun _ e hs => Tracking.step_inSync hs e) es h

/-- **Soundness of the tracker.** After any events since the tracker was empty,
the pixels outside `changed` are accounted for by the copy, and the update for
a screen turns the client image into the server image there. -/
theorem tracker_sound (t : SimpleUpdateTracker) (client : Point → C)
    (es : List (TrackerEvent C)) :
    let s := run Tracking.step ⟨t.clear, client⟩ es
    (∀ p, p ∉ s.tracker.changed → s.server p =
      if p ∈ s.tracker.copied then client (p - s.tracker.copyDelta) else client p) ∧
    ∀ screen : Rect, ∀ p ∈ Region.ofRect screen,
      (s.tracker.getUpdateInfo (Region.ofRect screen)).2.apply s.server client p =
        s.server p := by
  intro s
  have hsync : InSync s.tracker client s.server :=
    Tracking.run_inSync (inSync_clear t client) es
  exact ⟨inSync_iff.mp hsync, fun screen p hp => hsync.apply_eq hp⟩

end Runs

end KasmVNC.Rfb
