import KasmVNC.Lib.Run
import KasmVNC.Rfb.ScreenEncoderManager

/-!
# Which screens video mode covers

A frame should render every screen of the layout that has changed and write nothing else.
What it does render is what is listed, and the list is only made anew when an encoder comes
or goes; a list of one screen is taken for the screen with the place 0.
-/

namespace KasmVNC.Rfb

open KasmVNC.Lib

/-- They are the same screen, in the same place. -/
def SameScreen (e c : Screen) : Prop := e.id = c.id ∧ e.dimensions = c.dimensions

instance (e c : Screen) : Decidable (SameScreen e c) := inferInstanceAs (Decidable (_ ∧ _))

/-- The rectangles that are written, if no byte is written outside of one. -/
def rectsOf : List VideoAct → Option (List (Rect × Screen))
  | [] => some []
  | .render _ :: acts => rectsOf acts
  | .startRect r :: .packet e :: .endRect :: acts => (rectsOf acts).map ((r, e) :: ·)
  | _ => none

namespace ScreenEncoderManager

/-! ## What a frame should do -/

/-- The screens that have changed are rendered by their own encoders and, if that succeeds,
written once; and nothing is written for a screen outside the layout. -/
def Covers (f : VideoFrame) (acts : List VideoAct) (rects : List (Rect × Screen)) : Prop :=
  (∀ c ∈ f.layout, c.dimensions.overlaps f.bounds →
    ∃ e i, SameScreen e c ∧ .render e ∈ acts ∧ i.val = place c.id ∧
      (f.renders i = .success → (rects.filter fun r => SameScreen r.2 c) = [(c.dimensions, e)])) ∧
  ∀ r ∈ rects, ∃ c ∈ f.layout, SameScreen r.2 c ∧ r.1 = c.dimensions

/-- What is expected of a frame. -/
def FrameCovers (s : ScreenEncoderManager) (f : VideoFrame) : Prop :=
  match s.frame f with
  | .error .outOfRange => False
  | .ok (_, none) => True
  | .ok (_, some acts) => ∃ rects, rectsOf acts = some rects ∧ Covers f acts rects

/-! ## When it does -/

/-- The place of a screen does not hold an encoder with its dimensions yet. -/
def IsNew (s : ScreenEncoderManager) (c : Screen) : Prop :=
  ∀ i : Fin 8, i.val = place c.id → (s.screens i).layout.dimensions ≠ c.dimensions

instance (s : ScreenEncoderManager) (c : Screen) : Decidable (s.IsNew c) :=
  inferInstanceAs (Decidable (∀ _ : Fin 8, _))

/-- The screens in front of the last new one. -/
def beforeLastNew (s : ScreenEncoderManager) : List Screen → List Screen
  | [] => []
  | c :: layout => if ∃ c' ∈ layout, s.IsNew c' then c :: beforeLastNew s layout else []

/-- The place will be refreshed. If a screen is new, all new screens are, with those that
were dirty or become so before the last new one; otherwise those that were before. -/
def Listed (s : ScreenEncoderManager) (bounds : Rect) (layout : List Screen) (i : Fin 8) : Prop :=
  if ∃ c ∈ layout, s.IsNew c then
    (∃ c ∈ layout, place c.id = i.val ∧ s.IsNew c) ∨
      (s.screens i).encoder.isSome = true ∧ ((s.screens i).dirty = true ∨
        ∃ c ∈ s.beforeLastNew layout, place c.id = i.val ∧ c.dimensions.overlaps bounds)
  else i ∈ s.screensToRefresh

instance (s : ScreenEncoderManager) (bounds : Rect) (layout : List Screen) (i : Fin 8) :
    Decidable (s.Listed bounds layout i) := by
  unfold Listed
  infer_instance

/-- The screens of the layout have places of their own. -/
def Placed (layout : List Screen) : Prop :=
  (∀ c ∈ layout, place c.id < 8) ∧ (layout.map fun c => place c.id).Nodup

instance (layout : List Screen) : Decidable (Placed layout) := inferInstanceAs (Decidable (_ ∧ _))

/-- The screens have places of their own, and a place that holds the dimensions of a screen
holds its id; no skip rectangle is written; the screens that have changed are listed, all
that are listed are in the layout, and if there is only one it has the place 0. -/
def Guard (s : ScreenEncoderManager) (f : VideoFrame) : Prop :=
  Placed f.layout ∧
  (∀ c ∈ f.layout, ∀ i : Fin 8, i.val = place c.id →
    (s.screens i).layout.dimensions = c.dimensions → (s.screens i).layout.id = c.id) ∧
  (∀ i, s.Listed f.bounds f.layout i → f.renders i ≠ .skip) ∧
  (∀ c ∈ f.layout, c.dimensions.overlaps f.bounds →
    ∀ i : Fin 8, i.val = place c.id → s.Listed f.bounds f.layout i) ∧
  (∀ i, s.Listed f.bounds f.layout i → ∃ c ∈ f.layout, place c.id = i.val) ∧
  ∀ i, s.Listed f.bounds f.layout i → i.val ≠ 0 → ∃ j ≠ i, s.Listed f.bounds f.layout j

instance (s : ScreenEncoderManager) (f : VideoFrame) : Decidable (s.Guard f) :=
  inferInstanceAs (Decidable (_ ∧ _ ∧ (∀ _ : Fin 8, _) ∧ _ ∧ (∀ _ : Fin 8, _) ∧ ∀ _ : Fin 8, _))

/-! ## The list after `sync_layout` -/

variable {s : ScreenEncoderManager} {bounds : Rect}

theorem isNew_iff {c : Screen} (h : place c.id < 8) :
    s.IsNew c ↔ (s.screens ⟨place c.id, h⟩).layout.dimensions ≠ c.dimensions := by
  constructor
  · exact fun hnew => hnew ⟨place c.id, h⟩ rfl
  · rintro hnew i hi
    obtain rfl : i = ⟨place c.id, h⟩ := Fin.ext hi
    exact hnew

/-- Screens whose places are left alone stay new or known. -/
theorem isNew_congr {s' : ScreenEncoderManager} {c : Screen}
    (h : ∀ i : Fin 8, i.val = place c.id → s'.screens i = s.screens i) :
    s'.IsNew c ↔ s.IsNew c := by
  unfold IsNew
  refine forall_congr' fun i => imp_congr_right fun hi => ?_
  rw [h i hi]

theorem beforeLastNew_congr {s' : ScreenEncoderManager} : ∀ {layout : List Screen},
    (∀ c ∈ layout, s'.IsNew c ↔ s.IsNew c) → s'.beforeLastNew layout = s.beforeLastNew layout
  | [], _ => rfl
  | c :: layout, h => by
    have hrest : ∀ c ∈ layout, s'.IsNew c ↔ s.IsNew c := fun c' hc' =>
      h c' (List.mem_cons_of_mem c hc')
    have hany : (∃ c' ∈ layout, s'.IsNew c') ↔ ∃ c' ∈ layout, s.IsNew c' :=
      exists_congr fun c' => and_congr_right fun hc' => hrest c' hc'
    unfold beforeLastNew
    rw [beforeLastNew_congr hrest]
    simp only [hany]

/-- One screen of the layout, and what it does to the list after the others. -/
theorem listed_cons {s₁ : ScreenEncoderManager} {c : Screen} {layout : List Screen} {index : Fin 8}
    (hindex : index.val = place c.id) (hapart : ∀ c' ∈ layout, place c'.id ≠ place c.id)
    (hscreens : ∀ j, s₁.screens j = if j = index then s.synced bounds index c else s.screens j)
    (hlist : ∀ j, j ∈ s₁.screensToRefresh ↔
      if (s.screens index).layout.dimensions ≠ c.dimensions then
        j = index ∨ (s.screens j).encoder.isSome = true ∧ (s.screens j).dirty = true
      else j ∈ s.screensToRefresh) (j : Fin 8) :
    s₁.Listed bounds layout j ↔ s.Listed bounds (c :: layout) j := by
  have hsame : ∀ c' ∈ layout, s₁.IsNew c' ↔ s.IsNew c' := by
    intro c' hc'
    refine isNew_congr fun i hi => ?_
    have hne : i ≠ index := by
      rintro rfl
      exact hapart c' hc' (hi.symm.trans hindex)
    rw [hscreens, if_neg hne]
  have hany : (∃ c' ∈ layout, s₁.IsNew c') ↔ ∃ c' ∈ layout, s.IsNew c' :=
    exists_congr fun c' => and_congr_right fun hc' => hsame c' hc'
  have hnew : s.IsNew c ↔ (s.screens index).layout.dimensions ≠ c.dimensions := by
    obtain ⟨i, hi⟩ := index
    obtain rfl : i = place c.id := hindex
    exact isNew_iff hi
  have hplace : place c.id = j.val ↔ j = index := by
    rw [← hindex, Fin.ext_iff]
    exact eq_comm
  have hnewAt : (∃ c' ∈ layout, place c'.id = j.val ∧ s₁.IsNew c') ↔
      ∃ c' ∈ layout, place c'.id = j.val ∧ s.IsNew c' :=
    exists_congr fun c' => and_congr_right fun hc' => and_congr_right fun _ => hsame c' hc'
  unfold Listed
  rw [beforeLastNew_congr hsame, beforeLastNew]
  simp only [hany, hnewAt, List.exists_mem_cons_iff, hplace, hscreens j, hlist j, synced]
  by_cases hrest : ∃ c' ∈ layout, s.IsNew c'
  · -- the list is made again, and `c` is in front of the last new screen
    simp only [if_pos hrest, if_pos (Or.inr hrest), List.exists_mem_cons_iff, hplace]
    by_cases hj : j = index
    · subst hj
      by_cases hchanged : (s.screens j).layout.dimensions ≠ c.dimensions
      · simp [if_pos hchanged, hnew.mpr hchanged]
      · simp only [if_true, if_false, hnew, hchanged, and_false, false_or, true_and,
          Bool.or_eq_true, decide_eq_true_eq, or_assoc]
    · simp only [hj, if_false, false_and, false_or]
  · simp only [hrest, or_false]
    by_cases hchanged : (s.screens index).layout.dimensions ≠ c.dimensions
    · -- the list was made for `c`
      have hnone : ¬∃ c' ∈ layout, place c'.id = j.val ∧ s.IsNew c' := fun ⟨c', hc', _, h⟩ =>
        hrest ⟨c', hc', h⟩
      simp [if_pos hchanged, hnew.mpr hchanged, hnone]
    · have hknown : ¬s.IsNew c := fun h => hchanged (hnew.mp h)
      simp only [hchanged, hknown, if_false]

/-- What `sync_layout` leaves: each screen of the layout has its encoder, the other places are
as before, and the list is as it was told. -/
structure Synced (s : ScreenEncoderManager) (bounds : Rect) (layout : List Screen)
    (s' : ScreenEncoderManager) : Prop where
  encoder : ∀ c ∈ layout, ∀ i : Fin 8, i.val = place c.id →
    ∃ e, (s'.screens i).encoder = some e ∧ SameScreen e c
  other : ∀ i : Fin 8, (∀ c ∈ layout, place c.id ≠ i.val) → s'.screens i = s.screens i
  listed : ∀ i, i ∈ s'.screensToRefresh ↔ s.Listed bounds layout i

/-- The place of a screen gets its encoder. -/
theorem synced_encoder (h : s.Consistent) {index : Fin 8} {c : Screen}
    (hnonempty : c.dimensions.isEmpty = false)
    (hid : (s.screens index).layout.dimensions = c.dimensions →
      (s.screens index).layout.id = c.id) :
    ∃ e, (s.synced bounds index c).encoder = some e ∧ SameScreen e c := by
  unfold synced
  split
  · exact ⟨c, rfl, rfl, rfl⟩
  · next hknown =>
      have hdims := not_not.mp hknown
      cases hencoder : (s.screens index).encoder with
      | none =>
        have hempty := h.empty_of_none index hencoder
        rw [hdims, hnonempty] at hempty
        cases hempty
      | some e =>
        obtain rfl := h.encoder_eq index e hencoder
        exact ⟨_, rfl, hid hdims, hdims⟩

theorem syncLayout_spec (bounds : Rect) (creates : Screen → Bool) : ∀ {layout : List Screen}
    {s : ScreenEncoderManager}, s.Consistent → Placed layout →
    (∀ c ∈ layout, c.dimensions.isEmpty = false) →
    (∀ c ∈ layout, ∀ i : Fin 8, i.val = place c.id →
      (s.screens i).layout.dimensions = c.dimensions → (s.screens i).layout.id = c.id) →
    ∃ done s', s.syncLayout bounds creates layout = .ok (done, s') ∧
      (done = true → Synced s bounds layout s')
  | [], s, h, _, _, _ => by
    refine ⟨true, s, rfl, fun _ => ⟨fun _ hc => absurd hc List.not_mem_nil, fun _ _ => rfl,
      fun i => ?_⟩⟩
    unfold Listed
    rw [if_neg (fun ⟨_, hc, _⟩ => List.not_mem_nil hc)]
  | c :: layout, s, h, ⟨hplace, hnodup⟩, hnonempty, hids => by
    obtain ⟨hplace₁, hrest⟩ := List.forall_mem_cons.mp hplace
    obtain ⟨hapart, hnodup⟩ := List.nodup_cons.mp hnodup
    obtain ⟨hnonempty₁, hnonempty⟩ := List.forall_mem_cons.mp hnonempty
    obtain ⟨hids₁, hids⟩ := List.forall_mem_cons.mp hids
    have hapart : ∀ c' ∈ layout, place c'.id ≠ place c.id := fun c' hc' heq =>
      hapart (List.mem_map.mpr ⟨c', hc', heq⟩)
    obtain ⟨index, hindex⟩ : ∃ index : Fin 8, index = ⟨place c.id, hplace₁⟩ := ⟨_, rfl⟩
    have hval : index.val = place c.id := congrArg Fin.val hindex
    obtain ⟨hconsistent, hspec⟩ := syncScreen_spec h bounds (creates c) index c
    rw [syncLayout, dif_pos hplace₁, ← hindex]
    generalize s.syncScreen bounds (creates c) index c = r at hconsistent hspec
    obtain ⟨done, s₁⟩ := r
    cases done with
    | false => exact ⟨false, s₁, rfl, fun hfalse => nomatch hfalse⟩
    | true =>
      obtain ⟨hscreens, hlist⟩ := hspec rfl
      dsimp only at hscreens hlist
      have hother : ∀ c' ∈ layout, ∀ i : Fin 8, i.val = place c'.id →
          s₁.screens i = s.screens i := by
        intro c' hc' i hi
        have hne : i ≠ index := by
          rintro rfl
          exact hapart c' hc' (hi.symm.trans hval)
        rw [hscreens, if_neg hne]
      obtain ⟨done, s', hrun, hsynced⟩ := syncLayout_spec bounds creates hconsistent
        ⟨hrest, hnodup⟩ hnonempty (fun c' hc' i hi => by
          rw [hother c' hc' i hi]
          exact hids c' hc' i hi)
      refine ⟨done, s', hrun, fun hdone => ?_⟩
      obtain ⟨hencoder, hframe, hlisted⟩ := hsynced hdone
      refine ⟨List.forall_mem_cons.mpr ⟨fun i hi => ?_, hencoder⟩, fun i hi => ?_, fun i => ?_⟩
      · obtain rfl : i = index := Fin.ext (hi.trans hval.symm)
        rw [hframe i fun c' hc' heq => hapart c' hc' (heq.trans hi), hscreens, if_pos rfl]
        exact synced_encoder h hnonempty₁ (hids₁ i hi)
      · obtain ⟨hi₁, hi⟩ := List.forall_mem_cons.mp hi
        have hne : i ≠ index := fun heq => hi₁ (hval.symm.trans (congrArg Fin.val heq.symm))
        rw [hframe i hi, hscreens, if_neg hne]
      · rw [hlisted, listed_cons hval hapart hscreens hlist]

/-! ## The rectangles of a frame -/

theorem rectsOf_map_render {acts : List VideoAct} (g : Fin 8 → Screen) : ∀ is : List (Fin 8),
    rectsOf (is.map (fun i => .render (g i)) ++ acts) = rectsOf acts
  | [] => rfl
  | _ :: is => rectsOf_map_render g is

theorem rectsOf_flatMap_frameActs (g : Fin 8 → Screen) : ∀ is : List (Fin 8),
    rectsOf (is.flatMap fun i => frameActs (g i)) = some (is.map fun i => ((g i).dimensions, g i))
  | [] => rfl
  | i :: is => by
    rw [List.flatMap_cons, List.map_cons]
    show (rectsOf (is.flatMap fun i => frameActs (g i))).map _ = _
    rw [rectsOf_flatMap_frameActs g is]
    rfl

/-- A predicate that holds of one member of a list picks it out. -/
theorem filter_eq_singleton {is : List (Fin 8)} {p : Fin 8 → Bool} {i : Fin 8}
    (hnodup : is.Nodup) (hi : i ∈ is) (hp : ∀ j ∈ is, p j = true ↔ j = i) :
    is.filter p = [i] := by
  have hcongr : is.filter p = is.filter (· == i) := by
    refine List.filter_congr fun j hj => ?_
    rw [Bool.eq_iff_iff, hp j hj, beq_iff_eq]
  rw [hcongr, List.filter_beq, List.count_eq_one_of_mem hnodup hi]
  rfl

theorem Consistent.syncLayout {creates : Screen → Bool} : ∀ {layout : List Screen}
    {s : ScreenEncoderManager} {r : Bool × ScreenEncoderManager}, s.Consistent →
    s.syncLayout bounds creates layout = .ok r → r.2.Consistent
  | [], s, _, h, hrun => by
    obtain rfl := Except.ok.inj hrun
    exact h
  | c :: layout, s, r, h, hrun => by
    unfold ScreenEncoderManager.syncLayout at hrun
    split at hrun
    · next hplace =>
        have hs₁ := (syncScreen_spec h bounds (creates c) ⟨place c.id, hplace⟩ c).1
        split at hrun
        · next s₁ hstop =>
            obtain rfl := Except.ok.inj hrun
            rw [hstop] at hs₁
            exact hs₁
        · next s₁ hgo =>
            rw [hgo] at hs₁
            exact Consistent.syncLayout hs₁ hrun
    · cases hrun

theorem Consistent.step {f : VideoFrame} {s' : ScreenEncoderManager} (h : s.Consistent)
    (hstep : s.step f = .ok s') : s'.Consistent := by
  obtain ⟨r, hframe, rfl⟩ := of_map_ok hstep
  unfold frame at hframe
  split at hframe
  · cases hframe
  · next s₁ hsync =>
      obtain rfl := Except.ok.inj hframe
      exact h.syncLayout hsync
  · next s₁ hsync =>
      obtain rfl := Except.ok.inj hframe
      exact (h.syncLayout hsync).writeRect f.renders

/-- The screens of a layout are told apart by their places. -/
theorem place_inj {layout : List Screen} (h : Placed layout) {c c' : Screen} (hc : c ∈ layout)
    (hc' : c' ∈ layout) (hplace : place c.id = place c'.id) : c = c' :=
  List.inj_on_of_nodup_map h.2 hc hc' hplace

/-- Once the layout is synced, what is written covers it. -/
theorem covers_of_synced {s' : ScreenEncoderManager} {f : VideoFrame} (hguard : s.Guard f)
    (hs' : s'.Consistent) (hsynced : Synced s f.bounds f.layout s') :
    ∃ rects, rectsOf (s'.writeRect f.renders).2 = some rects ∧
      Covers f (s'.writeRect f.renders).2 rects := by
  obtain ⟨hplaced, -, hskip, hchanged, hlive, hsingle⟩ := hguard
  have hfirst : ∀ i, s'.screensToRefresh = [i] → i = 0 := by
    intro i hi
    by_contra hne
    have hlisted := (hsynced.listed i).mp (hi ▸ List.mem_singleton_self i)
    obtain ⟨j, hj, hlisted⟩ := hsingle i hlisted (Fin.val_ne_zero_iff.mpr hne)
    have hmem := (hsynced.listed j).mpr hlisted
    rw [hi, List.mem_singleton] at hmem
    exact hj hmem
  -- what is listed is a screen of the layout
  have hscreen : ∀ i ∈ s'.screensToRefresh,
      ∃ c ∈ f.layout, place c.id = i.val ∧ SameScreen (s'.screens i).layout c := by
    intro i hi
    obtain ⟨c, hc, hplace⟩ := hlive i ((hsynced.listed i).mp hi)
    obtain ⟨e, he, hsame⟩ := hsynced.encoder c hc i hplace.symm
    rw [hs'.encoder_of_mem hi] at he
    obtain rfl := Option.some.inj he
    exact ⟨c, hc, hplace, hsame⟩
  rw [writeRect_acts hs' (fun i hi => hskip i ((hsynced.listed i).mp hi)) hfirst]
  refine ⟨_, (rectsOf_map_render _ _).trans (rectsOf_flatMap_frameActs _ _), ?_, ?_⟩
  · intro c hc hover
    obtain ⟨i, hi⟩ : ∃ i : Fin 8, i.val = place c.id := ⟨⟨_, hplaced.1 c hc⟩, rfl⟩
    have hmem := (hsynced.listed i).mpr (hchanged c hc hover i hi)
    obtain ⟨c', hc', hplace, hsame⟩ := hscreen i hmem
    obtain rfl := place_inj hplaced hc' hc (hplace.trans hi)
    refine ⟨_, i, hsame, List.mem_append_left _ (List.mem_map.mpr ⟨i, hmem, rfl⟩), hi,
      fun hsuccess => ?_⟩
    have honly : ∀ j ∈ s'.screensToRefresh.filter (f.renders · = .success),
        decide (SameScreen (s'.screens j).layout c') = true ↔ j = i := by
      intro j hj
      rw [decide_eq_true_iff]
      constructor
      · intro hsame'
        obtain ⟨c, -, hplace', hother⟩ := hscreen j (List.mem_of_mem_filter hj)
        rw [Fin.ext_iff, ← hplace', hi, ← hother.1, hsame'.1]
      · rintro rfl
        exact hsame
    rw [List.filter_map]
    have hone := filter_eq_singleton (hs'.nodup.filter _)
      (List.mem_filter.mpr ⟨hmem, decide_eq_true hsuccess⟩) honly
    show List.map _ (List.filter (fun j => decide (SameScreen (s'.screens j).layout c')) _) = _
    rw [hone, List.map_singleton, hsame.2]
  · intro r hr
    obtain ⟨i, hi, rfl⟩ := List.mem_map.mp hr
    obtain ⟨c, hc, -, hsame⟩ := hscreen i (List.mem_of_mem_filter hi)
    exact ⟨c, hc, hsame, hsame.2⟩

/-- One frame. -/
theorem frameCovers_of_guard {f : VideoFrame} (h : s.Consistent) (hguard : s.Guard f) :
    s.FrameCovers f := by
  obtain ⟨done, s', hsync, hsynced⟩ := syncLayout_spec f.bounds f.creates h
    hguard.1 f.nonempty hguard.2.1
  have hs' := h.syncLayout hsync
  unfold FrameCovers frame
  rw [hsync]
  cases done with
  | false => trivial
  | true => exact covers_of_synced hguard hs' (hsynced rfl)

/-- In a run whose frames find the guard, each of them covers its screens. -/
theorem frames_cover {fs : List VideoFrame} (h : TryGuarded step Guard new fs) :
    TryGuarded step FrameCovers new fs :=
  tryGuarded_imp (fun _ _ _ hs hstep => hs.step hstep) (fun _ _ => frameCovers_of_guard)
    consistent_new h

/-- The whole of a layout changes, and every encoder succeeds. -/
def wholeFrame (layout : ScreenSet) (h : (∀ c ∈ layout, c.dimensions.isEmpty = false) ∧
    (layout.map Screen.id).Nodup ∧ layout.length ≤ 8) : VideoFrame where
  layout := layout
  bounds := ⟨(0, 0), (32, 16)⟩
  creates := fun _ => true
  renders := fun _ => .success
  nonempty := h.1
  nodup := h.2.1
  length_le := h.2.2

def leftScreen : Screen := ⟨0, ⟨(0, 0), (16, 16)⟩, 0⟩

def rightScreen : Screen := ⟨1, ⟨(16, 0), (32, 16)⟩, 0⟩

theorem valid_both : (∀ c ∈ [leftScreen, rightScreen], c.dimensions.isEmpty = false) ∧
    ([leftScreen, rightScreen].map Screen.id).Nodup ∧ [leftScreen, rightScreen].length ≤ 8 := by
  decide

theorem valid_right : (∀ c ∈ [rightScreen], c.dimensions.isEmpty = false) ∧
    ([rightScreen].map Screen.id).Nodup ∧ [rightScreen].length ≤ 8 := by
  decide

/-- Two screens that stay where they are. -/
theorem frames_cover_both :
    TryGuarded step Guard new
      [wholeFrame [leftScreen, rightScreen] valid_both,
        wholeFrame [leftScreen, rightScreen] valid_both] ∧
    TryGuarded step FrameCovers new
      [wholeFrame [leftScreen, rightScreen] valid_both,
        wholeFrame [leftScreen, rightScreen] valid_both] := by
  have hguard : TryGuarded step Guard new
      [wholeFrame [leftScreen, rightScreen] valid_both,
        wholeFrame [leftScreen, rightScreen] valid_both] := by
    refine tryGuarded_cons (by decide) rfl (tryGuarded_cons (by decide) rfl trivial)
  exact ⟨hguard, frames_cover hguard⟩

/-- A single screen whose id is not 0 is never rendered: the list holds its place, but it is
the place 0 that `writeRect` looks at. -/
theorem single_not_rendered :
    ¬TryGuarded step FrameCovers new [wholeFrame [rightScreen] valid_right] := by
  rintro ⟨hcovers, -⟩
  obtain ⟨rects, -, hrendered, -⟩ : ∃ rects, rectsOf [] = some rects ∧
      Covers (wholeFrame [rightScreen] valid_right) [] rects := hcovers
  obtain ⟨e, i, -, hmem, -⟩ := hrendered rightScreen (List.mem_singleton_self _) (by decide)
  exact List.not_mem_nil hmem

end ScreenEncoderManager

end KasmVNC.Rfb
