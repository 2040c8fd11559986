import KasmVNC.Lib.Run
import KasmVNC.Unix.RandrChange

/-!
# The layout read back from the outputs

The server tells clients a layout that it computes from the enabled outputs and the map of
screen ids; an output without an id is given a random one. After a layout has been set, the
computed one should be the same again.
-/

namespace KasmVNC.Unix

open KasmVNC.Lib KasmVNC.Rfb

/-! ## Computing the layout -/

/-- The loop that asks `rand()` until it has an id that is not in the map. Without enough
values it does not end. -/
def drawId (m : OutputIdMap) : List (BitVec 32) → Option (BitVec 32 × List (BitVec 32))
  | [] => none
  | id :: rands => if m.hasId id then drawId m rands else some (id, rands)

structure LayoutScan where
  newIdMap : OutputIdMap
  layout : ScreenSet
  /-- What `rand()` will return. -/
  rands : List (BitVec 32)

/-- The loop of `computeScreenLayout`. -/
def computeOutputs (d : Desktop) : List OutputId → LayoutScan → Option LayoutScan
  | [], s => some s
  | o :: os, s =>
    if !d.x.vncRandRIsOutputEnabled o then computeOutputs d os s
    else
      let drawn :=
        match d.outputIdMap.lookup o with
        | some id => some (id, s.rands)
        | none => drawId d.outputIdMap s.rands
      drawn.bind fun (id, rands) =>
        let newIdMap := s.newIdMap.insert o id
        match (d.x.output o).dimensions with
        | none => computeOutputs d os { s with newIdMap, rands }
        | some r =>
          let screen := ⟨id, Rect.ofXYWH r.tl.1 r.tl.2 r.width r.height, 0⟩
          computeOutputs d os ⟨newIdMap, s.layout.addScreen screen, rands⟩

/-- `computeScreenLayout`, with the values of `rand()`. -/
def computeScreenLayout (d : Desktop) (rands : List (BitVec 32)) :
    Option (ScreenSet × Desktop) :=
  (computeOutputs d d.x.outputs ⟨∅, [], rands⟩).map fun s =>
    let layout :=
      if s.layout.isEmpty then
        s.layout.addScreen ⟨0, Rect.ofXYWH 0 0 d.x.width d.x.height, 0⟩
      else s.layout
    (layout, { d with outputIdMap := s.newIdMap })

/-! ## Sorted layouts -/

/-- `ScreenSet` keeps its screens in the order of their ids. -/
def Sorted (layout : ScreenSet) : Prop := layout.Pairwise fun s t => s.id ≤ t.id

theorem perm_addScreen (layout : ScreenSet) (screen : Screen) :
    (layout.addScreen screen).Perm (screen :: layout) := by
  induction layout with
  | nil => exact List.Perm.refl _
  | cons s layout ih =>
    rw [ScreenSet.addScreen]
    split
    · exact List.Perm.refl _
    · exact (ih.cons s).trans (List.Perm.swap screen s layout)

theorem Sorted.addScreen {layout : ScreenSet} (h : Sorted layout) (screen : Screen) :
    Sorted (layout.addScreen screen) := by
  induction layout with
  | nil => exact List.pairwise_singleton _ _
  | cons s layout ih =>
    obtain ⟨hs, hlayout⟩ := List.pairwise_cons.mp h
    rw [ScreenSet.addScreen]
    split
    · rename_i hlt
      have hle : screen.id ≤ s.id := BitVec.le_of_lt hlt
      refine List.pairwise_cons.mpr ⟨fun t ht => ?_, h⟩
      rcases List.mem_cons.mp ht with rfl | ht
      · exact hle
      · exact BitVec.le_trans hle (hs t ht)
    · rename_i hlt
      refine List.pairwise_cons.mpr ⟨fun t ht => ?_, ih hlayout⟩
      rcases List.mem_cons.mp ((perm_addScreen layout screen).mem_iff.mp ht) with rfl | ht
      · exact BitVec.not_lt.mp hlt
      · exact hs t ht

/-- A layout is known by its screens. -/
theorem eq_of_sorted {layout layout' : ScreenSet} (h : Sorted layout) (h' : Sorted layout')
    (hids : (layout.map Screen.id).Nodup) (hperm : layout.Perm layout') : layout = layout' := by
  refine hperm.eq_of_pairwise (fun s t hs ht hst hts => ?_) h h'
  have hid : s.id = t.id := BitVec.le_antisymm hst hts
  exact List.inj_on_of_nodup_map hids hs (hperm.mem_iff.mpr ht) hid

/-! ## Ids are given once -/

/-- No two outputs have one id. -/
def OutputIdMap.Injective (m : OutputIdMap) : Prop :=
  ∀ ⦃o o' id⦄, m.lookup o = some id → m.lookup o' = some id → o = o'

theorem OutputIdMap.Injective.insert {m : OutputIdMap} (h : m.Injective) {o : OutputId}
    {id : BitVec 32} (hid : m.hasId id = false) : OutputIdMap.Injective (m.insert o id) := by
  have hfree : ∀ o', m.lookup o' ≠ some id := fun o' ho' =>
    Bool.false_ne_true (hid.symm.trans (OutputIdMap.hasId_iff.mpr ⟨o', ho'⟩))
  intro o₁ o₂ id' h₁ h₂
  by_cases ho₁ : o₁ = o <;> by_cases ho₂ : o₂ = o
  · exact ho₁.trans ho₂.symm
  · subst ho₁
    rw [Finmap.lookup_insert] at h₁
    rw [Finmap.lookup_insert_of_ne _ ho₂, ← h₁] at h₂
    exact absurd h₂ (hfree o₂)
  · subst ho₂
    rw [Finmap.lookup_insert] at h₂
    rw [Finmap.lookup_insert_of_ne _ ho₁, ← h₂] at h₁
    exact absurd h₁ (hfree o₁)
  · rw [Finmap.lookup_insert_of_ne _ ho₁] at h₁
    rw [Finmap.lookup_insert_of_ne _ ho₂] at h₂
    exact h h₁ h₂

/-- A map with no more entries has its ids once as well. -/
theorem OutputIdMap.Injective.mono {m m' : OutputIdMap} (h : m.Injective)
    (hsub : ∀ o id, m'.lookup o = some id → m.lookup o = some id) : m'.Injective :=
  fun _ _ _ h₁ h₂ => h (hsub _ _ h₁) (hsub _ _ h₂)

theorem drawId_eq {m : OutputIdMap} {rands rands' : List (BitVec 32)} {id : BitVec 32}
    (h : drawId m rands = some (id, rands')) : m.hasId id = false ∧
      rands.filter (!m.hasId ·) = id :: rands'.filter (!m.hasId ·) := by
  induction rands with
  | nil => cases h
  | cons r rands ih =>
    rw [drawId] at h
    split at h
    · rename_i hr
      rw [List.filter_cons_of_neg (by simp [hr])]
      exact ih h
    · rename_i hr
      cases h
      exact ⟨by simpa using hr, List.filter_cons_of_pos (by simpa using hr)⟩

/-- The scan goes on with one more screen. -/
def LayoutScan.add (s : LayoutScan) (o : OutputId) (id : BitVec 32) (r : Rect)
    (rands : List (BitVec 32)) : LayoutScan :=
  ⟨s.newIdMap.insert o id, s.layout.addScreen ⟨id, r, 0⟩, rands⟩

section

variable {d : Desktop} {o : OutputId} {os : List OutputId} {s s' : LayoutScan}

theorem computeOutputs_of_disabled (h : d.x.dimensions o = none) :
    computeOutputs d (o :: os) s = computeOutputs d os s := by
  rw [computeOutputs, XScreen.enabled_eq, h]
  rfl

theorem computeOutputs_of_known {r : Rect} {id : BitVec 32} (h : d.x.dimensions o = some r)
    (hid : d.outputIdMap.lookup o = some id) :
    computeOutputs d (o :: os) s = computeOutputs d os (s.add o id r s.rands) := by
  have hr : Rect.ofXYWH r.tl.1 r.tl.2 r.width r.height = r := by
    simp [Rect.ofXYWH, Rect.width, Rect.height]
  rw [XScreen.dimensions] at h
  rw [computeOutputs, XScreen.enabled_eq, XScreen.dimensions, h, hid]
  simp [hr, LayoutScan.add]

theorem computeOutputs_of_unknown {r : Rect} (h : d.x.dimensions o = some r)
    (hid : d.outputIdMap.lookup o = none) :
    computeOutputs d (o :: os) s = (drawId d.outputIdMap s.rands).bind fun drawn =>
      computeOutputs d os (s.add o drawn.1 r drawn.2) := by
  have hr : Rect.ofXYWH r.tl.1 r.tl.2 r.width r.height = r := by
    simp [Rect.ofXYWH, Rect.width, Rect.height]
  rw [XScreen.dimensions] at h
  rw [computeOutputs, XScreen.enabled_eq, XScreen.dimensions, h, hid]
  simp [hr, LayoutScan.add]

/-- What is known of a scan: which outputs it has passed and which ids it has drawn. -/
structure Scanned (m : OutputIdMap) (passed : List OutputId) (drawn : List (BitVec 32))
    (s : LayoutScan) : Prop where
  named : ∀ o id, s.newIdMap.lookup o = some id →
    o ∈ passed ∧ (m.lookup o = some id ∨ id ∈ drawn)
  injective : s.newIdMap.Injective
  ids : ∀ screen ∈ s.layout, s.newIdMap.hasId screen.id = true
  nodup : (s.layout.map Screen.id).Nodup

theorem Scanned.add {m : OutputIdMap} {passed : List OutputId} {drawn drawn' : List (BitVec 32)}
    (h : Scanned m passed drawn s) {id : BitVec 32} {r : Rect} {rands : List (BitVec 32)}
    (ho : o ∉ passed) (hid : s.newIdMap.hasId id = false)
    (hdrawn : ∀ id ∈ drawn, id ∈ drawn') (hname : m.lookup o = some id ∨ id ∈ drawn') :
    Scanned m (passed ++ [o]) drawn' (s.add o id r rands) := by
  have hnew : o ∉ s.newIdMap := fun hmem => by
    obtain ⟨id', hid'⟩ := Finmap.mem_iff.mp hmem
    exact ho (h.named o id' hid').1
  have hperm := perm_addScreen s.layout ⟨id, r, 0⟩
  constructor
  · intro o' id' ho'
    by_cases heq : o' = o
    · subst heq
      rw [LayoutScan.add, Finmap.lookup_insert] at ho'
      cases ho'
      exact ⟨by simp, hname⟩
    · rw [LayoutScan.add, Finmap.lookup_insert_of_ne _ heq] at ho'
      obtain ⟨hpassed, hnamed⟩ := h.named o' id' ho'
      exact ⟨List.mem_append_left _ hpassed, hnamed.imp_right (hdrawn id')⟩
  · exact h.injective.insert hid
  · intro screen hscreen
    rw [LayoutScan.add, OutputIdMap.hasId_insert hnew]
    rcases List.mem_cons.mp (hperm.mem_iff.mp hscreen) with rfl | hscreen
    · simp
    · simp [h.ids screen hscreen]
  · rw [LayoutScan.add, (hperm.map Screen.id).nodup_iff, List.map_cons, List.nodup_cons]
    refine ⟨fun hmem => ?_, h.nodup⟩
    obtain ⟨screen, hscreen, heq⟩ := List.mem_map.mp hmem
    have hhas := h.ids screen hscreen
    rw [heq] at hhas
    exact Bool.false_ne_true (hid.symm.trans hhas)

theorem Scanned.concat {m : OutputIdMap} {passed : List OutputId} {drawn : List (BitVec 32)}
    (h : Scanned m passed drawn s) : Scanned m (passed ++ [o]) drawn s :=
  { h with named := fun o' id ho' =>
      ⟨List.mem_append_left _ (h.named o' id ho').1, (h.named o' id ho').2⟩ }

/-- An id that is neither in the map nor drawn is in no entry of the scan. -/
theorem Scanned.hasId_eq_false {m : OutputIdMap} {passed : List OutputId}
    {drawn : List (BitVec 32)} (h : Scanned m passed drawn s) {id : BitVec 32}
    (hm : ∀ o ∈ passed, m.lookup o ≠ some id) (hid : id ∉ drawn) :
    s.newIdMap.hasId id = false := by
  rw [Bool.eq_false_iff]
  intro hhas
  obtain ⟨o, ho⟩ := OutputIdMap.hasId_iff.mp hhas
  obtain ⟨hpassed, hnamed⟩ := h.named o id ho
  exact hnamed.elim (hm o hpassed) hid

/-- The number of ids that have to be invented. -/
def unknownOutputs (d : Desktop) (os : List OutputId) : ℕ :=
  os.countP fun o => d.x.vncRandRIsOutputEnabled o && (d.outputIdMap.lookup o).isNone

theorem unknownOutputs_cons_of_none (h : d.x.dimensions o = none) :
    unknownOutputs d (o :: os) = unknownOutputs d os :=
  List.countP_cons_of_neg (by simp [XScreen.enabled_eq, h])

theorem unknownOutputs_cons_of_known {id : BitVec 32} (h : d.outputIdMap.lookup o = some id) :
    unknownOutputs d (o :: os) = unknownOutputs d os :=
  List.countP_cons_of_neg (by simp [h])

theorem unknownOutputs_cons_of_unknown {r : Rect} (h : d.x.dimensions o = some r)
    (hid : d.outputIdMap.lookup o = none) :
    unknownOutputs d (o :: os) = unknownOutputs d os + 1 :=
  List.countP_cons_of_pos (by simp [XScreen.enabled_eq, h, hid])

theorem computeOutputs_scanned (hm : d.outputIdMap.Injective) :
    ∀ {os : List OutputId} {passed : List OutputId} {drawn : List (BitVec 32)}
      {s s' : LayoutScan}, (passed ++ os).Nodup → Scanned d.outputIdMap passed drawn s →
      (∀ id ∈ drawn, d.outputIdMap.hasId id = false) →
      (drawn ++ (s.rands.filter (!d.outputIdMap.hasId ·)).take (unknownOutputs d os)).Nodup →
      computeOutputs d os s = some s' →
      ∃ drawn', Scanned d.outputIdMap (passed ++ os) drawn' s'
  | [], passed, drawn, s, s', _, hs, _, _, h => by
    cases h
    exact ⟨drawn, by rwa [List.append_nil]⟩
  | o :: os, passed, drawn, s, s', hnodup, hs, hdrawn, hrands, h => by
    have ho : o ∉ passed := fun hmem =>
      List.disjoint_of_nodup_append hnodup hmem List.mem_cons_self
    have hassoc : passed ++ o :: os = (passed ++ [o]) ++ os := by simp
    rw [hassoc]
    cases hdims : d.x.dimensions o with
    | none =>
      rw [computeOutputs_of_disabled hdims] at h
      rw [unknownOutputs_cons_of_none hdims] at hrands
      exact computeOutputs_scanned hm (hassoc ▸ hnodup) hs.concat hdrawn hrands h
    | some r =>
      cases hid : d.outputIdMap.lookup o with
      | some id =>
        have hhas : d.outputIdMap.hasId id = true := OutputIdMap.hasId_iff.mpr ⟨o, hid⟩
        have hnew : s.newIdMap.hasId id = false := by
          apply hs.hasId_eq_false
          · intro o' ho' hid'
            exact ho (hm hid hid' ▸ ho')
          · intro hmem
            exact Bool.false_ne_true ((hdrawn id hmem).symm.trans hhas)
        rw [computeOutputs_of_known hdims hid] at h
        rw [unknownOutputs_cons_of_known hid] at hrands
        exact computeOutputs_scanned hm (hassoc ▸ hnodup)
          (hs.add ho hnew (fun _ h => h) (.inl hid)) hdrawn hrands h
      | none =>
        rw [computeOutputs_of_unknown hdims hid] at h
        obtain ⟨⟨id, rands⟩, hdraw, h⟩ := Option.bind_eq_some_iff.mp h
        obtain ⟨hfree, hfilter⟩ := drawId_eq hdraw
        rw [unknownOutputs_cons_of_unknown hdims hid, hfilter, List.take_succ_cons] at hrands
        have hnew : s.newIdMap.hasId id = false := by
          apply hs.hasId_eq_false
          · intro o' _ hid'
            have hhas := OutputIdMap.hasId_iff.mpr ⟨o', hid'⟩
            exact Bool.false_ne_true (hfree.symm.trans hhas)
          · intro hmem
            exact List.disjoint_of_nodup_append hrands hmem List.mem_cons_self
        have hdrawn' : ∀ id' ∈ drawn ++ [id], d.outputIdMap.hasId id' = false := by
          intro id' hid'
          rcases List.mem_append.mp hid' with hid' | hid'
          · exact hdrawn id' hid'
          · exact List.mem_singleton.mp hid' ▸ hfree
        have hrands' : (drawn ++ [id] ++ (rands.filter (!d.outputIdMap.hasId ·)).take
            (unknownOutputs d os)).Nodup := by
          simpa using hrands
        exact computeOutputs_scanned hm (hassoc ▸ hnodup)
          (hs.add ho hnew (fun _ => List.mem_append_left _) (.inr (by simp)))
          hdrawn' hrands' h

/-- What holds of the map between calls. -/
structure Consistent (d : Desktop) : Prop where
  injective : d.outputIdMap.Injective
  outputs : ∀ o ∈ d.outputIdMap, o ∈ d.x.outputs

/-- The ids that `rand()` gives to the unknown outputs are different ones. -/
def DrawsDistinct (d : Desktop) (rands : List (BitVec 32)) : Prop :=
  ((rands.filter (!d.outputIdMap.hasId ·)).take (unknownOutputs d d.x.outputs)).Nodup

theorem scanned_nil (m : OutputIdMap) (rands : List (BitVec 32)) :
    Scanned m [] [] ⟨∅, [], rands⟩ where
  named := fun _ _ h => by simp at h
  injective := fun _ _ _ h => by simp at h
  ids := fun _ h => by cases h
  nodup := List.nodup_nil

theorem computeScreenLayout_distinct (h : Consistent d) {rands : List (BitVec 32)}
    (hrands : DrawsDistinct d rands) {layout : ScreenSet} {d' : Desktop}
    (hcompute : computeScreenLayout d rands = some (layout, d')) :
    Consistent d' ∧ (layout.map Screen.id).Nodup := by
  obtain ⟨s, hs, heq⟩ := Option.map_eq_some_iff.mp hcompute
  obtain ⟨drawn, hscanned⟩ := computeOutputs_scanned h.injective
    (List.nil_append _ ▸ d.x.nodup) (scanned_nil _ rands) (fun _ h => by cases h)
    (by rwa [List.nil_append]) hs
  cases heq
  refine ⟨⟨hscanned.injective, fun o ho => ?_⟩, ?_⟩
  · obtain ⟨id, hid⟩ := Finmap.mem_iff.mp ho
    simpa using (hscanned.named o id hid).1
  · split
    · rename_i hempty
      rw [List.isEmpty_iff.mp hempty]
      exact List.nodup_singleton _
    · exact hscanned.nodup

end

/-! ## The layout that was set -/

/-- The outputs show the layout, and nothing else. -/
structure Shows (layout : ScreenSet) (d : Desktop) : Prop extends Consistent d where
  shown : ∀ o id, d.outputIdMap.lookup o = some id →
    ∃ screen ∈ layout, screen.id = id ∧ d.x.dimensions o = some screen.dimensions
  unused : ∀ o ∈ d.x.outputs, d.outputIdMap.lookup o = none → d.x.dimensions o = none
  all : ∀ screen ∈ layout, d.outputIdMap.hasId screen.id = true

/-- The screen that is computed for an output. -/
def screenAt (d : Desktop) (o : OutputId) : Option Screen :=
  (d.outputIdMap.lookup o).bind fun id => (d.x.dimensions o).map fun r => ⟨id, r, 0⟩

theorem computeOutputs_known {d : Desktop} : ∀ {os : List OutputId} {s : LayoutScan},
    (∀ o ∈ os, d.outputIdMap.lookup o = none → d.x.dimensions o = none) → Sorted s.layout →
    ∃ s', computeOutputs d os s = some s' ∧ Sorted s'.layout ∧
      s'.layout.Perm (s.layout ++ os.filterMap (screenAt d))
  | [], s, _, hs => ⟨s, rfl, hs, by simp⟩
  | o :: os, s, h, hs => by
    have hrest := fun o' ho' => h o' (List.mem_cons_of_mem o ho')
    cases hdims : d.x.dimensions o with
    | none =>
      have hat : screenAt d o = none := by simp [screenAt, hdims]
      rw [computeOutputs_of_disabled hdims, List.filterMap_cons_none hat]
      exact computeOutputs_known hrest hs
    | some r =>
      obtain ⟨id, hid⟩ : ∃ id, d.outputIdMap.lookup o = some id := by
        apply Option.ne_none_iff_exists'.mp
        intro hnone
        simp [h o List.mem_cons_self hnone] at hdims
      have hat : screenAt d o = some ⟨id, r, 0⟩ := by simp [screenAt, hid, hdims]
      obtain ⟨s', hs', hsorted, hperm⟩ :=
        computeOutputs_known (s := s.add o id r s.rands) hrest (hs.addScreen ⟨id, r, 0⟩)
      refine ⟨s', by rw [computeOutputs_of_known hdims hid, hs'], hsorted, ?_⟩
      rw [List.filterMap_cons_some hat]
      apply hperm.trans
      apply ((perm_addScreen s.layout ⟨id, r, 0⟩).append_right _).trans
      exact List.perm_middle.symm

/-- The layout's fields that outputs have no place for. -/
def NoFlags (layout : ScreenSet) : Prop := ∀ screen ∈ layout, screen.flags = 0

instance (layout : ScreenSet) : Decidable (NoFlags layout) := List.decidableBAll _ _

theorem mem_screenAt {layout : ScreenSet} {d : Desktop} (h : Shows layout d)
    (hids : (layout.map Screen.id).Nodup) (hflags : NoFlags layout) {screen : Screen} :
    screen ∈ d.x.outputs.filterMap (screenAt d) ↔ screen ∈ layout := by
  rw [List.mem_filterMap]
  constructor
  · rintro ⟨o, -, ho⟩
    obtain ⟨id, hid, ho⟩ := Option.bind_eq_some_iff.mp ho
    obtain ⟨r, hr, rfl⟩ := Option.map_eq_some_iff.mp ho
    obtain ⟨shown, hshown, rfl, hdims⟩ := h.shown o id hid
    have heq : (⟨shown.id, r, 0⟩ : Screen) = shown := by
      rw [← hflags shown hshown, Option.some.inj (hr.symm.trans hdims)]
    exact heq ▸ hshown
  · intro hscreen
    obtain ⟨o, ho⟩ := OutputIdMap.hasId_iff.mp (h.all screen hscreen)
    obtain ⟨shown, hshown, hid, hdims⟩ := h.shown o screen.id ho
    have heq : shown = screen := List.inj_on_of_nodup_map hids hshown hscreen hid
    refine ⟨o, h.outputs o (Finmap.mem_of_lookup_eq_some ho), ?_⟩
    rw [screenAt, ho, hdims, heq, ← hflags screen hscreen]
    rfl

theorem nodup_screenAt {d : Desktop} (h : d.outputIdMap.Injective) :
    (d.x.outputs.filterMap (screenAt d)).Nodup := by
  apply d.x.nodup.filterMap
  intro o o' screen ho ho'
  obtain ⟨id, hid, ho⟩ := Option.bind_eq_some_iff.mp ho
  obtain ⟨id', hid', ho'⟩ := Option.bind_eq_some_iff.mp ho'
  obtain ⟨r, hr, rfl⟩ := Option.map_eq_some_iff.mp ho
  obtain ⟨r', hr', heq⟩ := Option.map_eq_some_iff.mp ho'
  cases heq
  exact h hid hid'

/-- Outputs that show a layout give it back. -/
theorem computeScreenLayout_of_shows {layout : ScreenSet} {d : Desktop} (h : Shows layout d)
    (hne : layout ≠ []) (hids : (layout.map Screen.id).Nodup) (hsorted : Sorted layout)
    (hflags : NoFlags layout) (rands : List (BitVec 32)) :
    ∃ d', computeScreenLayout d rands = some (layout, d') := by
  obtain ⟨s, hs, hs', hperm⟩ :=
    computeOutputs_known (s := ⟨∅, [], rands⟩) h.unused List.Pairwise.nil
  have hlayout : s.layout.Perm layout := by
    refine hperm.trans ((List.perm_ext_iff_of_nodup (nodup_screenAt h.injective)
      (List.Nodup.of_map _ hids)).mpr fun screen => mem_screenAt h hids hflags)
  have heq : layout = s.layout := eq_of_sorted hsorted hs' hids hlayout.symm
  refine ⟨{ d with outputIdMap := s.newIdMap }, ?_⟩
  rw [computeScreenLayout, hs, heq]
  have hnonempty : s.layout ≠ [] := heq ▸ hne
  simp [hnonempty]

/-! ## Setting a layout -/

/-- Nothing gets lost on the way. -/
def Keeps (d : Desktop) (p : LayoutPass) : Prop :=
  Consistent p.toDesktop ∧ ∀ o ∈ d.x.outputs, o ∈ p.x.outputs

section

variable {d : Desktop} {p p' : LayoutPass} {layout : ScreenSet} {glue : RandrGlue}
  {fbWidth fbHeight : ℤ} {dryrun : Bool}

theorem Keeps.mono (h : Keeps d p) (houtputs : ∀ o ∈ p.x.outputs, o ∈ p'.x.outputs)
    (hmap : ∀ o id, p'.outputIdMap.lookup o = some id → p.outputIdMap.lookup o = some id) :
    Keeps d p' := by
  refine ⟨⟨h.1.injective.mono hmap, fun o ho => ?_⟩, fun o ho => houtputs o (h.2 o ho)⟩
  obtain ⟨id, hid⟩ := Finmap.mem_iff.mp ho
  exact houtputs o (h.1.outputs o (Finmap.mem_of_lookup_eq_some (hmap o id hid)))

theorem Keeps.insert (h : Keeps d p) {o : OutputId} {id : BitVec 32} (ho : o ∈ p.x.outputs)
    (hid : p.outputIdMap.hasId id = false) :
    Keeps d { p with outputIdMap := p.outputIdMap.insert o id } := by
  refine ⟨⟨h.1.injective.insert hid, fun o' ho' => ?_⟩, h.2⟩
  rcases Finmap.mem_insert.mp ho' with rfl | ho'
  · exact ho
  · exact h.1.outputs o' ho'

theorem createOutputs_keeps (h : Keeps d p) :
    (createOutputs glue dryrun layout p).Leaves (Keeps d) := by
  rw [createOutputs_eq]
  split
  · exact h
  · split
    · exact h
    · refine h.mono (fun o ho => ?_) fun _ _ hid => hid
      change o ∈ (withCreated glue layout p.x).outputs
      unfold withCreated
      split
      · exact List.mem_append_left _ ho
      · exact ho

theorem resizeScreen_keeps (h : Keeps d p) :
    (resizeScreen glue dryrun fbWidth fbHeight p).Leaves (Keeps d) := by
  have hlarge : Keeps d (disableLarge dryrun fbWidth fbHeight p.x.outputs p) := by
    cases dryrun with
    | true => rwa [disableLarge_dryrun]
    | false =>
      rw [disableLarge_eq _ p.x.nodup]
      exact h.mono (fun _ ho => ho) fun _ _ hid => hid
  unfold resizeScreen
  split
  · dsimp only
    split
    · exact hlarge
    · split
      · exact hlarge
      · exact hlarge.mono (fun _ ho => ho) fun _ _ hid => hid
  · exact h

theorem foldl_served_keeps (h : Keeps d p) {os : List OutputId} (hos : os.Nodup) :
    Keeps d (os.foldl (served layout dryrun) p) := by
  obtain ⟨hx, hmap, -⟩ := foldl_served layout dryrun p hos
  refine h.mono (fun o ho => ?_) fun o id hid => ?_
  · rw [hx]
    exact ho
  · rw [hmap] at hid
    split at hid
    · cases hid
    · exact hid

theorem reconfigureOutputs_keeps (h : Keeps d p) :
    (reconfigureOutputs dryrun layout p.x.outputs p).Leaves (Keeps d) := by
  rw [reconfigureOutputs_eq p p.x.nodup]
  dsimp only
  split
  · exact foldl_served_keeps h (p.x.nodup.sublist (List.takeWhile_sublist _))
  · exact foldl_served_keeps h p.x.nodup

theorem allocateOutputs_keeps : ∀ {screens : ScreenSet} {p : LayoutPass}, Keeps d p →
    (allocateOutputs dryrun screens p).Leaves (Keeps d)
  | [], p, h => h
  | screen :: screens, p, h => by
    cases hid : p.outputIdMap.hasId screen.id with
    | true =>
      rw [allocateOutputs_of_hasId hid]
      exact allocateOutputs_keeps h
    | false =>
      cases hpref : preference p with
      | nil =>
        rw [allocateOutputs_of_nil hid hpref]
        exact h
      | cons o os =>
        have ho : o ∈ p.x.outputs := (mem_preference.mp (hpref ▸ List.mem_cons_self)).1
        have hinsert := h.insert ho hid
        rw [allocateOutputs_of_cons hid hpref]
        split
        · apply allocateOutputs_keeps
          refine hinsert.mono (fun o' ho' => ?_) fun _ _ hid => hid
          rwa [outputs_assigned]
        · exact hinsert

theorem turnOffUnused_keeps (h : Keeps d p) (os : List OutputId) :
    Keeps d (turnOffUnused os p) := by
  rw [turnOffUnused_eq]
  exact h.mono (fun _ ho => ho) fun _ _ hid => hid

theorem changeScreenLayout_keeps (h : Consistent d) :
    (changeScreenLayout glue dryrun fbWidth fbHeight layout d).Leaves (Keeps d) := by
  have hstart : Keeps d { d with disabledOutputs := [] } := ⟨h, fun _ ho => ho⟩
  unfold changeScreenLayout
  dsimp only
  split
  · exact hstart
  split
  · exact hstart
  apply (createOutputs_keeps hstart).andThen
  intro p hp
  apply (resizeScreen_keeps hp).andThen
  intro p hp
  apply (reconfigureOutputs_keeps hp).andThen
  intro p hp
  apply (allocateOutputs_keeps hp).andThen
  intro p hp
  exact turnOffUnused_keeps hp _

theorem outcome_of_leaves {P : LayoutPass → Prop} {r : Throwing LayoutPass Result}
    (h : r.Leaves P) : ∃ p, P p ∧ (outcome r).2 = p.toDesktop := by
  cases r with
  | ok p => exact ⟨p, h, rfl⟩
  | error thrown => exact ⟨thrown.1, h, rfl⟩

theorem Consistent.setScreenLayout (h : Consistent d) :
    Consistent (setScreenLayout glue fbWidth fbHeight layout d).2 := by
  obtain ⟨p, hp, heq⟩ := outcome_of_leaves (changeScreenLayout_keeps h)
  exact heq ▸ hp.1

theorem Consistent.tryScreenLayout (h : Consistent d) :
    Consistent (tryScreenLayout glue fbWidth fbHeight layout d).2 := by
  obtain ⟨p, hp, heq⟩ := outcome_of_leaves (changeScreenLayout_keeps h)
  refine ⟨h.injective, fun o ho => ?_⟩
  change o ∈ (outcome _).2.x.outputs
  rw [heq]
  exact hp.2 o (h.outputs o ho)

/-- Each known output shows its screen. -/
def ShowsKnown (layout : ScreenSet) (d : Desktop) : Prop :=
  ∀ o id, d.outputIdMap.lookup o = some id →
    ∃ screen ∈ layout, screen.id = id ∧ d.x.dimensions o = some screen.dimensions

theorem showsKnown_reconfigured (h : Consistent p.toDesktop) :
    ShowsKnown layout (reconfigured layout false p).toDesktop := by
  intro o id hid
  rw [lookup_reconfigured] at hid
  split at hid
  · cases hid
  · rename_i hkept
    have ho : o ∈ p.x.outputs := h.outputs o (Finmap.mem_of_lookup_eq_some hid)
    cases hscreen : screenOf layout p.outputIdMap o with
    | none => exact absurd ⟨ho, by simp [isMissing, hscreen, hid]⟩ hkept
    | some screen =>
      have hfind : layout.find? (·.id == id) = some screen := by
        rwa [screenOf, hid, Option.bind_some] at hscreen
      refine ⟨screen, List.mem_of_find?_eq_some hfind, ?_, ?_⟩
      · simpa using List.find?_some hfind
      · rw [x_reconfigured, XScreen.dimensions_withDimensions, if_pos ho, servedDimensions,
          hscreen]
        rfl

theorem dimensions_assigned (screen : Screen) (o : OutputId) :
    (assigned false p screen o).x.dimensions =
      Function.update p.x.dimensions o (some screen.dimensions) :=
  rfl

theorem showsKnown_assigned (h : ShowsKnown layout p.toDesktop) {screen : Screen}
    (hscreen : screen ∈ layout) (o : OutputId) :
    ShowsKnown layout (assigned false p screen o).toDesktop := by
  intro o' id hid
  rw [dimensions_assigned]
  by_cases heq : o' = o
  · subst heq
    rw [assigned, Finmap.lookup_insert] at hid
    exact ⟨screen, hscreen, Option.some.inj hid, Function.update_self ..⟩
  · rw [assigned, Finmap.lookup_insert_of_ne _ heq] at hid
    rw [Function.update_of_ne heq]
    exact h o' id hid

/-- Screens get outputs, and none loses its own. -/
theorem allocateOutputs_shows : ∀ {screens : ScreenSet} {p p' : LayoutPass},
    (∀ screen ∈ screens, screen ∈ layout) → ShowsKnown layout p.toDesktop →
    allocateOutputs false screens p = .ok p' →
    ShowsKnown layout p'.toDesktop ∧
      (∀ id, p.outputIdMap.hasId id = true → p'.outputIdMap.hasId id = true) ∧
      ∀ screen ∈ screens, p'.outputIdMap.hasId screen.id = true
  | [], p, p', _, hp, h => by
    cases h
    exact ⟨hp, fun _ h => h, by simp⟩
  | screen :: screens, p, p', hsub, hp, h => by
    have hrest := fun s hs => hsub s (List.mem_cons_of_mem screen hs)
    cases hid : p.outputIdMap.hasId screen.id with
    | true =>
      rw [allocateOutputs_of_hasId hid] at h
      obtain ⟨hshown, hkept, hall⟩ := allocateOutputs_shows hrest hp h
      refine ⟨hshown, hkept, fun s hs => ?_⟩
      rcases List.mem_cons.mp hs with rfl | hs
      · exact hkept _ hid
      · exact hall s hs
    | false =>
      cases hpref : preference p with
      | nil =>
        rw [allocateOutputs_of_nil hid hpref] at h
        cases h
      | cons o os =>
        have hnew : o ∉ p.outputIdMap :=
          (mem_preference.mp (hpref ▸ List.mem_cons_self)).2.1
        rw [allocateOutputs_of_cons hid hpref] at h
        split at h
        · obtain ⟨hshown, hkept, hall⟩ := allocateOutputs_shows hrest
            (showsKnown_assigned hp (hsub screen List.mem_cons_self) o) h
          have hassigned : ∀ id, (assigned false p screen o).outputIdMap.hasId id =
              (p.outputIdMap.hasId id || screen.id == id) :=
            OutputIdMap.hasId_insert hnew screen.id
          refine ⟨hshown, fun id h => hkept id (by simp [hassigned, h]), fun s hs => ?_⟩
          rcases List.mem_cons.mp hs with rfl | hs
          · exact hkept _ (by simp [hassigned])
          · exact hall s hs
        · cases h

theorem prepared_consistent (h : Consistent d) :
    Consistent (prepared glue fbWidth fbHeight layout false d).toDesktop := by
  refine ⟨h.injective, fun o ho => ?_⟩
  change o ∈ (withCreated glue layout d.x).outputs
  unfold withCreated
  split
  · exact List.mem_append_left _ (h.outputs o ho)
  · exact h.outputs o ho

theorem shows_of_success (h : Consistent d) (hlayout : (layout.map Screen.id).Nodup)
    (hresult : (setScreenLayout glue fbWidth fbHeight layout d).1 = .resultSuccess) :
    Shows layout (setScreenLayout glue fbWidth fbHeight layout d).2 := by
  have hconsistent : Consistent (setScreenLayout glue fbWidth fbHeight layout d).2 :=
    h.setScreenLayout
  rw [setScreenLayout] at hresult hconsistent ⊢
  cases hrefused : isRefused glue fbWidth fbHeight layout d.x with
  | true =>
    obtain ⟨p, result, heq, hne, -⟩ := changeScreenLayout_of_refused false hrefused
    rw [heq] at hresult
    exact absurd hresult hne
  | false =>
    rw [changeScreenLayout_eq hrefused] at hresult hconsistent ⊢
    have hgood := ((outcome_arrange_iff hlayout _ _).mp hresult).1
    rw [arrange_of_good hgood] at hresult hconsistent ⊢
    have halloc := allocated false
      (reconfigured layout false (prepared glue fbWidth fbHeight layout false d)) hlayout
    cases hres : allocateOutputs false layout
        (reconfigured layout false (prepared glue fbWidth fbHeight layout false d)) with
    | error thrown =>
      rw [hres] at hresult halloc
      have hinvalid : thrown.2 = .resultSuccess := hresult
      rw [halloc.2.2] at hinvalid
      cases hinvalid
    | ok p' =>
      obtain ⟨hshown, -, hall⟩ := allocateOutputs_shows (fun _ h => h)
        (showsKnown_reconfigured (prepared_consistent h)) hres
      rw [hres] at hconsistent
      refine ⟨hconsistent, ?_, ?_, ?_⟩
      all_goals
        simp only [Throwing.andThen, outcome, turnOffUnused_eq]
      · intro o id hid
        rw [XScreen.dimensions_withDimensions,
          if_neg fun hcon => hcon.2 (Finmap.mem_of_lookup_eq_some hid)]
        exact hshown o id hid
      · intro o ho hid
        rw [XScreen.dimensions_withDimensions,
          if_pos ⟨ho, Finmap.lookup_eq_none.mp hid⟩]
      · exact hall

end

/-! ## Runs -/

inductive LayoutCall
  | setScreenLayout (fbWidth fbHeight : ℤ) (layout : ScreenSet)
  | tryScreenLayout (fbWidth fbHeight : ℤ) (layout : ScreenSet)
  | computeScreenLayout (rands : List (BitVec 32))

section

variable (glue : RandrGlue)

/-- What a call leaves behind. One that waits for more random numbers has not returned. -/
def layoutStep (d : Desktop) : LayoutCall → Desktop
  | .setScreenLayout fbWidth fbHeight layout =>
    (setScreenLayout glue fbWidth fbHeight layout d).2
  | .tryScreenLayout fbWidth fbHeight layout =>
    (tryScreenLayout glue fbWidth fbHeight layout d).2
  | .computeScreenLayout rands => ((computeScreenLayout d rands).map Prod.snd).getD d

/-- The end of `VNCSConnectionST::setDesktopSize`, when the server's layout has been computed
again: "Desktop configured a different screen layout than requested". -/
def configuresDifferent (fbWidth fbHeight : ℤ) (layout : ScreenSet) (d : Desktop)
    (rands : List (BitVec 32)) : Bool :=
  let (result, d') := setScreenLayout glue fbWidth fbHeight layout d
  decide (result = .resultSuccess) &&
    (computeScreenLayout d' rands).any fun computed => decide (computed.1 ≠ layout)

/-- A layout that was set comes back, and a computed one has no id twice. -/
def LayoutRight (d : Desktop) : LayoutCall → Prop
  | .setScreenLayout fbWidth fbHeight layout =>
    validate layout fbWidth fbHeight = true → Sorted layout →
      ((setScreenLayout glue fbWidth fbHeight layout d).1 = .resultSuccess →
        ∀ rands, ∃ d', computeScreenLayout (setScreenLayout glue fbWidth fbHeight layout d).2
          rands = some (layout, d')) ∧
      ∀ rands, configuresDifferent glue fbWidth fbHeight layout d rands = false
  | .tryScreenLayout .. => True
  | .computeScreenLayout rands =>
    ∀ layout d', computeScreenLayout d rands = some (layout, d') →
      (layout.map Screen.id).Nodup

/-- No screen that is set has flags, and invented ids are different ones. -/
def PlainCall (d : Desktop) : LayoutCall → Prop
  | .setScreenLayout _ _ layout => NoFlags layout
  | .tryScreenLayout .. => True
  | .computeScreenLayout rands => DrawsDistinct d rands

end

section

variable {glue : RandrGlue} {d : Desktop}

theorem Consistent.layoutStep (h : Consistent d) {call : LayoutCall} (hplain : PlainCall d call) :
    Consistent (layoutStep glue d call) := by
  cases call with
  | setScreenLayout fbWidth fbHeight layout => exact h.setScreenLayout
  | tryScreenLayout fbWidth fbHeight layout => exact h.tryScreenLayout
  | computeScreenLayout rands =>
    change Consistent (((computeScreenLayout d rands).map Prod.snd).getD d)
    cases hcompute : computeScreenLayout d rands with
    | none => exact h
    | some computed => exact (computeScreenLayout_distinct h hplain hcompute).1

theorem layoutRight_of_plain (h : Consistent d) {call : LayoutCall} (hplain : PlainCall d call) :
    LayoutRight glue d call := by
  cases call with
  | setScreenLayout fbWidth fbHeight layout =>
    intro hvalid hsorted
    obtain ⟨hne, hids⟩ := nodup_of_validate hvalid
    have hback : (setScreenLayout glue fbWidth fbHeight layout d).1 = .resultSuccess →
        ∀ rands, ∃ d', computeScreenLayout (setScreenLayout glue fbWidth fbHeight layout d).2
          rands = some (layout, d') := fun hresult rands =>
      computeScreenLayout_of_shows (shows_of_success h hids hresult) hne hids hsorted hplain rands
    refine ⟨hback, fun rands => ?_⟩
    rw [configuresDifferent]
    by_cases hresult : (setScreenLayout glue fbWidth fbHeight layout d).1 = .resultSuccess
    · obtain ⟨d', hcompute⟩ := hback hresult rands
      simp [hcompute]
    · simp [hresult]
  | tryScreenLayout fbWidth fbHeight layout => trivial
  | computeScreenLayout rands =>
    intro layout d' hcompute
    exact (computeScreenLayout_distinct h hplain hcompute).2

theorem consistent_start (x : XScreen) : Consistent ⟨x, ∅⟩ where
  injective := fun _ _ _ h => by simp at h
  outputs := fun _ h => absurd h Finmap.notMem_empty

/-- In a run of calls that starts with an empty map, layouts come back as they were set and no
computed layout has an id twice, as long as no flags are set and no id is invented twice. -/
theorem screen_layouts_round_trip (x : XScreen) {calls : List LayoutCall}
    (h : Guarded (layoutStep glue) PlainCall ⟨x, ∅⟩ calls) :
    Guarded (layoutStep glue) (LayoutRight glue) ⟨x, ∅⟩ calls :=
  guarded_imp (fun _ _ hd hplain => hd.layoutStep hplain)
    (fun _ _ hd hplain => layoutRight_of_plain hd hplain) (consistent_start x) h

end

/-- Two outputs are on, and none has an id. -/
def twoOutputs : XScreen where
  width := 800
  height := 600
  outputs := [1, 2]
  nodup := by decide
  output := fun o =>
    ⟨some (if o = 1 then Rect.ofXYWH 0 0 400 600 else Rect.ofXYWH 400 0 400 600), true, true,
      fun _ _ => true⟩
  clones := false

/-- One screen on all of the framebuffer. -/
def wholeScreen (flags : BitVec 32) : ScreenSet := [⟨9, Rect.ofXYWH 0 0 800 600, flags⟩]

theorem screen_layouts_round_trip_twoOutputs :
    Guarded (layoutStep fixedGlue) (LayoutRight fixedGlue) ⟨twoOutputs, ∅⟩
      [.computeScreenLayout [5, 6], .setScreenLayout 800 600 (wholeScreen 0)] := by
  apply screen_layouts_round_trip
  refine ⟨?_, ?_, trivial⟩
  · change List.Nodup _
    decide
  · change NoFlags _
    decide

/-- Flags do not come back, and `rand()` may return one number twice. -/
theorem screen_layouts_differ :
    ¬ Guarded (layoutStep fixedGlue) (LayoutRight fixedGlue) ⟨twoOutputs, ∅⟩
      [.setScreenLayout 800 600 (wholeScreen 1)] ∧
    ¬ Guarded (layoutStep fixedGlue) (LayoutRight fixedGlue) ⟨twoOutputs, ∅⟩
      [.computeScreenLayout [5, 5]] := by
  constructor
  · rintro ⟨h, -⟩
    have hsame := (h (by decide) (List.pairwise_singleton _ _)).2 []
    exact absurd hsame (by decide)
  · rintro ⟨h, -⟩
    have hids : (computeScreenLayout ⟨twoOutputs, ∅⟩ [5, 5]).map (·.1.map Screen.id) =
        some [5, 5] := by decide
    obtain ⟨⟨layout, d'⟩, hcompute, hlayout⟩ := Option.map_eq_some_iff.mp hids
    have hnodup := h layout d' hcompute
    rw [hlayout] at hnodup
    exact absurd hnodup (by decide)

end KasmVNC.Unix
