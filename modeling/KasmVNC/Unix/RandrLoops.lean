import KasmVNC.Unix.Randr

/-!
# What the loops of a layout change leave behind

Each loop goes once over the outputs, or over the screens, and in a step looks at one output
only. So what it leaves of an output can be said from the state before the loop.
-/

namespace KasmVNC.Unix

open KasmVNC.Lib KasmVNC.Rfb

/-! ## Changing dimensions -/

namespace XScreen

def dimensions (x : XScreen) (o : OutputId) : Option Rect := (x.output o).dimensions

/-- The same server with other dimensions on its outputs. -/
def withDimensions (x : XScreen) (f : OutputId → Option Rect) : XScreen :=
  { x with output := fun o => { x.output o with dimensions := f o } }

variable {x : XScreen} {f g : OutputId → Option Rect} {o : OutputId}

@[simp] theorem dimensions_withDimensions : (x.withDimensions f).dimensions = f := rfl

@[simp] theorem outputs_withDimensions : (x.withDimensions f).outputs = x.outputs := rfl

@[simp] theorem usable_withDimensions :
    (x.withDimensions f).vncRandRIsOutputUsable = x.vncRandRIsOutputUsable := rfl

@[simp] theorem connected_withDimensions :
    (x.withDimensions f).vncRandRIsOutputConnected = x.vncRandRIsOutputConnected := rfl

@[simp] theorem mode_withDimensions :
    (x.withDimensions f).vncRandRCheckOutputMode = x.vncRandRCheckOutputMode := rfl

@[simp] theorem withDimensions_withDimensions :
    (x.withDimensions f).withDimensions g = x.withDimensions g := rfl

@[simp] theorem withDimensions_dimensions : x.withDimensions x.dimensions = x := rfl

theorem enabled_eq : x.vncRandRIsOutputEnabled o = (x.dimensions o).isSome := rfl

@[simp] theorem enabled_withDimensions :
    (x.withDimensions f).vncRandRIsOutputEnabled o = (f o).isSome := rfl

theorem withDimensions_eq_self_iff : x.withDimensions f = x ↔ f = x.dimensions := by
  constructor
  · intro h
    rw [← dimensions_withDimensions (x := x) (f := f), h]
  · rintro rfl
    exact withDimensions_dimensions

theorem setDimensions_eq (d : Option Rect) :
    x.setDimensions o d = x.withDimensions (Function.update x.dimensions o d) := by
  unfold setDimensions withDimensions
  congr 1
  funext o'
  by_cases ho : o' = o
  · subst ho
    simp
  · simp only [Function.update_of_ne ho]
    rfl

theorem disable_eq : x.vncRandRDisableOutput o =
    x.withDimensions (Function.update x.dimensions o none) :=
  setDimensions_eq none

theorem reconfigure_eq (r : Rect) :
    x.vncRandRReconfigureOutput o r.tl.1 r.tl.2 r.width r.height =
      x.withDimensions (Function.update x.dimensions o (some r)) := by
  have hr : Rect.ofXYWH r.tl.1 r.tl.2 r.width r.height = r := by
    simp [Rect.ofXYWH, Rect.width, Rect.height]
  rw [vncRandRReconfigureOutput, hr, setDimensions_eq]

end XScreen

/-! ## Outputs that are too large -/

/-- The output shows something outside the new framebuffer. -/
def isLarge (fbWidth fbHeight : ℤ) (x : XScreen) (o : OutputId) : Bool :=
  (x.dimensions o).any fun r =>
    r.tl.1 + r.width > fbWidth ∨ r.tl.2 + r.height > fbHeight

theorem disableLarge_dryrun (fbWidth fbHeight : ℤ) (os : List OutputId) (p : LayoutPass) :
    disableLarge true fbWidth fbHeight os p = p := by
  induction os with
  | nil => rfl
  | cons o os ih =>
    unfold disableLarge
    split
    · exact ih
    · simp only [if_true, ite_self]
      exact ih

theorem disableLarge_cons (fbWidth fbHeight : ℤ) (o : OutputId) (os : List OutputId)
    (p : LayoutPass) :
    disableLarge false fbWidth fbHeight (o :: os) p =
      if isLarge fbWidth fbHeight p.x o then
        disableLarge false fbWidth fbHeight os
          { p with
            x := p.x.withDimensions (Function.update p.x.dimensions o none)
            disabledOutputs := o :: p.disabledOutputs }
      else disableLarge false fbWidth fbHeight os p := by
  rw [disableLarge, isLarge, XScreen.dimensions]
  cases (p.x.output o).dimensions with
  | none => rfl
  | some r =>
    simp only [Option.any_some, decide_eq_true_eq, XScreen.disable_eq]
    rfl

theorem disableLarge_eq {fbWidth fbHeight : ℤ} : ∀ {os : List OutputId} (p : LayoutPass),
    os.Nodup → disableLarge false fbWidth fbHeight os p =
      { p with
        x := p.x.withDimensions fun o =>
          if o ∈ os ∧ isLarge fbWidth fbHeight p.x o then none else p.x.dimensions o
        disabledOutputs :=
          (os.filter (isLarge fbWidth fbHeight p.x)).reverse ++ p.disabledOutputs }
  | [], p, _ => by simp [disableLarge]
  | o :: os, p, h => by
    obtain ⟨ho, hos⟩ := List.nodup_cons.mp h
    rw [disableLarge_cons]
    by_cases hlarge : isLarge fbWidth fbHeight p.x o = true
    · have hsame : ∀ o' ∈ os, isLarge fbWidth fbHeight
          (p.x.withDimensions (Function.update p.x.dimensions o none)) o' =
          isLarge fbWidth fbHeight p.x o' := by
        intro o' ho'
        have hne : o' ≠ o := fun heq => ho (heq ▸ ho')
        simp [isLarge, Function.update_of_ne hne]
      have hdims : (fun o' =>
          if o' ∈ os ∧ isLarge fbWidth fbHeight
            (p.x.withDimensions (Function.update p.x.dimensions o none)) o' then none
          else Function.update p.x.dimensions o none o') =
          fun o' => if o' ∈ o :: os ∧ isLarge fbWidth fbHeight p.x o' then none
            else p.x.dimensions o' := by
        funext o'
        by_cases heq : o' = o
        · subst heq
          simp [ho, hlarge]
        · rw [Function.update_of_ne heq]
          by_cases hmem : o' ∈ os
          · simp [hmem, hsame o' hmem]
          · simp [hmem, heq]
      rw [if_pos hlarge, disableLarge_eq _ hos, List.filter_congr hsame,
        List.filter_cons_of_pos hlarge, List.reverse_cons, List.append_assoc]
      simp only [XScreen.withDimensions_withDimensions, XScreen.dimensions_withDimensions,
        hdims, List.singleton_append]
    · have hdims : (fun o' => if o' ∈ os ∧ isLarge fbWidth fbHeight p.x o' then none
            else p.x.dimensions o') =
          fun o' => if o' ∈ o :: os ∧ isLarge fbWidth fbHeight p.x o' then none
            else p.x.dimensions o' := by
        funext o'
        by_cases heq : o' = o
        · subst heq
          simp [hlarge]
        · simp [heq]
      rw [if_neg hlarge, disableLarge_eq _ hos, List.filter_cons_of_neg hlarge, hdims]

/-! ## Known outputs -/

section

variable (layout : ScreenSet)

/-- The screen of the layout that an output is to show. -/
def screenOf (m : OutputIdMap) (o : OutputId) : Option Screen :=
  (m.lookup o).bind fun id => layout.find? (·.id == id)

/-- The output has an id, but the layout has no such screen. -/
def isMissing (m : OutputIdMap) (o : OutputId) : Bool :=
  (m.lookup o).isSome && (screenOf layout m o).isNone

/-- The output is to show a screen and cannot. -/
def cannotServe (x : XScreen) (m : OutputIdMap) (o : OutputId) : Bool :=
  (screenOf layout m o).any fun screen => !(x.vncRandRIsOutputUsable o &&
    x.vncRandRCheckOutputMode o screen.dimensions.width screen.dimensions.height)

/-- What an output shows after its turn. -/
def servedDimensions (dryrun : Bool) (m : OutputIdMap) (o : OutputId) (before : Option Rect) :
    Option Rect :=
  match screenOf layout m o with
  | none => if isMissing layout m o then none else before
  | some screen => if dryrun then before else some screen.dimensions

/-- What the turn of an output leaves, when it can serve. -/
def served (dryrun : Bool) (p : LayoutPass) (o : OutputId) : LayoutPass :=
  { p with
    x := p.x.withDimensions (Function.update p.x.dimensions o
      (servedDimensions layout dryrun p.outputIdMap o (p.x.dimensions o)))
    outputIdMap :=
      if isMissing layout p.outputIdMap o then p.outputIdMap.erase o else p.outputIdMap }

variable {layout} {dryrun : Bool} {p : LayoutPass} {o : OutputId} {os : List OutputId}

theorem reconfigureOutputs_cons :
    reconfigureOutputs dryrun layout (o :: os) p =
      if cannotServe layout p.x p.outputIdMap o then .error (p, .resultInvalid)
      else reconfigureOutputs dryrun layout os (served layout dryrun p o) := by
  rw [reconfigureOutputs, cannotServe, served, servedDimensions, isMissing, screenOf]
  cases hid : p.outputIdMap.lookup o with
  | none => simp
  | some id =>
    rcases Option.eq_none_or_eq_some (layout.find? (·.id == id)) with hfind | ⟨screen, hfind⟩
    · simp [hfind, XScreen.disable_eq]
    · simp only [Option.bind_some, hfind, XScreen.reconfigure_eq]
      cases husable : p.x.vncRandRIsOutputUsable o with
      | false => simp
      | true =>
        cases hmode : p.x.vncRandRCheckOutputMode o screen.dimensions.width
            screen.dimensions.height with
        | false => simp [hmode]
        | true => cases dryrun <;> simp [hmode]

theorem screenOf_congr {m m' : OutputIdMap} (h : m.lookup o = m'.lookup o) :
    screenOf layout m o = screenOf layout m' o := by
  rw [screenOf, screenOf, h]

theorem isMissing_congr {m m' : OutputIdMap} (h : m.lookup o = m'.lookup o) :
    isMissing layout m o = isMissing layout m' o := by
  rw [isMissing, isMissing, screenOf_congr h, h]

theorem servedDimensions_congr {m m' : OutputIdMap} (h : m.lookup o = m'.lookup o) :
    servedDimensions layout dryrun m o = servedDimensions layout dryrun m' o := by
  funext before
  rw [servedDimensions, servedDimensions, screenOf_congr h, isMissing_congr h]

theorem x_served : (served layout dryrun p o).x = p.x.withDimensions (Function.update
    p.x.dimensions o (servedDimensions layout dryrun p.outputIdMap o (p.x.dimensions o))) :=
  rfl

theorem lookup_served (o' : OutputId) :
    (served layout dryrun p o).outputIdMap.lookup o' =
      if o' = o ∧ isMissing layout p.outputIdMap o then none else p.outputIdMap.lookup o' := by
  rw [served]
  cases hmissing : isMissing layout p.outputIdMap o with
  | false => simp
  | true =>
    by_cases ho : o' = o
    · subst ho
      simp
    · simp [ho]

/-- Another output is left as it is. -/
theorem lookup_served_ne {o' : OutputId} (h : o' ≠ o) :
    (served layout dryrun p o).outputIdMap.lookup o' = p.outputIdMap.lookup o' := by
  rw [lookup_served, if_neg fun hcon => h hcon.1]

theorem cannotServe_served_ne {o' : OutputId} (h : o' ≠ o) :
    cannotServe layout (served layout dryrun p o).x (served layout dryrun p o).outputIdMap o' =
      cannotServe layout p.x p.outputIdMap o' := by
  rw [cannotServe, screenOf_congr (lookup_served_ne h)]
  rfl

/-- What the turns of several outputs leave. -/
theorem foldl_served (layout : ScreenSet) (dryrun : Bool) : ∀ {os : List OutputId} (p : LayoutPass),
    os.Nodup →
    (os.foldl (served layout dryrun) p).x = p.x.withDimensions (fun o =>
      if o ∈ os then servedDimensions layout dryrun p.outputIdMap o (p.x.dimensions o)
      else p.x.dimensions o) ∧
    (∀ o, (os.foldl (served layout dryrun) p).outputIdMap.lookup o =
      if o ∈ os ∧ isMissing layout p.outputIdMap o then none else p.outputIdMap.lookup o) ∧
    (os.foldl (served layout dryrun) p).disabledOutputs = p.disabledOutputs
  | [], p, _ => by simp
  | o :: os, p, h => by
    obtain ⟨ho, hos⟩ := List.nodup_cons.mp h
    obtain ⟨hx, hmap, hdisabled⟩ := foldl_served layout dryrun (served layout dryrun p o) hos
    have hne : ∀ o' ∈ os, o' ≠ o := fun o' ho' heq => ho (heq ▸ ho')
    refine ⟨?_, ?_, ?_⟩
    · rw [List.foldl_cons, hx, x_served, XScreen.withDimensions_withDimensions,
        XScreen.dimensions_withDimensions]
      congr 1
      funext o'
      by_cases hmem : o' ∈ os
      · rw [servedDimensions_congr (lookup_served_ne (hne o' hmem)),
          Function.update_of_ne (hne o' hmem)]
        simp [hmem]
      · by_cases heq : o' = o
        · subst heq
          simp [hmem]
        · simp [hmem, heq]
    · intro o'
      rw [List.foldl_cons, hmap]
      by_cases hmem : o' ∈ os
      · rw [isMissing_congr (lookup_served_ne (hne o' hmem)), lookup_served_ne (hne o' hmem)]
        simp [hmem]
      · rw [lookup_served]
        by_cases heq : o' = o
        · subst heq
          simp [hmem]
        · simp [hmem, heq]
    · rw [List.foldl_cons, hdisabled]
      rfl

theorem takeWhile_congr {α : Type*} {keep keep' : α → Bool} {l : List α}
    (h : ∀ a ∈ l, keep a = keep' a) : l.takeWhile keep = l.takeWhile keep' := by
  induction l with
  | nil => rfl
  | cons a l ih =>
    rw [List.takeWhile_cons, List.takeWhile_cons, h a List.mem_cons_self,
      ih fun b hb => h b (List.mem_cons_of_mem a hb)]

/-- The loop goes on until an output is met that cannot serve. -/
theorem reconfigureOutputs_eq : ∀ {os : List OutputId} (p : LayoutPass), os.Nodup →
    reconfigureOutputs dryrun layout os p =
      let bad := cannotServe layout p.x p.outputIdMap
      if os.any bad then
        .error ((os.takeWhile (!bad ·)).foldl (served layout dryrun) p, .resultInvalid)
      else .ok (os.foldl (served layout dryrun) p)
  | [], p, _ => by simp [reconfigureOutputs]
  | o :: os, p, h => by
    obtain ⟨ho, hos⟩ := List.nodup_cons.mp h
    have hsame : ∀ o' ∈ os, cannotServe layout (served layout dryrun p o).x
        (served layout dryrun p o).outputIdMap o' = cannotServe layout p.x p.outputIdMap o' :=
      fun o' ho' => cannotServe_served_ne fun heq => ho (heq ▸ ho')
    rw [reconfigureOutputs_cons]
    cases hbad : cannotServe layout p.x p.outputIdMap o with
    | true => simp [hbad]
    | false =>
      have hany : os.any (cannotServe layout (served layout dryrun p o).x
          (served layout dryrun p o).outputIdMap) =
          os.any (cannotServe layout p.x p.outputIdMap) := by
        rw [Bool.eq_iff_iff, List.any_eq_true, List.any_eq_true]
        exact exists_congr fun o' => and_congr_right fun ho' => by rw [hsame o' ho']
      have htake := takeWhile_congr fun o' ho' => congrArg (!·) (hsame o' ho')
      simp only [reconfigureOutputs_eq _ hos, hany, htake]
      simp [hbad]

end

/-! ## New screens -/

/-- The outputs that a new screen can have, best first. -/
def preference (p : LayoutPass) : List OutputId :=
  prefer [p.x.vncRandRIsOutputEnabled, (p.disabledOutputs.contains ·),
      p.x.vncRandRIsOutputConnected]
    (p.x.outputs.filter fun o => !decide (o ∈ p.outputIdMap) && p.x.vncRandRIsOutputUsable o)

theorem getPreferredScreenOutput_eq (p : LayoutPass) :
    getPreferredScreenOutput p = (preference p).head? := by
  rw [preference, head?_prefer]
  rfl

theorem mem_preference {p : LayoutPass} {o : OutputId} : o ∈ preference p ↔
    o ∈ p.x.outputs ∧ o ∉ p.outputIdMap ∧ p.x.vncRandRIsOutputUsable o = true := by
  simp [preference]

theorem nodup_preference (p : LayoutPass) : (preference p).Nodup :=
  nodup_prefer (p.x.nodup.filter _)

/-- The first of the outputs for the first of the screens, and so on. -/
def fits (mode : OutputId → ℤ → ℤ → Bool) : List Screen → List OutputId → Bool
  | [], _ => true
  | _ :: _, [] => false
  | screen :: screens, o :: os =>
    mode o screen.dimensions.width screen.dimensions.height && fits mode screens os

/-- What is left when an output has been found for a screen. -/
def assigned (dryrun : Bool) (p : LayoutPass) (screen : Screen) (o : OutputId) : LayoutPass :=
  { p with
    x := if dryrun then p.x else
      p.x.withDimensions (Function.update p.x.dimensions o (some screen.dimensions))
    outputIdMap := p.outputIdMap.insert o screen.id }

section

variable {dryrun : Bool} {p : LayoutPass} {screen : Screen} {screens : ScreenSet} {o : OutputId}
  {os : List OutputId}

@[simp] theorem outputs_assigned : (assigned dryrun p screen o).x.outputs = p.x.outputs := by
  cases dryrun <;> rfl

@[simp] theorem usable_assigned : (assigned dryrun p screen o).x.vncRandRIsOutputUsable =
    p.x.vncRandRIsOutputUsable := by
  cases dryrun <;> rfl

@[simp] theorem connected_assigned : (assigned dryrun p screen o).x.vncRandRIsOutputConnected =
    p.x.vncRandRIsOutputConnected := by
  cases dryrun <;> rfl

@[simp] theorem mode_assigned : (assigned dryrun p screen o).x.vncRandRCheckOutputMode =
    p.x.vncRandRCheckOutputMode := by
  cases dryrun <;> rfl

theorem enabled_assigned_ne {o' : OutputId} (h : o' ≠ o) :
    (assigned dryrun p screen o).x.vncRandRIsOutputEnabled o' =
      p.x.vncRandRIsOutputEnabled o' := by
  cases dryrun with
  | false =>
    change (Function.update p.x.dimensions o _ o').isSome = _
    rw [Function.update_of_ne h]
    rfl
  | true => rfl

/-- The rest keeps its order. -/
theorem preference_assigned (h : preference p = o :: os) :
    preference (assigned dryrun p screen o) = os := by
  have hnodup := nodup_preference p
  rw [h, List.nodup_cons] at hnodup
  have hfree : ((assigned dryrun p screen o).x.outputs.filter fun o' =>
      !decide (o' ∈ (assigned dryrun p screen o).outputIdMap) &&
        (assigned dryrun p screen o).x.vncRandRIsOutputUsable o') =
      (p.x.outputs.filter fun o' =>
        !decide (o' ∈ p.outputIdMap) && p.x.vncRandRIsOutputUsable o').filter (· ≠ o) := by
    rw [List.filter_filter, outputs_assigned, usable_assigned]
    apply List.filter_congr
    intro o' _
    simp [assigned, Finmap.mem_insert, Bool.and_assoc]
  have hkinds : preference (assigned dryrun p screen o) =
      prefer [p.x.vncRandRIsOutputEnabled, (p.disabledOutputs.contains ·),
          p.x.vncRandRIsOutputConnected]
        ((p.x.outputs.filter fun o' =>
          !decide (o' ∈ p.outputIdMap) && p.x.vncRandRIsOutputUsable o').filter (· ≠ o)) := by
    rw [preference, hfree]
    apply prefer_congr
    refine .cons ?_ (.cons (fun _ _ => rfl) (.cons ?_ .nil))
    · intro o' ho'
      exact enabled_assigned_ne (by simpa using (List.mem_filter.mp ho').2)
    · rw [connected_assigned]
      exact fun _ _ => rfl
  calc preference (assigned dryrun p screen o)
      = (preference p).filter (· ≠ o) := by rw [hkinds, prefer_filter, preference]
    _ = (o :: os).filter (· ≠ o) := by rw [h]
    _ = os := by
        rw [List.filter_cons_of_neg (by simp), List.filter_eq_self]
        intro o' ho'
        have hne : o' ≠ o := fun heq => hnodup.1 (heq ▸ ho')
        simpa using hne

theorem allocateOutputs_of_hasId (h : p.outputIdMap.hasId screen.id = true) :
    allocateOutputs dryrun (screen :: screens) p = allocateOutputs dryrun screens p := by
  rw [allocateOutputs, if_pos h]

theorem allocateOutputs_of_nil (h : p.outputIdMap.hasId screen.id = false)
    (hpref : preference p = []) :
    allocateOutputs dryrun (screen :: screens) p = .error (p, .resultInvalid) := by
  rw [allocateOutputs, getPreferredScreenOutput_eq, hpref]
  simp [h]

theorem allocateOutputs_of_cons (h : p.outputIdMap.hasId screen.id = false)
    (hpref : preference p = o :: os) :
    allocateOutputs dryrun (screen :: screens) p =
      if p.x.vncRandRCheckOutputMode o screen.dimensions.width screen.dimensions.height then
        allocateOutputs dryrun screens (assigned dryrun p screen o)
      else .error ({ p with outputIdMap := p.outputIdMap.insert o screen.id }, .resultInvalid) := by
  have husable : p.x.vncRandRIsOutputUsable o = true := by
    have hmem : o ∈ preference p := hpref ▸ List.mem_cons_self
    exact (mem_preference.mp hmem).2.2
  rw [allocateOutputs, getPreferredScreenOutput_eq, hpref]
  simp only [h, husable, List.head?_cons, XScreen.reconfigure_eq, assigned]
  cases p.x.vncRandRCheckOutputMode o screen.dimensions.width screen.dimensions.height with
  | false => simp
  | true => cases dryrun <;> simp

/-- The screens of a list that no output shows. -/
def unassigned (m : OutputIdMap) (screens : ScreenSet) : List Screen :=
  screens.filter fun screen => !m.hasId screen.id

theorem OutputIdMap.hasId_insert {m : OutputIdMap} (ho : o ∉ m) (id id' : BitVec 32) :
    OutputIdMap.hasId (m.insert o id) id' = (m.hasId id' || id == id') := by
  rw [Bool.eq_iff_iff, Bool.or_eq_true, OutputIdMap.hasId_iff, OutputIdMap.hasId_iff, beq_iff_eq]
  constructor
  · rintro ⟨o', ho'⟩
    by_cases heq : o' = o
    · subst heq
      rw [Finmap.lookup_insert] at ho'
      exact .inr (Option.some.inj ho')
    · rw [Finmap.lookup_insert_of_ne _ heq] at ho'
      exact .inl ⟨o', ho'⟩
  · rintro (⟨o', ho'⟩ | rfl)
    · have hne : o' ≠ o := fun heq => ho (heq ▸ Finmap.mem_of_lookup_eq_some ho')
      exact ⟨o', by rw [Finmap.lookup_insert_of_ne _ hne, ho']⟩
    · exact ⟨o, Finmap.lookup_insert _⟩

theorem unassigned_insert {m : OutputIdMap} (ho : o ∉ m)
    (h : ∀ s ∈ screens, s.id ≠ screen.id) :
    unassigned (m.insert o screen.id) screens = unassigned m screens := by
  apply List.filter_congr
  intro s hs
  have hne : (screen.id == s.id) = false := beq_false_of_ne (h s hs).symm
  rw [OutputIdMap.hasId_insert ho, hne, Bool.or_false]

/-- What comes out of the search for outputs. -/
def Allocated (dryrun : Bool) (screens : ScreenSet) (p : LayoutPass) :
    Throwing LayoutPass Result → Prop
  | .ok p' =>
    fits p.x.vncRandRCheckOutputMode (unassigned p.outputIdMap screens) (preference p) = true ∧
      (dryrun = true → p'.x = p.x) ∧
      ∀ o, o ∈ p'.outputIdMap ↔ o ∈ p.outputIdMap ∨
        o ∈ (preference p).take (unassigned p.outputIdMap screens).length
  | .error (p', result) =>
    fits p.x.vncRandRCheckOutputMode (unassigned p.outputIdMap screens) (preference p) = false ∧
      (dryrun = true → p'.x = p.x) ∧ result = .resultInvalid

theorem allocated (dryrun : Bool) : ∀ {screens : ScreenSet} (p : LayoutPass),
    (screens.map Screen.id).Nodup →
    Allocated dryrun screens p (allocateOutputs dryrun screens p)
  | [], p, _ => by simp [allocateOutputs, Allocated, unassigned, fits]
  | screen :: screens, p, h => by
    obtain ⟨hscreen, hscreens⟩ := List.nodup_cons.mp h
    cases hid : p.outputIdMap.hasId screen.id with
    | true =>
      rw [allocateOutputs_of_hasId hid]
      have hsame : unassigned p.outputIdMap (screen :: screens) =
          unassigned p.outputIdMap screens := List.filter_cons_of_neg (by simp [hid])
      have ih := allocated dryrun p hscreens
      unfold Allocated at ih ⊢
      rwa [hsame]
    | false =>
      have hcons : unassigned p.outputIdMap (screen :: screens) =
          screen :: unassigned p.outputIdMap screens := List.filter_cons_of_pos (by simp [hid])
      cases hpref : preference p with
      | nil =>
        rw [allocateOutputs_of_nil hid hpref]
        simp [Allocated, hcons, hpref, fits]
      | cons o os =>
        have ho : o ∉ p.outputIdMap :=
          (mem_preference.mp (hpref ▸ List.mem_cons_self)).2.1
        rw [allocateOutputs_of_cons hid hpref]
        cases hmode : p.x.vncRandRCheckOutputMode o screen.dimensions.width
            screen.dimensions.height with
        | false => simp [Allocated, hcons, hpref, fits, hmode]
        | true =>
          have hrest : unassigned (assigned dryrun p screen o).outputIdMap screens =
              unassigned p.outputIdMap screens := by
            apply unassigned_insert ho
            intro s hs heq
            exact hscreen (List.mem_map.mpr ⟨s, hs, heq⟩)
          have ih := allocated dryrun (assigned dryrun p screen o) hscreens
          rw [if_pos rfl]
          have hx : dryrun = true → (assigned dryrun p screen o).x = p.x := by
            rintro rfl
            rfl
          unfold Allocated at ih ⊢
          rw [hrest, preference_assigned hpref, mode_assigned] at ih
          rw [hcons, hpref, fits, hmode, Bool.true_and]
          cases hres : allocateOutputs dryrun screens (assigned dryrun p screen o) with
          | ok p' =>
            rw [hres] at ih
            obtain ⟨hfits, hx', hmem⟩ := ih
            refine ⟨hfits, fun hd => (hx' hd).trans (hx hd), fun o' => ?_⟩
            rw [hmem, List.length_cons, List.take_succ_cons, List.mem_cons]
            simp only [assigned, Finmap.mem_insert]
            tauto
          | error thrown =>
            rw [hres] at ih
            obtain ⟨hfits, hx', hresult⟩ := ih
            exact ⟨hfits, fun hd => (hx' hd).trans (hx hd), hresult⟩

/-! ## Unused outputs -/

/-- After the first output's turn, the others' turns leave what all of them leave. -/
theorem turnedOff_cons (os : List OutputId) (m : OutputIdMap)
    {before after : OutputId → Option Rect}
    (hne : ∀ o', o' ≠ o → after o' = before o') (hknown : o ∈ m → after o = before o)
    (hunused : o ∉ m → after o = none) :
    (fun o' => if o' ∈ os ∧ o' ∉ m then none else after o') =
      fun o' => if o' ∈ o :: os ∧ o' ∉ m then none else before o' := by
  funext o'
  by_cases heq : o' = o
  · subst heq
    by_cases hm : o' ∈ m
    · simp [hm, hknown hm]
    · simp [hm, hunused hm]
  · simp [heq, hne o' heq]

theorem turnOffUnused_eq (os : List OutputId) (p : LayoutPass) : turnOffUnused os p =
    { p with x := p.x.withDimensions fun o =>
        if o ∈ os ∧ o ∉ p.outputIdMap then none else p.x.dimensions o } := by
  induction os generalizing p with
  | nil => simp [turnOffUnused]
  | cons o os ih =>
    rw [turnOffUnused]
    split
    · rename_i hknown
      rw [ih, turnedOff_cons _ _ (fun _ _ => rfl) (fun _ => rfl) (absurd hknown)]
    · rename_i hunknown
      split
      · rename_i hdisabled
        have hnone : p.x.dimensions o = none := by
          simpa [XScreen.enabled_eq] using hdisabled
        rw [ih, turnedOff_cons _ _ (fun _ _ => rfl) (fun _ => rfl) fun _ => hnone]
      · rw [ih, XScreen.disable_eq]
        have hcons := turnedOff_cons os p.outputIdMap
          (fun o' ho' => Function.update_of_ne ho' none p.x.dimensions)
          (fun hm => absurd hm hunknown) fun _ => Function.update_self o none p.x.dimensions
        simp only [XScreen.dimensions_withDimensions, XScreen.withDimensions_withDimensions,
          hcons]

end

end KasmVNC.Unix
