import KasmVNC.Unix.RandrLoops

/-!
# A layout change as a whole

A change is refused at once, or its three loops run one after another. The first of them
decides over the known outputs, and what the other two find can be said from the state before
it.
-/

namespace KasmVNC.Unix

open KasmVNC.Lib KasmVNC.Rfb

/-! ## The whole change -/

section

variable (glue : RandrGlue) (fbWidth fbHeight : ℤ) (layout : ScreenSet)

/-- The screen is to have another size. -/
def resizes (x : XScreen) : Bool := decide (fbWidth ≠ x.width ∨ fbHeight ≠ x.height)

/-- The layout is refused before any output is looked at. -/
def isRefused (x : XScreen) : Bool :=
  decide (x.vncRandRGetOutputCount = 0) || x.vncRandRHasOutputClones ||
    decide (layout.length > x.vncRandRGetAvailableOutputs) &&
      !glue.vncRandRCanCreateOutputs x (layout.length - x.vncRandRGetAvailableOutputs) ||
    resizes fbWidth fbHeight x && !glue.vncRandRIsValidScreenSize fbWidth fbHeight

/-- The server with the outputs that are created for the layout. -/
def withCreated (x : XScreen) : XScreen :=
  if layout.length > x.vncRandRGetAvailableOutputs then
    x.vncRandRCreateOutputs glue (layout.length - x.vncRandRGetAvailableOutputs)
  else x

/-- The output is disabled for the time being, as the new screen does not hold it. -/
def isTooLarge (x : XScreen) (o : OutputId) : Bool :=
  resizes fbWidth fbHeight x && isLarge fbWidth fbHeight x o

/-- The server with its new size. -/
def resized (p : LayoutPass) : LayoutPass :=
  { p with
    x := (p.x.withDimensions fun o =>
        if p.x.outputs.contains o && isTooLarge fbWidth fbHeight p.x o then none
        else p.x.dimensions o).vncRandRResizeScreen fbWidth fbHeight
    disabledOutputs :=
      (p.x.outputs.filter (isTooLarge fbWidth fbHeight p.x)).reverse ++ p.disabledOutputs }

/-- What the loops start with. -/
def prepared (dryrun : Bool) (d : Desktop) : LayoutPass :=
  if dryrun then { d with disabledOutputs := [] }
  else resized fbWidth fbHeight
    { d with x := withCreated glue layout d.x, disabledOutputs := [] }

/-- The three loops. -/
def arrange (dryrun : Bool) (p : LayoutPass) : Throwing LayoutPass Result :=
  (reconfigureOutputs dryrun layout p.x.outputs p).andThen fun p =>
  (allocateOutputs dryrun layout p).andThen fun p =>
  .ok (turnOffUnused p.x.outputs p)

end

section

variable {glue : RandrGlue} {dryrun : Bool} {fbWidth fbHeight : ℤ} {layout : ScreenSet}
  {d : Desktop} {p : LayoutPass}

theorem createOutputs_eq : createOutputs glue dryrun layout p =
    if (decide (layout.length > p.x.vncRandRGetAvailableOutputs) &&
      !glue.vncRandRCanCreateOutputs p.x (layout.length - p.x.vncRandRGetAvailableOutputs)) then
      .error (p, .resultInvalid)
    else .ok (if dryrun then p else { p with x := withCreated glue layout p.x }) := by
  unfold createOutputs withCreated
  by_cases hneed : layout.length > p.x.vncRandRGetAvailableOutputs
  · cases hcan : glue.vncRandRCanCreateOutputs p.x
        (layout.length - p.x.vncRandRGetAvailableOutputs) with
    | false => simp [hneed, hcan]
    | true => cases dryrun <;> simp [hneed, hcan]
  · simp [hneed]

theorem resized_of_same_size (h : resizes fbWidth fbHeight p.x = false) :
    resized fbWidth fbHeight p = p := by
  obtain ⟨hwidth, hheight⟩ : fbWidth = p.x.width ∧ fbHeight = p.x.height := by
    simpa [resizes] using h
  have hlarge : isTooLarge fbWidth fbHeight p.x = fun _ => false := by
    funext o
    rw [isTooLarge, h, Bool.false_and]
  subst hwidth hheight
  rw [resized, hlarge]
  simp [XScreen.vncRandRResizeScreen]

theorem resizeScreen_dryrun : resizeScreen glue true fbWidth fbHeight p =
    if (resizes fbWidth fbHeight p.x && !glue.vncRandRIsValidScreenSize fbWidth fbHeight) then
      .error (p, .resultInvalid)
    else .ok p := by
  unfold resizeScreen resizes
  by_cases hsize : fbWidth ≠ p.x.width ∨ fbHeight ≠ p.x.height
  · simp only [hsize, decide_true, Bool.true_and, disableLarge_dryrun]
    rfl
  · simp [hsize]

theorem resizeScreen_real (glue : RandrGlue) (fbWidth fbHeight : ℤ) (p : LayoutPass) :
    ∃ thrown, resizeScreen glue false fbWidth fbHeight p =
    if (resizes fbWidth fbHeight p.x && !glue.vncRandRIsValidScreenSize fbWidth fbHeight) then
      .error (thrown, .resultInvalid)
    else .ok (resized fbWidth fbHeight p) := by
  cases hsize : resizes fbWidth fbHeight p.x with
  | true =>
    refine ⟨disableLarge false fbWidth fbHeight p.x.outputs p, ?_⟩
    have hlarge : isTooLarge fbWidth fbHeight p.x = isLarge fbWidth fbHeight p.x := by
      funext o
      rw [isTooLarge, hsize, Bool.true_and]
    rw [resizeScreen, if_pos (of_decide_eq_true hsize), Bool.true_and,
      disableLarge_eq _ p.x.nodup, resized, hlarge]
    simp only [Bool.and_eq_true, List.contains_iff_mem]
    rfl
  | false =>
    refine ⟨p, ?_⟩
    rw [resizeScreen, if_neg (of_decide_eq_false hsize), Bool.false_and,
      resized_of_same_size hsize]
    rfl

theorem resizes_withCreated (x : XScreen) :
    resizes fbWidth fbHeight (withCreated glue layout x) = resizes fbWidth fbHeight x := by
  unfold withCreated
  split <;> rfl

theorem changeScreenLayout_of_refused (dryrun : Bool)
    (h : isRefused glue fbWidth fbHeight layout d.x = true) :
    ∃ p result, changeScreenLayout glue dryrun fbWidth fbHeight layout d = .error (p, result) ∧
      result ≠ .resultSuccess ∧ (dryrun = true → p.toDesktop = d) := by
  simp only [isRefused, Bool.or_eq_true, decide_eq_true_eq] at h
  unfold changeScreenLayout
  by_cases hcount : d.x.vncRandRGetOutputCount = 0
  · exact ⟨_, _, if_pos hcount, Result.noConfusion, fun _ => rfl⟩
  rw [if_neg hcount]
  by_cases hclones : d.x.vncRandRHasOutputClones = true
  · exact ⟨_, _, if_pos hclones, Result.noConfusion, fun _ => rfl⟩
  rw [if_neg hclones, createOutputs_eq]
  split
  · exact ⟨_, _, rfl, Result.noConfusion, fun _ => rfl⟩
  · rename_i hcreate
    have hsize := (h.resolve_left fun h => hcreate (h.resolve_left fun h =>
      h.elim hcount hclones))
    cases dryrun with
    | true =>
      simp only [Throwing.andThen, if_true, resizeScreen_dryrun, hsize]
      exact ⟨_, _, rfl, Result.noConfusion, fun _ => rfl⟩
    | false =>
      obtain ⟨thrown, hresize⟩ := resizeScreen_real glue fbWidth fbHeight
        { d with x := withCreated glue layout d.x, disabledOutputs := [] }
      rw [resizes_withCreated, hsize] at hresize
      refine ⟨thrown, .resultInvalid, ?_, Result.noConfusion, Bool.noConfusion⟩
      simp only [Throwing.andThen, Bool.false_eq_true, if_false, hresize, if_true]

theorem changeScreenLayout_eq (h : isRefused glue fbWidth fbHeight layout d.x = false) :
    changeScreenLayout glue dryrun fbWidth fbHeight layout d =
      arrange layout dryrun (prepared glue fbWidth fbHeight layout dryrun d) := by
  simp only [isRefused, Bool.or_eq_false_iff, decide_eq_false_iff_not] at h
  obtain ⟨⟨⟨hcount, hclones⟩, hcreate⟩, hsize⟩ := h
  unfold changeScreenLayout
  rw [if_neg hcount, if_neg (Bool.not_eq_true _ ▸ hclones), createOutputs_eq, hcreate]
  cases dryrun with
  | true =>
    simp only [Throwing.andThen, Bool.false_eq_true, if_false, if_true, resizeScreen_dryrun,
      hsize]
    rfl
  | false =>
    obtain ⟨thrown, hresize⟩ := resizeScreen_real glue fbWidth fbHeight
      { d with x := withCreated glue layout d.x, disabledOutputs := [] }
    rw [resizes_withCreated, hsize] at hresize
    simp only [Throwing.andThen, Bool.false_eq_true, if_false, hresize]
    rfl

end

/-! ## After the known outputs -/

section

variable {layout : ScreenSet} {dryrun : Bool} {p : LayoutPass} {o : OutputId}

/-- What the loop over the known outputs leaves when it goes through. -/
def reconfigured (layout : ScreenSet) (dryrun : Bool) (p : LayoutPass) : LayoutPass :=
  p.x.outputs.foldl (served layout dryrun) p

theorem x_reconfigured : (reconfigured layout dryrun p).x = p.x.withDimensions (fun o =>
    if o ∈ p.x.outputs then servedDimensions layout dryrun p.outputIdMap o (p.x.dimensions o)
    else p.x.dimensions o) :=
  (foldl_served layout dryrun p p.x.nodup).1

theorem lookup_reconfigured (o : OutputId) : (reconfigured layout dryrun p).outputIdMap.lookup o =
    if o ∈ p.x.outputs ∧ isMissing layout p.outputIdMap o then none
    else p.outputIdMap.lookup o :=
  (foldl_served layout dryrun p p.x.nodup).2.1 o

theorem disabledOutputs_reconfigured :
    (reconfigured layout dryrun p).disabledOutputs = p.disabledOutputs :=
  (foldl_served layout dryrun p p.x.nodup).2.2

theorem isMissing_eq_false_of_screenOf {m : OutputIdMap} {screen : Screen}
    (h : screenOf layout m o = some screen) : isMissing layout m o = false := by
  simp [isMissing, h]

theorem notMem_reconfigured (layout : ScreenSet) (dryrun : Bool) (ho : o ∈ p.x.outputs) :
    o ∉ (reconfigured layout dryrun p).outputIdMap ↔
      screenOf layout p.outputIdMap o = none := by
  rw [← Finmap.lookup_eq_none, lookup_reconfigured]
  cases hscreen : screenOf layout p.outputIdMap o with
  | none =>
    cases hid : p.outputIdMap.lookup o with
    | none => simp
    | some id => simp [ho, isMissing, hscreen, hid]
  | some screen =>
    rw [if_neg fun h => by simp [isMissing_eq_false_of_screenOf hscreen] at h]
    simp only [reduceCtorEq, iff_false]
    intro hid
    simp [screenOf, hid] at hscreen

theorem isSome_screenOf_of_mem {m : OutputIdMap} {screen : Screen} (hscreen : screen ∈ layout)
    (hid : m.lookup o = some screen.id) : (screenOf layout m o).isSome = true := by
  rw [screenOf, hid, Option.bind_some, List.find?_isSome]
  exact ⟨screen, hscreen, beq_self_eq_true _⟩

/-- No screen of the layout loses its output. -/
theorem hasId_reconfigured {screen : Screen} (h : screen ∈ layout) :
    (reconfigured layout dryrun p).outputIdMap.hasId screen.id =
      p.outputIdMap.hasId screen.id := by
  rw [Bool.eq_iff_iff, OutputIdMap.hasId_iff, OutputIdMap.hasId_iff]
  constructor
  · rintro ⟨o, ho⟩
    rw [lookup_reconfigured] at ho
    split at ho
    · cases ho
    · exact ⟨o, ho⟩
  · rintro ⟨o, ho⟩
    have hkept : isMissing layout p.outputIdMap o = false := by
      simp [isMissing, isSome_screenOf_of_mem h ho]
    exact ⟨o, by rw [lookup_reconfigured, if_neg (by simp [hkept]), ho]⟩

theorem unassigned_reconfigured :
    unassigned (reconfigured layout dryrun p).outputIdMap layout =
      unassigned p.outputIdMap layout :=
  List.filter_congr fun _ h => by rw [hasId_reconfigured h]

/-- The outputs that can be given to a screen without one. -/
def freeOutputs (layout : ScreenSet) (m : OutputIdMap) (x : XScreen) : List OutputId :=
  x.outputs.filter fun o => (screenOf layout m o).isNone && x.vncRandRIsOutputUsable o

theorem preference_reconfigured : preference (reconfigured layout dryrun p) =
    prefer [fun o => !isMissing layout p.outputIdMap o && p.x.vncRandRIsOutputEnabled o,
      (p.disabledOutputs.contains ·), p.x.vncRandRIsOutputConnected]
      (freeOutputs layout p.outputIdMap p.x) := by
  have hfree : ((reconfigured layout dryrun p).x.outputs.filter fun o =>
      !decide (o ∈ (reconfigured layout dryrun p).outputIdMap) &&
        (reconfigured layout dryrun p).x.vncRandRIsOutputUsable o) =
      freeOutputs layout p.outputIdMap p.x := by
    rw [x_reconfigured, XScreen.outputs_withDimensions, XScreen.usable_withDimensions]
    apply List.filter_congr
    intro o ho
    have hknown : (!decide (o ∈ (reconfigured layout dryrun p).outputIdMap)) =
        (screenOf layout p.outputIdMap o).isNone := by
      rw [← decide_not, Bool.eq_iff_iff, decide_eq_true_eq, notMem_reconfigured layout dryrun ho,
        Option.isNone_iff_eq_none]
    rw [hknown]
  rw [preference, hfree, disabledOutputs_reconfigured]
  apply prefer_congr
  refine .cons ?_ (.cons (fun _ _ => rfl) (.cons (fun _ _ => ?_) .nil))
  · intro o ho
    obtain ⟨ho, hfree⟩ := List.mem_filter.mp ho
    have hscreen : screenOf layout p.outputIdMap o = none :=
      Option.isNone_iff_eq_none.mp (Bool.and_eq_true_iff.mp hfree).1
    change _ = (!isMissing layout p.outputIdMap o && p.x.vncRandRIsOutputEnabled o)
    rw [x_reconfigured, XScreen.enabled_withDimensions, if_pos ho, servedDimensions, hscreen]
    cases isMissing layout p.outputIdMap o <;> rfl
  · rw [x_reconfigured, XScreen.connected_withDimensions]

/-- The first output that cannot serve ends the change. -/
theorem arrange_of_bad
    (h : p.x.outputs.any (cannotServe layout p.x p.outputIdMap) = true) :
    arrange layout dryrun p = .error
      ((p.x.outputs.takeWhile (!cannotServe layout p.x p.outputIdMap ·)).foldl
        (served layout dryrun) p, .resultInvalid) := by
  rw [arrange, reconfigureOutputs_eq p p.x.nodup]
  simp only [if_pos h]
  rfl

theorem arrange_of_good
    (h : p.x.outputs.any (cannotServe layout p.x p.outputIdMap) = false) :
    arrange layout dryrun p =
      (allocateOutputs dryrun layout (reconfigured layout dryrun p)).andThen fun p =>
        .ok (turnOffUnused p.x.outputs p) := by
  rw [arrange, reconfigureOutputs_eq p p.x.nodup]
  simp only [h]
  rfl

theorem outcome_arrange_of_bad
    (h : p.x.outputs.any (cannotServe layout p.x p.outputIdMap) = true) :
    (outcome (arrange layout dryrun p)).1 = .resultInvalid := by
  rw [arrange_of_bad h]
  rfl

/-- The loops go through when no output refuses and the free outputs fit. -/
theorem outcome_arrange_iff (hlayout : (layout.map Screen.id).Nodup) (p : LayoutPass)
    (dryrun : Bool) : (outcome (arrange layout dryrun p)).1 = .resultSuccess ↔
      p.x.outputs.any (cannotServe layout p.x p.outputIdMap) = false ∧
        fits p.x.vncRandRCheckOutputMode (unassigned p.outputIdMap layout)
          (preference (reconfigured layout dryrun p)) = true := by
  cases hbad : p.x.outputs.any (cannotServe layout p.x p.outputIdMap) with
  | true => simp [outcome_arrange_of_bad hbad]
  | false =>
    have halloc := allocated dryrun (reconfigured layout dryrun p) hlayout
    rw [arrange_of_good hbad]
    cases hres : allocateOutputs dryrun layout (reconfigured layout dryrun p) with
    | ok p' =>
      rw [hres, Allocated, unassigned_reconfigured, x_reconfigured,
        XScreen.mode_withDimensions] at halloc
      simp [Throwing.andThen, outcome, halloc.1]
    | error thrown =>
      rw [hres, Allocated, unassigned_reconfigured, x_reconfigured,
        XScreen.mode_withDimensions] at halloc
      simp [Throwing.andThen, outcome, halloc.1, halloc.2.2]

end

end KasmVNC.Unix
