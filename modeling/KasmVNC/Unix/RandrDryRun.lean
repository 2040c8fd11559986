import KasmVNC.Unix.RandrChange
import Mathlib.Data.List.TakeWhile

/-!
# What a dry run says

A dry run goes through the loops of a layout change and leaves out the changes to the X
server, except for turning outputs off. So it may turn outputs off for good, and from there on
it sees other outputs than the real run: the ones that are still to be created are missing, and
those that are disabled for the time being are still enabled.
-/

namespace KasmVNC.Unix

open KasmVNC.Lib KasmVNC.Rfb

section

variable (glue : RandrGlue) (fbWidth fbHeight : ℤ) (layout : ScreenSet) (d : Desktop)

/-- The dry run changes nothing and foretells the result. -/
def Faithful : Prop :=
  (tryScreenLayout glue fbWidth fbHeight layout d).2 = d ∧
    ((tryScreenLayout glue fbWidth fbHeight layout d).1 = .resultSuccess ↔
      (setScreenLayout glue fbWidth fbHeight layout d).1 = .resultSuccess)

/-! ## When it is faithful -/

/-- Up to the first output that cannot serve, those whose screen is gone are off already. -/
def NoneTurnedOff : Prop :=
  ∀ o ∈ d.x.outputs.takeWhile (!cannotServe layout d.x d.outputIdMap ·),
    isMissing layout d.outputIdMap o = true → d.x.vncRandRIsOutputEnabled o = false

instance : Decidable (NoneTurnedOff layout d) := List.decidableBAll _ _

/-- The free outputs as the dry run sees them, best first. -/
def dryPreference : List OutputId :=
  prefer [d.x.vncRandRIsOutputEnabled, d.x.vncRandRIsOutputConnected]
    (freeOutputs layout d.outputIdMap d.x)

/-- The free outputs as the real run sees them: with the new ones, and without those that are
too large among the enabled ones. -/
def realPreference : List OutputId :=
  let x := withCreated glue layout d.x
  let tooLarge := isTooLarge fbWidth fbHeight x
  prefer [fun o => x.vncRandRIsOutputEnabled o && !tooLarge o, tooLarge,
    x.vncRandRIsOutputConnected] (freeOutputs layout d.outputIdMap x)

/-- In the dry run there are outputs for the screens without one. -/
def dryFits : Bool :=
  fits d.x.vncRandRCheckOutputMode (unassigned d.outputIdMap layout) (dryPreference layout d)

/-- In the real run all new outputs can serve too, and there are outputs for the screens
without one. -/
def realFits : Bool :=
  let x := withCreated glue layout d.x
  !x.outputs.any (cannotServe layout x d.outputIdMap) &&
    fits x.vncRandRCheckOutputMode (unassigned d.outputIdMap layout)
      (realPreference glue fbWidth fbHeight layout d)

/-- No enabled output is left without a screen. -/
def NoneUnused : Prop :=
  ∀ o ∈ d.x.outputs, screenOf layout d.outputIdMap o = none →
    d.x.vncRandRIsOutputEnabled o = true →
    o ∈ (dryPreference layout d).take (unassigned d.outputIdMap layout).length

/-- The two runs meet the same fate, and the dry run finds nothing to turn off. -/
def RunsAgree : Prop :=
  isRefused glue fbWidth fbHeight layout d.x = true ∨
    NoneTurnedOff layout d ∧
      (d.x.outputs.any (cannotServe layout d.x d.outputIdMap) = true ∨
        dryFits layout d = true ∧ realFits glue fbWidth fbHeight layout d = true ∧
          NoneUnused layout d ∨
        dryFits layout d = false ∧ realFits glue fbWidth fbHeight layout d = false)

end

section

variable {glue : RandrGlue} {fbWidth fbHeight : ℤ} {layout : ScreenSet} {d : Desktop}

/-- Turning outputs off shows, unless they are all off. -/
theorem turnedOff_eq_self_iff {x : XScreen} {off : OutputId → Prop} [DecidablePred off] :
    x.withDimensions (fun o => if off o then none else x.dimensions o) = x ↔
      ∀ o, off o → x.vncRandRIsOutputEnabled o = false := by
  rw [XScreen.withDimensions_eq_self_iff, funext_iff]
  apply forall_congr'
  intro o
  rw [XScreen.enabled_eq, Option.isSome_eq_false_iff, Option.isNone_iff_eq_none]
  by_cases hoff : off o
  · simp [hoff, eq_comm]
  · simp [hoff]

/-- In the dry run a turn does no more than turn an output off. -/
theorem foldl_served_dryrun (layout : ScreenSet) {os : List OutputId} (p : LayoutPass)
    (hos : os.Nodup) :
    (os.foldl (served layout true) p).x = p.x.withDimensions (fun o =>
      if o ∈ os ∧ isMissing layout p.outputIdMap o then none else p.x.dimensions o) := by
  rw [(foldl_served layout true p hos).1]
  congr 1
  funext o
  rw [servedDimensions]
  cases hscreen : screenOf layout p.outputIdMap o with
  | none => by_cases ho : o ∈ os <;> simp [ho]
  | some screen => simp [isMissing_eq_false_of_screenOf hscreen]

theorem takeWhile_of_good
    (h : d.x.outputs.any (cannotServe layout d.x d.outputIdMap) = false) :
    d.x.outputs.takeWhile (!cannotServe layout d.x d.outputIdMap ·) = d.x.outputs := by
  apply List.takeWhile_eq_self_iff.mpr
  intro o ho
  have hgood := List.any_eq_false.mp h o ho
  simpa using hgood

/-! ## The real run -/

/-- New outputs come disabled, and the others stay as they are. -/
theorem enabled_withCreated (o : OutputId) (ho : o ∈ (withCreated glue layout d.x).outputs) :
    (withCreated glue layout d.x).vncRandRIsOutputEnabled o =
      (decide (o ∈ d.x.outputs) && d.x.vncRandRIsOutputEnabled o) := by
  unfold withCreated at ho ⊢
  split
  · rename_i hneed
    rw [if_pos hneed] at ho
    have hnew : o ∈ d.x.outputs → o ∉ glue.created d.x
        (layout.length - d.x.vncRandRGetAvailableOutputs) :=
      fun hold hnew => List.disjoint_of_nodup_append (glue.nodup_created _ _) hold hnew
    rcases List.mem_append.mp ho with hold | hcreated
    · simp [XScreen.vncRandRCreateOutputs, XScreen.vncRandRIsOutputEnabled, hold, hnew hold]
    · have hold : o ∉ d.x.outputs := fun hold => hnew hold hcreated
      simp [XScreen.vncRandRCreateOutputs, XScreen.vncRandRIsOutputEnabled, hold, hcreated]
  · rename_i hneed
    rw [if_neg hneed] at ho
    simp [ho]

theorem preference_real (hoff : NoneTurnedOff layout d)
    (hgood : d.x.outputs.any (cannotServe layout d.x d.outputIdMap) = false) :
    preference (reconfigured layout false (prepared glue fbWidth fbHeight layout false d)) =
      realPreference glue fbWidth fbHeight layout d := by
  rw [NoneTurnedOff, takeWhile_of_good hgood] at hoff
  rw [preference_reconfigured]
  apply prefer_congr
  refine .cons ?_ (.cons ?_ (.cons (fun _ _ => rfl) .nil))
  · intro o ho
    have ho : o ∈ (withCreated glue layout d.x).outputs := (List.mem_filter.mp ho).1
    change (!isMissing layout d.outputIdMap o && Option.isSome (if (withCreated glue layout
        d.x).outputs.contains o && isTooLarge fbWidth fbHeight (withCreated glue layout d.x) o then
        none else (withCreated glue layout d.x).dimensions o)) =
      ((withCreated glue layout d.x).vncRandRIsOutputEnabled o &&
        !isTooLarge fbWidth fbHeight (withCreated glue layout d.x) o)
    cases hlarge : isTooLarge fbWidth fbHeight (withCreated glue layout d.x) o with
    | true => simp [ho]
    | false =>
      rw [Bool.and_false, if_neg Bool.false_ne_true, Bool.not_false, Bool.and_true]
      cases hmissing : isMissing layout d.outputIdMap o with
      | false => rfl
      | true =>
        -- its screen is gone, so it is off before the change
        rw [enabled_withCreated o ho]
        by_cases hold : o ∈ d.x.outputs
        · simp [hoff o hold hmissing]
        · simp [hold]
  · intro o ho
    have ho : o ∈ (withCreated glue layout d.x).outputs := (List.mem_filter.mp ho).1
    change List.contains ((List.filter (isTooLarge fbWidth fbHeight (withCreated glue layout d.x))
      (withCreated glue layout d.x).outputs).reverse ++ []) o = _
    rw [Bool.eq_iff_iff]
    simp [ho]

theorem set_success_iff (hlayout : (layout.map Screen.id).Nodup)
    (h : isRefused glue fbWidth fbHeight layout d.x = false) (hoff : NoneTurnedOff layout d)
    (hgood : d.x.outputs.any (cannotServe layout d.x d.outputIdMap) = false) :
    (setScreenLayout glue fbWidth fbHeight layout d).1 = .resultSuccess ↔
      realFits glue fbWidth fbHeight layout d = true := by
  rw [setScreenLayout, changeScreenLayout_eq h, outcome_arrange_iff hlayout,
    preference_real hoff hgood, realFits, Bool.and_eq_true_iff, Bool.not_eq_true_eq_eq_false]
  rfl

/-- The outputs that are there keep what they can do. -/
theorem any_withCreated (hbad : d.x.outputs.any (cannotServe layout d.x d.outputIdMap) = true) :
    (withCreated glue layout d.x).outputs.any
      (cannotServe layout (withCreated glue layout d.x) d.outputIdMap) = true := by
  obtain ⟨o, ho, hbad⟩ := List.any_eq_true.mp hbad
  unfold withCreated
  split
  · have hold : o ∉ glue.created d.x (layout.length - d.x.vncRandRGetAvailableOutputs) :=
      fun hnew => List.disjoint_of_nodup_append (glue.nodup_created _ _) ho hnew
    refine List.any_eq_true.mpr ⟨o, List.mem_append_left _ ho, ?_⟩
    rw [← hbad]
    simp [cannotServe, XScreen.vncRandRCreateOutputs, XScreen.vncRandRIsOutputUsable,
      XScreen.vncRandRCheckOutputMode, hold]
  · exact List.any_eq_true.mpr ⟨o, ho, hbad⟩

theorem set_failure_of_bad (h : isRefused glue fbWidth fbHeight layout d.x = false)
    (hbad : d.x.outputs.any (cannotServe layout d.x d.outputIdMap) = true) :
    (setScreenLayout glue fbWidth fbHeight layout d).1 = .resultInvalid := by
  rw [setScreenLayout, changeScreenLayout_eq h]
  exact outcome_arrange_of_bad (any_withCreated hbad)

/-! ## The dry run -/

/-- What the dry run's first loop sees of the desktop. -/
def dryPass (d : Desktop) : LayoutPass := { d with disabledOutputs := [] }

theorem preference_dryrun (hoff : NoneTurnedOff layout d)
    (hgood : d.x.outputs.any (cannotServe layout d.x d.outputIdMap) = false) :
    preference (reconfigured layout true (dryPass d)) = dryPreference layout d := by
  rw [NoneTurnedOff, takeWhile_of_good hgood] at hoff
  rw [preference_reconfigured]
  calc _ = prefer [d.x.vncRandRIsOutputEnabled, fun _ => false, d.x.vncRandRIsOutputConnected]
          (freeOutputs layout d.outputIdMap d.x) := by
        apply prefer_congr
        refine .cons ?_ (.cons (fun _ _ => rfl) (.cons (fun _ _ => rfl) .nil))
        intro o ho
        change (!isMissing layout d.outputIdMap o && d.x.vncRandRIsOutputEnabled o) = _
        cases hmissing : isMissing layout d.outputIdMap o with
        | false => rfl
        | true => rw [hoff o (List.mem_filter.mp ho).1 hmissing]; rfl
    _ = dryPreference layout d := by simp [dryPreference, prefer]

theorem changeScreenLayout_dryrun (h : isRefused glue fbWidth fbHeight layout d.x = false) :
    changeScreenLayout glue true fbWidth fbHeight layout d = arrange layout true (dryPass d) :=
  changeScreenLayout_eq h

theorem try_success_iff (hlayout : (layout.map Screen.id).Nodup)
    (h : isRefused glue fbWidth fbHeight layout d.x = false) (hoff : NoneTurnedOff layout d) :
    (tryScreenLayout glue fbWidth fbHeight layout d).1 = .resultSuccess ↔
      d.x.outputs.any (cannotServe layout d.x d.outputIdMap) = false ∧
        dryFits layout d = true := by
  change (outcome _).1 = _ ↔ _
  rw [changeScreenLayout_dryrun h, outcome_arrange_iff hlayout]
  apply and_congr_right
  intro hgood
  rw [preference_dryrun hoff hgood]
  rfl

theorem noneTurnedOff_iff_of_good
    (hgood : d.x.outputs.any (cannotServe layout d.x d.outputIdMap) = false) :
    NoneTurnedOff layout d ↔ (reconfigured layout true (dryPass d)).x = d.x := by
  rw [reconfigured, foldl_served_dryrun layout _ (dryPass d).x.nodup]
  refine Iff.trans ?_ turnedOff_eq_self_iff.symm
  rw [NoneTurnedOff, takeWhile_of_good hgood]
  exact forall_congr' fun o => and_imp.symm

/-- An output that has been turned off stays off. -/
theorem eq_self_of_turnedOff {x : XScreen} {off off' : OutputId → Prop} [DecidablePred off]
    [DecidablePred off'] (h : (x.withDimensions fun o => if off o then none else
      if off' o then none else x.dimensions o) = x) :
    x.withDimensions (fun o => if off' o then none else x.dimensions o) = x := by
  rw [XScreen.withDimensions_eq_self_iff, funext_iff] at h ⊢
  intro o
  have ho := h o
  split at ho
  · simp [← ho]
  · exact ho

theorem unchanged_reconfigured
    (h : (outcome ((allocateOutputs true layout (reconfigured layout true (dryPass d))).andThen
      fun p => .ok (turnOffUnused p.x.outputs p))).2.x = d.x)
    (hlayout : (layout.map Screen.id).Nodup) :
    (reconfigured layout true (dryPass d)).x = d.x := by
  have halloc := allocated true (reconfigured layout true (dryPass d)) hlayout
  cases hres : allocateOutputs true layout (reconfigured layout true (dryPass d)) with
  | error thrown =>
    rw [hres] at h halloc
    exact (halloc.2.1 rfl).symm.trans h
  | ok p' =>
    rw [hres] at h halloc
    have hx : (turnOffUnused p'.x.outputs p').x = d.x := h
    rw [turnOffUnused_eq, halloc.2.1 rfl] at hx
    rw [reconfigured, foldl_served_dryrun layout _ (dryPass d).x.nodup] at hx ⊢
    exact eq_self_of_turnedOff hx

theorem try_unchanged_iff (hlayout : (layout.map Screen.id).Nodup)
    (h : isRefused glue fbWidth fbHeight layout d.x = false) :
    (tryScreenLayout glue fbWidth fbHeight layout d).2 = d ↔ NoneTurnedOff layout d ∧
      (d.x.outputs.any (cannotServe layout d.x d.outputIdMap) = true ∨
        dryFits layout d = false ∨ NoneUnused layout d) := by
  have hx : (tryScreenLayout glue fbWidth fbHeight layout d).2 = d ↔
      (outcome (arrange layout true (dryPass d))).2.x = d.x := by
    rw [← changeScreenLayout_dryrun h]
    constructor
    · exact congrArg Desktop.x
    · exact congrArg (Desktop.mk · d.outputIdMap)
  rw [hx]
  cases hbad : d.x.outputs.any (cannotServe layout d.x d.outputIdMap) with
  | true =>
    rw [arrange_of_bad (p := dryPass d) hbad]
    change (LayoutPass.toDesktop (List.foldl _ _ _)).x = d.x ↔ _
    rw [foldl_served_dryrun layout _ ((dryPass d).x.nodup.sublist (List.takeWhile_sublist _))]
    refine Iff.trans turnedOff_eq_self_iff ?_
    simp only [NoneTurnedOff, and_imp, true_or, and_true]
    rfl
  | false =>
    rw [arrange_of_good (p := dryPass d) hbad]
    by_cases hoff : NoneTurnedOff layout d
    · have hsame := (noneTurnedOff_iff_of_good hbad).mp hoff
      have halloc := allocated true (reconfigured layout true (dryPass d)) hlayout
      simp only [hoff, true_and, Bool.false_eq_true, false_or]
      cases hres : allocateOutputs true layout (reconfigured layout true (dryPass d)) with
      | error thrown =>
        rw [hres, Allocated, unassigned_reconfigured, preference_dryrun hoff hbad] at halloc
        have hfits : dryFits layout d = false := by
          rw [← halloc.1, hsame]
          rfl
        rw [hfits]
        exact iff_of_true ((halloc.2.1 rfl).trans hsame) (.inl rfl)
      | ok p' =>
        rw [hres, Allocated, unassigned_reconfigured, preference_dryrun hoff hbad] at halloc
        have hfits : dryFits layout d = true := by
          rw [← halloc.1, hsame]
          rfl
        have hunused : ∀ o ∈ d.x.outputs, (o ∉ p'.outputIdMap ↔
            screenOf layout d.outputIdMap o = none ∧
              o ∉ (dryPreference layout d).take (unassigned d.outputIdMap layout).length) := by
          intro o ho
          rw [halloc.2.2 o, not_or, notMem_reconfigured (p := dryPass d) layout true ho]
          rfl
        rw [hfits]
        change (turnOffUnused p'.x.outputs p').x = d.x ↔ _
        rw [turnOffUnused_eq, (halloc.2.1 rfl).trans hsame]
        refine turnedOff_eq_self_iff.trans ?_
        simp only [Bool.true_eq_false, false_or]
        constructor
        · intro hoff' o ho hscreen henabled
          by_contra htake
          have := hoff' o ⟨ho, (hunused o ho).mpr ⟨hscreen, htake⟩⟩
          exact Bool.false_ne_true (this.symm.trans henabled)
        · rintro hnone o ⟨ho, hmem⟩
          obtain ⟨hscreen, htake⟩ := (hunused o ho).mp hmem
          exact Bool.eq_false_iff.mpr fun henabled => htake (hnone o ho hscreen henabled)
    · refine iff_of_false (fun hx => hoff ?_) fun hcon => hoff hcon.1
      exact (noneTurnedOff_iff_of_good hbad).mpr (unchanged_reconfigured hx hlayout)

/-! ## Both runs -/

theorem faithful_of_refused (h : isRefused glue fbWidth fbHeight layout d.x = true) :
    Faithful glue fbWidth fbHeight layout d := by
  obtain ⟨p, result, hdry, hresult, hd⟩ := changeScreenLayout_of_refused true h
  obtain ⟨p', result', hreal, hresult', -⟩ := changeScreenLayout_of_refused false h
  rw [Faithful, tryScreenLayout, setScreenLayout, hdry, hreal]
  refine ⟨?_, iff_of_false hresult hresult'⟩
  change ({ p.toDesktop with outputIdMap := d.outputIdMap } : Desktop) = d
  rw [hd rfl]

/-- The dry run is faithful if the layout is refused at once or the loops of the two runs
agree, and in no other case. -/
theorem dry_run_faithful_iff (hvalid : validate layout fbWidth fbHeight = true) :
    Faithful glue fbWidth fbHeight layout d ↔ RunsAgree glue fbWidth fbHeight layout d := by
  have hlayout := (nodup_of_validate hvalid).2
  cases h : isRefused glue fbWidth fbHeight layout d.x with
  | true => exact iff_of_true (faithful_of_refused h) (.inl h)
  | false =>
    rw [Faithful, RunsAgree, try_unchanged_iff hlayout h, h]
    by_cases hoff : NoneTurnedOff layout d
    · rw [try_success_iff hlayout h hoff]
      cases hbad : d.x.outputs.any (cannotServe layout d.x d.outputIdMap) with
      | true => simp [hoff, set_failure_of_bad h hbad]
      | false =>
        rw [set_success_iff hlayout h hoff hbad]
        cases dryFits layout d <;> cases realFits glue fbWidth fbHeight layout d <;>
          simp [hoff]
    · simp [hoff]

end

/-- One output shows screen 7, and a client asks for a screen 9 in its place. -/
def shownScreen : Desktop where
  x :=
    { width := 800, height := 600, outputs := [1], nodup := List.nodup_singleton 1
      output := fun _ => ⟨some (Rect.ofXYWH 0 0 800 600), true, true, fun _ _ => true⟩
      clones := false }
  outputIdMap := (∅ : OutputIdMap).insert 1 7

def otherScreen : ScreenSet := [⟨9, Rect.ofXYWH 0 0 800 600, 0⟩]

def sameScreen : ScreenSet := [⟨7, Rect.ofXYWH 0 0 640 480, 0⟩]

/-- The same screen in another mode is tried faithfully. -/
theorem dry_run_faithful_sameScreen : Faithful fixedGlue 800 600 sameScreen shownScreen := by
  apply (dry_run_faithful_iff (by decide)).mpr
  refine .inr ⟨by decide, .inr (.inl ⟨by decide, by decide, fun o ho hscreen => ?_⟩)⟩
  cases List.mem_singleton.mp ho
  exact absurd hscreen (by decide)

/-- The dry run turns the output off. -/
theorem dry_run_turns_off : validate otherScreen 800 600 = true ∧
    ((tryScreenLayout fixedGlue 800 600 otherScreen shownScreen).2.x.output 1).dimensions = none ∧
    ¬ Faithful fixedGlue 800 600 otherScreen shownScreen := by
  have hoff : ((tryScreenLayout fixedGlue 800 600 otherScreen shownScreen).2.x.output
      1).dimensions = none := by decide
  refine ⟨by decide, hoff, fun h => ?_⟩
  rw [h.1] at hoff
  exact absurd hoff (by decide)

end KasmVNC.Unix
