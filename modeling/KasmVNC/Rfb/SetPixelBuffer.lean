import KasmVNC.Unix.Randr

/-!
# The screen layout after a resize

When the server gets a framebuffer of another size, the screens are cut to it, and those that
have nothing left are removed. The screens are in a vector, and an iterator is a place in it: a
removal moves the screens behind it to the front, but not the iterator that the loop goes on with.
-/

namespace KasmVNC.Rfb.SetPixelBuffer

open KasmVNC.Unix (validate validateScreens)

/-! ## The loop -/

/-- `remove_screen`: the others are moved together. -/
def removeScreen (layout : ScreenSet) (id : BitVec 32) : ScreenSet :=
  layout.filter (·.id ≠ id)

/-- The layout during the loop. The ids of the screens that it has visited and whether it uses an
iterator that a removal has invalidated are noted: a removal invalidates those from the new end
on. -/
structure Iteration where
  layout : ScreenSet
  visited : List (BitVec 32) := []
  stale : Bool := false
deriving DecidableEq

/-- The loop, from an iterator on. An iterator behind the end is never equal to it, and the screen
it stands for does not exist. -/
def cutScreens (fbRect : Rect) : ℕ → Iteration → ℕ → Option Iteration
  | 0, _, _ => none
  | fuel + 1, s, iter =>
    if iter = s.layout.length then some s
    else
      s.layout[iter]?.bind fun screen =>
        let visited := s.visited ++ [screen.id]
        if screen.dimensions.enclosedBy fbRect then
          cutScreens fbRect fuel { s with visited } (iter + 1)
        else
          let dimensions := screen.dimensions.intersect fbRect
          let layout := s.layout.set iter { screen with dimensions }
          if dimensions.isEmpty then
            let layout := removeScreen layout screen.id
            let stale := s.stale || layout.length ≤ iter + 1
            cutScreens fbRect fuel { layout, visited, stale } (iter + 1)
          else cutScreens fbRect fuel { s with layout, visited } (iter + 1)

/-- The loop over a layout. Each turn goes one place on, so there are no more turns than screens. -/
def iterate (layout : ScreenSet) (fbWidth fbHeight : ℤ) : Option Iteration :=
  cutScreens (Rect.ofXYWH 0 0 fbWidth fbHeight) (layout.length + 1) { layout } 0

/-- The layout that is stored: with at least one screen. -/
def storeLayout (layout : ScreenSet) (fbWidth fbHeight : ℤ) : ScreenSet :=
  if layout.isEmpty then layout.addScreen ⟨0, Rect.ofXYWH 0 0 fbWidth fbHeight, 0⟩ else layout

def setPixelBuffer (layout : ScreenSet) (fbWidth fbHeight : ℤ) : Option ScreenSet :=
  if validate layout fbWidth fbHeight then some (storeLayout layout fbWidth fbHeight)
  else (iterate layout fbWidth fbHeight).map fun s => storeLayout s.layout fbWidth fbHeight

/-! ## What is asked of it -/

/-- The loop has visited every screen that is left, and used valid iterators only. -/
structure Iteration.Sound (s : Iteration) : Prop where
  valid : s.stale = false
  visited : ∀ screen ∈ s.layout, screen.id ∈ s.visited

/-- A valid layout is stored, the screens that fit the new framebuffer are in it as they were, and
the loop, if it is needed, is sound. -/
structure Resizes (layout : ScreenSet) (fbWidth fbHeight : ℤ) : Prop where
  stored : ∃ result, setPixelBuffer layout fbWidth fbHeight = some result ∧
    validate result fbWidth fbHeight = true ∧
    ∀ screen ∈ layout, screen.dimensions.enclosedBy (Rect.ofXYWH 0 0 fbWidth fbHeight) →
      screen ∈ result
  iterated : validate layout fbWidth fbHeight = false →
    ∃ s, iterate layout fbWidth fbHeight = some s ∧ s.Sound

/-! ## Valid layouts -/

theorem validateScreens_iff {fbRect : Rect} : ∀ {layout : ScreenSet} {seen : List (BitVec 32)},
    validateScreens fbRect seen layout = true ↔
      (∀ screen ∈ layout, screen.dimensions.isEmpty = false ∧
        screen.dimensions.enclosedBy fbRect ∧ screen.id ∉ seen) ∧
      (layout.map Screen.id).Nodup
  | [], seen => by simp [validateScreens]
  | screen :: layout, seen => by
    rw [validateScreens]
    simp only [List.forall_mem_cons, List.map_cons, List.nodup_cons]
    split
    · rename_i hempty
      simp [hempty]
    · rename_i hempty
      split
      · rename_i hout
        simp [hout]
      · rename_i hin
        split
        · rename_i hseen
          have hmem : screen.id ∈ seen := List.contains_iff_mem.mp hseen
          simp [hmem]
        · rename_i hseen
          have hmem : screen.id ∉ seen := fun h => hseen (List.contains_iff_mem.mpr h)
          rw [validateScreens_iff]
          simp only [Bool.not_eq_true] at hempty
          rw [Classical.not_not] at hin
          simp only [List.mem_cons, not_or, List.mem_map, not_exists, not_and]
          constructor
          · rintro ⟨hall, hnodup⟩
            refine ⟨⟨⟨hempty, hin, hmem⟩, fun s hs => ?_⟩, fun s hs => ?_, hnodup⟩
            · exact ⟨(hall s hs).1, (hall s hs).2.1, (hall s hs).2.2.2⟩
            · exact (hall s hs).2.2.1
          · rintro ⟨⟨-, hall⟩, hne, hnodup⟩
            refine ⟨fun s hs => ?_, hnodup⟩
            exact ⟨(hall s hs).1, (hall s hs).2.1, hne s hs, (hall s hs).2.2⟩

theorem validate_iff {layout : ScreenSet} {fbWidth fbHeight : ℤ} :
    validate layout fbWidth fbHeight = true ↔ layout ≠ [] ∧ layout.length ≤ 255 ∧
      (∀ screen ∈ layout, screen.dimensions.isEmpty = false ∧
        screen.dimensions.enclosedBy (Rect.ofXYWH 0 0 fbWidth fbHeight)) ∧
      (layout.map Screen.id).Nodup := by
  rw [validate]
  cases layout with
  | nil => simp
  | cons screen layout =>
    rw [if_neg (by simp)]
    split
    · rename_i hlong
      refine iff_of_false Bool.false_ne_true fun h => ?_
      exact absurd h.2.1 (Nat.not_le.mpr hlong)
    · rename_i hlong
      rw [validateScreens_iff]
      simp only [List.not_mem_nil, not_false_eq_true, and_true]
      exact ⟨fun h => ⟨List.cons_ne_nil _ _, Nat.not_lt.mp hlong, h⟩, fun h => h.2.2⟩

/-! ## Screens that are cut -/

/-- What the loop makes of a screen that has something left. -/
def cut (fbRect : Rect) (screen : Screen) : Screen :=
  if screen.dimensions.enclosedBy fbRect then screen
  else { screen with dimensions := screen.dimensions.intersect fbRect }

/-- Nothing of the screen is left. -/
def Outside (fbRect : Rect) (screen : Screen) : Prop :=
  ¬screen.dimensions.enclosedBy fbRect ∧ (screen.dimensions.intersect fbRect).isEmpty = true

@[simp] theorem cut_id (fbRect : Rect) (screen : Screen) : (cut fbRect screen).id = screen.id := by
  unfold cut
  split <;> rfl

theorem isEmpty_eq_false_iff {r : Rect} :
    r.isEmpty = false ↔ r.tl.1 < r.br.1 ∧ r.tl.2 < r.br.2 := by
  simp [Rect.isEmpty]

theorem intersect_enclosedBy {r s : Rect} (h : (r.intersect s).isEmpty = false) :
    (r.intersect s).enclosedBy s := by
  rw [isEmpty_eq_false_iff] at h
  simp only [Rect.intersect, Rect.enclosedBy] at h ⊢
  omega

theorem intersect_isEmpty_of_enclosedBy {r s : Rect} (h : r.enclosedBy s)
    (hempty : r.isEmpty = false) : (r.intersect s).isEmpty = false := by
  rw [isEmpty_eq_false_iff] at hempty ⊢
  simp only [Rect.intersect, Rect.enclosedBy] at h ⊢
  omega

/-! ## The loop without removals -/

section Loop

variable {fbRect : Rect}

/-- The screen that the iterator stands for. -/
theorem getElem?_middle (before : ScreenSet) (screen : Screen) (after : ScreenSet) :
    (before ++ screen :: after)[before.length]? = some screen := by
  rw [List.getElem?_append_right (Nat.le_refl _), Nat.sub_self]
  rfl

/-- A screen of which something is left is cut, and the iterator goes on. -/
theorem cutScreens_keep {fuel : ℕ} {before after : ScreenSet} {screen : Screen}
    (hin : ¬Outside fbRect screen) (visited : List (BitVec 32)) (stale : Bool) :
    cutScreens fbRect (fuel + 1) ⟨before ++ screen :: after, visited, stale⟩ before.length =
      cutScreens fbRect fuel
        ⟨before ++ [cut fbRect screen] ++ after, visited ++ [screen.id], stale⟩
        (before ++ [cut fbRect screen]).length := by
  rw [cutScreens, if_neg (by simp), getElem?_middle, Option.bind_some, List.append_assoc,
    List.singleton_append, List.length_append, List.length_singleton]
  by_cases henclosed : screen.dimensions.enclosedBy fbRect
  · rw [if_pos henclosed, cut, if_pos henclosed]
  · have hleft : (screen.dimensions.intersect fbRect).isEmpty = false := by
      rw [← Bool.not_eq_true]
      exact fun h => hin ⟨henclosed, h⟩
    rw [if_neg henclosed]
    dsimp only
    rw [hleft, if_neg Bool.false_ne_true, cut, if_neg henclosed,
      List.set_append_right _ _ (Nat.le_refl _), Nat.sub_self, List.set_cons_zero]

/-- A screen that is outside is removed, and the iterator goes on behind the next one. -/
theorem cutScreens_remove {fuel : ℕ} {before after : ScreenSet} {screen : Screen}
    (hout : Outside fbRect screen)
    (hids : ((before ++ screen :: after).map Screen.id).Nodup)
    (visited : List (BitVec 32)) (stale : Bool) :
    cutScreens fbRect (fuel + 1) ⟨before ++ screen :: after, visited, stale⟩ before.length =
      cutScreens fbRect fuel
        ⟨before ++ after, visited ++ [screen.id],
          stale || decide ((before ++ after).length ≤ before.length + 1)⟩
        (before.length + 1) := by
  rw [cutScreens, if_neg (by simp), getElem?_middle, Option.bind_some, if_neg hout.1]
  dsimp only
  rw [hout.2, if_pos rfl, List.set_append_right _ _ (Nat.le_refl _), Nat.sub_self,
    List.set_cons_zero]
  have hremove : removeScreen
      (before ++ { screen with dimensions := screen.dimensions.intersect fbRect } :: after)
      screen.id = before ++ after := by
    rw [List.map_append, List.map_cons, List.nodup_append] at hids
    obtain ⟨-, hafter, hdisjoint⟩ := hids
    rw [removeScreen, List.filter_append, List.filter_cons_of_neg (by simp)]
    congr 1
    · refine List.filter_eq_self.mpr fun s hs => ?_
      have hne := hdisjoint s.id (List.mem_map_of_mem hs) screen.id List.mem_cons_self
      simpa using hne
    · refine List.filter_eq_self.mpr fun s hs => ?_
      have hne : screen.id ≠ s.id := by
        rintro heq
        exact (List.nodup_cons.mp hafter).1 (heq ▸ List.mem_map_of_mem hs)
      simpa using hne.symm
  rw [hremove]

/-- An iterator goes on behind the end of what a removal of the last screen has left. -/
theorem cutScreens_remove_last {fuel : ℕ} {before : ScreenSet} {screen : Screen}
    (hout : Outside fbRect screen) (hids : ((before ++ [screen]).map Screen.id).Nodup)
    (visited : List (BitVec 32)) (stale : Bool) :
    cutScreens fbRect fuel ⟨before ++ [screen], visited, stale⟩ before.length = none := by
  cases fuel with
  | zero => rfl
  | succ fuel =>
    rw [cutScreens_remove hout hids]
    cases fuel with
    | zero => rfl
    | succ fuel =>
      rw [cutScreens, if_neg (by simp), List.getElem?_eq_none (by simp)]
      rfl

/-- The screen behind one that is removed is passed over. -/
theorem cutScreens_remove_next {fuel : ℕ} {before after : ScreenSet} {screen next : Screen}
    (hout : Outside fbRect screen)
    (hids : ((before ++ screen :: next :: after).map Screen.id).Nodup)
    (visited : List (BitVec 32)) (stale : Bool) :
    ((before ++ [next] ++ after).map Screen.id).Nodup ∧ ∃ stale',
      cutScreens fbRect (fuel + 1) ⟨before ++ screen :: next :: after, visited, stale⟩
          before.length =
        cutScreens fbRect fuel ⟨before ++ [next] ++ after, visited ++ [screen.id], stale'⟩
          (before ++ [next]).length := by
  have hsplit : before ++ [next] ++ after = before ++ next :: after := by simp
  have hlength : (before ++ [next]).length = before.length + 1 := by simp
  rw [hsplit, hlength]
  refine ⟨hids.sublist ?_, _, cutScreens_remove hout hids visited stale⟩
  exact ((List.sublist_cons_self screen (next :: after)).append_left before).map _

/-- Where nothing is removed, every screen is visited and cut. -/
theorem cutScreens_all : ∀ {after : ScreenSet} {fuel : ℕ} {before : ScreenSet}
    {visited : List (BitVec 32)}, (∀ screen ∈ after, ¬Outside fbRect screen) →
      after.length < fuel →
        cutScreens fbRect fuel ⟨before ++ after, visited, false⟩ before.length =
          some ⟨before ++ after.map (cut fbRect), visited ++ after.map Screen.id, false⟩
  | _, 0, _, _, _, hfuel => absurd hfuel (Nat.not_lt_zero _)
  | [], fuel + 1, before, visited, _, _ => by
    rw [cutScreens, if_pos (by simp)]
    simp
  | screen :: after, fuel + 1, before, visited, hin, hfuel => by
    rw [cutScreens_keep (hin screen List.mem_cons_self)]
    have hrest := @cutScreens_all after fuel (before ++ [cut fbRect screen])
      (visited ++ [screen.id]) (fun s hs => hin s (List.mem_cons_of_mem screen hs))
      (Nat.lt_of_succ_lt_succ hfuel)
    rw [hrest]
    simp

/-! ## The loop after a removal -/

/-- A screen in front of the iterator that has not been visited never is. -/
theorem cutScreens_skipped : ∀ {fuel : ℕ} {before after : ScreenSet} {visited : List (BitVec 32)}
    {stale : Bool} {id : BitVec 32} {s : Iteration}, id ∈ before.map Screen.id → id ∉ visited →
      ((before ++ after).map Screen.id).Nodup →
        cutScreens fbRect fuel ⟨before ++ after, visited, stale⟩ before.length = some s →
          id ∈ s.layout.map Screen.id ∧ id ∉ s.visited
  | 0, _, _, _, _, _, _, _, _, _, h => by cases h
  | fuel + 1, before, [], visited, stale, id, s, hid, hvisited, _, h => by
    rw [cutScreens, if_pos (by simp)] at h
    obtain rfl := Option.some.inj h
    rw [List.append_nil]
    exact ⟨hid, hvisited⟩
  | fuel + 1, before, screen :: after, visited, stale, id, s, hid, hvisited, hids, h => by
    have hne : id ≠ screen.id := by
      rw [List.map_append, List.nodup_append] at hids
      exact hids.2.2 id hid screen.id List.mem_cons_self
    have hvisited' : id ∉ visited ++ [screen.id] := by
      simp [hvisited, hne]
    have hbefore : ∀ t : Screen, id ∈ (before ++ [t]).map Screen.id := by
      intro t
      rw [List.map_append]
      exact List.mem_append_left _ hid
    by_cases hout : Outside fbRect screen
    · cases after with
      | nil =>
        rw [cutScreens_remove_last hout hids] at h
        cases h
      | cons next after =>
        obtain ⟨hids', stale', hnext⟩ := cutScreens_remove_next hout hids visited stale
        exact cutScreens_skipped (hbefore next) hvisited' hids' (hnext.symm.trans h)
    · rw [cutScreens_keep hout] at h
      exact cutScreens_skipped (hbefore _) hvisited' (by simpa using hids) h

/-- After a removal the loop runs behind the end, or a screen is left out. -/
theorem cutScreens_outside : ∀ {after : ScreenSet} {fuel : ℕ} {before : ScreenSet}
    {visited : List (BitVec 32)} {stale : Bool} {s : Iteration},
      (∃ screen ∈ after, Outside fbRect screen) →
      (∀ screen ∈ after, screen.id ∉ visited) →
      ((before ++ after).map Screen.id).Nodup →
        cutScreens fbRect fuel ⟨before ++ after, visited, stale⟩ before.length = some s →
          ∃ screen ∈ s.layout, screen.id ∉ s.visited
  | [], _, _, _, _, _, hout, _, _, _ => by
    obtain ⟨screen, hmem, -⟩ := hout
    cases hmem
  | _ :: _, 0, _, _, _, _, _, _, _, h => by cases h
  | screen :: after, fuel + 1, before, visited, stale, s, hout, hvisited, hids, h => by
    have hfresh : ∀ next ∈ after, next.id ∉ visited ++ [screen.id] := by
      intro next hnext
      have hne : screen.id ≠ next.id := by
        rw [List.map_append, List.nodup_append] at hids
        rintro heq
        exact (List.nodup_cons.mp hids.2.1).1 (heq ▸ List.mem_map_of_mem hnext)
      have hold := hvisited next (List.mem_cons_of_mem screen hnext)
      simp [hold, hne.symm]
    by_cases hfirst : Outside fbRect screen
    · cases after with
      | nil =>
        rw [cutScreens_remove_last hfirst hids] at h
        cases h
      | cons next after =>
        obtain ⟨hids', stale', hnext⟩ := cutScreens_remove_next hfirst hids visited stale
        have hskipped := cutScreens_skipped (by simp)
          (hfresh next List.mem_cons_self) hids' (hnext.symm.trans h)
        obtain ⟨t, ht, hid⟩ := List.mem_map.mp hskipped.1
        exact ⟨t, ht, hid ▸ hskipped.2⟩
    · rw [cutScreens_keep hfirst] at h
      refine cutScreens_outside ?_ hfresh (by simpa using hids) h
      obtain ⟨t, ht, houtside⟩ := hout
      rcases List.mem_cons.mp ht with rfl | ht
      · exact absurd houtside hfirst
      · exact ⟨t, ht, houtside⟩

end Loop

/-! ## The stored layout -/

/-- Cutting a valid layout of which something is left of every screen. -/
theorem validate_cut {layout : ScreenSet} {fbWidth fbHeight w h : ℤ}
    (hvalid : validate layout w h = true)
    (hin : ∀ screen ∈ layout, ¬Outside (Rect.ofXYWH 0 0 fbWidth fbHeight) screen) :
    validate (layout.map (cut (Rect.ofXYWH 0 0 fbWidth fbHeight))) fbWidth fbHeight = true := by
  obtain ⟨hne, hlength, hscreens, hids⟩ := validate_iff.mp hvalid
  refine validate_iff.mpr ⟨?_, ?_, ?_, ?_⟩
  · simpa using hne
  · rwa [List.length_map]
  · intro screen hscreen
    obtain ⟨old, hold, rfl⟩ := List.mem_map.mp hscreen
    unfold cut
    split
    · rename_i henclosed
      exact ⟨(hscreens old hold).1, henclosed⟩
    · rename_i henclosed
      have hleft : (old.dimensions.intersect (Rect.ofXYWH 0 0 fbWidth fbHeight)).isEmpty =
          false := by
        rw [← Bool.not_eq_true]
        exact fun h => hin old hold ⟨henclosed, h⟩
      exact ⟨hleft, intersect_enclosedBy hleft⟩
  · have hsame : (layout.map (cut (Rect.ofXYWH 0 0 fbWidth fbHeight))).map Screen.id =
        layout.map Screen.id := by simp
    rwa [hsame]

theorem storeLayout_of_validate {layout : ScreenSet} {fbWidth fbHeight : ℤ}
    (hvalid : validate layout fbWidth fbHeight = true) :
    storeLayout layout fbWidth fbHeight = layout := by
  rw [storeLayout, if_neg]
  exact fun hnil => (validate_iff.mp hvalid).1 (List.isEmpty_iff.mp hnil)

/-- **Resizing.** The stored layout is valid, with the screens that fit as they were, and the loop
visits all that is left with valid iterators, exactly when something is left of every screen. -/
theorem resizes_iff {layout : ScreenSet} {w h : ℤ} (hvalid : validate layout w h = true)
    (fbWidth fbHeight : ℤ) : Resizes layout fbWidth fbHeight ↔ ∀ screen ∈ layout,
      (screen.dimensions.intersect (Rect.ofXYWH 0 0 fbWidth fbHeight)).isEmpty = false := by
  obtain ⟨hne, hlength, hscreens, hids⟩ := validate_iff.mp hvalid
  have houtside : ∀ screen ∈ layout, ¬Outside (Rect.ofXYWH 0 0 fbWidth fbHeight) screen ↔
      (screen.dimensions.intersect (Rect.ofXYWH 0 0 fbWidth fbHeight)).isEmpty = false := by
    intro screen hscreen
    rw [Outside, not_and, Bool.not_eq_true]
    refine ⟨fun h => ?_, fun h _ => h⟩
    by_cases henclosed : screen.dimensions.enclosedBy (Rect.ofXYWH 0 0 fbWidth fbHeight)
    · exact intersect_isEmpty_of_enclosedBy henclosed (hscreens screen hscreen).1
    · exact h henclosed
  constructor
  · intro hresizes screen hscreen
    by_cases hnow : validate layout fbWidth fbHeight = true
    · have hfits := (validate_iff.mp hnow).2.2.1 screen hscreen
      exact intersect_isEmpty_of_enclosedBy hfits.2 hfits.1
    · rw [← houtside screen hscreen]
      intro hout
      obtain ⟨s, hs, hsound⟩ := hresizes.iterated (Bool.not_eq_true _ ▸ hnow)
      obtain ⟨t, ht, hskipped⟩ := @cutScreens_outside _ _ _ [] _ _ _ ⟨screen, hscreen, hout⟩
        (fun _ _ => List.not_mem_nil) hids hs
      exact hskipped (hsound.visited t ht)
  · intro hleft
    have hin : ∀ screen ∈ layout, ¬Outside (Rect.ofXYWH 0 0 fbWidth fbHeight) screen :=
      fun screen hscreen => (houtside screen hscreen).mpr (hleft screen hscreen)
    have hiterate := @cutScreens_all _ _ _ [] [] hin (Nat.lt_succ_self _)
    have hcut := validate_cut hvalid hin
    constructor
    · by_cases hnow : validate layout fbWidth fbHeight = true
      · refine ⟨layout, ?_, hnow, fun screen hscreen _ => hscreen⟩
        rw [setPixelBuffer, if_pos hnow, storeLayout_of_validate hnow]
      · refine ⟨layout.map (cut (Rect.ofXYWH 0 0 fbWidth fbHeight)), ?_, hcut, ?_⟩
        · rw [setPixelBuffer, if_neg hnow, iterate]
          refine (congrArg (Option.map _) hiterate).trans ?_
          exact congrArg some (storeLayout_of_validate hcut)
        · intro screen hscreen henclosed
          refine List.mem_map.mpr ⟨screen, hscreen, ?_⟩
          rw [cut, if_pos henclosed]
    · rintro -
      refine ⟨_, hiterate, rfl, fun screen hscreen => ?_⟩
      obtain ⟨old, hold, rfl⟩ := List.mem_map.mp hscreen
      rw [cut_id]
      exact List.mem_map_of_mem hold

/-- Two screens next to each other, of which the right one is cut. -/
theorem resizes_iff_cut :
    Resizes [⟨1, Rect.ofXYWH 0 0 100 100, 0⟩, ⟨2, Rect.ofXYWH 100 0 100 100, 0⟩] 150 100 :=
  (resizes_iff (w := 200) (h := 100) (by decide) 150 100).mpr (by decide)

/-- Three screens next to each other, and a framebuffer that only the first fits: the second is
removed, the third is passed over and stays outside of the framebuffer. -/
theorem resizes_passed_over :
    let layout : ScreenSet := [⟨1, Rect.ofXYWH 0 0 100 100, 0⟩, ⟨2, Rect.ofXYWH 100 0 100 100, 0⟩,
      ⟨3, Rect.ofXYWH 200 0 100 100, 0⟩]
    validate layout 300 100 = true ∧
      setPixelBuffer layout 100 100 =
        some [⟨1, Rect.ofXYWH 0 0 100 100, 0⟩, ⟨3, Rect.ofXYWH 200 0 100 100, 0⟩] ∧
      ¬Resizes layout 100 100 := by
  have hstored : setPixelBuffer [⟨1, Rect.ofXYWH 0 0 100 100, 0⟩,
      ⟨2, Rect.ofXYWH 100 0 100 100, 0⟩, ⟨3, Rect.ofXYWH 200 0 100 100, 0⟩] 100 100 =
      some [⟨1, Rect.ofXYWH 0 0 100 100, 0⟩, ⟨3, Rect.ofXYWH 200 0 100 100, 0⟩] := by decide
  refine ⟨by decide, hstored, fun h => ?_⟩
  obtain ⟨result, hresult, hvalid, -⟩ := h.stored
  obtain rfl := Option.some.inj (hstored.symm.trans hresult)
  exact absurd hvalid (by decide)

/-- A removal of the last screen takes the iterator behind the end. -/
example : setPixelBuffer [⟨1, Rect.ofXYWH 0 0 100 100, 0⟩, ⟨2, Rect.ofXYWH 100 0 100 100, 0⟩]
    100 100 = none := by decide

end KasmVNC.Rfb.SetPixelBuffer
