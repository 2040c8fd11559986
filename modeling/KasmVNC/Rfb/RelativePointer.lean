import KasmVNC.Rfb.Permissions

/-!
# Relative pointer moves

The pointer is at a place that an absolute event sets and a relative one moves. The server keeps
the place, and passes it to the desktop with each event. The framebuffer may change its size in
between.
-/

namespace KasmVNC.Rfb.RelativePointer

open KasmVNC.Lib InputConn

/-! ## The wire -/

/-- A place, or how far to move. -/
inductive Move
  | absolute (p : Point)
  | relative (d : Point)

/-- A bit of the horizontal coordinate tells the two apart. -/
def decode (x y : BitVec 16) : Move :=
  if x.toNat &&& 0x4000 ≠ 0 then .relative (relative x.toNat, relative y.toNat)
  else .absolute (x.toNat, y.toNat)

/-- A coordinate with its sign in the highest bit. -/
def encodeSigned (d : ℤ) : ℕ := if d < 0 then 0x8000 + d.natAbs else d.natAbs

def encode : Move → BitVec 16 × BitVec 16
  | .absolute p => (.ofNat 16 p.1.toNat, .ofNat 16 p.2.toNat)
  | .relative d => (.ofNat 16 (0x4000 + encodeSigned d.1), .ofNat 16 (encodeSigned d.2))

/-! ## Events and resizes -/

/-- A connection in the normal state, and the size of the framebuffer, which is `cp.width` and
`cp.height`. -/
structure World where
  conn : InputConn
  width : ℕ
  height : ℕ

inductive Event
  | pointer (env : PointerEnv) (x y : BitVec 16) (buttonMask : ℕ) (scrollX scrollY : ℤ)
  | resize (width height : ℕ)

namespace World

def pos (w : World) : Point := w.conn.pointerEventPos

/-- What the event does and what the desktop is told. -/
def handle (w : World) (env : PointerEnv) (x y : BitVec 16) (buttonMask : ℕ)
    (scrollX scrollY : ℤ) : InputConn × List DesktopCall :=
  w.conn.pointerEvent { env with width := w.width, height := w.height }
    ⟨x.toNat, y.toNat, buttonMask, scrollX, scrollY⟩

def step (w : World) : Event → World
  | .pointer env x y buttonMask scrollX scrollY =>
    { w with conn := (w.handle env x y buttonMask scrollX scrollY).1 }
  | .resize width height => { w with width, height }

/-- The positions that are passed to the desktop. -/
def passed (w : World) : Event → List Point
  | .pointer env x y buttonMask scrollX scrollY =>
    (w.handle env x y buttonMask scrollX scrollY).2.filterMap fun
      | .pointer _ abspos _ _ _ _ _ => some abspos
      | _ => none
  | .resize _ _ => []

/-- The event is not dropped. -/
def accepts (w : World) (env : PointerEnv) : Bool :=
  w.conn.may AccessPtrEvents && env.acceptPointerEvents && !env.otherPointerClient

/-- The moves of events that are not dropped. -/
def moves (w : World) : Event → List Move
  | .pointer env x y _ _ _ => if w.accepts env then [decode x y] else []
  | .resize _ _ => []

/-- The place after a move, which is clamped to the framebuffer. -/
def target (w : World) : Move → Point
  | .absolute p => p
  | .relative d => (moveBy w.pos.1 d.1 w.width, moveBy w.pos.2 d.2 w.height)

theorem handle_of_accepts {w : World} {env : PointerEnv} (h : w.accepts env = true)
    (x y : BitVec 16) (buttonMask : ℕ) (scrollX scrollY : ℤ) :
    w.passed (.pointer env x y buttonMask scrollX scrollY) = [w.target (decode x y)] ∧
      (w.step (.pointer env x y buttonMask scrollX scrollY)).pos = w.target (decode x y) := by
  simp only [accepts, Bool.and_eq_true, Bool.not_eq_true'] at h
  obtain ⟨⟨hmay, haccept⟩, hother⟩ := h
  simp only [passed, step, handle, pos, InputConn.pointerEvent]
  rw [if_neg (by rw [hmay]; decide), if_neg (by rw [haccept]; decide),
    if_neg (by rw [hother]; decide)]
  by_cases hrelative : x.toNat &&& 0x4000 = 0
  · simp [hrelative, decode, target]
  · simp [hrelative, decode, target, pos]

theorem handle_of_not_accepts {w : World} {env : PointerEnv} (h : ¬w.accepts env = true)
    (x y : BitVec 16) (buttonMask : ℕ) (scrollX scrollY : ℤ) :
    w.passed (.pointer env x y buttonMask scrollX scrollY) = [] ∧
      (w.step (.pointer env x y buttonMask scrollX scrollY)).pos = w.pos := by
  simp only [accepts, Bool.and_eq_true, Bool.not_eq_true'] at h
  simp only [passed, step, handle, pos, InputConn.pointerEvent]
  split
  · exact ⟨rfl, rfl⟩
  · rename_i hmay
    split
    · exact ⟨rfl, rfl⟩
    · rename_i haccept
      split
      · exact ⟨rfl, rfl⟩
      · rename_i hother
        exact absurd (by simpa using And.intro (And.intro hmay haccept) hother) h

/-- **An event.** A move that is not dropped sets the place, and passes it on. -/
theorem step_eq (w : World) (e : Event) : w.passed e = (w.moves e).map w.target ∧
    (w.step e).pos = ((w.moves e).map w.target).foldl (fun _ p => p) w.pos := by
  cases e with
  | resize width height => exact ⟨rfl, rfl⟩
  | pointer env x y buttonMask scrollX scrollY =>
    rw [moves]
    split
    · rename_i haccepts
      exact handle_of_accepts haccepts x y buttonMask scrollX scrollY
    · rename_i haccepts
      exact handle_of_not_accepts haccepts x y buttonMask scrollX scrollY

/-! ## Inside the framebuffer -/

def Inside (w : World) (p : Point) : Prop := (0 ≤ p.1 ∧ p.1 < w.width) ∧ 0 ≤ p.2 ∧ p.2 < w.height

def PassesInside (w : World) (e : Event) : Prop := ∀ p ∈ w.passed e, w.Inside p

/-- An absolute place is inside of the framebuffer, and a relative move does not reach the right
or the lower edge. -/
def FitsMove (w : World) : Move → Prop
  | .absolute p => w.Inside p
  | .relative d =>
    (w.pos.1 + d.1 < w.width ∧ 0 < w.width) ∧ w.pos.2 + d.2 < w.height ∧ 0 < w.height

def Fits (w : World) (e : Event) : Prop := ∀ m ∈ w.moves e, w.FitsMove m

theorem moveBy_nonneg {p d : ℤ} {l : ℕ} (hp : 0 ≤ p) : 0 ≤ moveBy p d l := by
  unfold moveBy
  split
  · split <;> omega
  · split <;> omega

theorem moveBy_lt_iff {p d : ℤ} {l : ℕ} (hp : 0 ≤ p) :
    moveBy p d l < l ↔ p + d < l ∧ 0 < l := by
  unfold moveBy
  split
  · split <;> omega
  · split <;> omega

/-- The place is never negative. -/
def Nonneg (w : World) : Prop := 0 ≤ w.pos.1 ∧ 0 ≤ w.pos.2

theorem target_nonneg {w : World} (h : w.Nonneg) {e : Event} {m : Move} (hm : m ∈ w.moves e) :
    0 ≤ (w.target m).1 ∧ 0 ≤ (w.target m).2 := by
  cases m with
  | relative d => exact ⟨moveBy_nonneg h.1, moveBy_nonneg h.2⟩
  | absolute p =>
    cases e with
    | resize width height => cases hm
    | pointer env x y buttonMask scrollX scrollY =>
      simp only [moves] at hm
      split at hm
      · have hp := List.mem_singleton.mp hm
        unfold decode at hp
        split at hp
        · cases hp
        · obtain rfl := Move.absolute.inj hp
          exact ⟨Int.natCast_nonneg _, Int.natCast_nonneg _⟩
      · cases hm

theorem Nonneg.step {w : World} (h : w.Nonneg) (e : Event) : (w.step e).Nonneg := by
  rw [Nonneg, (step_eq w e).2]
  cases hmoves : w.moves e with
  | nil => exact h
  | cons m rest =>
    have hrest : rest = [] := by
      cases e with
      | resize width height => cases hmoves
      | pointer env x y buttonMask scrollX scrollY =>
        simp only [moves] at hmoves
        split at hmoves
        · exact (List.cons.inj hmoves).2.symm
        · cases hmoves
    subst hrest
    exact target_nonneg h (hmoves ▸ List.mem_singleton_self m)

/-- **Step lemma.** -/
theorem passesInside_iff_fits {w : World} (h : w.Nonneg) (e : Event) :
    w.PassesInside e ↔ w.Fits e := by
  rw [PassesInside, (step_eq w e).1, List.forall_mem_map]
  refine forall₂_congr fun m hm => ?_
  cases m with
  | absolute p => exact Iff.rfl
  | relative d =>
    have hnonneg := target_nonneg h hm
    simp only [Inside, FitsMove, hnonneg, true_and]
    exact and_congr (moveBy_lt_iff h.1) (moveBy_lt_iff h.2)

/-! ## Between clamps -/

/-- A move that is not clamped. -/
def Unclamped (w : World) (e : Event) : Prop :=
  ∀ m ∈ w.moves e, ∀ d, m = .relative d →
    ((d.1 < 0 → 0 ≤ w.pos.1 + d.1) ∧ (0 ≤ d.1 → w.pos.1 + d.1 < w.width)) ∧
      (d.2 < 0 → 0 ≤ w.pos.2 + d.2) ∧ (0 ≤ d.2 → w.pos.2 + d.2 < w.height)

/-- The place after a move on a screen without edges. -/
def track (p : Point) : Move → Point
  | .absolute q => q
  | .relative d => p + d

/-- The moves of a run that are not dropped. -/
def delivered : World → List Event → List Move
  | _, [] => []
  | w, e :: es => w.moves e ++ delivered (w.step e) es

theorem moveBy_eq {p d : ℤ} {l : ℕ} (hlo : d < 0 → 0 ≤ p + d) (hhi : 0 ≤ d → p + d < l) :
    moveBy p d l = p + d := by
  unfold moveBy
  split <;> rename_i hneg
  · exact if_pos (hlo hneg)
  · exact if_neg (Int.not_le.mpr (hhi (Int.not_lt.mp hneg)))

theorem target_eq_track {w : World} {e : Event} (h : w.Unclamped e) {m : Move}
    (hm : m ∈ w.moves e) : w.target m = track w.pos m := by
  cases m with
  | absolute p => rfl
  | relative d =>
    obtain ⟨⟨hxlo, hxhi⟩, hylo, hyhi⟩ := h _ hm d rfl
    exact Prod.ext (moveBy_eq hxlo hxhi) (moveBy_eq hylo hyhi)

theorem step_track {w : World} {e : Event} (h : w.Unclamped e) :
    (w.step e).pos = (w.moves e).foldl track w.pos := by
  rw [(step_eq w e).2]
  cases e with
  | resize width height => rfl
  | pointer env x y buttonMask scrollX scrollY =>
    have htarget := fun m hm => target_eq_track h (m := m) hm
    simp only [moves] at htarget ⊢
    split
    · rename_i haccepts
      exact htarget _ (by rw [if_pos haccepts]; exact List.mem_singleton_self _)
    · rfl

theorem run_track {es : List Event} {w : World} (h : Guarded step Unclamped w es) :
    (run step w es).pos = (delivered w es).foldl track w.pos := by
  induction es generalizing w with
  | nil => rfl
  | cons e es ih =>
    rw [run_cons, ih h.2, delivered, List.foldl_append, step_track h.1]

/-- A place, and the relative moves since. -/
theorem foldl_track (before : List Move) (p q : Point) (ds : List Point) :
    (before ++ .absolute q :: ds.map Move.relative).foldl track p = q + ds.sum := by
  rw [List.foldl_append, List.foldl_cons]
  show (ds.map Move.relative).foldl track q = _
  induction ds generalizing q with
  | nil => simp
  | cons d ds ih =>
    rw [List.map_cons, List.foldl_cons, List.sum_cons, ← add_assoc]
    exact ih (q + d)

/-- A connection that has had no pointer events. -/
def opened (c : InputConn) (width height : ℕ) : World :=
  ⟨{ c with pointerEventPos := (0, 0) }, width, height⟩

/-- **Relative moves.** Along every run the positions that are passed are inside of the
framebuffer exactly as long as absolute places are, and no relative move reaches the right or the
lower edge. Between clamps a position is the last absolute one, or the one at the start, and the
relative moves since. -/
theorem passesInside_iff (c : InputConn) (width height : ℕ) (es : List Event) :
    (Guarded step PassesInside (opened c width height) es ↔
      Guarded step Fits (opened c width height) es) ∧
    (∀ before between, es = before ++ between →
      Guarded step Unclamped (run step (opened c width height) before) between →
        (run step (opened c width height) es).pos =
          (delivered (run step (opened c width height) before) between).foldl track
            (run step (opened c width height) before).pos) ∧
    ∀ before p q (ds : List Point), (before ++ .absolute q :: ds.map Move.relative).foldl track p = q + ds.sum := by
  have hnonneg : (opened c width height).Nonneg := ⟨le_rfl, le_rfl⟩
  refine ⟨⟨fun h => ?_, fun h => ?_⟩, ?_, foldl_track⟩
  · exact guarded_imp (fun w e h _ => Nonneg.step h e)
      (fun w e h hin => (passesInside_iff_fits h e).mp hin) hnonneg h
  · exact guarded_imp (fun w e h _ => Nonneg.step h e)
      (fun w e h hfits => (passesInside_iff_fits h e).mpr hfits) hnonneg h
  · rintro before between rfl hunclamped
    rw [run_append]
    exact run_track hunclamped

/-- Pointer events are accepted. -/
def freeEnv : PointerEnv := ⟨true, false, 0, 0, none, false, false⟩

/-- A move by 200 to the right on a screen of 100 by 100: the pointer is put at 100, which is
not on the screen. -/
theorem relative_move_leaves :
    (opened quietConn 100 100).passed (.pointer freeEnv (encode (.relative (200, 0))).1
        (encode (.relative (200, 0))).2 0 0 0) = [(100, 0)] ∧
      ¬Guarded step PassesInside (opened quietConn 100 100)
        [.pointer freeEnv (encode (.relative (200, 0))).1 (encode (.relative (200, 0))).2 0 0 0] := by
  have hpassed : (opened quietConn 100 100).passed (.pointer freeEnv
      (encode (.relative (200, 0))).1 (encode (.relative (200, 0))).2 0 0 0) = [(100, 0)] := by
    decide
  refine ⟨hpassed, fun h => ?_⟩
  have hinside := h.1 (100, 0) (by rw [hpassed]; exact List.mem_singleton_self _)
  exact absurd hinside.1.2 (by decide)

end World

end KasmVNC.Rfb.RelativePointer
