import Mathlib.Algebra.GroupWithZero.WithZero
import Mathlib.Data.List.Induction
import KasmVNC.Lib.Strides
import KasmVNC.Lib.Undefined
import KasmVNC.Lib.Wire

/-!
# Screenshots

The main thread gives its framebuffer to `GetAPIMessager`, which keeps a copy if the hash of
the buffer has changed. Network threads ask for screenshots. They first clamp the size to the
one of the screen, without the lock, and then take the lock. The last JPEG is kept with its
size and its quality, and is forgotten when the hash changes.

The hash and the copy are of the first `width * height` pixels of the buffer, whatever its
stride is. Scaling, compression and the hash are functions that nothing is known about.
-/

namespace KasmVNC.Network.Screenshot

open KasmVNC.Lib

inductive Subsampling
  | subsample4X
  | subsample2X
  | subsampleNone
deriving DecidableEq

/-- `conf`: the quality of the compression and the subsampling. -/
def conf : List (ℕ × Subsampling) :=
  [(15, .subsample4X), (29, .subsample4X), (41, .subsample4X), (42, .subsample2X),
    (62, .subsample2X), (77, .subsample2X), (79, .subsampleNone), (86, .subsampleNone),
    (92, .subsampleNone), (100, .subsampleNone)]

/-- The pixels of a rectangle in a format, row by row. -/
structure Image (PF : Type) where
  pf : PF
  width : ℕ
  height : ℕ
  bytes : List Byte
deriving DecidableEq

/-- The framebuffer of the main thread, four bytes for each pixel. -/
structure Framebuffer (PF : Type) where
  pf : PF
  width : ℕ
  height : ℕ
  stride : ℕ
  buf : ℕ → Byte
  nonempty : 0 < width ∧ 0 < height
  size_limits : width < 2 ^ 16 ∧ height < 2 ^ 16
  width_le : width ≤ stride

variable {PF H : Type}

namespace Framebuffer

/-- The start of the buffer. -/
def raw (fb : Framebuffer PF) : List Byte := (List.range (fb.width * fb.height * 4)).map fb.buf

/-- What is shown. -/
def image (fb : Framebuffer PF) : Image PF :=
  ⟨fb.pf, fb.width, fb.height, (List.range fb.height).flatMap fun y =>
    (List.range (fb.width * 4)).map fun i => fb.buf (y * (fb.stride * 4) + i)⟩

end Framebuffer

/-- The functions that are used. -/
structure Coder (PF H : Type) where
  xxh64 : List Byte → H
  /-- `progressiveBilinearScale` to the size that is asked for. -/
  scale : Image PF → ℕ → ℕ → Image PF
  compress : Image PF → ℕ × Subsampling → List Byte

structure Request where
  w : ℕ
  h : ℕ
  q : ℕ
  dedup : Bool
  staging : Bool

/-- A request that waits for the lock. -/
structure Waiting where
  request : Request
  w : ℕ
  h : ℕ

inductive Answer (H : Type)
  | hash (h : H)
  | image (jpeg : List Byte)

structure Messager (PF H : Type) where
  screenPb : Image PF
  screenW : ℕ
  screenH : ℕ
  screenHash : H
  cachedJpeg : List Byte
  cachedW : ℕ
  cachedH : ℕ
  cachedQ : ℕ
  /-- The requests between clamping and taking the lock. -/
  waiting : List Waiting

/-- The screenshot of a size and a quality. -/
def Coder.encode (coder : Coder PF H) (screen : Image PF) (w h q : ℕ) : List Byte :=
  let setting := conf.getD q (0, .subsampleNone)
  if w ≠ screen.width ∨ h ≠ screen.height then coder.compress (coder.scale screen w h) setting
  else coder.compress screen setting

namespace Messager

section Code

variable (coder : Coder PF H) [Zero H] [DecidableEq H]

/-- Nothing has been given yet. -/
def initial (screenPb : Image PF) : Messager PF H := ⟨screenPb, 0, 0, 0, [], 0, 0, 0, []⟩

def forget (s : Messager PF H) : Messager PF H :=
  { s with cachedW := 0, cachedH := 0, cachedQ := 0, cachedJpeg := [] }

/-- The size of the screen changes. `old` is what the memory of the buffer holds then. -/
def resize (fb : Framebuffer PF) (old : List Byte) (s : Messager PF H) : Messager PF H :=
  if fb.width ≠ s.screenW ∨ fb.height ≠ s.screenH then
    forget { s with
      screenHash := 0
      screenW := fb.width
      screenH := fb.height
      screenPb := ⟨fb.pf, fb.width, fb.height, old⟩ }
  else s

/-- The buffer is copied if its hash is new. -/
def copyNew (fb : Framebuffer PF) (s : Messager PF H) : Messager PF H :=
  let newHash := coder.xxh64 fb.raw
  if newHash ≠ s.screenHash then
    { s.forget with
      screenHash := newHash
      screenPb := { s.screenPb with bytes := fb.raw } }
  else s

def mainUpdateScreen (fb : Framebuffer PF) (old : List Byte) (s : Messager PF H) :
    Option (Messager PF H) := do
  let area ← int (fb.width * fb.height)
  let _ ← int (area * 4)
  return (s.resize fb old).copyNew coder fb

/-- `netGetScreenshot` up to the lock. -/
def clamp (r : Request) (s : Messager PF H) : Messager PF H :=
  let w := if r.w > s.screenW then s.screenW else r.w
  let h := if r.h > s.screenH then s.screenH else r.h
  if w = 0 ∨ h = 0 ∨ r.q > 9 ∨ !r.staging then s
  else { s with waiting := s.waiting ++ [⟨r, w, h⟩] }

/-- `netGetScreenshot` with the lock. -/
def serve (p : Waiting) (s : Messager PF H) : Answer H × Messager PF H :=
  if p.w = s.cachedW ∧ p.h = s.cachedH ∧ p.request.q = s.cachedQ then
    if p.request.dedup then (.hash s.screenHash, s) else (.image s.cachedJpeg, s)
  else
    let jpeg := if p.w ≠ s.screenW ∨ p.h ≠ s.screenH then
        coder.compress (coder.scale s.screenPb p.w p.h) (conf.getD p.request.q (0, .subsampleNone))
      else coder.compress s.screenPb (conf.getD p.request.q (0, .subsampleNone))
    (.image jpeg,
      { s with cachedJpeg := jpeg, cachedQ := p.request.q, cachedW := p.w, cachedH := p.h })

end Code

end Messager

/-- What happens, one critical section after the other. An update that does not get the lock
does nothing. -/
inductive Event (PF : Type)
  | update (fb : Framebuffer PF) (old : List Byte)
  | request (r : Request)
  /-- A request that waits takes the lock. -/
  | serve (k : ℕ)

section Runs

variable (coder : Coder PF H) [Zero H] [DecidableEq H] (start : Image PF)

def step (s : Messager PF H) : Event PF → Option (Messager PF H)
  | .update fb old => s.mainUpdateScreen coder fb old
  | .request r => some (s.clamp r)
  | .serve k =>
    match s.waiting[k]? with
    | none => some s
    | some p => some { (s.serve coder p).2 with waiting := s.waiting.eraseIdx k }

def runs (es : List (Event PF)) : Option (Messager PF H) := es.foldlM (step coder) (.initial start)

/-! ## Fresh screenshots -/

/-- The framebuffer that has been given last. -/
def given (es : List (Event PF)) : Option (Image PF) :=
  es.foldl (fun img e => match e with
    | .update fb _ => some fb.image
    | _ => img) none

/-- A screenshot of this size and quality has been made, and the framebuffer has not changed
since. -/
def Made (es : List (Event PF)) (w h q : ℕ) (jpeg : List Byte) : Prop :=
  ∃ before k after s p img, es = before ++ .serve k :: after ∧ runs coder start before = some s ∧
    s.waiting[k]? = some p ∧ (p.w = w ∧ p.h = h ∧ p.request.q = q) ∧
    (s.serve coder p).1 = .image jpeg ∧ given before = some img ∧
    jpeg = coder.encode img w h q ∧ ∀ fb old, .update fb old ∈ after → fb.image = img

/-- The answer to a request is about the framebuffer that has been given last. -/
def Right (es : List (Event PF)) (r : Request) (a : Answer H) : Prop :=
  ∃ img, given es = some img ∧
    match a with
    | .image jpeg => jpeg = coder.encode img (min r.w img.width) (min r.h img.height) r.q
    | .hash _ => ∃ jpeg, Made coder start es (min r.w img.width) (min r.h img.height) r.q jpeg

/-- Along the run everything is defined, and all answers are right. -/
def Fresh (es : List (Event PF)) : Prop :=
  ∀ before e, before ++ [e] <+: es → Returns (runs coder start (before ++ [e])) fun _ =>
    ∀ k s p, e = .serve k → runs coder start before = some s → s.waiting[k]? = some p →
      Right coder start before p.request (s.serve coder p).1

/-! ## When they are fresh -/

/-- The guard of an event. -/
def Fits (s : Messager PF H) : Event PF → Prop
  | .update fb _ =>
    -- the number of bytes is an `int`
    fb.width * fb.height * 4 < 2 ^ 31 ∧
    -- the rows follow each other in the buffer
    fb.raw = fb.image.bytes ∧
    if fb.width ≠ s.screenW ∨ fb.height ≠ s.screenH then
      -- it is not taken for the screen that has not been given yet
      coder.xxh64 fb.raw ≠ 0
    else fb.pf = s.screenPb.pf
  | .request _ => True
  | .serve k => ∀ p, s.waiting[k]? = some p →
      -- the size of the screen that the request was clamped to is still the one
      p.w = min p.request.w s.screenW ∧ p.h = min p.request.h s.screenH

/-- All events of the run meet the guard. -/
def Guarded (es : List (Event PF)) : Prop :=
  ∀ before e, before ++ [e] <+: es → Allows (runs coder start before) fun s => Fits coder s e

end Runs

/-! ## The invariant -/

section Invariant

variable {coder : Coder PF H} [Zero H] [DecidableEq H] {start : Image PF}
  {es : List (Event PF)} {s : Messager PF H} {fb : Framebuffer PF} {old : List Byte}

theorem runs_concat (e : Event PF) :
    runs coder start (es ++ [e]) = runs coder start es >>= fun s => step coder s e := by
  unfold runs
  rw [List.foldlM_append]
  refine congrArg _ (funext fun s => ?_)
  rw [List.foldlM_cons]
  exact bind_pure _

theorem given_update : given (es ++ [.update fb old]) = some fb.image := by
  unfold given
  rw [List.foldl_append]
  rfl

theorem given_request {r : Request} : given (es ++ [.request r]) = given es := by
  unfold given
  rw [List.foldl_append]
  rfl

theorem given_serve {k : ℕ} : given (es ++ [.serve k]) = given es := by
  unfold given
  rw [List.foldl_append]
  rfl

/-- What the object knows of the framebuffer. -/
def Knows (coder : Coder PF H) (s : Messager PF H) : Option (Image PF) → Prop
  | none => s.screenW = 0 ∧ s.screenH = 0
  | some img => s.screenPb = img ∧ s.screenW = img.width ∧ s.screenH = img.height ∧
      s.screenHash = coder.xxh64 img.bytes

/-- What holds between two critical sections. -/
structure Inv (coder : Coder PF H) (start : Image PF) (es : List (Event PF)) (s : Messager PF H) :
    Prop where
  knows : Knows coder s (given es)
  cached : 0 < s.cachedW → Made coder start es s.cachedW s.cachedH s.cachedQ s.cachedJpeg ∧
    ∃ img, given es = some img ∧ s.cachedJpeg = coder.encode img s.cachedW s.cachedH s.cachedQ
  waiting : ∀ p ∈ s.waiting, 0 < p.w

theorem given_unchanged {before after : List (Event PF)} {img : Image PF}
    (hbefore : given before = some img) (hafter : ∀ fb old, .update fb old ∈ after → fb.image = img) :
    given (before ++ after) = some img := by
  induction after using List.reverseRecOn with
  | nil => rwa [List.append_nil]
  | append_singleton after e ih =>
    have hrest := ih fun fb old hmem => hafter fb old (List.mem_append_left _ hmem)
    rw [← List.append_assoc]
    cases e with
    | update fb old =>
      rw [given_update, hafter fb old (List.mem_append_right _ (List.mem_singleton.mpr rfl))]
    | request r => rwa [given_request]
    | serve k => rwa [given_serve]

/-- What has been made is still made as long as the framebuffer is not changed. -/
theorem Made.concat {w h q : ℕ} {jpeg : List Byte} {e : Event PF}
    (hmade : Made coder start es w h q jpeg) {img : Image PF} (hgiven : given es = some img)
    (hsame : ∀ fb old, e = .update fb old → fb.image = img) :
    Made coder start (es ++ [e]) w h q jpeg := by
  obtain ⟨before, k, after, s, p, img', rfl, hs, hp, hsize, himage, hbefore, hjpeg, hafter⟩ := hmade
  have heq : img' = img := by
    have hsince : given (before ++ .serve k :: after) = some img' :=
      given_unchanged hbefore fun fb old hmem => hafter fb old ((List.mem_cons.mp hmem).resolve_left fun h => by cases h)
    exact Option.some.inj (hsince.symm.trans hgiven)
  subst heq
  refine ⟨before, k, after ++ [e], s, p, img', by rw [List.append_assoc, List.cons_append], hs, hp,
    hsize, himage, hbefore, hjpeg, fun fb old hmem => ?_⟩
  rcases List.mem_append.mp hmem with hmem | hmem
  · exact hafter fb old hmem
  · exact hsame fb old (List.mem_singleton.mp hmem).symm

theorem raw_eq (hfits : fb.raw = fb.image.bytes) :
    (⟨fb.pf, fb.width, fb.height, fb.raw⟩ : Image PF) = fb.image := by
  rw [hfits]
  rfl

/-- Rows without padding follow each other, and so does a single row. -/
theorem raw_eq_of_stride (h : fb.stride = fb.width ∨ fb.height = 1) : fb.raw = fb.image.bytes := by
  unfold Framebuffer.raw Framebuffer.image
  rcases h with hstride | hone
  · rw [hstride, Nat.mul_comm fb.width, Nat.mul_assoc]
    exact (flatMap_range fb.buf (fb.width * 4) fb.height).symm
  · rw [hone, Nat.mul_one]
    simp

theorem mainUpdateScreen_eq (hbytes : fb.width * fb.height * 4 < 2 ^ 31) :
    s.mainUpdateScreen coder fb old = some ((s.resize fb old).copyNew coder fb) := by
  have harea : (fb.width : ℤ) * fb.height * 4 < 2 ^ 31 := by exact_mod_cast hbytes
  have hnonneg : (0 : ℤ) ≤ fb.width * fb.height := by exact_mod_cast Nat.zero_le _
  unfold Messager.mainUpdateScreen
  rw [int_eq (by omega) (by omega), Option.bind_eq_bind, Option.bind_some,
    int_eq (by omega) (by omega)]
  rfl

/-- A framebuffer that is copied takes the place of the one before. -/
theorem copied_inv (h : ∀ p ∈ s.waiting, 0 < p.w) (hrows : fb.raw = fb.image.bytes)
    (hpf : s.screenPb.pf = fb.pf) (hpb : s.screenPb.width = fb.width ∧ s.screenPb.height = fb.height)
    (hscreen : s.screenW = fb.width ∧ s.screenH = fb.height)
    (hnew : coder.xxh64 fb.raw ≠ s.screenHash) :
    Inv coder start (es ++ [.update fb old]) (s.copyNew coder fb) := by
  have himage : (⟨s.screenPb.pf, s.screenPb.width, s.screenPb.height, fb.raw⟩ : Image PF) =
      fb.image := by
    rw [← raw_eq hrows, hpf, hpb.1, hpb.2]
  unfold Messager.copyNew
  dsimp only
  rw [if_pos hnew]
  refine ⟨?_, fun hcached => absurd hcached (Nat.lt_irrefl 0), h⟩
  rw [given_update]
  exact ⟨himage, hscreen.1, hscreen.2, congrArg coder.xxh64 hrows⟩

/-- A framebuffer takes the place of the one before, or is the same. -/
theorem update_inv (hinj : Function.Injective coder.xxh64) (h : Inv coder start es s)
    (hfits : Fits coder s (.update fb old)) :
    Returns (s.mainUpdateScreen coder fb old) (Inv coder start (es ++ [.update fb old])) := by
  obtain ⟨hbytes, hrows, hscreen⟩ := hfits
  rw [mainUpdateScreen_eq hbytes]
  refine Returns.done ?_
  unfold Messager.resize
  by_cases hsize : fb.width ≠ s.screenW ∨ fb.height ≠ s.screenH
  · rw [if_pos hsize] at hscreen
    rw [if_pos hsize]
    exact copied_inv h.waiting hrows rfl ⟨rfl, rfl⟩ ⟨rfl, rfl⟩ hscreen
  rw [if_neg hsize] at hscreen
  rw [if_neg hsize]
  obtain ⟨hwidth, hheight⟩ := not_or.mp hsize
  have hwidth := not_not.mp hwidth
  have hheight := not_not.mp hheight
  have hknows := h.knows
  cases hgiven : given es with
  | none =>
    -- the size of the screen is zero
    rw [hgiven] at hknows
    have hzero := hknows.1
    have hnonempty := fb.nonempty.1
    omega
  | some img =>
    rw [hgiven] at hknows
    obtain ⟨hpb, hscreenW, hscreenH, hhash⟩ := hknows
    have hsizes : s.screenPb.width = fb.width ∧ s.screenPb.height = fb.height := by
      rw [hpb, hwidth, hheight]
      exact ⟨hscreenW.symm, hscreenH.symm⟩
    by_cases hnew : coder.xxh64 fb.raw ≠ s.screenHash
    · exact copied_inv h.waiting hrows hscreen.symm hsizes ⟨hwidth.symm, hheight.symm⟩ hnew
    -- by the hash the buffer is the one before
    have hraw : fb.raw = img.bytes := hinj ((not_not.mp hnew).trans hhash)
    have hsame : fb.image = img := by
      rw [← raw_eq hrows, hraw, hscreen, ← hsizes.1, ← hsizes.2, hpb]
    unfold Messager.copyNew
    dsimp only
    rw [if_neg hnew]
    refine ⟨?_, fun hcached => ?_, h.waiting⟩
    · rw [given_update, hsame]
      exact ⟨hpb, hscreenW, hscreenH, hhash⟩
    · obtain ⟨hmade, img', himg', hjpeg⟩ := h.cached hcached
      refine ⟨hmade.concat hgiven fun fb' old' heq => ?_, img', ?_, hjpeg⟩
      · cases heq
        exact hsame
      · rw [given_update, hsame, ← hgiven, himg']

/-- An event that is no update leaves what has been made. -/
theorem cached_concat {e : Event PF} {w h q : ℕ} {jpeg : List Byte}
    (hgiven : given (es ++ [e]) = given es) (hupdate : ∀ fb old, e ≠ .update fb old)
    (hmade : Made coder start es w h q jpeg ∧
      ∃ img, given es = some img ∧ jpeg = coder.encode img w h q) :
    Made coder start (es ++ [e]) w h q jpeg ∧
      ∃ img, given (es ++ [e]) = some img ∧ jpeg = coder.encode img w h q := by
  obtain ⟨hmade, img, himg, hjpeg⟩ := hmade
  rw [hgiven]
  exact ⟨hmade.concat himg fun fb old heq => absurd heq (hupdate fb old), img, himg, hjpeg⟩

theorem request_inv (h : Inv coder start es s) (r : Request) :
    Inv coder start (es ++ [.request r]) (s.clamp r) := by
  have hcached := fun hpos : 0 < s.cachedW =>
    cached_concat (e := .request r) given_request (fun _ _ heq => nomatch heq) (h.cached hpos)
  have hknows : Knows coder s (given (es ++ [.request r])) := by
    rw [given_request]
    exact h.knows
  unfold Messager.clamp
  dsimp only
  generalize (if r.w > s.screenW then s.screenW else r.w) = w
  generalize (if r.h > s.screenH then s.screenH else r.h) = height
  split_ifs with hnone
  · exact ⟨hknows, hcached, h.waiting⟩
  · refine ⟨hknows, hcached, fun p hp => ?_⟩
    rcases List.mem_append.mp hp with hp | hp
    · exact h.waiting p hp
    · rw [List.mem_singleton.mp hp]
      exact Nat.pos_of_ne_zero fun hzero => hnone (Or.inl hzero)

omit [Zero H] [DecidableEq H] in
/-- A screenshot that is made is one of the framebuffer that has been given. -/
theorem jpeg_eq {img : Image PF} {w h q : ℕ} (hknows : Knows coder s (some img)) :
    (if w ≠ s.screenW ∨ h ≠ s.screenH then
      coder.compress (coder.scale s.screenPb w h) (conf.getD q (0, .subsampleNone))
    else coder.compress s.screenPb (conf.getD q (0, .subsampleNone))) = coder.encode img w h q := by
  obtain ⟨hpb, hscreenW, hscreenH, -⟩ := hknows
  rw [hpb, hscreenW, hscreenH]
  rfl

/-- **Serving a request.** -/
theorem serve_inv {k : ℕ} {p : Waiting} (hs : runs coder start es = some s)
    (h : Inv coder start es s) (hp : s.waiting[k]? = some p)
    (hfits : p.w = min p.request.w s.screenW ∧ p.h = min p.request.h s.screenH) :
    Right coder start es p.request (s.serve coder p).1 ∧
      Inv coder start (es ++ [.serve k])
        { (s.serve coder p).2 with waiting := s.waiting.eraseIdx k } := by
  have hpos := h.waiting p (List.mem_of_getElem? hp)
  have hwaiting : ∀ p' ∈ s.waiting.eraseIdx k, 0 < p'.w := fun p' hp' =>
    h.waiting p' (List.mem_of_mem_eraseIdx hp')
  have hknows := h.knows
  cases hgiven : given es with
  | none =>
    -- there is no screen, so nothing can have been clamped to it
    rw [hgiven] at hknows
    have hzero := hknows.1
    omega
  | some img =>
    rw [hgiven] at hknows
    have hsize : min p.request.w img.width = p.w ∧ min p.request.h img.height = p.h := by
      rw [hfits.1, hfits.2, hknows.2.1, hknows.2.2.1]
      exact ⟨rfl, rfl⟩
    have hknows' : Knows coder s (given (es ++ [.serve k])) := by
      rw [given_serve, hgiven]
      exact hknows
    unfold Messager.serve Right
    by_cases hhit : p.w = s.cachedW ∧ p.h = s.cachedH ∧ p.request.q = s.cachedQ
    · obtain ⟨hw, hh, hq⟩ := hhit
      obtain ⟨hmade, img', himg', hjpeg⟩ := h.cached (hw ▸ hpos)
      obtain rfl : img = img' := Option.some.inj (hgiven.symm.trans himg')
      have hcached := fun hpos : 0 < s.cachedW =>
        cached_concat (e := .serve k) given_serve (fun _ _ heq => nomatch heq) (h.cached hpos)
      rw [if_pos ⟨hw, hh, hq⟩]
      cases hdedup : p.request.dedup with
      | true =>
        refine ⟨⟨img, hgiven, s.cachedJpeg, ?_⟩, hknows', hcached, hwaiting⟩
        rwa [hsize.1, hsize.2, hw, hh, hq]
      | false =>
        refine ⟨⟨img, hgiven, ?_⟩, hknows', hcached, hwaiting⟩
        show s.cachedJpeg = _
        rw [hsize.1, hsize.2, hw, hh, hq, hjpeg]
    · rw [if_neg hhit]
      dsimp only
      rw [jpeg_eq hknows]
      refine ⟨⟨img, hgiven, ?_⟩, hknows', fun _ => ⟨?_, img, ?_, rfl⟩, hwaiting⟩
      · rw [hsize.1, hsize.2]
      · refine ⟨es, k, [], s, p, img, rfl, hs, hp, ⟨rfl, rfl, rfl⟩, ?_, hgiven, rfl,
          fun fb old hmem => absurd hmem List.not_mem_nil⟩
        unfold Messager.serve
        rw [if_neg hhit]
        dsimp only
        rw [jpeg_eq hknows]
      · rw [given_serve, hgiven]

/-- One event that meets the guard. -/
theorem step_inv {e : Event PF} (hinj : Function.Injective coder.xxh64)
    (hs : runs coder start es = some s) (h : Inv coder start es s) (hfits : Fits coder s e) :
    Returns (step coder s e) (Inv coder start (es ++ [e])) := by
  cases e with
  | update fb old => exact update_inv hinj h hfits
  | request r => exact Returns.done (request_inv h r)
  | serve k =>
    unfold step
    dsimp only
    cases hp : s.waiting[k]? with
    | none =>
      refine Returns.done ⟨?_, fun hpos => ?_, h.waiting⟩
      · rw [given_serve]
        exact h.knows
      · exact cached_concat given_serve (fun _ _ heq => nomatch heq) (h.cached hpos)
    | some p => exact Returns.done (serve_inv hs h hp (hfits p hp)).2

theorem runs_inv (hinj : Function.Injective coder.xxh64) (hguard : Guarded coder start es) :
    Returns (runs coder start es) (Inv coder start es) := by
  induction es using List.reverseRecOn with
  | nil => exact Returns.done ⟨⟨rfl, rfl⟩, fun hpos => absurd hpos (Nat.lt_irrefl 0),
      fun p hp => absurd hp List.not_mem_nil⟩
  | append_singleton es e ih =>
    obtain ⟨s, hs, hinv⟩ := ih fun before e' hle =>
      hguard before e' (hle.trans (List.prefix_append _ _))
    rw [runs_concat, hs]
    exact step_inv hinj hs hinv (hguard es e List.prefix_rfl s hs)

/-- **Screenshots are fresh along every run whose events meet the guard.** -/
theorem fresh_of_guarded (hinj : Function.Injective coder.xxh64)
    (hguard : Guarded coder start es) : Fresh coder start es := by
  intro before e hle
  have hbefore : Guarded coder start before := fun b e' hb =>
    hguard b e' (hb.trans ((List.prefix_append _ _).trans hle))
  obtain ⟨s, hs, hinv⟩ := runs_inv hinj hbefore
  have hfits := hguard before e hle s hs
  rw [runs_concat, hs]
  refine (step_inv hinj hs hinv hfits).mono ?_
  rintro t - k s' p rfl hs' hp
  obtain rfl : s = s' := Option.some.inj hs'
  exact (serve_inv hs hinv hp (hfits p hp)).1

end Invariant

/-! ## A buffer with padding -/

instance : DecidableEq (WithZero (List Byte)) := inferInstanceAs (DecidableEq (Option (List Byte)))

/-- Nothing is compressed, and the hash is the text. -/
def plain : Coder Unit (WithZero (List Byte)) where
  xxh64 bytes := (bytes : WithZero (List Byte))
  scale img w h := ⟨img.pf, w, h, img.bytes⟩
  compress img _ := img.bytes

/-- A column of two pixels. -/
def column (stride : ℕ) (h : 1 ≤ stride) : Framebuffer Unit :=
  ⟨(), 1, 2, stride, fun i => BitVec.ofNat 8 i, by decide, by omega, h⟩

def blank : Image Unit := ⟨(), 0, 0, []⟩

/-- A column is given, and a screenshot of it is taken. -/
def screenshotOf (fb : Framebuffer Unit) : List (Event Unit) :=
  [.update fb [], .request ⟨1, 2, 9, false, true⟩, .serve 0]

/-- The state in which the screenshot is taken. -/
theorem runs_screenshotOf {fb : Framebuffer Unit} (hbytes : fb.width * fb.height * 4 < 2 ^ 31) :
    runs plain blank [.update fb [], .request ⟨1, 2, 9, false, true⟩] =
      some ((((Messager.initial blank).resize fb []).copyNew plain fb).clamp
        ⟨1, 2, 9, false, true⟩) := by
  have hupdate : step plain (.initial blank) (.update fb []) =
      some (((Messager.initial blank).resize fb []).copyNew plain fb) := mainUpdateScreen_eq hbytes
  unfold runs
  rw [List.foldlM_cons, hupdate, Option.bind_eq_bind, Option.bind_some, List.foldlM_cons, step,
    Option.bind_eq_bind, Option.bind_some]
  rfl

/-- The second row that is returned is the padding of the first one. -/
theorem padding_shown :
    ¬Fresh plain blank (screenshotOf (column 2 (by decide))) := by
  intro h
  obtain ⟨-, -, hright⟩ := h [.update (column 2 (by decide)) [], .request ⟨1, 2, 9, false, true⟩]
    (.serve 0) List.prefix_rfl
  obtain ⟨img, himg, hjpeg⟩ := hright 0 _ ⟨⟨1, 2, 9, false, true⟩, 1, 2⟩ rfl
    (runs_screenshotOf (by decide)) rfl
  cases himg
  have hwrong : (List.range 8).map (BitVec.ofNat 8) ≠
      ([0, 1, 2, 3, 8, 9, 10, 11] : List ℕ).map (BitVec.ofNat 8) := by decide
  exact hwrong hjpeg

/-- Without padding the column is returned. -/
theorem fresh_column : Fresh plain blank (screenshotOf (column 1 (by decide))) := by
  refine fresh_of_guarded WithZero.coe_injective ?_
  rintro before e ⟨after, heq⟩
  match before with
  | [] =>
    cases heq
    intro s hs
    cases hs
    exact ⟨by decide, raw_eq_of_stride (.inl rfl), WithZero.coe_ne_zero⟩
  | [_] =>
    cases heq
    exact fun s _ => trivial
  | [_, _] =>
    cases heq
    rintro s hs p hp
    obtain rfl := Option.some.inj ((runs_screenshotOf (by decide)).symm.trans hs)
    cases hp
    exact ⟨by decide, by decide⟩
  | _ :: _ :: _ :: tail =>
    have hlen := congrArg List.length heq
    simp only [screenshotOf, List.length_append, List.length_cons, List.length_nil] at hlen
    omega

end KasmVNC.Network.Screenshot
