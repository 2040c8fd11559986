import KasmVNC.Lib.Raster
import Mathlib.Algebra.Order.Ring.Int
import Mathlib.Data.List.Induction
import Mathlib.Tactic.Linarith

/-!
# Areas in memory

A memory is a function on addresses. An area of it is filled by two nested loops whose
pointers go on along a row, and are moved by a padding at the end of it. Whatever the stride is,
the memory outside of the area is left alone, and a pixel that no later row overwrites has the
value the loops had for it.
-/

namespace KasmVNC.Lib

universe u

variable {β : Type u}

abbrev Memory (β : Type u) := ℤ → β

namespace Memory

/-- The `n` values from an address on. -/
def load (m : Memory β) (a : ℤ) (n : ℕ) : List β := (List.range n).map fun i : ℕ => m (a + i)

def store (m : Memory β) (a : ℤ) (values : List β) : Memory β := fun b =>
  if a ≤ b then values.getD (b - a).toNat (m b) else m b

@[simp] theorem length_load (m : Memory β) (a : ℤ) (n : ℕ) : (m.load a n).length = n := by
  rw [load, List.length_map, List.length_range]

theorem store_outside {m : Memory β} {a b : ℤ} {values : List β}
    (h : b < a ∨ a + values.length ≤ b) : m.store a values b = m b := by
  unfold store
  split
  · next hle =>
      rw [List.getD_eq_default]
      omega
  · rfl

theorem store_inside {m : Memory β} {a b : ℤ} {values : List β} {v : β} (hle : a ≤ b)
    (hv : values[(b - a).toNat]? = some v) : m.store a values b = v := by
  rw [store, if_pos hle, List.getD_eq_getElem?_getD, hv]
  rfl

theorem store_singleton (m : Memory β) (a b : ℤ) (v : β) :
    m.store a [v] b = if b = a then v else m b := by
  split
  · next h =>
      subst b
      exact store_inside le_rfl (by rw [Int.sub_self]; rfl)
  · next h =>
      refine store_outside ?_
      rw [List.length_singleton]
      omega

/-- Two areas next to each other. -/
theorem load_add (m : Memory β) (a : ℤ) (n k : ℕ) :
    m.load a (n + k) = m.load a n ++ m.load (a + n) k := by
  simp only [load, List.range_add, List.map_append, List.map_map]
  refine congrArg _ (List.map_congr_left fun i _ => ?_)
  simp only [Function.comp_apply]
  push_cast
  rw [add_assoc]

theorem load_congr {m m' : Memory β} {a a' : ℤ} {n : ℕ}
    (h : ∀ i : ℕ, i < n → m (a + i) = m' (a' + i)) : m.load a n = m'.load a' n :=
  List.map_congr_left fun i hi => h i (List.mem_range.mp hi)

/-- Values that are written can be read. -/
theorem load_store (m : Memory β) (a : ℤ) (values : List β) :
    (m.store a values).load a values.length = values := by
  refine List.ext_getElem (length_load _ _ _) fun i _ hi => ?_
  simp only [load, List.getElem_map, List.getElem_range]
  refine store_inside (by omega) ?_
  rw [add_sub_cancel_left, Int.toNat_natCast]
  exact List.getElem?_eq_getElem hi

/-- What is written elsewhere does not matter. -/
theorem load_store_of_le {m : Memory β} {a b : ℤ} {n : ℕ} (values : List β) (h : a + n ≤ b) :
    (m.store b values).load a n = m.load a n :=
  load_congr fun i hi => store_outside (.inl (by omega))

/-- A memory that differs from another in known values only. -/
theorem eq_store {m m' : Memory β} {a : ℤ} {values : List β}
    (hout : ∀ b, b < a ∨ a + values.length ≤ b → m' b = m b)
    (hin : ∀ i < values.length, values[i]? = some (m' (a + i))) : m' = m.store a values := by
  funext b
  by_cases hb : b < a ∨ a + values.length ≤ b
  · rw [hout b hb, store_outside hb]
  · rw [not_or, Int.not_lt, Int.not_le] at hb
    have hplace : a + ((b - a).toNat : ℤ) = b := by omega
    have hvalue := hin (b - a).toNat (by omega)
    rw [hplace] at hvalue
    exact (store_inside hb.1 hvalue).symm

/-- Values that are written next to each other. -/
theorem store_append (m : Memory β) (a : ℤ) (xs ys : List β) :
    (m.store a xs).store (a + xs.length) ys = m.store a (xs ++ ys) := by
  funext b
  by_cases hys : a + xs.length ≤ b
  · have hle : a ≤ b := by omega
    have hindex : (b - (a + xs.length)).toNat = (b - a).toNat - xs.length := by omega
    rw [store, if_pos hys, store_outside (.inr hys), store, if_pos hle, hindex,
      List.getD_append_right _ _ _ _ (by omega)]
  · rw [store_outside (.inl (Int.not_le.mp hys))]
    unfold store
    split
    · next hle => rw [List.getD_append _ _ _ _ (by omega)]
    · rfl

/-- Values that are written one at a time, each to a place of its own. -/
def storeEach (m : Memory β) (a : ℤ) (writes : List (ℕ × β)) : Memory β :=
  writes.foldl (fun m write => m.store (a + write.1) [write.2]) m

theorem storeEach_concat (m : Memory β) (a : ℤ) (writes : List (ℕ × β)) (write : ℕ × β) :
    m.storeEach a (writes ++ [write]) = (m.storeEach a writes).store (a + write.1) [write.2] := by
  rw [storeEach, List.foldl_append]
  rfl

theorem storeEach_outside {m : Memory β} {a b : ℤ} {writes : List (ℕ × β)}
    (h : ∀ write ∈ writes, b ≠ a + write.1) : m.storeEach a writes b = m b := by
  induction writes using List.reverseRecOn with
  | nil => rfl
  | append_singleton writes write ih =>
    rw [storeEach_concat, store_singleton, if_neg (h write (by simp))]
    exact ih fun write hwrite => h write (List.mem_append_left _ hwrite)

theorem storeEach_inside {m : Memory β} {a : ℤ} {i : ℕ} {v : β} {writes : List (ℕ × β)}
    (hv : ∀ write ∈ writes, write.1 = i → write.2 = v) (hi : ∃ write ∈ writes, write.1 = i) :
    m.storeEach a writes (a + i) = v := by
  induction writes using List.reverseRecOn with
  | nil =>
    obtain ⟨write, hwrite, -⟩ := hi
    cases hwrite
  | append_singleton writes last ih =>
    rw [storeEach_concat, store_singleton]
    split
    · next hplace =>
        exact hv last (by simp) (by omega)
    · next hplace =>
        obtain ⟨write, hwrite, hfst⟩ := hi
        rcases List.mem_append.mp hwrite with hwrite | hlast
        · exact ih (fun write hwrite => hv write (List.mem_append_left _ hwrite))
            ⟨write, hwrite, hfst⟩
        · rw [List.mem_singleton] at hlast
          subst hlast
          exact absurd (by rw [hfst]) hplace

/-- The order they are written in does not matter. -/
theorem storeEach_eq (m : Memory β) (a : ℤ) {writes : List (ℕ × β)} {values : List β}
    (hvalues : ∀ write ∈ writes, values[write.1]? = some write.2)
    (hall : ∀ i < values.length, ∃ write ∈ writes, write.1 = i) :
    m.storeEach a writes = m.store a values := by
  refine eq_store (fun b hb => storeEach_outside ?_) fun i hi => ?_
  · intro write hwrite hplace
    have hlt := (List.getElem?_eq_some_iff.mp (hvalues write hwrite)).1
    omega
  · rw [List.getElem?_eq_getElem hi]
    refine congrArg some (storeEach_inside ?_ (hall i hi)).symm
    intro write hwrite hfst
    have hvalue := hvalues write hwrite
    rw [hfst, List.getElem?_eq_getElem hi] at hvalue
    exact (Option.some.inj hvalue).symm

end Memory

open Memory

/-! ## The loops -/

/-- Two pointers, and the memory the first of them points into. -/
structure Pointers (β : Type u) where
  dst : ℤ
  src : ℤ
  mem : Memory β

/-- `while (w--) { body; dst += dstStep; src += srcStep; }` -/
def pixelLoop (body : ℤ → ℤ → Memory β → Memory β) (dstStep srcStep : ℤ) :
    ℕ → Pointers β → Pointers β
  | 0, c => c
  | w + 1, c =>
    pixelLoop body dstStep srcStep w ⟨c.dst + dstStep, c.src + srcStep, body c.dst c.src c.mem⟩

/-- `while (h--) { row; dst += dstPad; src += srcPad; }` -/
def rowLoop (row : Pointers β → Pointers β) (dstPad srcPad : ℤ) : ℕ → Pointers β → Pointers β
  | 0, c => c
  | h + 1, c =>
    let c := row c
    rowLoop row dstPad srcPad h ⟨c.dst + dstPad, c.src + srcPad, c.mem⟩

/-- A row of pixels is written at once. -/
theorem pixelLoop_eq {body : ℤ → ℤ → Memory β → Memory β} {val : ℤ → List β} {k : ℕ} {srcStep : ℤ}
    (hbody : ∀ d s m, body d s m = m.store d (val s)) (hlen : ∀ s, (val s).length = k) (w : ℕ)
    (c : Pointers β) : pixelLoop body k srcStep w c = ⟨c.dst + w * k, c.src + w * srcStep,
      c.mem.store c.dst ((List.range w).flatMap fun x : ℕ => val (c.src + x * srcStep))⟩ := by
  induction w generalizing c with
  | zero =>
    have hnil : c.mem.store c.dst [] = c.mem := by
      funext b
      unfold Memory.store
      split <;> rfl
    simp [pixelLoop, hnil]
  | succ w ih =>
    have hrest : ∀ x : ℕ, c.src + srcStep + x * srcStep = c.src + (x + 1 : ℕ) * srcStep := by
      intro x
      push_cast
      ring
    rw [pixelLoop, ih, hbody, List.range_succ_eq_map, List.flatMap_cons, List.flatMap_map,
      ← store_append]
    simp only [hrest, hlen, Nat.cast_zero, zero_mul, add_zero, Pointers.mk.injEq, and_true]
    push_cast
    ring

/-- What `h` rows write. -/
def rowStores (dst rowStep : ℤ) (bytes : ℕ → List β) (m : Memory β) (h : ℕ) : Memory β :=
  (List.range h).foldl (fun m (y : ℕ) => m.store (dst + y * rowStep) (bytes y)) m

theorem rowLoop_mem {row : Pointers β → Pointers β} {dstLen srcLen dstPad srcPad : ℤ}
    (bytes : ℤ → List β) (hrow : ∀ c : Pointers β, row c =
      ⟨c.dst + dstLen, c.src + srcLen, c.mem.store c.dst (bytes c.src)⟩) (h : ℕ) (c : Pointers β) :
    (rowLoop row dstPad srcPad h c).mem = rowStores c.dst (dstLen + dstPad)
      (fun y : ℕ => bytes (c.src + y * (srcLen + srcPad))) c.mem h := by
  induction h generalizing c with
  | zero => rfl
  | succ h ih =>
    have hnext : ∀ (a len pad : ℤ) (y : ℕ),
        a + len + pad + y * (len + pad) = a + (y + 1 : ℕ) * (len + pad) := by
      intro a len pad y
      push_cast
      ring
    rw [rowLoop, ih, hrow, rowStores, rowStores, List.range_succ_eq_map, List.foldl_cons,
      List.foldl_map]
    simp only [hnext, Nat.cast_zero, zero_mul, add_zero]

theorem rowStores_succ (dst rowStep : ℤ) (bytes : ℕ → List β) (m : Memory β) (h : ℕ) :
    rowStores dst rowStep bytes m (h + 1) =
      (rowStores dst rowStep bytes m h).store (dst + h * rowStep) (bytes h) := by
  rw [rowStores, List.range_succ, List.foldl_append]
  rfl

theorem rowStores_outside {dst rowStep a : ℤ} {bytes : ℕ → List β} {m : Memory β} {h : ℕ}
    (hout : ∀ y < h, a < dst + y * rowStep ∨ dst + y * rowStep + (bytes y).length ≤ a) :
    rowStores dst rowStep bytes m h a = m a := by
  induction h with
  | zero => rfl
  | succ h ih =>
    rw [rowStores_succ, store_outside (hout h (Nat.lt_succ_self h))]
    exact ih fun y hy => hout y (Nat.lt_succ_of_lt hy)

/-- The last row that covers an address is found there. -/
theorem rowStores_inside {dst rowStep : ℤ} {bytes : ℕ → List β} {m : Memory β} {h y i : ℕ} {v : β}
    (hy : y < h) (hv : (bytes y)[i]? = some v)
    (hlast : ∀ y' < h, y < y' → dst + y * rowStep + i < dst + y' * rowStep ∨
      dst + y' * rowStep + (bytes y').length ≤ dst + y * rowStep + i) :
    rowStores dst rowStep bytes m h (dst + y * rowStep + i) = v := by
  induction h with
  | zero => cases hy
  | succ h ih =>
    rw [rowStores_succ]
    rcases Nat.lt_succ_iff_lt_or_eq.mp hy with hlt | rfl
    · rw [store_outside (hlast h (Nat.lt_succ_self h) hlt)]
      exact ih hlt fun y' hy' => hlast y' (Nat.lt_succ_of_lt hy')
    · refine store_inside (by omega) ?_
      rw [add_sub_cancel_left, Int.toNat_natCast]
      exact hv

/-! ## What an area holds afterwards -/

/-- Where a pixel of `k` values is. -/
def pixelAt (dst : ℤ) (k : ℕ) (stride : ℤ) (x y : ℕ) : ℤ := dst + (y * stride + x) * k

/-- No later row has a pixel in the same place. -/
def Kept (w h : ℕ) (stride : ℤ) (x y : ℕ) : Prop :=
  ∀ x' < w, ∀ y' < h, y < y' → y' * stride + x' ≠ y * stride + x

/-- Among the pixels in one place there is a last one. -/
theorem exists_kept (dst : ℤ) (k : ℕ) {w h : ℕ} (stride : ℤ) {x y : ℕ} (hx : x < w) (hy : y < h) :
    ∃ x' < w, ∃ y' < h, pixelAt dst k stride x' y' = pixelAt dst k stride x y ∧
      Kept w h stride x' y' := by
  induction hn : h - y using Nat.strong_induction_on generalizing x y with
  | _ n ih =>
    subst hn
    by_cases hkept : Kept w h stride x y
    · exact ⟨x, hx, y, hy, rfl, hkept⟩
    · unfold Kept at hkept
      push Not at hkept
      obtain ⟨x', hx', y', hy', hlater, hsame⟩ := hkept
      obtain ⟨x'', hx'', y'', hy'', hplace, hlast⟩ := ih (h - y') (by omega) hx' hy' rfl
      refine ⟨x'', hx'', y'', hy'', hplace.trans ?_, hlast⟩
      rw [pixelAt, pixelAt, hsame]

/-- The area has been filled, and nothing else has been written. -/
structure Fills (mem mem' : Memory β) (dst : ℤ) (k w h : ℕ) (stride : ℤ)
    (val : ℕ → ℕ → List β) : Prop where
  outside : ∀ a, (∀ x < w, ∀ y < h, a < pixelAt dst k stride x y ∨
    pixelAt dst k stride x y + k ≤ a) → mem' a = mem a
  inside : ∀ x < w, ∀ y < h, Kept w h stride x y →
    mem'.load (pixelAt dst k stride x y) k = val x y

theorem length_row {k w : ℕ} {val : ℕ → List β} (hlen : ∀ x, (val x).length = k) :
    ((List.range w).flatMap val).length = w * k := by
  rw [length_flatMap_of_length fun x _ => hlen x, List.length_range]

theorem getElem?_row {k w x i : ℕ} {val : ℕ → List β} (hlen : ∀ x, (val x).length = k)
    (hx : x < w) (hi : i < k) :
    ((List.range w).flatMap val)[x * k + i]? = (val x)[i]? := by
  induction w with
  | zero => cases hx
  | succ w ih =>
    rw [List.range_succ, List.flatMap_append, List.flatMap_singleton]
    rcases Nat.lt_succ_iff_lt_or_eq.mp hx with hlt | rfl
    · have hle : (x + 1) * k ≤ w * k := Nat.mul_le_mul_right k hlt
      rw [Nat.succ_mul] at hle
      rw [List.getElem?_append_left (by rw [length_row hlen]; omega)]
      exact ih hlt
    · rw [List.getElem?_append_right (by rw [length_row hlen]; omega), length_row hlen,
        Nat.add_sub_cancel_left]

/-- **Filling an area**, row by row. -/
theorem fills_rows {row : Pointers β → Pointers β} {dstLen srcLen dstPad srcPad stride : ℤ}
    {k w : ℕ} (val : ℤ → ℕ → List β) (hlen : ∀ s x, (val s x).length = k)
    (hrow : ∀ c : Pointers β, row c =
      ⟨c.dst + dstLen, c.src + srcLen, c.mem.store c.dst ((List.range w).flatMap (val c.src))⟩)
    (hstep : dstLen + dstPad = stride * k) (h : ℕ) (c : Pointers β) :
    Fills c.mem (rowLoop row dstPad srcPad h c).mem c.dst k w h stride
      fun x y => val (c.src + y * (srcLen + srcPad)) x := by
  have hplace : ∀ x y : ℕ, pixelAt c.dst k stride x y = c.dst + y * (stride * k) + (x * k : ℕ) := by
    intro x y
    rw [pixelAt]
    push_cast
    ring
  rw [rowLoop_mem (fun s => (List.range w).flatMap (val s)) hrow, hstep]
  constructor
  · intro a hout
    refine rowStores_outside fun y hy => ?_
    rw [length_row (hlen _)]
    by_contra hin
    rw [not_or, Int.not_lt, Int.not_le] at hin
    -- the pixel of the row that has the address
    obtain ⟨i, hi⟩ : ∃ i : ℕ, a = c.dst + y * (stride * k) + i :=
      ⟨(a - (c.dst + y * (stride * k))).toNat, by omega⟩
    have hiw : i < w * k := by omega
    have hkpos : 0 < k := Nat.pos_of_ne_zero fun hzero => by
      rw [hzero, Nat.mul_zero] at hiw
      omega
    have hdiv := Nat.div_add_mod i k
    have hmod := Nat.mod_lt i hkpos
    rw [Nat.mul_comm] at hdiv
    have hpixel := hout (i / k) ((Nat.div_lt_iff_lt_mul hkpos).mpr hiw) y hy
    rw [hplace] at hpixel
    omega
  · intro x hx y hy hkept
    refine List.ext_getElem? fun i => ?_
    by_cases hi : i < k
    · have hlt : i < (val (c.src + y * (srcLen + srcPad)) x).length := by rwa [hlen]
      have hvalue := (getElem?_row (hlen (c.src + y * (srcLen + srcPad))) hx hi).trans
        (List.getElem?_eq_getElem hlt)
      rw [List.getElem?_eq_getElem hlt, Memory.load, List.getElem?_map, List.getElem?_range hi,
        Option.map_some, hplace, add_assoc, ← Nat.cast_add]
      refine congrArg some (rowStores_inside hy hvalue fun y' hy' hlater => ?_)
      rw [length_row (hlen _)]
      -- how far the pixel is from the start of the later row
      obtain ⟨m, hm⟩ : ∃ m : ℤ, m = y * stride + x - y' * stride := ⟨_, rfl⟩
      have hdist : (y : ℤ) * (stride * k) + (x * k + i : ℕ) = y' * (stride * k) + m * k + i := by
        rw [hm]
        push_cast
        ring
      have hapart : m < 0 ∨ (w : ℤ) ≤ m := by
        by_contra hin
        rw [not_or, Int.not_lt, Int.not_le] at hin
        exact hkept m.toNat (by omega) y' hy' hlater (by omega)
      rcases hapart with hbefore | hafter
      · have hle : m * k ≤ -1 * k := Int.mul_le_mul_of_nonneg_right (by omega) (by omega)
        left
        omega
      · have hle : (w : ℤ) * k ≤ m * k := Int.mul_le_mul_of_nonneg_right hafter (by omega)
        right
        push_cast
        push_cast at hdist
        omega
    · rw [List.getElem?_eq_none (by rw [length_load]; omega),
        List.getElem?_eq_none (by rw [hlen]; omega)]

/-- **Filling an area** pixel by pixel, from an area with a stride of its own. -/
theorem fills_pixels {body : ℤ → ℤ → Memory β → Memory β} (val : ℤ → List β) {k l w : ℕ}
    (hlen : ∀ s, (val s).length = k) (hbody : ∀ d s m, body d s m = m.store d (val s)) (h : ℕ)
    (dstStride srcStride : ℤ) (c : Pointers β) :
    Fills c.mem
      (rowLoop (pixelLoop body k l w) ((dstStride - w) * k) ((srcStride - w) * l) h c).mem
      c.dst k w h dstStride fun x y => val (pixelAt c.src l srcStride x y) := by
  have hstep : w * (k : ℤ) + (dstStride - w) * k = dstStride * k := by ring
  have hsrc : ∀ x y : ℕ, pixelAt c.src l srcStride x y =
      c.src + y * (w * l + (srcStride - w) * l) + x * l := by
    intro x y
    rw [pixelAt]
    ring
  simp only [hsrc]
  exact fills_rows (fun s x => val (s + x * l)) (fun _ _ => hlen _)
    (pixelLoop_eq hbody hlen w) hstep h c

theorem load_mul (m : Memory β) (a : ℤ) (k w : ℕ) :
    m.load a (w * k) = (List.range w).flatMap fun x : ℕ => m.load (a + x * k) k := by
  induction w with
  | zero => simp [Memory.load]
  | succ w ih =>
    rw [List.range_succ, List.flatMap_append, ← ih, List.flatMap_singleton, Nat.succ_mul,
      load_add, Nat.cast_mul]

/-- Filling an area by copying its rows. -/
theorem fills_copied (srcMem : Memory β) {k w : ℕ} (h : ℕ) (dstStride srcStride : ℤ)
    (c : Pointers β) :
    Fills c.mem
      (rowLoop (fun c => { c with mem := c.mem.store c.dst (srcMem.load c.src (w * k)) })
        (dstStride * k) (srcStride * k) h c).mem
      c.dst k w h dstStride fun x y => srcMem.load (pixelAt c.src k srcStride x y) k := by
  have hsrc : ∀ x y : ℕ, pixelAt c.src k srcStride x y =
      c.src + y * (0 + srcStride * k) + x * k := by
    intro x y
    rw [pixelAt]
    ring
  simp only [hsrc]
  refine fills_rows (fun s x => srcMem.load (s + x * k) k) (fun _ _ => length_load _ _ _)
    (fun c => ?_) (zero_add _) h c
  rw [add_zero, add_zero, load_mul]

end KasmVNC.Lib
