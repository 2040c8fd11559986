import KasmVNC.Lib.RollingSum
import KasmVNC.Lib.Strides
import KasmVNC.Lib.Wire
import Mathlib.Data.ZMod.Basic

/-!
# The rolling hash

`scrollHasher_bothDir_t` hashes every 64 pixels of a line. The hash of the first ones is made byte
by byte; the others are made from the hash before them, of which the first bytes are taken away.
A new block is looked up by the hash that zlib gives for it.
-/

namespace KasmVNC.Rfb

open KasmVNC.Lib

/-! ## The code -/

structure Adler32 where
  sum1 : BitVec 32
  sum2 : BitVec 32
  len : BitVec 32
  hash : BitVec 32

namespace Adler32

abbrev Base : BitVec 32 := 65521

/-- `Adler32(int window)` -/
def ofWindow (window : BitVec 32) : Adler32 := ⟨1, 0, window, 0⟩

def eat (r : Adler32) (inchar : Byte) : Adler32 :=
  let sum1 := (r.sum1 + inchar.setWidth 32) % Base
  let sum2 := (r.sum2 + sum1) % Base
  { r with sum1, sum2, hash := sum2 <<< 16 ||| sum1 }

def reset (r : Adler32) : Adler32 := { r with sum1 := 1, sum2 := 0, hash := 0 }

/-- The sums are in the hash, and they are signed here. -/
def update (r : Adler32) (outchar inchar : Byte) : Adler32 :=
  let sum2 := r.hash >>> 16 &&& 0xffff
  let sum1 := r.hash &&& 0xffff
  let sum1 := sum1 + (inchar.setWidth 32 - outchar.setWidth 32)
  let sum1 := if Base.sle sum1 then sum1 - Base else if sum1.slt 0 then sum1 + Base else sum1
  let sum2 := (sum2 - r.len * outchar.setWidth 32 + sum1 - 1).srem Base
  let sum2 := if sum2.slt 0 then sum2 + Base else sum2
  { r with hash := sum2 <<< 16 ||| sum1 }

/-! ## Sums modulo a prime -/

/-- The bytes as numbers. -/
abbrev residues (bytes : List Byte) : List (ZMod 65521) := bytes.map fun b => (b.toNat : ZMod 65521)

/-- The hash with these sums in it. -/
def packed (b a : ℕ) : BitVec 32 := BitVec.ofNat 32 (b * 65536 + a)

/-- The hash holds the sums of these bytes. -/
def Hashes (hash : BitVec 32) (bytes : List Byte) : Prop :=
  ∃ a b : ℕ, a < 65521 ∧ b < 65521 ∧ hash = packed b a ∧
    ((a : ZMod 65521), (b : ZMod 65521)) = sums (residues bytes)

theorem eq_of_cast_eq {a a' : ℕ} (ha : a < 65521) (ha' : a' < 65521)
    (h : (a : ZMod 65521) = a') : a = a' := by
  rw [ZMod.natCast_eq_natCast_iff', Nat.mod_eq_of_lt ha, Nat.mod_eq_of_lt ha'] at h
  exact h

/-- It is determined by them. -/
theorem Hashes.unique {hash hash' : BitVec 32} {bytes : List Byte} (h : Hashes hash bytes)
    (h' : Hashes hash' bytes) : hash = hash' := by
  obtain ⟨a, b, ha, hb, rfl, hsums⟩ := h
  obtain ⟨a', b', ha', hb', rfl, hsums'⟩ := h'
  obtain ⟨h1, h2⟩ := Prod.mk.inj (hsums.trans hsums'.symm)
  rw [eq_of_cast_eq ha ha' h1, eq_of_cast_eq hb hb' h2]

theorem toNat_packed {a b : ℕ} (ha : a < 65536) (hb : b < 65536) :
    (packed b a).toNat = b * 65536 + a := by
  rw [packed, BitVec.toNat_ofNat]
  omega

theorem pack {a b : ℕ} (ha : a < 65536) (hb : b < 65536) :
    BitVec.ofNat 32 b <<< 16 ||| BitVec.ofNat 32 a = packed b a := by
  have hshift : (b <<< 16) % 2 ^ 32 = b <<< 16 := by
    rw [Nat.shiftLeft_eq]
    omega
  refine BitVec.eq_of_toNat_eq ?_
  rw [toNat_packed ha hb, BitVec.toNat_or, BitVec.toNat_shiftLeft, BitVec.toNat_ofNat,
    BitVec.toNat_ofNat, Nat.mod_eq_of_lt (a := a) (by omega), Nat.mod_eq_of_lt (a := b) (by omega),
    hshift, ← Nat.shiftLeft_add_eq_or_of_lt (by simpa using ha), Nat.shiftLeft_eq]

theorem packed_low {a b : ℕ} (ha : a < 65536) (hb : b < 65536) :
    packed b a &&& 0xffff = BitVec.ofNat 32 a := by
  have hmask : (b * 65536 + a) &&& 0xffff = (b * 65536 + a) % 2 ^ 16 :=
    Nat.and_two_pow_sub_one_eq_mod _ 16
  refine BitVec.eq_of_toNat_eq ?_
  rw [BitVec.toNat_and, toNat_packed ha hb]
  refine hmask.trans ?_
  rw [BitVec.toNat_ofNat]
  omega

theorem packed_high {a b : ℕ} (ha : a < 65536) (hb : b < 65536) :
    packed b a >>> 16 &&& 0xffff = BitVec.ofNat 32 b := by
  have hmask : ((b * 65536 + a) >>> 16) &&& 0xffff = ((b * 65536 + a) >>> 16) % 2 ^ 16 :=
    Nat.and_two_pow_sub_one_eq_mod _ 16
  refine BitVec.eq_of_toNat_eq ?_
  rw [BitVec.toNat_and, BitVec.toNat_ushiftRight, toNat_packed ha hb]
  refine hmask.trans ?_
  rw [Nat.shiftRight_eq_div_pow, BitVec.toNat_ofNat]
  omega

/-! ## One byte more -/

/-- What has been eaten: the sums, and the hash of them if there was anything. -/
structure Eaten (r : Adler32) (bytes : List Byte) : Prop where
  lt : r.sum1.toNat < 65521 ∧ r.sum2.toNat < 65521
  sums : ((r.sum1.toNat : ZMod 65521), (r.sum2.toNat : ZMod 65521)) = sums (residues bytes)
  hash : bytes ≠ [] → Hashes r.hash bytes

theorem eaten_reset (r : Adler32) : Eaten r.reset [] := by
  have hone : (1 : BitVec 32).toNat < 65521 := by decide
  have hzero : (0 : BitVec 32).toNat < 65521 := by decide
  exact ⟨⟨hone, hzero⟩, by simp [reset, Lib.sums], fun h => absurd rfl h⟩

theorem residues_concat (bytes : List Byte) (c : Byte) :
    residues (bytes ++ [c]) = residues bytes ++ [(c.toNat : ZMod 65521)] := by
  rw [residues, List.map_append, List.map_singleton]

theorem toNat_add_mod {u v : BitVec 32} (hu : u.toNat < 65521) (hv : v.toNat < 65521) :
    ((u + v) % Base).toNat = (u.toNat + v.toNat) % 65521 := by
  rw [BitVec.toNat_umod, BitVec.toNat_add, Nat.mod_eq_of_lt (b := 2 ^ 32) (by omega)]
  rfl

theorem toNat_char (c : Byte) : (c.setWidth 32).toNat = c.toNat := by
  have hc := c.isLt
  rw [BitVec.toNat_setWidth]
  omega

theorem Eaten.eat {r : Adler32} {bytes : List Byte} (h : Eaten r bytes) (c : Byte) :
    Eaten (r.eat c) (bytes ++ [c]) := by
  obtain ⟨⟨h1, h2⟩, hsums, -⟩ := h
  have hc := c.isLt
  have hsum1 : (r.eat c).sum1.toNat = (r.sum1.toNat + c.toNat) % 65521 := by
    rw [← toNat_char c]
    exact toNat_add_mod h1 (by rw [toNat_char]; omega)
  have hlt1 : (r.eat c).sum1.toNat < 65521 := hsum1 ▸ Nat.mod_lt _ (by decide)
  have hsum2 : (r.eat c).sum2.toNat = (r.sum2.toNat + (r.eat c).sum1.toNat) % 65521 :=
    toNat_add_mod h2 hlt1
  have hlt2 : (r.eat c).sum2.toNat < 65521 := hsum2 ▸ Nat.mod_lt _ (by decide)
  have hnext : (((r.eat c).sum1.toNat : ZMod 65521), ((r.eat c).sum2.toNat : ZMod 65521)) =
      Lib.sums (residues (bytes ++ [c])) := by
    rw [residues_concat, sums_concat, ← hsums, hsum2, hsum1]
    simp only [addValue, ZMod.natCast_mod, Nat.cast_add]
  refine ⟨⟨hlt1, hlt2⟩, hnext, fun _ => ⟨_, _, hlt1, hlt2, ?_, hnext⟩⟩
  rw [← pack (by omega) (by omega), BitVec.ofNat_toNat, BitVec.ofNat_toNat, BitVec.setWidth_eq,
    BitVec.setWidth_eq]
  rfl

theorem Eaten.foldl {r : Adler32} {bytes : List Byte} (h : Eaten r bytes) (more : List Byte) :
    Eaten (more.foldl Adler32.eat r) (bytes ++ more) := by
  induction more generalizing r bytes with
  | nil => rwa [List.append_nil]
  | cons c more ih =>
    have hmore := ih (h.eat c)
    rwa [List.append_assoc] at hmore

/-! ## One byte less -/

theorem toInt_ofInt {i : ℤ} (hlow : -2 ^ 31 ≤ i) (hhigh : i < 2 ^ 31) :
    (BitVec.ofInt 32 i).toInt = i :=
  BitVec.toInt_ofInt_eq_self (by decide) hlow hhigh

theorem ofInt_natCast (n : ℕ) : BitVec.ofInt 32 (n : ℤ) = BitVec.ofNat 32 n :=
  BitVec.ofInt_natCast 32 n

theorem ofInt_sub (i j : ℤ) :
    BitVec.ofInt 32 (i - j) = BitVec.ofInt 32 i - BitVec.ofInt 32 j := by
  rw [Int.sub_eq_add_neg, BitVec.ofInt_add, BitVec.ofInt_neg, BitVec.sub_eq_add_neg]

/-- The remainder of C has the sign of the number; with the base added it is the residue. -/
theorem srem_base {i : ℤ} (hlow : -2 ^ 31 ≤ i) (hhigh : i < 2 ^ 31) :
    (if ((BitVec.ofInt 32 i).srem Base).slt 0 then (BitVec.ofInt 32 i).srem Base + Base
      else (BitVec.ofInt 32 i).srem Base) = BitVec.ofInt 32 (i % 65521) := by
  have hbase : Base.toInt = 65521 := by decide
  have hsrem : ((BitVec.ofInt 32 i).srem Base).toInt = i.tmod 65521 := by
    rw [BitVec.toInt_srem, toInt_ofInt hlow hhigh, hbase]
  have htmod : i.tmod 65521 = i % 65521 ∨ i.tmod 65521 < 0 ∧ i.tmod 65521 + 65521 = i % 65521 := by
    have hrel := Int.tmod_eq_emod (a := i) (b := 65521)
    have hpos : 0 ≤ i % 65521 := Int.emod_nonneg i (by decide)
    have hlt : i % 65521 < 65521 := Int.emod_lt_of_pos i (by decide)
    split at hrel
    · exact .inl (by omega)
    · refine .inr ⟨?_, ?_⟩ <;> omega
  have hword : (BitVec.ofInt 32 i).srem Base = BitVec.ofInt 32 (i.tmod 65521) := by
    rw [← hsrem, BitVec.ofInt_toInt]
  rw [BitVec.slt_eq_decide, hsrem]
  rcases htmod with h | ⟨hneg, h⟩
  · have hpos : ¬i.tmod 65521 < (0 : BitVec 32).toInt := by
      have hnonneg : 0 ≤ i % 65521 := Int.emod_nonneg i (by decide)
      rw [h]
      exact not_lt.mpr hnonneg
    rw [if_neg (by simpa using hpos), hword, h]
  · rw [if_pos (by simpa using hneg), hword, ← h, BitVec.ofInt_add]
    rfl

theorem setWidth_char (c : Byte) : c.setWidth 32 = BitVec.ofInt 32 (c.toNat : ℤ) := by
  rw [ofInt_natCast, BitVec.ofNat_toNat]

/-- The first sum leaves its range by less than the base. -/
theorem wrap_first {a : ℕ} (ha : a < 65521) (o i : Byte) :
    let s := BitVec.ofNat 32 a + (i.setWidth 32 - o.setWidth 32)
    (if Base.sle s then s - Base else if s.slt 0 then s + Base else s) =
      BitVec.ofInt 32 ((a + i.toNat - o.toNat : ℤ) % 65521) := by
  have ho := o.isLt
  have hi := i.isLt
  have hs : BitVec.ofNat 32 a + (i.setWidth 32 - o.setWidth 32) =
      BitVec.ofInt 32 (a + i.toNat - o.toNat) := by
    rw [setWidth_char, setWidth_char, ← ofInt_natCast, ← ofInt_sub, ← BitVec.ofInt_add,
      ← Int.add_sub_assoc]
  have hbase : Base = BitVec.ofInt 32 65521 := by decide
  have hbaseInt : Base.toInt = 65521 := by decide
  have hzero : (0 : BitVec 32).toInt = 0 := by decide
  dsimp only
  rw [hs, BitVec.sle_eq_decide, BitVec.slt_eq_decide, toInt_ofInt (by omega) (by omega), hbaseInt,
    hzero, hbase]
  simp only [decide_eq_true_eq]
  split_ifs with hhigh hlow
  · rw [← ofInt_sub]
    congr 1
    omega
  · rw [← BitVec.ofInt_add]
    congr 1
    omega
  · congr 1
    omega

theorem cast_residue (i : ℤ) : (((i % 65521).toNat : ℕ) : ZMod 65521) = (i : ZMod 65521) := by
  rw [← Int.cast_natCast, Int.toNat_of_nonneg (Int.emod_nonneg i (by decide))]
  exact ZMod.intCast_mod i 65521

/-- **One step.** -/
theorem update_hashes {r : Adler32} {o : Byte} {bytes : List Byte}
    (hlen : r.len = BitVec.ofNat 32 (bytes.length + 1)) (hshort : bytes.length < 2 ^ 20)
    (h : Hashes r.hash (o :: bytes)) (i : Byte) : Hashes (r.update o i).hash (bytes ++ [i]) := by
  obtain ⟨a, b, ha, hb, hhash, hsums⟩ := h
  have ho := o.isLt
  -- the residues of the new sums
  let x : ℤ := (a + i.toNat - o.toNat : ℤ) % 65521
  let y : ℤ := (b - (bytes.length + 1 : ℕ) * o.toNat + x - 1 : ℤ) % 65521
  have hx : 0 ≤ x ∧ x < 65521 := ⟨Int.emod_nonneg _ (by decide), Int.emod_lt_of_pos _ (by decide)⟩
  have hy : 0 ≤ y ∧ y < 65521 := ⟨Int.emod_nonneg _ (by decide), Int.emod_lt_of_pos _ (by decide)⟩
  have hproduct : ((bytes.length + 1 : ℕ) : ℤ) * o.toNat ≤ 2 ^ 20 * 255 := by
    have hle : (bytes.length + 1) * o.toNat ≤ 2 ^ 20 * 255 :=
      Nat.mul_le_mul (by omega) (by omega)
    exact_mod_cast hle
  have hproduct' : 0 ≤ ((bytes.length + 1 : ℕ) : ℤ) * o.toNat :=
    Int.mul_nonneg (Int.natCast_nonneg _) (Int.natCast_nonneg _)
  have hsecond : BitVec.ofNat 32 b - r.len * o.setWidth 32 + BitVec.ofInt 32 x - 1 =
      BitVec.ofInt 32 (b - (bytes.length + 1 : ℕ) * o.toNat + x - 1) := by
    rw [hlen, setWidth_char, ← ofInt_natCast, ← ofInt_natCast, ← BitVec.ofInt_mul,
      ← ofInt_sub, ← BitVec.ofInt_add]
    exact (ofInt_sub _ 1).symm
  have hupdate : (r.update o i).hash = BitVec.ofInt 32 y <<< 16 ||| BitVec.ofInt 32 x := by
    rw [update, hhash, packed_low (by omega) (by omega), packed_high (by omega) (by omega)]
    dsimp only
    rw [wrap_first ha, hsecond, srem_base (by omega) (by omega)]
  -- both are the sums of the bytes that are left
  obtain ⟨hfirst, hlast⟩ := sums_slide (o.toNat : ZMod 65521) (i.toNat : ZMod 65521)
    (residues bytes)
  rw [← List.map_cons (f := fun b : Byte => (b.toNat : ZMod 65521)), ← hsums] at hfirst hlast
  have hxcast : ((x.toNat : ℕ) : ZMod 65521) = (sums (residues (bytes ++ [i]))).1 := by
    rw [residues_concat, hfirst, cast_residue]
    push_cast
    ring
  have hycast : ((y.toNat : ℕ) : ZMod 65521) = (sums (residues (bytes ++ [i]))).2 := by
    have hxint : ((x.toNat : ℕ) : ZMod 65521) = ((x : ℤ) : ZMod 65521) := by
      rw [← Int.cast_natCast, Int.toNat_of_nonneg hx.1]
    rw [residues_concat, hlast, ← residues_concat, ← hxcast, hxint, cast_residue, List.length_map]
    push_cast
    ring
  refine ⟨x.toNat, y.toNat, by omega, by omega, ?_, Prod.ext hxcast hycast⟩
  rw [hupdate, ← pack (by omega) (by omega), ← ofInt_natCast, ← ofInt_natCast,
    Int.toNat_of_nonneg hx.1, Int.toNat_of_nonneg hy.1]

/-! ## Windows -/

/-- `n` bytes from `k` on. -/
def window (data : ℕ → Byte) (k n : ℕ) : List Byte := (List.range' k n).map data

section Window

variable {data : ℕ → Byte} {k n : ℕ} {r : Adler32}

theorem window_succ : window data k (n + 1) = data k :: window data (k + 1) n := by
  rw [window, List.range'_succ, List.map_cons]
  rfl

theorem window_concat : window data k n ++ [data (k + n)] = window data k (n + 1) := by
  rw [window, window, List.range'_concat, List.map_append, Nat.one_mul]
  rfl

theorem len_foldl_eat (bytes : List Byte) (r : Adler32) : (bytes.foldl eat r).len = r.len := by
  induction bytes generalizing r with
  | nil => rfl
  | cons c bytes ih => exact ih (r.eat c)

/-- Hashing from scratch. -/
theorem hashes_eat (hn : 0 < n) :
    Hashes ((window data k n).foldl eat r.reset).hash (window data k n) := by
  have hne : window data k n ≠ [] := by
    obtain ⟨m, rfl⟩ : ∃ m, n = m + 1 := ⟨n - 1, by omega⟩
    rw [window_succ]
    exact List.cons_ne_nil _ _
  exact ((eaten_reset r).foldl (window data k n)).hash hne

theorem length_window : (window data k n).length = n := by
  rw [window, List.length_map, List.length_range']

theorem update_window (hn : 0 < n) (hshort : n ≤ 2 ^ 20) (hlen : r.len = BitVec.ofNat 32 n)
    (h : Hashes r.hash (window data k n)) :
    Hashes (r.update (data k) (data (k + n))).hash (window data (k + 1) n) := by
  cases n with
  | zero => exact absurd hn (lt_irrefl 0)
  | succ m =>
    have hfew : (window data (k + 1) m).length < 2 ^ 20 := by
      rw [length_window]
      exact hshort
    have hcount : r.len = BitVec.ofNat 32 ((window data (k + 1) m).length + 1) := by
      rw [length_window]
      exact hlen
    have hplace : k + (m + 1) = k + 1 + m := by omega
    rw [window_succ] at h
    rw [hplace, ← window_concat]
    exact update_hashes hcount hfew h _

end Window

/-- The hasher of a window that has been moved byte by byte from the start of the data. -/
def slide (n : ℕ) (data : ℕ → Byte) : ℕ → Adler32
  | 0 => (window data 0 n).foldl eat (ofWindow (BitVec.ofNat 32 n))
  | k + 1 => (slide n data k).update (data k) (data (k + n))

theorem len_slide (n : ℕ) (data : ℕ → Byte) : ∀ k, (slide n data k).len = BitVec.ofNat 32 n
  | 0 => len_foldl_eat _ _
  | k + 1 => len_slide n data k

theorem hashes_slide {n : ℕ} (hn : 0 < n) (hshort : n ≤ 2 ^ 20) (data : ℕ → Byte) :
    ∀ k, Hashes (slide n data k).hash (window data k n)
  | 0 => hashes_eat (r := ofWindow (BitVec.ofNat 32 n)) hn
  | k + 1 => update_window hn hshort (len_slide n data k) (hashes_slide hn hshort data k)

/-! ## The loops of `calcHashes` -/

/-- The first bytes of a line, pixel by pixel. -/
def firstBytes (d : ℕ) (inptr0 : ℕ → Byte) : List Byte :=
  (List.range 64).flatMap fun g => (List.range d).map fun di => inptr0 (g * d + di)

/-- The hasher behind the position `x` of a line. -/
def rowHasher (d : ℕ) (rolling : Adler32) (line : ℕ → Byte) : ℕ → Adler32
  | 0 => (firstBytes d line).foldl eat rolling.reset
  | x + 1 => (List.range d).foldl
      (fun rolling di => rolling.update (line (x * d + di)) (line ((x + 1) * d + (63 * d + di))))
      (rowHasher d rolling line x)

/-- The hasher in front of a line. -/
def lineHasher (w d : ℕ) (olddata : ℕ → Byte) : ℕ → Adler32
  | 0 => ofWindow (BitVec.ofNat 32 (64 * d))
  | y + 1 => rowHasher d (lineHasher w d olddata y) (fun i => olddata (y * (w * d) + i)) (w - 64)

/-- What is put into the table. -/
def tableHash (w d : ℕ) (olddata : ℕ → Byte) (y x : ℕ) : BitVec 32 :=
  (rowHasher d (lineHasher w d olddata y) (fun i => olddata (y * (w * d) + i)) x).hash

section Rows

variable {d : ℕ} {rolling : Adler32} {line : ℕ → Byte}

theorem firstBytes_eq : firstBytes d line = window line 0 (64 * d) := by
  rw [window, ← List.range_eq_range']
  exact flatMap_range line d 64

theorem len_rowHasher : ∀ x, (rowHasher d rolling line x).len = rolling.len
  | 0 => len_foldl_eat _ _
  | x + 1 => by
    have hkeep : ∀ (dis : List ℕ) (r : Adler32), (dis.foldl (fun rolling di =>
        rolling.update (line (x * d + di)) (line ((x + 1) * d + (63 * d + di)))) r).len =
          r.len := by
      intro dis
      induction dis with
      | nil => exact fun r => rfl
      | cons di dis ih => exact fun r => ih _
    exact (hkeep _ _).trans (len_rowHasher x)

/-- The bytes of a pixel, one after the other. -/
theorem hashes_pixel {x : ℕ} {r : Adler32} (hd : 0 < d) (hshort : 64 * d ≤ 2 ^ 20)
    (hlen : r.len = BitVec.ofNat 32 (64 * d)) (h : Hashes r.hash (window line (x * d) (64 * d))) :
    ∀ j, Hashes ((List.range j).foldl (fun rolling di =>
      rolling.update (line (x * d + di)) (line ((x + 1) * d + (63 * d + di)))) r).hash
        (window line (x * d + j) (64 * d)) ∧
      ((List.range j).foldl (fun rolling di =>
        rolling.update (line (x * d + di)) (line ((x + 1) * d + (63 * d + di)))) r).len = r.len
  | 0 => ⟨h, rfl⟩
  | j + 1 => by
    obtain ⟨hhash, hsame⟩ := hashes_pixel hd hshort hlen h j
    have hplace : (x + 1) * d + (63 * d + j) = x * d + j + 64 * d := by
      rw [Nat.succ_mul]
      omega
    rw [List.range_succ, List.foldl_append, List.foldl_cons, List.foldl_nil, hplace]
    exact ⟨update_window (by omega) hshort (hsame.trans hlen) hhash, hsame⟩

theorem hashes_row (hd : 0 < d) (hshort : 64 * d ≤ 2 ^ 20)
    (hlen : rolling.len = BitVec.ofNat 32 (64 * d)) :
    ∀ x, Hashes (rowHasher d rolling line x).hash (window line (x * d) (64 * d))
  | 0 => by
    rw [rowHasher, firstBytes_eq, Nat.zero_mul]
    exact hashes_eat (by omega)
  | x + 1 => by
    have hpixel := (hashes_pixel hd hshort ((len_rowHasher x).trans hlen)
      (hashes_row hd hshort hlen x) d).1
    rwa [← Nat.succ_mul] at hpixel

end Rows

theorem len_lineHasher (w d : ℕ) (olddata : ℕ → Byte) :
    ∀ y, (lineHasher w d olddata y).len = BitVec.ofNat 32 (64 * d)
  | 0 => rfl
  | y + 1 => (len_rowHasher _).trans (len_lineHasher w d olddata y)

theorem window_shift (data : ℕ → Byte) (a k n : ℕ) :
    window (fun i => data (a + i)) k n = window data (a + k) n := by
  rw [window, window, ← List.map_add_range', List.map_map]
  rfl

/-! ## The hash of zlib -/

/-- The sum of the bytes and the sum of the sums, modulo the base. -/
def checksum (bytes : List Byte) : BitVec 32 :=
  let s := sums (bytes.map BitVec.toNat)
  packed (s.2 % 65521) (s.1 % 65521)

theorem hashes_checksum (bytes : List Byte) : Hashes (checksum bytes) bytes := by
  have hcast := sums_map (Nat.castRingHom (ZMod 65521)) (bytes.map BitVec.toNat)
  rw [List.map_map] at hcast
  refine ⟨_, _, Nat.mod_lt _ (by decide), Nat.mod_lt _ (by decide), rfl, ?_⟩
  rw [ZMod.natCast_mod, ZMod.natCast_mod]
  exact hcast.symm

/-- What the documentation of zlib says: without a buffer the initial value is returned, and from
there on the checksum is made. -/
structure Documented (adler32 : BitVec 32 → Option (List Byte) → BitVec 32) : Prop where
  initial : ∀ adler, adler32 adler none = 1
  checksum : ∀ bytes, adler32 1 (some bytes) = checksum bytes

/-- **The rolling hash is the hash of the window**, the one made from scratch and the one of zlib;
so the table has at every position the hash that a block with these pixels is looked up by. -/
theorem rolling_hash {adler32 : BitVec 32 → Option (List Byte) → BitVec 32}
    (hzlib : Documented adler32) {d : ℕ} (hd : d = 1 ∨ d = 2 ∨ d = 4) (data : ℕ → Byte) :
    (∀ k, (slide (64 * d) data k).hash =
        ((window data k (64 * d)).foldl eat (ofWindow (BitVec.ofNat 32 (64 * d)))).hash ∧
      (slide (64 * d) data k).hash = adler32 (adler32 0 none) (some (window data k (64 * d)))) ∧
    ∀ w y x, tableHash w d data y x =
      adler32 (adler32 0 none) (some (window data (y * (w * d) + x * d) (64 * d))) := by
  have hpos : 0 < d := by omega
  have hshort : 64 * d ≤ 2 ^ 20 := by omega
  have hlookup : ∀ bytes, adler32 (adler32 0 none) (some bytes) = checksum bytes := by
    intro bytes
    rw [hzlib.initial, hzlib.checksum]
  refine ⟨fun k => ?_, fun w y x => ?_⟩
  · have hslide := hashes_slide (by omega) hshort data k
    refine ⟨hslide.unique (hashes_eat (r := ofWindow _) (by omega)), ?_⟩
    rw [hlookup]
    exact hslide.unique (hashes_checksum _)
  · have hrow := @hashes_row d _ (fun i => data (y * (w * d) + i)) hpos hshort
      (len_lineHasher w d data y) x
    rw [window_shift] at hrow
    rw [hlookup]
    exact hrow.unique (hashes_checksum _)

/-- `adler32` goes on from the sums it is given. -/
def zlibAdler32 (adler : BitVec 32) : Option (List Byte) → BitVec 32
  | none => 1
  | some bytes =>
    let s := (bytes.map BitVec.toNat).foldl addValue (adler.toNat % 65536, adler.toNat / 65536)
    packed (s.2 % 65521) (s.1 % 65521)

/-- Pixels of four bytes, all of them 7. -/
theorem rolling_hash_sevens :
    (slide (64 * 4) (fun _ => 7) 1).hash =
      zlibAdler32 (zlibAdler32 0 none) (some (window (fun _ => 7) 1 (64 * 4))) :=
  ((rolling_hash ⟨fun _ => rfl, fun _ => rfl⟩ (.inr (.inr rfl)) fun _ => 7).1 1).2

end Adler32

end KasmVNC.Rfb
