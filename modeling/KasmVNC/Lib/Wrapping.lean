import Mathlib.Data.Int.GCD
import Mathlib.Logic.Function.Iterate
import Mathlib.Data.Nat.Find
import Mathlib.Tactic.Ring

/-!
# Loops over wrapping counters

A loop whose counter is a machine integer may not end: the counter can wrap around before it has
come to the bound. The loop is run with fuel, and the fuel is never the reason why a loop has a
result: it has one for some fuel exactly when the counter comes to the bound.

The second part is about tiles. A counter goes through `h` numbers, skips some, and is `p` behind
the start of the tile at the start of the next. Modulo `M` it comes to a bound or not by the
greatest common divisor of `p` and `M`; and it either comes to the bound before it wraps around, or
it goes through numbers that are in no tile.
-/

namespace KasmVNC.Lib

universe u

section Loop

variable {σ β : Type u} (go : σ → Prop) [DecidablePred go] (next : σ → σ)

/-- A loop that collects what its body gives. -/
def loop (body : σ → Option (List β)) : ℕ → σ → Option (List β)
  | 0, _ => none
  | fuel + 1, s =>
    if go s then
      body s >>= fun part => loop body fuel (next s) >>= fun rest => some (part ++ rest)
    else some []

/-- The loop makes `k` turns. -/
def Turns (s : σ) (k : ℕ) : Prop := (∀ j < k, go (next^[j] s)) ∧ ¬go (next^[k] s)

variable {go next} {body : σ → Option (List β)}

omit [DecidablePred go] in
theorem turns_succ {s : σ} {k : ℕ} (hgo : go s) : Turns go next s (k + 1) ↔
    Turns go next (next s) k := by
  constructor
  · rintro ⟨hall, hend⟩
    exact ⟨fun j hj => hall (j + 1) (Nat.succ_lt_succ hj), hend⟩
  · rintro ⟨hall, hend⟩
    refine ⟨fun j hj => ?_, hend⟩
    cases j with
    | zero => exact hgo
    | succ j => exact hall j (Nat.lt_of_succ_lt_succ hj)

/-- What a loop gives is what its body gives at the turns that it makes. -/
theorem of_loop_eq_some : ∀ {fuel : ℕ} {s : σ} {l : List β}, loop go next body fuel s = some l →
    ∃ k, Turns go next s k ∧
      (∀ j < k, ∃ part, body (next^[j] s) = some part ∧ part ⊆ l) ∧
      ∀ c ∈ l, ∃ j < k, ∃ part, body (next^[j] s) = some part ∧ c ∈ part
  | 0, s, l, h => by cases h
  | fuel + 1, s, l, h => by
    rw [loop] at h
    split at h
    · rename_i hgo
      obtain ⟨part, hpart, h⟩ := Option.bind_eq_some_iff.mp h
      obtain ⟨rest, hrest, h⟩ := Option.bind_eq_some_iff.mp h
      obtain rfl := Option.some.inj h
      obtain ⟨k, hturns, hparts, hmem⟩ := of_loop_eq_some hrest
      refine ⟨k + 1, (turns_succ hgo).mpr hturns, ?_, ?_⟩
      · intro j hj
        cases j with
        | zero => exact ⟨part, hpart, List.subset_append_left part rest⟩
        | succ j =>
          obtain ⟨p, hp, hsub⟩ := hparts j (Nat.lt_of_succ_lt_succ hj)
          exact ⟨p, hp, fun c hc => List.mem_append_right part (hsub hc)⟩
      · intro c hc
        rcases List.mem_append.mp hc with hc | hc
        · exact ⟨0, Nat.succ_pos k, part, hpart, hc⟩
        · obtain ⟨j, hj, p, hp, hcp⟩ := hmem c hc
          exact ⟨j + 1, Nat.succ_lt_succ hj, p, hp, hcp⟩
    · rename_i hgo
      obtain rfl := Option.some.inj h
      exact ⟨0, ⟨nofun, hgo⟩, nofun, nofun⟩

theorem exists_loop_eq_some : ∀ {k fuel : ℕ} {s : σ}, Turns go next s k → k < fuel →
    (∀ j < k, ∃ part, body (next^[j] s) = some part) → ∃ l, loop go next body fuel s = some l
  | _, 0, _, _, hfuel, _ => absurd hfuel (Nat.not_lt_zero _)
  | 0, fuel + 1, s, hturns, _, _ => ⟨[], if_neg hturns.2⟩
  | k + 1, fuel + 1, s, hturns, hfuel, hbody => by
    have hgo : go s := hturns.1 0 (Nat.succ_pos k)
    obtain ⟨part, hpart⟩ := hbody 0 (Nat.succ_pos k)
    obtain ⟨rest, hrest⟩ := exists_loop_eq_some ((turns_succ hgo).mp hturns)
      (Nat.lt_of_succ_lt_succ hfuel) fun j hj => hbody (j + 1) (Nat.succ_lt_succ hj)
    refine ⟨part ++ rest, ?_⟩
    rw [loop, if_pos hgo, hrest]
    rw [show body s = some part from hpart]
    rfl

omit [DecidablePred go] in
/-- A loop whose condition fails at some time makes some number of turns. -/
theorem exists_turns {s : σ} (h : ∃ k, ¬go (next^[k] s)) : ∃ k, Turns go next s k := by
  classical
  exact ⟨Nat.find h, fun j hj => not_not.mp (Nat.find_min h hj), Nat.find_spec h⟩

end Loop

section Tiles

variable {M p h n : ℕ}

/-- Where the counter is at its `j`-th turn. -/
def tilePoint (M p h j : ℕ) : ℕ := (j / h * p + j % h) % M

/-- The turns that the loop makes, and those that are in doubt: no earlier one has come to the
bound. -/
def Visited (M p h n j : ℕ) : Prop := ∀ i ≤ j, tilePoint M p h i < n

/-- The start of the last tile that starts in front of the bound. -/
def lastTile (p n : ℕ) : ℕ := (n - 1) / p * p

/-- After the last tile the counter is not in front of the bound, even if it has wrapped around. -/
def Aligned (M p h n : ℕ) : Prop := lastTile p n + h ≤ n → n ≤ (lastTile p n + p) % M

instance : Decidable (Aligned M p h n) := inferInstanceAs (Decidable (_ → _))

theorem tilePoint_of_lt {q r : ℕ} (hr : r < h) : tilePoint M p h (q * h + r) = (q * p + r) % M := by
  have hh : 0 < h := Nat.zero_lt_of_lt hr
  rw [tilePoint, Nat.mul_comm q h, Nat.mul_add_div hh, Nat.div_eq_of_lt hr, Nat.mul_add_mod,
    Nat.mod_eq_of_lt hr, Nat.add_zero]

/-- From the start of a tile on the counter goes on as it did from the first. -/
theorem tilePoint_add (hh : 0 < h) (q j : ℕ) :
    tilePoint M p h (q * h + j) = (tilePoint M p h (q * h) + tilePoint M p h j) % M := by
  have hstart : tilePoint M p h (q * h) = q * p % M := by
    rw [← Nat.add_zero (q * h), tilePoint_of_lt hh, Nat.add_zero]
  rw [hstart, tilePoint, tilePoint, ← Nat.add_mod, Nat.mul_comm q h, Nat.mul_add_div hh,
    Nat.mul_add_mod, Nat.add_mul, Nat.add_assoc]

theorem lastTile_lt (hn : 0 < n) : lastTile p n < n :=
  lt_of_le_of_lt (Nat.div_mul_le_self _ _) (Nat.sub_lt hn Nat.one_pos)

theorem lastTile_add_ge (hp : 0 < p) : n ≤ lastTile p n + p := by
  have hlt := Nat.lt_div_mul_add (a := n - 1) hp
  unfold lastTile
  omega

/-! ### Coming to the bound -/

/-- The tiles start at multiples of the greatest common divisor, and at the greatest of them. -/
theorem exists_tile (hM : 0 < M) : ∃ q, q * p % M = M - p.gcd M := by
  have hg : p.gcd M ≤ M := Nat.gcd_le_right p hM
  by_cases hgM : p.gcd M = M
  · refine ⟨0, ?_⟩
    rw [hgM, Nat.sub_self, Nat.zero_mul, Nat.zero_mod]
  · obtain ⟨m, -, hm⟩ := Nat.exists_mul_mod_eq_gcd (Nat.lt_of_le_of_ne hg hgM)
    have hpos : 0 < p.gcd M := Nat.gcd_pos_of_pos_right p hM
    refine ⟨(M - 1) * m, ?_⟩
    have hsplit : (M - 1) * p.gcd M = M - p.gcd M + M * (p.gcd M - 1) := by
      obtain ⟨M, rfl⟩ := Nat.exists_eq_succ_of_ne_zero hM.ne'
      obtain ⟨g, hg'⟩ := Nat.exists_eq_succ_of_ne_zero hpos.ne'
      rw [hg'] at hg ⊢
      obtain ⟨d, hd⟩ := Nat.exists_eq_add_of_le hg
      simp only [Nat.succ_eq_add_one, Nat.add_sub_cancel] at hd ⊢
      rw [hd, Nat.add_sub_cancel_left]
      have hMg : M = g + d := by omega
      rw [hMg]
      ring
    calc (M - 1) * m * p % M = (M - 1) * (p * m) % M := by rw [Nat.mul_assoc, Nat.mul_comm m p]
      _ = (M - 1) * (p * m % M) % M := (Nat.mul_mod_mod _ _ _).symm
      _ = (M - p.gcd M + M * (p.gcd M - 1)) % M := by rw [hm, hsplit]
      _ = M - p.gcd M := by
          rw [Nat.add_mul_mod_self_left, Nat.mod_eq_of_lt (Nat.sub_lt hM hpos)]

theorem tile_le (hM : 0 < M) (q : ℕ) : q * p % M ≤ M - p.gcd M := by
  have hdvd : p.gcd M ∣ q * p % M :=
    (Nat.dvd_mod_iff (Nat.gcd_dvd_right p M)).mpr (Dvd.dvd.mul_left (Nat.gcd_dvd_left p M) q)
  obtain ⟨a, ha⟩ := hdvd
  obtain ⟨b, hb⟩ := Nat.gcd_dvd_right p M
  have hlt : q * p % M < M := Nat.mod_lt _ hM
  rw [ha] at hlt ⊢
  have hab : a < b := by
    refine Nat.lt_of_mul_lt_mul_left (a := p.gcd M) ?_
    rwa [← hb]
  have hle : p.gcd M * (a + 1) ≤ p.gcd M * b := Nat.mul_le_mul_left _ hab
  rw [← hb, Nat.mul_add, Nat.mul_one] at hle
  exact Nat.le_sub_of_add_le hle

/-- **When the counter comes to the bound.** -/
theorem exists_tilePoint_ge_iff (hM : 0 < M) (hh : 0 < h) (hn : n < M) :
    (∃ j, n ≤ tilePoint M p h j) ↔ n + p.gcd M < M + h := by
  have hg : p.gcd M ≤ M := Nat.gcd_le_right p hM
  constructor
  · rintro ⟨j, hj⟩
    have hr : j % h < h := Nat.mod_lt _ hh
    have htile := tile_le (p := p) hM (j / h)
    have hpoint : tilePoint M p h j ≤ j / h * p % M + j % h := by
      rw [tilePoint, ← Nat.mod_add_mod]
      exact Nat.mod_le _ _
    omega
  · intro hlt
    obtain ⟨q, hq⟩ := exists_tile (p := p) hM
    have hpos : 0 < p.gcd M := Nat.gcd_pos_of_pos_right p hM
    have hr : min (h - 1) (p.gcd M - 1) < h := by omega
    refine ⟨q * h + min (h - 1) (p.gcd M - 1), ?_⟩
    rw [tilePoint_of_lt hr, ← Nat.mod_add_mod, hq, Nat.mod_eq_of_lt (by omega)]
    omega

/-! ### Wrapping around -/

/-- A counter that is aligned does not wrap around before it has come to the bound. -/
theorem Aligned.tilePoint_eq (ha : Aligned M p h n) (hh : 0 < h) (hn : n < M) {j : ℕ}
    (hv : Visited M p h n j) : tilePoint M p h j = j / h * p + j % h := by
  have hj : j / h * h + j % h = j := Nat.div_add_mod' j h
  have hr : j % h < h := Nat.mod_lt _ hh
  have hpos : 0 < n := Nat.zero_lt_of_lt (hv 0 (Nat.zero_le j))
  -- a row of a tile that starts in front of the bound and is visited is in front of the bound
  have hrow : ∀ q r, q * p < n → r < h → q * h + r ≤ j → q * p + r < n := by
    intro q r hq hr hle
    by_contra hge
    have hr' : n - q * p < h := by omega
    have hvisited := hv (q * h + (n - q * p)) (by omega)
    rw [tilePoint_of_lt hr', Nat.add_sub_cancel' hq.le, Nat.mod_eq_of_lt hn] at hvisited
    exact Nat.lt_irrefl n hvisited
  have hstart : j / h * p < n := by
    by_contra hge
    -- then the last tile and the start of the one behind it are visited
    have hq : (n - 1) / p + 1 ≤ j / h := by
      by_contra hlt
      have hle : j / h * p ≤ lastTile p n := Nat.mul_le_mul_right p (by omega)
      exact hge (lt_of_le_of_lt hle (lastTile_lt hpos))
    have hmul : ((n - 1) / p + 1) * h ≤ j / h * h := Nat.mul_le_mul_right h hq
    have hnext : ((n - 1) / p + 1) * h = (n - 1) / p * h + h := Nat.succ_mul _ _
    have hlast := hrow ((n - 1) / p) (h - 1) (lastTile_lt hpos) (by omega) (by omega)
    have hle := ha (by unfold lastTile; omega)
    have hvisited := hv (((n - 1) / p + 1) * h + 0) (by omega)
    rw [tilePoint_of_lt hh, Nat.add_zero, Nat.succ_mul] at hvisited
    exact absurd hle (Nat.not_le.mpr hvisited)
  have hpoint := hrow (j / h) (j % h) hstart hr (Nat.le_of_eq hj)
  rw [tilePoint, Nat.mod_eq_of_lt (hpoint.trans hn)]

/-- A counter that is not aligned, but comes to the bound, wraps around to a place behind the
start of the first tile. -/
theorem exists_wrapped (hna : ¬Aligned M p h n) (hp : 0 < p) (hh : 0 < h) (hn : n < M)
    (hpos : 0 < n) (hend : ∃ j, n ≤ tilePoint M p h j) :
    ∃ q, Visited M p h n (q * h) ∧ 0 < tilePoint M p h (q * h) ∧ tilePoint M p h (q * h) < p ∧
      lastTile p n + h ≤ n := by
  rw [Aligned, Classical.not_imp, Nat.not_le] at hna
  obtain ⟨hlast, hwrap⟩ := hna
  have hpoint : tilePoint M p h (((n - 1) / p + 1) * h) = (lastTile p n + p) % M := by
    rw [← Nat.add_zero (_ * h), tilePoint_of_lt hh, Nat.add_zero, Nat.succ_mul]
    rfl
  have hvisited : Visited M p h n (((n - 1) / p + 1) * h) := by
    intro i hi
    rcases Nat.lt_or_eq_of_le hi with hlt | rfl
    · have hq : i / h ≤ (n - 1) / p := Nat.le_of_lt_succ (Nat.div_lt_of_lt_mul (by
        rwa [Nat.mul_comm] at hlt))
      have hr : i % h < h := Nat.mod_lt _ hh
      have hle : i / h * p ≤ lastTile p n := Nat.mul_le_mul_right p hq
      refine lt_of_le_of_lt (Nat.mod_le _ _) ?_
      omega
    · rwa [hpoint]
  refine ⟨(n - 1) / p + 1, hvisited, ?_, ?_, hlast⟩
  · by_contra hzero
    -- the counter goes round and round
    classical
    have hfirst := Nat.find_spec hend
    have hlt : ((n - 1) / p + 1) * h < Nat.find hend := by
      by_contra hle
      exact absurd (hvisited _ (Nat.not_lt.mp hle)) (Nat.not_lt.mpr hfirst)
    have hback : tilePoint M p h (Nat.find hend) =
        tilePoint M p h (Nat.find hend - ((n - 1) / p + 1) * h) := by
      conv_lhs => rw [← Nat.add_sub_cancel' hlt.le]
      rw [tilePoint_add hh, Nat.eq_zero_of_not_pos hzero, Nat.zero_add]
      exact Nat.mod_mod _ _
    rw [hback] at hfirst
    have hturn : 0 < ((n - 1) / p + 1) * h := Nat.mul_pos (Nat.succ_pos _) hh
    exact Nat.find_min hend (Nat.sub_lt (Nat.zero_lt_of_lt hlt) hturn) hfirst
  · rw [hpoint]
    by_cases hlt : lastTile p n + p < M
    · rw [Nat.mod_eq_of_lt hlt] at hwrap
      exact absurd (lastTile_add_ge hp) (Nat.not_le.mpr hwrap)
    · rw [Nat.mod_eq_sub_mod (Nat.not_lt.mp hlt)]
      have hle := Nat.mod_le (lastTile p n + p - M) M
      have hn' := lastTile_lt (p := p) hpos
      omega

end Tiles

end KasmVNC.Lib
