import Mathlib.Algebra.BigOperators.Group.List.Basic
import Mathlib.Algebra.GroupWithZero.Nat
import Mathlib.Data.List.Induction
import Mathlib.Logic.Function.Basic
import Mathlib.Order.Monotone.Basic

/-!
# Counting sort

Items are distributed over numbered buckets in three passes: count the items of
each bucket, give each non-empty bucket the slice of the output that begins where
the items of the buckets before it end, and place the items one after another.
Arrays are functions of their index. In the end the slice of a bucket holds
exactly its items, in the order of the input.
-/

namespace KasmVNC.Lib

variable {ι α : Type*}

/-- The number of items in each bucket. -/
def bucketTotals (key : ι → ℕ) (items : List ι) : ℕ → ℕ :=
  items.foldl (fun totals i => Function.update totals (key i) (totals (key i) + 1)) fun _ => 0

/-- The start of each non-empty bucket; the entries of empty ones are left alone. -/
def bucketStarts (totals : ℕ → ℕ) (n : ℕ) (starts : ℕ → ℕ) : (ℕ → ℕ) × ℕ :=
  (List.range n).foldl
    (fun s b => if totals b = 0 then s else (Function.update s.1 b s.2, s.2 + totals b))
    (starts, 0)

/-- Place the items; `curs` holds the next free position of each bucket. -/
def placeItems (key : ι → ℕ) (value : ι → α) (items : List ι) (s : (ℕ → ℕ) × (ℕ → α)) :
    (ℕ → ℕ) × (ℕ → α) :=
  items.foldl
    (fun s i => (Function.update s.1 (key i) (s.1 (key i) + 1),
      Function.update s.2 (s.1 (key i)) (value i))) s

/-- The items of one bucket. -/
def bucket (key : ι → ℕ) (items : List ι) (b : ℕ) : List ι :=
  items.filter fun i => key i = b

theorem bucket_concat (key : ι → ℕ) (items : List ι) (i : ι) (b : ℕ) :
    bucket key (items ++ [i]) b = bucket key items b ++ if key i = b then [i] else [] := by
  rw [bucket, List.filter_append, bucket]
  by_cases h : key i = b <;> simp [h]

theorem bucketTotals_concat (key : ι → ℕ) (items : List ι) (i : ι) :
    bucketTotals key (items ++ [i]) = Function.update (bucketTotals key items) (key i)
      (bucketTotals key items (key i) + 1) := by
  rw [bucketTotals, List.foldl_append]
  rfl

theorem bucketTotals_eq (key : ι → ℕ) (items : List ι) (b : ℕ) :
    bucketTotals key items b = (bucket key items b).length := by
  induction items using List.reverseRecOn with
  | nil => rfl
  | append_singleton items i ih =>
    rw [bucketTotals_concat, bucket_concat, List.length_append, ← ih]
    by_cases h : key i = b
    · subst h
      rw [Function.update_self, if_pos rfl, List.length_singleton]
    · rw [Function.update_of_ne (Ne.symm h), if_neg h, List.length_nil, Nat.add_zero]

/-! ## The slices -/

/-- The items of all buckets before `n`. -/
def itemsBefore (totals : ℕ → ℕ) (n : ℕ) : ℕ := ((List.range n).map totals).sum

theorem itemsBefore_succ (totals : ℕ → ℕ) (n : ℕ) :
    itemsBefore totals (n + 1) = itemsBefore totals n + totals n := by
  simp [itemsBefore, List.range_succ]

theorem itemsBefore_mono (totals : ℕ → ℕ) : Monotone (itemsBefore totals) :=
  monotone_nat_of_le_succ fun n => by
    rw [itemsBefore_succ]
    exact Nat.le_add_right _ _

theorem bucketStarts_succ (totals : ℕ → ℕ) (n : ℕ) (starts : ℕ → ℕ) :
    bucketStarts totals (n + 1) starts =
      if totals n = 0 then bucketStarts totals n starts
      else (Function.update (bucketStarts totals n starts).1 n (bucketStarts totals n starts).2,
        (bucketStarts totals n starts).2 + totals n) := by
  rw [bucketStarts, List.range_succ, List.foldl_append]
  rfl

theorem bucketStarts_eq (totals : ℕ → ℕ) (starts : ℕ → ℕ) (n : ℕ) :
    (bucketStarts totals n starts).2 = itemsBefore totals n ∧
      ∀ b < n, totals b ≠ 0 → (bucketStarts totals n starts).1 b = itemsBefore totals b := by
  induction n with
  | zero => exact ⟨rfl, fun b hb => absurd hb (Nat.not_lt_zero b)⟩
  | succ n ih =>
    obtain ⟨hsum, hstarts⟩ := ih
    rw [bucketStarts_succ, itemsBefore_succ]
    by_cases hempty : totals n = 0
    · rw [if_pos hempty, hempty]
      refine ⟨hsum, fun b hb hne => hstarts b ?_ hne⟩
      refine lt_of_le_of_ne (Nat.lt_succ_iff.mp hb) fun hbn => hne ?_
      rw [hbn, hempty]
    · rw [if_neg hempty]
      refine ⟨congrArg (· + totals n) hsum, fun b hb hne => ?_⟩
      by_cases hbn : b = n
      · subst hbn
        exact (Function.update_self _ _ _).trans hsum
      · have hlt : b < n := lt_of_le_of_ne (Nat.lt_succ_iff.mp hb) hbn
        exact (Function.update_of_ne hbn _ _).trans (hstarts b hlt hne)

/-- One more item in a bucket. -/
theorem itemsBefore_update {totals : ℕ → ℕ} {b n : ℕ} (hb : b < n) :
    itemsBefore (Function.update totals b (totals b + 1)) n = itemsBefore totals n + 1 := by
  induction n with
  | zero => exact absurd hb (Nat.not_lt_zero b)
  | succ n ih =>
    rw [itemsBefore_succ, itemsBefore_succ]
    rcases Nat.lt_succ_iff_lt_or_eq.mp hb with hlt | rfl
    · rw [ih hlt, Function.update_of_ne (Nat.ne_of_gt hlt), Nat.add_right_comm]
    · have hsame : itemsBefore (Function.update totals b (totals b + 1)) b =
          itemsBefore totals b := by
        refine congrArg List.sum (List.map_congr_left fun c hc => ?_)
        exact Function.update_of_ne (Nat.ne_of_lt (List.mem_range.mp hc)) _ _
      rw [hsame, Function.update_self, Nat.add_assoc]

/-- Slices of different buckets do not meet. -/
theorem slices_disjoint (totals : ℕ → ℕ) {b c i j : ℕ} (hbc : b ≠ c) (hi : i < totals b)
    (hj : j < totals c) : itemsBefore totals b + i ≠ itemsBefore totals c + j := by
  rcases Nat.lt_or_gt_of_ne hbc with hlt | hlt
  · have hle := itemsBefore_mono totals hlt
    rw [Nat.succ_eq_add_one, itemsBefore_succ] at hle
    omega
  · have hle := itemsBefore_mono totals hlt
    rw [Nat.succ_eq_add_one, itemsBefore_succ] at hle
    omega

/-! ## Placing -/

theorem placeItems_concat (key : ι → ℕ) (value : ι → α) (items : List ι) (i : ι)
    (s : (ℕ → ℕ) × (ℕ → α)) :
    placeItems key value (items ++ [i]) s =
      (Function.update (placeItems key value items s).1 (key i)
        ((placeItems key value items s).1 (key i) + 1),
      Function.update (placeItems key value items s).2
        ((placeItems key value items s).1 (key i)) (value i)) := by
  rw [placeItems, List.foldl_append]
  rfl

theorem placeItems_congr {key key' : ι → ℕ} (value : ι → α) :
    ∀ {items : List ι}, (∀ i ∈ items, key i = key' i) → ∀ s : (ℕ → ℕ) × (ℕ → α),
      placeItems key value items s = placeItems key' value items s
  | [], _, _ => rfl
  | i :: items, h, s => by
    have hi : key i = key' i := h i List.mem_cons_self
    have hrest := placeItems_congr value fun j hj =>
      h j (List.mem_cons_of_mem i hj)
    unfold placeItems at hrest ⊢
    simp only [List.foldl_cons, hi, hrest]

/-- Entries written one after another at different positions. -/
theorem foldl_update_of_mem {index : ι → ℕ} {value : ι → α} {items : List ι} {i : ι}
    (hinj : ∀ j ∈ items, index j = index i → j = i) (hi : i ∈ items) (table : ℕ → α) :
    items.foldl (fun t j => Function.update t (index j) (value j)) table (index i) = value i := by
  induction items using List.reverseRecOn with
  | nil => exact absurd hi List.not_mem_nil
  | append_singleton items j ih =>
    rw [List.foldl_append]
    by_cases h : index i = index j
    · obtain rfl := hinj j (List.mem_append_right _ List.mem_cons_self) h.symm
      exact Function.update_self _ _ _
    · refine (Function.update_of_ne h _ _).trans (ih ?_ ?_)
      · exact fun k hk => hinj k (List.mem_append_left _ hk)
      · refine (List.mem_append.mp hi).resolve_right fun hj => h ?_
        rw [List.mem_singleton.mp hj]

/-- After a prefix of the items, each bucket holds its items of the prefix at the
beginning of its slice, and its cursor stands behind them. -/
theorem placeItems_init {key : ι → ℕ} {totals : ℕ → ℕ} (value : ι → α)
    {s : (ℕ → ℕ) × (ℕ → α)}
    (hcurs : ∀ b, totals b ≠ 0 → s.1 b = itemsBefore totals b) (items : List ι)
    (hfit : ∀ b, (bucket key items b).length ≤ totals b) :
    ∀ b, totals b ≠ 0 →
      (placeItems key value items s).1 b =
        itemsBefore totals b + (bucket key items b).length ∧
      ∀ j (hj : j < (bucket key items b).length),
        (placeItems key value items s).2 (itemsBefore totals b + j) =
          value (bucket key items b)[j] := by
  induction items using List.reverseRecOn with
  | nil =>
    exact fun b hb => ⟨hcurs b hb, fun j hj => absurd hj (Nat.not_lt_zero j)⟩
  | append_singleton items i ih =>
    have hlen : ∀ b, (bucket key (items ++ [i]) b).length =
        (bucket key items b).length + if key i = b then 1 else 0 := by
      intro b
      rw [bucket_concat, List.length_append]
      split <;> rfl
    have hinit := ih fun b => by
      have := hfit b
      rw [hlen] at this
      omega
    -- the bucket of the new item has room for it
    have hroom : (bucket key items (key i)).length < totals (key i) := by
      have := hfit (key i)
      rw [hlen, if_pos rfl] at this
      omega
    have hkey : totals (key i) ≠ 0 := by omega
    obtain ⟨hcur, -⟩ := hinit (key i) hkey
    intro b hb
    obtain ⟨hcurb, hslice⟩ := hinit b hb
    rw [placeItems_concat, hcur]
    constructor
    · rw [hlen]
      by_cases h : key i = b
      · subst h
        rw [if_pos rfl, ← Nat.add_assoc]
        exact Function.update_self _ _ _
      · rw [if_neg h, Nat.add_zero]
        exact (Function.update_of_ne (Ne.symm h) _ _).trans hcurb
    · intro j hj
      by_cases hold : j < (bucket key items b).length
      · have hget : (bucket key (items ++ [i]) b)[j] = (bucket key items b)[j] := by
          simp only [bucket_concat, List.getElem_append_left hold]
        rw [hget, ← hslice j hold]
        refine Function.update_of_ne ?_ _ _
        by_cases h : key i = b
        · subst h
          omega
        · refine slices_disjoint totals (Ne.symm h) ?_ hroom
          have := hfit b
          rw [hlen] at this
          omega
      · have hjlen := hj
        rw [hlen] at hjlen
        by_cases h : key i = b
        · subst h
          rw [if_pos rfl] at hjlen
          obtain rfl : j = (bucket key items (key i)).length := by omega
          have hget : (bucket key (items ++ [i]) (key i))[
              (bucket key items (key i)).length] = i := by
            simp [bucket_concat]
          rw [hget]
          exact Function.update_self _ _ _
        · rw [if_neg h] at hjlen
          omega

/-- The slices cover the output. -/
theorem itemsBefore_bucketTotals {key : ι → ℕ} {n : ℕ} {items : List ι}
    (hn : ∀ i ∈ items, key i < n) : itemsBefore (bucketTotals key items) n = items.length := by
  induction items using List.reverseRecOn with
  | nil =>
    rw [itemsBefore, List.length_nil, List.sum_eq_zero]
    intro x hx
    obtain ⟨b, -, rfl⟩ := List.mem_map.mp hx
    rfl
  | append_singleton items i ih =>
    have hi : key i < n := hn i (List.mem_append_right _ List.mem_cons_self)
    rw [bucketTotals_concat, itemsBefore_update hi,
      ih fun j hj => hn j (List.mem_append_left _ hj), List.length_append, List.length_singleton]

/-- While items are left, the next one is placed inside the output. -/
theorem placeItems_cursor_lt {key : ι → ℕ} (value : ι → α) {n : ℕ} {before after : List ι} {i : ι}
    (hn : ∀ j ∈ before ++ i :: after, key j < n) {s : (ℕ → ℕ) × (ℕ → α)}
    (hcurs : ∀ b, bucketTotals key (before ++ i :: after) b ≠ 0 →
      s.1 b = itemsBefore (bucketTotals key (before ++ i :: after)) b) :
    (placeItems key value before s).1 (key i) < (before ++ i :: after).length := by
  generalize htotals : bucketTotals key (before ++ i :: after) = totals at hcurs
  have hsplit : ∀ b, totals b =
      (bucket key before b).length + (bucket key (i :: after) b).length := by
    intro b
    rw [← htotals, bucketTotals_eq, bucket, List.filter_append, List.length_append]
    rfl
  have hroom : (bucket key before (key i)).length < totals (key i) := by
    have hmem : i ∈ bucket key (i :: after) (key i) :=
      List.mem_filter.mpr ⟨List.mem_cons_self, decide_eq_true rfl⟩
    have hpos := List.length_pos_of_mem hmem
    rw [hsplit]
    omega
  have hfit : ∀ b, (bucket key before b).length ≤ totals b :=
    fun b => (Nat.le_add_right _ _).trans (hsplit b).ge
  have hcursor := (placeItems_init value hcurs before hfit (key i) (Nat.ne_zero_of_lt hroom)).1
  have hend := itemsBefore_mono totals (hn i (List.mem_append_right _ List.mem_cons_self))
  rw [Nat.succ_eq_add_one, itemsBefore_succ] at hend
  rw [← itemsBefore_bucketTotals hn, htotals, hcursor]
  omega

/-- **Counting sort.** The slice of a bucket holds its items in their order. -/
theorem countingSort_slice {key : ι → ℕ} (value : ι → α) {items : List ι} {n : ℕ}
    (starts : ℕ → ℕ) (table : ℕ → α) (hn : ∀ i ∈ items, key i < n) {b : ℕ}
    (hb : bucketTotals key items b ≠ 0) {j : ℕ} (hj : j < bucketTotals key items b) :
    ∃ hlt : j < (bucket key items b).length,
      (placeItems key value items
        ((bucketStarts (bucketTotals key items) n starts).1, table)).2
          ((bucketStarts (bucketTotals key items) n starts).1 b + j) =
        value (bucket key items b)[j] := by
  have hstarts : ∀ c, bucketTotals key items c ≠ 0 →
      (bucketStarts (bucketTotals key items) n starts).1 c =
        itemsBefore (bucketTotals key items) c := by
    intro c hc
    refine (bucketStarts_eq (bucketTotals key items) starts n).2 c ?_ hc
    rw [bucketTotals_eq] at hc
    obtain ⟨i, hi⟩ := List.exists_mem_of_length_pos (Nat.pos_of_ne_zero hc)
    obtain ⟨hmem, hkey⟩ := List.mem_filter.mp hi
    exact of_decide_eq_true hkey ▸ hn i hmem
  have hlt : j < (bucket key items b).length := by rwa [← bucketTotals_eq]
  refine ⟨hlt, ?_⟩
  rw [hstarts b hb]
  exact (placeItems_init value hstarts items
    (fun c => (bucketTotals_eq key items c).ge) b hb).2 j hlt

end KasmVNC.Lib
