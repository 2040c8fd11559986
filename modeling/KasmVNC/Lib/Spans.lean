import KasmVNC.Lib.Bands

/-!
# Rows of spans

A set of integers is kept as half-open spans, in order, with a gap between any two of them, so
that there is only one way to write it. Two such rows are combined in one pass from left to
right.
-/

namespace KasmVNC.Lib

/-- Spans in order, none of them empty, with a gap between any two. -/
structure Spaced (row : List (ℤ × ℤ)) : Prop where
  proper : ∀ s ∈ row, s.1 < s.2
  apart : row.Pairwise fun s t => s.2 < t.1

/-- The integer is in one of the spans. -/
def OnRow (row : List (ℤ × ℤ)) (x : ℤ) : Prop := ∃ s ∈ row, s.1 ≤ x ∧ x < s.2

section

variable {row row' : List (ℤ × ℤ)} {s t : ℤ × ℤ} {x : ℤ}

@[simp] theorem not_onRow_nil : ¬ OnRow [] x := by simp [OnRow]

@[simp] theorem onRow_cons : OnRow (s :: row) x ↔ (s.1 ≤ x ∧ x < s.2) ∨ OnRow row x := by
  simp [OnRow]

theorem spaced_nil : Spaced [] := ⟨fun _ hs => absurd hs List.not_mem_nil, List.Pairwise.nil⟩

theorem spaced_cons : Spaced (s :: row) ↔ s.1 < s.2 ∧ (∀ t ∈ row, s.2 < t.1) ∧ Spaced row := by
  constructor
  · intro h
    obtain ⟨hfirst, hrest⟩ := List.pairwise_cons.mp h.apart
    obtain ⟨hs, hproper⟩ := List.forall_mem_cons.mp h.proper
    exact ⟨hs, hfirst, hproper, hrest⟩
  · rintro ⟨hs, hfirst, hrest⟩
    exact ⟨List.forall_mem_cons.mpr ⟨hs, hrest.proper⟩,
      List.pairwise_cons.mpr ⟨hfirst, hrest.apart⟩⟩

theorem spaced_singleton (h : s.1 < s.2) : Spaced [s] :=
  spaced_cons.mpr ⟨h, fun _ ht => absurd ht List.not_mem_nil, spaced_nil⟩

/-- What comes behind a span lies behind it. -/
theorem Spaced.lt_of_onRow (h : Spaced (s :: row)) (hx : OnRow row x) : s.2 < x := by
  obtain ⟨t, ht, hlo, -⟩ := hx
  exact lt_of_lt_of_le ((spaced_cons.mp h).2.1 t ht) hlo

theorem Spaced.not_onRow_end (h : Spaced (s :: row)) : ¬ OnRow (s :: row) s.2 := by
  rw [onRow_cons]
  rintro (⟨-, hlt⟩ | hrest)
  · exact lt_irrefl _ hlt
  · exact lt_irrefl _ (h.lt_of_onRow hrest)

theorem Spaced.onRow_start (h : Spaced (s :: row)) : OnRow (s :: row) s.1 :=
  onRow_cons.mpr (Or.inl ⟨le_rfl, (spaced_cons.mp h).1⟩)

theorem Spaced.start_le (h : Spaced (s :: row)) (hx : OnRow (s :: row) x) : s.1 ≤ x := by
  rcases onRow_cons.mp hx with ⟨hlo, -⟩ | hrest
  · exact hlo
  · exact ((spaced_cons.mp h).1.trans (h.lt_of_onRow hrest)).le

/-- **There is only one way to write a row.** -/
theorem Spaced.ext (h : Spaced row) (h' : Spaced row') (hsame : ∀ x, OnRow row x ↔ OnRow row' x) :
    row = row' := by
  induction row generalizing row' with
  | nil =>
    cases row' with
    | nil => rfl
    | cons t row' => exact absurd ((hsame t.1).mpr h'.onRow_start) not_onRow_nil
  | cons s row ih =>
    cases row' with
    | nil => exact absurd ((hsame s.1).mp h.onRow_start) not_onRow_nil
    | cons t row' =>
      have hstart : s.1 = t.1 :=
        le_antisymm (h.start_le ((hsame t.1).mpr h'.onRow_start))
          (h'.start_le ((hsame s.1).mp h.onRow_start))
      -- neither of the two ends before the other one
      have hend : ∀ {s t : ℤ × ℤ} {row row' : List (ℤ × ℤ)}, Spaced (s :: row) →
          Spaced (t :: row') → s.1 = t.1 → (OnRow (t :: row') s.2 → OnRow (s :: row) s.2) →
            t.2 ≤ s.2 := by
        intro s t row row' h h' hstart himp
        by_contra hlt
        refine h.not_onRow_end (himp (onRow_cons.mpr (Or.inl ⟨?_, not_le.mp hlt⟩)))
        rw [← hstart]
        exact (spaced_cons.mp h).1.le
      have hends : s.2 = t.2 :=
        le_antisymm (hend h' h hstart.symm fun hin => (hsame _).mp hin)
          (hend h h' hstart fun hin => (hsame _).mpr hin)
      have hst : s = t := Prod.ext hstart hends
      subst hst
      refine congrArg (s :: ·) (ih (spaced_cons.mp h).2.2 (spaced_cons.mp h').2.2 fun x => ?_)
      have hx := hsame x
      rw [onRow_cons, onRow_cons] at hx
      constructor
      · intro hin
        refine (hx.mp (Or.inr hin)).resolve_left fun hfirst => ?_
        exact absurd (h.lt_of_onRow hin) (not_lt.mpr hfirst.2.le)
      · intro hin
        refine (hx.mpr (Or.inr hin)).resolve_left fun hfirst => ?_
        exact absurd (h'.lt_of_onRow hin) (not_lt.mpr hfirst.2.le)

end

/-- The spans of an increasing list have gaps between them. -/
theorem spaced_spans : ∀ {xs : List ℤ}, xs.Pairwise (· < ·) → Spaced (spans xs)
  | [], _ => spaced_nil
  | x :: xs, h => by
    obtain ⟨hx, hxs⟩ := List.pairwise_cons.mp h
    have ih := spaced_spans hxs
    have hlater : ∀ s ∈ spans xs, x + 1 ≤ s.1 := fun s hs =>
      hx s.1 (mem_spans.mp ⟨s, hs, le_rfl, spans_nonempty hs⟩)
    rw [spans]
    cases hsp : spans xs with
    | nil => exact spaced_singleton (Int.lt_succ x)
    | cons t rest =>
      obtain ⟨a, b⟩ := t
      rw [hsp] at ih hlater
      obtain ⟨hab, hfirst, hrest⟩ := spaced_cons.mp ih
      obtain ⟨ha, -⟩ := List.forall_mem_cons.mp hlater
      dsimp only at hab ha hfirst ⊢
      split
      · refine spaced_cons.mpr ⟨?_, hfirst, hrest⟩
        show x < b
        omega
      · refine spaced_cons.mpr ⟨Int.lt_succ x, fun t ht => ?_, ih⟩
        rcases List.mem_cons.mp ht with rfl | ht
        · show x + 1 < a
          omega
        · have hlt := hfirst t ht
          show x + 1 < t.1
          omega

/-! ## What both have -/

/-- The overlaps of two rows. The span that ends first is left behind. -/
def interSpans : List (ℤ × ℤ) → List (ℤ × ℤ) → List (ℤ × ℤ)
  | a :: as, b :: bs =>
    (if max a.1 b.1 < min a.2 b.2 then [(max a.1 b.1, min a.2 b.2)] else []) ++
      if a.2 < b.2 then interSpans as (b :: bs)
      else if b.2 < a.2 then interSpans (a :: as) bs
      else interSpans as bs
  | [], _ => []
  | _ :: _, [] => []
termination_by as bs => as.length + bs.length

theorem mem_interSpans {as bs : List (ℤ × ℤ)} {s : ℤ × ℤ} (h : s ∈ interSpans as bs) :
    s.1 < s.2 ∧ (∃ a ∈ as, a.1 ≤ s.1) ∧ ∃ b ∈ bs, b.1 ≤ s.1 := by
  induction as, bs using interSpans.induct with
  | case1 a as b bs ihl ihr ihb =>
    rw [interSpans] at h
    rcases List.mem_append.mp h with hfirst | hrest
    · split at hfirst
      · next hlt =>
          rw [List.mem_singleton.mp hfirst]
          exact ⟨hlt, ⟨a, List.mem_cons_self, le_max_left _ _⟩,
            ⟨b, List.mem_cons_self, le_max_right _ _⟩⟩
      · exact absurd hfirst List.not_mem_nil
    · split at hrest
      · obtain ⟨hlt, ⟨a', ha', hle⟩, hb⟩ := ihl hrest
        exact ⟨hlt, ⟨a', List.mem_cons_of_mem _ ha', hle⟩, hb⟩
      split at hrest
      · obtain ⟨hlt, ha, b', hb', hle⟩ := ihr hrest
        exact ⟨hlt, ha, b', List.mem_cons_of_mem _ hb', hle⟩
      · obtain ⟨hlt, ⟨a', ha', hle⟩, b', hb', hle'⟩ := ihb hrest
        exact ⟨hlt, ⟨a', List.mem_cons_of_mem _ ha', hle⟩, b', List.mem_cons_of_mem _ hb', hle'⟩
  | case2 bs =>
    rw [interSpans] at h
    exact absurd h List.not_mem_nil
  | case3 a as =>
    rw [interSpans] at h
    exact absurd h List.not_mem_nil

theorem onRow_append {row row' : List (ℤ × ℤ)} {x : ℤ} :
    OnRow (row ++ row') x ↔ OnRow row x ∨ OnRow row' x := by
  simp [OnRow, or_and_right, exists_or]

/-- The overlap of two spans. -/
theorem onRow_overlap {a b : ℤ × ℤ} {x : ℤ} :
    OnRow (if max a.1 b.1 < min a.2 b.2 then [(max a.1 b.1, min a.2 b.2)] else []) x ↔
      (a.1 ≤ x ∧ x < a.2) ∧ b.1 ≤ x ∧ x < b.2 := by
  split
  · rw [onRow_cons]
    simp only [not_onRow_nil, or_false, max_le_iff, lt_min_iff]
    tauto
  · refine iff_of_false not_onRow_nil ?_
    omega

/-- Two unions whose parts do not meet on one diagonal. -/
theorem inter_unions_left {A B P Q : Prop} (h : ¬(A ∧ Q)) :
    A ∧ B ∨ P ∧ (B ∨ Q) ↔ (A ∨ P) ∧ (B ∨ Q) := by
  tauto

theorem inter_unions_right {A B P Q : Prop} (h : ¬(B ∧ P)) :
    A ∧ B ∨ (A ∨ P) ∧ Q ↔ (A ∨ P) ∧ (B ∨ Q) := by
  tauto

theorem inter_unions {A B P Q : Prop} (h : ¬(A ∧ Q)) (h' : ¬(B ∧ P)) :
    A ∧ B ∨ P ∧ Q ↔ (A ∨ P) ∧ (B ∨ Q) := by
  tauto

theorem onRow_interSpans {as bs : List (ℤ × ℤ)} (ha : Spaced as) (hb : Spaced bs) (x : ℤ) :
    OnRow (interSpans as bs) x ↔ OnRow as x ∧ OnRow bs x := by
  induction as, bs using interSpans.induct with
  | case1 a as b bs ihl ihr ihb =>
    have has : OnRow as x → a.2 < x := ha.lt_of_onRow
    have hbs : OnRow bs x → b.2 < x := hb.lt_of_onRow
    have ihl := ihl (spaced_cons.mp ha).2.2 hb
    have ihr := ihr ha (spaced_cons.mp hb).2.2
    have ihb := ihb (spaced_cons.mp ha).2.2 (spaced_cons.mp hb).2.2
    rw [interSpans, onRow_append, onRow_overlap]
    rw [onRow_cons] at ihl ihr
    rw [onRow_cons, onRow_cons]
    -- a span meets nothing behind one that ends no later
    have hleft : a.2 ≤ b.2 → ¬((a.1 ≤ x ∧ x < a.2) ∧ OnRow bs x) := by
      rintro hle ⟨⟨-, hlt⟩, hin⟩
      have hgt := hbs hin
      omega
    have hright : b.2 ≤ a.2 → ¬((b.1 ≤ x ∧ x < b.2) ∧ OnRow as x) := by
      rintro hle ⟨⟨-, hlt⟩, hin⟩
      have hgt := has hin
      omega
    split
    · next hlt =>
        rw [ihl]
        exact inter_unions_left (hleft hlt.le)
    split
    · next hlt =>
        rw [ihr]
        exact inter_unions_right (hright hlt.le)
    · next hle hge =>
        rw [ihb]
        exact inter_unions (hleft (not_lt.mp hge)) (hright (not_lt.mp hle))
  | case2 bs =>
    rw [interSpans]
    exact iff_of_false not_onRow_nil fun h => not_onRow_nil h.1
  | case3 a as =>
    rw [interSpans]
    exact iff_of_false not_onRow_nil fun h => not_onRow_nil h.2

theorem spaced_interSpans {as bs : List (ℤ × ℤ)} (ha : Spaced as) (hb : Spaced bs) :
    Spaced (interSpans as bs) := by
  induction as, bs using interSpans.induct with
  | case1 a as b bs ihl ihr ihb =>
    obtain ⟨-, hafter, has⟩ := spaced_cons.mp ha
    obtain ⟨-, hbfter, hbs⟩ := spaced_cons.mp hb
    have hspaced : ∀ row : List (ℤ × ℤ), Spaced row → (∀ s ∈ row, min a.2 b.2 < s.1) →
        Spaced
          ((if max a.1 b.1 < min a.2 b.2 then [(max a.1 b.1, min a.2 b.2)] else []) ++ row) := by
      intro row hrow hlater
      split
      · next hlt => exact spaced_cons.mpr ⟨hlt, hlater, hrow⟩
      · exact hrow
    rw [interSpans]
    refine hspaced _ ?_ ?_
    · split
      · exact ihl has hb
      split
      · exact ihr ha hbs
      · exact ihb has hbs
    · intro s hs
      split at hs
      · obtain ⟨-, ⟨a', ha', hle⟩, -⟩ := mem_interSpans hs
        exact lt_of_le_of_lt (min_le_left _ _) ((hafter a' ha').trans_le hle)
      split at hs
      · obtain ⟨-, -, b', hb', hle⟩ := mem_interSpans hs
        exact lt_of_le_of_lt (min_le_right _ _) ((hbfter b' hb').trans_le hle)
      · obtain ⟨-, ⟨a', ha', hle⟩, -⟩ := mem_interSpans hs
        exact lt_of_le_of_lt (min_le_left _ _) ((hafter a' ha').trans_le hle)
  | case2 bs =>
    rw [interSpans]
    exact spaced_nil
  | case3 a as =>
    rw [interSpans]
    exact spaced_nil

/-! ## What one of them has -/

/-- The spans of two rows by where they begin. -/
def mergeSpans : List (ℤ × ℤ) → List (ℤ × ℤ) → List (ℤ × ℤ)
  | a :: as, b :: bs =>
    if a.1 < b.1 then a :: mergeSpans as (b :: bs) else b :: mergeSpans (a :: as) bs
  | [], bs => bs
  | a :: as, [] => a :: as
termination_by as bs => as.length + bs.length

/-- Spans that touch or overlap are joined. -/
def joinSpans (cur : ℤ × ℤ) : List (ℤ × ℤ) → List (ℤ × ℤ)
  | [] => [cur]
  | s :: ss =>
    if s.1 ≤ cur.2 then joinSpans (cur.1, max cur.2 s.2) ss else cur :: joinSpans s ss

def unionSpans (as bs : List (ℤ × ℤ)) : List (ℤ × ℤ) :=
  match mergeSpans as bs with
  | [] => []
  | s :: ss => joinSpans s ss

theorem mem_mergeSpans {as bs : List (ℤ × ℤ)} {s : ℤ × ℤ} :
    s ∈ mergeSpans as bs ↔ s ∈ as ∨ s ∈ bs := by
  induction as, bs using mergeSpans.induct with
  | case1 a as b bs hlt ih =>
    rw [mergeSpans, if_pos hlt, List.mem_cons, ih, List.mem_cons, List.mem_cons]
    exact or_assoc.symm
  | case2 a as b bs hlt ih =>
    rw [mergeSpans, if_neg hlt, List.mem_cons, ih, List.mem_cons, List.mem_cons]
    exact or_left_comm
  | case3 bs =>
    rw [mergeSpans]
    simp
  | case4 a as =>
    rw [mergeSpans]
    simp

theorem mergeSpans_sorted {as bs : List (ℤ × ℤ)} (ha : as.Pairwise fun s t => s.1 ≤ t.1)
    (hb : bs.Pairwise fun s t => s.1 ≤ t.1) :
    (mergeSpans as bs).Pairwise fun s t => s.1 ≤ t.1 := by
  induction as, bs using mergeSpans.induct with
  | case1 a as b bs hlt ih =>
    obtain ⟨hfirst, has⟩ := List.pairwise_cons.mp ha
    rw [mergeSpans, if_pos hlt]
    refine List.pairwise_cons.mpr ⟨fun s hs => ?_, ih has hb⟩
    rcases mem_mergeSpans.mp hs with hs | hs
    · exact hfirst s hs
    · rcases List.mem_cons.mp hs with rfl | hs
      · exact hlt.le
      · exact hlt.le.trans ((List.pairwise_cons.mp hb).1 s hs)
  | case2 a as b bs hlt ih =>
    obtain ⟨hfirst, hbs⟩ := List.pairwise_cons.mp hb
    have hle : b.1 ≤ a.1 := not_lt.mp hlt
    rw [mergeSpans, if_neg hlt]
    refine List.pairwise_cons.mpr ⟨fun s hs => ?_, ih ha hbs⟩
    rcases mem_mergeSpans.mp hs with hs | hs
    · rcases List.mem_cons.mp hs with rfl | hs
      · exact hle
      · exact hle.trans ((List.pairwise_cons.mp ha).1 s hs)
    · exact hfirst s hs
  | case3 bs =>
    rw [mergeSpans]
    exact hb
  | case4 a as =>
    rw [mergeSpans]
    exact ha

theorem Spaced.sorted {row : List (ℤ × ℤ)} (h : Spaced row) :
    row.Pairwise fun s t => s.1 ≤ t.1 := by
  refine h.apart.imp_of_mem fun {s t} hs _ hlt => ?_
  exact (h.proper s hs).le.trans hlt.le

/-- Joining keeps what is covered. -/
theorem onRow_joinSpans {cur : ℤ × ℤ} {ss : List (ℤ × ℤ)}
    (hsorted : (cur :: ss).Pairwise fun s t => s.1 ≤ t.1) (hproper : ∀ s ∈ cur :: ss, s.1 < s.2)
    (x : ℤ) : OnRow (joinSpans cur ss) x ↔ OnRow (cur :: ss) x := by
  induction ss generalizing cur with
  | nil => rfl
  | cons s ss ih =>
    obtain ⟨hfirst, hrest⟩ := List.pairwise_cons.mp hsorted
    obtain ⟨hcur, hss⟩ := List.forall_mem_cons.mp hproper
    have hs : s.1 < s.2 := hss s List.mem_cons_self
    have hle : cur.1 ≤ s.1 := hfirst s List.mem_cons_self
    unfold joinSpans
    split
    · next htouch =>
        have hjoined := @ih (cur.1, max cur.2 s.2)
          (List.pairwise_cons.mpr ⟨fun t ht => hfirst t (List.mem_cons_of_mem _ ht),
            (List.pairwise_cons.mp hrest).2⟩)
          (List.forall_mem_cons.mpr ⟨hcur.trans_le (le_max_left _ _), fun t ht =>
            hss t (List.mem_cons_of_mem _ ht)⟩)
        rw [hjoined, onRow_cons, onRow_cons, onRow_cons, ← or_assoc]
        refine or_congr_left ?_
        dsimp only
        omega
    · rw [onRow_cons, ih hrest hss]
      exact onRow_cons.symm

theorem spaced_joinSpans {cur : ℤ × ℤ} {ss : List (ℤ × ℤ)}
    (hsorted : (cur :: ss).Pairwise fun s t => s.1 ≤ t.1)
    (hproper : ∀ s ∈ cur :: ss, s.1 < s.2) :
    Spaced (joinSpans cur ss) ∧ ∀ t ∈ joinSpans cur ss, cur.1 ≤ t.1 := by
  induction ss generalizing cur with
  | nil =>
    obtain ⟨hcur, -⟩ := List.forall_mem_cons.mp hproper
    exact ⟨spaced_singleton hcur, fun t ht => (List.mem_singleton.mp ht) ▸ le_rfl⟩
  | cons s ss ih =>
    obtain ⟨hfirst, hrest⟩ := List.pairwise_cons.mp hsorted
    obtain ⟨hcur, hss⟩ := List.forall_mem_cons.mp hproper
    have hle : cur.1 ≤ s.1 := hfirst s List.mem_cons_self
    unfold joinSpans
    split
    · exact @ih (cur.1, max cur.2 s.2)
        (List.pairwise_cons.mpr ⟨fun t ht => hfirst t (List.mem_cons_of_mem _ ht),
          (List.pairwise_cons.mp hrest).2⟩)
        (List.forall_mem_cons.mpr ⟨hcur.trans_le (le_max_left _ _), fun t ht =>
          hss t (List.mem_cons_of_mem _ ht)⟩)
    · next hgap =>
        obtain ⟨hspaced, hafter⟩ := ih hrest hss
        refine ⟨spaced_cons.mpr ⟨hcur, fun t ht => ?_, hspaced⟩, fun t ht => ?_⟩
        · exact (not_le.mp hgap).trans_le (hafter t ht)
        · rcases List.mem_cons.mp ht with rfl | ht
          · exact le_rfl
          · exact hle.trans (hafter t ht)

section

variable {as bs : List (ℤ × ℤ)}

theorem mergeSpans_proper (ha : Spaced as) (hb : Spaced bs) :
    ∀ s ∈ mergeSpans as bs, s.1 < s.2 := by
  intro s hs
  rcases mem_mergeSpans.mp hs with hs | hs
  · exact ha.proper s hs
  · exact hb.proper s hs

theorem onRow_unionSpans (ha : Spaced as) (hb : Spaced bs) (x : ℤ) :
    OnRow (unionSpans as bs) x ↔ OnRow as x ∨ OnRow bs x := by
  have hmerged : OnRow (mergeSpans as bs) x ↔ OnRow as x ∨ OnRow bs x := by
    unfold OnRow
    simp only [mem_mergeSpans, or_and_right, exists_or]
  have hsorted := mergeSpans_sorted ha.sorted hb.sorted
  have hproper := mergeSpans_proper ha hb
  rw [← hmerged]
  unfold unionSpans
  cases hm : mergeSpans as bs with
  | nil => rfl
  | cons s ss =>
    rw [hm] at hsorted hproper
    exact onRow_joinSpans hsorted hproper x

theorem spaced_unionSpans (ha : Spaced as) (hb : Spaced bs) : Spaced (unionSpans as bs) := by
  have hsorted := mergeSpans_sorted ha.sorted hb.sorted
  have hproper := mergeSpans_proper ha hb
  unfold unionSpans
  cases hm : mergeSpans as bs with
  | nil => exact spaced_nil
  | cons s ss =>
    rw [hm] at hsorted hproper
    exact (spaced_joinSpans hsorted hproper).1

end

/-! ## What only the first has -/

/-- The left edge of the first span moves on as spans of the other row cover it. -/
def diffSpans : List (ℤ × ℤ) → List (ℤ × ℤ) → List (ℤ × ℤ)
  | a :: as, b :: bs =>
    if b.2 ≤ a.1 then diffSpans (a :: as) bs
    else if b.1 ≤ a.1 then
      if a.2 ≤ b.2 then diffSpans as (b :: bs) else diffSpans ((b.2, a.2) :: as) bs
    else if b.1 < a.2 then
      (a.1, b.1) ::
        if a.2 ≤ b.2 then diffSpans as (b :: bs) else diffSpans ((b.2, a.2) :: as) bs
    else a :: diffSpans as (b :: bs)
  | [], _ => []
  | a :: as, [] => a :: as
termination_by as bs => as.length + bs.length

/-- A span whose left edge has moved on. -/
theorem Spaced.moved {a : ℤ × ℤ} {as : List (ℤ × ℤ)} (h : Spaced (a :: as)) {x : ℤ} (hx : x < a.2) :
    Spaced ((x, a.2) :: as) := by
  obtain ⟨-, hafter, has⟩ := spaced_cons.mp h
  exact spaced_cons.mpr ⟨hx, hafter, has⟩

theorem mem_diffSpans {as bs : List (ℤ × ℤ)} (ha : Spaced as) (hb : Spaced bs) {s : ℤ × ℤ}
    (h : s ∈ diffSpans as bs) : ∃ a ∈ as, a.1 ≤ s.1 := by
  induction as, bs using diffSpans.induct with
  | case1 a as b bs hmissed ih =>
    rw [diffSpans, if_pos hmissed] at h
    exact ih ha (spaced_cons.mp hb).2.2 h
  | case2 a as b bs hmissed hleft hcovered ih =>
    rw [diffSpans, if_neg hmissed, if_pos hleft, if_pos hcovered] at h
    obtain ⟨a', ha', hle⟩ := ih (spaced_cons.mp ha).2.2 hb h
    exact ⟨a', List.mem_cons_of_mem _ ha', hle⟩
  | case3 a as b bs hmissed hleft hcovered ih =>
    rw [diffSpans, if_neg hmissed, if_pos hleft, if_neg hcovered] at h
    obtain ⟨a', ha', hle⟩ := ih (ha.moved (not_le.mp hcovered)) (spaced_cons.mp hb).2.2 h
    rcases List.mem_cons.mp ha' with rfl | ha'
    · exact ⟨a, List.mem_cons_self, (not_le.mp hmissed).le.trans hle⟩
    · exact ⟨a', List.mem_cons_of_mem _ ha', hle⟩
  | case4 a as b bs hmissed hleft hmeets ihl ihr =>
    rw [diffSpans, if_neg hmissed, if_neg hleft, if_pos hmeets] at h
    rcases List.mem_cons.mp h with rfl | h
    · exact ⟨a, List.mem_cons_self, le_rfl⟩
    split at h
    · obtain ⟨a', ha', hle⟩ := ihl (spaced_cons.mp ha).2.2 hb h
      exact ⟨a', List.mem_cons_of_mem _ ha', hle⟩
    · next hcovered =>
        obtain ⟨a', ha', hle⟩ := ihr (ha.moved (not_le.mp hcovered)) (spaced_cons.mp hb).2.2 h
        rcases List.mem_cons.mp ha' with rfl | ha'
        · exact ⟨a, List.mem_cons_self, (not_le.mp hmissed).le.trans hle⟩
        · exact ⟨a', List.mem_cons_of_mem _ ha', hle⟩
  | case5 a as b bs hmissed hleft hmeets ih =>
    rw [diffSpans, if_neg hmissed, if_neg hleft, if_neg hmeets] at h
    rcases List.mem_cons.mp h with rfl | h
    · exact ⟨s, List.mem_cons_self, le_rfl⟩
    · obtain ⟨a', ha', hle⟩ := ih (spaced_cons.mp ha).2.2 hb h
      exact ⟨a', List.mem_cons_of_mem _ ha', hle⟩
  | case6 bs =>
    rw [diffSpans] at h
    exact absurd h List.not_mem_nil
  | case7 a as =>
    rw [diffSpans] at h
    exact ⟨s, h, le_rfl⟩

/-- The part of `A` that is left is `A'`, and `P` does not meet `B`. -/
theorem diff_unions {A A' B P Q : Prop} (hA : A' ↔ A ∧ ¬B) (hP : P → ¬B) :
    (A' ∨ P) ∧ ¬Q ↔ (A ∨ P) ∧ ¬(B ∨ Q) := by
  tauto

/-- The part of `A` that is left is `F`, which does not meet `Q`, and `A'`. -/
theorem diff_unions_split {A A' B F P Q : Prop} (hA : F ∨ A' ↔ A ∧ ¬B) (hF : F → ¬Q) (hP : P → ¬B) :
    F ∨ (A' ∨ P) ∧ ¬Q ↔ (A ∨ P) ∧ ¬(B ∨ Q) := by
  tauto

theorem onRow_diffSpans {as bs : List (ℤ × ℤ)} (ha : Spaced as) (hb : Spaced bs) (x : ℤ) :
    OnRow (diffSpans as bs) x ↔ OnRow as x ∧ ¬ OnRow bs x := by
  induction as, bs using diffSpans.induct with
  | case1 a as b bs hmissed ih =>
    rw [diffSpans, if_pos hmissed, ih ha (spaced_cons.mp hb).2.2]
    refine and_congr_right fun hin => not_congr (Iff.symm (onRow_cons.trans ?_))
    refine or_iff_right fun hinb => ?_
    exact absurd (ha.start_le hin) (not_le.mpr (hinb.2.trans_le hmissed))
  | case2 a as b bs hmissed hleft hcovered ih =>
    rw [diffSpans, if_neg hmissed, if_pos hleft, if_pos hcovered, ih (spaced_cons.mp ha).2.2 hb]
    refine and_congr_left fun hout => Iff.symm (onRow_cons.trans (or_iff_right fun hina => ?_))
    exact hout (onRow_cons.mpr (Or.inl ⟨hleft.trans hina.1, hina.2.trans_le hcovered⟩))
  | case3 a as b bs hmissed hleft hcovered ih =>
    have has : OnRow as x → a.2 < x := ha.lt_of_onRow
    have hrest := ih (ha.moved (not_le.mp hcovered)) (spaced_cons.mp hb).2.2
    rw [onRow_cons] at hrest
    rw [diffSpans, if_neg hmissed, if_pos hleft, if_neg hcovered, hrest, onRow_cons, onRow_cons]
    refine diff_unions ?_ fun hin => ?_
    · dsimp only
      omega
    · have hlt := has hin
      omega
  | case4 a as b bs hmissed hleft hmeets ihl ihr =>
    have has : OnRow as x → a.2 < x := ha.lt_of_onRow
    have hbs : OnRow bs x → b.2 < x := hb.lt_of_onRow
    have hproper : b.1 < b.2 := (spaced_cons.mp hb).1
    rw [diffSpans, if_neg hmissed, if_neg hleft, if_pos hmeets, onRow_cons]
    dsimp only
    split
    · next hcovered =>
        rw [ihl (spaced_cons.mp ha).2.2 hb, onRow_cons, onRow_cons, or_and_right]
        refine or_congr_left ⟨fun hin => ⟨⟨hin.1, hin.2.trans hmeets⟩, ?_⟩, fun hin => ?_⟩
        · rintro (hinb | hinbs)
          · omega
          · have hlt := hbs hinbs
            omega
        · have hout := fun h => hin.2 (Or.inl h)
          omega
    · next hcovered =>
        have hrest := ihr (ha.moved (not_le.mp hcovered)) (spaced_cons.mp hb).2.2
        rw [onRow_cons] at hrest
        rw [hrest, onRow_cons, onRow_cons]
        refine diff_unions_split ?_ (fun hin hinbs => ?_) fun hin => ?_
        · dsimp only
          omega
        · have hlt := hbs hinbs
          omega
        · have hlt := has hin
          omega
  | case5 a as b bs hmissed hleft hmeets ih =>
    have hbs : OnRow bs x → b.2 < x := hb.lt_of_onRow
    have hproper : b.1 < b.2 := (spaced_cons.mp hb).1
    rw [diffSpans, if_neg hmissed, if_neg hleft, if_neg hmeets, onRow_cons,
      ih (spaced_cons.mp ha).2.2 hb, onRow_cons, onRow_cons, or_and_right]
    refine or_congr_left (and_iff_left_of_imp fun hin => ?_).symm
    rintro (hinb | hinbs)
    · omega
    · have hlt := hbs hinbs
      omega
  | case6 bs =>
    rw [diffSpans]
    exact iff_of_false not_onRow_nil fun h => not_onRow_nil h.1
  | case7 a as =>
    rw [diffSpans]
    exact (and_iff_left not_onRow_nil).symm

theorem spaced_diffSpans {as bs : List (ℤ × ℤ)} (ha : Spaced as) (hb : Spaced bs) :
    Spaced (diffSpans as bs) := by
  induction as, bs using diffSpans.induct with
  | case1 a as b bs hmissed ih =>
    rw [diffSpans, if_pos hmissed]
    exact ih ha (spaced_cons.mp hb).2.2
  | case2 a as b bs hmissed hleft hcovered ih =>
    rw [diffSpans, if_neg hmissed, if_pos hleft, if_pos hcovered]
    exact ih (spaced_cons.mp ha).2.2 hb
  | case3 a as b bs hmissed hleft hcovered ih =>
    rw [diffSpans, if_neg hmissed, if_pos hleft, if_neg hcovered]
    exact ih (ha.moved (not_le.mp hcovered)) (spaced_cons.mp hb).2.2
  | case4 a as b bs hmissed hleft hmeets ihl ihr =>
    obtain ⟨-, hafter, has⟩ := spaced_cons.mp ha
    obtain ⟨hproper, -, hbs⟩ := spaced_cons.mp hb
    rw [diffSpans, if_neg hmissed, if_neg hleft, if_pos hmeets]
    refine spaced_cons.mpr ⟨not_le.mp hleft, fun s hs => ?_, ?_⟩
    · show b.1 < s.1
      split at hs
      · obtain ⟨a', ha', hle⟩ := mem_diffSpans has hb hs
        exact (hmeets.trans (hafter a' ha')).trans_le hle
      · next hcovered =>
          obtain ⟨a', ha', hle⟩ := mem_diffSpans (ha.moved (not_le.mp hcovered)) hbs hs
          rcases List.mem_cons.mp ha' with rfl | ha'
          · exact hproper.trans_le hle
          · exact (hmeets.trans (hafter a' ha')).trans_le hle
    · split
      · exact ihl has hb
      · next hcovered => exact ihr (ha.moved (not_le.mp hcovered)) hbs
  | case5 a as b bs hmissed hleft hmeets ih =>
    obtain ⟨hproper, hafter, has⟩ := spaced_cons.mp ha
    rw [diffSpans, if_neg hmissed, if_neg hleft, if_neg hmeets]
    refine spaced_cons.mpr ⟨hproper, fun s hs => ?_, ih has hb⟩
    obtain ⟨a', ha', hle⟩ := mem_diffSpans has hb hs
    exact (hafter a' ha').trans_le hle
  | case6 bs =>
    rw [diffSpans]
    exact spaced_nil
  | case7 a as =>
    rw [diffSpans]
    exact ha

theorem interSpans_self {as : List (ℤ × ℤ)} (h : Spaced as) : interSpans as as = as :=
  (spaced_interSpans h h).ext h fun x => by rw [onRow_interSpans h h, and_self]

theorem diffSpans_self {as : List (ℤ × ℤ)} (h : Spaced as) : diffSpans as as = [] :=
  (spaced_diffSpans h h).ext spaced_nil fun x => by
    rw [onRow_diffSpans h h, and_not_self_iff]
    exact iff_of_false id not_onRow_nil

end KasmVNC.Lib
