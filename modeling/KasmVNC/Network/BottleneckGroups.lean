import KasmVNC.Network.BottleneckStats
import Mathlib.Data.List.Perm.Subperm

/-!
# Which users the bottleneck statistics are under

The ids that begin with a user and an `@` stand together, so no user is opened twice. A connection
can stand under a longer user, or a shorter one, only if a user is begun by the id before that of
another user.
-/

namespace KasmVNC.Network

open KasmVNC.Lib
open UserConnection

variable {cs : List UserConnection} {value : UserConnection → Json}

/-! ## Order -/

/-- The order of the ids. -/
abbrev UserConnection.Before (p c : UserConnection) : Prop := p.id < c.id

instance : Std.Asymm UserConnection.Before := ⟨fun _ _ => List.lt_asymm⟩

theorem BottleneckStats.pairwise_connections (stats : BottleneckStats) :
    stats.connections.Pairwise Before := by
  refine List.Pairwise.filterMap userConnection ?_ stats.sorted
  intro e f hlt c hc d hd
  rw [Before, ← (of_userConnection hc).2.1, ← (of_userConnection hd).2.1]
  exact hlt

/-- The id begins with this user and the sign behind it. -/
def UserConnection.Extends (z x : UserConnection) : Prop := z.user ++ [atSign] <+: x.id

theorem UserConnection.Extends.of_user_eq {z x : UserConnection} (h : x.user = z.user) :
    z.Extends x := by
  rw [Extends, ← h, UserConnection.id]
  exact (List.prefix_append_right_inj _).mpr (List.cons_prefix_cons.mpr ⟨rfl, List.nil_prefix⟩)

theorem UserConnection.Extends.sameUser {z x : UserConnection} (h : z.Extends x) : SameUser x z :=
  (List.prefix_append _ _).trans h

/-- The user of an id that extends another user begins with that user. -/
theorem UserConnection.Extends.prefix_user {z x : UserConnection} (h : z.Extends x) :
    z.user <+: x.user := by
  rw [Extends, UserConnection.id] at h
  rcases List.prefix_or_prefix_of_prefix ((List.prefix_append _ _).trans h)
    (List.prefix_append x.user _) with hz | ⟨v, hv⟩
  · exact hz
  · cases v with
    | nil => exact hv ▸ (List.append_nil x.user).symm ▸ List.prefix_rfl
    | cons b v =>
      rw [← hv, List.append_assoc, List.prefix_append_right_inj, List.cons_append,
        List.cons_prefix_cons] at h
      exact absurd (h.2.subset (List.mem_append_right v (List.mem_singleton_self _))) x.no_at

theorem UserConnection.Extends.between {x y z w : UserConnection} (hxy : Before x y)
    (hyz : Before y z) (hx : w.Extends x) (hz : w.Extends z) : w.Extends y :=
  prefix_of_between hxy hyz hx hz

/-! ## The users of the runs -/

/-- The connections with the user that they are printed under. -/
def placed (cs : List UserConnection) : List (List Byte × UserConnection) :=
  (runs cs).flatMap fun g => g.map fun d => (runUser g, d)

theorem members_runGroups : (runGroups value cs).members =
    (placed cs).map fun p => (p.1, p.2.member value) := by
  rw [UserGroups.members, runGroups, placed, List.flatMap_map, List.map_flatMap]
  refine List.flatMap_congr fun g _ => ?_
  rw [runGroup, List.map_map, List.map_map]
  rfl

theorem map_snd_placed (cs : List UserConnection) : (placed cs).map Prod.snd = cs := by
  rw [placed, List.map_flatMap]
  simp only [List.map_map, Function.comp_def, List.map_id']
  rw [List.flatMap_id']
  exact List.flatten_splitBy _ cs

theorem mem_placed {k : List Byte} {d : UserConnection} (h : (k, d) ∈ placed cs) :
    ∃ g ∈ runs cs, d ∈ g ∧ runUser g = k := by
  obtain ⟨g, hg, hmem⟩ := List.mem_flatMap.mp h
  obtain ⟨d', hd, heq⟩ := List.mem_map.mp hmem
  cases heq
  exact ⟨g, hg, hd, rfl⟩

/-- The runs begin with connections. -/
theorem exists_cons_of_mem_runs {g : List UserConnection} (h : g ∈ runs cs) :
    ∃ c m, g = c :: m ∧ c ∈ cs := by
  cases g with
  | nil => exact absurd rfl (List.ne_nil_of_mem_splitBy h)
  | cons c m =>
    refine ⟨c, m, rfl, ?_⟩
    rw [← List.flatten_splitBy (fun p c => decide (SameUser p c)) cs]
    exact List.mem_flatten_of_mem h List.mem_cons_self

theorem users_runGroups (value : UserConnection → Json) (cs : List UserConnection) :
    (runGroups value cs).users = (runs cs).map runUser := by
  rw [UserGroups.users, runGroups, List.map_map]
  rfl

section Sorted

variable (hsorted : cs.Pairwise Before)
include hsorted

/-- No id before the first one of a run extends its user. -/
theorem not_extends_of_before {x : UserConnection} {m : List UserConnection}
    (hx : x :: m ∈ runs cs) {p : UserConnection} (hp : p ∈ cs) (hlt : Before p x) :
    ¬x.Extends p := by
  refine not_belongs_of_lt hsorted ?_ ?_ hx hp hlt
  · exact fun hxy hyz h => h.between hxy hyz (Extends.of_user_eq rfl)
  · exact fun h => decide_eq_true h.sameUser

theorem nodup_runUsers : ((runs cs).map runUser).Nodup := by
  rw [List.Nodup, List.pairwise_map]
  have hflat := hsorted
  rw [← List.flatten_splitBy (fun p c => decide (SameUser p c)) cs, List.pairwise_flatten] at hflat
  refine List.Pairwise.imp_of_mem ?_ hflat.2
  intro g h hg hh hlt heq
  obtain ⟨x, m, rfl, hx⟩ := exists_cons_of_mem_runs hg
  obtain ⟨y, n, rfl, -⟩ := exists_cons_of_mem_runs hh
  exact not_extends_of_before hsorted hh hx (hlt x List.mem_cons_self y List.mem_cons_self)
    (Extends.of_user_eq heq)

/-- If all users are opened, a connection stands under a user that begins with its own. -/
theorem prefix_of_placed (hopened : ∀ c ∈ cs, c.user ∈ (runs cs).map runUser) {k : List Byte}
    {d : UserConnection} (h : (k, d) ∈ placed cs) : d.user <+: k := by
  obtain ⟨g, hg, hd, rfl⟩ := mem_placed h
  obtain ⟨o, m, rfl, -⟩ := exists_cons_of_mem_runs hg
  have hdcs : d ∈ cs := by
    rw [← List.flatten_splitBy (fun p c => decide (SameUser p c)) cs]
    exact List.mem_flatten_of_mem hg hd
  obtain ⟨u, hu, huser⟩ := List.mem_map.mp (hopened d hdcs)
  obtain ⟨x, n, rfl, -⟩ := exists_cons_of_mem_runs hu
  have huser : x.user = d.user := huser
  rcases runs_trichotomy hsorted hg hu with heq | hbefore | hbehind
  · obtain rfl := (List.cons.inj heq).1
    exact huser ▸ List.prefix_rfl
  · -- The run that the user opens would come behind an id of that user.
    exact absurd (Extends.of_user_eq huser.symm) (not_extends_of_before hsorted hu hdcs
      (hbefore d hd x List.mem_cons_self))
  · rcases List.mem_cons.mp hd with rfl | hmem
    · exact List.prefix_rfl
    · -- The first id of the run stands between two that extend the user.
      have hrun : (o :: m).Pairwise Before := by
        have hflat := hsorted
        rw [← List.flatten_splitBy (fun p c => decide (SameUser p c)) cs,
          List.pairwise_flatten] at hflat
        exact hflat.1 _ hg
      exact Extends.prefix_user (Extends.between (hbehind x List.mem_cons_self o List.mem_cons_self)
        (List.rel_of_pairwise_cons hrun hmem) (Extends.of_user_eq huser) (Extends.of_user_eq rfl))

end Sorted

/-! ## Own users -/

/-- A run has one user if each neighbour has that of the one before. -/
theorem user_eq_of_chain {c : UserConnection} {m : List UserConnection}
    (hsame : (c :: m).IsChain SameUser) (hapart : (c :: m).IsChain Apart) :
    ∀ d ∈ c :: m, d.user = c.user := by
  induction m generalizing c with
  | nil =>
    intro d hd
    rw [List.mem_singleton.mp hd]
  | cons e m ih =>
    rw [List.isChain_cons_cons] at hsame hapart
    have huser := hapart.1 hsame.1
    have ih := ih hsame.2 hapart.2
    intro d hd
    rcases List.mem_cons.mp hd with rfl | hmem
    · rfl
    · exact (ih d hmem).trans huser

/-- All stand under their own users exactly if no user is begun by another one's id. -/
theorem placed_iff_apart : (∀ p ∈ placed cs, p.1 = p.2.user) ↔ cs.IsChain Apart := by
  have hflat := List.flatten_splitBy (fun p c => decide (SameUser p c)) cs
  have hnil := List.nil_notMem_splitBy (fun p c => decide (SameUser p c)) cs
  constructor
  · intro hplaced
    rw [← hflat, List.isChain_flatten hnil]
    constructor
    · intro g hg
      have huser : ∀ d ∈ g, d.user = runUser g := fun d hd =>
        (hplaced (runUser g, d) (List.mem_flatMap.mpr ⟨g, hg, List.mem_map_of_mem hd⟩)).symm
      have hpair : g.Pairwise Apart := by
        refine List.pairwise_of_forall_mem_list ?_
        intro p hp c hc _
        rw [huser c hc, huser p hp]
      exact hpair.isChain
    · refine (List.isChain_getLast_head_splitBy (fun p c => decide (SameUser p c)) cs).imp ?_
      rintro g h ⟨hg, hh, hnot⟩ x hx y hy hsame
      rw [List.getLast_of_mem_getLast? hx, List.head_of_mem_head? hy] at hnot
      exact absurd hsame (of_decide_eq_false hnot)
  · rintro hapart ⟨k, d⟩ hp
    obtain ⟨g, hg, hd, rfl⟩ := mem_placed hp
    rw [← hflat, List.isChain_flatten hnil] at hapart
    obtain ⟨c, m, rfl, -⟩ := exists_cons_of_mem_runs hg
    have hsame : (c :: m).IsChain SameUser := by
      refine (List.isChain_of_mem_splitBy hg).imp ?_
      exact fun _ _ h => of_decide_eq_true h
    exact (user_eq_of_chain hsame (hapart.1 _ hg) d hd).symm

/-- The users that connections stand under are their own if they begin with them, and are as long
in all. -/
theorem placed_eq_of_sum (hbegins : ∀ p ∈ placed cs, p.2.user <+: p.1)
    (hsum : ((placed cs).map fun p => p.1.length).sum = (cs.map fun c => c.user.length).sum) :
    ∀ p ∈ placed cs, p.1 = p.2.user := by
  intro p hp
  refine ((hbegins p hp).eq_of_length_le ?_).symm
  refine Json.le_of_sum_le (fun p hp => (hbegins p hp).length_le) ?_ p hp
  rw [hsum]
  nth_rewrite 1 [← map_snd_placed cs]
  rw [List.map_map]
  exact Nat.le_refl _

/-! ## Backslashes -/

abbrev backslashes (s : List Byte) : ℕ := s.count 0x5C

theorem backslashes_text (s : Statistics) : backslashes s.text = 0 := by
  have hword : ∀ b : Byte, Json.wordByte b → b ≠ 0x5C := by decide
  have hzero : ∀ w : Printed, backslashes w.1 = 0 := fun w =>
    List.count_eq_zero.mpr fun hmem => hword _ (w.2.2 _ hmem) rfl
  have hconst : backslashes (ascii "[ ") = 0 ∧ backslashes (ascii ", ") = 0 ∧
      backslashes (ascii " ]") = 0 := by
    decide
  simp only [Statistics.text, backslashes, List.count_append] at hzero hconst ⊢
  simp only [hzero, hconst]

theorem backslashes_line (c : UserConnection) : backslashes c.line = backslashes c.host := by
  have hconst : backslashes (ascii "\t\t\"") = 0 ∧ backslashes (ascii "\": ") = 0 := by decide
  have hdata := backslashes_text c.statistics
  simp only [line, hostLine, backslashes, List.count_append] at hconst hdata ⊢
  simp only [hconst, hdata, Nat.zero_add, Nat.add_zero]

/-- The backslashes of all hosts. -/
def hostBackslashes (cs : List UserConnection) : ℕ := (cs.map fun c => backslashes c.host).sum

theorem backslashes_groupText {g : List UserConnection} (hg : g ∈ runs cs) :
    backslashes (groupText g) = backslashes (runUser g) + hostBackslashes g := by
  obtain ⟨c, m, rfl, -⟩ := exists_cons_of_mem_runs hg
  have hconst : backslashes (ascii "\t\"") = 0 ∧ backslashes (ascii "\": \x7b\n") = 0 ∧
      backslashes (ascii "\n\t\x7d") = 0 ∧ backslashes (ascii ",\n") = 0 := by
    decide
  have hline := backslashes_line
  simp only [backslashes] at hconst hline
  simp only [groupText, runText, userKey, backslashes, List.count_append, List.count_flatMap,
    Function.comp_def, hconst, hline, runUser, hostBackslashes, List.map_cons, List.sum_cons,
    Nat.zero_add, Nat.add_zero]

theorem sum_hostBackslashes_runs (cs : List UserConnection) :
    ((runs cs).map hostBackslashes).sum = hostBackslashes cs := by
  have hflat := List.flatten_splitBy (fun p c => decide (SameUser p c)) cs
  conv_rhs => rw [hostBackslashes, ← hflat, List.map_flatten, List.sum_flatten, List.map_map]
  rfl

theorem backslashes_printStats {stats : BottleneckStats} (hne : stats.connections ≠ []) :
    backslashes (printStats stats) =
      ((runs stats.connections).map fun g => backslashes (runUser g)).sum +
        hostBackslashes stats.connections := by
  have hconst : backslashes (ascii "\x7b\n") = 0 ∧ backslashes (ascii ",\n") = 0 ∧
      backslashes (ascii "\n\x7d\n") = 0 := by
    decide
  rw [← sum_hostBackslashes_runs, ← List.sum_map_add]
  have hgroup : ((runs stats.connections).map fun g => backslashes (groupText g)) =
      (runs stats.connections).map fun g => backslashes (runUser g) + hostBackslashes g :=
    List.map_congr_left fun g hg => backslashes_groupText hg
  rw [← hgroup]
  cases hruns : runs stats.connections with
  | nil => exact absurd (List.splitBy_eq_nil.mp hruns) hne
  | cons g gs =>
    rw [printStats_eq hruns]
    simp only [backslashes] at hconst
    simp only [backslashes, List.count_append, List.count_flatMap, Function.comp_def, hconst,
      List.map_cons, List.sum_cons, Nat.zero_add, Nat.add_zero]

/-- What the users and the hosts of the groups take. -/
theorem weight_json (groups : UserGroups) :
    (groups.users.map fun u => Json.stringWeight (Json.bytes u)).sum +
        (groups.members.map fun m => Json.stringWeight (Json.bytes m.2.1)).sum ≤
      Json.tokensWeight groups.json.written := by
  rw [UserGroups.json, Json.tokensWeight_obj, List.map_map, UserGroups.users, UserGroups.members,
    List.map_map, List.map_flatMap]
  induction groups with
  | nil => exact Nat.le_refl _
  | cons g groups ih =>
    have hobject : (g.2.map fun m => Json.stringWeight (Json.bytes m.1)).sum ≤
        Json.tokensWeight (Json.obj (g.2.map fun m => (Json.bytes m.1, m.2))).written := by
      rw [Json.tokensWeight_obj, List.map_map]
      exact List.sum_le_sum fun m _ => Nat.le_add_right _ _
    have hhere : ((g.2.map fun m => (g.1, m)).map fun m =>
        Json.stringWeight (Json.bytes m.2.1)) =
          g.2.map fun m => Json.stringWeight (Json.bytes m.1) := by
      rw [List.map_map]
      rfl
    simp only [List.map_cons, List.sum_cons, List.flatMap_cons, List.sum_append,
      Function.comp_apply, hhere]
    omega

/-! ## What a report tells -/

section Reports

variable {stats : BottleneckStats} {out : List Byte}

theorem map_reported {reported : List (List Byte × List Byte × Json)} {β : Type*}
    (h : List.Forall₂ ReportedAs cs reported) (f : List Byte → List Byte → β) :
    (cs.map fun c => f c.user c.host) = reported.map fun m => f m.1 m.2.1 := by
  rw [← List.forall₂_eq_eq_eq, List.forall₂_map_left_iff, List.forall₂_map_right_iff]
  refine h.imp ?_
  rintro c m ⟨huser, hhost, -⟩
  rw [huser, hhost]

/-- A text with no more backslashes than the printed one says something about the connections only
if nothing has to be escaped. -/
theorem plain_of_reports (hout : backslashes out ≤ backslashes (printStats stats))
    (h : Reports stats.connections out) : ∀ c ∈ stats.connections, c.Plain := by
  obtain ⟨groups, hdenotes, hnodup, husers, reported, hreported, hperm⟩ := h
  rcases eq_or_ne stats.connections [] with hnil | hne
  · rw [hnil]
    exact fun c hc => absurd hc List.not_mem_nil
  have htaken := (weight_json groups).trans (hdenotes.weight_le.trans hout)
  rw [backslashes_printStats hne] at htaken
  have hhosts : (groups.members.map fun m => Json.stringWeight (Json.bytes m.2.1)).sum =
      (stats.connections.map fun c => Json.stringWeight (Json.bytes c.host)).sum := by
    rw [map_reported hreported fun _ host => Json.stringWeight (Json.bytes host)]
    exact (hperm.map _).sum_eq
  have hrunUsers : ((runs stats.connections).map fun g => backslashes (runUser g)).sum ≤
      (groups.users.map backslashes).sum := by
    have hsub : (runs stats.connections).map runUser ⊆ groups.users := by
      intro user huser
      obtain ⟨g, hg, rfl⟩ := List.mem_map.mp huser
      obtain ⟨c, m, rfl, hc⟩ := exists_cons_of_mem_runs hg
      exact (husers _).mpr ⟨c, hc, rfl⟩
    obtain ⟨l, hl, hsublist⟩ := (nodup_runUsers stats.pairwise_connections).subperm hsub
    have hsum := (hl.map backslashes).sum_eq
    rw [List.map_map] at hsum
    exact hsum.symm.le.trans ((hsublist.map _).sum_le_sum fun _ _ => Nat.zero_le _)
  have huserLe : (groups.users.map backslashes).sum ≤
      (groups.users.map fun u => Json.stringWeight (Json.bytes u)).sum :=
    List.sum_le_sum fun u _ => Json.count_le_stringWeight u
  have hhostLe : hostBackslashes stats.connections ≤
      (stats.connections.map fun c => Json.stringWeight (Json.bytes c.host)).sum :=
    List.sum_le_sum fun c _ => Json.count_le_stringWeight c.host
  intro c hc b hb
  rcases List.mem_append.mp hb with hmem | hmem
  · refine Json.plain_of_stringWeight_le ?_ b hmem
    refine Json.le_of_sum_le (f := backslashes) (fun u _ => Json.count_le_stringWeight u) ?_ c.user
      ((husers _).mpr ⟨c, hc, rfl⟩)
    omega
  · refine Json.plain_of_stringWeight_le ?_ b hmem
    refine Json.le_of_sum_le (f := fun c => backslashes c.host)
      (g := fun c => Json.stringWeight (Json.bytes c.host))
      (fun c _ => Json.count_le_stringWeight c.host) ?_ c hc
    rw [hostBackslashes] at htaken hhostLe
    omega

theorem numbers_of_reports (h : Reports stats.connections out) :
    ∀ c ∈ stats.connections, c.statistics.Numbers := by
  obtain ⟨-, -, -, -, reported, hreported, -⟩ := h
  generalize stats.connections = cs at hreported
  induction hreported with
  | nil => exact fun c hc => absurd hc List.not_mem_nil
  | cons hfirst _ ih =>
    rw [List.forall_mem_cons]
    exact ⟨Statistics.exists_denotes_iff.mp ⟨_, hfirst.2.2⟩, ih⟩

theorem exists_value (h : ∀ c ∈ cs, c.statistics.Numbers) :
    ∃ value : UserConnection → Json, ∀ c ∈ cs, Json.Denotes c.statistics.text (value c) := by
  have hall : ∀ c : UserConnection, ∃ v, c ∈ cs → Json.Denotes c.statistics.text v := by
    intro c
    by_cases hc : c ∈ cs
    · obtain ⟨v, hv⟩ := Statistics.exists_denotes_iff.mpr (h c hc)
      exact ⟨v, fun _ => hv⟩
    · exact ⟨Json.true_, fun hmem => absurd hmem hc⟩
  choose value hvalue using hall
  exact ⟨value, hvalue⟩

theorem UserGroups.json_injective {g h : UserGroups} (heq : g.json = h.json) : g = h := by
  rw [UserGroups.json, UserGroups.json, Json.obj.injEq] at heq
  refine List.map_injective_iff.mpr ?_ heq
  rintro ⟨u, ms⟩ ⟨v, ns⟩ hgroup
  rw [Prod.mk.injEq, Json.obj.injEq] at hgroup
  have hmembers : ms = ns := by
    refine List.map_injective_iff.mpr ?_ hgroup.2
    rintro ⟨s, x⟩ ⟨t, y⟩ hmember
    rw [Prod.mk.injEq] at hmember
    exact Prod.ext (bytes_injective hmember.1) hmember.2
  exact Prod.ext (bytes_injective hgroup.1) hmembers

/-- The runs are a report only if all connections stand under their own users. -/
theorem apart_of_reports
    (hdenotes : Json.Denotes out (runGroups value stats.connections).json)
    (h : Reports stats.connections out) : stats.connections.IsChain Apart := by
  obtain ⟨groups, hgroups, -, husers, reported, hreported, hperm⟩ := h
  obtain rfl := UserGroups.json_injective (hgroups.unique hdenotes)
  rw [← placed_iff_apart]
  refine placed_eq_of_sum ?_ ?_
  · rintro ⟨k, d⟩ hp
    refine prefix_of_placed stats.pairwise_connections (fun c hc => ?_) hp
    rw [← users_runGroups value]
    exact (husers c.user).mpr ⟨c, hc, rfl⟩
  · have hlengths := (hperm.map fun m => m.1.length).sum_eq
    rw [map_reported hreported fun user _ => user.length, ← hlengths, members_runGroups,
      List.map_map]
    rfl

/-- If they do, the runs are a report. -/
theorem reports_of_apart
    (hvalue : ∀ c ∈ stats.connections, Json.Denotes c.statistics.text (value c))
    (hdenotes : Json.Denotes out (runGroups value stats.connections).json)
    (h : stats.connections.IsChain Apart) : Reports stats.connections out := by
  have hown := placed_iff_apart.mpr h
  have hmembers : (runGroups value stats.connections).members =
      stats.connections.map fun c => (c.user, c.member value) := by
    rw [members_runGroups]
    nth_rewrite 2 [← map_snd_placed stats.connections]
    rw [List.map_map]
    refine List.map_congr_left fun p hp => ?_
    rw [hown p hp]
    rfl
  refine ⟨_, hdenotes, ?_, fun user => ?_, _, ?_, List.Perm.of_eq hmembers⟩
  · rw [users_runGroups]
    exact nodup_runUsers stats.pairwise_connections
  · rw [users_runGroups]
    constructor
    · intro huser
      obtain ⟨g, hg, rfl⟩ := List.mem_map.mp huser
      obtain ⟨c, m, rfl, hc⟩ := exists_cons_of_mem_runs hg
      exact ⟨c, hc, rfl⟩
    · rintro ⟨c, hc, rfl⟩
      rw [← map_snd_placed stats.connections] at hc
      obtain ⟨⟨k, d⟩, hp, rfl⟩ := List.mem_map.mp hc
      obtain ⟨g, hg, -, hk⟩ := mem_placed hp
      rw [← hown _ hp, ← hk]
      exact List.mem_map_of_mem hg
  · rw [List.forall₂_map_right_iff, List.forall₂_same]
    exact fun c hc => ⟨rfl, rfl, hvalue c hc⟩

end Reports

/-! ## The condition -/

section Condition

variable {stats : BottleneckStats} {len : ℕ}

theorem backslashes_fmemopenText_le (text : List Byte) :
    backslashes (fmemopenText len text) ≤ backslashes text :=
  (List.take_sublist _ _).count_le _

theorem not_denotes_nil (groups : UserGroups) : ¬Json.Denotes [] groups.json := by
  rw [Json.Denotes, written_json]
  exact fun h => List.cons_ne_nil _ _ (Option.some.inj h).symm

theorem reportable_of_reports (h : Reports stats.connections (netGetBottleneckStats stats len)) :
    Reportable stats len := by
  obtain ⟨groups, hgroups, -⟩ := id h
  have hestimate : stats.entries.length * 60 ≤ len := by
    by_contra hsmall
    rw [netGetBottleneckStats, if_pos (Nat.lt_of_not_le hsmall)] at hgroups
    exact not_denotes_nil groups hgroups
  rw [netGetBottleneckStats, if_neg (Nat.not_lt.mpr hestimate)] at h hgroups
  obtain ⟨t, ht⟩ := printStats_end stats
  have huser : stats.entries = [] ∨ stats.connections ≠ [] := by
    by_contra hnot
    rw [not_or, not_not] at hnot
    -- The text without a user is shorter than the estimate for one id.
    have hfits : (printStats stats).length ≤ len := by
      have hids := printIds_eq none stats.entries
      rw [Option.map_none, ← BottleneckStats.connections, hnot.2, printConnections] at hids
      have hpos := List.length_pos_iff.mpr hnot.1
      have hlength : (printStats stats).length = 8 := by
        rw [printStats, hids, if_neg hpos.ne']
        decide
      omega
    rw [denotes_fmemopenText_iff ht hfits] at hgroups
    exact not_denotes_printStats hnot.1 hnot.2 groups hgroups
  have hplain := plain_of_reports (backslashes_fmemopenText_le _) h
  have hnumbers := numbers_of_reports h
  obtain ⟨value, hvalue⟩ := exists_value hnumbers
  have hdenotes := denotes_printStats huser hplain hvalue
  have hfits := length_le_of_denotes ht hdenotes hgroups
  have hapart := apart_of_reports ((denotes_fmemopenText_iff ht hfits).mpr hdenotes) h
  rw [length_printStats huser hapart] at hfits
  exact ⟨huser, hestimate, hfits, hapart, hplain, hnumbers⟩

theorem reports_of_reportable (h : Reportable stats len) :
    Reports stats.connections (netGetBottleneckStats stats len) := by
  obtain ⟨huser, hestimate, hfits, hapart, hplain, hnumbers⟩ := h
  obtain ⟨value, hvalue⟩ := exists_value hnumbers
  obtain ⟨t, ht⟩ := printStats_end stats
  rw [← length_printStats huser hapart] at hfits
  rw [netGetBottleneckStats, if_neg (Nat.not_lt.mpr hestimate)]
  exact reports_of_apart hvalue
    ((denotes_fmemopenText_iff ht hfits).mpr (denotes_printStats huser hplain hvalue)) hapart

end Condition

/-- **Bottleneck statistics.** Every user is a key once and every connection stands once, under its
own user, exactly if some id has a user, the text fits, nothing in it has to be escaped, all
statistics are numbers, and no user is begun by the id before that is one of another user. -/
theorem bottleneck_stats_iff (stats : BottleneckStats) (len : ℕ) :
    Reports stats.connections (netGetBottleneckStats stats len) ↔ Reportable stats len :=
  ⟨reportable_of_reports, reports_of_reportable⟩

/-- Two users, one of which begins the other. -/
def bobAndBob2 : BottleneckStats where
  entries :=
    let ten : Printed := ⟨ascii "10.0", by decide, by decide⟩
    [(⟨⟨ascii "bob2@h", by decide⟩, by decide⟩, ⟨ten, ten, ten, ten⟩),
      (⟨⟨ascii "bob@h", by decide⟩, by decide⟩, ⟨ten, ten, ten, ten⟩)]
  sorted := by decide

/-- The connection of `bob` stands under `bob2`, although there is room for the text. -/
theorem bottleneck_stats_bob :
    ¬Reports bobAndBob2.connections (netGetBottleneckStats bobAndBob2 4096) := by
  intro h
  have hapart := (reportable_of_reports h).apart
  have hpair := List.isChain_cons_cons.mp hapart
  exact absurd (hpair.1 ⟨ascii "2@h", rfl⟩) (by decide)

end KasmVNC.Network
