import KasmVNC.Lib.Runs
import KasmVNC.Network.PeerName
import KasmVNC.Network.UserList

/-!
# Bottleneck statistics

`netGetBottleneckStats` prints the statistics of all connections as an object for each user. It
goes through the ids in their order, and puts a connection into the object that is open if the id
before begins with the bytes of the user. Ids without an `@` are passed over.
-/

namespace KasmVNC.Network

open KasmVNC.Lib

/-! ## The map -/

/-- What `%.1f` prints, which may be `nan`. -/
abbrev Printed := {w : List Byte // w ≠ [] ∧ ∀ b ∈ w, Json.wordByte b}

/-- What `sendStats` has calculated. -/
structure Statistics where
  cpu_recent : Printed
  cpu_total : Printed
  net_recent : Printed
  net_total : Printed

/-- `"[ %.1f, %.1f, %.1f, %.1f ]"` -/
def Statistics.text (s : Statistics) : List Byte :=
  ascii "[ " ++ (s.cpu_recent.1 ++ (ascii ", " ++ (s.cpu_total.1 ++ (ascii ", " ++
    (s.net_recent.1 ++ (ascii ", " ++ (s.net_total.1 ++ ascii " ]")))))))

/-- An endpoint comes out of a buffer whose size is an `int`. -/
structure UserId where
  name : CString
  length_lt : name.bytes.length < 2 ^ 31

/-- The map from `userid` to `stats`, in the order of `std::string`. -/
structure BottleneckStats where
  entries : List (UserId × Statistics)
  sorted : entries.Pairwise fun e f => e.1.name.bytes < f.1.name.bytes

/-! ## Printing -/

/-- `"\t\t\"%s\": %s"` -/
def hostLine (host data : List Byte) : List Byte :=
  ascii "\t\t\"" ++ (host ++ (ascii "\": " ++ data))

/-- `"\t\"%.*s\": \x7b\n"` -/
def userKey (user : List Byte) : List Byte := ascii "\t\"" ++ (user ++ ascii "\": \x7b\n")

/-- What is printed for one id. -/
def printId (prev : Option (List Byte)) (id : List Byte) (userlen : ℕ) (host data : List Byte) :
    List Byte :=
  match prev with
  | some p =>
    if p.take userlen = id.take userlen then ascii ",\n" ++ hostLine host data
    else ascii "\n\t\x7d,\n" ++ (userKey (id.take userlen) ++ hostLine host data)
  | none => userKey (id.take userlen) ++ hostLine host data

/-- The loop. `userlen` is an `unsigned`. -/
def printIds : Option (List Byte) → List (UserId × Statistics) → List Byte
  | _, [] => []
  | prev, (id, data) :: rest =>
    match cutLast atSign id.name.bytes with
    | none => printIds prev rest
    | some (user, host) =>
      printId prev id.name.bytes (user.length % 2 ^ 32) host data.text ++
        printIds (some id.name.bytes) rest

def printStats (stats : BottleneckStats) : List Byte :=
  ascii "\x7b\n" ++ (printIds none stats.entries ++
    if stats.entries.length = 0 then ascii "\x7d\n" else ascii "\n\t\x7d\n\x7d\n")

/-- The text in a buffer of `len` bytes. -/
def netGetBottleneckStats (stats : BottleneckStats) (len : ℕ) : List Byte :=
  if len < stats.entries.length * 60 then [] else fmemopenText len (printStats stats)

/-! ## What is meant -/

/-- A connection of a user. -/
structure UserConnection where
  user : List Byte
  host : List Byte
  no_at : atSign ∉ host
  statistics : Statistics

def UserConnection.id (c : UserConnection) : List Byte := c.user ++ atSign :: c.host

/-- The id is one of a user. -/
def userConnection (e : UserId × Statistics) : Option UserConnection :=
  (cutLast atSign e.1.name.bytes).pmap (fun p h => ⟨p.1, p.2, h, e.2⟩)
    fun _ hp => (of_cutLast_eq_some hp).2

def BottleneckStats.connections (stats : BottleneckStats) : List UserConnection :=
  stats.entries.filterMap userConnection

/-- Hosts and what stands for their statistics, for each user. -/
abbrev UserGroups := List (List Byte × List (List Byte × Json))

def UserGroups.json (groups : UserGroups) : Json :=
  .obj (groups.map fun g => (Json.bytes g.1, .obj (g.2.map fun m => (Json.bytes m.1, m.2))))

def UserGroups.users (groups : UserGroups) : List (List Byte) := groups.map Prod.fst

/-- User, host and value, one after the other. -/
def UserGroups.members (groups : UserGroups) : List (List Byte × List Byte × Json) :=
  groups.flatMap fun g => g.2.map fun m => (g.1, m)

/-- A connection under its user, with its statistics. -/
def UserConnection.ReportedAs (c : UserConnection) (m : List Byte × List Byte × Json) : Prop :=
  m.1 = c.user ∧ m.2.1 = c.host ∧ Json.Denotes c.statistics.text m.2.2

/-- Each user is a key once, and the connections are reported once each. -/
def Reports (connections : List UserConnection) (out : List Byte) : Prop :=
  ∃ groups : UserGroups, Json.Denotes out groups.json ∧ groups.users.Nodup ∧
    (∀ user, user ∈ groups.users ↔ ∃ c ∈ connections, c.user = user) ∧
      ∃ reported, List.Forall₂ UserConnection.ReportedAs connections reported ∧
        groups.members.Perm reported

/-! ## When it is so -/

/-- None of the numbers is `nan` or infinite. -/
def Statistics.Numbers (s : Statistics) : Prop :=
  Json.IsLiteral s.cpu_recent.1 ∧ Json.IsLiteral s.cpu_total.1 ∧ Json.IsLiteral s.net_recent.1 ∧
    Json.IsLiteral s.net_total.1

def Statistics.length (s : Statistics) : ℕ :=
  10 + s.cpu_recent.1.length + s.cpu_total.1.length + s.net_recent.1.length +
    s.net_total.1.length

def UserConnection.lineLength (c : UserConnection) : ℕ := 6 + c.host.length + c.statistics.length

/-- The lines behind that of a connection. -/
def linesLength : UserConnection → List UserConnection → ℕ
  | _, [] => 0
  | p, c :: cs => (if c.user = p.user then 2 else 12 + c.user.length) + c.lineLength +
      linesLength c cs

/-- All of it. -/
def statsLength : List UserConnection → ℕ
  | [] => 4
  | c :: cs => 15 + c.user.length + c.lineLength + linesLength c cs

structure Reportable (stats : BottleneckStats) (len : ℕ) : Prop where
  has_user : stats.entries = [] ∨ stats.connections ≠ []
  estimate : stats.entries.length * 60 ≤ len
  fits : statsLength stats.connections ≤ len
  /-- The id before begins with a user only if it is one of that user. -/
  apart : stats.connections.IsChain fun p c => c.user <+: p.id → c.user = p.user
  plain : ∀ c ∈ stats.connections, ∀ b ∈ c.user ++ c.host, Json.Plain b
  numbers : ∀ c ∈ stats.connections, c.statistics.Numbers

/-! ## The connections in order -/

namespace UserConnection

/-- The length of its user. -/
theorem take_id (c : UserConnection) : c.id.take c.user.length = c.user := by
  rw [UserConnection.id, List.take_left]

def line (c : UserConnection) : List Byte := hostLine c.host c.statistics.text

/-- What `strncmp` finds. -/
abbrev SameUser (p c : UserConnection) : Prop := c.user <+: p.id

theorem sameUser_iff {p c : UserConnection} :
    p.id.take c.user.length = c.user ↔ SameUser p c := by
  rw [eq_comm]
  exact List.prefix_iff_eq_take.symm

end UserConnection

open UserConnection

/-- The connection of an entry has its id. -/
theorem of_userConnection {e : UserId × Statistics} {c : UserConnection}
    (h : userConnection e = some c) : cutLast atSign e.1.name.bytes = some (c.user, c.host) ∧
      e.1.name.bytes = c.id ∧ e.2 = c.statistics := by
  obtain ⟨p, hp, hcut, rfl⟩ := Option.pmap_eq_some_iff.mp h
  exact ⟨hcut, (of_cutLast_eq_some hcut).1, rfl⟩

theorem userConnection_eq_none {e : UserId × Statistics} (h : userConnection e = none) :
    cutLast atSign e.1.name.bytes = none :=
  Option.pmap_eq_none_iff.mp h

/-- The loop on the connections. -/
def printConnections : Option UserConnection → List UserConnection → List Byte
  | _, [] => []
  | none, c :: cs => userKey c.user ++ (c.line ++ printConnections (some c) cs)
  | some p, c :: cs =>
    if SameUser p c then ascii ",\n" ++ (c.line ++ printConnections (some c) cs)
    else ascii "\n\t\x7d,\n" ++ (userKey c.user ++ (c.line ++ printConnections (some c) cs))

/-- The length of a user fits into an `unsigned`, and is printed as it is. -/
theorem printIds_eq (prev : Option UserConnection) (entries : List (UserId × Statistics)) :
    printIds (prev.map UserConnection.id) entries = printConnections prev (entries.filterMap userConnection) := by
  induction entries generalizing prev with
  | nil =>
    rw [printIds, List.filterMap_nil, printConnections]
  | cons e entries ih =>
    obtain ⟨userid, data⟩ := e
    rw [printIds.eq_def]
    dsimp only
    cases hc : userConnection (userid, data) with
    | none =>
      rw [userConnection_eq_none hc, List.filterMap_cons_none hc]
      exact ih prev
    | some c =>
      obtain ⟨hcut, hid, rfl⟩ := of_userConnection hc
      have hlength : c.user.length % 2 ^ 32 = c.user.length := by
        have hlt := userid.length_lt
        rw [hid, UserConnection.id, List.length_append] at hlt
        exact Nat.mod_eq_of_lt (by omega)
      have ih := ih (some c)
      rw [Option.map_some] at ih
      rw [hcut, List.filterMap_cons_some hc]
      dsimp only at hid ⊢
      rw [hid, hlength, ih]
      cases prev with
      | none =>
        rw [printConnections, Option.map_none, printId, take_id, List.append_assoc]
        rfl
      | some p =>
        rw [printConnections, Option.map_some, printId, take_id]
        by_cases hsame : SameUser p c
        · rw [if_pos (sameUser_iff.mpr hsame), if_pos hsame, List.append_assoc]
          rfl
        · rw [if_neg (mt sameUser_iff.mp hsame), if_neg hsame, List.append_assoc,
            List.append_assoc]
          rfl

/-! ## The text of the groups -/

/-- The connections that are printed into one object. -/
def runs (cs : List UserConnection) : List (List UserConnection) :=
  cs.splitBy fun p c => SameUser p c

def runText : List UserConnection → List Byte
  | [] => []
  | c :: m => userKey c.user ++ (c.line ++ m.flatMap fun d => ascii ",\n" ++ d.line)

theorem printConnections_runs {p : UserConnection} {cs m : List UserConnection}
    {gs : List (List UserConnection)} (h : runs (p :: cs) = (p :: m) :: gs) :
    printConnections (some p) cs = (m.flatMap fun d => ascii ",\n" ++ d.line) ++
      gs.flatMap fun g => ascii "\n\t\x7d,\n" ++ runText g := by
  induction cs generalizing p m gs with
  | nil =>
    obtain ⟨hm, rfl⟩ := List.cons.inj (h : [[p]] = _)
    obtain ⟨-, rfl⟩ := List.cons.inj hm
    rfl
  | cons c cs ih =>
    obtain ⟨n, hs, hsplit, hcons⟩ := splitBy_cons_cons (fun p c => decide (SameUser p c)) c cs
    have ih := ih hsplit
    rw [runs, hcons] at h
    simp only [decide_eq_true_eq] at h
    rw [printConnections, ih]
    split_ifs at h ⊢
    · obtain ⟨hm, rfl⟩ := List.cons.inj h
      obtain ⟨-, rfl⟩ := List.cons.inj hm
      rw [List.flatMap_cons, List.append_assoc, List.append_assoc]
    · obtain ⟨hm, rfl⟩ := List.cons.inj h
      obtain ⟨-, rfl⟩ := List.cons.inj hm
      rw [List.flatMap_nil, List.nil_append, List.flatMap_cons, runText]
      simp only [List.append_assoc]

/-- An end before each of them and one behind all. -/
theorem flatMap_append_end {α β : Type*} (a : List β) (f : α → List β) (l : List α) :
    (l.flatMap fun x => a ++ f x) ++ a = a ++ l.flatMap fun x => f x ++ a := by
  induction l with
  | nil => exact (List.append_nil a).symm
  | cons x l ih =>
    rw [List.flatMap_cons, List.append_assoc, ih, List.flatMap_cons]
    simp only [List.append_assoc]

/-- The object of a user. -/
def groupText (g : List UserConnection) : List Byte := runText g ++ ascii "\n\t\x7d"

theorem printStats_eq {stats : BottleneckStats} {g : List UserConnection}
    {gs : List (List UserConnection)} (h : runs stats.connections = g :: gs) :
    printStats stats = ascii "\x7b\n" ++ (groupText g ++
      ((gs.flatMap fun g => ascii ",\n" ++ groupText g) ++ ascii "\n\x7d\n")) := by
  have hflat := List.flatten_splitBy (fun p c => decide (SameUser p c)) stats.connections
  have hne : g ≠ [] := List.ne_nil_of_mem_splitBy (h ▸ List.mem_cons_self : g ∈ runs _)
  cases g with
  | nil => exact absurd rfl hne
  | cons c m =>
    have hcs : stats.connections = c :: (m ++ gs.flatten) := by
      rw [← hflat]
      exact congrArg List.flatten h
    have hentries : ¬stats.entries.length = 0 := by
      intro hzero
      rw [BottleneckStats.connections, List.length_eq_zero_iff.mp hzero] at hcs
      exact absurd hcs nofun
    have hids := printIds_eq none stats.entries
    rw [Option.map_none, ← BottleneckStats.connections, hcs, printConnections,
      printConnections_runs (hcs ▸ h)] at hids
    have hsep : ascii "\n\t\x7d,\n" = ascii "\n\t\x7d" ++ ascii ",\n" := rfl
    have hend : ascii "\n\t\x7d\n\x7d\n" = ascii "\n\t\x7d" ++ ascii "\n\x7d\n" := rfl
    have hshift := flatMap_append_end (ascii "\n\t\x7d") (fun g => ascii ",\n" ++ runText g) gs
    rw [printStats, if_neg hentries, hids, hend, hsep]
    simp only [List.append_assoc] at hshift ⊢
    rw [groupText, runText]
    simp only [List.append_assoc]
    rw [← List.append_assoc (gs.flatMap _), hshift]
    simp only [groupText, List.append_assoc]

/-! ## What the groups stand for -/

section Lexer

open Json (Reads)

namespace Statistics

def tokens (s : Statistics) : List Json.Token :=
  [.lbracket, .word s.cpu_recent.1, .comma, .word s.cpu_total.1, .comma, .word s.net_recent.1,
    .comma, .word s.net_total.1, .rbracket]

theorem reads_text (s : Statistics) : Reads s.text s.tokens := by
  have hcomma : Reads (ascii ", ") [.comma] := fun _ => rfl
  have hclose : Reads (ascii " ]") [.rbracket] := fun _ => rfl
  have hopen : Reads (ascii "[ ") [.lbracket] := fun _ => rfl
  obtain ⟨⟨a, ha, hwa⟩, ⟨b, hb, hwb⟩, ⟨c, hc, hwc⟩, ⟨d, hd, hwd⟩⟩ := s
  have hlast := Reads.word hwd hd (by decide) hclose
  have hthird := Reads.word hwc hc (by decide) (hcomma.append hlast)
  have hsecond := Reads.word hwb hb (by decide) (hcomma.append hthird)
  have hfirst := Reads.word hwa ha (by decide) (hcomma.append hsecond)
  exact hopen.append hfirst

/-- The statistics stand for something if they are numbers. -/
theorem exists_denotes_iff {s : Statistics} : (∃ v, Json.Denotes s.text v) ↔ s.Numbers := by
  constructor
  · rintro ⟨v, hv⟩
    rw [s.reads_text.denotes_iff] at hv
    have hword : ∀ w, .word w ∈ s.tokens → Json.IsLiteral w := fun w hw =>
      Json.isLiteral_of_mem v (hv ▸ hw)
    exact ⟨hword _ (by simp [tokens]), hword _ (by simp [tokens]), hword _ (by simp [tokens]),
      hword _ (by simp [tokens])⟩
  · rintro ⟨ha, hb, hc, hd⟩
    refine ⟨.arr [.literal ⟨_, ha⟩, .literal ⟨_, hb⟩, .literal ⟨_, hc⟩, .literal ⟨_, hd⟩], ?_⟩
    rw [s.reads_text.denotes_iff]
    simp [Json.written, Json.writtenElements, Json.separated, tokens]

end Statistics

/-- Users and hosts that need no escapes. -/
def UserConnection.Plain (c : UserConnection) : Prop := ∀ b ∈ c.user ++ c.host, Json.Plain b

variable {value : UserConnection → Json}

/-- A connection as a member of the object of its user. -/
def UserConnection.member (value : UserConnection → Json) (c : UserConnection) :
    List Byte × Json :=
  (c.host, value c)

/-- The user that is printed at the first connection. -/
def runUser : List UserConnection → List Byte
  | [] => []
  | c :: _ => c.user

def runGroup (value : UserConnection → Json) (g : List UserConnection) :
    List Byte × List (List Byte × Json) :=
  (runUser g, g.map (UserConnection.member value))

def runGroups (value : UserConnection → Json) (cs : List UserConnection) : UserGroups :=
  (runs cs).map (runGroup value)

/-- The tokens of a member. -/
def UserConnection.tokens (value : UserConnection → Json) (c : UserConnection) :
    List Json.Token :=
  .str (Json.bytes c.host) :: .colon :: (value c).written

theorem reads_line {c : UserConnection} (hplain : c.Plain)
    (hvalue : Json.Denotes c.statistics.text (value c)) : Reads c.line (c.tokens value) := by
  have hindent : Reads (ascii "\t\t") [] := fun tokens =>
    congrArg some (congrArg (Json.Lexer.mk · _) (List.append_nil tokens).symm)
  have hcolon : Reads (ascii ": ") [.colon] := fun _ => rfl
  have hhost := Json.reads_string fun b hb => hplain b (List.mem_append_right _ hb)
  have hdata := c.statistics.reads_text
  rw [← hdata.denotes_iff.mp hvalue] at hdata
  have hall := hindent.append (hhost.append (hcolon.append hdata))
  rw [List.cons_append, List.append_assoc] at hall
  exact hall

/-- The tokens of a user and the object. -/
def groupTokens (g : List Byte × List (List Byte × Json)) : List Json.Token :=
  .str (Json.bytes g.1) :: .colon :: (Json.obj (g.2.map fun m => (Json.bytes m.1, m.2))).written

theorem groupTokens_runGroup (value : UserConnection → Json) (c : UserConnection)
    (m : List UserConnection) : groupTokens (runGroup value (c :: m)) =
      .str (Json.bytes c.user) :: .colon :: .lbrace ::
        (Json.separated ((c :: m).map (UserConnection.tokens value)) ++ [.rbrace]) := by
  rw [groupTokens, runGroup, Json.written, Json.writtenMembers_eq, List.map_map, List.map_map]
  rfl

theorem reads_groupText {c : UserConnection} {m : List UserConnection}
    (hplain : ∀ d ∈ c :: m, d.Plain)
    (hvalue : ∀ d ∈ c :: m, Json.Denotes d.statistics.text (value d)) :
    Reads (groupText (c :: m)) (groupTokens (runGroup value (c :: m))) := by
  have hindent : Reads (ascii "\t") [] := fun tokens =>
    congrArg some (congrArg (Json.Lexer.mk · _) (List.append_nil tokens).symm)
  have hopen : Reads (ascii ": \x7b\n") [.colon, .lbrace] := fun _ =>
    congrArg some (congrArg (Json.Lexer.mk · _) (List.append_assoc _ _ _))
  have hcomma : Reads (ascii ",\n") [.comma] := fun _ => rfl
  have hclose : Reads (ascii "\n\t\x7d") [.rbrace] := fun _ => rfl
  rw [List.forall_mem_cons] at hplain hvalue
  have huser := Json.reads_string fun b hb => hplain.1 b (List.mem_append_left _ hb)
  have hmore : Reads (m.flatMap fun d => ascii ",\n" ++ d.line)
      (m.flatMap fun d => .comma :: d.tokens value) :=
    Reads.flatMap fun d hd => hcomma.append (reads_line (hplain.2 d hd) (hvalue.2 d hd))
  have hlines := (reads_line hplain.1 hvalue.1).append hmore
  have hall := hindent.append (huser.append (hopen.append (hlines.append hclose)))
  rw [groupTokens_runGroup, List.map_cons, Json.separated, List.flatMap_map]
  rw [List.cons_append, List.append_assoc] at hall
  rw [groupText, runText, userKey, List.append_assoc, List.append_assoc, List.append_assoc]
  exact hall

theorem written_json (groups : UserGroups) : groups.json.written =
    .lbrace :: (Json.separated (groups.map groupTokens) ++ [.rbrace]) := by
  rw [UserGroups.json, Json.written, Json.writtenMembers_eq, List.map_map]
  rfl

variable {stats : BottleneckStats}

theorem denotes_printRuns (hne : stats.connections ≠ [])
    (hplain : ∀ c ∈ stats.connections, c.Plain)
    (hvalue : ∀ c ∈ stats.connections, Json.Denotes c.statistics.text (value c)) :
    Json.Denotes (printStats stats) (runGroups value stats.connections).json := by
  have hgroup : ∀ g ∈ runs stats.connections,
      Reads (groupText g) (groupTokens (runGroup value g)) := by
    intro g hg
    have hmem : ∀ c ∈ g, c ∈ stats.connections := fun c hc => by
      rw [← List.flatten_splitBy (fun p c => decide (SameUser p c)) stats.connections]
      exact List.mem_flatten_of_mem hg hc
    cases g with
    | nil => exact absurd rfl (List.ne_nil_of_mem_splitBy hg)
    | cons c m =>
      exact reads_groupText (fun d hd => hplain d (hmem d hd)) fun d hd => hvalue d (hmem d hd)
  have hopen : Reads (ascii "\x7b\n") [.lbrace] := fun _ => rfl
  have hcomma : Reads (ascii ",\n") [.comma] := fun _ => rfl
  have hclose : Reads (ascii "\n\x7d\n") [.rbrace] := fun _ => rfl
  rw [runGroups]
  cases hruns : runs stats.connections with
  | nil => exact absurd (List.splitBy_eq_nil.mp hruns) hne
  | cons g gs =>
    rw [hruns, List.forall_mem_cons] at hgroup
    have hmore : Reads (gs.flatMap fun g => ascii ",\n" ++ groupText g)
        (gs.flatMap fun g => .comma :: groupTokens (runGroup value g)) :=
      Reads.flatMap fun h hh => hcomma.append (hgroup.2 h hh)
    have hall := hopen.append (hgroup.1.append (hmore.append hclose))
    rw [← printStats_eq hruns] at hall
    rw [hall.denotes_iff, written_json, List.map_cons, List.map_cons, Json.separated,
      List.flatMap_map, List.flatMap_map, List.append_assoc]
    rfl

theorem printStats_of_nil (hentries : stats.entries = []) :
    printStats stats = ascii "\x7b\n\x7d\n" := by
  rw [printStats, hentries, printIds, List.length_nil, if_pos rfl]
  rfl

/-- The text stands for the runs. -/
theorem denotes_printStats (hne : stats.entries = [] ∨ stats.connections ≠ [])
    (hplain : ∀ c ∈ stats.connections, c.Plain)
    (hvalue : ∀ c ∈ stats.connections, Json.Denotes c.statistics.text (value c)) :
    Json.Denotes (printStats stats) (runGroups value stats.connections).json := by
  rcases hne with hentries | hne
  · rw [BottleneckStats.connections, hentries, printStats_of_nil hentries]
    have hreads : Reads (ascii "\x7b\n\x7d\n") [.lbrace, .rbrace] := fun tokens =>
      congrArg some (congrArg (Json.Lexer.mk · _) (List.append_assoc _ _ _))
    rw [hreads.denotes_iff, written_json]
    rfl
  · exact denotes_printRuns hne hplain hvalue

/-- A map without users, but with ids, is printed with one brace too many. -/
theorem not_denotes_printStats (hentries : stats.entries ≠ []) (hnil : stats.connections = [])
    (groups : UserGroups) : ¬Json.Denotes (printStats stats) groups.json := by
  have hids := printIds_eq none stats.entries
  rw [Option.map_none, ← BottleneckStats.connections, hnil, printConnections] at hids
  have hreads : Reads (printStats stats) [.lbrace, .rbrace, .rbrace] := by
    rw [printStats, hids, if_neg (mt List.length_eq_zero_iff.mp hentries)]
    intro tokens
    exact congrArg some (congrArg (Json.Lexer.mk · _) (by simp only [List.append_assoc]; rfl))
  rw [hreads.denotes_iff, written_json]
  intro h
  cases groups with
  | nil => exact absurd h (by decide)
  | cons g groups =>
    rw [List.map_cons, Json.separated, groupTokens] at h
    exact absurd h (by simp)

end Lexer

/-! ## The buffer -/

section Buffer

/-- The id before begins with a user only if it is one of that user. -/
abbrev UserConnection.Apart (p c : UserConnection) : Prop := SameUser p c → c.user = p.user

theorem Statistics.length_text (s : Statistics) : s.text.length = s.length := by
  have hconst : (ascii "[ ").length = 2 ∧ (ascii ", ").length = 2 ∧ (ascii " ]").length = 2 := by
    decide
  simp only [Statistics.text, List.length_append, hconst]
  rw [Statistics.length]
  omega

theorem length_line (c : UserConnection) : c.line.length = c.lineLength := by
  have hconst : (ascii "\t\t\"").length = 3 ∧ (ascii "\": ").length = 3 := by decide
  simp only [UserConnection.line, hostLine, List.length_append, hconst, Statistics.length_text]
  rw [UserConnection.lineLength]
  omega

theorem length_userKey (user : List Byte) : (userKey user).length = user.length + 7 := by
  have hconst : (ascii "\t\"").length = 2 ∧ (ascii "\": \x7b\n").length = 5 := by decide
  simp only [userKey, List.length_append, hconst]
  omega

theorem length_printConnections {p : UserConnection} {cs : List UserConnection}
    (h : (p :: cs).IsChain Apart) : (printConnections (some p) cs).length = linesLength p cs := by
  have hconst : (ascii ",\n").length = 2 ∧ (ascii "\n\t\x7d,\n").length = 5 := by decide
  induction cs generalizing p with
  | nil => rfl
  | cons c cs ih =>
    rw [List.isChain_cons_cons] at h
    have hsame : SameUser p c ↔ c.user = p.user :=
      ⟨h.1, fun heq => by rw [SameUser, heq]; exact List.prefix_append p.user _⟩
    rw [printConnections, linesLength, ← ih h.2]
    by_cases huser : c.user = p.user
    · rw [if_pos (hsame.mpr huser), if_pos huser, List.length_append, List.length_append,
        hconst.1, length_line]
      omega
    · rw [if_neg (mt hsame.mp huser), if_neg huser, List.length_append, List.length_append,
        List.length_append, hconst.2, length_userKey, length_line]
      omega

theorem length_printStats {stats : BottleneckStats}
    (hne : stats.entries = [] ∨ stats.connections ≠ []) (h : stats.connections.IsChain Apart) :
    (printStats stats).length = statsLength stats.connections := by
  rcases hne with hentries | hne
  · rw [printStats_of_nil hentries, BottleneckStats.connections, hentries]
    rfl
  · have hids := printIds_eq none stats.entries
    rw [Option.map_none, ← BottleneckStats.connections] at hids
    have hentries : stats.entries.length ≠ 0 := by
      intro hzero
      refine hne ?_
      rw [BottleneckStats.connections, List.length_eq_zero_iff.mp hzero]
      rfl
    rw [printStats, hids, if_neg hentries]
    cases hcs : stats.connections with
    | nil => exact absurd hcs hne
    | cons c cs =>
      have hconst : (ascii "\x7b\n").length = 2 ∧ (ascii "\n\t\x7d\n\x7d\n").length = 6 := by
        decide
      rw [printConnections, List.length_append, List.length_append, List.length_append,
        List.length_append, hconst.1, hconst.2, length_userKey, length_line,
        length_printConnections (hcs ▸ h), statsLength]
      omega

/-- All texts end like this. -/
theorem printStats_end (stats : BottleneckStats) :
    ∃ t, printStats stats = t ++ [0x7D, 0x0A] := by
  rw [printStats]
  split_ifs
  · exact ⟨ascii "\x7b\n" ++ printIds none stats.entries, by rw [List.append_assoc]; rfl⟩
  · exact ⟨ascii "\x7b\n" ++ (printIds none stats.entries ++ ascii "\n\t\x7d\n"), by
      simp only [List.append_assoc]; rfl⟩

variable {len : ℕ} {text t : List Byte}

/-- Without the end of its last line a text says the same. -/
theorem denotes_fmemopenText_iff (htext : text = t ++ [0x7D, 0x0A]) (hfits : text.length ≤ len)
    {v : Json} : Json.Denotes (fmemopenText len text) v ↔ Json.Denotes text v := by
  have hlength : text.length = t.length + 2 := by rw [htext, List.length_append]; rfl
  rcases Nat.lt_or_ge (len - 1) text.length with hlt | hge
  · have hcut : fmemopenText len text = t ++ [0x7D] := by
      have hsplit : text = (t ++ [0x7D]) ++ [0x0A] := by rw [htext, List.append_assoc]; rfl
      have hlen : len - 1 = (t ++ [0x7D]).length := by
        rw [List.length_append, List.length_singleton]
        omega
      rw [fmemopenText, hsplit, hlen, List.take_left]
    have hsplit : text = (t ++ [0x7D]) ++ [0x0A] := by rw [htext, List.append_assoc]; rfl
    rw [hcut, hsplit]
    exact Json.denotes_newline_iff.symm
  · rw [fmemopenText, List.take_of_length_le hge]

/-- No text that is cut off in front of its last brace stands for an object. -/
theorem length_le_of_denotes (htext : text = t ++ [0x7D, 0x0A]) {v : Json}
    (hv : Json.Denotes text v) {members : List (List Json.Piece × Json)}
    (h : Json.Denotes (fmemopenText len text) (.obj members)) : text.length ≤ len := by
  by_contra hlong
  have hlength : text.length = t.length + 2 := by rw [htext, List.length_append]; rfl
  have hpre : fmemopenText len text <+: t := by
    refine List.prefix_of_prefix_length_le (List.take_prefix _ _) (htext ▸ List.prefix_append t _) ?_
    rw [fmemopenText, List.length_take]
    omega
  obtain ⟨rest, rfl⟩ := hpre
  rw [htext, List.append_assoc] at hv
  exact Json.Denotes.not_append h hv

end Buffer

end KasmVNC.Network
