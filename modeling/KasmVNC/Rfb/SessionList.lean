import KasmVNC.Lib.Calendar
import KasmVNC.Lib.Json
import KasmVNC.Rfb.ExclusiveAccess

/-!
# The list of sessions

The server publishes the users of the connections that are authenticated. The list is made anew
when a client is initialised and when an authenticated connection is closed, unless it would be
empty. The names are put into it as they are.
-/

namespace KasmVNC.Rfb

open KasmVNC.Lib

/-! ## The text -/

structure SessionInfo where
  userName : List Byte
  connectionTime : ℕ
deriving DecidableEq

/-- What is printed for a user. -/
def SessionInfo.entry (i : SessionInfo) : List Byte × List Byte :=
  (i.userName, strftime (gmtime i.connectionTime))

/-- `userEntry` -/
def userEntry (e : List Byte × List Byte) : List Byte :=
  ascii "\x7b\"username\":\"" ++ (e.1 ++ (ascii "\", \"connected_since\":\"" ++ (e.2 ++
    ascii "\"\x7d")))

/-- The entries, with a comma before each of them but the first. -/
def usersList : List (List Byte × List Byte) → List Byte
  | [] => []
  | e :: es => userEntry e ++ es.flatMap fun e => 0x2C :: userEntry e

def formatUsersToJson (users : List SessionInfo) : List Byte :=
  ascii "\x7b\"users\": " ++ ((0x5B :: (usersList (users.map (·.entry)) ++ [0x5D])) ++
    ascii "\x7d ")

/-- What `sessionsInfo` is at first. -/
def noSessions : List Byte := ascii "\x7b\"users\":[]\x7d"

/-! ## The server -/

/-- The client has not authenticated yet. -/
def StateEnum.inHandshake (s : StateEnum) : Bool :=
  s = .protocolVersion ∨ s = .securityType ∨ s = .security

/-- What a connection has to do with the list. -/
structure SessionConn where
  state : StateEnum
  clientUsername : List Byte
  connectionTime : ℕ
deriving DecidableEq

def SessionConn.info (c : SessionConn) : SessionInfo := ⟨c.clientUsername, c.connectionTime⟩

def usernameUnavailable : List Byte := ascii "username_unavailable"

/-- `get_default_name` -/
def get_default_name (str : List Byte) : List Byte :=
  let name := str.takeWhile (· ≠ 0x40)
  if name = [] then usernameUnavailable
  else name.map fun b => if b = 0x2E ∨ b = 0x3A then 0x5F else b

/-- `listed` only records the sessions that the list was made of. -/
structure SessionServer where
  clients : List SessionConn
  sessionsInfo : List Byte
  listed : List SessionInfo

/-- What happens to a single connection. -/
inductive SessionAction
  | addSocket
  /-- Before authentication. -/
  | handshake (n : ℕ) (state : StateEnum)
  | queryConnection (n : ℕ) (userName : List Byte) (peerAddress : List Byte)
  /-- The connection is accepted at this time. -/
  | accept (n : ℕ) (time : ℕ)
  | reject (n : ℕ)
  /-- The rest of `clientInit`, if the client is not refused. -/
  | initialise (n : ℕ)
  | close (n : ℕ)
  /-- The connection is deleted, which has been closed. -/
  | removeSocket (n : ℕ)

namespace SessionServer

def start : SessionServer := ⟨[], noSessions, []⟩

def modify (s : SessionServer) (n : ℕ) (f : SessionConn → SessionConn) : SessionServer :=
  { s with clients := s.clients.modify n f }

def setState (s : SessionServer) (n : ℕ) (state : StateEnum) : SessionServer :=
  s.modify n fun c => { c with state := state }

def getSessionUsers (s : SessionServer) : List SessionInfo :=
  (s.clients.filter (·.state.authenticated)).map (·.info)

def updateSessionUsersList (s : SessionServer) : SessionServer :=
  if s.getSessionUsers ≠ [] then
    { s with
      sessionsInfo := formatUsersToJson s.getSessionUsers
      listed := s.getSessionUsers }
  else s

/-- The connection is in a state of that kind. -/
def inState (s : SessionServer) (n : ℕ) (p : StateEnum → Bool) : Bool :=
  s.clients[n]?.any (p ·.state)

/-- `VNCSConnectionST::close` -/
def close (s : SessionServer) (n : ℕ) : SessionServer :=
  if s.inState n (·.authenticated) then (s.setState n .closing).updateSessionUsersList
  else s.setState n .closing

def initialise (s : SessionServer) (n : ℕ) : SessionServer :=
  if s.inState n (· = .initialisation) then (s.setState n .normal).updateSessionUsersList else s

def act (s : SessionServer) : SessionAction → SessionServer
  | .addSocket => { s with clients := ⟨.protocolVersion, usernameUnavailable, 0⟩ :: s.clients }
  | .handshake n state =>
    if s.inState n (·.inHandshake) && (state.inHandshake || state = .invalid) then
      s.setState n state
    else s
  | .queryConnection n userName peerAddress =>
    if s.inState n (· = .security) then
      let name := if userName ≠ [] then userName else get_default_name peerAddress
      s.modify n fun c => { c with state := .querying, clientUsername := name }
    else s
  | .accept n time =>
    if s.inState n (· = .querying) then
      s.modify n fun c => { c with state := .initialisation, connectionTime := time }
    else s
  | .reject n => if s.inState n (· = .querying) then s.setState n .invalid else s
  | .initialise n => s.initialise n
  | .close n => s.close n
  | .removeSocket n =>
    if s.inState n (· = .closing) then { s with clients := s.clients.eraseIdx n } else s

end SessionServer

/-! ## Events -/

inductive SessionServerEvent
  | addSocket
  | handshake (n : ℕ) (state : StateEnum)
  | queryConnection (n : ℕ) (userName : List Byte) (peerAddress : List Byte)
  /-- `started` if `startDesktop` does not throw. -/
  | approveConnection (n : ℕ) (accept : Bool) (time : ℕ) (started : Bool)
  | clientInit (n : ℕ) (wantsShared : Bool) (env : ServerEnv)
  | close (n : ℕ)
  | closeClients
  | removeSocket (n : ℕ)

/-- What is left of the client's wish. -/
def ServerEnv.shares (env : ServerEnv) (wantsShared : Bool) : Bool :=
  (wantsShared || env.alwaysShared || env.reverseConnection || !env.accessNonShared) &&
    !env.neverShared

namespace SessionServer

/-- `closeClients`, with the place of the one that stays. -/
def closeClients (s : SessionServer) (except : Option ℕ) : List SessionAction :=
  ((List.range s.clients.length).filter fun i => except ≠ some i).map .close

/-- `VNCSConnectionST::clientInit` -/
def clientInit (s : SessionServer) (n : ℕ) (wantsShared : Bool) (env : ServerEnv) :
    List SessionAction :=
  if env.closesClients wantsShared then s.closeClients (some n) ++ [.initialise n]
  else if !env.shares wantsShared && s.getSessionUsers.length > 1 then [.close n]
  else [.initialise n]

/-- An event, as what happens to the connections one after the other. -/
def actions (s : SessionServer) : SessionServerEvent → List SessionAction
  | .addSocket => [.addSocket]
  | .handshake n state => [.handshake n state]
  | .queryConnection n userName peerAddress => [.queryConnection n userName peerAddress]
  | .approveConnection n accept time started =>
    -- an exception closes the connection
    if s.inState n (· = .querying) then
      if accept then .accept n time :: if started then [] else [.close n]
      else [.reject n, .close n]
    else [.close n]
  | .clientInit n wantsShared env =>
    if s.inState n (· = .initialisation) then s.clientInit n wantsShared env else []
  | .close n => [.close n]
  | .closeClients => s.closeClients none
  | .removeSocket n => [.removeSocket n]

def step (s : SessionServer) (e : SessionServerEvent) : SessionServer := run act s (s.actions e)

end SessionServer

/-! ## What is meant -/

def sessionObject (e : List Byte × List Byte) : Json :=
  .obj [(Json.bytes (ascii "username"), .str (Json.bytes e.1)),
    (Json.bytes (ascii "connected_since"), .str (Json.bytes e.2))]

def sessionsJson (entries : List (List Byte × List Byte)) : Json :=
  .obj [(Json.bytes (ascii "users"), .arr (entries.map sessionObject))]

/-- Names that are put into a string of JSON as they are. -/
def PlainNames (users : List SessionInfo) : Prop := ∀ i ∈ users, ∀ b ∈ i.userName, Json.Plain b

instance (users : List SessionInfo) : Decidable (PlainNames users) :=
  inferInstanceAs (Decidable (∀ i ∈ users, ∀ b ∈ i.userName, Json.Plain b))

namespace SessionServer

/-- The list has each connection that is authenticated, once and with its own name and time, and
nothing else. -/
def Lists (s : SessionServer) : Prop :=
  ∃ entries, entries.Perm (s.getSessionUsers.map (·.entry)) ∧
    Json.Denotes s.sessionsInfo (sessionsJson entries)

/-- After a client has been initialised and after a connection is closed. -/
def Accurate (s : SessionServer) (a : SessionAction) : Prop :=
  match a with
  | .initialise n => s.inState n (· = .initialisation) → (s.act a).Lists
  | .close n => s.clients[n]?.isSome → (s.act a).Lists
  | _ => True

/-- All names stay as they are. The last session to be closed has not been listed; and a connection
that is closed without having been authenticated leaves the sessions that were listed. -/
def Meets (s : SessionServer) : SessionAction → Prop
  | .initialise n => s.inState n (· = .initialisation) → PlainNames s.getSessionUsers
  | .close n =>
    s.clients[n]?.isSome →
      let left := (s.setState n .closing).getSessionUsers
      if left = [] then s.listed = []
      else PlainNames left ∧ (s.inState n (·.authenticated) ∨
        (s.listed.map (·.entry)).Perm (left.map (·.entry)))
  | _ => True

instance decidableMeets (s : SessionServer) : ∀ a, Decidable (s.Meets a)
  | .initialise _ => inferInstanceAs (Decidable (_ → _))
  | .close n =>
    let left := (s.setState n .closing).getSessionUsers
    have : Decidable (if left = [] then s.listed = []
        else PlainNames left ∧ (s.inState n (·.authenticated) ∨
          (s.listed.map (·.entry)).Perm (left.map (·.entry)))) := inferInstance
    inferInstanceAs (Decidable (_ → _))
  | .addSocket | .handshake .. | .queryConnection .. | .accept .. | .reject .. | .removeSocket .. =>
    inferInstanceAs (Decidable True)

end SessionServer

/-! ## The lexer on the list -/

section Lexer

theorem plain_strftime (tm : Tm) : ∀ b ∈ strftime tm, Json.Plain b := by
  have hdigit : ∀ d < 10, Json.Plain (digit d) := by decide
  intro b hb
  rcases mem_strftime hb with ⟨d, hd, rfl⟩ | rfl | rfl | rfl
  · exact hdigit d hd
  · decide
  · decide
  · decide

theorem append_three {α : Type} (l : List α) (a b c : α) :
    l ++ [a] ++ [b] ++ [c] = l ++ [a, b, c] := by
  simp

theorem written_sessionObject (e : List Byte × List Byte) :
    (sessionObject e).written = [.lbrace, .str (Json.bytes (ascii "username")), .colon,
      .str (Json.bytes e.1), .comma, .str (Json.bytes (ascii "connected_since")), .colon,
      .str (Json.bytes e.2), .rbrace] := by
  simp only [sessionObject, Json.written, Json.writtenMembers, Json.separated,
    List.flatMap_cons, List.flatMap_nil, List.cons_append, List.nil_append, List.append_nil]

theorem reads_userEntry {e : List Byte × List Byte} (hname : ∀ b ∈ e.1, Json.Plain b)
    (htime : ∀ b ∈ e.2, Json.Plain b) : Json.Reads (userEntry e) (sessionObject e).written := by
  have hopen : Json.Reads (ascii "\x7b\"username\":")
      [.lbrace, .str (Json.bytes (ascii "username")), .colon] := fun tokens =>
    congrArg some (congrArg (Json.Lexer.mk · _) (append_three tokens _ _ _))
  have hmiddle : Json.Reads (ascii ", \"connected_since\":")
      [.comma, .str (Json.bytes (ascii "connected_since")), .colon] := fun tokens =>
    congrArg some (congrArg (Json.Lexer.mk · _) (append_three tokens _ _ _))
  have hclose : Json.Reads (ascii "\x7d") [.rbrace] := fun _ => rfl
  have hall := hopen.append ((Json.reads_string hname).append (hmiddle.append
    ((Json.reads_string htime).append hclose)))
  have hquote : ascii "\x7b\"username\":\"" = ascii "\x7b\"username\":" ++ [0x22] ∧
      ascii "\", \"connected_since\":\"" = 0x22 :: (ascii ", \"connected_since\":" ++ [0x22]) ∧
        ascii "\"\x7d" = 0x22 :: ascii "\x7d" := by decide
  rw [userEntry, hquote.1, hquote.2.1, hquote.2.2, written_sessionObject]
  simp only [List.append_assoc, List.cons_append, List.nil_append] at hall ⊢
  exact hall

theorem reads_usersList {entries : List (List Byte × List Byte)}
    (h : ∀ e ∈ entries, (∀ b ∈ e.1, Json.Plain b) ∧ ∀ b ∈ e.2, Json.Plain b) :
    Json.Reads (usersList entries)
      (Json.separated (entries.map fun e => (sessionObject e).written)) := by
  have hcomma : Json.Reads [0x2C] [.comma] := fun _ => rfl
  cases entries with
  | nil =>
    exact fun tokens => congrArg some (congrArg (Json.Lexer.mk · _) (List.append_nil tokens).symm)
  | cons e es =>
    rw [List.forall_mem_cons] at h
    rw [usersList, List.map_cons, Json.separated, List.flatMap_map]
    exact (reads_userEntry h.1.1 h.1.2).append (Json.Reads.flatMap fun d hd =>
      hcomma.append (reads_userEntry (h.2 d hd).1 (h.2 d hd).2))

theorem written_sessionsJson (entries : List (List Byte × List Byte)) :
    (sessionsJson entries).written =
      [.lbrace, .str (Json.bytes (ascii "users")), .colon] ++ ((.lbracket ::
        (Json.separated (entries.map fun e => (sessionObject e).written) ++ [.rbracket])) ++
          [.rbrace]) := by
  simp only [sessionsJson, Json.written, Json.writtenMembers, Json.separated,
    Json.writtenElements_eq, List.map_map, Function.comp_def, List.flatMap_nil, List.cons_append,
    List.nil_append, List.append_nil]

theorem plain_entries {users : List SessionInfo} (h : PlainNames users) :
    ∀ e ∈ users.map (·.entry), (∀ b ∈ e.1, Json.Plain b) ∧ ∀ b ∈ e.2, Json.Plain b := by
  intro e he
  obtain ⟨i, hi, rfl⟩ := List.mem_map.mp he
  exact ⟨h i hi, plain_strftime _⟩

/-- The text stands for the sessions if nothing in it has to be escaped. -/
theorem denotes_formatUsersToJson {users : List SessionInfo} (h : PlainNames users) :
    Json.Denotes (formatUsersToJson users) (sessionsJson (users.map (·.entry))) := by
  have hopen : Json.Reads (ascii "\x7b\"users\": ")
      [.lbrace, .str (Json.bytes (ascii "users")), .colon] := fun tokens =>
    congrArg some (congrArg (Json.Lexer.mk · _) (append_three tokens _ _ _))
  have hbracket : Json.Reads [0x5B] [.lbracket] := fun _ => rfl
  have hunbracket : Json.Reads [0x5D] [.rbracket] := fun _ => rfl
  have hclose : Json.Reads (ascii "\x7d ") [.rbrace] := fun _ => rfl
  have hlist := hbracket.append ((reads_usersList (plain_entries h)).append hunbracket)
  refine (hopen.append (hlist.append hclose)).denotes_iff.mpr ?_
  exact written_sessionsJson _

/-- At first there are none. -/
theorem denotes_noSessions : Json.Denotes noSessions (sessionsJson []) := by
  rw [Json.Denotes, written_sessionsJson]
  rfl

/-! ## Backslashes -/

theorem count_usersList (entries : List (List Byte × List Byte))
    (h : ∀ e ∈ entries, ∀ b ∈ e.2, Json.Plain b) :
    (usersList entries).count 0x5C = ((entries.map Prod.fst).map (List.count 0x5C)).sum := by
  have hentry : ∀ e ∈ entries, (userEntry e).count 0x5C = e.1.count 0x5C := by
    intro e he
    have hconst : (ascii "\x7b\"username\":\"").count 0x5C = 0 ∧
        (ascii "\", \"connected_since\":\"").count 0x5C = 0 ∧
          (ascii "\"\x7d").count 0x5C = 0 := by decide
    have htime : e.2.count 0x5C = 0 :=
      List.count_eq_zero.mpr fun hmem => (h e he _ hmem).2.1 rfl
    simp only [userEntry, List.count_append, hconst, htime]
    omega
  cases entries with
  | nil => rfl
  | cons e es =>
    rw [List.forall_mem_cons] at hentry
    have hmore : (es.map fun d => (0x2C :: userEntry d).count 0x5C) =
        (es.map Prod.fst).map (List.count 0x5C) := by
      rw [List.map_map]
      refine List.map_congr_left fun d hd => ?_
      rw [List.count_cons_of_ne (by decide), hentry.2 d hd, Function.comp_apply]
    rw [usersList, List.count_append, hentry.1, List.count_flatMap, List.map_cons,
      List.map_cons, List.sum_cons, ← hmore, Function.comp_def]

theorem map_fst_entry (users : List SessionInfo) :
    (users.map (·.entry)).map Prod.fst = users.map (·.userName) :=
  List.map_map

theorem count_formatUsersToJson (users : List SessionInfo) :
    (formatUsersToJson users).count 0x5C =
      ((users.map (·.userName)).map (List.count 0x5C)).sum := by
  have hentries := count_usersList (users.map (·.entry)) fun e he => by
    obtain ⟨i, -, rfl⟩ := List.mem_map.mp he
    exact plain_strftime _
  rw [map_fst_entry] at hentries
  have hconst : (ascii "\x7b\"users\": ").count 0x5C = 0 ∧ (ascii "\x7d ").count 0x5C = 0 ∧
      [(0x5D : Byte)].count 0x5C = 0 := by decide
  rw [formatUsersToJson, List.count_append, List.count_append,
    List.count_cons_of_ne (by decide), List.count_append, hentries, hconst.1, hconst.2.1,
    hconst.2.2, Nat.zero_add, Nat.add_zero]

theorem weight_sessionsJson (entries : List (List Byte × List Byte)) :
    ((entries.map Prod.fst).map fun s => Json.stringWeight (Json.bytes s)).sum ≤
      Json.tokensWeight (sessionsJson entries).written := by
  have hstr : ∀ s : List Json.Piece,
      Json.tokensWeight (Json.str s).written = Json.stringWeight s := by
    intro s
    rw [Json.written]
    exact Nat.add_zero _
  have hobject : ∀ e ∈ entries, Json.stringWeight (Json.bytes e.1) ≤
      Json.tokensWeight (sessionObject e).written := by
    intro e _
    rw [sessionObject, Json.tokensWeight_obj, List.map_cons, List.sum_cons, hstr]
    omega
  rw [sessionsJson, Json.tokensWeight_obj, List.map_cons, List.sum_cons, Json.tokensWeight_arr,
    List.map_map, List.map_map]
  have hsum := List.sum_le_sum hobject
  simp only [Function.comp_def]
  omega

/-- A text made of names that need escapes does not stand for any sessions of that many. -/
theorem plain_of_denotes {users : List SessionInfo} {entries : List (List Byte × List Byte)}
    (hperm : entries.Perm (users.map (·.entry)))
    (h : Json.Denotes (formatUsersToJson users) (sessionsJson entries)) : PlainNames users := by
  have htaken := (weight_sessionsJson entries).trans h.weight_le
  have hnames : (entries.map Prod.fst).Perm (users.map (·.userName)) := by
    have hmap := hperm.map Prod.fst
    rwa [map_fst_entry] at hmap
  rw [count_formatUsersToJson, (hnames.map _).sum_eq] at htaken
  intro i hi
  exact Json.plain_of_sum_le htaken _ (List.mem_map_of_mem hi)

theorem sessionsJson_injective {entries entries' : List (List Byte × List Byte)}
    (h : sessionsJson entries = sessionsJson entries') : entries = entries' := by
  have hobject : Function.Injective sessionObject := by
    rintro ⟨name, time⟩ ⟨name', time'⟩ heq
    have hbytes : Function.Injective Json.bytes :=
      List.map_injective_iff.mpr fun _ _ hb => Json.Piece.byte.inj hb
    simp only [sessionObject, Json.obj.injEq, List.cons.injEq, Prod.mk.injEq, Json.str.injEq,
      true_and, and_true] at heq
    rw [hbytes heq.1, hbytes heq.2]
  simp only [sessionsJson, Json.obj.injEq, List.cons.injEq, Prod.mk.injEq, Json.arr.injEq,
    true_and, and_true] at h
  exact List.map_injective_iff.mpr hobject h

end Lexer

/-! ## What is published -/

namespace SessionServer

variable {s : SessionServer}

/-- What was published was made of plain names, if anything was. -/
structure Published (s : SessionServer) : Prop where
  text : s.sessionsInfo = if s.listed = [] then noSessions else formatUsersToJson s.listed
  plain : PlainNames s.listed

theorem published_start : start.Published := ⟨rfl, fun _ hi => absurd hi List.not_mem_nil⟩

theorem Published.denotes (h : s.Published) :
    Json.Denotes s.sessionsInfo (sessionsJson (s.listed.map (·.entry))) := by
  rw [h.text]
  split
  · next hnone =>
      rw [hnone]
      exact denotes_noSessions
  · exact denotes_formatUsersToJson h.plain

/-- The list is right if it was made of what there is. -/
theorem Published.lists_iff (h : s.Published) :
    s.Lists ↔ (s.listed.map (·.entry)).Perm (s.getSessionUsers.map (·.entry)) := by
  constructor
  · rintro ⟨entries, hperm, hdenotes⟩
    rwa [sessionsJson_injective (hdenotes.unique h.denotes)] at hperm
  · exact fun hperm => ⟨_, hperm, h.denotes⟩

theorem lists_empty_iff (h : s.Published) (hnone : s.getSessionUsers = []) :
    s.Lists ↔ s.listed = [] := by
  rw [h.lists_iff, hnone, List.map_nil, List.perm_nil, List.map_eq_nil_iff]

theorem update_of_empty (hnone : s.getSessionUsers = []) : s.updateSessionUsersList = s := by
  rw [updateSessionUsersList, if_neg (not_not.mpr hnone)]

theorem published_update (hsome : s.getSessionUsers ≠ []) (hplain : PlainNames s.getSessionUsers) :
    s.updateSessionUsersList.Published := by
  rw [updateSessionUsersList, if_pos hsome]
  exact ⟨(if_neg hsome).symm, hplain⟩

/-- A list that has just been made. -/
theorem lists_update_iff (hsome : s.getSessionUsers ≠ []) :
    s.updateSessionUsersList.Lists ↔ PlainNames s.getSessionUsers := by
  constructor
  · rw [updateSessionUsersList, if_pos hsome]
    rintro ⟨entries, hperm, hdenotes⟩
    exact plain_of_denotes hperm hdenotes
  · intro hplain
    refine (published_update hsome hplain).lists_iff.mpr ?_
    rw [updateSessionUsersList, if_pos hsome]
    exact List.Perm.refl _

/-! ## One action -/

/-- What is published does not depend on the connections. -/
theorem Published.of_eq {s' : SessionServer} (h : s.Published)
    (hinfo : s'.sessionsInfo = s.sessionsInfo) (hlisted : s'.listed = s.listed) :
    s'.Published := by
  refine ⟨?_, ?_⟩
  · rw [hinfo, hlisted]
    exact h.text
  · rw [hlisted]
    exact h.plain

theorem plainNames_of_perm {users users' : List SessionInfo}
    (hperm : (users.map (·.entry)).Perm (users'.map (·.entry))) (h : PlainNames users) :
    PlainNames users' := by
  intro i hi
  have hmem := hperm.mem_iff.mpr (List.mem_map_of_mem hi)
  exact (plain_entries h _ hmem).1

/-- A client that is initialised has been a session before, like the others. -/
theorem getSessionUsers_initialise {n : ℕ} (h : s.inState n (· = .initialisation)) :
    (s.setState n .normal).getSessionUsers = s.getSessionUsers ∧ s.getSessionUsers ≠ [] := by
  obtain ⟨c, hc, hstate⟩ := (Option.any_eq_true _ _).mp h
  have hstate : c.state = .initialisation := of_decide_eq_true hstate
  have hauth : c.state.authenticated = true := by
    rw [hstate]
    rfl
  constructor
  · refine map_filter_modify fun d hd => ⟨?_, rfl⟩
    obtain rfl := Option.some.inj (hc.symm.trans hd)
    exact hauth.symm
  · intro hnone
    have hmem : c ∈ s.clients.filter (·.state.authenticated) :=
      List.mem_filter.mpr ⟨List.mem_of_getElem? hc, hauth⟩
    rw [List.map_eq_nil_iff.mp hnone] at hmem
    exact absurd hmem List.not_mem_nil

theorem accurate_initialise_iff (n : ℕ) :
    s.Accurate (.initialise n) ↔ s.Meets (.initialise n) := by
  refine imp_congr_right fun hinit => ?_
  obtain ⟨hsame, hsome⟩ := getSessionUsers_initialise hinit
  show (s.initialise n).Lists ↔ _
  rw [initialise, if_pos hinit, lists_update_iff (hsame ▸ hsome), hsame]

theorem accurate_close_iff (h : s.Published) (n : ℕ) :
    s.Accurate (.close n) ↔ s.Meets (.close n) := by
  refine imp_congr_right fun _ => ?_
  have hclosing : (s.setState n .closing).Published := h.of_eq rfl rfl
  have hlisted : (s.setState n .closing).listed = s.listed := rfl
  show (s.close n).Lists ↔ _
  rw [close]
  dsimp only
  by_cases hauth : s.inState n (·.authenticated)
  · rw [if_pos hauth]
    by_cases hnone : (s.setState n .closing).getSessionUsers = []
    · rw [update_of_empty hnone, if_pos hnone, lists_empty_iff hclosing hnone, hlisted]
    · rw [lists_update_iff hnone, if_neg hnone]
      exact (and_iff_left (Or.inl hauth)).symm
  · rw [if_neg hauth]
    by_cases hnone : (s.setState n .closing).getSessionUsers = []
    · rw [if_pos hnone, lists_empty_iff hclosing hnone, hlisted]
    · rw [if_neg hnone, hclosing.lists_iff, hlisted, or_iff_right hauth]
      exact (and_iff_right_of_imp fun hperm => plainNames_of_perm hperm h.plain).symm

/-- Of a single action. -/
theorem accurate_iff (h : s.Published) (a : SessionAction) : s.Accurate a ↔ s.Meets a := by
  cases a with
  | initialise n => exact accurate_initialise_iff n
  | close n => exact accurate_close_iff h n
  | _ => exact Iff.rfl

theorem published_close (h : s.Published) (n : ℕ) (hmeets : s.Meets (.close n)) :
    (s.close n).Published := by
  have hclosing : (s.setState n .closing).Published := h.of_eq rfl rfl
  rw [close]
  split
  · next hauth =>
      obtain ⟨c, hc, -⟩ := (Option.any_eq_true _ _).mp hauth
      have hleft := hmeets (Option.isSome_iff_exists.mpr ⟨c, hc⟩)
      by_cases hnone : (s.setState n .closing).getSessionUsers = []
      · rwa [update_of_empty hnone]
      · dsimp only at hleft
        rw [if_neg hnone] at hleft
        exact published_update hnone hleft.1
  · exact hclosing

/-- An action that meets its condition leaves plain names. -/
theorem published_act (h : s.Published) (a : SessionAction) (hmeets : s.Meets a) :
    (s.act a).Published := by
  cases a with
  | addSocket => exact h.of_eq rfl rfl
  | initialise n =>
    show (s.initialise n).Published
    rw [initialise]
    split
    · next hinit =>
        obtain ⟨hsame, hsome⟩ := getSessionUsers_initialise hinit
        exact published_update (hsame ▸ hsome) (hsame.symm ▸ hmeets hinit)
    · exact h
  | close n => exact published_close h n hmeets
  | _ =>
    unfold act
    dsimp only
    split
    · exact h.of_eq rfl rfl
    · exact h

/-! ## Runs -/

/-- Of the actions of an event, one after the other. -/
def AccurateEvent (s : SessionServer) (e : SessionServerEvent) : Prop :=
  Guarded act Accurate s (s.actions e)

def MeetsEvent (s : SessionServer) (e : SessionServerEvent) : Prop :=
  Guarded act Meets s (s.actions e)

instance (s : SessionServer) (e : SessionServerEvent) : Decidable (s.MeetsEvent e) :=
  inferInstanceAs (Decidable (Guarded act Meets s (s.actions e)))

theorem accurateEvent_iff (h : s.Published) (e : SessionServerEvent) :
    s.AccurateEvent e ↔ s.MeetsEvent e := by
  constructor
  · exact guarded_imp (I := Published)
      (fun _ a h haccurate => published_act h a ((accurate_iff h a).mp haccurate))
      (fun _ a h haccurate => (accurate_iff h a).mp haccurate) h
  · exact guarded_imp (I := Published) (fun _ a h hmeets => published_act h a hmeets)
      (fun _ a h hmeets => (accurate_iff h a).mpr hmeets) h

theorem published_step (h : s.Published) (e : SessionServerEvent) (hmeets : s.MeetsEvent e) :
    (s.step e).Published := by
  show (run act s (s.actions e)).Published
  exact run_invariant (I := Published) (fun _ a h hmeets => published_act h a hmeets) h hmeets

theorem meets_of_accurate {es : List SessionServerEvent}
    (h : Guarded step AccurateEvent start es) : Guarded step MeetsEvent start es :=
  guarded_imp (I := Published)
    (fun _ e h haccurate => published_step h e ((accurateEvent_iff h e).mp haccurate))
    (fun _ e h haccurate => (accurateEvent_iff h e).mp haccurate) published_start h

/-- **The published sessions.** Over every run of the server, the list is that of the
authenticated connections after each client that is initialised and each connection that is
closed, exactly if these meet the condition. -/
theorem sessions_accurate_iff (es : List SessionServerEvent) :
    Guarded step AccurateEvent start es ↔ Guarded step MeetsEvent start es := by
  refine ⟨meets_of_accurate, ?_⟩
  exact guarded_imp (I := Published) (fun _ e h hmeets => published_step h e hmeets)
    (fun _ e h hmeets => (accurateEvent_iff h e).mpr hmeets) published_start

end SessionServer

/-! ## Lists that are wrong -/

/-- A server where everybody may join. -/
def soleEnv : ServerEnv where
  neverShared := false
  alwaysShared := true
  disconnectClients := false
  reverseConnection := false
  queryConnect := false
  requiresQuery := false
  accessNoQuery := false
  accessNonShared := false
  authClientCount := 0
  query := none
  queryReason := none
  startDesktop := none
  serverInit := []

/-- A client of that name is authenticated. -/
def enters (name : List Byte) : List SessionServerEvent :=
  [.addSocket, .handshake 0 .security, .queryConnection 0 name [], .approveConnection 0 true 0 true]

def joins (name : List Byte) : List SessionServerEvent :=
  enters name ++ [.clientInit 0 true soleEnv]

/-- The only client leaves; a client is closed that is not authenticated while another one has
just been; and a name with a quotation mark in it. -/
theorem sessions_wrong :
    ¬Guarded SessionServer.step SessionServer.AccurateEvent .start
        (joins (ascii "ann") ++ [.close 0]) ∧
      ¬Guarded SessionServer.step SessionServer.AccurateEvent .start
        (enters (ascii "ann") ++ [.addSocket, .close 0]) ∧
      ¬Guarded SessionServer.step SessionServer.AccurateEvent .start (joins (ascii "a\"b")) := by
  refine ⟨fun h => absurd (SessionServer.meets_of_accurate h) ?_,
    fun h => absurd (SessionServer.meets_of_accurate h) ?_,
    fun h => absurd (SessionServer.meets_of_accurate h) ?_⟩
  · decide +kernel
  · decide +kernel
  · decide +kernel

end KasmVNC.Rfb
