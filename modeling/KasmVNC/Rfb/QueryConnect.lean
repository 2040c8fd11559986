import KasmVNC.Lib.Run
import Mathlib.Data.List.Nodup

/-!
# Asking the local user

With `QueryConnect` the local user is asked whether to let a connection in. The desktop asks
about one connection at a time and remembers the address of its socket; the dialog knows the
low half of the address. A socket that is deleted leaves its address to later ones.
-/

namespace KasmVNC.Rfb

open KasmVNC.Lib

/-! ## The desktop -/

inductive QueryState
  /-- Before `RFBSTATE_QUERYING` -/
  | handshake
  | querying
  | approved
  | closed
deriving DecidableEq

/-- A connection. `serial` tells connections apart whose sockets have had the same address. -/
structure QueryClient where
  serial : ℕ
  sock : BitVec 64
  state : QueryState

/-- `setState` -/
def QueryClient.enter (state : QueryState) (c : QueryClient) : QueryClient :=
  { c with state := state }

/-- A dialog has been raised. -/
structure Dialog where
  serial : ℕ
  sock : BitVec 64

/-- `(uint32_t)(intptr_t)sock` -/
def opaqueId (sock : BitVec 64) : BitVec 32 := sock.setWidth 32

/-- The server and its desktop. The last three members only record what has happened: how many
connections there have been, and which dialogs were raised and have timed out. -/
structure QueryDesktop where
  clients : List QueryClient
  queryConnectId : BitVec 32
  queryConnectSocket : BitVec 64
  /-- `queryConnectTimer.isStarted()` -/
  queryConnectTimer : Bool
  accepted : ℕ
  dialogs : List Dialog
  timedOut : List ℕ

/-- `SConnection::approveConnection`, which closes the connection in any other state. -/
def QueryClient.approve (accept : Bool) (c : QueryClient) : QueryClient :=
  c.enter (if c.state = .querying ∧ accept = true then .approved else .closed)

/-- A connection that needs no approval goes on at once. -/
def QueryClient.pass (c : QueryClient) : QueryClient :=
  if c.state = .handshake then c.enter .approved else c

/-- `VNCServerST::approveConnection` -/
def approveConnection (sock : BitVec 64) (accept : Bool) : List QueryClient → List QueryClient
  | [] => []
  | c :: clients =>
    if c.sock = sock then c.approve accept :: clients
    else c :: approveConnection sock accept clients

inductive QueryEvent
  /-- A new socket, where no other socket is. -/
  | accept (sock : BitVec 64)
  /-- The socket is deleted. -/
  | removeSocket (n : ℕ)
  | close (n : ℕ)
  /-- The connection needs no approval. -/
  | pass (n : ℕ)
  /-- It does; `listening` if some program shows the dialog. -/
  | queryConnection (n : ℕ) (listening : Bool)
  /-- `approveConnection` with the id of a dialog, or with the id that `getQueryConnect` reports
  when there has not been one or it has been answered. -/
  | answer (dialog : Option ℕ) (accept : Bool)
  | timeout

namespace QueryDesktop

/-- The socket to remember is not set. -/
def start (queryConnectSocket : BitVec 64) : QueryDesktop :=
  ⟨[], 0, queryConnectSocket, false, 0, [], []⟩

def onClient (s : QueryDesktop) (n : ℕ) (f : QueryClient → QueryClient) : QueryDesktop :=
  { s with clients := s.clients.modify n f }

/-- `XserverDesktop::queryConnection` for a connection that is in `RFBSTATE_QUERYING` now. -/
def queryConnection (s : QueryDesktop) (n : ℕ) (listening : Bool) (c : QueryClient) :
    QueryDesktop :=
  if s.queryConnectTimer || !listening then s.onClient n (·.enter .closed)
  else
    { s.onClient n (·.enter .querying) with
      queryConnectId := opaqueId c.sock
      queryConnectSocket := c.sock
      queryConnectTimer := true
      dialogs := s.dialogs ++ [⟨c.serial, c.sock⟩] }

/-- The id an answer comes with. -/
def answerId (s : QueryDesktop) : Option ℕ → Option (BitVec 32)
  | none => some 0
  | some d => s.dialogs[d]?.map fun dlg => opaqueId dlg.sock

/-- `XserverDesktop::approveConnection` -/
def approve (s : QueryDesktop) (id : BitVec 32) (accept : Bool) : QueryDesktop :=
  if s.queryConnectId = id then
    { s with
      clients := approveConnection s.queryConnectSocket accept s.clients
      queryConnectId := 0
      queryConnectTimer := false }
  else s

/-- `XserverDesktop::handleTimeout`. The id and the socket stay remembered. -/
def handleTimeout (s : QueryDesktop) : QueryDesktop :=
  { s with
    clients := approveConnection s.queryConnectSocket false s.clients
    queryConnectTimer := false
    timedOut := s.timedOut ++ [s.dialogs.length - 1] }

def step (s : QueryDesktop) : QueryEvent → QueryDesktop
  | .accept sock =>
    if s.clients.any (·.sock = sock) then s
    else
      { s with
        clients := ⟨s.accepted, sock, .handshake⟩ :: s.clients
        accepted := s.accepted + 1 }
  | .removeSocket n => { s with clients := s.clients.eraseIdx n }
  | .close n => s.onClient n (·.enter .closed)
  | .pass n => s.onClient n (·.pass)
  | .queryConnection n listening =>
    match s.clients[n]? with
    | some c => if c.state = .handshake then s.queryConnection n listening c else s
    | none => s
  | .answer dialog accept =>
    match s.answerId dialog with
    | some id => s.approve id accept
    | none => s
  | .timeout => if s.queryConnectTimer then s.handleTimeout else s

/-! ## Whose answer it was -/

/-- A connection that is being asked about is let in only by an answer to its own dialog, which
has not timed out. -/
def AnsweredOwn (s : QueryDesktop) (e : QueryEvent) : Prop :=
  ∀ c ∈ s.clients, c.state = .querying → ∀ c' ∈ (s.step e).clients, c'.serial = c.serial →
    c'.state = .approved →
      ∃ d dlg, e = .answer (some d) true ∧ s.dialogs[d]? = some dlg ∧ dlg.serial = c.serial ∧
        d ∉ s.timedOut

/-- No accepting answer to an earlier dialog comes while a connection is being asked about
whose socket's address has the same low half. -/
def NoStaleId (s : QueryDesktop) : QueryEvent → Prop
  | .answer (some d) true => d + 1 = s.dialogs.length ∨ ∀ dlg ∈ s.dialogs[d]?,
      ∀ c ∈ s.clients, c.state = .querying → opaqueId c.sock ≠ opaqueId dlg.sock
  | .answer none true => ∀ c ∈ s.clients, c.state = .querying → opaqueId c.sock ≠ 0
  | _ => True

/-- Connections and live sockets are told apart, and a connection that is being asked about is
the one that the desktop remembers and that the last dialog is for. -/
structure Inv (s : QueryDesktop) : Prop where
  serials : (s.clients.map QueryClient.serial).Nodup
  fresh : ∀ n ∈ s.clients.map QueryClient.serial, n < s.accepted
  socks : (s.clients.map QueryClient.sock).Nodup
  known : ∀ d ∈ s.timedOut, d < s.dialogs.length
  raised : s.queryConnectTimer = true → s.dialogs ≠ []
  timer : ∀ c ∈ s.clients, c.state = .querying → s.queryConnectTimer = true
  socket : ∀ c ∈ s.clients, c.state = .querying → s.queryConnectSocket = c.sock
  id : ∀ c ∈ s.clients, c.state = .querying → s.queryConnectId = opaqueId c.sock
  last : ∀ c ∈ s.clients, c.state = .querying → ∃ d dlg, d + 1 = s.dialogs.length ∧
    s.dialogs[d]? = some dlg ∧ dlg.serial = c.serial ∧ d ∉ s.timedOut

theorem inv_start (queryConnectSocket : BitVec 64) : (start queryConnectSocket).Inv where
  serials := List.nodup_nil
  fresh := fun _ h => absurd h List.not_mem_nil
  socks := List.nodup_nil
  known := fun _ h => absurd h List.not_mem_nil
  raised := fun h => Bool.noConfusion h
  timer := fun _ h => absurd h List.not_mem_nil
  socket := fun _ h => absurd h List.not_mem_nil
  id := fun _ h => absurd h List.not_mem_nil
  last := fun _ h => absurd h List.not_mem_nil

variable {s : QueryDesktop}

/-- Fewer connections, and none that is newly asked about. -/
theorem Inv.shrink (h : s.Inv) {clients : List QueryClient}
    (hserial : (clients.map QueryClient.serial).Sublist (s.clients.map QueryClient.serial))
    (hsock : (clients.map QueryClient.sock).Sublist (s.clients.map QueryClient.sock))
    (hquery : ∀ c ∈ clients, c.state = .querying → c ∈ s.clients) :
    Inv { s with clients } where
  serials := h.serials.sublist hserial
  fresh := fun n hn => h.fresh n (hserial.subset hn)
  socks := h.socks.sublist hsock
  known := h.known
  raised := h.raised
  timer := fun c hc hstate => h.timer c (hquery c hc hstate) hstate
  socket := fun c hc hstate => h.socket c (hquery c hc hstate) hstate
  id := fun c hc hstate => h.id c (hquery c hc hstate) hstate
  last := fun c hc hstate => h.last c (hquery c hc hstate) hstate

/-- Something happens to one connection, by which it does not come to be asked about. -/
theorem Inv.onClient (h : s.Inv) (n : ℕ) {f : QueryClient → QueryClient}
    (hserial : ∀ c, (f c).serial = c.serial) (hsock : ∀ c, (f c).sock = c.sock)
    (hstate : ∀ c, (f c).state = .querying → f c = c) : (s.onClient n f).Inv := by
  have hserials := map_modify_same hserial s.clients n
  have hsocks := map_modify_same hsock s.clients n
  refine h.shrink (hserials ▸ List.Sublist.refl _) (hsocks ▸ List.Sublist.refl _) ?_
  intro c hc hquery
  rcases mem_modify hc with hold | ⟨old, hold, rfl⟩
  · exact hold
  · rw [hstate old hquery]
    exact List.mem_of_getElem? hold

section Approve

variable {sock : BitVec 64} {accept : Bool} {clients : List QueryClient}

theorem approve_state_ne (c : QueryClient) : (c.approve accept).state ≠ .querying := by
  unfold QueryClient.approve
  split
  · exact QueryState.noConfusion
  · exact QueryState.noConfusion

theorem map_approveConnection {β : Type*} {g : QueryClient → β}
    (hg : ∀ c : QueryClient, g (c.approve accept) = g c) :
    (approveConnection sock accept clients).map g = clients.map g := by
  induction clients with
  | nil => rfl
  | cons c clients ih =>
    unfold approveConnection
    split
    · rw [List.map_cons, List.map_cons, hg]
    · rw [List.map_cons, List.map_cons, ih]

theorem mem_approveConnection {c : QueryClient} (h : c ∈ approveConnection sock accept clients) :
    c ∈ clients ∨ ∃ old ∈ clients, old.sock = sock ∧ c = old.approve accept := by
  induction clients with
  | nil => exact absurd h List.not_mem_nil
  | cons first clients ih =>
    unfold approveConnection at h
    split at h
    · next hsock =>
        rcases List.mem_cons.mp h with rfl | hrest
        · exact .inr ⟨first, List.mem_cons_self, hsock, rfl⟩
        · exact .inl (List.mem_cons_of_mem _ hrest)
    · rcases List.mem_cons.mp h with rfl | hrest
      · exact .inl List.mem_cons_self
      · rcases ih hrest with hold | ⟨old, hold, hsock, rfl⟩
        · exact .inl (List.mem_cons_of_mem _ hold)
        · exact .inr ⟨old, List.mem_cons_of_mem _ hold, hsock, rfl⟩

/-- Once the remembered socket's connection has its answer, none is being asked about. -/
theorem none_querying (hsocks : (clients.map QueryClient.sock).Nodup)
    (hquery : ∀ c ∈ clients, c.state = .querying → sock = c.sock) :
    ∀ c ∈ approveConnection sock accept clients, c.state ≠ .querying := by
  induction clients with
  | nil => exact fun _ h => absurd h List.not_mem_nil
  | cons first clients ih =>
    rw [List.map_cons, List.nodup_cons] at hsocks
    unfold approveConnection
    split
    · next hsock =>
        intro c hc hstate
        rcases List.mem_cons.mp hc with rfl | hrest
        · exact approve_state_ne first hstate
        · -- no other socket is there
          have hsame : first.sock = c.sock :=
            hsock.trans (hquery c (List.mem_cons_of_mem _ hrest) hstate)
          exact hsocks.1 (hsame ▸ List.mem_map_of_mem hrest)
    · next hsock =>
        intro c hc hstate
        rcases List.mem_cons.mp hc with rfl | hrest
        · exact hsock (hquery c List.mem_cons_self hstate).symm
        · exact ih hsocks.2 (fun c hc => hquery c (List.mem_cons_of_mem _ hc)) c hrest hstate

end Approve

/-- With no connection being asked about, only the record matters. -/
theorem Inv.of_none {t : QueryDesktop}
    (hserials : (t.clients.map QueryClient.serial).Nodup)
    (hfresh : ∀ n ∈ t.clients.map QueryClient.serial, n < t.accepted)
    (hsocks : (t.clients.map QueryClient.sock).Nodup)
    (hknown : ∀ d ∈ t.timedOut, d < t.dialogs.length)
    (htimer : t.queryConnectTimer = false)
    (hnone : ∀ c ∈ t.clients, c.state ≠ .querying) : t.Inv where
  serials := hserials
  fresh := hfresh
  socks := hsocks
  known := hknown
  raised := fun hon => Bool.noConfusion (htimer.symm.trans hon)
  timer := fun c hc hstate => absurd hstate (hnone c hc)
  socket := fun c hc hstate => absurd hstate (hnone c hc)
  id := fun c hc hstate => absurd hstate (hnone c hc)
  last := fun c hc hstate => absurd hstate (hnone c hc)

/-- While the timer does not run, no connection is being asked about. -/
theorem Inv.none_of_timer (h : s.Inv) (htimer : s.queryConnectTimer = false) :
    ∀ c ∈ s.clients, c.state ≠ .querying := fun c hc hstate =>
  Bool.noConfusion (htimer.symm.trans (h.timer c hc hstate))

/-- The answer, or the timeout, is for the connection that is remembered. -/
theorem Inv.answered (h : s.Inv) (accept : Bool) (id : BitVec 32) {timedOut : List ℕ}
    (hknown : ∀ d ∈ timedOut, d < s.dialogs.length) :
    Inv { s with
      clients := approveConnection s.queryConnectSocket accept s.clients
      queryConnectId := id
      queryConnectTimer := false
      timedOut := timedOut } := by
  refine Inv.of_none ?_ ?_ ?_ hknown rfl (none_querying h.socks h.socket)
  · show ((approveConnection _ _ _).map QueryClient.serial).Nodup
    rw [map_approveConnection fun _ => rfl]
    exact h.serials
  · show ∀ n ∈ (approveConnection _ _ _).map QueryClient.serial, _
    rw [map_approveConnection fun _ => rfl]
    exact h.fresh
  · show ((approveConnection _ _ _).map QueryClient.sock).Nodup
    rw [map_approveConnection fun _ => rfl]
    exact h.socks

theorem inv_queryConnection (h : s.Inv) {n : ℕ} {c : QueryClient} (hc : s.clients[n]? = some c)
    (listening : Bool) : (s.queryConnection n listening c).Inv := by
  unfold queryConnection
  split
  · exact h.onClient n (fun _ => rfl) (fun _ => rfl) fun _ hstate => QueryState.noConfusion hstate
  · next hask =>
      have htimer : s.queryConnectTimer = false := by
        cases hon : s.queryConnectTimer with
        | false => rfl
        | true => exact absurd (by rw [hon]; rfl) hask
      -- the only connection that is being asked about now
      have honly : ∀ c' ∈ s.clients.modify n (·.enter .querying),
          c'.state = .querying → c' = c.enter .querying := by
        intro c' hc' hstate
        rcases mem_modify hc' with hold | ⟨old, hold, rfl⟩
        · exact absurd hstate (h.none_of_timer htimer c' hold)
        · rw [Option.some.inj (hold.symm.trans hc)]
      have hserials : (s.clients.modify n (·.enter .querying)).map QueryClient.serial =
          s.clients.map QueryClient.serial :=
        map_modify_same (f := QueryClient.enter .querying) (fun _ => rfl) _ n
      have hsocks : (s.clients.modify n (·.enter .querying)).map QueryClient.sock =
          s.clients.map QueryClient.sock :=
        map_modify_same (f := QueryClient.enter .querying) (fun _ => rfl) _ n
      have hlength : (s.dialogs ++ [(⟨c.serial, c.sock⟩ : Dialog)]).length =
          s.dialogs.length + 1 := List.length_append
      exact
        { serials := hserials ▸ h.serials
          fresh := hserials ▸ h.fresh
          socks := hsocks ▸ h.socks
          known := fun d hd => hlength ▸ Nat.lt_succ_of_lt (h.known d hd)
          raised := fun _ => List.append_ne_nil_of_right_ne_nil _ (List.cons_ne_nil _ _)
          timer := fun _ _ _ => rfl
          socket := fun c' hc' hstate => (honly c' hc' hstate) ▸ rfl
          id := fun c' hc' hstate => (honly c' hc' hstate) ▸ rfl
          last := fun c' hc' hstate =>
            ⟨s.dialogs.length, ⟨c.serial, c.sock⟩, hlength.symm,
              List.getElem?_concat_length, (honly c' hc' hstate) ▸ rfl,
              fun hmem => absurd (h.known _ hmem) (Nat.lt_irrefl _)⟩ }

theorem inv_step (h : s.Inv) (e : QueryEvent) : (s.step e).Inv := by
  cases e with
  | accept sock =>
    unfold step
    dsimp only
    split
    · exact h
    · next hfree =>
        have hsock : sock ∉ s.clients.map QueryClient.sock := by
          intro hmem
          obtain ⟨c, hc, hsame⟩ := List.mem_map.mp hmem
          exact hfree (List.any_eq_true.mpr ⟨c, hc, decide_eq_true hsame⟩)
        have hold : ∀ c ∈ (⟨s.accepted, sock, .handshake⟩ :: s.clients : List QueryClient),
            c.state = .querying → c ∈ s.clients := by
          intro c hc hstate
          rcases List.mem_cons.mp hc with rfl | hmem
          · exact QueryState.noConfusion hstate
          · exact hmem
        exact
          { serials := List.nodup_cons.mpr
              ⟨fun hmem => Nat.lt_irrefl _ (h.fresh _ hmem), h.serials⟩
            fresh := List.forall_mem_cons.mpr
              ⟨Nat.lt_succ_self _, fun n hn => Nat.lt_succ_of_lt (h.fresh n hn)⟩
            socks := List.nodup_cons.mpr ⟨hsock, h.socks⟩
            known := h.known
            raised := h.raised
            timer := fun c hc hstate => h.timer c (hold c hc hstate) hstate
            socket := fun c hc hstate => h.socket c (hold c hc hstate) hstate
            id := fun c hc hstate => h.id c (hold c hc hstate) hstate
            last := fun c hc hstate => h.last c (hold c hc hstate) hstate }
  | removeSocket n =>
    have hsub := List.eraseIdx_sublist s.clients n
    exact h.shrink (hsub.map _) (hsub.map _) fun c hc _ => hsub.subset hc
  | close n =>
    exact h.onClient n (fun _ => rfl) (fun _ => rfl) fun _ hstate => QueryState.noConfusion hstate
  | pass n =>
    refine h.onClient n (fun c => ?_) (fun c => ?_) fun c hstate => ?_
    · unfold QueryClient.pass
      split <;> rfl
    · unfold QueryClient.pass
      split <;> rfl
    · unfold QueryClient.pass at hstate ⊢
      split at hstate
      · exact QueryState.noConfusion hstate
      · next hother => exact if_neg hother
  | queryConnection n listening =>
    unfold step
    dsimp only
    split
    · next c hc =>
        split
        · exact inv_queryConnection h hc listening
        · exact h
    · exact h
  | answer dialog accept =>
    unfold step
    dsimp only
    split
    · unfold approve
      split
      · exact h.answered accept 0 h.known
      · exact h
    · exact h
  | timeout =>
    unfold step
    dsimp only
    split
    · next hon =>
        have hpos := List.length_pos_of_ne_nil (h.raised hon)
        refine h.answered false s.queryConnectId fun d hd => ?_
        rcases List.mem_append.mp hd with hold | hnew
        · exact h.known d hold
        · rw [List.mem_singleton.mp hnew]
          omega
    · exact h

/-! ## Letting in -/

/-- One connection has one serial number. -/
theorem Inv.eq_of_serial (h : s.Inv) {c c' : QueryClient} (hc : c ∈ s.clients)
    (hc' : c' ∈ s.clients) (hserial : c'.serial = c.serial) : c' = c :=
  List.inj_on_of_nodup_map h.serials hc' hc hserial

/-- Who is let in although they were being asked about has an accepting answer, with the id of
their socket. -/
theorem Inv.answer_of_approved (h : s.Inv) {e : QueryEvent} {c c' : QueryClient}
    (hc : c ∈ s.clients) (hquery : c.state = .querying) (hc' : c' ∈ (s.step e).clients)
    (hserial : c'.serial = c.serial) (happroved : c'.state = .approved) :
    ∃ dialog, e = .answer dialog true ∧ s.answerId dialog = some (opaqueId c.sock) := by
  -- a connection that was there before is as it was
  have hstays : c' ∉ s.clients := by
    intro hold
    rw [h.eq_of_serial hc hold hserial, hquery] at happroved
    exact QueryState.noConfusion happroved
  have hmodified : ∀ {n : ℕ} {f : QueryClient → QueryClient}, (∀ c, (f c).serial = c.serial) →
      c' ∈ s.clients.modify n f → f c = c' := by
    intro n f hf hmem
    rcases mem_modify hmem with hold | ⟨old, hold, rfl⟩
    · exact absurd hold hstays
    · rw [h.eq_of_serial hc (List.mem_of_getElem? hold) ((hf old).symm.trans hserial)]
  have hanswered : ∀ {accept : Bool},
      c' ∈ approveConnection s.queryConnectSocket accept s.clients → accept = true := by
    intro accept hmem
    rcases mem_approveConnection hmem with hold | ⟨old, -, -, rfl⟩
    · exact absurd hold hstays
    · cases accept with
      | true => rfl
      | false =>
        unfold QueryClient.approve at happroved
        rw [if_neg (fun hboth => Bool.noConfusion hboth.2)] at happroved
        exact QueryState.noConfusion happroved
  cases e with
  | accept sock =>
    unfold step at hc'
    dsimp only at hc'
    split at hc'
    · exact absurd hc' hstays
    · rcases List.mem_cons.mp hc' with rfl | hold
      · exact QueryState.noConfusion happroved
      · exact absurd hold hstays
  | removeSocket n => exact absurd (List.mem_of_mem_eraseIdx hc') hstays
  | close n =>
    rw [← hmodified (f := QueryClient.enter .closed) (fun _ => rfl) hc'] at happroved
    exact QueryState.noConfusion happroved
  | pass n =>
    have hserials : ∀ c : QueryClient, c.pass.serial = c.serial := by
      intro c
      unfold QueryClient.pass
      split <;> rfl
    have hsame : c.pass = c' := hmodified hserials hc'
    have hkept : c.pass = c := if_neg (by rw [hquery]; exact QueryState.noConfusion)
    exact absurd (hsame ▸ hkept.symm ▸ hc) hstays
  | queryConnection n listening =>
    unfold step at hc'
    dsimp only at hc'
    split at hc'
    · split at hc'
      · unfold queryConnection at hc'
        split at hc'
        · rw [← hmodified (f := QueryClient.enter .closed) (fun _ => rfl) hc'] at happroved
          exact QueryState.noConfusion happroved
        · rw [← hmodified (f := QueryClient.enter .querying) (fun _ => rfl) hc'] at happroved
          exact QueryState.noConfusion happroved
      · exact absurd hc' hstays
    · exact absurd hc' hstays
  | answer dialog accept =>
    unfold step at hc'
    dsimp only at hc'
    split at hc'
    · next id hid =>
        unfold approve at hc'
        split at hc'
        · next hsame =>
            obtain rfl := hanswered hc'
            exact ⟨dialog, rfl, by rw [hid, ← hsame, h.id c hc hquery]⟩
        · exact absurd hc' hstays
    · exact absurd hc' hstays
  | timeout =>
    unfold step at hc'
    dsimp only at hc'
    split at hc'
    · exact Bool.noConfusion (hanswered hc')
    · exact absurd hc' hstays

theorem answeredOwn_step (h : s.Inv) {e : QueryEvent} (hguard : s.NoStaleId e) :
    s.AnsweredOwn e := by
  intro c hc hquery c' hc' hserial happroved
  obtain ⟨dialog, rfl, hid⟩ := h.answer_of_approved hc hquery hc' hserial happroved
  obtain ⟨last, lastDialog, hlast, hdialog, hown, hopen⟩ := h.last c hc hquery
  cases dialog with
  | none => exact absurd (Option.some.inj hid).symm (hguard c hc hquery)
  | some d =>
    obtain ⟨dlg, hdlg, hsame⟩ := Option.map_eq_some_iff.mp hid
    rcases hguard with hlatest | hother
    · obtain rfl : d = last := by omega
      exact ⟨d, lastDialog, rfl, hdialog, hown, hopen⟩
    · exact absurd hsame.symm (hother dlg hdlg c hc hquery)

/-- **Whose answer lets a connection in**, in every run without stale ids. -/
theorem answered_own (queryConnectSocket : BitVec 64) (es : List QueryEvent)
    (hguard : Guarded step NoStaleId (start queryConnectSocket) es) :
    Guarded step AnsweredOwn (start queryConnectSocket) es :=
  guarded_imp (fun _ e h _ => inv_step h e) (fun _ _ h hok => answeredOwn_step h hok)
    (inv_start queryConnectSocket) hguard

/-! ## One address, two connections -/

/-- The first dialog times out, its connection goes, and the next one gets its socket at the
same address. -/
def reusedAddress : List QueryEvent :=
  [.accept 0x7f0010, .queryConnection 0 true, .timeout, .removeSocket 0, .accept 0x7f0010,
    .queryConnection 0 true]

theorem answered_own_reused :
    Guarded step AnsweredOwn (start 0) (reusedAddress ++ [.answer (some 1) true]) :=
  answered_own 0 _ ⟨trivial, trivial, trivial, trivial, trivial, trivial, .inl rfl, trivial⟩

/-- A late answer to the first dialog lets the second connection in. -/
theorem stale_answer_lets_in :
    ¬Guarded step AnsweredOwn (start 0) (reusedAddress ++ [.answer (some 0) true]) := by
  rintro ⟨-, -, -, -, -, -, hown, -⟩
  obtain ⟨d, dlg, hanswer, hdlg, hserial, -⟩ :=
    hown ⟨1, 0x7f0010, .querying⟩ List.mem_cons_self rfl ⟨1, 0x7f0010, .approved⟩
      List.mem_cons_self rfl rfl
  cases hanswer
  cases hdlg
  cases hserial

end QueryDesktop

end KasmVNC.Rfb
