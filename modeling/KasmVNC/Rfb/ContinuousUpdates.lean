import KasmVNC.Rfb.PendingFlags

/-!
# The announcement of continuous updates

A client is told with EndOfContinuousUpdates that it may ask for continuous
updates. The server does so at the SetEncodings message that is the first to
list ContinuousUpdates, provided that it knows by then that the client supports
fences. A client whose fences come later is not told any more.
-/

namespace KasmVNC.Rfb

open KasmVNC.Lib

/-- A SetEncodings message, with what the server makes of the cursor when it
arrives. -/
structure EncodingsMsg where
  watermarkImage : Bool
  encodings : List ℤ
  rendered : Bool
  cursor : Cursor

namespace EncodingsMsg

def fence (m : EncodingsMsg) : Bool := pseudoEncodingFence ∈ m.encodings

def continuousUpdates (m : EncodingsMsg) : Bool :=
  pseudoEncodingContinuousUpdates ∈ m.encodings

end EncodingsMsg

namespace Conn

def receive (c : Conn) (m : EncodingsMsg) : Except WriterError Conn :=
  c.setEncodings m.watermarkImage m.encodings m.rendered m.cursor

/-- A message is handled, and its client is told of continuous updates by the
time it lists both encodings. Nothing is said before the two are known, nor to a
client that does not list ContinuousUpdates. -/
def Announces (c : Conn) (m : EncodingsMsg) : Prop :=
  ∃ c', c.receive m = .ok c' ∧
    (m.fence → m.continuousUpdates → .endOfContinuousUpdates ∈ c'.writer.os) ∧
    ∃ new, c'.writer.os = c.writer.os ++ new ∧
      (.endOfContinuousUpdates ∈ new →
        m.continuousUpdates ∧ c'.cp.supportsFence ∧ c'.cp.supportsContinuousUpdates)

end Conn

/-- The first of the messages to list ContinuousUpdates lists Fence as well, or
comes after one that does. -/
def FenceInTime : List EncodingsMsg → Prop
  | [] => True
  | m :: ms => m.fence ∨ (¬ m.continuousUpdates ∧ FenceInTime ms)

/-! ## One message -/

namespace Conn

/-- A callback that appends to the stream and leaves the capabilities alone. -/
def Writes (c : Conn) (out : List WriterOut) (r : Except WriterError Conn) : Prop :=
  ∃ c', r = .ok c' ∧ c'.cp = c.cp ∧ c'.writer.os = c.writer.os ++ out

@[simp] theorem mark_os (w : SMsgWriter) (supported : Bool) (p : PseudoRect) :
    (w.mark supported p).1.os = w.os := by
  unfold SMsgWriter.mark
  split_ifs <;> rfl

@[simp] theorem writeCursor_os (cp : ConnParams) (w : SMsgWriter) :
    (writeCursor cp w).os = w.os := by
  unfold writeCursor
  split_ifs
  · exact mark_os w _ _
  · exact mark_os w _ _
  · exact mark_os w _ _
  · exact mark_os w _ _

variable {c : Conn} {old : ConnParams} {out out' : List WriterOut} {r : Except WriterError Conn}

theorem Writes.bind (h : c.Writes out r) {f : Conn → Except WriterError Conn}
    (hf : ∀ c' : Conn, c'.cp = c.cp → c'.Writes out' (f c')) :
    c.Writes (out ++ out') (r >>= f) := by
  obtain ⟨c₁, hr, hcp, hos⟩ := h
  obtain ⟨c₂, hf', hcp', hos'⟩ := hf c₁ hcp
  refine ⟨c₂, (bind_ok hr f).trans hf', hcp'.trans hcp, ?_⟩
  rw [hos', hos, List.append_assoc]

theorem onFirst_writes {get : ConnParams → Bool} {act : Conn → Except WriterError Conn}
    (hact : get c.cp = true → c.Writes out (act c)) :
    c.Writes (if get c.cp && !get old then out else []) (c.onFirst get old act) := by
  unfold onFirst
  by_cases hfirst : (get c.cp && !get old) = true
  · rw [if_pos hfirst, if_pos hfirst]
    exact hact (Bool.and_eq_true_iff.mp hfirst).1
  · rw [if_neg hfirst, if_neg hfirst]
    exact ⟨c, rfl, rfl, (List.append_nil _).symm⟩

theorem mark_writes (supported : ConnParams → Bool) (p : PseudoRect) :
    c.Writes [] (.ok { c with writer := (c.writer.mark (supported c.cp) p).1 }) := by
  refine ⟨_, rfl, rfl, ?_⟩
  simp

theorem supportsFence_writes (hs : c.cp.supportsFence = true) :
    c.Writes [.fence fenceFlagRequest [0]] c.supportsFence := by
  have hwrite : c.writer.writeFence c.cp fenceFlagRequest [0] =
      .ok { c.writer with os := c.writer.os ++ [.fence fenceFlagRequest [0]] } := by
    rw [SMsgWriter.writeFence, if_neg (by simp [hs]), if_neg (by decide), if_neg (by decide)]
  exact ⟨_, bind_ok hwrite _, rfl, rfl⟩

theorem supportsContinuousUpdates_writes (hs : c.cp.supportsContinuousUpdates = true) :
    c.Writes (if c.cp.supportsFence then [.endOfContinuousUpdates] else [])
      c.supportsContinuousUpdates := by
  unfold supportsContinuousUpdates
  cases hfence : c.cp.supportsFence with
  | false => exact ⟨c, rfl, rfl, (List.append_nil _).symm⟩
  | true =>
    have hwrite : c.writer.writeEndOfContinuousUpdates c.cp =
        .ok { c.writer with os := c.writer.os ++ [.endOfContinuousUpdates] } :=
      if_neg (by simp [hs])
    exact ⟨_, bind_ok hwrite _, rfl, rfl⟩

theorem onFirst_mark_writes (get supported : ConnParams → Bool) (p : PseudoRect) :
    c.Writes [] (c.onFirst get old
      fun c => .ok { c with writer := (c.writer.mark (supported c.cp) p).1 }) := by
  have h : c.Writes (if get c.cp && !get old then [] else []) (c.onFirst get old
      fun c => .ok { c with writer := (c.writer.mark (supported c.cp) p).1 }) :=
    onFirst_writes fun _ => mark_writes supported p
  rwa [ite_self] at h

/-- What the callbacks of one message append. -/
def announced (cp old : ConnParams) : List WriterOut :=
  (if cp.supportsFence && !old.supportsFence then [.fence fenceFlagRequest [0]] else []) ++
    if cp.supportsContinuousUpdates && !old.supportsContinuousUpdates then
      if cp.supportsFence then [.endOfContinuousUpdates] else []
    else []

theorem announce_writes : c.Writes (announced c.cp old) (c.announce old) := by
  rw [← List.append_nil (announced c.cp old), announced, List.append_assoc]
  refine (onFirst_writes supportsFence_writes).bind fun c₁ h₁ => ?_
  rw [← h₁]
  refine (onFirst_writes supportsContinuousUpdates_writes).bind fun c₂ _ => ?_
  rw [← List.append_nil []]
  refine (onFirst_mark_writes _ (fun cp => cp.supportsLEDState && cp.ledState != ledUnknown)
    _).bind fun c₃ _ => ?_
  exact onFirst_mark_writes _ (·.supportsQEMUKeyEvent) _

theorem mem_announced {cp : ConnParams} :
    .endOfContinuousUpdates ∈ announced cp old ↔
      cp.supportsFence ∧ cp.supportsContinuousUpdates ∧ ¬ old.supportsContinuousUpdates := by
  unfold announced
  cases cp.supportsFence <;> cases cp.supportsContinuousUpdates <;>
    cases old.supportsContinuousUpdates <;> simp

/-- The client has been told of continuous updates. -/
def Told (c : Conn) : Prop := .endOfContinuousUpdates ∈ c.writer.os

/-- A message adds to the two capabilities and never fails. The client is told
when ContinuousUpdates is new and fences are known. -/
theorem receive_spec (c : Conn) (m : EncodingsMsg) : ∃ c' out,
    c.receive m = .ok c' ∧ c'.writer.os = c.writer.os ++ out ∧
      c'.cp.supportsFence = (c.cp.supportsFence || m.fence) ∧
      c'.cp.supportsContinuousUpdates =
        (c.cp.supportsContinuousUpdates || m.continuousUpdates) ∧
      (.endOfContinuousUpdates ∈ out ↔
        c'.cp.supportsFence ∧ m.continuousUpdates ∧ ¬ c.cp.supportsContinuousUpdates) := by
  let c₁ := { c with cp := c.cp.setEncodings m.watermarkImage m.encodings }
  obtain ⟨c', hc', hcp, hos⟩ :
      (c₁.setCursor m.rendered m.cursor).Writes _ (c.receive m) := announce_writes
  have hfence : c'.cp.supportsFence = (c.cp.supportsFence || m.fence) := by
    rw [hcp]
    exact ConnParams.setEncodings_fence m.watermarkImage m.encodings c.cp
  have hcu : c'.cp.supportsContinuousUpdates =
      (c.cp.supportsContinuousUpdates || m.continuousUpdates) := by
    rw [hcp]
    exact ConnParams.setEncodings_continuousUpdates m.watermarkImage m.encodings c.cp
  refine ⟨c', _, hc', hos.trans (congrArg (· ++ _) (writeCursor_os _ _)), hfence, hcu, ?_⟩
  rw [mem_announced, ← hcp, hcu]
  cases c.cp.supportsContinuousUpdates <;> simp

theorem announces_iff (c : Conn) (m : EncodingsMsg) :
    c.Announces m ↔
      (m.fence → m.continuousUpdates → c.Told ∨ ¬ c.cp.supportsContinuousUpdates) := by
  obtain ⟨c', out, hc', hos, hfence, hcu, hout⟩ := c.receive_spec m
  constructor
  · rintro ⟨c'', hc'', htold, -⟩ hf hm
    obtain rfl : c' = c'' := Except.ok.inj (hc'.symm.trans hc'')
    have hmem := htold hf hm
    rw [hos, List.mem_append, hout] at hmem
    exact hmem.imp_right fun h => h.2.2
  · intro h
    refine ⟨c', hc', fun hf hm => ?_, out, hos, fun hmem => ?_⟩
    · rw [hos, List.mem_append, hout, hfence, hf, Bool.or_true]
      exact (h hf hm).imp_right fun hnew => ⟨rfl, hm, hnew⟩
    · obtain ⟨hf, hm, -⟩ := hout.mp hmem
      refine ⟨hm, hf, ?_⟩
      rw [hcu, hm, Bool.or_true]

theorem receive_told {c' : Conn} {m : EncodingsMsg} (h : c.receive m = .ok c') :
    c'.cp.supportsFence = (c.cp.supportsFence || m.fence) ∧
      c'.cp.supportsContinuousUpdates =
        (c.cp.supportsContinuousUpdates || m.continuousUpdates) ∧
      (c'.Told ↔ c.Told ∨ (c.cp.supportsFence ∨ m.fence) ∧ m.continuousUpdates ∧
        ¬ c.cp.supportsContinuousUpdates) := by
  obtain ⟨c'', out, hc'', hos, hfence, hcu, hout⟩ := c.receive_spec m
  obtain rfl : c' = c'' := Except.ok.inj (h.symm.trans hc'')
  refine ⟨hfence, hcu, ?_⟩
  rw [Told, hos, List.mem_append, hout, hfence, Bool.or_eq_true]
  exact Iff.rfl

/-! ## Sequences of messages -/

/-- The client is told, or will be as soon as it lists ContinuousUpdates. -/
theorem announces_settled (ms : List EncodingsMsg) : ∀ {c : Conn}, c.cp.supportsFence →
    (c.cp.supportsContinuousUpdates → c.Told) → TryGuarded receive Announces c ms := by
  induction ms with
  | nil => exact fun _ _ => trivial
  | cons m ms ih =>
    intro c hf htold
    refine ⟨(c.announces_iff m).mpr fun _ _ => ?_, fun c' hc' => ?_⟩
    · by_cases hcu : c.cp.supportsContinuousUpdates = true
      · exact .inl (htold hcu)
      · exact .inr hcu
    · obtain ⟨hf', hcu', htold'⟩ := receive_told hc'
      apply ih
      · rw [hf', hf, Bool.true_or]
      · intro h
        rw [htold']
        by_cases hcu : c.cp.supportsContinuousUpdates = true
        · exact .inl (htold hcu)
        · rw [hcu', Bool.or_eq_true] at h
          exact .inr ⟨.inl hf, h.resolve_left hcu, hcu⟩

/-- ContinuousUpdates is known and the client has not been told: it never will be. -/
theorem announces_missed (ms : List EncodingsMsg) : ∀ {c : Conn},
    c.cp.supportsContinuousUpdates → ¬ c.Told →
      (TryGuarded receive Announces c ms ↔ ∀ m ∈ ms, ¬ (m.fence ∧ m.continuousUpdates)) := by
  induction ms with
  | nil => exact fun _ _ => iff_of_true trivial (by simp)
  | cons m ms ih =>
    intro c hcu htold
    obtain ⟨c', -, hc', -⟩ := c.receive_spec m
    obtain ⟨-, hcu', htold'⟩ := receive_told hc'
    have hcu₁ : c'.cp.supportsContinuousUpdates = true := by rw [hcu', hcu, Bool.true_or]
    have htold₁ : ¬ c'.Told := by
      rw [htold']
      rintro (h | ⟨-, -, h⟩)
      · exact htold h
      · exact h hcu
    rw [tryGuarded_cons_iff hc', ih hcu₁ htold₁, List.forall_mem_cons, announces_iff]
    refine and_congr_left fun _ => ?_
    simp [htold, hcu]

/-- Nothing is known yet. -/
theorem announces_fresh (ms : List EncodingsMsg) : ∀ {c : Conn},
    ¬ c.cp.supportsFence → ¬ c.cp.supportsContinuousUpdates → ¬ c.Told →
      (TryGuarded receive Announces c ms ↔
        FenceInTime ms ∨ ∀ m ∈ ms, ¬ (m.fence ∧ m.continuousUpdates)) := by
  induction ms with
  | nil => exact fun _ _ _ => iff_of_true trivial (.inl trivial)
  | cons m ms ih =>
    intro c hf hcu htold
    obtain ⟨c', -, hc', -⟩ := c.receive_spec m
    obtain ⟨hf', hcu', htold'⟩ := receive_told hc'
    have hfirst : c.Announces m := (c.announces_iff m).mpr fun _ _ => .inr hcu
    rw [tryGuarded_cons_iff hc', and_iff_right hfirst, FenceInTime]
    by_cases hmf : m.fence = true
    · refine iff_of_true (announces_settled ms ?_ fun h => ?_) (.inl (.inl hmf))
      · rw [hf', hmf, Bool.or_true]
      · rw [hcu', Bool.or_eq_true] at h
        exact htold'.mpr (.inr ⟨.inr hmf, h.resolve_left hcu, hcu⟩)
    · have htold₁ : ¬ c'.Told := by
        rw [htold']
        rintro (h | ⟨h | h, -⟩)
        · exact htold h
        · exact hf h
        · exact hmf h
      by_cases hmc : m.continuousUpdates = true
      · have hcu₁ : c'.cp.supportsContinuousUpdates = true := by rw [hcu', hmc, Bool.or_true]
        rw [announces_missed ms hcu₁ htold₁, List.forall_mem_cons]
        simp [hmf, hmc]
      · have hf₁ : ¬ c'.cp.supportsFence := by simp [hf', hf, hmf]
        have hcu₁ : ¬ c'.cp.supportsContinuousUpdates := by simp [hcu', hcu, hmc]
        rw [ih hf₁ hcu₁ htold₁, List.forall_mem_cons]
        simp [hmf, hmc]

end Conn

/-- **Continuous updates are announced** at every message of a sequence exactly if
Fence is listed no later than ContinuousUpdates, or never together with it. -/
theorem continuous_updates_announced_iff (width height : ℕ) (layout : ScreenSet) (name : String)
    (ledState : BitVec 32) (ms : List EncodingsMsg) :
    TryGuarded Conn.receive Conn.Announces (Conn.start width height layout name ledState) ms ↔
      FenceInTime ms ∨ ∀ m ∈ ms, ¬ (m.fence ∧ m.continuousUpdates) :=
  Conn.announces_fresh ms (nomatch ·) (nomatch ·) (nomatch ·)

/-- A client that adds Fence in its second message supports both encodings then, and
is not told. -/
theorem late_fence_not_announced :
    ¬ ∀ ms : List EncodingsMsg,
      TryGuarded Conn.receive Conn.Announces (Conn.start 2 2 [] "x" 0) ms := by
  intro h
  let first : EncodingsMsg := ⟨false, [pseudoEncodingContinuousUpdates], false, ⟨1, 1, (0, 0)⟩⟩
  let both : EncodingsMsg :=
    ⟨false, [pseudoEncodingContinuousUpdates, pseudoEncodingFence], false, ⟨1, 1, (0, 0)⟩⟩
  obtain ⟨-, hrest⟩ := h [first, both]
  obtain ⟨⟨c', hc', htold, -⟩, -⟩ := hrest _ rfl
  obtain rfl := Except.ok.inj hc'
  revert htold
  decide

end KasmVNC.Rfb
