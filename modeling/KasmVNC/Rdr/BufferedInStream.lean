import KasmVNC.Rdr.BufferedOutStream

/-!
# The buffer behind a source

What is read comes out of a buffer that is filled in pieces of whatever size the source has. The
bytes between `ptr` and `end` are the next ones of the source, `offset` and `ptr` say how many
have been read, and the buffer has room whenever it is to be filled.
-/

namespace KasmVNC.Rdr

open KasmVNC.Lib

/-- What one call of `fillBuffer` comes to. It can have brought nothing and still be worth calling
again. -/
inductive Fill
  | took (n : ℕ)
  | nothing
  | thrown (e : Exception)
deriving DecidableEq

/-- `n` bytes of a source. -/
def slice (source : ℕ → Byte) (a n : ℕ) : List Byte :=
  (List.range n).map fun i => source (a + i)

section Slice

variable (source : ℕ → Byte)

@[simp] theorem length_slice (a n : ℕ) : (slice source a n).length = n := by
  rw [slice, List.length_map, List.length_range]

theorem slice_add (a n k : ℕ) :
    slice source a (n + k) = slice source a n ++ slice source (a + n) k := by
  simp only [slice, List.range_add, List.map_append, List.map_map]
  refine congrArg _ (List.map_congr_left fun i _ => ?_)
  rw [Function.comp_apply, Nat.add_assoc]

end Slice

/-- The stream and its source. The buffer starts at 0, so that pointers are numbers. -/
structure BufferedInStream where
  bufSize : ℕ
  offset : SizeT
  mem : Memory Byte
  ptr : ℕ
  endPtr : ℕ
  /-- What the calls of `fillBuffer` will come to. The source is at its end after the last. -/
  fills : List Fill
  /-- How many bytes of the source have been put into the buffer. -/
  taken : ℕ
  /-- How many bytes each call of `fillBuffer` has been asked for. -/
  asked : List ℕ
  /-- The bytes that `ptr` has gone over. -/
  consumed : List Byte

namespace BufferedInStream

/-- A new buffer holds anything. Its size is `DEFAULT_BUF_SIZE`, which is 8192. -/
def create (bufSize : ℕ) (mem : Memory Byte) (fills : List Fill) : BufferedInStream where
  bufSize
  offset := 0
  mem
  ptr := 0
  endPtr := 0
  fills
  taken := 0
  asked := []
  consumed := []

def avail (s : BufferedInStream) : ℕ := s.endPtr - s.ptr

def pos (s : BufferedInStream) : SizeT := s.offset + BitVec.ofNat 64 s.ptr

/-- `memmove(start, ptr, end - ptr)`, and the pointers with it -/
def shuffle (s : BufferedInStream) : BufferedInStream :=
  { s with
    mem := s.mem.store 0 (s.mem.load s.ptr s.avail)
    offset := s.offset + BitVec.ofNat 64 s.ptr
    endPtr := s.endPtr - s.ptr
    ptr := 0 }

/-- `fillBuffer` has been called. -/
def called (maxSize : ℕ) (s : BufferedInStream) : BufferedInStream :=
  { s with fills := s.fills.tail, asked := s.asked ++ [maxSize] }

/-- The bytes that `ptr` goes over next. -/
def front (n : ℕ) (s : BufferedInStream) : List Byte := s.mem.load s.ptr n

/-- `ptr += n` -/
def consume (n : ℕ) (s : BufferedInStream) : BufferedInStream :=
  { s with ptr := s.ptr + n, consumed := s.consumed ++ s.front n }

section Source

variable (source : ℕ → Byte)

/-- The next `n` bytes of the source are in the buffer. -/
def arrive (n : ℕ) (s : BufferedInStream) : BufferedInStream :=
  { s with
    mem := s.mem.store s.endPtr (slice source s.taken n)
    endPtr := s.endPtr + n
    taken := s.taken + n }

/-- When it is to wait, it throws rather than come back with nothing to read. -/
def fillBuffer (maxSize : ℕ) (wait : Bool) (s : BufferedInStream) : Result BufferedInStream Bool :=
  match s.fills with
  | [] => .error .endOfStream (s.called maxSize)
  | .took n :: _ => .ok true ((s.called maxSize).arrive source (min n maxSize))
  | .nothing :: _ =>
    if wait then .error .timedOut (s.called maxSize) else .ok false (s.called maxSize)
  | .thrown e :: _ => .error e (s.called maxSize)

variable {source}

theorem fillBuffer_fills {maxSize : ℕ} {wait more : Bool} {s s' : BufferedInStream}
    (h : fillBuffer source maxSize wait s = .ok more s') : s'.fills.length < s.fills.length := by
  unfold fillBuffer at h
  split at h
  · cases h
  · next hfills =>
      obtain ⟨-, rfl⟩ := EStateM.Result.ok.inj h
      show s.fills.tail.length < s.fills.length
      rw [hfills]
      exact Nat.lt_succ_self _
  · next hfills =>
      split at h
      · cases h
      · obtain ⟨-, rfl⟩ := EStateM.Result.ok.inj h
        show s.fills.tail.length < s.fills.length
        rw [hfills]
        exact Nat.lt_succ_self _
  · cases h

theorem fillBuffer_waits {maxSize : ℕ} {more : Bool} {s s' : BufferedInStream}
    (h : fillBuffer source maxSize true s = .ok more s') : more = true := by
  unfold fillBuffer at h
  split at h
  · cases h
  · exact (EStateM.Result.ok.inj h).1.symm
  · cases h
  · cases h

variable (source)

/-- The loop of `overrun`. -/
def overrunLoop (needed : ℕ) (wait : Bool) (s : BufferedInStream) : Result BufferedInStream Bool :=
  if s.avail < needed then
    match _h : fillBuffer source (s.bufSize - s.endPtr) wait s with
    | .error e s' => .error e s'
    | .ok false s' => .ok false s'
    | .ok true s' => overrunLoop needed wait s'
  else .ok true s
termination_by s.fills.length
decreasing_by exact fillBuffer_fills _h

/-- Do we need to shuffle things around? -/
def makeRoom (needed : ℕ) (s : BufferedInStream) : BufferedInStream :=
  if s.bufSize - s.ptr < needed then s.shuffle else s

def overrun (needed : ℕ) (wait : Bool) (s : BufferedInStream) : Result BufferedInStream Bool :=
  if needed > s.bufSize then
    .error (.exception (s!"BufferedInStream overrun: requested size of {needed} bytes " ++
      s!"exceeds maximum of {s.bufSize} bytes")) s
  else overrunLoop source needed wait (s.makeRoom needed)

/-- The answer is given as a number. -/
def check (needed : ℕ) (wait : Bool) (s : BufferedInStream) : Result BufferedInStream ℕ :=
  if needed > s.avail then
    (overrun source needed wait s).andThen fun more s' => .ok more.toNat s'
  else .ok 1 s

variable {source}

theorem overrunLoop_eq (needed : ℕ) (wait : Bool) (s : BufferedInStream) :
    overrunLoop source needed wait s =
      if s.avail < needed then
        (fillBuffer source (s.bufSize - s.endPtr) wait s).andThen fun more s' =>
          if more then overrunLoop source needed wait s' else .ok false s'
      else .ok true s := by
  rw [overrunLoop]
  split
  · cases fillBuffer source (s.bufSize - s.endPtr) wait s with
    | error e s' => rfl
    | ok more s' => cases more <;> rfl
  · rfl

/-- The bytes that are needed are there, or the stream has not waited for them. -/
theorem overrunLoop_avail {needed : ℕ} {wait more : Bool} {s s' : BufferedInStream}
    (h : overrunLoop source needed wait s = .ok more s') :
    (more = true ∧ needed ≤ s'.avail) ∨ (more = false ∧ wait = false) := by
  induction s using overrunLoop.induct source needed wait with
  | case1 s hlt e t ht =>
    rw [overrunLoop_eq, if_pos hlt, ht] at h
    cases h
  | case2 s hlt t ht =>
    rw [overrunLoop_eq, if_pos hlt, ht] at h
    obtain ⟨rfl, rfl⟩ := EStateM.Result.ok.inj h
    refine .inr ⟨rfl, ?_⟩
    cases wait with
    | false => rfl
    | true => exact absurd (fillBuffer_waits ht) Bool.false_ne_true
  | case3 s hlt t ht ih =>
    rw [overrunLoop_eq, if_pos hlt, ht] at h
    exact ih h
  | case4 s hlt =>
    rw [overrunLoop_eq, if_neg hlt] at h
    obtain ⟨rfl, rfl⟩ := EStateM.Result.ok.inj h
    exact .inl ⟨rfl, Nat.not_lt.mp hlt⟩

theorem check_avail {needed n : ℕ} {wait : Bool} {s s' : BufferedInStream}
    (h : check source needed wait s = .ok n s') :
    (n = 1 ∧ needed ≤ s'.avail) ∨ (n = 0 ∧ wait = false) := by
  unfold check overrun at h
  split at h
  · split at h
    · cases h
    · cases ht : overrunLoop source needed wait (s.makeRoom needed) with
      | error e t =>
        rw [ht] at h
        cases h
      | ok more t =>
        rw [ht] at h
        obtain ⟨rfl, rfl⟩ := EStateM.Result.ok.inj h
        rcases overrunLoop_avail ht with ⟨rfl, havail⟩ | ⟨rfl, hwait⟩
        · exact .inl ⟨rfl, havail⟩
        · exact .inr ⟨rfl, hwait⟩
  · next hle =>
      obtain ⟨rfl, rfl⟩ := EStateM.Result.ok.inj h
      exact .inl ⟨rfl, Nat.not_lt.mp hle⟩

/-- A check that waits gives 1, for however many bytes. -/
theorem check_waits {needed n : ℕ} {s s' : BufferedInStream}
    (h : check source needed true s = .ok n s') : n = 1 ∧ needed ≤ s'.avail := by
  rcases check_avail h with hn | ⟨-, hwait⟩
  · exact hn
  · cases hwait

/-! ## Reading -/

theorem sub_check_lt {length n : ℕ} {s s' : BufferedInStream} (hlength : length ≠ 0)
    (h : check source 1 (decide (length ≠ 0)) s = .ok n s') : length - n < length := by
  rw [decide_eq_true hlength] at h
  obtain ⟨rfl, -⟩ := check_waits h
  omega

variable (source)

def checkNoWait (length : ℕ) (s : BufferedInStream) : Result BufferedInStream Bool :=
  (check source length false s).andThen fun n s' => .ok (n != 0) s'

/-- `check(n)`, and as many times `*ptr++`. -/
def readSmall (n : ℕ) (s : BufferedInStream) : Result BufferedInStream (List Byte) :=
  (check source n true s).andThen fun _ s' => .ok (s'.front n) (s'.consume n)

/-- The one byte of the value. -/
def readU8 : BufferedInStream → Result BufferedInStream (List Byte) := readSmall source 1

/-- The bytes of the value, the most significant one first. -/
def readU16 : BufferedInStream → Result BufferedInStream (List Byte) := readSmall source 2

def readU32 : BufferedInStream → Result BufferedInStream (List Byte) := readSmall source 4

/-- The bytes of the value as they are in memory. -/
def readOpaque16 : BufferedInStream → Result BufferedInStream (List Byte) := readSmall source 2

def readOpaque32 : BufferedInStream → Result BufferedInStream (List Byte) := readSmall source 4

/-- `length` is taken for the flag that says whether to wait, so that `check` gives the number 1
and not a length. -/
def readBytes (length : ℕ) (s : BufferedInStream) : Result BufferedInStream (List Byte) :=
  if length = 0 then .ok [] s
  else
    match _h : check source 1 (decide (length ≠ 0)) s with
    | .error e s' => .error e s'
    | .ok n s' =>
      (readBytes (length - n) (s'.consume n)).andThen fun data s'' =>
        .ok (s'.front n ++ data) s''
termination_by length
decreasing_by exact sub_check_lt ‹_› _h

def skip (bytes : ℕ) (s : BufferedInStream) : Result BufferedInStream Unit :=
  if bytes = 0 then .ok () s
  else
    match _h : check source 1 (decide (bytes ≠ 0)) s with
    | .error e s' => .error e s'
    | .ok n s' => skip (bytes - n) (s'.consume n)
termination_by bytes
decreasing_by exact sub_check_lt ‹_› _h

/-- What can be done with the stream. -/
inductive Op
  | readU8
  | readU16
  | readU32
  | readOpaque16
  | readOpaque32
  | readBytes (length : ℕ)
  | skip (bytes : ℕ)
  | checkNoWait (length : ℕ)

/-- The bytes that are read, in the order they are read in. -/
def Op.exec : Op → BufferedInStream → Result BufferedInStream (List Byte)
  | .readU8 => BufferedInStream.readU8 source
  | .readU16 => BufferedInStream.readU16 source
  | .readU32 => BufferedInStream.readU32 source
  | .readOpaque16 => BufferedInStream.readOpaque16 source
  | .readOpaque32 => BufferedInStream.readOpaque32 source
  | .readBytes length => BufferedInStream.readBytes source length
  | .skip bytes => fun s => (BufferedInStream.skip source bytes s).andThen fun _ s' => .ok [] s'
  | .checkNoWait length => fun s =>
    (BufferedInStream.checkNoWait source length s).andThen fun _ s' => .ok [] s'

/-- An operation that throws is left, and the next one finds the stream as it is. -/
def step (s : BufferedInStream) (op : Op) : BufferedInStream := (op.exec source s).final

/-! ## In order -/

/-- What has been read and what is in the buffer are the first bytes of the source. -/
structure InOrder (s : BufferedInStream) : Prop where
  ptr_le : s.ptr ≤ s.endPtr
  end_le : s.endPtr ≤ s.bufSize
  taken_eq : s.taken = s.consumed.length + s.avail
  held : s.front s.avail = slice source s.consumed.length s.avail
  consumed_eq : s.consumed = slice source 0 s.consumed.length
  pos_eq : s.pos = BitVec.ofNat 64 s.consumed.length
  asked_pos : ∀ n ∈ s.asked, 0 < n

variable {source}

theorem create_inOrder (bufSize : ℕ) (mem : Memory Byte) (fills : List Fill) :
    (create bufSize mem fills).InOrder source :=
  ⟨Nat.le_refl 0, Nat.zero_le bufSize, rfl, rfl, rfl, rfl, nofun⟩

theorem InOrder.called {s : BufferedInStream} (h : s.InOrder source) {maxSize : ℕ}
    (hpos : 0 < maxSize) : (s.called maxSize).InOrder source := by
  refine ⟨h.ptr_le, h.end_le, h.taken_eq, h.held, h.consumed_eq, h.pos_eq, ?_⟩
  intro n hn
  rcases List.mem_append.mp hn with hn | hn
  · exact h.asked_pos n hn
  · rw [List.mem_singleton.mp hn]
    exact hpos

theorem InOrder.arrive {s : BufferedInStream} (h : s.InOrder source) {n : ℕ}
    (hfits : n ≤ s.bufSize - s.endPtr) : (s.arrive source n).InOrder source := by
  have hptr := h.ptr_le
  have hend := h.end_le
  have havail : (s.arrive source n).avail = s.avail + n := by
    show s.endPtr + n - s.ptr = s.endPtr - s.ptr + n
    omega
  have hplace : (s.ptr : ℤ) + (s.avail : ℕ) = s.endPtr := by
    unfold avail
    omega
  constructor
  · exact hptr.trans (Nat.le_add_right _ _)
  · show s.endPtr + n ≤ s.bufSize
    omega
  · rw [havail, ← Nat.add_assoc]
    exact congrArg (· + n) h.taken_eq
  · have hold : (s.mem.store s.endPtr (slice source s.taken n)).load s.ptr s.avail =
        slice source s.consumed.length s.avail :=
      (Memory.load_store_of_le _ hplace.le).trans h.held
    have hnew := Memory.load_store s.mem s.endPtr (slice source s.taken n)
    rw [length_slice] at hnew
    show (s.mem.store s.endPtr (slice source s.taken n)).load s.ptr _ =
      slice source s.consumed.length _
    rw [havail, Memory.load_add, slice_add, hold, hplace, hnew, h.taken_eq]
  · exact h.consumed_eq
  · exact h.pos_eq
  · exact h.asked_pos

theorem InOrder.shuffle {s : BufferedInStream} (h : s.InOrder source) :
    s.shuffle.InOrder source := by
  have hmoved : s.shuffle.front s.avail = s.front s.avail := by
    have hload := Memory.load_store s.mem 0 (s.front s.avail)
    rwa [front, Memory.length_load] at hload
  constructor
  · exact Nat.zero_le _
  · exact (Nat.sub_le _ _).trans h.end_le
  · exact h.taken_eq
  · exact hmoved.trans h.held
  · exact h.consumed_eq
  · have hpos := h.pos_eq
    unfold pos at hpos
    exact (BitVec.add_zero _).trans hpos
  · exact h.asked_pos

theorem length_consumed_consume (n : ℕ) (s : BufferedInStream) :
    (s.consume n).consumed.length = s.consumed.length + n := by
  show (s.consumed ++ s.front n).length = _
  rw [List.length_append, front, Memory.length_load]

/-- What is read is what comes next. -/
theorem InOrder.front_eq {s : BufferedInStream} (h : s.InOrder source) {n : ℕ}
    (hn : n ≤ s.avail) : s.front n = slice source s.consumed.length n := by
  have hheld := h.held
  rw [← Nat.add_sub_cancel' hn, front, Memory.load_add, slice_add] at hheld
  exact (List.append_inj hheld (by simp)).1

theorem InOrder.consume {s : BufferedInStream} (h : s.InOrder source) {n : ℕ} (hn : n ≤ s.avail) :
    (s.consume n).InOrder source := by
  have hptr := h.ptr_le
  have hheld := h.held
  have hrest : s.avail = n + (s.consume n).avail := by
    show s.endPtr - s.ptr = n + (s.endPtr - (s.ptr + n))
    unfold avail at hn
    omega
  have hcount := length_consumed_consume n s
  constructor
  · show s.ptr + n ≤ s.endPtr
    unfold avail at hn
    omega
  · exact h.end_le
  · rw [hcount, Nat.add_assoc, ← hrest]
    exact h.taken_eq
  · rw [hrest, front, Memory.load_add, slice_add] at hheld
    rw [hcount]
    refine Eq.trans ?_ (List.append_inj hheld (by simp)).2
    rw [front, ← Nat.cast_add]
    rfl
  · rw [hcount, slice_add, Nat.zero_add, ← h.consumed_eq, ← h.front_eq hn]
    rfl
  · have hpos := h.pos_eq
    unfold pos at hpos
    show s.offset + BitVec.ofNat 64 (s.ptr + n) = _
    rw [hcount, BitVec.ofNat_add, BitVec.ofNat_add, ← BitVec.add_assoc, hpos]
  · exact h.asked_pos

/-- One stream comes from the other by filling the buffer only. -/
structure Filled (source : ℕ → Byte) (s s' : BufferedInStream) : Prop where
  inOrder : s'.InOrder source
  consumed : s'.consumed = s.consumed
  bufSize : s'.bufSize = s.bufSize
  ptr : s'.ptr = s.ptr

namespace Filled

variable {s s' s'' : BufferedInStream}

theorem refl (h : s.InOrder source) : Filled source s s := ⟨h, rfl, rfl, rfl⟩

theorem trans (h : Filled source s s') (h' : Filled source s' s'') : Filled source s s'' where
  inOrder := h'.inOrder
  consumed := h'.consumed.trans h.consumed
  bufSize := h'.bufSize.trans h.bufSize
  ptr := h'.ptr.trans h.ptr

end Filled

theorem fillBuffer_filled (wait : Bool) {s : BufferedInStream} (h : s.InOrder source)
    (hroom : s.endPtr < s.bufSize) :
    Filled source s (fillBuffer source (s.bufSize - s.endPtr) wait s).final := by
  have hcalled := h.called (Nat.sub_pos_of_lt hroom)
  unfold fillBuffer
  split
  · exact ⟨hcalled, rfl, rfl, rfl⟩
  · exact ⟨hcalled.arrive (Nat.min_le_right _ _), rfl, rfl, rfl⟩
  · split
    · exact ⟨hcalled, rfl, rfl, rfl⟩
    · exact ⟨hcalled, rfl, rfl, rfl⟩
  · exact ⟨hcalled, rfl, rfl, rfl⟩

/-- As long as bytes are missing that the buffer has room for, it is not full. -/
theorem InOrder.end_lt {s : BufferedInStream} (h : s.InOrder source) {needed : ℕ}
    (hroom : needed ≤ s.bufSize - s.ptr) (hlt : s.avail < needed) : s.endPtr < s.bufSize := by
  have hptr := h.ptr_le
  unfold avail at hlt
  omega

theorem overrunLoop_filled {needed : ℕ} (wait : Bool) {s : BufferedInStream}
    (h : s.InOrder source) (hroom : needed ≤ s.bufSize - s.ptr) :
    Filled source s (overrunLoop source needed wait s).final := by
  induction s using overrunLoop.induct source needed wait with
  | case1 s hlt e s' hs =>
    have hturn := fillBuffer_filled wait h (h.end_lt hroom hlt)
    rw [hs] at hturn
    rw [overrunLoop_eq, if_pos hlt, hs]
    exact hturn
  | case2 s hlt s' hs =>
    have hturn := fillBuffer_filled wait h (h.end_lt hroom hlt)
    rw [hs] at hturn
    rw [overrunLoop_eq, if_pos hlt, hs]
    exact hturn
  | case3 s hlt s' hs ih =>
    have hturn := fillBuffer_filled wait h (h.end_lt hroom hlt)
    rw [hs] at hturn
    have hroom' : needed ≤ s'.bufSize - s'.ptr :=
      hroom.trans_eq (congrArg₂ (· - ·) hturn.bufSize hturn.ptr).symm
    rw [overrunLoop_eq, if_pos hlt, hs]
    exact hturn.trans (ih hturn.inOrder hroom')
  | case4 s hlt =>
    rw [overrunLoop_eq, if_neg hlt]
    exact Filled.refl h

/-- Shuffling makes room for as much as the buffer can hold. -/
theorem makeRoom_inOrder (needed : ℕ) {s : BufferedInStream} (h : s.InOrder source)
    (hsize : needed ≤ s.bufSize) : (s.makeRoom needed).InOrder source ∧
      (s.makeRoom needed).consumed = s.consumed ∧
      needed ≤ (s.makeRoom needed).bufSize - (s.makeRoom needed).ptr := by
  unfold makeRoom
  split
  · exact ⟨h.shuffle, rfl, hsize⟩
  · next hroom => exact ⟨h, rfl, Nat.not_lt.mp hroom⟩

/-- The stream has gone over `n` bytes of the source and has given a value, or it has thrown. -/
def Reads {α : Type} (source : ℕ → Byte) (s : BufferedInStream) (n : ℕ) (value : α → Prop) :
    Result BufferedInStream α → Prop
  | .ok a s' => s'.InOrder source ∧ s'.consumed.length = s.consumed.length + n ∧ value a
  | .error _ s' => s'.InOrder source

namespace Reads

variable {α β : Type} {s : BufferedInStream} {n m : ℕ} {value : α → Prop} {value' : β → Prop}

theorem final {r : Result BufferedInStream α} (h : Reads source s n value r) :
    r.final.InOrder source := by
  cases r with
  | ok a s' => exact h.1
  | error e s' => exact h

theorem andThen {r : Result BufferedInStream α}
    {f : α → BufferedInStream → Result BufferedInStream β} (hr : Reads source s n value r)
    (hf : ∀ a s', r = .ok a s' → s'.InOrder source →
      s'.consumed.length = s.consumed.length + n → value a →
      Reads source s' m value' (f a s')) : Reads source s (n + m) value' (r.andThen f) := by
  cases r with
  | error e s' => exact hr
  | ok a s' =>
    obtain ⟨hinOrder, hlength, hvalue⟩ := hr
    have hnext := hf a s' rfl hinOrder hlength hvalue
    rw [Result.andThen]
    cases hs : f a s' with
    | error e s'' =>
      rw [hs] at hnext
      exact hnext
    | ok b s'' =>
      rw [hs] at hnext
      obtain ⟨hinOrder', hlength', hvalue'⟩ := hnext
      refine ⟨hinOrder', ?_, hvalue'⟩
      rw [hlength', hlength, Nat.add_assoc]

end Reads

theorem check_reads (needed : ℕ) (wait : Bool) {s : BufferedInStream} (h : s.InOrder source) :
    Reads source s 0 (fun _ => True) (check source needed wait s) := by
  unfold check overrun
  split
  · split
    · exact h
    · next hsize =>
        obtain ⟨hinOrder, hconsumed, hroom⟩ := makeRoom_inOrder needed h (Nat.not_lt.mp hsize)
        have hfilled := overrunLoop_filled wait hinOrder hroom
        cases hs : overrunLoop source needed wait (s.makeRoom needed) with
        | error e s' =>
          rw [hs] at hfilled
          exact hfilled.inOrder
        | ok more s' =>
          rw [hs] at hfilled
          have hsame : s'.consumed = s.consumed := hfilled.consumed.trans hconsumed
          exact ⟨hfilled.inOrder, congrArg List.length hsame, trivial⟩
  · exact ⟨h, rfl, trivial⟩

/-- A check comes before what is read. -/
theorem Reads.afterCheck {α : Type} {needed m : ℕ} {wait : Bool} {value : α → Prop}
    {f : ℕ → BufferedInStream → Result BufferedInStream α} {s : BufferedInStream}
    (h : s.InOrder source)
    (hf : ∀ n s', check source needed wait s = .ok n s' → s'.InOrder source →
      s'.consumed.length = s.consumed.length → Reads source s' m value (f n s')) :
    Reads source s m value ((check source needed wait s).andThen f) := by
  rw [← Nat.zero_add m]
  exact (check_reads needed wait h).andThen fun n s' hs hinOrder hlength _ =>
    hf n s' hs hinOrder hlength

theorem checkNoWait_reads (length : ℕ) {s : BufferedInStream} (h : s.InOrder source) :
    Reads source s 0 (fun _ => True) (checkNoWait source length s) :=
  Reads.afterCheck h fun _ _ _ hinOrder _ => ⟨hinOrder, rfl, trivial⟩

theorem readSmall_reads (n : ℕ) {s : BufferedInStream} (h : s.InOrder source) :
    Reads source s n (· = slice source s.consumed.length n) (readSmall source n s) := by
  refine Reads.afterCheck h fun _ s' hs hinOrder hlength => ?_
  have havail := (check_waits hs).2
  refine ⟨hinOrder.consume havail, length_consumed_consume n s', ?_⟩
  rw [hinOrder.front_eq havail, hlength]

theorem readBytes_eq (length : ℕ) (s : BufferedInStream) : readBytes source length s =
    if length = 0 then .ok [] s
    else
      (check source 1 (decide (length ≠ 0)) s).andThen fun n s' =>
        (readBytes source (length - n) (s'.consume n)).andThen fun data s'' =>
          .ok (s'.front n ++ data) s'' := by
  rw [readBytes]
  split
  · rfl
  · cases check source 1 (decide (length ≠ 0)) s <;> rfl

theorem readBytes_reads (length : ℕ) {s : BufferedInStream} (h : s.InOrder source) :
    Reads source s length (· = slice source s.consumed.length length)
      (readBytes source length s) := by
  induction length generalizing s with
  | zero =>
    rw [readBytes_eq, if_pos rfl]
    exact ⟨h, rfl, rfl⟩
  | succ length ih =>
    rw [readBytes_eq, if_neg (Nat.succ_ne_zero length),
      decide_eq_true (Nat.succ_ne_zero length)]
    refine Reads.afterCheck h fun n s' hs hinOrder hlength => ?_
    obtain ⟨rfl, havail⟩ := check_waits hs
    have hcount := length_consumed_consume 1 s'
    have hrest := ih (hinOrder.consume havail)
    rw [Nat.add_sub_cancel]
    cases ht : readBytes source length (s'.consume 1) with
    | error e t =>
      rw [ht] at hrest
      exact hrest
    | ok data t =>
      rw [ht] at hrest
      obtain ⟨hinOrder', hlength', rfl⟩ := hrest
      refine ⟨hinOrder', by omega, ?_⟩
      rw [hcount, hinOrder.front_eq havail, ← slice_add, hlength, Nat.add_comm 1]

theorem skip_eq (bytes : ℕ) (s : BufferedInStream) : skip source bytes s =
    if bytes = 0 then .ok () s
    else
      (check source 1 (decide (bytes ≠ 0)) s).andThen fun n s' =>
        skip source (bytes - n) (s'.consume n) := by
  rw [skip]
  split
  · rfl
  · cases check source 1 (decide (bytes ≠ 0)) s <;> rfl

theorem skip_reads (bytes : ℕ) {s : BufferedInStream} (h : s.InOrder source) :
    Reads source s bytes (fun _ => True) (skip source bytes s) := by
  induction bytes generalizing s with
  | zero =>
    rw [skip_eq, if_pos rfl]
    exact ⟨h, rfl, trivial⟩
  | succ bytes ih =>
    rw [skip_eq, if_neg (Nat.succ_ne_zero bytes), decide_eq_true (Nat.succ_ne_zero bytes)]
    refine Reads.afterCheck h fun n s' hs hinOrder hlength => ?_
    obtain ⟨rfl, havail⟩ := check_waits hs
    have hcount := length_consumed_consume 1 s'
    have hrest := ih (hinOrder.consume havail)
    rw [Nat.add_sub_cancel]
    cases ht : skip source bytes (s'.consume 1) with
    | error e t =>
      rw [ht] at hrest
      exact hrest
    | ok u t =>
      rw [ht] at hrest
      exact ⟨hrest.1, by have := hrest.2.1; omega, trivial⟩

/-- How many bytes an operation that returns has gone over. -/
def Op.count : Op → ℕ
  | .readU8 => 1
  | .readU16 | .readOpaque16 => 2
  | .readU32 | .readOpaque32 => 4
  | .readBytes length => length
  | .skip bytes => bytes
  | .checkNoWait _ => 0

/-- How many of these it gives. -/
def Op.given : Op → ℕ
  | .skip _ => 0
  | op => op.count

/-- **An operation gives the next bytes of the source.** -/
theorem exec_reads (op : Op) {s : BufferedInStream} (h : s.InOrder source) :
    Reads source s op.count (· = slice source s.consumed.length op.given) (op.exec source s) := by
  cases op with
  | readU8 => exact readSmall_reads 1 h
  | readU16 => exact readSmall_reads 2 h
  | readU32 => exact readSmall_reads 4 h
  | readOpaque16 => exact readSmall_reads 2 h
  | readOpaque32 => exact readSmall_reads 4 h
  | readBytes length => exact readBytes_reads length h
  | skip bytes =>
    exact (skip_reads bytes h).andThen (m := 0) fun _ _ _ hinOrder _ _ => ⟨hinOrder, rfl, rfl⟩
  | checkNoWait length =>
    exact (checkNoWait_reads length h).andThen (m := 0)
      fun _ _ _ hinOrder _ _ => ⟨hinOrder, rfl, rfl⟩

/-- **What is read is the source**, in any run. -/
theorem run_inOrder (source : ℕ → Byte) {s : BufferedInStream} (h : s.InOrder source)
    (ops : List Op) : (run (step source) s ops).InOrder source :=
  run_invariant_all (I := InOrder source) (fun _ op h => (exec_reads op h).final) ops h

end Source

end BufferedInStream

/-! ## Both streams -/

/-- **Buffered streams lose nothing.** After any operations on an output stream, whatever its
descriptor does, the bytes handed over and those in the buffer are those that have been written,
and their number is the length; what an operation writes is its data; and room can be made for
as much as the buffer holds, if the descriptor takes something whenever it is waited for and does
not fail when it is polled. After any operations on an input stream, whatever its source does,
the bytes gone over are the first ones of the source, their number is the position, and the
buffer has never been filled with nothing; and what an operation reads are the bytes that come
next. -/
theorem buffered_streams_lossless :
    (∀ (fd : ℕ → ℤ → Answer) (bufSize : ℕ) (mem : Memory Byte) (blocking : Bool) (timeoutms : ℤ)
      (ops : List FdOutStream.Op),
      let s := run (FdOutStream.step fd) (FdOutStream.create bufSize mem blocking timeoutms) ops
      s.handed ++ s.buffered = s.written ∧
      s.length = BitVec.ofNat 64 s.written.length ∧
      (∀ op : FdOutStream.Op, s.Wrote op.data (op.exec fd s)) ∧
      ∀ needed ≤ s.bufSize, (∀ k, (fd k s.timeoutms).Progresses) →
        (∃ s', FdOutStream.overrun fd needed s = .ok () s' ∧ needed ≤ s'.avail) ∨
          s.blocking = false ∧ ∃ k ≥ s.sends, (fd k 0).Fails) ∧
    ∀ (source : ℕ → Byte) (bufSize : ℕ) (mem : Memory Byte) (fills : List Fill)
      (ops : List BufferedInStream.Op),
      let s := run (BufferedInStream.step source) (BufferedInStream.create bufSize mem fills) ops
      s.consumed = slice source 0 s.consumed.length ∧
      s.pos = BitVec.ofNat 64 s.consumed.length ∧
      (∀ n ∈ s.asked, 0 < n) ∧
      ∀ op : BufferedInStream.Op,
        s.Reads source op.count (· = slice source s.consumed.length op.given)
          (op.exec source s) := by
  constructor
  · intro fd bufSize mem blocking timeoutms ops s
    have hs : s.Conserves :=
      FdOutStream.run_conserves fd (FdOutStream.create_conserves bufSize mem blocking timeoutms) ops
    refine ⟨hs.bytes, hs.length_eq, fun op => FdOutStream.exec_wrote op hs, ?_⟩
    intro needed hneeded hwait
    exact FdOutStream.overrun_ends hs hneeded hwait
  · intro source bufSize mem fills ops s
    have hs : s.InOrder source := BufferedInStream.run_inOrder source
      (BufferedInStream.create_inOrder bufSize mem fills) ops
    exact ⟨hs.consumed_eq, hs.pos_eq, hs.asked_pos, fun op => BufferedInStream.exec_reads op hs⟩

/-- Two words fill a buffer of eight bytes, and a descriptor that takes three at a time empties
it. -/
theorem buffered_streams_lossless_emptied :
    ∃ s', FdOutStream.overrun (fun _ _ => ⟨1, 3⟩) 8
      (run (FdOutStream.step fun _ _ => ⟨1, 3⟩) (FdOutStream.create 8 (fun _ => 0) false (-1))
        [.writeU32 1, .writeU32 2]) = .ok () s' ∧ 8 ≤ s'.avail := by
  have hends := (buffered_streams_lossless.1 (fun _ _ => ⟨1, 3⟩) 8 (fun _ => 0) false (-1)
    [.writeU32 1, .writeU32 2]).2.2.2 8 (Nat.le_refl 8) fun _ => ⟨by decide, by decide⟩
  rcases hends with hroom | ⟨-, k, -, hselect | ⟨-, hsend⟩⟩
  · exact hroom
  · exact absurd hselect (by decide)
  · exact absurd hsend (by decide)

end KasmVNC.Rdr
