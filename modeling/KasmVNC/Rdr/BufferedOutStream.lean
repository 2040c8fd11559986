import KasmVNC.Lib.Memory
import KasmVNC.Lib.Run

/-!
# The buffer in front of a descriptor

What is written goes into a buffer, and from there to the descriptor, in pieces of whatever size
it takes. Three pointers and a count are moved by that: `sentUpTo` follows `ptr`, both go back to
the start when they meet, and the bytes between them are shuffled down where that makes enough
room. The bytes the descriptor has taken followed by those between the two pointers are what has
been written, whatever the descriptor does and wherever an operation is thrown out.
-/

namespace KasmVNC.Rdr

open KasmVNC.Lib

/-- `size_t` -/
abbrev SizeT := BitVec 64

inductive Exception
  | exception (str : String)
  | systemException (s : String)
  | timedOut
  | endOfStream
deriving DecidableEq

/-- What an operation gives, or throws, and what it leaves. -/
abbrev Result (σ α : Type) := EStateM.Result Exception σ α

namespace Result

variable {σ α β : Type}

/-- What is left in either case. -/
def final : Result σ α → σ
  | .ok _ s => s
  | .error _ s => s

def andThen (r : Result σ α) (f : α → σ → Result σ β) : Result σ β :=
  match r with
  | .ok a s => f a s
  | .error e s => .error e s

end Result

/-- What `select` and `send` return in the end, when they have been called again as often as they
were interrupted. -/
structure Answer where
  select : ℤ
  send : ℤ
deriving DecidableEq

/-- The descriptor takes something. -/
def Answer.Progresses (a : Answer) : Prop := 0 < a.select ∧ 0 < a.send

/-- One of the two calls goes wrong. -/
def Answer.Fails (a : Answer) : Prop := a.select < 0 ∨ 0 < a.select ∧ a.send < 0

/-- No more than there is can be sent. -/
def writeWithTimeout (a : Answer) (length : ℕ) : Except Exception ℕ :=
  if a.select < 0 then .error (.systemException "select")
  else if a.select = 0 then .ok 0
  else if a.send < 0 then .error (.systemException "write")
  else .ok (min a.send.toNat length)

/-- The stream and its descriptor. The buffer starts at 0, so that pointers are numbers. -/
structure FdOutStream where
  bufSize : ℕ
  offset : SizeT
  mem : Memory Byte
  ptr : ℕ
  sentUpTo : ℕ
  blocking : Bool
  timeoutms : ℤ
  /-- How often the descriptor has been asked. -/
  sends : ℕ
  /-- What it has taken. -/
  handed : List Byte
  /-- What has been put into the buffer since the stream was made. -/
  written : List Byte

namespace FdOutStream

/-- A new buffer holds anything. Its size is `DEFAULT_BUF_SIZE`, which is 16384. -/
def create (bufSize : ℕ) (mem : Memory Byte) (blocking : Bool) (timeoutms : ℤ) : FdOutStream where
  bufSize
  offset := 0
  mem
  ptr := 0
  sentUpTo := 0
  blocking
  timeoutms
  sends := 0
  handed := []
  written := []

def avail (s : FdOutStream) : ℕ := s.bufSize - s.ptr

def bufferUsage (s : FdOutStream) : ℕ := s.ptr - s.sentUpTo

def length (s : FdOutStream) : SizeT := s.offset + BitVec.ofNat 64 (s.ptr - s.sentUpTo)

/-- The bytes still in the buffer. -/
def buffered (s : FdOutStream) : List Byte := s.mem.load s.sentUpTo (s.ptr - s.sentUpTo)

/-! ## Flushing -/

def setTimeout (timeoutms : ℤ) (s : FdOutStream) : FdOutStream := { s with timeoutms }

def setBlocking (blocking : Bool) (s : FdOutStream) : FdOutStream := { s with blocking }

/-- The descriptor has been asked. -/
def asked (s : FdOutStream) : FdOutStream := { s with sends := s.sends + 1 }

/-- `sentUpTo += n` -/
def advance (n : ℕ) (s : FdOutStream) : FdOutStream :=
  { s with sentUpTo := s.sentUpTo + n, handed := s.handed ++ s.mem.load s.sentUpTo n }

/-- How long the descriptor is waited for. -/
def timeout (wait : Bool) (s : FdOutStream) : ℤ := if s.blocking || wait then s.timeoutms else 0

/-- `offset += len - bufferUsage()` -/
def addOffset (len : ℕ) (s : FdOutStream) : FdOutStream :=
  { s with offset := s.offset + BitVec.ofNat 64 (len - s.bufferUsage) }

/-- `if (sentUpTo == ptr) ptr = sentUpTo = start` -/
def restart (s : FdOutStream) : FdOutStream :=
  if s.sentUpTo = s.ptr then { s with ptr := 0, sentUpTo := 0 } else s

/-- `memmove(start, sentUpTo, ptr - sentUpTo)` -/
def shuffle (s : FdOutStream) : FdOutStream :=
  { s with
    mem := s.mem.store 0 (s.mem.load s.sentUpTo s.bufferUsage)
    ptr := s.bufferUsage
    sentUpTo := 0 }

section Descriptor

variable (fd : ℕ → ℤ → Answer)

def flushBuffer (wait : Bool) (s : FdOutStream) : Result FdOutStream Bool :=
  match writeWithTimeout (fd s.sends (s.timeout wait)) s.bufferUsage with
  | .error e => .error e s.asked
  | .ok n =>
    if n = 0 then
      if !s.blocking && !wait then .ok false s.asked else .error .timedOut s.asked
    else .ok true (s.asked.advance n)

variable {fd}

theorem writeWithTimeout_le {a : Answer} {length n : ℕ} (h : writeWithTimeout a length = .ok n) :
    n ≤ length := by
  unfold writeWithTimeout at h
  split at h
  · cases h
  · split at h
    · obtain rfl := Except.ok.inj h
      exact Nat.zero_le _
    · split at h
      · cases h
      · obtain rfl := Except.ok.inj h
        exact Nat.min_le_right _ _

theorem writeWithTimeout_error {a : Answer} {length : ℕ} {e : Exception}
    (h : writeWithTimeout a length = .error e) : a.Fails := by
  unfold writeWithTimeout at h
  split at h
  · next hselect => exact .inl hselect
  · split at h
    · cases h
    · split at h
      · next hsend => exact .inr ⟨by omega, hsend⟩
      · cases h

/-- Everything a flush of the buffer can do. -/
theorem flushBuffer_cases (fd : ℕ → ℤ → Answer) (wait : Bool) (s : FdOutStream) :
    (∃ n, 0 < n ∧ n ≤ s.bufferUsage ∧ flushBuffer fd wait s = .ok true (s.asked.advance n)) ∨
    (s.blocking = false ∧ wait = false ∧ flushBuffer fd wait s = .ok false s.asked) ∨
    (∃ e, flushBuffer fd wait s = .error e s.asked) := by
  unfold flushBuffer
  cases hn : writeWithTimeout (fd s.sends (s.timeout wait)) s.bufferUsage with
  | error e => exact .inr (.inr ⟨e, rfl⟩)
  | ok n =>
    simp only
    split
    · split
      · next hpoll =>
          rw [Bool.and_eq_true, Bool.not_eq_true', Bool.not_eq_true'] at hpoll
          exact .inr (.inl ⟨hpoll.1, hpoll.2, rfl⟩)
      · exact .inr (.inr ⟨_, rfl⟩)
    · next hpos => exact .inl ⟨n, Nat.pos_of_ne_zero hpos, writeWithTimeout_le hn, rfl⟩

@[simp] theorem bufferUsage_addOffset (len : ℕ) (s : FdOutStream) :
    (s.addOffset len).bufferUsage = s.bufferUsage := rfl

@[simp] theorem bufferUsage_restart (s : FdOutStream) : s.restart.bufferUsage = s.bufferUsage := by
  unfold restart
  split
  · next heq =>
      rw [bufferUsage, bufferUsage, heq]
      exact (Nat.sub_self s.ptr).symm
  · rfl

@[simp] theorem bufferUsage_shuffle (s : FdOutStream) : s.shuffle.bufferUsage = s.bufferUsage :=
  Nat.sub_zero _

/-- A flush of the buffer that has sent something leaves less in it. -/
theorem flushBuffer_usage {wait : Bool} {s s' : FdOutStream}
    (h : flushBuffer fd wait s = .ok true s') : s'.bufferUsage < s.bufferUsage := by
  rcases flushBuffer_cases fd wait s with ⟨n, hpos, hle, hs⟩ | ⟨-, -, hs⟩ | ⟨e, hs⟩
  · rw [h] at hs
    obtain ⟨-, rfl⟩ := EStateM.Result.ok.inj hs
    show s.ptr - (s.sentUpTo + n) < s.ptr - s.sentUpTo
    unfold bufferUsage at hle
    omega
  · rw [h] at hs
    exact absurd (EStateM.Result.ok.inj hs).1 (by decide)
  · rw [h] at hs
    cases hs

/-- A flush that waits does not come back without having sent something. -/
theorem flushBuffer_waits {s s' : FdOutStream} {b : Bool}
    (h : flushBuffer fd true s = .ok b s') : flushBuffer fd true s = .ok true s' := by
  rcases flushBuffer_cases fd true s with ⟨n, -, -, hs⟩ | ⟨-, hwait, -⟩ | ⟨e, hs⟩
  · rw [h] at hs
    obtain ⟨rfl, -⟩ := EStateM.Result.ok.inj hs
    exact h
  · cases hwait
  · rw [h] at hs
    cases hs

variable (fd)

/-- The loop of `flush`. -/
def flushLoop (s : FdOutStream) : Result FdOutStream Unit :=
  if s.sentUpTo < s.ptr then
    match _h : flushBuffer fd false s with
    | .error e s' => .error e s'
    | .ok false s' => .ok () s'
    | .ok true s' => flushLoop (s'.addOffset s.bufferUsage)
  else .ok () s
termination_by s.bufferUsage
decreasing_by
  rw [bufferUsage_addOffset]
  exact flushBuffer_usage _h

def flush (s : FdOutStream) : Result FdOutStream Unit :=
  (flushLoop fd s).andThen fun _ s' => .ok () s'.restart

/-! ## Making room -/

/-- The loop of `overrun`. -/
def overrunLoop (needed : ℕ) (s : FdOutStream) : Result FdOutStream Unit :=
  if needed > s.avail then
    -- can we shuffle things around?
    if s.sentUpTo > s.bufSize / 4 ∧ needed < s.bufSize - (s.ptr - s.sentUpTo) then
      overrunLoop needed s.shuffle
    else
      match _h : flushBuffer fd true s with
      | .error e s' => .error e s'
      | .ok _ s' => overrunLoop needed (s'.addOffset s.bufferUsage).restart
  else .ok () s
termination_by (s.bufferUsage, s.sentUpTo)
decreasing_by
  · rename_i hshuffle
    rw [bufferUsage_shuffle]
    exact Prod.Lex.right _ (Nat.zero_lt_of_lt hshuffle.1)
  · rw [bufferUsage_restart, bufferUsage_addOffset]
    exact Prod.Lex.left _ _ (flushBuffer_usage (flushBuffer_waits _h))

def overrun (needed : ℕ) (s : FdOutStream) : Result FdOutStream Unit :=
  if needed > s.bufSize then
    .error (.exception (s!"BufferedOutStream overrun: requested size of {needed} bytes " ++
      s!"exceeds maximum of {s.bufSize} bytes")) s
  else (flush fd s).andThen fun _ s' => overrunLoop fd needed s'

def check (needed : ℕ) (s : FdOutStream) : Result FdOutStream Unit :=
  if needed > s.avail then overrun fd needed s else .ok () s

variable {fd}

theorem flushLoop_eq (s : FdOutStream) : flushLoop fd s =
    if s.sentUpTo < s.ptr then
      (flushBuffer fd false s).andThen fun more s' =>
        if more then flushLoop fd (s'.addOffset s.bufferUsage) else .ok () s'
    else .ok () s := by
  rw [flushLoop]
  split
  · cases flushBuffer fd false s with
    | error e s' => rfl
    | ok more s' => cases more <;> rfl
  · rfl

theorem overrunLoop_eq (needed : ℕ) (s : FdOutStream) : overrunLoop fd needed s =
    if needed > s.avail then
      if s.sentUpTo > s.bufSize / 4 ∧ needed < s.bufSize - (s.ptr - s.sentUpTo) then
        overrunLoop fd needed s.shuffle
      else
        (flushBuffer fd true s).andThen fun _ s' =>
          overrunLoop fd needed (s'.addOffset s.bufferUsage).restart
    else .ok () s := by
  rw [overrunLoop]
  split
  · split
    · rfl
    · cases flushBuffer fd true s <;> rfl
  · rfl

theorem overrunLoop_avail {needed : ℕ} {s s' : FdOutStream}
    (h : overrunLoop fd needed s = .ok () s') : needed ≤ s'.avail := by
  induction s using overrunLoop.induct fd needed with
  | case1 s hneeded hshuffle ih =>
    rw [overrunLoop_eq, if_pos hneeded, if_pos hshuffle] at h
    exact ih h
  | case2 s hneeded hstay e t ht =>
    rw [overrunLoop_eq, if_pos hneeded, if_neg hstay, ht] at h
    cases h
  | case3 s hneeded hstay b t ht ih =>
    rw [overrunLoop_eq, if_pos hneeded, if_neg hstay, ht] at h
    exact ih h
  | case4 s hneeded =>
    rw [overrunLoop_eq, if_neg hneeded] at h
    obtain ⟨-, rfl⟩ := EStateM.Result.ok.inj h
    exact Nat.not_lt.mp hneeded

theorem overrun_avail {needed : ℕ} {s s' : FdOutStream} (h : overrun fd needed s = .ok () s') :
    needed ≤ s'.avail := by
  unfold overrun at h
  split at h
  · cases h
  · cases hflush : flush fd s with
    | error e t =>
      rw [hflush] at h
      cases h
    | ok _ t =>
      rw [hflush] at h
      exact overrunLoop_avail h

theorem check_avail {needed : ℕ} {s s' : FdOutStream} (h : check fd needed s = .ok () s') :
    needed ≤ s'.avail := by
  unfold check at h
  split at h
  · exact overrun_avail h
  · next hfits =>
      obtain ⟨-, rfl⟩ := EStateM.Result.ok.inj h
      exact Nat.not_lt.mp hfits

/-! ## Writing -/

/-- `memcpy(ptr, data, n); ptr += n` -/
def put (data : List Byte) (s : FdOutStream) : FdOutStream :=
  { s with
    mem := s.mem.store s.ptr data
    ptr := s.ptr + data.length
    written := s.written ++ data }

/-- How much of `length` bytes goes into the buffer at once. -/
def chunk (length : ℕ) (s : FdOutStream) : ℕ := if length > s.avail then s.avail else length

theorem chunk_le (length : ℕ) (s : FdOutStream) : s.chunk length ≤ length := by
  unfold chunk
  split
  · next hgt => exact hgt.le
  · exact Nat.le_refl length

theorem chunk_le_avail (length : ℕ) (s : FdOutStream) : s.chunk length ≤ s.avail := by
  unfold chunk
  split
  · exact Nat.le_refl s.avail
  · next hle => exact Nat.not_lt.mp hle

theorem sub_chunk_lt {length : ℕ} {s : FdOutStream} (hlength : length ≠ 0) (havail : 1 ≤ s.avail) :
    length - s.chunk length < length := by
  unfold chunk
  split <;> omega

variable (fd)

/-- `check(n)`, and as many times `*ptr++ =`. -/
def writeSmall (bytes : List Byte) (s : FdOutStream) : Result FdOutStream Unit :=
  (check fd bytes.length s).andThen fun _ s' => .ok () (s'.put bytes)

def writeU8 (u : Byte) : FdOutStream → Result FdOutStream Unit := writeSmall fd [u]

def writeU16 (u : BitVec 16) : FdOutStream → Result FdOutStream Unit := writeSmall fd (be16 u)

def writeU32 (u : BitVec 32) : FdOutStream → Result FdOutStream Unit := writeSmall fd (be32 u)

/-- The bytes of `u` as they are in memory, the least significant one first. -/
def writeOpaque16 (u : BitVec 16) : FdOutStream → Result FdOutStream Unit :=
  writeSmall fd (be16 u).reverse

def writeOpaque32 (u : BitVec 32) : FdOutStream → Result FdOutStream Unit :=
  writeSmall fd (be32 u).reverse

def writeBytes (data : List Byte) (s : FdOutStream) : Result FdOutStream Unit :=
  if data.length = 0 then .ok () s
  else
    match _h : check fd 1 s with
    | .error e s' => .error e s'
    | .ok _ s' =>
      let n := s'.chunk data.length
      writeBytes (data.drop n) (s'.put (data.take n))
termination_by data.length
decreasing_by
  rw [List.length_drop]
  exact sub_chunk_lt ‹_› (check_avail _h)

/-- The other stream still has `is` to give, and is at its end after that. -/
def copyBytes (is : List Byte) (length : ℕ) (s : FdOutStream) : Result FdOutStream Unit :=
  if length = 0 then .ok () s
  else
    match _h : check fd 1 s with
    | .error e s' => .error e s'
    | .ok _ s' =>
      let n := s'.chunk length
      -- what it has given before it throws is in the buffer, behind `ptr`
      if is.length < n then .error .endOfStream { s' with mem := s'.mem.store s'.ptr is }
      else copyBytes (is.drop n) (length - n) (s'.put (is.take n))
termination_by length
decreasing_by exact sub_chunk_lt ‹_› (check_avail _h)

/-- The length is counted in 32 bits. -/
def writeString (str : List Byte) (s : FdOutStream) : Result FdOutStream Unit :=
  let len : BitVec 32 := BitVec.ofNat 32 str.length
  (writeU32 fd len s).andThen fun _ s' => writeBytes fd (str.take len.toNat) s'

def pad : ℕ → FdOutStream → Result FdOutStream Unit
  | 0, s => .ok () s
  | bytes + 1, s => (writeU8 fd 0 s).andThen fun _ s' => pad bytes s'

/-- What can be done with the stream. The signed and the one byte opaque writes are `writeU8` and
its like. -/
inductive Op
  | writeU8 (u : Byte)
  | writeU16 (u : BitVec 16)
  | writeU32 (u : BitVec 32)
  | writeOpaque16 (u : BitVec 16)
  | writeOpaque32 (u : BitVec 32)
  | writeString (str : List Byte)
  | pad (bytes : ℕ)
  | writeBytes (data : List Byte)
  | copyBytes (is : List Byte) (length : ℕ)
  | flush
  | setTimeout (timeoutms : ℤ)
  | setBlocking (blocking : Bool)

def Op.exec : Op → FdOutStream → Result FdOutStream Unit
  | .writeU8 u => FdOutStream.writeU8 fd u
  | .writeU16 u => FdOutStream.writeU16 fd u
  | .writeU32 u => FdOutStream.writeU32 fd u
  | .writeOpaque16 u => FdOutStream.writeOpaque16 fd u
  | .writeOpaque32 u => FdOutStream.writeOpaque32 fd u
  | .writeString str => FdOutStream.writeString fd str
  | .pad bytes => FdOutStream.pad fd bytes
  | .writeBytes data => FdOutStream.writeBytes fd data
  | .copyBytes is length => FdOutStream.copyBytes fd is length
  | .flush => FdOutStream.flush fd
  | .setTimeout timeoutms => fun s => .ok () (s.setTimeout timeoutms)
  | .setBlocking blocking => fun s => .ok () (s.setBlocking blocking)

/-- What an operation that returns has written. -/
def Op.data : Op → List Byte
  | .writeU8 u => [u]
  | .writeU16 u => be16 u
  | .writeU32 u => be32 u
  | .writeOpaque16 u => (be16 u).reverse
  | .writeOpaque32 u => (be32 u).reverse
  | .writeString str => be32 (BitVec.ofNat 32 str.length) ++ str.take (str.length % 2 ^ 32)
  | .pad bytes => List.replicate bytes 0
  | .writeBytes data => data
  | .copyBytes is length => is.take length
  | .flush | .setTimeout _ | .setBlocking _ => []

/-- An operation that throws is left, and the next one finds the stream as it is. -/
def step (s : FdOutStream) (op : Op) : FdOutStream := (op.exec fd s).final

/-! ## Nothing is lost -/

variable {fd}

/-- What the descriptor has taken and what is in the buffer is what has been written. -/
structure Conserves (s : FdOutStream) : Prop where
  sent_le : s.sentUpTo ≤ s.ptr
  ptr_le : s.ptr ≤ s.bufSize
  bytes : s.handed ++ s.buffered = s.written
  offset_eq : s.offset = BitVec.ofNat 64 s.handed.length

theorem length_buffered (s : FdOutStream) : s.buffered.length = s.bufferUsage :=
  Memory.length_load _ _ _

/-- `length()` is the total written. -/
theorem Conserves.length_eq {s : FdOutStream} (h : s.Conserves) :
    s.length = BitVec.ofNat 64 s.written.length := by
  rw [length, h.offset_eq, ← h.bytes, List.length_append, length_buffered, BitVec.ofNat_add]
  rfl

theorem create_conserves (bufSize : ℕ) (mem : Memory Byte) (blocking : Bool) (timeoutms : ℤ) :
    (create bufSize mem blocking timeoutms).Conserves :=
  ⟨Nat.le_refl 0, Nat.zero_le bufSize, rfl, rfl⟩

theorem Conserves.asked {s : FdOutStream} (h : s.Conserves) : s.asked.Conserves :=
  ⟨h.sent_le, h.ptr_le, h.bytes, h.offset_eq⟩

/-- Some bytes have gone from the buffer to the descriptor. -/
theorem Conserves.advance {s : FdOutStream} (h : s.Conserves) {n : ℕ} (hn : n ≤ s.bufferUsage) :
    ((s.advance n).addOffset s.bufferUsage).Conserves := by
  have hsent := h.sent_le
  unfold bufferUsage at hn
  have hsplit : s.buffered = s.mem.load s.sentUpTo n ++ (s.advance n).buffered := by
    have hrest : s.ptr - s.sentUpTo = n + (s.ptr - (s.sentUpTo + n)) := by omega
    unfold buffered
    rw [hrest, Memory.load_add]
    rfl
  have hcount : s.bufferUsage - (s.advance n).bufferUsage = n := by
    show s.ptr - s.sentUpTo - (s.ptr - (s.sentUpTo + n)) = n
    omega
  constructor
  · show s.sentUpTo + n ≤ s.ptr
    omega
  · exact h.ptr_le
  · calc (s.handed ++ s.mem.load s.sentUpTo n) ++ (s.advance n).buffered
        = s.handed ++ s.buffered := by rw [List.append_assoc, hsplit]
      _ = s.written := h.bytes
  · show s.offset + BitVec.ofNat 64 (s.bufferUsage - (s.advance n).bufferUsage) =
      BitVec.ofNat 64 (s.handed ++ s.mem.load s.sentUpTo n).length
    rw [hcount, h.offset_eq, List.length_append, Memory.length_load, BitVec.ofNat_add]

theorem Conserves.restart {s : FdOutStream} (h : s.Conserves) : s.restart.Conserves := by
  unfold FdOutStream.restart
  split
  · next heq =>
      refine ⟨Nat.le_refl 0, Nat.zero_le _, ?_, h.offset_eq⟩
      have hempty : s.buffered = [] := by
        rw [← List.length_eq_zero_iff, length_buffered, bufferUsage, heq, Nat.sub_self]
      have hbytes := h.bytes
      rw [hempty] at hbytes
      exact hbytes
  · exact h

theorem Conserves.shuffle {s : FdOutStream} (h : s.Conserves) : s.shuffle.Conserves := by
  refine ⟨Nat.zero_le _, ?_, ?_, h.offset_eq⟩
  · exact (Nat.sub_le _ _).trans h.ptr_le
  · have hmoved : s.shuffle.buffered = s.buffered := by
      have hload := Memory.load_store s.mem 0 s.buffered
      rwa [length_buffered] at hload
    rw [hmoved]
    exact h.bytes

theorem Conserves.put {s : FdOutStream} (h : s.Conserves) {data : List Byte}
    (hfits : data.length ≤ s.avail) : (s.put data).Conserves := by
  have hsent := h.sent_le
  have hptr := h.ptr_le
  unfold avail at hfits
  have hbuffered : (s.put data).buffered = s.buffered ++ data := by
    have hlength : s.ptr + data.length - s.sentUpTo = s.ptr - s.sentUpTo + data.length := by omega
    have hplace : (s.sentUpTo : ℤ) + (s.ptr - s.sentUpTo : ℕ) = s.ptr := by omega
    show (s.mem.store s.ptr data).load s.sentUpTo (s.ptr + data.length - s.sentUpTo) = _
    rw [hlength, Memory.load_add, hplace, Memory.load_store, Memory.load_store_of_le _ hplace.le]
    rfl
  constructor
  · exact hsent.trans (Nat.le_add_right _ _)
  · show s.ptr + data.length ≤ s.bufSize
    omega
  · rw [hbuffered, ← List.append_assoc]
    exact congrArg (· ++ data) h.bytes
  · exact h.offset_eq

/-- One stream comes from the other by sending only. -/
structure Flushed (s s' : FdOutStream) : Prop where
  conserves : s'.Conserves
  written : s'.written = s.written
  bufSize : s'.bufSize = s.bufSize
  blocking : s'.blocking = s.blocking
  timeoutms : s'.timeoutms = s.timeoutms
  sends : s.sends ≤ s'.sends

namespace Flushed

variable {s s' s'' : FdOutStream}

theorem refl (h : s.Conserves) : Flushed s s := ⟨h, rfl, rfl, rfl, rfl, Nat.le_refl _⟩

theorem trans (h : Flushed s s') (h' : Flushed s' s'') : Flushed s s'' where
  conserves := h'.conserves
  written := h'.written.trans h.written
  bufSize := h'.bufSize.trans h.bufSize
  blocking := h'.blocking.trans h.blocking
  timeoutms := h'.timeoutms.trans h.timeoutms
  sends := h.sends.trans h'.sends

theorem asked (h : s.Conserves) : Flushed s s.asked :=
  ⟨h.asked, rfl, rfl, rfl, rfl, Nat.le_succ _⟩

theorem restart (h : s.Conserves) : Flushed s s.restart := by
  have hconserves := h.restart
  unfold FdOutStream.restart at hconserves ⊢
  split
  · next heq =>
      rw [if_pos heq] at hconserves
      exact ⟨hconserves, rfl, rfl, rfl, rfl, Nat.le_refl _⟩
  · exact refl h

theorem shuffle (h : s.Conserves) : Flushed s s.shuffle :=
  ⟨h.shuffle, rfl, rfl, rfl, rfl, Nat.le_refl _⟩

end Flushed

/-- What a turn of a loop leaves. -/
theorem flushBuffer_flushed (fd : ℕ → ℤ → Answer) (wait : Bool) {s : FdOutStream}
    (h : s.Conserves) :
    match flushBuffer fd wait s with
    | .ok true s' => Flushed s (s'.addOffset s.bufferUsage)
    | .ok false s' => Flushed s s'
    | .error _ s' => Flushed s s' := by
  rcases flushBuffer_cases fd wait s with ⟨n, -, hle, hs⟩ | ⟨-, -, hs⟩ | ⟨e, hs⟩
  · rw [hs]
    exact ⟨h.asked.advance hle, rfl, rfl, rfl, rfl, Nat.le_succ _⟩
  · rw [hs]
    exact Flushed.asked h
  · rw [hs]
    exact Flushed.asked h

theorem flushLoop_flushed (fd : ℕ → ℤ → Answer) {s : FdOutStream} (h : s.Conserves) :
    Flushed s (flushLoop fd s).final := by
  induction s using flushLoop.induct fd with
  | case1 s hlt e s' hs =>
    have hturn := flushBuffer_flushed fd false h
    rw [hs] at hturn
    rw [flushLoop_eq, if_pos hlt, hs]
    exact hturn
  | case2 s hlt s' hs =>
    have hturn := flushBuffer_flushed fd false h
    rw [hs] at hturn
    rw [flushLoop_eq, if_pos hlt, hs]
    exact hturn
  | case3 s hlt s' hs ih =>
    have hturn := flushBuffer_flushed fd false h
    rw [hs] at hturn
    rw [flushLoop_eq, if_pos hlt, hs]
    exact hturn.trans (ih hturn.conserves)
  | case4 s hlt =>
    rw [flushLoop_eq, if_neg hlt]
    exact Flushed.refl h

theorem flush_flushed (fd : ℕ → ℤ → Answer) {s : FdOutStream} (h : s.Conserves) :
    Flushed s (flush fd s).final := by
  have hloop := flushLoop_flushed fd h
  unfold flush
  cases hs : flushLoop fd s with
  | error e s' =>
    rw [hs] at hloop
    exact hloop
  | ok _ s' =>
    rw [hs] at hloop
    exact hloop.trans (Flushed.restart hloop.conserves)

theorem overrunLoop_flushed (needed : ℕ) {s : FdOutStream} (h : s.Conserves) :
    Flushed s (overrunLoop fd needed s).final := by
  induction s using overrunLoop.induct fd needed with
  | case1 s hneeded hshuffle ih =>
    rw [overrunLoop_eq, if_pos hneeded, if_pos hshuffle]
    exact (Flushed.shuffle h).trans (ih h.shuffle)
  | case2 s hneeded hstay e s' hs =>
    have hturn := flushBuffer_flushed fd true h
    rw [hs] at hturn
    rw [overrunLoop_eq, if_pos hneeded, if_neg hstay, hs]
    exact hturn
  | case3 s hneeded hstay more s' hs ih =>
    have hturn := flushBuffer_flushed fd true h
    rw [flushBuffer_waits hs] at hturn
    rw [overrunLoop_eq, if_pos hneeded, if_neg hstay, hs]
    have hnext := hturn.trans (Flushed.restart hturn.conserves)
    exact hnext.trans (ih hnext.conserves)
  | case4 s hneeded =>
    rw [overrunLoop_eq, if_neg hneeded]
    exact Flushed.refl h

theorem overrun_flushed (needed : ℕ) {s : FdOutStream} (h : s.Conserves) :
    Flushed s (overrun fd needed s).final := by
  have hflush := flush_flushed fd h
  unfold overrun
  split
  · exact Flushed.refl h
  · cases hs : flush fd s with
    | error e s' =>
      rw [hs] at hflush
      exact hflush
    | ok _ s' =>
      rw [hs] at hflush
      exact hflush.trans (overrunLoop_flushed needed hflush.conserves)

theorem check_flushed (needed : ℕ) {s : FdOutStream} (h : s.Conserves) :
    Flushed s (check fd needed s).final := by
  unfold check
  split
  · exact overrun_flushed needed h
  · exact Flushed.refl h

/-! ### Writing -/

/-- All of the data has been written, or a part from the start of them if the operation throws. -/
def Wrote (s : FdOutStream) (data : List Byte) : Result FdOutStream Unit → Prop
  | .ok _ s' => s'.Conserves ∧ s'.written = s.written ++ data
  | .error _ s' => s'.Conserves ∧ ∃ part, part <+: data ∧ s'.written = s.written ++ part

namespace Wrote

variable {s : FdOutStream} {data data' : List Byte}

theorem final {r : Result FdOutStream Unit} (h : Wrote s data r) : r.final.Conserves := by
  cases r with
  | ok _ s' => exact h.1
  | error e s' => exact h.1

/-- What only sends writes nothing. -/
theorem of_flushed {r : Result FdOutStream Unit} (h : Flushed s r.final) : Wrote s [] r := by
  cases r with
  | ok _ s' => exact ⟨h.conserves, h.written.trans (List.append_nil _).symm⟩
  | error e s' =>
    exact ⟨h.conserves, [], List.nil_prefix, h.written.trans (List.append_nil _).symm⟩

theorem andThen {r : Result FdOutStream Unit} {f : Unit → FdOutStream → Result FdOutStream Unit}
    (hr : Wrote s data r) (hf : ∀ s', r = .ok () s' → s'.Conserves → Wrote s' data' (f () s')) :
    Wrote s (data ++ data') (r.andThen f) := by
  cases r with
  | error e s' =>
    obtain ⟨hconserves, part, hpart, hwritten⟩ := hr
    exact ⟨hconserves, part, hpart.trans (List.prefix_append _ _), hwritten⟩
  | ok _ s' =>
    obtain ⟨hconserves, hwritten⟩ := hr
    have hnext := hf s' rfl hconserves
    rw [Result.andThen]
    cases hs : f () s' with
    | ok _ s'' =>
      rw [hs] at hnext
      refine ⟨hnext.1, ?_⟩
      rw [hnext.2, hwritten, List.append_assoc]
    | error e s'' =>
      rw [hs] at hnext
      obtain ⟨hconserves', part, hpart, hwritten'⟩ := hnext
      refine ⟨hconserves', data ++ part, (List.prefix_append_right_inj data).mpr hpart, ?_⟩
      rw [hwritten', hwritten, List.append_assoc]

theorem put (h : s.Conserves) (hfits : data.length ≤ s.avail) :
    Wrote s data (.ok () (s.put data)) := ⟨h.put hfits, rfl⟩

end Wrote

theorem writeSmall_wrote (bytes : List Byte) {s : FdOutStream} (h : s.Conserves) :
    Wrote s bytes (writeSmall fd bytes s) :=
  (Wrote.of_flushed (check_flushed bytes.length h)).andThen fun _ hs hconserves =>
    Wrote.put hconserves (check_avail hs)

theorem writeBytes_eq (data : List Byte) (s : FdOutStream) : writeBytes fd data s =
    if data.length = 0 then .ok () s
    else
      (check fd 1 s).andThen fun _ s' =>
        writeBytes fd (data.drop (s'.chunk data.length))
          (s'.put (data.take (s'.chunk data.length))) := by
  rw [writeBytes]
  split
  · rfl
  · cases check fd 1 s <;> rfl

theorem length_take_chunk_le (data : List Byte) (length : ℕ) (s : FdOutStream) :
    (data.take (s.chunk length)).length ≤ s.avail :=
  (List.length_take_le _ _).trans (chunk_le_avail length s)

theorem writeBytes_wrote (data : List Byte) {s : FdOutStream} (h : s.Conserves) :
    Wrote s data (writeBytes fd data s) := by
  induction hn : data.length using Nat.strong_induction_on generalizing data s with
  | _ n ih =>
    rw [writeBytes_eq]
    split
    · next hzero =>
        obtain rfl := List.length_eq_zero_iff.mp hzero
        exact Wrote.of_flushed (Flushed.refl h)
    · next hpos =>
        show Wrote s ([] ++ data) _
        refine (Wrote.of_flushed (check_flushed 1 h)).andThen fun s' hs hconserves => ?_
        have hshorter : (data.drop (s'.chunk data.length)).length < n := by
          rw [← hn, List.length_drop]
          exact sub_chunk_lt hpos (check_avail hs)
        have hrest := (Wrote.put hconserves (length_take_chunk_le data data.length s')).andThen
          (f := fun _ => writeBytes fd (data.drop (s'.chunk data.length)))
          fun s'' _ hconserves' => ih _ hshorter _ hconserves' rfl
        rw [List.take_append_drop] at hrest
        exact hrest

theorem copyBytes_eq (is : List Byte) (length : ℕ) (s : FdOutStream) : copyBytes fd is length s =
    if length = 0 then .ok () s
    else
      (check fd 1 s).andThen fun _ s' =>
        if is.length < s'.chunk length then
          .error .endOfStream { s' with mem := s'.mem.store s'.ptr is }
        else
          copyBytes fd (is.drop (s'.chunk length)) (length - s'.chunk length)
            (s'.put (is.take (s'.chunk length))) := by
  rw [copyBytes]
  split
  · rfl
  · cases check fd 1 s <;> rfl

/-- What is behind `ptr` is not in the buffer yet. -/
theorem Conserves.store {s : FdOutStream} (h : s.Conserves) (bytes : List Byte) :
    { s with mem := s.mem.store s.ptr bytes }.Conserves := by
  refine ⟨h.sent_le, h.ptr_le, ?_, h.offset_eq⟩
  have hsent := h.sent_le
  have hbuffered : (s.mem.store s.ptr bytes).load s.sentUpTo (s.ptr - s.sentUpTo) = s.buffered :=
    Memory.load_store_of_le _ (by omega)
  show s.handed ++ (s.mem.store s.ptr bytes).load s.sentUpTo (s.ptr - s.sentUpTo) = s.written
  rw [hbuffered]
  exact h.bytes

theorem copyBytes_wrote (is : List Byte) (length : ℕ) {s : FdOutStream} (h : s.Conserves) :
    Wrote s (is.take length) (copyBytes fd is length s) := by
  induction length using Nat.strong_induction_on generalizing is s with
  | _ length ih =>
    rw [copyBytes_eq]
    split
    · next hzero =>
        subst hzero
        exact Wrote.of_flushed (Flushed.refl h)
    · next hpos =>
        show Wrote s ([] ++ is.take length) _
        refine (Wrote.of_flushed (check_flushed 1 h)).andThen fun s' hs hconserves => ?_
        split
        · exact ⟨hconserves.store is, [], List.nil_prefix, (List.append_nil _).symm⟩
        · have hrest := (Wrote.put hconserves (length_take_chunk_le is length s')).andThen
            (f := fun _ => copyBytes fd (is.drop (s'.chunk length)) (length - s'.chunk length))
            fun s'' _ hconserves' =>
              ih _ (sub_chunk_lt hpos (check_avail hs)) (is.drop (s'.chunk length)) hconserves'
          rw [← List.take_add, Nat.add_sub_cancel' (chunk_le length s')] at hrest
          exact hrest

theorem writeString_wrote (str : List Byte) {s : FdOutStream} (h : s.Conserves) :
    Wrote s (be32 (BitVec.ofNat 32 str.length) ++ str.take (str.length % 2 ^ 32))
      (writeString fd str s) :=
  (writeSmall_wrote _ h).andThen fun _ _ hconserves => writeBytes_wrote _ hconserves

theorem pad_wrote : ∀ (bytes : ℕ) {s : FdOutStream}, s.Conserves →
    Wrote s (List.replicate bytes 0) (pad fd bytes s)
  | 0, _, h => Wrote.of_flushed (Flushed.refl h)
  | bytes + 1, _, h =>
    (writeSmall_wrote [0] h).andThen fun _ _ hconserves => pad_wrote bytes hconserves

/-- **An operation writes its data**, or a part from their start if it throws. -/
theorem exec_wrote (op : Op) {s : FdOutStream} (h : s.Conserves) :
    Wrote s op.data (op.exec fd s) := by
  cases op with
  | writeU8 u => exact writeSmall_wrote _ h
  | writeU16 u => exact writeSmall_wrote _ h
  | writeU32 u => exact writeSmall_wrote _ h
  | writeOpaque16 u => exact writeSmall_wrote _ h
  | writeOpaque32 u => exact writeSmall_wrote _ h
  | writeString str => exact writeString_wrote str h
  | pad bytes => exact pad_wrote bytes h
  | writeBytes data => exact writeBytes_wrote data h
  | copyBytes is length => exact copyBytes_wrote is length h
  | flush => exact Wrote.of_flushed (flush_flushed fd h)
  | setTimeout timeoutms =>
    exact ⟨⟨h.sent_le, h.ptr_le, h.bytes, h.offset_eq⟩, (List.append_nil _).symm⟩
  | setBlocking blocking =>
    exact ⟨⟨h.sent_le, h.ptr_le, h.bytes, h.offset_eq⟩, (List.append_nil _).symm⟩

/-- **Nothing is lost** in any run. -/
theorem run_conserves (fd : ℕ → ℤ → Answer) {s : FdOutStream} (h : s.Conserves) (ops : List Op) :
    (run (step fd) s ops).Conserves :=
  run_invariant_all (I := Conserves) (fun _ op h => (exec_wrote op h).final) ops h

/-! ## Making room succeeds -/

theorem writeWithTimeout_pos {a : Answer} (ha : a.Progresses) {length : ℕ} (hlength : 0 < length) :
    ∃ n, 0 < n ∧ writeWithTimeout a length = .ok n := by
  obtain ⟨hselect, hsend⟩ := ha
  refine ⟨min a.send.toNat length, ?_, ?_⟩
  · omega
  · rw [writeWithTimeout, if_neg (by omega), if_neg (by omega), if_neg (by omega)]

/-- A flush of the buffer that waits for a descriptor that takes something does not throw. -/
theorem flushBuffer_error {wait : Bool} {s s' : FdOutStream} {e : Exception}
    (hwait : ∀ k, (fd k s.timeoutms).Progresses) (husage : 0 < s.bufferUsage)
    (h : flushBuffer fd wait s = .error e s') :
    s.blocking = false ∧ wait = false ∧ (fd s.sends 0).Fails := by
  unfold flushBuffer timeout at h
  cases hmode : s.blocking || wait with
  | true =>
    rw [hmode, if_pos rfl] at h
    obtain ⟨n, hpos, hn⟩ := writeWithTimeout_pos (hwait s.sends) husage
    simp only [hn, if_neg hpos.ne'] at h
    cases h
  | false =>
    obtain ⟨hblocking, hpoll⟩ := Bool.or_eq_false_iff.mp hmode
    refine ⟨hblocking, hpoll, ?_⟩
    rw [hmode, hblocking, hpoll] at h
    rw [if_neg Bool.false_ne_true] at h
    cases hn : writeWithTimeout (fd s.sends 0) s.bufferUsage with
    | error e' => exact writeWithTimeout_error hn
    | ok n =>
      rw [hn] at h
      simp only [Bool.not_false, Bool.and_self, if_true] at h
      split at h <;> cases h

theorem flushLoop_error {s s' : FdOutStream} {e : Exception} (hs : s.Conserves)
    (hwait : ∀ k, (fd k s.timeoutms).Progresses) (h : flushLoop fd s = .error e s') :
    s.blocking = false ∧ ∃ k ≥ s.sends, (fd k 0).Fails := by
  induction s using flushLoop.induct fd with
  | case1 s hlt e' t ht =>
    obtain ⟨hblocking, -, hfails⟩ := flushBuffer_error hwait (Nat.sub_pos_of_lt hlt) ht
    exact ⟨hblocking, s.sends, Nat.le_refl _, hfails⟩
  | case2 s hlt t ht =>
    rw [flushLoop_eq, if_pos hlt, ht] at h
    cases h
  | case3 s hlt t ht ih =>
    have hturn := flushBuffer_flushed fd false hs
    rw [ht] at hturn
    rw [flushLoop_eq, if_pos hlt, ht] at h
    have hwait' : ∀ k, (fd k (t.addOffset s.bufferUsage).timeoutms).Progresses := by
      rw [hturn.timeoutms]
      exact hwait
    obtain ⟨hblocking, k, hk, hfails⟩ := ih hturn.conserves hwait' h
    rw [hturn.blocking] at hblocking
    exact ⟨hblocking, k, hturn.sends.trans hk, hfails⟩
  | case4 s hlt =>
    rw [flushLoop_eq, if_neg hlt] at h
    cases h

/-- The pointers have gone back to the start if they have met. -/
def Restarted (s : FdOutStream) : Prop := s.sentUpTo = s.ptr → s.ptr = 0

theorem restart_restarted (s : FdOutStream) : s.restart.Restarted := by
  unfold restart Restarted
  split
  · exact fun _ => rfl
  · next hne => exact fun heq => absurd heq hne

theorem shuffle_restarted (s : FdOutStream) : s.shuffle.Restarted := Eq.symm

/-- There is something to send as long as there is not enough room. -/
theorem Restarted.bufferUsage_pos {s : FdOutStream} (hs : s.Restarted) (h : s.Conserves)
    {needed : ℕ} (hsize : needed ≤ s.bufSize) (hneeded : needed > s.avail) : 0 < s.bufferUsage := by
  have hsent := h.sent_le
  unfold avail at hneeded
  unfold bufferUsage
  by_contra hempty
  have hptr := hs (by omega)
  omega

theorem overrunLoop_ends {needed : ℕ} {s : FdOutStream} (h : s.Conserves) (hs : s.Restarted)
    (hsize : needed ≤ s.bufSize) (hwait : ∀ k, (fd k s.timeoutms).Progresses) :
    ∃ s', overrunLoop fd needed s = .ok () s' := by
  induction s using overrunLoop.induct fd needed with
  | case1 s hneeded hshuffle ih =>
    rw [overrunLoop_eq, if_pos hneeded, if_pos hshuffle]
    exact ih h.shuffle (shuffle_restarted s) hsize hwait
  | case2 s hneeded hstay e t ht =>
    have husage := hs.bufferUsage_pos h hsize hneeded
    exact absurd (flushBuffer_error hwait husage ht).2.1 (by decide)
  | case3 s hneeded hstay more t ht ih =>
    have hturn := flushBuffer_flushed fd true h
    rw [flushBuffer_waits ht] at hturn
    have hnext := hturn.trans (Flushed.restart hturn.conserves)
    rw [overrunLoop_eq, if_pos hneeded, if_neg hstay, ht]
    refine ih hnext.conserves (restart_restarted _) ?_ ?_
    · rw [hnext.bufSize]
      exact hsize
    · rw [hnext.timeoutms]
      exact hwait
  | case4 s hneeded =>
    rw [overrunLoop_eq, if_neg hneeded]
    exact ⟨s, rfl⟩

/-- **Making room.** If the descriptor takes something whenever it is waited for, the bytes that
are needed are free in the end, or the descriptor has failed when it was only polled. -/
theorem overrun_ends {needed : ℕ} {s : FdOutStream} (h : s.Conserves) (hsize : needed ≤ s.bufSize)
    (hwait : ∀ k, (fd k s.timeoutms).Progresses) :
    (∃ s', overrun fd needed s = .ok () s' ∧ needed ≤ s'.avail) ∨
      s.blocking = false ∧ ∃ k ≥ s.sends, (fd k 0).Fails := by
  have hflush := flush_flushed fd h
  cases ht : flushLoop fd s with
  | error e t => exact .inr (flushLoop_error h hwait ht)
  | ok _ t =>
    left
    have hroom : overrun fd needed s = overrunLoop fd needed t.restart := by
      rw [overrun, if_neg (Nat.not_lt.mpr hsize), flush, ht]
      rfl
    rw [flush, ht] at hflush
    have hends : ∃ s', overrunLoop fd needed t.restart = .ok () s' := by
      refine overrunLoop_ends hflush.conserves (restart_restarted t) ?_ ?_
      · exact hsize.trans_eq hflush.bufSize.symm
      · rw [show t.restart.timeoutms = s.timeoutms from hflush.timeoutms]
        exact hwait
    obtain ⟨s', hs'⟩ := hends
    exact ⟨s', hroom.trans hs', overrunLoop_avail hs'⟩

end Descriptor

end FdOutStream

end KasmVNC.Rdr
