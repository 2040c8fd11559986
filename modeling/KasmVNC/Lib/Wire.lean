import Mathlib.Algebra.Group.Nat.Defs
import Mathlib.Data.List.Basic
import Mathlib.Data.Nat.Init
import Mathlib.Tactic.Common

/-!
# Reading messages from a byte stream

A reader consumes bytes from the front of a stream and reports what it has read
by calls. Whoever receives the calls may refuse one, which aborts the reader,
so the outcome of reading a message is fixed once it is known which bytes are
consumed and which calls are made, in which order: the message is *delivered*.
Delivery composes along the sequence of reads and calls in a reader's text.
-/

namespace KasmVNC.Lib

abbrev Byte := BitVec 8

instance : LawfulBEq Byte := instLawfulBEq

/-- Big-endian 16-bit value. -/
def be16 (v : BitVec 16) : List Byte := [v.extractLsb' 8 8, v.extractLsb' 0 8]

/-- Big-endian 32-bit value. -/
def be32 (v : BitVec 32) : List Byte :=
  [v.extractLsb' 24 8, v.extractLsb' 16 8, v.extractLsb' 8 8, v.extractLsb' 0 8]

/-- A list whose length fits a counter of `w` bits. -/
abbrev Counted (w : ℕ) (α : Type) := {xs : List α // xs.length < 2 ^ w}

namespace Counted

variable {w : ℕ} {α : Type}

def count (xs : Counted w α) : BitVec w := BitVec.ofNat w xs.val.length

@[simp] theorem toNat_count (xs : Counted w α) : xs.count.toNat = xs.val.length :=
  BitVec.toNat_ofNat .. |>.trans (Nat.mod_eq_of_lt xs.property)

end Counted

variable {κ α β : Type}

/-- The bytes still to come and the calls made so far. -/
structure ReadState (κ : Type) where
  input : List Byte
  calls : List κ
deriving DecidableEq

abbrev Reader (κ : Type) := StateT (ReadState κ) (Except String)

/-- The receiver of the calls: given the calls made before, it accepts the next
one or fails with a message. -/
abbrev Handler (κ : Type) := List κ → κ → Option String

namespace Reader

/-- Consume `n` bytes. -/
def readBytes (n : ℕ) : Reader κ (List Byte) := fun s =>
  if n ≤ s.input.length then .ok (s.input.take n, { s with input := s.input.drop n })
  else .error "end of stream"

def skip (n : ℕ) : Reader κ Unit := fun s =>
  if n ≤ s.input.length then .ok ((), { s with input := s.input.drop n })
  else .error "end of stream"

def readU8 : Reader κ Byte := fun s =>
  match s.input with
  | b :: rest => .ok (b, { s with input := rest })
  | [] => .error "end of stream"

def readU16 : Reader κ (BitVec 16) := fun s =>
  match s.input with
  | a :: b :: rest => .ok (a ++ b, { s with input := rest })
  | _ => .error "end of stream"

def readU32 : Reader κ (BitVec 32) := fun s =>
  match s.input with
  | a :: b :: c :: d :: rest => .ok (a ++ b ++ c ++ d, { s with input := rest })
  | _ => .error "end of stream"

/-- Read `n` items one after another. -/
def readMany (item : Reader κ α) : ℕ → Reader κ (List α)
  | 0 => pure []
  | n + 1 => do
      let x ← item
      let xs ← readMany item n
      return x :: xs

def fail (msg : String) : Reader κ α := fun _ => .error msg

/-- Make a call; the receiver may refuse it. -/
def call (h : Handler κ) (c : κ) : Reader κ Unit := fun s =>
  match h s.calls c with
  | some msg => .error msg
  | none => .ok ((), { s with calls := s.calls ++ [c] })

/-- Make calls in order. -/
def callAll (h : Handler κ) : List κ → Reader κ Unit
  | [] => pure ()
  | c :: cs => do
      call h c
      callAll h cs

/-- Nothing is read to give a value. -/
theorem pure_run (a : α) (input : List Byte) (calls : List κ) :
    (pure a : Reader κ α) ⟨input, calls⟩ = .ok (a, ⟨input, calls⟩) := rfl

end Reader

open Reader

/-! ## Consuming bytes -/

/-- In front of the bytes, the reader does what `r'` does behind them. -/
def Consumes (r : Reader κ α) (bytes : List Byte) (r' : Reader κ α) : Prop :=
  ∀ rest calls, r ⟨bytes ++ rest, calls⟩ = r' ⟨rest, calls⟩

/-- The reader turns the bytes into the value. -/
abbrev Reads (r : Reader κ α) (bytes : List Byte) (a : α) : Prop :=
  Consumes r bytes (pure a)

/-- The reader consumes the bytes and makes the calls. -/
abbrev Delivers (h : Handler κ) (r : Reader κ Unit) (bytes : List Byte)
    (cs : List κ) : Prop :=
  Consumes r bytes (callAll h cs)

theorem consumes_refl (r : Reader κ α) : Consumes r [] r := fun _ _ => rfl

theorem Consumes.trans {r r' r'' : Reader κ α} {first second : List Byte}
    (h : Consumes r first r') (h' : Consumes r' second r'') : Consumes r (first ++ second) r'' := by
  intro rest calls
  rw [List.append_assoc, h, h']

/-- A read, followed by the rest of the message. -/
theorem Consumes.read {r : Reader κ α} {f : α → Reader κ β} {r' : Reader κ β}
    {first second : List Byte} {a : α} (hr : Reads r first a)
    (hf : Consumes (f a) second r') : Consumes (r >>= f) (first ++ second) r' := by
  intro rest calls
  rw [List.append_assoc]
  show Except.bind (r _) _ = _
  rw [hr]
  exact hf rest calls

/-- The last read of a message. -/
theorem Consumes.last {r : Reader κ α} {f : α → Reader κ β} {r' : Reader κ β}
    {bytes : List Byte} {a : α} (hr : Reads r bytes a) (hf : f a = r') :
    Consumes (r >>= f) bytes r' := by
  subst hf
  have hall := Consumes.read hr (consumes_refl (f a))
  rwa [List.append_nil] at hall

/-- A call made before the rest of the message is read. -/
theorem Consumes.call {h : Handler κ} {f : Unit → Reader κ Unit} {bytes : List Byte}
    {cs : List κ} (c : κ) (hf : Delivers h (f ()) bytes cs) :
    Delivers h (Reader.call h c >>= f) bytes (c :: cs) := by
  intro rest calls
  show Except.bind (Reader.call h c _) _ = Except.bind (Reader.call h c _) _
  unfold Reader.call
  cases h calls c with
  | some msg => rfl
  | none => exact hf rest (calls ++ [c])

/-- A single call, and nothing else. -/
theorem callAll_singleton (h : Handler κ) (c : κ) : call h c = callAll h [c] :=
  (bind_pure (call h c)).symm

theorem reads_bytes (bytes : List Byte) :
    Reads (readBytes bytes.length : Reader κ _) bytes bytes := by
  intro rest calls
  rw [readBytes, if_pos (by simp)]
  simp [pure_run]

theorem reads_skip (bytes : List Byte) :
    Reads (skip bytes.length : Reader κ _) bytes () := by
  intro rest calls
  rw [skip, if_pos (by simp)]
  simp [pure_run]

theorem reads_u8 (b : Byte) : Reads (readU8 : Reader κ _) [b] b := fun _ _ => rfl

/-- A byte, followed by the rest of the message. -/
theorem Consumes.u8 {f : Byte → Reader κ β} {r' : Reader κ β} {b : Byte} {bytes : List Byte}
    (hf : Consumes (f b) bytes r') : Consumes (readU8 >>= f) (b :: bytes) r' :=
  Consumes.read (reads_u8 b) hf

theorem reads_u16 (v : BitVec 16) : Reads (readU16 : Reader κ _) (be16 v) v := by
  have hv : v.extractLsb' 8 8 ++ v.extractLsb' 0 8 = v := by
    ext i hi
    simp only [BitVec.getElem_append, BitVec.getElem_extractLsb']
    grind
  intro rest calls
  exact congrArg (fun v => Except.ok (v, (⟨rest, calls⟩ : ReadState κ))) hv

/-- The bytes of a word are the word. -/
theorem append_be32 (v : BitVec 32) :
    v.extractLsb' 24 8 ++ v.extractLsb' 16 8 ++ v.extractLsb' 8 8 ++ v.extractLsb' 0 8 = v := by
  ext i hi
  simp only [BitVec.getElem_append, BitVec.getElem_extractLsb']
  grind

theorem reads_u32 (v : BitVec 32) : Reads (readU32 : Reader κ _) (be32 v) v := by
  intro rest calls
  exact congrArg (fun v => Except.ok (v, (⟨rest, calls⟩ : ReadState κ))) (append_be32 v)

/-- A list of items is read item by item. -/
theorem reads_manyOf {item : Reader κ α} {encode : β → List Byte} {value : β → α} :
    ∀ {xs : List β}, (∀ x ∈ xs, Reads item (encode x) (value x)) →
      Reads (readMany item xs.length) (xs.flatMap encode) (xs.map value)
  | [], _ => consumes_refl _
  | x :: _, h => Consumes.read (h x List.mem_cons_self)
      (Consumes.last (reads_manyOf fun y hy => h y (List.mem_cons_of_mem x hy)) rfl)

theorem reads_many {item : Reader κ α} {encode : β → List Byte} {value : β → α}
    (hitem : ∀ x, Reads item (encode x) (value x)) (xs : List β) :
    Reads (readMany item xs.length) (xs.flatMap encode) (xs.map value) :=
  reads_manyOf fun x _ => hitem x

/-- A reader turns bytes into one value only. -/
theorem Reads.unique {r : Reader κ α} {bytes : List Byte} {a b : α} (ha : Reads r bytes a)
    (hb : Reads r bytes b) : a = b := by
  have heq := (ha [] []).symm.trans (hb [] [])
  exact congrArg Prod.fst (Except.ok.inj heq)

/-! ### Counted lists -/

theorem reads_counted {w : ℕ} (bytes : Counted w Byte) :
    Reads (readBytes bytes.count.toNat : Reader κ _) bytes.val bytes.val := by
  rw [Counted.toNat_count]
  exact reads_bytes bytes.val

theorem reads_manyCounted {w : ℕ} {item : Reader κ α} {encode : β → List Byte}
    {value : β → α} (hitem : ∀ x, Reads item (encode x) (value x)) (xs : Counted w β) :
    Reads (readMany item xs.count.toNat) (xs.val.flatMap encode) (xs.val.map value) := by
  rw [Counted.toNat_count]
  exact reads_many hitem xs.val

/-! ## Framing -/

/-- The reader fails or stops exactly behind the bytes. -/
def Frames (r : Reader κ Unit) (bytes : List Byte) : Prop :=
  ∀ rest calls, (∃ msg, r ⟨bytes ++ rest, calls⟩ = .error msg) ∨
    ∃ calls', r ⟨bytes ++ rest, calls⟩ = .ok ((), ⟨rest, calls'⟩)

/-- Calls change nothing about the position in the stream. -/
theorem callAll_input (h : Handler κ) : ∀ (cs : List κ) (s : ReadState κ),
    (∃ msg, callAll h cs s = .error msg) ∨
      ∃ calls, callAll h cs s = .ok ((), ⟨s.input, calls⟩)
  | [], s => Or.inr ⟨s.calls, rfl⟩
  | c :: cs, s => by
    show (∃ msg, Except.bind (call h c s) _ = _) ∨
      ∃ calls, Except.bind (call h c s) _ = _
    unfold call
    cases h s.calls c with
    | some msg => exact Or.inl ⟨msg, rfl⟩
    | none => exact callAll_input h cs { s with calls := s.calls ++ [c] }

theorem Delivers.frames {h : Handler κ} {r : Reader κ Unit} {bytes : List Byte}
    {cs : List κ} (hr : Delivers h r bytes cs) : Frames r bytes := by
  intro rest calls
  rw [hr]
  exact callAll_input h cs ⟨rest, calls⟩

theorem frames_of_fails {r : Reader κ Unit} {bytes : List Byte} {msg : String}
    (hr : Consumes r bytes (fail msg)) : Frames r bytes :=
  fun rest calls => Or.inl ⟨msg, hr rest calls⟩

/-- Read one message after another. -/
def readAll (r : Reader κ Unit) : ℕ → Reader κ Unit
  | 0 => pure ()
  | n + 1 => do
      r
      readAll r n

/-- If each message is framed, the reader is at a message boundary after every
message of a concatenation. -/
theorem frames_readAll {r : Reader κ Unit} : ∀ {msgs : List (List Byte)},
    (∀ m ∈ msgs, Frames r m) → Frames (readAll r msgs.length) msgs.flatten
  | [], _ => fun rest calls => Or.inr ⟨calls, rfl⟩
  | m :: msgs, hframes => by
    intro rest calls
    rw [List.flatten_cons, List.append_assoc]
    show (∃ msg, Except.bind (r _) _ = _) ∨ ∃ calls', Except.bind (r _) _ = _
    rcases hframes m List.mem_cons_self (msgs.flatten ++ rest) calls with
      ⟨msg, hmsg⟩ | ⟨calls', hok⟩
    · exact Or.inl ⟨msg, by rw [hmsg]; rfl⟩
    · rw [hok]
      exact frames_readAll (fun m hm => hframes m (List.mem_cons_of_mem _ hm)) rest calls'

end KasmVNC.Lib
