import KasmVNC.Lib.Wire

/-!
# Compressed streams

The two ends of a compressed stream. Each message is flushed, so that it can be
decompressed on arrival, and leaves both ends in new states. What is asked of a codec
is that states in step stay in step and lose nothing, and that two fresh states are
in step.
-/

namespace KasmVNC.Lib

structure Zlib where
  Deflate : Type
  Inflate : Type
  compress : Deflate → List Byte → List Byte × Deflate
  decompress : Inflate → List Byte → Except String (List Byte × Inflate)
  resetDeflate : Deflate → Deflate
  resetInflate : Inflate → Inflate
  InStep : Deflate → Inflate → Prop
  lossless : ∀ {d i}, InStep d i → ∀ data, ∃ i',
    decompress i (compress d data).1 = .ok (data, i') ∧ InStep (compress d data).2 i'
  inStep_reset : ∀ d i, InStep (resetDeflate d) (resetInflate i)

/-- The codec that stores its data as they are. -/
def Zlib.stored : Zlib where
  Deflate := Unit
  Inflate := Unit
  compress := fun _ data => (data, ())
  decompress := fun _ bytes => .ok (bytes, ())
  resetDeflate := id
  resetInflate := id
  InStep := fun _ _ => True
  lossless := fun _ _ => ⟨(), rfl, trivial⟩
  inStep_reset := fun _ _ => trivial

/-- Deflate does not expand its input by more than the headers of its blocks, which take a
few bytes for every few thousand; the bound leaves room for more. -/
def Zlib.Bounded (Z : Zlib) : Prop := ∀ d data, (Z.compress d data).1.length ≤ 2 * data.length + 64

theorem Zlib.stored_bounded : stored.Bounded := by
  intro _ data
  show data.length ≤ 2 * data.length + 64
  omega

end KasmVNC.Lib
