import Mathlib.Algebra.Group.Nat.Defs
import Mathlib.Data.List.Basic
import Mathlib.Data.List.Flatten

/-!
# Reassembly of split messages

A message is cut into fragments. Each fragment has the key of its message, its place in it
and the number of places. Fragments may be lost, doubled and reordered; a receiver puts the
fragments of a key together once it has one for every place. If no two messages share a key,
all it puts together are messages.
-/

namespace KasmVNC.Lib

variable {κ α : Type*}

structure Fragment (κ α : Type*) where
  key : κ
  index : ℕ
  count : ℕ
  payload : List α

/-- A message and the size of its fragments. -/
structure Message (κ α : Type*) where
  key : κ
  size : ℕ
  size_pos : 0 < size
  data : List α

namespace Message

variable (m : Message κ α)

/-- The last fragment is smaller if the sizes do not match. -/
def count : ℕ := m.data.length / m.size + if m.data.length % m.size ≠ 0 then 1 else 0

def piece (i : ℕ) : List α := (m.data.drop (i * m.size)).take m.size

def fragment (i : ℕ) : Fragment κ α := ⟨m.key, i, m.count, m.piece i⟩

def fragments : List (Fragment κ α) := (List.range m.count).map m.fragment

theorem length_le_count_mul : m.data.length ≤ m.count * m.size := by
  have hdiv := Nat.div_add_mod m.data.length m.size
  have hmod := Nat.mod_lt m.data.length m.size_pos
  rw [Nat.mul_comm] at hdiv
  unfold count
  split
  · rw [Nat.add_mul, Nat.one_mul]
    omega
  · next hexact =>
      rw [Nat.add_zero]
      omega

theorem count_le : m.count ≤ m.data.length := by
  have hdiv := Nat.div_add_mod m.data.length m.size
  have hle : m.data.length / m.size ≤ m.size * (m.data.length / m.size) :=
    Nat.le_mul_of_pos_left _ m.size_pos
  unfold count
  split
  · omega
  · exact Nat.div_le_self _ _

/-- The first pieces of a message are the beginning of its data. -/
theorem pieces_flatten (n : ℕ) :
    ((List.range n).map m.piece).flatten = m.data.take (n * m.size) := by
  induction n with
  | zero => rw [Nat.zero_mul, List.take_zero]; rfl
  | succ n ih =>
    rw [List.range_succ, List.map_append, List.flatten_append, ih, Nat.add_mul, Nat.one_mul,
      List.take_add]
    exact congrArg _ (List.append_nil _)

/-- All pieces of a message are its data. -/
theorem flatten_eq : ((List.range m.count).map m.piece).flatten = m.data := by
  rw [pieces_flatten]
  exact List.take_of_length_le m.length_le_count_mul

theorem mem_fragments {f : Fragment κ α} : f ∈ m.fragments ↔ ∃ i < m.count, m.fragment i = f := by
  simp [fragments]

end Message

/-- Among the fragments that have arrived there is one for each place of a key, and in the
order of the places they are `data`. -/
def Completes (arrived : List (Fragment κ α)) (data : List α) : Prop :=
  ∃ f ∈ arrived, ∃ parts : List (List α), parts.length = f.count ∧
    (∀ i (hi : i < parts.length),
      ∃ g ∈ arrived, g.key = f.key ∧ g.index = i ∧ g.payload = parts[i]) ∧
    data = parts.flatten

/-- **Only messages are put together**, if no two of them share a key. -/
theorem Completes.mem {msgs : List (Message κ α)} {arrived : List (Fragment κ α)} {data : List α}
    (hfrom : ∀ f ∈ arrived, ∃ m ∈ msgs, f ∈ m.fragments)
    (hkeys : ∀ m ∈ msgs, ∀ n ∈ msgs, m.key = n.key → m = n) (h : Completes arrived data) :
    ∃ m ∈ msgs, data = m.data := by
  obtain ⟨f, hf, parts, hlength, hparts, rfl⟩ := h
  obtain ⟨m, hm, hfm⟩ := hfrom f hf
  obtain ⟨j, -, rfl⟩ := m.mem_fragments.mp hfm
  refine ⟨m, hm, ?_⟩
  have hpieces : parts = (List.range m.count).map m.piece := by
    apply List.ext_getElem
    · rw [hlength, List.length_map, List.length_range]
      rfl
    · intro i hi _
      obtain ⟨g, hg, hkey, hindex, hpayload⟩ := hparts i hi
      obtain ⟨n, hn, hgn⟩ := hfrom g hg
      obtain ⟨k, -, rfl⟩ := n.mem_fragments.mp hgn
      -- the fragment at this place is of the same message
      obtain rfl : n = m := hkeys n hn m hm hkey
      obtain rfl : k = i := hindex
      rw [List.getElem_map, List.getElem_range, ← hpayload]
      rfl
  rw [hpieces, m.flatten_eq]

end KasmVNC.Lib
