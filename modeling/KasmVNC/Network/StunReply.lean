import KasmVNC.Lib.Wire

/-!
# Replies of STUN servers

`tryserver` asks a server for the public address. The reply is a header of twenty bytes and
attributes, each with a type, a length and a value that is padded to a multiple of four
bytes. The address is in the first attribute MAPPED-ADDRESS.

The loop over the attributes goes on behind the value without looking for padding, and it
looks at the end of the datagram only in front of an attribute. What it reads behind the end
is what the buffer had there.
-/

namespace KasmVNC.Network.StunReply

open KasmVNC.Lib

/-- `ntohs` -/
def ntohs (hi lo : Byte) : ℕ := hi.toNat * 256 + lo.toNat

/-- The address that is found, and the indices of the buffer that have been read. -/
structure Parse where
  address : Option (List Byte)
  reads : List ℕ

/-- The loop over the attributes from the index `i` on, if it ends in so many turns. -/
def attrLoop (buf : ℕ → Byte) (len : ℕ) : ℕ → ℕ → List ℕ → Option Parse
  | 0, _, _ => none
  | turns + 1, i, reads =>
    if i < len then
      let type := ntohs (buf i) (buf (i + 1))
      let attrlen := ntohs (buf (i + 2)) (buf (i + 3))
      let reads := reads ++ List.range' i 4
      if type ≠ 1 then attrLoop buf len turns (i + 4 + attrlen) reads
      else some ⟨some ((List.range' (i + 8) 4).map buf), reads ++ List.range' (i + 8) 4⟩
    else some ⟨none, reads⟩

/-- The buffer behind a datagram is as it was. -/
def buffer (datagram : List Byte) (stale : ℕ → Byte) (i : ℕ) : Byte :=
  datagram[i]?.getD (stale i)

/-- From the return of `recvfrom` on. -/
def tryserver (fromServer : Bool) (datagram : List Byte) (stale : ℕ → Byte) (turns : ℕ) :
    Option Parse :=
  let buf := buffer datagram stale
  if datagram.length < 20 then some ⟨none, []⟩
  else if !fromServer then some ⟨none, []⟩
  -- type not binding response
  else if buf 0 ≠ 1 then some ⟨none, [0]⟩
  else if buf 1 ≠ 1 then some ⟨none, [0, 1]⟩
  else attrLoop buf datagram.length turns 20 [0, 1]

/-! ## What a reply says -/

/-- The padding of a value. -/
def padded (n : ℕ) : ℕ := (n + 3) / 4 * 4

/-- The address in the first complete MAPPED-ADDRESS of a list of attributes. -/
def mappedAddress : List Byte → Option (List Byte)
  | t₁ :: t₀ :: l₁ :: l₀ :: rest =>
    let attrlen := ntohs l₁ l₀
    if rest.length < attrlen then none
    else if ntohs t₁ t₀ = 1 ∧ 8 ≤ attrlen then some ((rest.drop 4).take 4)
    else mappedAddress (rest.drop (padded attrlen))
  | _ => none
termination_by attributes => attributes.length
decreasing_by
  rw [List.length_drop]
  simp only [List.length_cons]
  omega

def BindingResponse (datagram : List Byte) : Prop :=
  20 ≤ datagram.length ∧ datagram[0]? = some 1 ∧ datagram[1]? = some 1

instance (datagram : List Byte) : Decidable (BindingResponse datagram) :=
  inferInstanceAs (Decidable (_ ∧ _ ∧ _))

def replyAddress (datagram : List Byte) : Option (List Byte) :=
  if BindingResponse datagram then mappedAddress (datagram.drop 20) else none

/-- **The reply is parsed.** The loop ends, it reads what has been received, and it finds the
address. -/
def ParsesReply (datagram : List Byte) (stale : ℕ → Byte) : Prop :=
  ∃ turns p, tryserver true datagram stale turns = some p ∧
    (∀ i ∈ p.reads, i < datagram.length) ∧ p.address = replyAddress datagram

/-! ## Lists of attributes that can be read without padding -/

/-- The address that is found if there is no padding, unless a header or the address is cut off. -/
def unpadded : List Byte → Option (Option (List Byte))
  | t₁ :: t₀ :: l₁ :: l₀ :: rest =>
    if ntohs t₁ t₀ = 1 then if 8 ≤ rest.length then some (some ((rest.drop 4).take 4)) else none
    else unpadded (rest.drop (ntohs l₁ l₀))
  | [] => some none
  | _ => none
termination_by attributes => attributes.length
decreasing_by
  rw [List.length_drop]
  simp only [List.length_cons]
  omega

/-- The lists that are read as they should be. Up to a MAPPED-ADDRESS no value needs padding,
and nothing is cut off but a value that is passed over. -/
inductive Readable : List Byte → Prop
  | empty : Readable []
  | mapped {t₁ t₀ l₁ l₀ : Byte} {rest : List Byte} (htype : ntohs t₁ t₀ = 1)
      (hlong : 8 ≤ ntohs l₁ l₀) (hcomplete : ntohs l₁ l₀ ≤ rest.length) :
      Readable (t₁ :: t₀ :: l₁ :: l₀ :: rest)
  | cut {t₁ t₀ l₁ l₀ : Byte} {rest : List Byte} (htype : ntohs t₁ t₀ ≠ 1)
      (hcut : rest.length < ntohs l₁ l₀) : Readable (t₁ :: t₀ :: l₁ :: l₀ :: rest)
  | skip {t₁ t₀ l₁ l₀ : Byte} {rest : List Byte} (htype : ntohs t₁ t₀ ≠ 1)
      (hcomplete : ntohs l₁ l₀ ≤ rest.length) (haligned : ntohs l₁ l₀ % 4 = 0)
      (hrest : Readable (rest.drop (ntohs l₁ l₀))) : Readable (t₁ :: t₀ :: l₁ :: l₀ :: rest)

/-- The lists in which an attribute is not read as it is: the padding is taken for an attribute, or
an address from behind the value. -/
inductive Misreads : List Byte → Prop
  | padding {t₁ t₀ l₁ l₀ : Byte} {rest : List Byte} (htype : ntohs t₁ t₀ ≠ 1)
      (hcomplete : ntohs l₁ l₀ ≤ rest.length) (hpadded : ntohs l₁ l₀ % 4 ≠ 0) :
      Misreads (t₁ :: t₀ :: l₁ :: l₀ :: rest)
  | behind {t₁ t₀ l₁ l₀ : Byte} {rest : List Byte} (htype : ntohs t₁ t₀ = 1)
      (hcomplete : ntohs l₁ l₀ ≤ rest.length) (hshort : ntohs l₁ l₀ < 8) :
      Misreads (t₁ :: t₀ :: l₁ :: l₀ :: rest)
  | skip {t₁ t₀ l₁ l₀ : Byte} {rest : List Byte} (htype : ntohs t₁ t₀ ≠ 1)
      (hcomplete : ntohs l₁ l₀ ≤ rest.length) (haligned : ntohs l₁ l₀ % 4 = 0)
      (hrest : Misreads (rest.drop (ntohs l₁ l₀))) : Misreads (t₁ :: t₀ :: l₁ :: l₀ :: rest)

section Attributes

variable {t₁ t₀ l₁ l₀ : Byte} {rest attributes : List Byte}

theorem mappedAddress_cons : mappedAddress (t₁ :: t₀ :: l₁ :: l₀ :: rest) =
    if rest.length < ntohs l₁ l₀ then none
    else if ntohs t₁ t₀ = 1 ∧ 8 ≤ ntohs l₁ l₀ then some ((rest.drop 4).take 4)
    else mappedAddress (rest.drop (padded (ntohs l₁ l₀))) := by
  rw [mappedAddress]

theorem mappedAddress_short (h : attributes.length < 4) : mappedAddress attributes = none := by
  match attributes with
  | [] | [_] | [_, _] | [_, _, _] => rw [mappedAddress]; simp
  | _ :: _ :: _ :: _ :: _ => exact absurd h (by simp only [List.length_cons]; omega)

theorem unpadded_cons : unpadded (t₁ :: t₀ :: l₁ :: l₀ :: rest) =
    if ntohs t₁ t₀ = 1 then if 8 ≤ rest.length then some (some ((rest.drop 4).take 4)) else none
    else unpadded (rest.drop (ntohs l₁ l₀)) := by
  rw [unpadded]

theorem unpadded_nil : unpadded [] = some none := by
  rw [unpadded]

theorem unpadded_short (hne : attributes ≠ []) (h : attributes.length < 4) :
    unpadded attributes = none := by
  match attributes with
  | [] => exact absurd rfl hne
  | [_] | [_, _] | [_, _, _] => rw [unpadded] <;> simp
  | _ :: _ :: _ :: _ :: _ => exact absurd h (by simp only [List.length_cons]; omega)

theorem padded_eq {n : ℕ} (h : n % 4 = 0) : padded n = n := by
  unfold padded
  omega

theorem Readable.unpadded (h : Readable attributes) :
    unpadded attributes = some (mappedAddress attributes) := by
  induction h with
  | empty => rw [unpadded_nil, mappedAddress_short (by decide)]
  | mapped htype hlong hcomplete =>
    rw [unpadded_cons, if_pos htype, if_pos (Nat.le_trans hlong hcomplete), mappedAddress_cons,
      if_neg (Nat.not_lt.mpr hcomplete), if_pos ⟨htype, hlong⟩]
  | cut htype hcut =>
    rw [unpadded_cons, if_neg htype, List.drop_eq_nil_of_le (Nat.le_of_lt hcut), unpadded_nil,
      mappedAddress_cons, if_pos hcut]
  | skip htype hcomplete haligned hrest ih =>
    rw [unpadded_cons, if_neg htype, ih, mappedAddress_cons, if_neg (Nat.not_lt.mpr hcomplete),
      if_neg fun h => htype h.1, padded_eq haligned]

/-- A list that is not readable can give the right address only if an attribute is misread. -/
theorem readable_of_unpadded (attributes : List Byte)
    (h : unpadded attributes = some (mappedAddress attributes)) :
    Readable attributes ∨ Misreads attributes := by
  match attributes with
  | [] => exact .inl .empty
  | [_] | [_, _] | [_, _, _] =>
    rw [unpadded_short (List.cons_ne_nil _ _) (by simp)] at h
    cases h
  | t₁ :: t₀ :: l₁ :: l₀ :: rest =>
    by_cases hcomplete : ntohs l₁ l₀ ≤ rest.length
    swap
    · refine .inl (.cut (fun htype => ?_) (Nat.not_le.mp hcomplete))
      rw [unpadded_cons, if_pos htype, mappedAddress_cons, if_pos (Nat.not_le.mp hcomplete)] at h
      split at h <;> cases h
    by_cases htype : ntohs t₁ t₀ = 1
    · rcases Nat.lt_or_ge (ntohs l₁ l₀) 8 with hshort | hlong
      · exact .inr (.behind htype hcomplete hshort)
      · exact .inl (.mapped htype hlong hcomplete)
    by_cases haligned : ntohs l₁ l₀ % 4 = 0
    · rw [unpadded_cons, if_neg htype, mappedAddress_cons, if_neg (Nat.not_lt.mpr hcomplete),
        if_neg fun h => htype h.1, padded_eq haligned] at h
      exact (readable_of_unpadded _ h).imp (.skip htype hcomplete haligned)
        (.skip htype hcomplete haligned)
    · exact .inr (.padding htype hcomplete haligned)
termination_by attributes.length
decreasing_by
  rw [List.length_drop]
  simp only [List.length_cons]
  omega

end Attributes

/-! ## The loop -/

section Loop

variable {datagram : List Byte} {stale : ℕ → Byte} {turns i : ℕ} {reads : List ℕ} {p : Parse}

theorem buffer_eq {b : Byte} (h : datagram[i]? = some b) : buffer datagram stale i = b := by
  rw [buffer, h, Option.getD_some]

theorem attrLoop_done {buf : ℕ → Byte} {len : ℕ} (h : len ≤ i) :
    attrLoop buf len (turns + 1) i reads = some ⟨none, reads⟩ := by
  rw [attrLoop, if_neg (Nat.not_lt.mpr h)]

/-- Every turn goes on behind a header. -/
theorem attrLoop_ends (buf : ℕ → Byte) (len : ℕ) : ∀ {turns i : ℕ} {reads : List ℕ},
    len - i < turns → (attrLoop buf len turns i reads).isSome
  | 0, _, _, h => absurd h (Nat.not_lt_zero _)
  | turns + 1, i, reads, h => by
    rw [attrLoop]
    dsimp only
    split_ifs
    · exact attrLoop_ends buf len (by omega)
    · rfl
    · rfl

/-- Whatever is read stays read. -/
theorem attrLoop_reads {buf : ℕ → Byte} {len : ℕ} : ∀ {turns i : ℕ} {reads : List ℕ},
    attrLoop buf len turns i reads = some p → reads ⊆ p.reads
  | 0, _, _, h => by cases h
  | turns + 1, i, reads, h => by
    rw [attrLoop] at h
    dsimp only at h
    split_ifs at h
    · exact List.Subset.trans (List.subset_append_left _ _) (attrLoop_reads h)
    · cases h
      exact fun j hj => List.mem_append_left _ (List.mem_append_left _ hj)
    · cases h
      exact List.Subset.refl _

/-- Four bytes of the buffer that have been received. -/
theorem map_buffer (h : i + 4 ≤ datagram.length) :
    (List.range' i 4).map (buffer datagram stale) = (datagram.drop i).take 4 := by
  refine List.ext_getElem? fun k => ?_
  by_cases hk : k < 4
  · have hlt : i + k < datagram.length := by omega
    rw [List.getElem?_map, List.getElem?_range' hk, List.getElem?_take_of_lt hk, List.getElem?_drop,
      Option.map_some, Nat.one_mul, List.getElem?_eq_getElem hlt, buffer_eq (List.getElem?_eq_getElem hlt)]
  · rw [List.getElem?_eq_none (by simpa using hk), List.getElem?_eq_none (by simp; omega)]

theorem drop_header {t₁ t₀ l₁ l₀ : Byte} (ht₁ : datagram[i]? = some t₁)
    (ht₀ : datagram[i + 1]? = some t₀) (hl₁ : datagram[i + 2]? = some l₁)
    (hl₀ : datagram[i + 3]? = some l₀) :
    datagram.drop i = t₁ :: t₀ :: l₁ :: l₀ :: datagram.drop (i + 4) := by
  have hdrop : ∀ {j : ℕ} {b : Byte}, datagram[j]? = some b →
      datagram.drop j = b :: datagram.drop (j + 1) := by
    intro j b hb
    obtain ⟨hlt, rfl⟩ := List.getElem?_eq_some_iff.mp hb
    exact List.drop_eq_getElem_cons hlt
  rw [hdrop ht₁, hdrop ht₀, hdrop hl₁, hdrop hl₀]

/-- The loop and what it reads, from the index `i` on. -/
def LoopGives (datagram : List Byte) (stale : ℕ → Byte) (i : ℕ) (reads : List ℕ)
    (r : Option (List Byte)) : Prop :=
  ∃ turns p, attrLoop (buffer datagram stale) datagram.length turns i reads = some p ∧
    (∀ j ∈ p.reads, j < datagram.length) ∧ p.address = r

/-- **The loop reads without padding.** -/
theorem loopGives_iff {datagram : List Byte} {stale : ℕ → Byte} {r : Option (List Byte)} (i : ℕ)
    (reads : List ℕ) (hreads : ∀ j ∈ reads, j < datagram.length) :
    LoopGives datagram stale i reads r ↔ unpadded (datagram.drop i) = some r := by
  by_cases hend : datagram.length ≤ i
  · rw [List.drop_eq_nil_of_le hend, unpadded_nil]
    constructor
    · rintro ⟨turns, p, hp, -, rfl⟩
      cases turns with
      | zero => cases hp
      | succ turns =>
        rw [attrLoop_done hend] at hp
        cases hp
        rfl
    · intro h
      exact ⟨1, _, attrLoop_done hend, hreads, Option.some.inj h⟩
  by_cases hshort : datagram.length < i + 4
  · -- the header of the attribute is cut off
    rw [unpadded_short (fun h => hend (List.drop_eq_nil_iff.mp h))
      (by rw [List.length_drop]; omega)]
    refine ⟨?_, fun h => by cases h⟩
    rintro ⟨turns, p, hp, hall, -⟩
    cases turns with
    | zero => cases hp
    | succ turns =>
      have hlast : i + 3 ∈ p.reads := by
        rw [attrLoop, if_pos (Nat.not_le.mp hend)] at hp
        dsimp only at hp
        have hmem : i + 3 ∈ reads ++ List.range' i 4 :=
          List.mem_append_right _ (List.mem_range'_1.mpr ⟨by omega, by omega⟩)
        split_ifs at hp
        · exact attrLoop_reads hp hmem
        · cases hp
          exact List.mem_append_left _ hmem
      exact absurd (hall _ hlast) (by omega)
  -- the header has been received
  obtain ⟨t₁, t₀, l₁, l₀, ht₁, ht₀, hl₁, hl₀⟩ : ∃ t₁ t₀ l₁ l₀,
      datagram[i]? = some t₁ ∧ datagram[i + 1]? = some t₀ ∧ datagram[i + 2]? = some l₁ ∧
        datagram[i + 3]? = some l₀ :=
    ⟨_, _, _, _, List.getElem?_eq_getElem (by omega), List.getElem?_eq_getElem (by omega),
      List.getElem?_eq_getElem (by omega), List.getElem?_eq_getElem (by omega)⟩
  have hheader : ∀ j ∈ reads ++ List.range' i 4, j < datagram.length := by
    intro j hj
    rcases List.mem_append.mp hj with hj | hj
    · exact hreads j hj
    · have hrange := List.mem_range'_1.mp hj
      omega
  rw [drop_header ht₁ ht₀ hl₁ hl₀, unpadded_cons]
  by_cases htype : ntohs t₁ t₀ = 1
  · rw [if_pos htype]
    have hturn : ∀ turns, attrLoop (buffer datagram stale) datagram.length (turns + 1) i reads =
        some ⟨some ((List.range' (i + 8) 4).map (buffer datagram stale)),
          reads ++ List.range' i 4 ++ List.range' (i + 8) 4⟩ := by
      intro turns
      rw [attrLoop, if_pos (Nat.not_le.mp hend), buffer_eq ht₁, buffer_eq ht₀]
      exact if_neg (not_not.mpr htype)
    rw [List.length_drop, List.drop_drop]
    by_cases hroom : 8 ≤ datagram.length - (i + 4)
    · have hbytes := @map_buffer datagram stale (i + 4 + 4) (by omega)
      rw [if_pos hroom, ← hbytes]
      constructor
      · rintro ⟨turns, p, hp, -, rfl⟩
        cases turns with
        | zero => cases hp
        | succ turns =>
          rw [hturn] at hp
          cases hp
          rfl
      · intro h
        refine ⟨1, _, hturn 0, fun j hj => ?_, Option.some.inj h⟩
        rcases List.mem_append.mp hj with hj | hj
        · exact hheader j hj
        · have hrange := List.mem_range'_1.mp hj
          omega
    · rw [if_neg hroom]
      refine ⟨?_, fun h => by cases h⟩
      rintro ⟨turns, p, hp, hall, -⟩
      cases turns with
      | zero => cases hp
      | succ turns =>
        rw [hturn] at hp
        cases hp
        have hlast : i + 11 < datagram.length :=
          hall _ (List.mem_append_right _ (List.mem_range'_1.mpr ⟨by omega, by omega⟩))
        omega
  · rw [if_neg htype, List.drop_drop]
    have hturn : ∀ turns, attrLoop (buffer datagram stale) datagram.length (turns + 1) i reads =
        attrLoop (buffer datagram stale) datagram.length turns (i + 4 + ntohs l₁ l₀)
          (reads ++ List.range' i 4) := by
      intro turns
      rw [attrLoop, if_pos (Nat.not_le.mp hend), buffer_eq ht₁, buffer_eq ht₀, buffer_eq hl₁,
        buffer_eq hl₀]
      exact if_pos htype
    rw [← loopGives_iff _ _ hheader]
    constructor
    · rintro ⟨turns, p, hp, hall⟩
      cases turns with
      | zero => cases hp
      | succ turns => exact ⟨turns, p, (hturn turns).symm.trans hp, hall⟩
    · rintro ⟨turns, p, hp, hall⟩
      exact ⟨turns + 1, p, (hturn turns).trans hp, hall⟩
termination_by datagram.length - i

end Loop

/-! ## Replies -/

variable {datagram : List Byte} {stale : ℕ → Byte}

theorem parsesReply_response (hresponse : BindingResponse datagram) :
    ParsesReply datagram stale ↔
      unpadded (datagram.drop 20) = some (mappedAddress (datagram.drop 20)) := by
  obtain ⟨hlen, hfirst, hsecond⟩ := hresponse
  have hloop : ∀ turns, tryserver true datagram stale turns =
      attrLoop (buffer datagram stale) datagram.length turns 20 [0, 1] := by
    intro turns
    unfold tryserver
    dsimp only
    rw [buffer_eq hfirst, buffer_eq hsecond, if_neg (Nat.not_lt.mpr hlen)]
    rfl
  have hreads : ∀ j ∈ [0, 1], j < datagram.length := by
    rw [List.forall_mem_cons, List.forall_mem_singleton]
    omega
  unfold ParsesReply replyAddress
  rw [if_pos ⟨hlen, hfirst, hsecond⟩, ← @loopGives_iff datagram stale _ _ _ hreads]
  simp only [hloop]
  exact Iff.rfl

/-- Everything else is not a reply. -/
theorem parsesReply_other (hother : ¬BindingResponse datagram) : ParsesReply datagram stale := by
  unfold ParsesReply replyAddress
  rw [if_neg hother]
  by_cases hshort : datagram.length < 20
  · exact ⟨0, ⟨none, []⟩, if_pos hshort, fun j hj => absurd hj List.not_mem_nil, rfl⟩
  have hfirst := List.getElem?_eq_getElem (show 0 < datagram.length by omega)
  have hsecond := List.getElem?_eq_getElem (show 1 < datagram.length by omega)
  by_cases hone : datagram[0] = 1
  · have htwo : datagram[1] ≠ 1 := by
      intro htwo
      rw [hone] at hfirst
      rw [htwo] at hsecond
      exact hother ⟨Nat.not_lt.mp hshort, hfirst, hsecond⟩
    refine ⟨0, ⟨none, [0, 1]⟩, ?_, ?_, rfl⟩
    · unfold tryserver
      dsimp only
      rw [buffer_eq hfirst, buffer_eq hsecond, if_neg hshort, if_neg (by decide),
        if_neg (not_not.mpr hone), if_pos htwo]
    · rw [List.forall_mem_cons, List.forall_mem_singleton]
      omega
  · refine ⟨0, ⟨none, [0]⟩, ?_, ?_, rfl⟩
    · unfold tryserver
      dsimp only
      rw [buffer_eq hfirst, if_neg hshort, if_neg (by decide), if_pos hone]
    · rw [List.forall_mem_singleton]
      omega

/-- The loop over the attributes ends on every datagram. -/
theorem tryserver_ends (fromServer : Bool) (datagram : List Byte) (stale : ℕ → Byte) :
    ∃ turns, (tryserver fromServer datagram stale turns).isSome := by
  refine ⟨datagram.length + 1, ?_⟩
  unfold tryserver
  dsimp only
  split_ifs
  · rfl
  · rfl
  · rfl
  · rfl
  · exact attrLoop_ends _ _ (by omega)

/-- A name of three bytes and one byte of padding, then the address. -/
def namedReply : List Byte :=
  [1, 1, 0, 20] ++ List.replicate 16 0 ++
    [0x80, 0x22, 0, 3, 0x61, 0x62, 0x63, 0, 0, 1, 0, 8, 0, 1, 0x12, 0x34, 203, 0, 113, 7]

end KasmVNC.Network.StunReply
