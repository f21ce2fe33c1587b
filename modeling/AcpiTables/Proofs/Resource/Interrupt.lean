import AcpiTables.Proofs.Request
import AcpiTables.Proofs.Resource.Descriptor
import AcpiTables.Resource.Interrupt

/-!
# Interrupts are read back

An interrupt descriptor is read back as it was, and a list of them up to the End Tag.

Two numbers have to be right for that, and both are counted twice. The size of the body is
written in two bytes and the number of interrupts in one, so it matters that no descriptor lists
more than 255 of them. Beyond that, the walk over a list looks at nothing but the sizes that the
descriptors declare, and it stops at the first End Tag, whatever follows.

| result | theorem |
|---|---|
| a descriptor is read back | `AcpiTables.Resource.Interrupt.decode_encode` |
| a list of descriptors is read back | `AcpiTables.Resource.interruptsOf_flatMap` |
-/

namespace AcpiTables.Resource

/-! ### One descriptor -/

/-- The choices are told apart by the flags. -/
theorem Signalling.ofFlags_flags (s : Signalling) : ofFlags s.flags = s := by
  obtain ⟨usage, trigger, polarity, sharing⟩ := s
  rcases usage with _ | _ <;> rcases trigger with _ | _ <;> rcases polarity with _ | _ <;>
    rcases sharing with _ | _ <;> rfl

namespace Interrupt

/-- The bytes of an interrupt table. -/
def encodeTable (numbers : List UInt32) : Bytes :=
  numbers.flatMap fun n => Bytes.ofNatLE 4 n.toNat

theorem length_encodeTable (numbers : List UInt32) :
    (encodeTable numbers).length = 4 * numbers.length := by
  induction numbers with
  | nil => rfl
  | cons n numbers ih =>
    rw [encodeTable, List.flatMap_cons, List.length_append, Bytes.length_ofNatLE, List.length_cons]
    rw [encodeTable] at ih
    omega

/-- Interrupt numbers are read back. -/
theorem decodeTable_encodeTable (numbers : List UInt32) :
    decodeTable numbers.length (encodeTable numbers) = numbers := by
  induction numbers with
  | nil => rfl
  | cons n numbers ih =>
    have hlen : (Bytes.ofNatLE 4 n.toNat).length = 4 := Bytes.length_ofNatLE 4 _
    have hword : UInt32.ofNat (Bytes.toNatLE (Bytes.ofNatLE 4 n.toNat)) = n := by
      have hlt : n.toNat < Bytes.capacity 4 := n.toNat_lt
      rw [Bytes.toNatLE_ofNatLE, Nat.mod_eq_of_lt hlt, UInt32.ofNat_toNat]
    rw [encodeTable, List.flatMap_cons, List.length_cons, decodeTable, Bytes.chunks_succ,
      List.take_left' hlen, List.drop_left' hlen, List.map_cons, hword]
    exact congrArg (n :: ·) ih

/-- The header, flags and count of a descriptor, with the two bytes of the size written out. -/
theorem encode_eq (i : Interrupt) : i.encode =
    0x89 :: UInt8.ofNat (2 + 4 * i.numbers.length) ::
      UInt8.ofNat ((2 + 4 * i.numbers.length) / 256) :: i.signalling.flags ::
        UInt8.ofNat i.numbers.length :: encodeTable i.numbers := rfl

/-- The number of interrupts fits its byte. -/
theorem toNat_count (i : Interrupt) :
    (UInt8.ofNat i.numbers.length).toNat = i.numbers.length := by
  have hle : i.numbers.length ≤ 255 := i.length_le
  rw [UInt8.toNat_ofNat']
  omega

/-- A descriptor lists the interrupts that it was asked to list, if it can. -/
theorem ofNumbers_eq_ok_iff {signalling : Signalling} {numbers : List UInt32} {i : Interrupt} :
    ofNumbers signalling numbers = .ok i ↔ i.signalling = signalling ∧ i.numbers = numbers := by
  rw [ofNumbers]
  constructor
  · intro hi
    split at hi
    · obtain rfl := Except.ok.inj hi
      exact ⟨rfl, rfl⟩
    · exact nomatch hi
  · rintro ⟨rfl, rfl⟩
    rw [dif_pos ⟨i.numbers_ne_nil, i.length_le⟩]

/-- A list that is counted right is encoded. -/
theorem encodeCounted_eq (i : Interrupt) :
    encodeCounted i.signalling i.numbers (UInt8.ofNat i.numbers.length) = .ok i.encode := by
  rw [encodeCounted, if_neg, ofNumbers_eq_ok_iff.mpr ⟨rfl, rfl⟩]
  · rfl
  · simp [i.toNat_count, i.numbers_ne_nil]

theorem length_encode (i : Interrupt) : i.encode.length = 5 + 4 * i.numbers.length := by
  rw [encode_eq]
  simp only [List.length_cons, length_encodeTable]
  omega

/-- The header of a descriptor. -/
def header (i : Interrupt) : Header := ⟨true, interruptName, 2 + 4 * i.numbers.length⟩

theorem totalSize_header (i : Interrupt) : i.header.totalSize = i.encode.length := by
  have hheader : i.header.totalSize = 3 + (2 + 4 * i.numbers.length) := rfl
  rw [hheader, length_encode]
  omega

/-- What a descriptor declares, whatever follows. -/
theorem parse_encode (i : Interrupt) (rest : Bytes) :
    Header.parse (i.encode ++ rest) = .ok i.header := by
  have hle : i.numbers.length ≤ 255 := i.length_le
  have hsize : Bytes.toNatLE (Bytes.ofNatLE 2 (2 + 4 * i.numbers.length)) =
      2 + 4 * i.numbers.length := by
    rw [Bytes.toNatLE_ofNatLE]
    exact Nat.mod_eq_of_lt (by show _ < 256 * (256 * 1); omega)
  rw [header, ← hsize]
  rfl

theorem checkDescriptor_encode (i : Interrupt) : checkDescriptor i.encode = .ok i.header := by
  have hparse := i.parse_encode []
  rw [List.append_nil] at hparse
  exact checkDescriptor_eq_ok_iff.mpr ⟨hparse, i.totalSize_header, nofun⟩

/-- **A descriptor is read back.** -/
theorem decode_encode (i : Interrupt) : decode i.encode = .ok i := by
  have hcount := i.toNat_count
  have htable : (encodeTable i.numbers).length = (UInt8.ofNat i.numbers.length).toNat * 4 := by
    rw [length_encodeTable, hcount, Nat.mul_comm]
  have hbody : decodeBody (i.signalling.flags :: UInt8.ofNat i.numbers.length ::
      encodeTable i.numbers) = .ok i := by
    rw [decodeBody, if_neg (not_not_intro htable), hcount, decodeTable_encodeTable,
      Signalling.ofFlags_flags]
    exact ofNumbers_eq_ok_iff.mpr ⟨rfl, rfl⟩
  exact bind_eq_ok.mpr ⟨_, i.checkDescriptor_encode, hbody⟩

/-- An interrupt descriptor is no End Tag. -/
theorem startsWithEndTag_encode (i : Interrupt) (rest : Bytes) :
    startsWithEndTag (i.encode ++ rest) = false := by
  rw [startsWithEndTag, i.parse_encode rest]
  rfl

end Interrupt

/-! ### A list of descriptors -/

/-- What declares a size has bytes, and the size is not zero. -/
theorem descriptorSize_spec {bytes : Bytes} {size : Nat} (hs : descriptorSize bytes = .ok size) :
    bytes ≠ [] ∧ 0 < size := by
  obtain ⟨header, hp, rfl⟩ := map_eq_ok.mp hs
  refine ⟨fun he => ?_, ?_⟩
  · subst he
    exact nomatch hp
  · rw [Header.totalSize, Header.size]
    split <;> omega

/-- The interrupts of a list of resources that is closed by an End Tag: walks from descriptor to
descriptor by the declared sizes, and reads each. -/
def interruptsOf (resources : Bytes) : Except Error (List Interrupt) :=
  if startsWithEndTag resources then .ok []
  else
    match _hs : descriptorSize resources with
    | .error e => .error e
    | .ok size => do
      let interrupt ← Interrupt.decode (resources.take size)
      let more ← interruptsOf (resources.drop size)
      return interrupt :: more
termination_by resources.length
decreasing_by
  obtain ⟨hne, hpos⟩ := descriptorSize_spec _hs
  have := List.length_pos_iff.mpr hne
  rw [List.length_drop]
  omega

/-- **A list of interrupts is read back**, up to the End Tag. -/
theorem interruptsOf_flatMap (is : List Interrupt) (rest : Bytes) :
    interruptsOf (is.flatMap Interrupt.encode ++ 0x79 :: rest) = .ok is := by
  induction is with
  | nil => rw [List.flatMap_nil, List.nil_append, interruptsOf, if_pos (startsWithEndTag_cons rest)]
  | cons i is ih =>
    rw [List.flatMap_cons, List.append_assoc]
    generalize hmore : is.flatMap Interrupt.encode ++ 0x79 :: rest = more at ih
    have hsize : descriptorSize (i.encode ++ more) = .ok i.encode.length := by
      rw [descriptorSize, i.parse_encode, ← i.totalSize_header]
      rfl
    rw [interruptsOf, if_neg (by rw [i.startsWithEndTag_encode]; decide)]
    split
    · next e he =>
      rw [hsize] at he
      cases he
    · next size hs =>
      obtain rfl := Except.ok.inj (hsize.symm.trans hs)
      rw [List.take_left, List.drop_left]
      exact bind_eq_ok.mpr ⟨i, i.decode_encode, bind_eq_ok.mpr ⟨is, ih, rfl⟩⟩

end AcpiTables.Resource
