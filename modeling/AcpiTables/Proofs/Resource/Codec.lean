import AcpiTables.Proofs.Resource.Interrupt

/-!
# Which bytes are interrupt descriptors

That a descriptor is read back says nothing of the byte strings that no descriptor was written to.
Reading accepts more than writing produces, and it is settled here how much more: three numbers in
the bytes have to agree, and the four upper bits of the flags may be anything
(`AcpiTables.Resource.Interrupt.decode_eq_ok_iff`). Writing what was read clears these bits and
changes nothing else (`AcpiTables.Resource.Interrupt.encode_of_decode`).

The one thing to know is that the three numbers are one. Size, count and table are written of one
list, and a reader that compares them all accepts exactly the strings that have such a list.

| direction | what is said of it |
|---|---|
| writing, then reading | `AcpiTables.Resource.Interrupt.WritesList` |
| reading, then writing | `AcpiTables.Resource.Interrupt.ReadsBytes` |
-/

namespace AcpiTables.Resource

/-! ### Flags -/

/-- **Flags without their four upper bits** say the same. -/
theorem Signalling.flags_ofFlags (flags : UInt8) : (ofFlags flags).flags = flags &&& 0x0F := by
  have hbit : ∀ b : UInt8, b % 2 = 1 ↔ b.toNat % 2 = 1 := fun b => by
    rw [← UInt8.toNat_inj, UInt8.toNat_mod]
    rfl
  have hmask : (flags &&& 0x0F).toNat = flags.toNat % 16 := by
    rw [UInt8.toNat_and]
    exact Nat.and_two_pow_sub_one_eq_mod flags.toNat 4
  refine UInt8.toNat_inj.mp ?_
  rw [hmask]
  simp only [Signalling.flags, ofFlags, hbit, UInt8.toNat_div]
  by_cases h0 : flags.toNat % 2 = 1 <;> by_cases h1 : flags.toNat / 2 % 2 = 1 <;>
    by_cases h2 : flags.toNat / 4 % 2 = 1 <;> by_cases h3 : flags.toNat / 8 % 2 = 1 <;>
    simp [h0, h1, h2, h3] <;> omega

namespace Interrupt

/-! ### The table -/

theorem length_decodeTable (count : Nat) (table : Bytes) :
    (decodeTable count table).length = count := by
  induction count generalizing table with
  | zero => rfl
  | succ count ih =>
    rw [decodeTable, Bytes.chunks_succ, List.map_cons, List.length_cons]
    exact congrArg Nat.succ (ih _)

/-- **A table is written again** if it has all its entries. -/
theorem encodeTable_decodeTable {count : Nat} {table : Bytes} (htable : table.length = 4 * count) :
    encodeTable (decodeTable count table) = table := by
  induction count generalizing table with
  | zero => exact (List.length_eq_zero_iff.mp htable).symm
  | succ count ih =>
    have hentry : (table.take 4).length = 4 := by
      rw [List.length_take]
      omega
    have hword : Bytes.ofNatLE 4 (UInt32.ofNat (Bytes.toNatLE (table.take 4))).toNat =
        table.take 4 := by
      have hlt : Bytes.toNatLE (table.take 4) < 2 ^ 32 := by
        have := Bytes.toNatLE_lt (table.take 4)
        rwa [hentry] at this
      have hread := Bytes.ofNatLE_toNatLE (table.take 4)
      rwa [hentry, ← Nat.mod_eq_of_lt hlt, ← UInt32.toNat_ofNat'] at hread
    have htail : (table.drop 4).length = 4 * count := by
      rw [List.length_drop]
      omega
    have hrest := ih htail
    rw [decodeTable, Bytes.chunks_succ, List.map_cons, encodeTable, List.flatMap_cons, hword]
    rw [encodeTable, decodeTable] at hrest
    rw [hrest, List.take_append_drop]

/-! ### What is read -/

variable {bytes : Bytes} {i : Interrupt} {signalling : Signalling} {numbers : List UInt32}

/-- A list can be listed if it is neither empty nor too long to be counted. -/
theorem exists_ofNumbers_iff :
    (∃ i, ofNumbers signalling numbers = .ok i) ↔ 1 ≤ numbers.length ∧ numbers.length ≤ 255 := by
  have hpos : numbers ≠ [] ↔ 1 ≤ numbers.length := List.length_pos_iff.symm
  constructor
  · rintro ⟨i, hi⟩
    obtain ⟨-, rfl⟩ := ofNumbers_eq_ok_iff.mp hi
    exact ⟨hpos.mp i.numbers_ne_nil, i.length_le⟩
  · rintro ⟨hone, hmany⟩
    exact ⟨⟨signalling, numbers, hpos.mpr hone, hmany⟩, ofNumbers_eq_ok_iff.mpr ⟨rfl, rfl⟩⟩

/-- The tag of a large item with the name of the interrupt descriptor. -/
theorem tag_eq_of_isInterrupt {tag : UInt8} (hlarge : ¬tag < 0x80)
    (hname : tag % 0x80 = interruptName) : tag = 0x89 := by
  have hmod : tag.toNat % 128 = 9 := by
    have := congrArg UInt8.toNat hname
    simpa [UInt8.toNat_mod, interruptName] using this
  have hge : 128 ≤ tag.toNat := by simpa [UInt8.lt_iff_toNat_lt] using hlarge
  have hlt := tag.toNat_lt
  refine UInt8.toNat_inj.mp ?_
  show tag.toNat = 137
  omega

/-- A header that names an interrupt descriptor is that of a large item, with its size behind the
tag. -/
theorem parse_eq_ok_iff {header : Header} :
    Header.parse bytes = .ok header ∧ header.isInterrupt = true ↔ ∃ low high body,
      bytes = 0x89 :: low :: high :: body ∧
        header = ⟨true, interruptName, Bytes.toNatLE [low, high]⟩ := by
  constructor
  · rintro ⟨hp, hi⟩
    cases bytes with
    | nil => cases hp
    | cons tag rest =>
      simp only [Header.parse] at hp
      by_cases hsmall : tag < 0x80
      · rw [if_pos hsmall] at hp
        obtain rfl := Except.ok.inj hp
        exact absurd hi Bool.false_ne_true
      · rw [if_neg hsmall] at hp
        split at hp
        · next low high body =>
          obtain rfl := Except.ok.inj hp
          have hname : tag % 0x80 = interruptName := by
            simpa [Header.isInterrupt] using hi
          obtain rfl := tag_eq_of_isInterrupt hsmall hname
          exact ⟨low, high, body, rfl, by rw [hname]⟩
        · cases hp
  · rintro ⟨low, high, body, rfl, rfl⟩
    exact ⟨rfl, rfl⟩

/-- The body is read if the table has the entries that are counted, and there are some. -/
theorem decodeBody_eq_ok_iff {body : Bytes} : decodeBody body = .ok i ↔ ∃ flags count table,
    body = flags :: count :: table ∧ table.length = count.toNat * 4 ∧
      i.signalling = .ofFlags flags ∧ i.numbers = decodeTable count.toNat table := by
  unfold decodeBody
  split
  · next flags count table =>
    constructor
    · intro hi
      split at hi
      · exact nomatch hi
      · next htable =>
        exact ⟨flags, count, table, rfl, Decidable.not_not.mp htable, ofNumbers_eq_ok_iff.mp hi⟩
    · rintro ⟨_, _, _, ⟨⟩, htable, hi⟩
      rw [if_neg (not_not_intro htable)]
      exact ofNumbers_eq_ok_iff.mpr hi
  · next hshort =>
    refine iff_of_false nofun ?_
    rintro ⟨flags, count, table, rfl, -⟩
    exact hshort flags count table rfl

/-- **Which bytes are read as an interrupt descriptor.** Its size, its count and its table are
those of one list. -/
theorem decode_eq_ok_iff : decode bytes = .ok i ↔ ∃ low high flags table,
    bytes = 0x89 :: low :: high :: flags :: UInt8.ofNat i.numbers.length :: table ∧
      Bytes.toNatLE [low, high] = 2 + 4 * i.numbers.length ∧
      table.length = 4 * i.numbers.length ∧
      i.signalling = .ofFlags flags ∧ i.numbers = decodeTable i.numbers.length table := by
  rw [decode, bind_eq_ok]
  constructor
  · rintro ⟨header, hcheck, hi⟩
    obtain ⟨hp, hsize, -⟩ := checkDescriptor_eq_ok_iff.mp hcheck
    split at hi
    · next hinterrupt =>
      obtain ⟨low, high, body, rfl, rfl⟩ := parse_eq_ok_iff.mp ⟨hp, hinterrupt⟩
      obtain ⟨flags, count, table, rfl, htable, hs, hn⟩ := decodeBody_eq_ok_iff.mp hi
      have hcount : count.toNat = i.numbers.length := by rw [hn, length_decodeTable]
      rw [hcount] at htable hn
      refine ⟨low, high, flags, table, ?_, ?_, by omega, hs, hn⟩
      · rw [← hcount, UInt8.ofNat_toNat]
      · simp only [Header.totalSize, Header.size, if_true, List.length_cons] at hsize
        omega
    · cases hi
  · rintro ⟨low, high, flags, table, rfl, hsize, htable, hs, hn⟩
    obtain ⟨hp, hinterrupt⟩ := parse_eq_ok_iff.mpr ⟨low, high, _, rfl, rfl⟩
    have htag : Header.isEndTagLike ⟨true, interruptName, Bytes.toNatLE [low, high]⟩ ≠ true :=
      Bool.false_ne_true
    refine ⟨_, checkDescriptor_eq_ok_iff.mpr ⟨hp, ?_, fun hlike => absurd hlike htag⟩, ?_⟩
    · simp only [Header.totalSize, Header.size, if_true, List.length_cons, hsize, htable]
      omega
    · rw [if_pos hinterrupt]
      refine decodeBody_eq_ok_iff.mpr ⟨flags, _, table, rfl, ?_, hs, ?_⟩
      · rw [i.toNat_count, htable, Nat.mul_comm]
      · rwa [i.toNat_count]

/-- **Writing what was read** clears the four upper bits of the flags. -/
theorem encode_of_decode (hd : decode bytes = .ok i) :
    i.encode = bytes.modify 3 fun flags => flags &&& 0x0F := by
  obtain ⟨low, high, flags, table, rfl, hsize, htable, hs, hn⟩ := decode_eq_ok_iff.mp hd
  have hwords : Bytes.ofNatLE 2 (2 + 4 * i.numbers.length) = [low, high] := by
    rw [← hsize]
    exact Bytes.ofNatLE_toNatLE [low, high]
  have hflags : i.signalling.flags = flags &&& 0x0F := by rw [hs, Signalling.flags_ofFlags]
  have hentries : encodeTable i.numbers = table := by rw [hn, encodeTable_decodeTable htable]
  rw [encode, hwords, hflags, ← encodeTable, hentries]
  rfl

example : encode <$> decode [0x89, 0x06, 0x00, 0xF5, 0x01, 0x29, 0x00, 0x00, 0x00] =
    .ok [0x89, 0x06, 0x00, 0x05, 0x01, 0x29, 0x00, 0x00, 0x00] := rfl

/-! ### The codec -/

/-- Bytes that hold one size, one count and one table, all of `count` interrupts. -/
structure HoldsInterrupts (bytes : Bytes) (count : Nat) : Prop where
  /-- There are as many bytes as so many interrupts need. -/
  length_eq : bytes.length = 5 + 4 * count
  /-- The first byte is the tag. -/
  tag : bytes[0]? = some 0x89
  /-- The next two are the size of what follows them. -/
  size : Bytes.toNatLE ((bytes.drop 1).take 2) = 2 + 4 * count
  /-- Behind the flags stands the count. -/
  count : bytes[4]? = some (UInt8.ofNat count)

/-- A descriptor of as many interrupts is read of such bytes. -/
theorem exists_decode_iff : (∃ i, decode bytes = .ok i) ↔
    ∃ count, 1 ≤ count ∧ count ≤ 255 ∧ HoldsInterrupts bytes count := by
  constructor
  · rintro ⟨i, hd⟩
    obtain ⟨low, high, flags, table, rfl, hsize, htable, -⟩ := decode_eq_ok_iff.mp hd
    refine ⟨i.numbers.length, List.length_pos_iff.mpr i.numbers_ne_nil, i.length_le, ?_, rfl, hsize,
      rfl⟩
    simp only [List.length_cons, htable]
    omega
  · rintro ⟨count, hone, hmany, hlen, htag, hsize, hcount⟩
    match bytes with
    | tag :: low :: high :: flags :: counted :: table =>
      obtain rfl := Option.some.inj htag
      obtain rfl := Option.some.inj hcount
      have htable : table.length = 4 * count := by
        simp only [List.length_cons] at hlen
        omega
      have hlisted : ∃ i, ofNumbers (.ofFlags flags) (decodeTable count table) = .ok i :=
        exists_ofNumbers_iff.mpr (by rw [length_decodeTable]; exact ⟨hone, hmany⟩)
      obtain ⟨i, hi⟩ := hlisted
      obtain ⟨hs, hn⟩ := ofNumbers_eq_ok_iff.mp hi
      obtain rfl : i.numbers.length = count := by rw [hn, length_decodeTable]
      exact ⟨i, decode_eq_ok_iff.mpr ⟨low, high, flags, table, rfl, hsize, htable, hs, hn⟩⟩

/-- **A list of interrupts that is written, and read.** -/
structure WritesList (signalling : Signalling) (numbers : List UInt32) : Prop where
  /-- A descriptor lists 1 to 255 interrupts. -/
  listed_iff : (∃ i, ofNumbers signalling numbers = .ok i) ↔
    1 ≤ numbers.length ∧ numbers.length ≤ 255
  /-- Where the interrupts are counted apart, the count has to be right, too. -/
  counted_iff : ∀ count, (∃ bytes, encodeCounted signalling numbers count = .ok bytes) ↔
    (1 ≤ numbers.length ∧ numbers.length ≤ 255) ∧ count.toNat = numbers.length
  /-- The bytes are those of the descriptor then. -/
  counted_eq : ∀ count bytes i, encodeCounted signalling numbers count = .ok bytes →
    ofNumbers signalling numbers = .ok i → bytes = i.encode
  /-- There are as many bytes as the interrupts need. -/
  length_eq : ∀ i, ofNumbers signalling numbers = .ok i →
    i.encode.length = 5 + 4 * numbers.length
  /-- They are one large item, whose size is not cut off. -/
  checked : ∀ i, ofNumbers signalling numbers = .ok i →
    checkDescriptor i.encode = .ok ⟨true, interruptName, 2 + 4 * numbers.length⟩
  /-- What is read is the descriptor, with the interrupts in their order. -/
  read : ∀ i, ofNumbers signalling numbers = .ok i →
    decode i.encode = .ok i ∧ i.signalling = signalling ∧ i.numbers = numbers

/-- **Bytes that are read, and written again.** -/
structure ReadsBytes (bytes : Bytes) : Prop where
  /-- They are read if size, count and table are those of 1 to 255 interrupts. -/
  read_iff : (∃ i, decode bytes = .ok i) ↔
    ∃ count, 1 ≤ count ∧ count ≤ 255 ∧ HoldsInterrupts bytes count
  /-- Written again, they are the same but for the upper bits of the flags. -/
  written : ∀ i, decode bytes = .ok i → i.encode = bytes.modify 3 fun flags => flags &&& 0x0F

theorem encodeCounted_eq_ok_iff {count : UInt8} :
    encodeCounted signalling numbers count = .ok bytes ↔
      count.toNat = numbers.length ∧
        ∃ i, ofNumbers signalling numbers = .ok i ∧ i.encode = bytes := by
  rw [encodeCounted]
  split
  · next hbad =>
    refine iff_of_false (by rintro ⟨⟩) ?_
    rintro ⟨hcount, i, hi, -⟩
    obtain ⟨hone, -⟩ := exists_ofNumbers_iff.mp ⟨i, hi⟩
    rcases hbad with hnil | hne
    · simp [List.isEmpty_iff.mp hnil] at hone
    · exact hne hcount.symm
  · next hgood =>
    rw [not_or, Decidable.not_not] at hgood
    rw [map_eq_ok, and_iff_right hgood.2.symm]

/-- **Writing and reading interrupts are one codec.** -/
theorem interrupt_codec :
    (∀ signalling numbers, WritesList signalling numbers) ∧ ∀ bytes, ReadsBytes bytes := by
  refine ⟨fun signalling numbers => ?_, fun bytes => ⟨exists_decode_iff, fun _ => encode_of_decode⟩⟩
  have hlist : ∀ i, ofNumbers signalling numbers = .ok i →
      i.signalling = signalling ∧ i.numbers = numbers := fun _ => ofNumbers_eq_ok_iff.mp
  refine ⟨exists_ofNumbers_iff, fun count => ?_, fun count bytes i hcounted hi => ?_,
    fun i hi => ?_, fun i hi => ?_, fun i hi => ⟨i.decode_encode, hlist i hi⟩⟩
  · constructor
    · rintro ⟨bytes, hbytes⟩
      obtain ⟨hcount, i, hi, -⟩ := encodeCounted_eq_ok_iff.mp hbytes
      exact ⟨exists_ofNumbers_iff.mp ⟨i, hi⟩, hcount⟩
    · rintro ⟨hlength, hcount⟩
      obtain ⟨i, hi⟩ := exists_ofNumbers_iff.mpr hlength
      exact ⟨i.encode, encodeCounted_eq_ok_iff.mpr ⟨hcount, i, hi, rfl⟩⟩
  · obtain ⟨-, i', hi', rfl⟩ := encodeCounted_eq_ok_iff.mp hcounted
    rw [Except.ok.inj (hi'.symm.trans hi)]
  · rw [i.length_encode, (hlist i hi).2]
  · rw [i.checkDescriptor_encode, header, (hlist i hi).2]

end Interrupt

end AcpiTables.Resource
