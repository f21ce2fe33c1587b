import AcpiTables.Proofs.Aml.Package
import Mathlib.Algebra.Group.Nat.Defs
import Mathlib.Order.Bounds.Defs

/-!
# Length fields are exact, and no longer than they have to be

The length of a package counts the field that holds it, so a package may cross a bound only because
it is measured. `AcpiTables.Aml.ExactLength` says what comes of that at every length: the first byte
tells the number of bytes, the bits between are clear, what is read is the length up to 28 bits, and
no shorter field would have held it (`AcpiTables.Aml.packageLength_exact`).

The numbers here are unbounded, and those of a machine are not. `AcpiTables.Aml.packageLengthWord`
makes the field by words of 64 bits, with shifts and masks. The one thing to know is that the sums
are the only steps that can go wrong: none of them wraps around as long as four more bytes can be
counted, and what the shifts and the casts cut off is what the field has no room for
(`AcpiTables.Aml.packageLengthWord_eq`).
-/

namespace AcpiTables.Aml

/-! ### By machine words -/

/-- How many bytes the length field takes, by words of 64 bits. -/
def wordSize (length : UInt64) : UInt64 :=
  if length + 1 < 0x40 then 1
  else if length + 2 < 0x1000 then 2
  else if length + 3 < 0x100000 then 3
  else 4

/-- The first byte of a field of several bytes: how many follow, and the lowest four bits. -/
def leadByte (following value : UInt64) : UInt8 := (following <<< 6 ||| (value &&& 0xF)).toUInt8

/-- The length field of a package by words of 64 bits, whose sums may wrap around. -/
def packageLengthWord (length : UInt64) (countSelf : Bool) : Bytes :=
  let size := wordSize length
  let value := if countSelf then length + size else length
  if size = 1 then [value.toUInt8]
  else if size = 2 then [leadByte 1 value, (value >>> 4).toUInt8]
  else if size = 3 then [leadByte 2 value, (value >>> 4).toUInt8, (value >>> 12).toUInt8]
  else [leadByte 3 value, (value >>> 4).toUInt8, (value >>> 12).toUInt8, (value >>> 20).toUInt8]

/-- The two parts of a first byte do not meet, so that putting them together adds them. -/
theorem leadByte_eq {following : UInt64} (hle : following.toNat ≤ 3) (value : UInt64) :
    leadByte following value = UInt8.ofNat (following.toNat * 64 + value.toNat % 16) := by
  have hshift : (following <<< 6).toNat = following.toNat <<< 6 := by
    rw [UInt64.toNat_shiftLeft]
    exact Nat.mod_eq_of_lt (by rw [Nat.shiftLeft_eq]; simp; omega)
  have hmask : (value &&& 0xF).toNat = value.toNat % 16 := by
    rw [UInt64.toNat_and]
    exact Nat.and_two_pow_sub_one_eq_mod value.toNat 4
  refine UInt8.toNat_inj.mp ?_
  rw [leadByte, UInt64.toNat_toUInt8, UInt64.toNat_or, hshift, hmask,
    ← Nat.shiftLeft_add_eq_or_of_lt (by omega), Nat.shiftLeft_eq, UInt8.toNat_ofNat']

/-- A byte of a word is the byte of its number. -/
theorem toUInt8_shiftRight (value : UInt64) {bits : UInt64} (hbits : bits.toNat < 64) :
    (value >>> bits).toUInt8 = UInt8.ofNat (value.toNat / 2 ^ bits.toNat) := by
  refine UInt8.toNat_inj.mp ?_
  rw [UInt64.toNat_toUInt8, UInt64.toNat_shiftRight, Nat.mod_eq_of_lt hbits,
    Nat.shiftRight_eq_div_pow, UInt8.toNat_ofNat']

section Words

variable {length : UInt64} (hlen : length.toNat ≤ 2 ^ 64 - 5)

include hlen

/-- The sums that choose the size do not wrap around. -/
theorem toNat_add {more : UInt64} (hmore : more.toNat ≤ 4) :
    (length + more).toNat = length.toNat + more.toNat := by
  rw [UInt64.toNat_add]
  exact Nat.mod_eq_of_lt (by omega)

theorem toNat_wordSize : (wordSize length).toNat = packageLengthSize length.toNat := by
  have hlt : ∀ more bound : UInt64, more.toNat ≤ 4 →
      (length + more < bound ↔ length.toNat + more.toNat < bound.toNat) := fun _ _ hmore => by
    rw [UInt64.lt_iff_toNat_lt, toNat_add hlen hmore]
  simp only [wordSize, packageLengthSize, hlt 1 _ (by decide), hlt 2 _ (by decide),
    hlt 3 _ (by decide), apply_ite UInt64.toNat]
  rfl

/-- **The field that machine words make is the length field.** -/
theorem packageLengthWord_eq (countSelf : Bool) :
    packageLengthWord length countSelf = packageLength length.toNat countSelf := by
  have hsize := toNat_wordSize hlen
  have hle : (wordSize length).toNat ≤ 4 := by
    have := packageLengthSize_cases length.toNat
    omega
  have hvalue : (if countSelf then length + wordSize length else length).toNat =
      packageLengthValue length.toNat countSelf := by
    rw [packageLengthValue, ← hsize, ← toNat_add hlen hle]
    exact apply_ite UInt64.toNat _ _ _
  have hword : ∀ size : UInt64, packageLengthSize length.toNat = size.toNat →
      wordSize length = size := fun _ hs => UInt64.toNat_inj.mp (hsize.trans hs)
  rw [packageLengthWord]
  generalize (if countSelf then length + wordSize length else length) = value at hvalue
  rcases packageLengthSize_cases length.toNat with ⟨hs, -⟩ | ⟨hs, -⟩ | ⟨hs, -⟩ | ⟨hs, -⟩
  · rw [hword 1 hs, packageLength_eq_singleton hs, ← hvalue]
    rfl
  · rw [hword 2 hs, packageLength_eq hs (by decide), ← hvalue]
    simp [leadByte_eq, toUInt8_shiftRight, Bytes.ofNatLE]
  · rw [hword 3 hs, packageLength_eq hs (by decide), ← hvalue]
    simp [leadByte_eq, toUInt8_shiftRight, Bytes.ofNatLE, Nat.div_div_eq_div_mul]
  · rw [hword 4 hs, packageLength_eq hs (by decide), ← hvalue]
    simp [leadByte_eq, toUInt8_shiftRight, Bytes.ofNatLE, Nat.div_div_eq_div_mul]

end Words

/-! ### Exact lengths -/

/-- The length that a field announces: that of the package, and of the field too if that counts. -/
def announcedLength (length : Nat) (countSelf : Bool) : Nat :=
  if countSelf then length + (packageLength length countSelf).length else length

/-- A field of some bytes, itself counted, has room for the length of a package. -/
def HasRoom (length size : Nat) : Prop := 1 ≤ size ∧ size ≤ 4 ∧ length + size < lengthCapacity size

/-- **A length field that is exact.** -/
structure ExactLength (length : Nat) (countSelf : Bool) : Prop where
  /-- The field has one to four bytes. -/
  size : 1 ≤ (packageLength length countSelf).length ∧ (packageLength length countSelf).length ≤ 4
  /-- The two highest bits of the first byte say how many bytes follow, and where some do, the two
  bits below are clear. -/
  lead : ∃ first rest, packageLength length countSelf = first :: rest ∧
    first.toNat / 64 = rest.length ∧
    (rest ≠ [] → first.toNat.testBit 5 = false ∧ first.toNat.testBit 4 = false)
  /-- What is read are the lowest 28 bits of the length that is announced. -/
  reads : Reads readLength (packageLength length countSelf)
    (announcedLength length countSelf % 2 ^ 28)
  /-- So the length is read back exactly if it has no more bits. -/
  reads_iff : Reads readLength (packageLength length countSelf)
    (announcedLength length countSelf) ↔ announcedLength length countSelf < 2 ^ 28
  /-- A field that counts itself is the shortest in which the length with that field fits. -/
  least : countSelf = true → announcedLength length countSelf < 2 ^ 28 →
    IsLeast {size | HasRoom length size} (packageLength length countSelf).length
  /-- Machine words make the same field. -/
  words : packageLengthWord (UInt64.ofNat length) countSelf = packageLength length countSelf

theorem announcedLength_eq (length : Nat) (countSelf : Bool) :
    announcedLength length countSelf = packageLengthValue length countSelf := by
  rw [announcedLength, length_packageLength, packageLengthValue]

/-- The first byte of a field, and how many bytes follow. -/
theorem exists_lead (length : Nat) (countSelf : Bool) :
    ∃ first rest, packageLength length countSelf = first :: rest ∧
      first.toNat / 64 = rest.length ∧ (rest ≠ [] → first.toNat / 16 % 4 = 0) := by
  have hlead : ∀ following value : Nat, following ≤ 3 →
      (UInt8.ofNat (following * 64 + value % 16)).toNat = following * 64 + value % 16 :=
    fun following value hle => by
      rw [UInt8.toNat_ofNat']
      exact Nat.mod_eq_of_lt (by omega)
  rcases packageLengthSize_cases length with ⟨hs, hlt⟩ | ⟨hs, -⟩ | ⟨hs, -⟩ | ⟨hs, -⟩
  · have hvalue := packageLengthValue_lt (show packageLengthSize length ≤ 3 by omega) countSelf
    rw [hs, lengthCapacity] at hvalue
    refine ⟨_, [], packageLength_eq_singleton hs countSelf, ?_, fun hne => absurd rfl hne⟩
    rw [UInt8.toNat_ofNat', List.length_nil]
    omega
  all_goals
    refine ⟨_, _, packageLength_eq hs (by decide) countSelf, ?_, fun _ => ?_⟩
    · rw [hlead _ _ (by decide), Bytes.length_ofNatLE]
      omega
    · rw [hlead _ _ (by decide)]
      omega

/-- Which lengths a field has room for. -/
theorem HasRoom.cases {length size : Nat} (hr : HasRoom length size) :
    size = 1 ∧ length + 1 < 0x40 ∨ size = 2 ∧ length + 2 < 0x1000 ∨
      size = 3 ∧ length + 3 < 0x100000 ∨ size = 4 := by
  match size, hr with
  | 1, ⟨_, _, hlt⟩ => exact Or.inl ⟨rfl, hlt⟩
  | 2, ⟨_, _, hlt⟩ => exact Or.inr (Or.inl ⟨rfl, hlt⟩)
  | 3, ⟨_, _, hlt⟩ => exact Or.inr (Or.inr (Or.inl ⟨rfl, hlt⟩))
  | 4, _ => exact Or.inr (Or.inr (Or.inr rfl))

/-- The size that is chosen has room, and is the least that has. -/
theorem isLeast_packageLengthSize {length : Nat}
    (hlt : length + packageLengthSize length < 2 ^ 28) :
    IsLeast {size | HasRoom length size} (packageLengthSize length) := by
  have hcases := packageLengthSize_cases length
  constructor
  · show HasRoom length (packageLengthSize length)
    refine ⟨by omega, by omega, ?_⟩
    rcases hcases with ⟨hs, h⟩ | ⟨hs, -, h⟩ | ⟨hs, -, h⟩ | ⟨hs, -⟩
    · rwa [hs]
    · rwa [hs]
    · rwa [hs]
    · rwa [hs] at hlt ⊢
  · intro size hr
    have := hr.cases
    omega

/-- **Every length field is exact**, as long as the sums of machine words do not wrap around. -/
theorem packageLength_exact {length : Nat} (hlen : length ≤ 2 ^ 64 - 5) (countSelf : Bool) :
    ExactLength length countSelf where
  size := by
    have := packageLengthSize_cases length
    rw [length_packageLength]
    omega
  lead := by
    obtain ⟨first, rest, hbytes, hcount, hclear⟩ := exists_lead length countSelf
    refine ⟨first, rest, hbytes, hcount, fun hne => ?_⟩
    have := hclear hne
    simp only [Nat.testBit_eq_decide_div_mod_eq, decide_eq_false_iff_not]
    omega
  reads := by
    rw [announcedLength_eq]
    exact reads_packageLength_mod length countSelf
  reads_iff := by
    have hread := reads_packageLength_mod length countSelf
    rw [announcedLength_eq]
    constructor
    · intro hexact
      rw [hexact.unique hread]
      exact Nat.mod_lt _ (by decide)
    · intro hlt
      have hsmall : packageLengthValue length countSelf < 0x10000000 := by omega
      rwa [Nat.mod_eq_of_lt hsmall] at hread
  least hself hlt := by
    subst hself
    rw [length_packageLength]
    rw [announcedLength_eq] at hlt
    exact isLeast_packageLengthSize hlt
  words := by
    have hnat : (UInt64.ofNat length).toNat = length := by
      rw [UInt64.toNat_ofNat']
      exact Nat.mod_eq_of_lt (by omega)
    have hwords := packageLengthWord_eq (hnat ▸ hlen) countSelf
    rwa [hnat] at hwords

/-- Two bytes would hold the length of this package, but not with themselves. -/
theorem packageLength_exact_turn :
    packageLength 4094 true = [0x81, 0x00, 0x01] ∧ ExactLength 4094 true :=
  ⟨by decide, packageLength_exact (by decide) true⟩

end AcpiTables.Aml
