import AcpiTables.Aml.PackageLength
import AcpiTables.Proofs.Reader

/-!
# Where a package ends

The length of a package counts its own field, and how long the field is depends on the
length. This goes well together: at every size the field holds the number
(`AcpiTables.Aml.reads_readLength`), as long as the number has 28 bits, and taking the
field off leaves exactly the body (`AcpiTables.Aml.reads_readPackage`).
-/

namespace AcpiTables.Aml

/-- Takes a length field: the number that it holds. -/
def readLength : Reader Nat
  | [] => none
  | lead :: rest => do
    let following := lead.toNat / 64
    if following = 0 then some (lead.toNat % 64, rest)
    else
      let (digits, rest) ← readBytes following rest
      some (lead.toNat % 16 + 16 * Bytes.toNatLE digits, rest)

/-- Takes a package, and returns its body. -/
def readPackage : Reader Bytes := fun input => do
  let (value, rest) ← readLength input
  readBytes (value - (input.length - rest.length)) rest

/-- How many numbers a length field of some bytes tells apart: one byte has six bits for them, and
more bytes have four bits in the first and eight in each that follows. -/
def lengthCapacity : Nat → Nat
  | 0 => 0
  | 1 => 0x40
  | following + 2 => 16 * Bytes.capacity (following + 1)

/-- **Which size is chosen.** Each bound leaves room for the field itself. -/
theorem packageLengthSize_cases (length : Nat) :
    packageLengthSize length = 1 ∧ length + 1 < 0x40 ∨
      packageLengthSize length = 2 ∧ 0x40 ≤ length + 1 ∧ length + 2 < 0x1000 ∨
      packageLengthSize length = 3 ∧ 0x1000 ≤ length + 2 ∧ length + 3 < 0x100000 ∨
      packageLengthSize length = 4 ∧ 0x100000 ≤ length + 3 := by
  unfold packageLengthSize
  split
  · omega
  · split
    · omega
    · split <;> omega

theorem packageLengthSize_pos (length : Nat) : 1 ≤ packageLengthSize length := by
  have := packageLengthSize_cases length
  omega

/-- A length field of several bytes, of which the first holds four bits of the number. -/
theorem packageLength_eq {length following : Nat} (hsize : packageLengthSize length = following + 1)
    (hfollowing : following ≠ 0) (countSelf : Bool) :
    packageLength length countSelf =
      UInt8.ofNat (following * 64 + packageLengthValue length countSelf % 16) ::
        Bytes.ofNatLE following (packageLengthValue length countSelf / 16) := by
  rw [packageLength, hsize, Nat.add_sub_cancel]
  split
  · exact absurd rfl hfollowing
  · rfl

/-- A length field of one byte. -/
theorem packageLength_eq_singleton {length : Nat} (hsize : packageLengthSize length = 1)
    (countSelf : Bool) :
    packageLength length countSelf = [UInt8.ofNat (packageLengthValue length countSelf)] := by
  rw [packageLength, hsize]
  rfl

/-- The field has the length that was chosen for it. -/
theorem length_packageLength (length : Nat) (countSelf : Bool) :
    (packageLength length countSelf).length = packageLengthSize length := by
  have hpos := packageLengthSize_pos length
  obtain ⟨following, hsize⟩ : ∃ k, packageLengthSize length = k + 1 :=
    ⟨packageLengthSize length - 1, by omega⟩
  by_cases hfollowing : following = 0
  · subst hfollowing
    rw [packageLength_eq_singleton hsize, hsize, List.length_singleton]
  · rw [packageLength_eq hsize hfollowing, hsize, List.length_cons, Bytes.length_ofNatLE]

/-- A field of several bytes gives back what its digits can hold of a number. -/
theorem reads_digits {following : Nat} (hpos : following ≠ 0) (hle : following ≤ 3) (value : Nat) :
    Reads readLength (UInt8.ofNat (following * 64 + value % 16) ::
      Bytes.ofNatLE following (value / 16)) (value % (16 * Bytes.capacity following)) := by
  intro rest
  have hlead : (UInt8.ofNat (following * 64 + value % 16)).toNat = following * 64 + value % 16 := by
    rw [UInt8.toNat_ofNat']
    exact Nat.mod_eq_of_lt (by omega)
  have hcount : (following * 64 + value % 16) / 64 = following := by omega
  have hlow : (following * 64 + value % 16) % 16 = value % 16 := by omega
  have hdigits := reads_readBytes (Bytes.length_ofNatLE following (value / 16)) rest
  rw [List.cons_append]
  simp only [readLength, hlead, hcount, hlow, if_neg hpos, hdigits, Option.bind_eq_bind,
    Option.bind_some, Bytes.toNatLE_ofNatLE, Nat.mod_mul]

/-- **A length field is read back**, up to the bits for which it has no room. -/
theorem reads_packageLength (length : Nat) (countSelf : Bool) :
    Reads readLength (packageLength length countSelf)
      (packageLengthValue length countSelf % lengthCapacity (packageLengthSize length)) := by
  rcases packageLengthSize_cases length with ⟨hsize, hlt⟩ | ⟨hsize, -⟩ | ⟨hsize, -⟩ | ⟨hsize, -⟩
  · have hvalue : packageLengthValue length countSelf < 0x40 := by
      rw [packageLengthValue, hsize]
      split <;> omega
    have hsmall : (UInt8.ofNat (packageLengthValue length countSelf)).toNat =
        packageLengthValue length countSelf := by
      rw [UInt8.toNat_ofNat']
      exact Nat.mod_eq_of_lt (by omega)
    intro rest
    rw [packageLength_eq_singleton hsize, List.singleton_append, hsize]
    simp only [readLength, hsmall, Nat.div_eq_of_lt hvalue, if_true, lengthCapacity]
  all_goals
    rw [packageLength_eq hsize (by decide), hsize]
    exact reads_digits (by decide) (by decide) _

/-- Only four bytes may be too few for a number. -/
theorem packageLengthValue_lt {length : Nat} (hsize : packageLengthSize length ≤ 3)
    (countSelf : Bool) :
    packageLengthValue length countSelf < lengthCapacity (packageLengthSize length) := by
  have hle : packageLengthValue length countSelf ≤ length + packageLengthSize length := by
    rw [packageLengthValue]
    split <;> omega
  rcases packageLengthSize_cases length with ⟨h, _⟩ | ⟨h, _⟩ | ⟨h, _⟩ | ⟨h, _⟩ <;>
    rw [h] at hle hsize ⊢ <;> simp only [lengthCapacity, Bytes.capacity] <;> omega

/-- What is read of a length field are the lowest 28 bits of the number. -/
theorem reads_packageLength_mod (length : Nat) (countSelf : Bool) :
    Reads readLength (packageLength length countSelf)
      (packageLengthValue length countSelf % 0x10000000) := by
  have hread := reads_packageLength length countSelf
  by_cases hsize : packageLengthSize length ≤ 3
  · have hlt := packageLengthValue_lt hsize countSelf
    have hle : lengthCapacity (packageLengthSize length) ≤ 0x10000000 := by
      rcases packageLengthSize_cases length with ⟨h, -⟩ | ⟨h, -⟩ | ⟨h, -⟩ | ⟨h, -⟩ <;> rw [h] <;>
        decide
    rwa [Nat.mod_eq_of_lt hlt, ← Nat.mod_eq_of_lt (Nat.lt_of_lt_of_le hlt hle)] at hread
  · have hfour : packageLengthSize length = 4 := by
      have := packageLengthSize_cases length
      omega
    rwa [hfour] at hread

/-- **The length of a package is read back** if 28 bits hold it. -/
theorem reads_readLength {length : Nat} (hlt : packageLengthValue length true < 0x10000000) :
    Reads readLength (packageLength length true) (packageLengthValue length true) := by
  have hread := reads_packageLength_mod length true
  rwa [Nat.mod_eq_of_lt hlt] at hread

/-- **The body of a package is read back**, and with it where the package ends. -/
theorem reads_readPackage {body : Bytes} (hlt : packageLengthValue body.length true < 0x10000000) :
    Reads readPackage (packageLength body.length true ++ body) body := by
  intro rest
  have hlen := length_packageLength body.length true
  have hread := reads_readLength hlt (body ++ rest)
  rw [← List.append_assoc] at hread
  simp only [readPackage, hread, Option.bind_eq_bind, Option.bind_some]
  refine reads_readBytes ?_ rest
  simp only [packageLengthValue, if_true, List.length_append]
  omega

end AcpiTables.Aml
