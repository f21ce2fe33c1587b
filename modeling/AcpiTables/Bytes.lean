/-!
# Byte strings

Everything this library writes is a string of bytes: AML, resource descriptors
and the packed ACPI tables. A byte string is a plain list, so that an encoder is
built from `::` and `++` and a decoder by recursion on its input.

Words are written least significant byte first. `AcpiTables.Bytes.ofNatLE` and
`AcpiTables.Bytes.toNatLE` are the two directions, and the only places where a
number becomes bytes or bytes become a number.

| fact | theorem |
|---|---|
| a word of `w` bytes has `w` bytes | `AcpiTables.Bytes.length_ofNatLE` |
| writing keeps what fits | `AcpiTables.Bytes.toNatLE_ofNatLE` |
| reading loses nothing | `AcpiTables.Bytes.ofNatLE_toNatLE` |
-/

namespace AcpiTables

/-- A string of bytes, the first byte first. -/
abbrev Bytes := List UInt8

namespace Bytes

/-! ### Words, least significant byte first -/

/-- How many numbers `w` bytes can hold. -/
def capacity : Nat → Nat
  | 0 => 1
  | w + 1 => 256 * capacity w

/-- The `w` lowest bytes of `n`, least significant first. -/
def ofNatLE : Nat → Nat → Bytes
  | 0, _ => []
  | w + 1, n => UInt8.ofNat n :: ofNatLE w (n / 256)

/-- The number whose bytes, least significant first, are the given ones. -/
def toNatLE : Bytes → Nat
  | [] => 0
  | b :: bs => b.toNat + 256 * toNatLE bs

/-- The `w` lowest bytes of `n`, most significant first. -/
def ofNatBE (w n : Nat) : Bytes := (ofNatLE w n).reverse

@[simp] theorem length_ofNatLE (w n : Nat) : (ofNatLE w n).length = w := by
  induction w generalizing n with
  | zero => rfl
  | succ w ih => rw [ofNatLE, List.length_cons, ih]

theorem toNatLE_lt (bs : Bytes) : toNatLE bs < capacity bs.length := by
  induction bs with
  | nil => decide
  | cons b bs ih =>
    have hb : b.toNat < 256 := b.toNat_lt
    rw [toNatLE, List.length_cons, capacity]
    omega

/-- What was written is read back, up to the bytes that did not fit. -/
theorem toNatLE_ofNatLE (w n : Nat) : toNatLE (ofNatLE w n) = n % capacity w := by
  induction w generalizing n with
  | zero => rw [ofNatLE, toNatLE, capacity, Nat.mod_one]
  | succ w ih =>
    have hb : (UInt8.ofNat n).toNat = n % 256 := UInt8.toNat_ofNat'
    rw [ofNatLE, toNatLE, ih, hb, capacity, Nat.mod_mul]

/-- Bytes that were read are written again. -/
theorem ofNatLE_toNatLE (bs : Bytes) : ofNatLE bs.length (toNatLE bs) = bs := by
  induction bs with
  | nil => rfl
  | cons b bs ih =>
    have hb : b.toNat < 256 := b.toNat_lt
    have hd : (b.toNat + 256 * toNatLE bs) / 256 = toNatLE bs := by omega
    rw [List.length_cons, ofNatLE, toNatLE, hd, ih]
    congr 1
    exact UInt8.toNat_inj.mp (by rw [UInt8.toNat_ofNat']; omega)

/-! ### Text and pieces -/

/-- The UTF-8 bytes of a text. -/
def ofString (s : String) : Bytes := s.toByteArray.data.toList

/-- The bytes of a text are those of its characters. -/
theorem mem_ofString_iff {s : String} {b : UInt8} :
    b ∈ ofString s ↔ ∃ c ∈ s.toList, b ∈ String.utf8EncodeChar c := by
  rw [ofString, ← String.utf8Encode_toList]
  simp only [List.utf8Encode, List.data_toByteArray, List.mem_flatMap]

/-- A text is told by its bytes. -/
theorem ofString_injective {s s' : String} (h : ofString s = ofString s') : s = s' :=
  String.toByteArray_inj.mp (ByteArray.ext (Array.toList_inj.mp h))

/-- `chunks size n bs` cuts `n` pieces of `size` bytes off the front of `bs`, in
order. -/
def chunks (size n : Nat) (bs : Bytes) : List Bytes := go n bs []
where
  /-- Adds `n` more pieces to those already cut, which are held last first. -/
  go : Nat → Bytes → List Bytes → List Bytes
    | 0, _, cut => cut.reverse
    | n + 1, bs, cut => go n (bs.drop size) (bs.take size :: cut)

private theorem go_eq (size n : Nat) (bs : Bytes) (cut : List Bytes) :
    chunks.go size n bs cut = cut.reverse ++ chunks.go size n bs [] := by
  induction n generalizing bs cut with
  | zero => simp [chunks.go]
  | succ n ih => rw [chunks.go, ih, chunks.go, ih _ [_]]; simp

@[simp] theorem chunks_zero (size : Nat) (bs : Bytes) : chunks size 0 bs = [] := rfl

theorem chunks_succ (size n : Nat) (bs : Bytes) :
    chunks size (n + 1) bs = bs.take size :: chunks size n (bs.drop size) := by
  rw [chunks, chunks.go, go_eq]
  rfl

end Bytes

end AcpiTables
