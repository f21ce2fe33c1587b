import AcpiTables.Bytes
import AcpiTables.Width

/-!
# Members of packed structures

A packed structure is made of words and of blocks of bytes that are kept as they
are, such as a signature. `AcpiTables.Scalar` is the type of one such member. Each
scalar has a fixed size, and reading one takes exactly that many bytes off the front
of a byte string.

| fact | theorem |
|---|---|
| a scalar takes its size | `AcpiTables.Scalar.length_encode` |
| what was written is read back | `AcpiTables.Scalar.read_encode_append` |
| what was read is what was written | `AcpiTables.Scalar.eq_encode_append_of_read` |
| only a short string is not read | `AcpiTables.Scalar.read_eq_none_iff` |
-/

namespace AcpiTables

/-! ### Blocks -/

/-- A string of exactly `n` bytes. -/
structure Block (n : Nat) where
  /-- The bytes. -/
  bytes : Bytes
  /-- There are `n` of them. -/
  length_bytes : bytes.length = n
deriving DecidableEq, Repr

namespace Block

/-- The block of zeros. -/
def zero (n : Nat) : Block n := ⟨List.replicate n 0, List.length_replicate⟩

/-- The block of all bytes of a string, if it has the right length. -/
def ofBytes? (n : Nat) (bs : Bytes) : Option (Block n) :=
  if h : bs.length = n then some ⟨bs, h⟩ else none

/-- Takes a block off the front of a byte string. -/
def read (n : Nat) (bs : Bytes) : Option (Block n × Bytes) :=
  if h : n ≤ bs.length then
    some (⟨bs.take n, List.length_take_of_le h⟩, bs.drop n)
  else
    none

@[ext] theorem ext {n : Nat} {a b : Block n} (h : a.bytes = b.bytes) : a = b := by
  cases a
  cases b
  cases h
  rfl

theorem read_append {n : Nat} (b : Block n) (rest : Bytes) :
    read n (b.bytes ++ rest) = some (b, rest) := by
  have hn : n ≤ (b.bytes ++ rest).length := by rw [List.length_append, b.length_bytes]; omega
  rw [read, dif_pos hn]
  congr 2
  · exact ext (List.take_left' b.length_bytes)
  · exact List.drop_left' b.length_bytes

theorem eq_append_of_read {n : Nat} {bs rest : Bytes} {b : Block n}
    (h : read n bs = some (b, rest)) : bs = b.bytes ++ rest := by
  unfold read at h
  split at h
  · cases h
    exact (List.take_append_drop n bs).symm
  · cases h

theorem read_eq_none_iff {n : Nat} {bs : Bytes} : read n bs = none ↔ bs.length < n := by
  unfold read
  split
  · simp only [reduceCtorEq, false_iff]
    omega
  · simp only [true_iff]
    omega

end Block

/-! ### Scalars -/

/-- The type of a member without parts. -/
inductive Scalar where
  /-- A word. -/
  | word (w : Width)
  /-- Bytes that are kept as they are. -/
  | block (n : Nat)
deriving DecidableEq, Repr

namespace Scalar

/-- How many bytes a scalar takes. -/
def size : Scalar → Nat
  | word w => w.size
  | block n => n

/-- The values of a scalar. -/
@[reducible] def Value : Scalar → Type
  | word w => w.Value
  | block n => Block n

/-- The scalar of which every byte is zero. -/
def zero : (s : Scalar) → s.Value
  | word w => w.truncate 0
  | block n => Block.zero n

/-- The bytes of a scalar. -/
def encode : (s : Scalar) → s.Value → Bytes
  | word w, v => Bytes.ofNatLE w.size (w.toNat v)
  | block _, b => Block.bytes b

/-- Takes a scalar off the front of a byte string. -/
def read : (s : Scalar) → Bytes → Option (s.Value × Bytes)
  | word w, bs =>
    (Block.read w.size bs).map fun (b, rest) => (w.truncate (Bytes.toNatLE b.bytes), rest)
  | block n, bs => Block.read n bs

@[simp] theorem length_encode (s : Scalar) (v : s.Value) : (s.encode v).length = s.size := by
  cases s with
  | word w => exact Bytes.length_ofNatLE _ _
  | block n => exact Block.length_bytes v

theorem read_encode_append (s : Scalar) (v : s.Value) (rest : Bytes) :
    s.read (s.encode v ++ rest) = some (v, rest) := by
  cases s with
  | word w =>
    have hb := Block.read_append (n := w.size)
      ⟨Bytes.ofNatLE w.size (w.toNat v), Bytes.length_ofNatLE _ _⟩ rest
    have hv : w.truncate (Bytes.toNatLE (Bytes.ofNatLE w.size (w.toNat v))) = v := by
      rw [Bytes.toNatLE_ofNatLE, Nat.mod_eq_of_lt (w.toNat_lt v), Width.truncate_toNat]
    simp only [read, encode, hb, Option.map_some, hv]
  | block n => exact Block.read_append v rest

theorem eq_encode_append_of_read {s : Scalar} {bs rest : Bytes} {v : s.Value}
    (h : s.read bs = some (v, rest)) : bs = s.encode v ++ rest := by
  cases s with
  | word w =>
    obtain ⟨⟨b, r⟩, hb, he⟩ := Option.map_eq_some_iff.mp h
    cases he
    have hlt : Bytes.toNatLE b.bytes < Bytes.capacity w.size := by
      have := Bytes.toNatLE_lt b.bytes
      rwa [b.length_bytes] at this
    have hw : Bytes.ofNatLE w.size (Bytes.toNatLE b.bytes) = b.bytes := by
      have := Bytes.ofNatLE_toNatLE b.bytes
      rwa [b.length_bytes] at this
    simp only [encode, Width.toNat_truncate, Nat.mod_eq_of_lt hlt, hw]
    exact Block.eq_append_of_read hb
  | block n => exact Block.eq_append_of_read h

theorem read_eq_none_iff {s : Scalar} {bs : Bytes} : s.read bs = none ↔ bs.length < s.size := by
  cases s with
  | word w => exact Option.map_eq_none_iff.trans Block.read_eq_none_iff
  | block n => exact Block.read_eq_none_iff

end Scalar

end AcpiTables
