import AcpiTables.Proofs.Aml.Object
import Mathlib.Algebra.Group.Nat.Defs
import Mathlib.Tactic.SplitIfs

/-!
# Data objects end where they say

A data object needs no mark behind it. `AcpiTables.Aml.readDataObject` takes one off an input, and
what it takes is exactly what was written, whatever follows. So a data object is told by its bytes,
and none of them begins another (`AcpiTables.Aml.readsDataObjects`).

The three forms do this in three ways. An integer says by its first byte how long it is, and is no
longer than it has to be. A string goes on to its first zero byte, and a character other than the
zero has none in its bytes. A buffer says twice how long it is: the length field counts itself, the
size and the payload, and the size counts the payload alone. The one thing to know is that the two
never disagree, at whatever length the field or the size takes one more byte
(`AcpiTables.Aml.exists_bufferBody`).
-/

namespace AcpiTables.Aml

/-! ### Integers -/

/-- The six forms of an integer. -/
inductive IntegerForm where
  /-- The integer 0. -/
  | zero
  /-- The integer 1. -/
  | one
  /-- An integer of a given width. -/
  | fixed (w : Width) (v : w.Value)

namespace IntegerForm

/-- The number that is written. -/
def value : IntegerForm → Nat
  | zero => 0
  | one => 1
  | fixed w v => w.toNat v

/-- The bytes. -/
def encode : IntegerForm → Bytes
  | zero => Aml.zero
  | one => Aml.one
  | fixed w v => integerOf w v

end IntegerForm

/-- An integer is written in one of the forms. -/
theorem exists_integerForm (v : UInt64) :
    ∃ form : IntegerForm, form.value = v.toNat ∧ form.encode = integer v := by
  rcases integer_cases v with ⟨hv, hi⟩ | ⟨hv, hi⟩ | ⟨w, x, hv, hi⟩
  · exact ⟨.zero, hv.symm, hi.symm⟩
  · exact ⟨.one, hv.symm, hi.symm⟩
  · exact ⟨.fixed w x, hv, hi.symm⟩

@[simp] theorem length_integerOf (w : Width) (v : w.Value) :
    (integerOf w v).length = w.size + 1 := by
  rw [integerOf, List.length_cons, Bytes.length_ofNatLE]

/-- An integer that fits a width takes no more bytes. -/
theorem length_integer_le {v : UInt64} {w : Width} (hw : v.toNat < Bytes.capacity w.size) :
    (integer v).length ≤ w.size + 1 := by
  have hpos : 1 ≤ w.size := by cases w <;> decide
  unfold integer
  dsimp only
  split_ifs with h0 h1 hbyte hword hdword
  · rw [zero, List.length_singleton]
    omega
  · rw [one, List.length_singleton]
    omega
  · rw [length_integerOf]
    exact Nat.succ_le_succ hpos
  -- A number that is too large for one form is too large for all that are shorter.
  all_goals
    rw [length_integerOf]
    cases w <;> simp only [Width.size, Bytes.capacity] at hw ⊢ <;> omega

/-- **No form of the same number is shorter** than the one that is written. -/
theorem length_integer_le_length {v : UInt64} {form : IntegerForm} (hv : form.value = v.toNat) :
    (integer v).length ≤ form.encode.length := by
  cases form with
  | zero =>
    have hzero : integer v = zero := by rw [integer, ← hv]; rfl
    exact Nat.le_of_eq (congrArg List.length hzero)
  | one =>
    have hone : integer v = one := by rw [integer, ← hv]; rfl
    exact Nat.le_of_eq (congrArg List.length hone)
  | fixed w x =>
    rw [IntegerForm.encode, length_integerOf]
    refine length_integer_le ?_
    rw [← hv]
    exact w.toNat_lt x

/-! ### Data objects -/

/-- The length field of a buffer, its size and its payload together are counted by 28 bits. -/
def IsSmallPayload (payload : Bytes) : Prop :=
  packageLengthValue ((integer (UInt64.ofNat payload.length)).length + payload.length) true < 2 ^ 28

/-- A data object, its text as it is written down or as it is encoded. -/
inductive DataObject (Text : Type) where
  /-- An integer. -/
  | integer (v : UInt64)
  /-- A string. -/
  | string (text : Text)
  /-- A buffer. -/
  | buffer (payload : Bytes)
deriving DecidableEq, Repr

namespace DataObject

/-- The bytes of a data object. -/
def encode : DataObject String → Bytes
  | integer v => Aml.integer v
  | string text => Aml.string text
  | buffer payload => Aml.buffer payload

/-- What can be told of a data object by its bytes. -/
def told : DataObject String → DataObject Bytes
  | integer v => integer v
  | string text => string (Bytes.ofString text)
  | buffer payload => buffer payload

/-- Whether a data object can be told: a string has no zero character, and the package of a buffer
is small. -/
def Lawful : DataObject String → Prop
  | integer _ => True
  | string text => Char.ofNat 0 ∉ text.toList
  | buffer payload => IsSmallPayload payload

/-- A text is told by its bytes. -/
theorem told_injective : Function.Injective told := by
  intro a b hab
  cases a <;> cases b <;> simp only [told, integer.injEq, string.injEq, buffer.injEq,
    reduceCtorEq] at hab ⊢
  · exact hab
  · exact Bytes.ofString_injective hab
  · exact hab

end DataObject

/-! ### Strings -/

/-- Takes a string, of which the first byte is gone: everything up to the first zero. -/
def readText : Reader Bytes := fun input =>
  match input.dropWhile (· != 0) with
  | [] => none
  | _ :: rest => some (input.takeWhile (· != 0), rest)

/-- **A string is read back** if it has no zero character. -/
theorem reads_readText {text : String} (htext : Char.ofNat 0 ∉ text.toList) :
    Reads readText (Bytes.ofString text ++ [0x00]) (Bytes.ofString text) := by
  intro rest
  have hall : ∀ b ∈ Bytes.ofString text, (b != 0) = true := fun b hb => by
    rw [bne_iff_ne]
    rintro rfl
    exact zero_not_mem_ofString htext hb
  rw [List.append_assoc, readText, List.takeWhile_append_of_pos hall,
    List.dropWhile_append_of_pos hall]
  simp

/-! ### Buffers -/

/-- Takes a buffer, of which the first byte is gone: its payload. It must have as many bytes as
the buffer says. -/
def readPayload : Reader Bytes := fun input => do
  let (body, rest) ← readPackage input
  let (size, payload) ← readInteger body
  if size = payload.length then some (payload, rest) else none

/-- **Both lengths of a buffer are exact**: the field ends the body where the payload ends, and the
size in front of the payload is its length. -/
theorem exists_bufferBody {payload : Bytes} (hp : IsSmallPayload payload) :
    ∃ body, buffer payload = 0x11 :: (packageLength body.length true ++ body) ∧
      Reads readPackage (packageLength body.length true ++ body) body ∧
      readInteger body = some (payload.length, payload) := by
  have hsmall : packageLengthValue
      (integer (UInt64.ofNat payload.length) ++ payload).length true < 0x10000000 := by
    rw [List.length_append]
    exact hp
  refine ⟨_, buffer_eq payload, reads_readPackage hsmall, ?_⟩
  have hread := reads_readInteger (UInt64.ofNat payload.length) payload
  rwa [toNat_ofNat_length hsmall] at hread

/-- **A buffer is read back** if its length field has room for it. -/
theorem reads_readPayload {payload bytes : Bytes} (hp : IsSmallPayload payload)
    (hb : buffer payload = 0x11 :: bytes) : Reads readPayload bytes payload := by
  intro rest
  obtain ⟨body, hbuffer, hpackage, hsize⟩ := exists_bufferBody hp
  obtain rfl := (List.cons.inj (hb.symm.trans hbuffer)).2
  simp only [readPayload, hpackage rest, hsize, if_true, Option.bind_eq_bind, Option.bind_some]

/-! ### Reading data objects -/

/-- Takes a data object. -/
def readDataObject : Reader (DataObject Bytes)
  | [] => none
  | mark :: rest =>
    if mark = 0x11 then do
      let (payload, rest) ← readPayload rest
      return (.buffer payload, rest)
    else if mark = 0x0D then do
      let (text, rest) ← readText rest
      return (.string text, rest)
    else do
      let (value, rest) ← readInteger (mark :: rest)
      return (.integer (UInt64.ofNat value), rest)

/-- An integer starts neither like a buffer nor like a string. -/
theorem exists_integer_eq_cons (v : UInt64) :
    ∃ mark rest, integer v = mark :: rest ∧ mark ≠ 0x11 ∧ mark ≠ 0x0D := by
  rcases integer_cases v with ⟨-, hi⟩ | ⟨-, hi⟩ | ⟨w, x, -, hi⟩
  · exact ⟨_, _, hi, by decide⟩
  · exact ⟨_, _, hi, by decide⟩
  · exact ⟨_, _, hi, by cases w <;> decide⟩

/-- **A data object is read back**, whatever follows. -/
theorem reads_readDataObject {o : DataObject String} (ho : o.Lawful) :
    Reads readDataObject o.encode o.told := by
  intro rest
  cases o with
  | integer v =>
    obtain ⟨mark, more, hi, hbuffer, hstring⟩ := exists_integer_eq_cons v
    have hread := reads_readInteger v rest
    rw [hi, List.cons_append] at hread
    rw [DataObject.encode, hi, List.cons_append]
    simp only [readDataObject, if_neg hbuffer, if_neg hstring, hread, Option.bind_eq_bind,
      Option.bind_some, Option.pure_def, UInt64.ofNat_toNat, DataObject.told]
  | string text =>
    rw [DataObject.encode, Aml.string, List.cons_append]
    simp only [readDataObject, show ¬(0x0D : UInt8) = 0x11 by decide, if_false, if_true,
      reads_readText ho rest, Option.bind_eq_bind, Option.bind_some, Option.pure_def,
      DataObject.told]
  | buffer payload =>
    obtain ⟨body, hb, -⟩ := exists_bufferBody ho
    have hread := reads_readPayload ho hb rest
    rw [DataObject.encode, hb, List.cons_append]
    simp only [readDataObject, if_true, hread, Option.bind_eq_bind, Option.bind_some,
      Option.pure_def, DataObject.told]

/-- **What is true of the bytes of data objects.** -/
structure ReadsDataObjects (read : Reader (DataObject Bytes)) : Prop where
  /-- An integer is read back, whatever follows. -/
  integer : ∀ v, Reads read (integer v) (.integer v)
  /-- An integer is written in one of its six forms, and no form of the number is shorter. -/
  shortest : ∀ v, (∃ form : IntegerForm, form.value = v.toNat ∧ form.encode = Aml.integer v) ∧
    ∀ form : IntegerForm, form.value = v.toNat → (Aml.integer v).length ≤ form.encode.length
  /-- The bytes of a string without the zero character are read back, whatever follows. -/
  string : ∀ text : String, Char.ofNat 0 ∉ text.toList →
    Reads read (string text) (.string (Bytes.ofString text))
  /-- The payload of a buffer with a small package is read back, whatever follows. -/
  buffer : ∀ payload, IsSmallPayload payload → Reads read (buffer payload) (.buffer payload)
  /-- The length field of such a buffer ends where the payload ends, and the size in front of the
  payload is its length. -/
  size : ∀ payload, IsSmallPayload payload →
    ∃ body, Aml.buffer payload = 0x11 :: (packageLength body.length true ++ body) ∧
      Reads readPackage (packageLength body.length true ++ body) body ∧
      readInteger body = some (payload.length, payload)
  /-- Where the bytes of one data object begin, no other's do. -/
  distinct : ∀ o o' : DataObject String, o.Lawful → o'.Lawful → ∀ rest rest',
    o.encode ++ rest = o'.encode ++ rest' → o = o' ∧ rest = rest'

/-- **Data objects end where they say**, and integers are no longer than they have to be. -/
theorem readsDataObjects : ReadsDataObjects readDataObject where
  integer v := reads_readDataObject (o := .integer v) trivial
  shortest v := ⟨exists_integerForm v, fun _ => length_integer_le_length⟩
  string text htext := reads_readDataObject (o := .string text) htext
  buffer payload hp := reads_readDataObject (o := .buffer payload) hp
  size _ hp := exists_bufferBody hp
  distinct o o' ho ho' rest rest' heq := by
    have hread := reads_readDataObject ho rest
    rw [heq, reads_readDataObject ho' rest'] at hread
    obtain ⟨htold, hrest⟩ := Prod.mk.inj (Option.some.inj hread)
    exact ⟨DataObject.told_injective htold.symm, hrest.symm⟩

example : readDataObject [0x11, 0x05, 0x0A, 0x02, 0x79, 0x00, 0x08] =
    some (.buffer [0x79, 0x00], [0x08]) := by decide

end AcpiTables.Aml
