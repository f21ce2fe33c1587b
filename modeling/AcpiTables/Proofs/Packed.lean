import AcpiTables.Packed.Basic

/-!
# Packed values and their bytes

Values of one type are stored side by side, and the bytes do not say where one ends. They need not:
every value takes the same number of bytes, so cutting pieces of that size gives the values back
(`AcpiTables.Packed.manyOfBytes?_flatMap_encode`). And any bytes of that size are a value, so a
string that divides into such pieces holds values and no others
(`AcpiTables.Packed.manyOfBytes?_eq_some_iff`), and bytes may be changed in place, whichever member
they belong to (`AcpiTables.Packed.encode_patch`).
-/

namespace AcpiTables.Packed

variable {α : Type} [Packed α]

theorem ofBytes?_encode (a : α) : ofBytes? (encode a) = some a := by
  have h := ofBytes?_encode_append a []
  rwa [List.append_nil] at h

theorem length_flatMap_encode (values : List α) :
    (values.flatMap encode).length = values.length * size α := by
  induction values with
  | nil => rw [List.flatMap_nil, List.length_nil, List.length_nil, Nat.zero_mul]
  | cons a values ih =>
    rw [List.flatMap_cons, List.length_append, length_encode, ih, List.length_cons, Nat.succ_mul,
      Nat.add_comm]

/-- Pieces of the size of a value are the values. -/
theorem chunks_flatMap_encode (values : List α) :
    Bytes.chunks (size α) values.length (values.flatMap encode) = values.map encode := by
  induction values with
  | nil => rfl
  | cons a values ih =>
    rw [List.flatMap_cons, List.length_cons, Bytes.chunks_succ,
      List.take_left' (length_encode a), List.drop_left' (length_encode a), ih, List.map_cons]

theorem mapM_ofBytes?_map_encode (values : List α) :
    (values.map encode).mapM ofBytes? = some values := by
  induction values with
  | nil => rfl
  | cons a values ih =>
    rw [List.map_cons, List.mapM_cons, ofBytes?_encode, ih]
    rfl

/-- **Values that were written side by side are read back.** -/
theorem manyOfBytes?_flatMap_encode (hpos : 0 < size α) (values : List α) :
    manyOfBytes? (values.flatMap encode) = some values := by
  rw [manyOfBytes?, length_flatMap_encode, if_pos (Nat.mul_mod_left _ _),
    Nat.mul_div_cancel _ hpos, chunks_flatMap_encode, mapM_ofBytes?_map_encode]

/-- A value is its bytes. -/
theorem encode_injective : Function.Injective (encode : α → Bytes) := fun a b he => by
  have h := ofBytes?_encode a
  rw [he, ofBytes?_encode] at h
  exact (Option.some.inj h).symm

/-- Any bytes of the size of a value are one. -/
theorem exists_encode_eq {bs : Bytes} (hlen : bs.length = size α) : ∃ a : α, encode a = bs := by
  cases hread : ofBytes? (α := α) bs with
  | none => exact absurd (ofBytes?_eq_none_iff.mp hread) (by omega)
  | some a => exact ⟨a, by rw [encode_of_ofBytes? hread, ← hlen, List.take_length]⟩

/-- Any bytes of the size of some values are these, side by side. -/
theorem exists_flatMap_encode_eq {count : Nat} {bs : Bytes} (hlen : bs.length = count * size α) :
    ∃ values : List α, values.flatMap encode = bs := by
  induction count generalizing bs with
  | zero =>
    rw [Nat.zero_mul] at hlen
    exact ⟨[], (List.length_eq_zero_iff.mp hlen).symm⟩
  | succ count ih =>
    rw [Nat.succ_mul] at hlen
    have hfirst : (bs.take (size α)).length = size α := by
      rw [List.length_take]
      omega
    have hrest : (bs.drop (size α)).length = count * size α := by
      rw [List.length_drop]
      omega
    obtain ⟨a, ha⟩ := exists_encode_eq hfirst
    obtain ⟨values, hvalues⟩ := ih hrest
    exact ⟨a :: values, by rw [List.flatMap_cons, ha, hvalues, List.take_append_drop]⟩

/-- Only bytes that divide into values are read. -/
theorem manyOfBytes?_isSome_iff (hpos : 0 < size α) {bs : Bytes} :
    (manyOfBytes? (α := α) bs).isSome ↔ size α ∣ bs.length := by
  constructor
  · intro hsome
    rw [manyOfBytes?] at hsome
    split at hsome
    · next hrest => exact Nat.dvd_of_mod_eq_zero hrest
    · exact nomatch hsome
  · rintro ⟨count, hlen⟩
    rw [Nat.mul_comm] at hlen
    obtain ⟨values, rfl⟩ := exists_flatMap_encode_eq (α := α) hlen
    rw [manyOfBytes?_flatMap_encode hpos]
    rfl

/-- **What is read are the values of which these are the bytes**, and there is one choice of
them. -/
theorem manyOfBytes?_eq_some_iff (hpos : 0 < size α) {bs : Bytes} {values : List α} :
    manyOfBytes? bs = some values ↔ values.flatMap encode = bs := by
  constructor
  · intro hread
    obtain ⟨count, hlen⟩ :=
      (manyOfBytes?_isSome_iff (α := α) hpos).mp (Option.isSome_of_mem hread)
    rw [Nat.mul_comm] at hlen
    obtain ⟨values', rfl⟩ := exists_flatMap_encode_eq (α := α) hlen
    rw [manyOfBytes?_flatMap_encode hpos] at hread
    rw [Option.some.inj hread]
  · rintro rfl
    exact manyOfBytes?_flatMap_encode hpos values

theorem length_foldl_set (edits : List (Nat × UInt8)) (bs : Bytes) :
    (edits.foldl (fun bs edit => bs.set edit.1 edit.2) bs).length = bs.length := by
  induction edits generalizing bs with
  | nil => rfl
  | cons edit edits ih => rw [List.foldl_cons, ih, List.length_set]

/-- **Bytes are changed in place**, in whatever order and whichever member they belong to. -/
theorem encode_patch (edits : List (Nat × UInt8)) (a : α) :
    encode (patch edits a) = edits.foldl (fun bs edit => bs.set edit.1 edit.2) (encode a) := by
  have hlen := length_foldl_set edits (encode a)
  rw [length_encode] at hlen
  obtain ⟨b, hb⟩ := exists_encode_eq hlen
  rw [← hb]
  refine congrArg encode ?_
  have hread := ofBytes?_encode b
  rw [hb] at hread
  rw [patch, hread, Option.getD_some]

end AcpiTables.Packed
