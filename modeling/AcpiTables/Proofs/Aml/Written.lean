import AcpiTables.Proofs.Aml.Object

/-!
# Objects with written names

An object whose names are written down has its bytes only if every name can be encoded.
Builders put them together from the inside out, each part as bytes
(`AcpiTables.Aml.Object.write`).

`AcpiTables.Aml.Object.Proper` is what an object has to be apart from its names so that a
tree can hold it: no value is empty, and the End Tag closes its buffer.
-/

namespace AcpiTables.Aml

mutual

/-- The bytes of an object whose names are written down, put together by builders. -/
def Object.write : Object String → Except Error Bytes
  | .name label value => declareName label value.encode
  | .buffer descriptors => return Aml.buffer descriptors.flatten
  | .region kind label members => do
    let label ← regionLabel kind label
    let members ← writeAll members
    return regionOf kind label members.flatten

/-- The bytes of each of several objects. -/
def Object.writeAll : List (Object String) → Except Error (List Bytes)
  | [] => return []
  | o :: os => do
    let bytes ← o.write
    let more ← writeAll os
    return bytes :: more

end

/-- Each is a descriptor, and none that has another one behind it is an End Tag. -/
def EndWithTag (descriptors : List Bytes) : Prop :=
  AreDescriptors descriptors ∧ descriptors.Pairwise fun d _ => Resource.startsWithEndTag d = false

theorem EndWithTag.tail {d : Bytes} {ds : List Bytes} (hds : EndWithTag (d :: ds)) :
    EndWithTag ds :=
  ⟨fun x hx => hds.1 x (List.mem_cons_of_mem d hx), hds.2.of_cons⟩

/-- A value is not empty, or it is a buffer that an End Tag may close. -/
def Value.Proper : Value → Prop
  | encoded bytes => bytes ≠ []
  | buffer descriptors => EndWithTag descriptors

/-- **An object that a tree can hold**, if its names can be encoded. -/
inductive Object.Proper {L : Type} : Object L → Prop
  /-- A `Name` with a value that can be one. -/
  | name {label : L} {value : Value} : value.Proper → Proper (.name label value)
  /-- A buffer that an End Tag may close. -/
  | buffer {descriptors : List Bytes} : EndWithTag descriptors → Proper (.buffer descriptors)
  /-- A region of such objects. -/
  | region {kind : Region} {label : L} {members : List (Object L)} :
    (∀ m ∈ members, Proper m) → Proper (.region kind label members)

end AcpiTables.Aml
