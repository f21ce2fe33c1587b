import AcpiTables.Aml.Declaration
import AcpiTables.Proofs.Aml.Name
import AcpiTables.Proofs.Aml.Package
import AcpiTables.Proofs.Aml.Value
import AcpiTables.Proofs.Resource.Descriptor

/-!
# Objects, written and read back

`AcpiTables.Aml.Object` is the part of AML that this library writes: names with a value,
buffers of resource descriptors, and regions of further objects. What labels are is left
open, so that an object can have the names as they are written down or as they are encoded.

An object with encoded labels has its bytes, `AcpiTables.Aml.Object.encode`, and the bytes
determine it: `AcpiTables.Aml.Object.read` is a reader for this part of AML, and it reads an
object back from its bytes, whatever follows (`AcpiTables.Aml.Object.reads_read`). Two things
are needed for that. The parts have to be such as the library writes
(`AcpiTables.Aml.Object.Lawful`), and the length of every package has to fit its field
(`AcpiTables.Aml.Object.IsSmall`).
-/

namespace AcpiTables.Aml

/-! ### Objects -/

/-- The value of a `Name`. -/
inductive Value where
  /-- A value that is encoded already. -/
  | encoded (bytes : Bytes)
  /-- A buffer of resource descriptors. -/
  | buffer (descriptors : List Bytes)
deriving DecidableEq, Repr

/-- An object that the library writes. -/
inductive Object (L : Type) where
  /-- A `Name` with its value. -/
  | name (label : L) (value : Value)
  /-- A buffer of resource descriptors. -/
  | buffer (descriptors : List Bytes)
  /-- A `Scope` or `Device` with its members. -/
  | region (kind : Region) (label : L) (members : List (Object L))
deriving Repr

/-- The bytes of a value. -/
def Value.encode : Value → Bytes
  | encoded bytes => bytes
  | buffer descriptors => Aml.buffer descriptors.flatten

namespace Object

mutual

/-- The bytes of an object. -/
def encode : Object Bytes → Bytes
  | name label value => declaration label value.encode
  | buffer descriptors => Aml.buffer descriptors.flatten
  | region kind label members => regionOf kind label (encodeAll members)

/-- The bytes of several objects. -/
def encodeAll : List (Object Bytes) → Bytes
  | [] => []
  | o :: os => encode o ++ encodeAll os

end

theorem encodeAll_eq (os : List (Object Bytes)) : encodeAll os = os.flatMap encode := by
  induction os with
  | nil => rfl
  | cons o os ih => rw [encodeAll, ih, List.flatMap_cons]

end Object

/-! ### Packages that fit -/

/-- The length of the package of a buffer fits its field. -/
def IsSmallBuffer (descriptors : List Bytes) : Prop :=
  packageLengthValue ((integer (UInt64.ofNat descriptors.flatten.length)).length +
    descriptors.flatten.length) true < 0x10000000

/-- The length of the package of a value fits its field, if it is one. -/
def Value.IsSmall : Value → Prop
  | encoded _ => True
  | buffer descriptors => IsSmallBuffer descriptors

/-- **The length of every package of an object fits its field**, which has 28 bits. -/
inductive Object.IsSmall : Object Bytes → Prop
  /-- The value of a `Name` may be a package. -/
  | name {label : Bytes} {value : Value} : value.IsSmall → IsSmall (.name label value)
  /-- A buffer is a package. -/
  | buffer {descriptors : List Bytes} : IsSmallBuffer descriptors → IsSmall (.buffer descriptors)
  /-- A region is a package, and its members may hold others. -/
  | region {kind : Region} {label : Bytes} {members : List (Object Bytes)} :
    packageLengthValue (label ++ Object.encodeAll members).length true < 0x10000000 →
      (∀ m ∈ members, IsSmall m) → IsSmall (.region kind label members)

/-! ### Lawful parts -/

/-- The bytes of a written name. -/
def IsName (bytes : Bytes) : Prop := ∃ path : NamePath, path.Lawful ∧ path.encode = bytes

/-- Each is a descriptor. -/
def AreDescriptors (descriptors : List Bytes) : Prop :=
  ∀ d ∈ descriptors, ∃ header, Resource.checkDescriptor d = .ok header

/-- A value is such as the library writes. -/
def Value.Lawful : Value → Prop
  | encoded bytes => IsEncoded bytes
  | buffer descriptors => AreDescriptors descriptors

/-- **The parts of an object are such as the library writes.** -/
inductive Object.Lawful : Object Bytes → Prop
  /-- A `Name` with a name and a value. -/
  | name {label : Bytes} {value : Value} : IsName label → value.Lawful → Lawful (.name label value)
  /-- A buffer of descriptors. -/
  | buffer {descriptors : List Bytes} : AreDescriptors descriptors → Lawful (.buffer descriptors)
  /-- A region with a name and lawful members. -/
  | region {kind : Region} {label : Bytes} {members : List (Object Bytes)} : IsName label →
    (∀ m ∈ members, Lawful m) → Lawful (.region kind label members)

/-! ### Reading buffers and values -/

/-- Takes a buffer, of which the first byte is gone: its descriptors. They must take as many
bytes as the buffer says. -/
def readBuffer : Reader (List Bytes) := fun input => do
  let (body, rest) ← readPackage input
  let (size, payload) ← readInteger body
  if size = payload.length then
    let descriptors ← readAll Resource.readDescriptor payload.length payload
    return (descriptors, rest)
  else none

/-- Takes a value. -/
def readValue : Reader Value
  | [] => none
  | mark :: rest =>
    if mark = 0x11 then do
      let (descriptors, rest) ← readBuffer rest
      return (.buffer descriptors, rest)
    else do
      let (bytes, rest) ← readEncoded (mark :: rest)
      return (.encoded bytes, rest)

/-- The bytes of a buffer behind the first. -/
theorem buffer_eq (payload : Bytes) : buffer payload =
    0x11 :: (packageLength (integer (UInt64.ofNat payload.length) ++ payload).length true ++
      (integer (UInt64.ofNat payload.length) ++ payload)) := by
  rw [buffer, List.length_append, List.append_assoc]

/-- A payload that fits the length field also fits the 64 bits of its size. -/
theorem toNat_ofNat_length {payload : Bytes} (hsmall : packageLengthValue
    (integer (UInt64.ofNat payload.length) ++ payload).length true < 0x10000000) :
    (UInt64.ofNat payload.length).toNat = payload.length := by
  rw [UInt64.toNat_ofNat']
  refine Nat.mod_eq_of_lt ?_
  rw [packageLengthValue, if_pos rfl, List.length_append] at hsmall
  omega

/-- **A buffer is read back**, with all its descriptors. -/
theorem reads_readBuffer {descriptors : List Bytes} (hd : AreDescriptors descriptors)
    (hs : IsSmallBuffer descriptors) {bytes : Bytes}
    (hb : buffer descriptors.flatten = 0x11 :: bytes) : Reads readBuffer bytes descriptors := by
  intro rest
  rw [buffer_eq] at hb
  obtain rfl := (List.cons.inj hb).2.symm
  have hsmall := hs
  rw [IsSmallBuffer, ← List.length_append] at hsmall
  have hpackage := reads_readPackage hsmall rest
  have hsize := reads_readInteger (UInt64.ofNat descriptors.flatten.length) descriptors.flatten
  have hnat := toNat_ofNat_length hsmall
  have hall : readAll Resource.readDescriptor descriptors.flatten.length descriptors.flatten =
      some descriptors := by
    have hmap : descriptors.flatten = descriptors.flatMap fun d => d := by
      rw [List.flatMap_def, List.map_id']
    rw [hmap]
    refine readAll_flatMap (fun d hmem => ?_) (Nat.le_refl _)
    obtain ⟨header, hheader⟩ := hd d hmem
    exact ⟨Resource.ne_nil_of_checkDescriptor hheader, Resource.reads_readDescriptor hheader⟩
  simp only [readBuffer, hpackage, hsize, hnat, hall, if_true, Option.bind_eq_bind,
    Option.bind_some, Option.pure_def]

/-- **A value is read back.** -/
theorem reads_readValue {value : Value} (hl : value.Lawful) (hs : value.IsSmall) :
    Reads readValue value.encode value := by
  intro rest
  cases value with
  | encoded bytes =>
    have hread := reads_readEncoded hl rest
    obtain ⟨mark, more, rfl, hmark⟩ := hl.exists_cons
    rw [List.cons_append] at hread
    simp only [Value.encode, readValue, List.cons_append, if_neg hmark, hread,
      Option.bind_eq_bind, Option.bind_some, Option.pure_def]
  | buffer descriptors =>
    have hread := reads_readBuffer hl hs (buffer_eq _) rest
    rw [Value.encode, buffer_eq, List.cons_append]
    simp only [readValue, if_true, hread, Option.bind_eq_bind, Option.bind_some, Option.pure_def]

/-! ### Reading objects -/

/-- Takes the opcode of a region. -/
def readRegionMark : Reader Region
  | [] => none
  | mark :: rest =>
    if mark = 0x10 then some (.scope, rest)
    else if mark = 0x5B ∧ rest.head? = some 0x82 then some (.device, rest.tail)
    else none

theorem reads_readRegionMark (kind : Region) : Reads readRegionMark (regionMark kind) kind := by
  intro rest
  cases kind <;> rfl

namespace Object

/-- Takes an object that is at most `bound` levels deep. -/
def readWithin : Nat → Reader (Object Bytes)
  | 0, _ => none
  | _ + 1, [] => none
  | bound + 1, mark :: rest =>
    if mark = 0x08 then do
      let (label, rest) ← readName rest
      let (value, rest) ← readValue rest
      return (.name label value, rest)
    else if mark = 0x11 then do
      let (descriptors, rest) ← readBuffer rest
      return (.buffer descriptors, rest)
    else do
      let (kind, rest) ← readRegionMark (mark :: rest)
      let (body, rest) ← readPackage rest
      let (label, body) ← readName body
      let members ← readAll (readWithin bound) body.length body
      return (.region kind label members, rest)

/-- Takes an object. No object is deeper than its input is long. -/
def read : Reader (Object Bytes) := fun input => readWithin input.length input

/-- An object has a byte at least. -/
theorem encode_ne_nil (o : Object Bytes) : o.encode ≠ [] := by
  cases o with
  | name label value => simp [encode, declaration]
  | buffer descriptors => simp [encode, Aml.buffer]
  | region kind label members => cases kind <;> simp [encode, regionOf, regionMark]

/-- A member is shorter than its region. -/
theorem length_lt_of_mem (kind : Region) (label : Bytes) {members : List (Object Bytes)}
    {m : Object Bytes} (hm : m ∈ members) :
    m.encode.length < (region kind label members).encode.length := by
  have hle : m.encode.length ≤ (encodeAll members).length := by
    rw [encodeAll_eq]
    exact (List.sublist_flatten_of_mem (List.mem_map_of_mem hm)).length_le
  have hmark : 1 ≤ (regionMark kind).length := by cases kind <;> decide
  simp only [encode, regionOf, List.length_append]
  omega

/-- **An object is read back**, by induction on its parts. -/
theorem reads_readWithin {o : Object Bytes} (hl : o.Lawful) (hs : o.IsSmall) {bound : Nat}
    (hb : o.encode.length ≤ bound + 1) : Reads (readWithin (bound + 1)) o.encode o := by
  induction hl generalizing bound with
  | @name label value hname hvalue =>
    cases hs with
    | name hs =>
      obtain ⟨path, hpath, rfl⟩ := hname
      intro rest
      have hlabel := reads_readName hpath (value.encode ++ rest)
      have hread := reads_readValue hvalue hs rest
      rw [encode, declaration, List.cons_append, List.append_assoc]
      simp only [readWithin, if_true, hlabel, hread, Option.bind_eq_bind, Option.bind_some,
        Option.pure_def]
  | @buffer descriptors hd =>
    cases hs with
    | buffer hs =>
      intro rest
      have hread := reads_readBuffer hd hs (buffer_eq _) rest
      have hmark : ¬((0x11 : UInt8) = 0x08) := by decide
      rw [encode, buffer_eq, List.cons_append]
      simp only [readWithin, if_neg hmark, if_true, hread, Option.bind_eq_bind, Option.bind_some,
        Option.pure_def]
  | @region kind label members hname hm ih =>
    cases hs with
    | region hsmall hs =>
      obtain ⟨path, hpath, rfl⟩ := hname
      intro rest
      have hmembers : readAll (readWithin bound) (encodeAll members).length (encodeAll members) =
          some members := by
        rw [encodeAll_eq]
        refine readAll_flatMap (fun m hmem => ⟨m.encode_ne_nil, ?_⟩) (Nat.le_refl _)
        -- A member is shorter than the region, so a smaller bound is enough for it.
        have hpos := List.length_pos_iff.mpr m.encode_ne_nil
        have hlt := length_lt_of_mem kind path.encode hmem
        obtain ⟨bound, rfl⟩ : ∃ k, bound = k + 1 := ⟨bound - 1, by omega⟩
        exact ih m hmem (hs m hmem) (by omega)
      have hmark := reads_readRegionMark kind
        (packageLength (path.encode ++ encodeAll members).length true ++
          (path.encode ++ encodeAll members) ++ rest)
      have hpackage := reads_readPackage hsmall rest
      have hlabel := reads_readName hpath (encodeAll members)
      have hbytes : encode (region kind path.encode members) ++ rest = regionMark kind ++
          (packageLength (path.encode ++ encodeAll members).length true ++
            (path.encode ++ encodeAll members) ++ rest) := by
        simp only [encode, regionOf, List.append_assoc]
      rw [hbytes]
      obtain ⟨mark, more, hcons, h08, h11⟩ : ∃ mark more, regionMark kind = mark :: more ∧
          mark ≠ 0x08 ∧ mark ≠ 0x11 := by
        cases kind
        · exact ⟨0x10, [], rfl, by decide, by decide⟩
        · exact ⟨0x5B, [0x82], rfl, by decide, by decide⟩
      rw [hcons, List.cons_append] at hmark ⊢
      simp only [readWithin, if_neg h08, if_neg h11, hmark, hpackage, hlabel, hmembers,
        Option.bind_eq_bind, Option.bind_some, Option.pure_def]

/-- **The bytes of an object determine it**: they are read back as the object, whatever
follows. -/
theorem reads_read {o : Object Bytes} (hl : o.Lawful) (hs : o.IsSmall) : Reads read o.encode o := by
  intro rest
  have hpos := List.length_pos_iff.mpr o.encode_ne_nil
  obtain ⟨bound, hbound⟩ : ∃ k, (o.encode ++ rest).length = k + 1 :=
    ⟨(o.encode ++ rest).length - 1, by rw [List.length_append]; omega⟩
  rw [read, hbound]
  exact reads_readWithin hl hs (by rw [← hbound, List.length_append]; omega) rest

end Object

end AcpiTables.Aml
