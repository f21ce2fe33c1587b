import AcpiTables.Packed.Basic

/-!
# Table headers

Every ACPI table starts with the same 36 bytes: what the table is and how long, and
who made it. The checksum is left zero here; whoever places the table in memory
completes it.
-/

namespace AcpiTables

/-- The common start of all tables. -/
structure TableHeader where
  /-- Which table it is. -/
  signature : Block 4
  /-- How many bytes the table has, the header counted. -/
  length : UInt32
  /-- The revision of the table's structure. -/
  revision : UInt8
  /-- The byte that makes the sum of all bytes zero. -/
  checksum : UInt8
  /-- The maker of the platform. -/
  oemId : Block 6
  /-- The maker's name for the table. -/
  oemTableId : Block 8
  /-- The maker's revision of the table. -/
  oemRevision : UInt32
  /-- The program that wrote the table. -/
  aslCompilerId : Block 4
  /-- The revision of that program. -/
  aslCompilerRevision : UInt32
deriving DecidableEq, Repr

namespace TableHeader

/-- The members of a header. -/
def layout : Layout :=
  .block "signature" 4 <| .word "length" .dword <| .word "revision" .byte <|
  .word "checksum" .byte <| .block "oem_id" 6 <| .block "oem_table_id" 8 <|
  .word "oem_revision" .dword <| .block "asl_compiler_id" 4 <|
  .word "asl_compiler_revision" .dword <| .done

/-- The members' values. -/
def toRow (h : TableHeader) : layout.Row :=
  (h.signature, h.length, h.revision, h.checksum, h.oemId, h.oemTableId, h.oemRevision,
    h.aslCompilerId, h.aslCompilerRevision, ())

/-- The header with given members. -/
def ofRow (row : layout.Row) : TableHeader :=
  match row with
  | (signature, length, revision, checksum, oemId, oemTableId, oemRevision, aslCompilerId,
      aslCompilerRevision, ()) =>
    { signature, length, revision, checksum, oemId, oemTableId, oemRevision, aslCompilerId,
      aslCompilerRevision }

instance : Packed TableHeader where
  layout := layout
  toRow := toRow
  ofRow := ofRow
  ofRow_toRow _ := rfl
  toRow_ofRow _ := rfl

/-- A header without checksum and without the program that wrote the table. -/
def unsigned (signature : Block 4) (length : UInt32) (revision : UInt8) (oemId : Block 6)
    (oemTableId : Block 8) (oemRevision : UInt32) : TableHeader where
  signature := signature
  length := length
  revision := revision
  checksum := 0
  oemId := oemId
  oemTableId := oemTableId
  oemRevision := oemRevision
  aslCompilerId := .zero 4
  aslCompilerRevision := 0

end TableHeader

end AcpiTables
