import AcpiTables.Platform.Population

/-!
# Every kind of record fills its own group

A table is made of parts: nine groups, one for each kind of record, the mark of the program that
wrote it, and a frame of everything else. Nothing else is in a table
(`AcpiTables.Fadt.ext_parts`).

The one thing to know is that filling a group touches this part and no other. What comes of a kind
is then a matter of the answer for this kind alone, whatever the provider says about the others and
whatever came before.

| result | theorem |
|---|---|
| a record fills its group | `AcpiTables.Fadt.group_fill_self` |
| and leaves the other groups | `AcpiTables.Fadt.group_fill_of_ne` |
| each kind on its own | `AcpiTables.Fadt.group_populate` |
| what is told | `AcpiTables.Fadt.log_populate` |
| all of it, and filling twice | `AcpiTables.Fadt.populated_populate` |
-/

namespace AcpiTables.Fadt

variable {table : Fadt} {provider : Provider} {kind : RecordKind}

/-! ### The parts of a table -/

/-- The group of a kind: the members that a record of this kind fills, as such a record. -/
def group (table : Fadt) : (kind : RecordKind) → kind.Record
  | .sciInterrupt => ({ sciInterrupt := table.sciInt } : Record.SciInterrupt)
  | .sciCommand =>
    ({ sciCmd := table.smiCmd
       acpiEnable := table.acpiEnable
       acpiDisable := table.acpiDisable
       s4biosReq := table.s4biosReq
       pstateCnt := table.pstateCnt
       cstCnt := table.cstCnt } : Record.SciCommand)
  | .pmBlock =>
    ({ pm1aEvtBlk := table.pm1aEvtBlk
       pm1bEvtBlk := table.pm1bEvtBlk
       pm1aCntBlk := table.pm1aCntBlk
       pm1bCntBlk := table.pm1bCntBlk
       pm2CntBlk := table.pm2CntBlk
       pmTmrBlk := table.pmTmrBlk
       pm1EvtLen := table.pm1EvtLen
       pm1CntLen := table.pm1CntLen
       pm2CntLen := table.pm2CntLen
       pmTmrLen := table.pmTmrLen } : Record.PmBlock)
  | .gpeBlock =>
    ({ gpe0Blk := table.gpe0Blk
       gpe1Blk := table.gpe1Blk
       gpe0BlkLen := table.gpe0BlkLen
       gpe1BlkLen := table.gpe1BlkLen
       gpe1Base := table.gpe1Base } : Record.GpeBlock)
  | .extendedPmBlock =>
    ({ xPm1aEvtBlk := table.xPm1aEvtBlk
       xPm1bEvtBlk := table.xPm1bEvtBlk
       xPm1aCntBlk := table.xPm1aCntBlk
       xPm1bCntBlk := table.xPm1bCntBlk
       xPm2CntBlk := table.xPm2CntBlk
       xPmTmrBlk := table.xPmTmrBlk } : Record.ExtendedPmBlock)
  | .misc =>
    ({ pLvl2Lat := table.pLvl2Lat
       pLvl3Lat := table.pLvl3Lat
       flushSize := table.flushSize
       flushStride := table.flushStride
       dutyOffset := table.dutyOffset
       dutyWidth := table.dutyWidth
       dayAlrm := table.dayAlrm
       monAlrm := table.monAlrm
       century := table.century } : Record.Misc)
  | .extendedGpeBlock =>
    ({ xGpe0Blk := table.xGpe0Blk
       xGpe1Blk := table.xGpe1Blk } : Record.ExtendedGpeBlock)
  | .sleepBlock =>
    ({ sleepControlReg := table.sleepControlReg
       sleepStatusReg := table.sleepStatusReg } : Record.SleepBlock)
  | .resetBlock =>
    ({ resetReg := table.resetReg
       resetValue := table.resetValue } : Record.ResetBlock)

/-- The members of a table that no record fills, but for the mark of the program. -/
structure Frame where
  /-- Which table it is. -/
  signature : Block 4
  /-- How many bytes the table has. -/
  length : UInt32
  /-- The revision of the table's structure. -/
  revision : UInt8
  /-- The byte that makes the sum of all bytes zero. -/
  checksum : UInt8
  /-- The maker of the platform. -/
  oemId : Block 6
  /-- The maker's name for the table. -/
  oemTableId : Block 8
  /-- The maker's revision of the table. -/
  oemRevision : UInt32
  /-- The revision of the program that wrote the table. -/
  aslCompilerRevision : UInt32
  /-- The 32-bit address of the firmware control structure. -/
  firmwareCtrl : UInt32
  /-- The 32-bit address of the differentiated system description table. -/
  dsdt : UInt32
  /-- The first reserved byte. -/
  reservedLow : UInt8
  /-- The kind of machine. -/
  preferredPmProfile : UInt8
  /-- Boot flags of the PC architecture. -/
  iapcBootArch : UInt16
  /-- The second reserved byte. -/
  reservedHigh : UInt8
  /-- Fixed feature flags. -/
  flags : UInt32
  /-- Boot flags of the Arm architecture. -/
  armBootArch : UInt16
  /-- The minor part of the revision. -/
  minorRevision : UInt8
  /-- The 64-bit address of the firmware control structure. -/
  xFirmwareCtrl : UInt64
  /-- The 64-bit address of the differentiated system description table. -/
  xDsdt : UInt64
  /-- The vendor of the hypervisor. -/
  hypervisorVendorIdentity : UInt64
deriving DecidableEq, Repr

/-- The frame of a table. -/
def frame (table : Fadt) : Frame where
  signature := table.header.signature
  length := table.header.length
  revision := table.header.revision
  checksum := table.header.checksum
  oemId := table.header.oemId
  oemTableId := table.header.oemTableId
  oemRevision := table.header.oemRevision
  aslCompilerRevision := table.header.aslCompilerRevision
  firmwareCtrl := table.firmwareCtrl
  dsdt := table.dsdt
  reservedLow := table.reservedLow
  preferredPmProfile := table.preferredPmProfile
  iapcBootArch := table.iapcBootArch
  reservedHigh := table.reservedHigh
  flags := table.flags
  armBootArch := table.armBootArch
  minorRevision := table.minorRevision
  xFirmwareCtrl := table.xFirmwareCtrl
  xDsdt := table.xDsdt
  hypervisorVendorIdentity := table.hypervisorVendorIdentity

/-- **Tables with the same parts are the same table.** -/
theorem ext_parts {table' : Fadt} (hgroup : ∀ kind, table.group kind = table'.group kind)
    (hframe : table.frame = table'.frame)
    (hid : table.header.aslCompilerId = table'.header.aslCompilerId) : table = table' := by
  have hsci := hgroup .sciInterrupt
  have hcommand := hgroup .sciCommand
  have hpm := hgroup .pmBlock
  have hgpe := hgroup .gpeBlock
  have hxpm := hgroup .extendedPmBlock
  have hmisc := hgroup .misc
  have hxgpe := hgroup .extendedGpeBlock
  have hsleep := hgroup .sleepBlock
  have hreset := hgroup .resetBlock
  obtain ⟨⟨⟩⟩ := table
  obtain ⟨⟨⟩⟩ := table'
  simp_all [group, frame]

/-! ### One record -/

@[simp] theorem group_fill_self (table : Fadt) (record : kind.Record) :
    (table.fill kind record).group kind = record := by
  cases kind <;> rfl

theorem group_fill_of_ne {kind' : RecordKind} (hne : kind' ≠ kind) (table : Fadt)
    (record : kind.Record) : (table.fill kind record).group kind' = table.group kind' := by
  cases kind <;> cases kind' <;> first | rfl | exact absurd rfl hne

@[simp] theorem frame_fill (table : Fadt) (record : kind.Record) :
    (table.fill kind record).frame = table.frame := by
  cases kind <;> rfl

/-! ### One kind -/

/-- What stands in the group of a kind once it was asked for: the record, or what stood there
before. -/
def answered (provider : Provider) (kind : RecordKind) (before : kind.Record) : kind.Record :=
  match provider.record kind Provider.platformToken with
  | .ok record => record
  | .error _ => before

/-- What is told about a kind that cannot be had, and why. -/
def failed (kind : RecordKind) (e : Error) : Log.Entry :=
  ⟨.error, "FADT: Failed to get " ++ kind.subject ++ " information: " ++ e.message⟩

/-- What is told once a kind was asked for: nothing, if there is a record. -/
def complaint (provider : Provider) (kind : RecordKind) : Option Log.Entry :=
  match provider.record kind Provider.platformToken with
  | .ok _ => none
  | .error e => some (failed kind e)

/-- **Asking for a kind** concerns its group, and tells nothing that depends on the table. -/
theorem fillFrom_eq (provider : Provider) (kind : RecordKind) (table : Fadt) :
    fillFrom provider kind table =
      (table.fill kind (answered provider kind (table.group kind)),
        (complaint provider kind).toList) := by
  rw [fillFrom, answered, complaint]
  cases provider.record kind Provider.platformToken with
  | ok record => rfl
  | error e =>
    have hsame : table.fill kind (table.group kind) = table := by cases kind <;> rfl
    simp only [hsame, Option.toList_some, failed]

/-! ### One kind after another -/

/-- The table after one more kind, and what was told up to then. -/
def fillNext (provider : Provider) (done : Fadt × List Log.Entry) (kind : RecordKind) :
    Fadt × List Log.Entry :=
  ((fillFrom provider kind done.1).1, done.2 ++ (fillFrom provider kind done.1).2)

/-- The table with the mark of this library. -/
def mark (table : Fadt) : Fadt :=
  { table with header := { table.header with aslCompilerId := generatorId } }

theorem populate_eq (provider : Provider) (table : Fadt) :
    populate provider table =
      (mark (RecordKind.all.foldl (fillNext provider) (table, [])).1,
        (RecordKind.all.foldl (fillNext provider) (table, [])).2) := by
  -- Which kinds there are does not matter here, and is not to be unfolded.
  rw [populate]
  generalize RecordKind.all = kinds
  rfl

/-- What has become of a table once some kinds were asked for. -/
structure Filled (provider : Provider) (kinds : List RecordKind) (table table' : Fadt) : Prop where
  /-- The groups of these kinds are answered, and the others stay. -/
  group_eq : ∀ kind, table'.group kind =
    if kind ∈ kinds then answered provider kind (table.group kind) else table.group kind
  /-- The frame stays. -/
  frame_eq : table'.frame = table.frame

theorem filled_nil (provider : Provider) (table : Fadt) : Filled provider [] table table :=
  ⟨fun _ => (if_neg List.not_mem_nil).symm, rfl⟩

/-- Kinds asked for later leave what was answered first. -/
theorem Filled.cons {kinds : List RecordKind} {table' : Fadt} (hnew : kind ∉ kinds)
    (hrest : Filled provider kinds (fillFrom provider kind table).1 table') :
    Filled provider (kind :: kinds) table table' := by
  have hfirst : (fillFrom provider kind table).1 =
      table.fill kind (answered provider kind (table.group kind)) := by rw [fillFrom_eq]
  rw [hfirst] at hrest
  refine ⟨fun kind' => ?_, hrest.frame_eq.trans (frame_fill _ _)⟩
  by_cases hkind : kind' = kind
  · subst hkind
    rw [hrest.group_eq kind', if_neg hnew, if_pos List.mem_cons_self, group_fill_self]
  · rw [hrest.group_eq kind', group_fill_of_ne hkind]
    simp only [List.mem_cons, hkind, false_or]

theorem filled_foldl {kinds : List RecordKind} (hnodup : kinds.Nodup)
    (done : Fadt × List Log.Entry) :
    Filled provider kinds done.1 (kinds.foldl (fillNext provider) done).1 := by
  induction kinds generalizing done with
  | nil => exact filled_nil provider done.1
  | cons kind kinds ih =>
    obtain ⟨hnew, hkinds⟩ := List.nodup_cons.mp hnodup
    exact Filled.cons hnew (ih hkinds (fillNext provider done kind))

theorem told_foldl (kinds : List RecordKind) (done : Fadt × List Log.Entry) :
    (kinds.foldl (fillNext provider) done).2 = done.2 ++ kinds.filterMap (complaint provider) := by
  induction kinds generalizing done with
  | nil => exact (List.append_nil _).symm
  | cons kind kinds ih =>
    have htold : (fillNext provider done kind).2 = done.2 ++ (complaint provider kind).toList := by
      rw [fillNext, fillFrom_eq]
    rw [List.foldl_cons, ih, htold, List.append_assoc, List.filterMap_cons]
    cases complaint provider kind <;> rfl

/-! ### All kinds -/

theorem filled_populate (provider : Provider) (table : Fadt) :
    Filled provider RecordKind.all table
      (RecordKind.all.foldl (fillNext provider) (table, [])).1 :=
  filled_foldl (by decide) (table, [])

@[simp] theorem group_mark (table : Fadt) (kind : RecordKind) :
    table.mark.group kind = table.group kind := by
  cases kind <;> rfl

@[simp] theorem frame_mark (table : Fadt) : table.mark.frame = table.frame := by
  rw [frame, frame, mark]

/-- **Each kind is on its own**: what stands in its group is told by the answer for this kind and
by what stood there before. -/
theorem group_populate (provider : Provider) (table : Fadt) (kind : RecordKind) :
    (populate provider table).1.group kind = answered provider kind (table.group kind) := by
  rw [populate_eq, group_mark, (filled_populate provider table).group_eq,
    if_pos (RecordKind.mem_all kind)]

theorem frame_populate (provider : Provider) (table : Fadt) :
    (populate provider table).1.frame = table.frame := by
  rw [populate_eq, frame_mark, (filled_populate provider table).frame_eq]

theorem generator_populate (provider : Provider) (table : Fadt) :
    (populate provider table).1.header.aslCompilerId = generatorId := by
  rw [populate_eq, mark]

/-- What is told is one entry for each kind that cannot be had, in their order. -/
theorem log_populate (provider : Provider) (table : Fadt) :
    (populate provider table).2 = RecordKind.all.filterMap (complaint provider) := by
  rw [populate_eq, told_foldl, List.nil_append]

theorem answered_answered (provider : Provider) (kind : RecordKind) (before : kind.Record) :
    answered provider kind (answered provider kind before) = answered provider kind before := by
  rw [answered]
  cases h : provider.record kind Provider.platformToken with
  | ok record => rw [answered, h]
  | error e => rfl

/-- Filling a table again changes nothing. -/
theorem populate_populate (provider : Provider) (table : Fadt) :
    populate provider (populate provider table).1 = populate provider table := by
  refine Prod.ext (ext_parts (fun kind => ?_) ?_ ?_) ?_
  · rw [group_populate, group_populate, answered_answered]
  · rw [frame_populate]
  · rw [generator_populate, generator_populate]
  · rw [log_populate, log_populate]

/-- What a table is after it was filled. -/
structure Populated (provider : Provider) (table table' : Fadt) (log : List Log.Entry) : Prop where
  /-- Where there is a record, its members stand in the group of its kind. -/
  filled : ∀ kind record, provider.record kind Provider.platformToken = .ok record →
    table'.group kind = record
  /-- Where there is none, the group is as it was. -/
  kept : ∀ kind e, provider.record kind Provider.platformToken = .error e →
    table'.group kind = table.group kind
  /-- The mark of the program is that of this library. -/
  generator_eq : table'.header.aslCompilerId = generatorId
  /-- Everything else is as it was. -/
  frame_eq : table'.frame = table.frame
  /-- One entry for each kind without a record is told, in the order of the kinds. -/
  log_eq : log = RecordKind.all.filterMap (complaint provider)

/-- **Filling a table** puts every record that can be had in its group and changes nothing else. No
answer concerns another group, and filling the table again with the same provider changes nothing
at all. -/
theorem populated_populate (provider : Provider) (table : Fadt) :
    Populated provider table (populate provider table).1 (populate provider table).2 ∧
      (∀ (provider' : Provider) (kind : RecordKind),
        provider' kind Provider.platformToken = provider kind Provider.platformToken →
          (populate provider' table).1.group kind = (populate provider table).1.group kind) ∧
      populate provider (populate provider table).1 = populate provider table := by
  refine ⟨⟨fun kind record hrecord => ?_, fun kind e herror => ?_,
    generator_populate provider table, frame_populate provider table,
    log_populate provider table⟩, fun provider' kind hsame => ?_, populate_populate provider table⟩
  · rw [group_populate, answered, hrecord]
  · rw [group_populate, answered, herror]
  · have hrecord : provider'.record kind Provider.platformToken =
        provider.record kind Provider.platformToken := by
      rw [Provider.record, Provider.record, Provider.records, Provider.records, hsame]
    rw [group_populate, group_populate, answered, answered, hrecord]

/-- A provider with one record and nothing else. -/
theorem populated_populate_interrupt :
    (populate (fun kind _ => if kind = .sciInterrupt then .ok ⟨kind, [9, 0], 1⟩
        else .error (.notFound kind)) Packed.zero).1.group .sciInterrupt = ⟨9⟩ ∧
      (populate (fun kind _ => if kind = .sciInterrupt then .ok ⟨kind, [9, 0], 1⟩
        else .error (.notFound kind)) Packed.zero).1.group .resetBlock =
          (Packed.zero : Fadt).group .resetBlock := by
  have hpopulated := populated_populate (fun kind _ => if kind = .sciInterrupt then
    .ok ⟨kind, [9, 0], 1⟩ else .error (.notFound kind)) Packed.zero
  exact ⟨hpopulated.1.filled .sciInterrupt ⟨9⟩ rfl,
    hpopulated.1.kept .resetBlock (.notFound .resetBlock) rfl⟩

end AcpiTables.Fadt
