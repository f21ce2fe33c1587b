import AcpiTables.Platform.Library
import Mathlib.Algebra.Group.Nat.Defs

/-!
# The format of configurations

A configuration is an object of records, a record an object of fields, and a field a word or a
generic address, which is an object of words. This file has the tables of all names
(`AcpiTables.RecordKind.fields`), and says of each type how its values are written
(`AcpiTables.Form`).

Next to how a value is written stands what else is declared about it: which reader reads it, and for
a structure whether fields may be left out and whether other keys are allowed
(`AcpiTables.ReadingRules`). Here all structures agree on the second and all but one on the first:
what is left out of a record or an address is zero. A configuration has nothing to be filled in, but
its records are optional, and one that is left out is absent.
-/

namespace AcpiTables

variable {α : Type}

/-! ### Forms -/

/-- **How the values of a type are written**, and how they are read. -/
structure Form (α : Type) where
  /-- What may be written. -/
  Allows : Json → Prop
  /-- What is written for a value. -/
  Tells : Json → α → Prop
  /-- The value for which nothing is written. -/
  zero : α
  /-- The reader. -/
  read : Readers → Json → Option α
  /-- What a reader makes of a value that is left out, if the type is one of optional values. -/
  missing : Option α

/-- A field of a structure. -/
structure Field (α : Type) where
  /-- The name. -/
  name : String
  /-- The type of the value. -/
  {Value : Type}
  /-- How it is written. -/
  form : Form Value
  /-- The value in a structure. -/
  value : α → Value

/-- **A word is written as an integer** that is not negative and fits. -/
def Form.word (w : Width) : Form w.Value where
  Allows v := ∃ n : Nat, v = .number (.integer n) ∧ n < 2 ^ (8 * w.size)
  Tells v x := v = .number (.integer (w.toNat x))
  zero := w.truncate 0
  read r := r.word w
  missing := none

/-- What is written for a structure with some fields: an object whose keys are names of fields. A
field that is written has the value that is written, and one that is not written is zero. -/
def TellsFields (fields : List (Field α)) (v : Json) (a : α) : Prop :=
  ∃ members, v = .object members ∧
    (∀ key ∈ members.map Prod.fst, ∃ field ∈ fields, field.name = key) ∧
    ∀ field ∈ fields,
      (∀ value, (field.name, value) ∈ members → field.form.Tells value (field.value a)) ∧
        (field.name ∉ members.map Prod.fst → field.value a = field.form.zero)

/-- What may be written for a structure with some fields: an object whose members each have the name
of a field, and a value that may be written for it. -/
def AllowsFields (fields : List (Field α)) (v : Json) : Prop :=
  ∃ members, v = .object members ∧ ∀ key value, (key, value) ∈ members →
    ∃ field ∈ fields, field.name = key ∧ field.form.Allows value

/-! ### Tables -/

/-- The fields of a generic address. -/
def GenericAddress.fields : List (Field GenericAddress) :=
  [⟨"space_id", .word .byte, spaceId⟩, ⟨"bit_width", .word .byte, bitWidth⟩,
    ⟨"bit_offset", .word .byte, bitOffset⟩, ⟨"access_size", .word .byte, accessSize⟩,
    ⟨"address", .word .qword, address⟩]

/-- **A generic address is written as a structure.** -/
def Form.address : Form GenericAddress where
  Allows := AllowsFields GenericAddress.fields
  Tells := TellsFields GenericAddress.fields
  zero := ⟨0, 0, 0, 0, 0⟩
  read r := r.address
  missing := none

/-- The fields of the records of a kind. -/
def RecordKind.fields : (kind : RecordKind) → List (Field kind.Record)
  | sciInterrupt => [⟨"sci_interrupt", .word .word, (·.sciInterrupt)⟩]
  | sciCommand =>
    [⟨"sci_cmd", .word .dword, (·.sciCmd)⟩, ⟨"acpi_enable", .word .byte, (·.acpiEnable)⟩,
      ⟨"acpi_disable", .word .byte, (·.acpiDisable)⟩, ⟨"s4bios_req", .word .byte, (·.s4biosReq)⟩,
      ⟨"pstate_cnt", .word .byte, (·.pstateCnt)⟩, ⟨"cst_cnt", .word .byte, (·.cstCnt)⟩]
  | pmBlock =>
    [⟨"pm1a_evt_blk", .word .dword, (·.pm1aEvtBlk)⟩,
      ⟨"pm1b_evt_blk", .word .dword, (·.pm1bEvtBlk)⟩,
      ⟨"pm1a_cnt_blk", .word .dword, (·.pm1aCntBlk)⟩,
      ⟨"pm1b_cnt_blk", .word .dword, (·.pm1bCntBlk)⟩,
      ⟨"pm2_cnt_blk", .word .dword, (·.pm2CntBlk)⟩, ⟨"pm_tmr_blk", .word .dword, (·.pmTmrBlk)⟩,
      ⟨"pm1_evt_len", .word .byte, (·.pm1EvtLen)⟩, ⟨"pm1_cnt_len", .word .byte, (·.pm1CntLen)⟩,
      ⟨"pm2_cnt_len", .word .byte, (·.pm2CntLen)⟩, ⟨"pm_tmr_len", .word .byte, (·.pmTmrLen)⟩]
  | gpeBlock =>
    [⟨"gpe0_blk", .word .dword, (·.gpe0Blk)⟩, ⟨"gpe1_blk", .word .dword, (·.gpe1Blk)⟩,
      ⟨"gpe0_blk_len", .word .byte, (·.gpe0BlkLen)⟩,
      ⟨"gpe1_blk_len", .word .byte, (·.gpe1BlkLen)⟩, ⟨"gpe1_base", .word .byte, (·.gpe1Base)⟩]
  | extendedPmBlock =>
    [⟨"x_pm1a_evt_blk", .address, (·.xPm1aEvtBlk)⟩, ⟨"x_pm1b_evt_blk", .address, (·.xPm1bEvtBlk)⟩,
      ⟨"x_pm1a_cnt_blk", .address, (·.xPm1aCntBlk)⟩, ⟨"x_pm1b_cnt_blk", .address, (·.xPm1bCntBlk)⟩,
      ⟨"x_pm2_cnt_blk", .address, (·.xPm2CntBlk)⟩, ⟨"x_pm_tmr_blk", .address, (·.xPmTmrBlk)⟩]
  | misc =>
    [⟨"p_lvl2_lat", .word .word, (·.pLvl2Lat)⟩, ⟨"p_lvl3_lat", .word .word, (·.pLvl3Lat)⟩,
      ⟨"flush_size", .word .word, (·.flushSize)⟩, ⟨"flush_stride", .word .word, (·.flushStride)⟩,
      ⟨"duty_offset", .word .byte, (·.dutyOffset)⟩, ⟨"duty_width", .word .byte, (·.dutyWidth)⟩,
      ⟨"day_alrm", .word .byte, (·.dayAlrm)⟩, ⟨"mon_alrm", .word .byte, (·.monAlrm)⟩,
      ⟨"century", .word .byte, (·.century)⟩]
  | extendedGpeBlock =>
    [⟨"x_gpe0_blk", .address, (·.xGpe0Blk)⟩, ⟨"x_gpe1_blk", .address, (·.xGpe1Blk)⟩]
  | sleepBlock =>
    [⟨"sleep_control_reg", .address, (·.sleepControlReg)⟩,
      ⟨"sleep_status_reg", .address, (·.sleepStatusReg)⟩]
  | resetBlock =>
    [⟨"reset_reg", .address, (·.resetReg)⟩, ⟨"reset_value", .word .byte, (·.resetValue)⟩]

/-- **A record may be left out**, and so may what is written for it. -/
def Form.optional (kind : RecordKind) : Form (Option kind.Record) where
  Allows v := v = .null ∨ AllowsFields kind.fields v
  Tells v record := v = .null ∧ record = none ∨ ∃ r, record = some r ∧ TellsFields kind.fields v r
  zero := none
  read r := r.optional kind
  missing := some none

/-- The fields of a configuration: its records. -/
def Configuration.fields : List (Field Configuration) :=
  RecordKind.all.map fun kind => ⟨kind.key, .optional kind, fun config => config.record kind⟩

/-! ### Tables and layouts -/

/-- An address is no more than its members. -/
theorem GenericAddress.toRow_injective : Function.Injective toRow := fun _ _ h => congrArg ofRow h

namespace Layout

/-- **A table lists the fields of a layout**: name by name, with their forms, and with the values
that stand in a row. -/
inductive Lists : (l : Layout) → (α → l.Row) → List (Field α) → Prop
  /-- There is no further field. -/
  | done : Lists .done (fun _ => ()) []
  /-- A word. -/
  | word {name : String} {w : Width} {rest : Layout} {value : α → w.Value} {row : α → rest.Row}
    {fields : List (Field α)} (hrest : Lists rest row fields) :
    Lists (.word name w rest) (fun a => (value a, row a)) (⟨name, .word w, value⟩ :: fields)
  /-- An address. -/
  | address {name : String} {rest : Layout} {value : α → GenericAddress} {row : α → rest.Row}
    {fields : List (Field α)} (hrest : Lists rest row fields) :
    Lists (.group name GenericAddress.layout rest) (fun a => ((value a).toRow, row a))
      (⟨name, .address, value⟩ :: fields)

namespace Lists

variable {l : Layout} {row : α → l.Row} {fields : List (Field α)} (hl : Lists l row fields)

include hl

/-- **What holds of words and of addresses** holds of every field. -/
theorem forall_fields {P : Field α → Prop} (word : ∀ name w value, P ⟨name, .word w, value⟩)
    (address : ∀ name value, P ⟨name, .address, value⟩) : ∀ field ∈ fields, P field := by
  induction hl with
  | done => exact nofun
  | word _ ih => exact List.forall_mem_cons.mpr ⟨word _ _ _, ih⟩
  | address _ ih => exact List.forall_mem_cons.mpr ⟨address _ _, ih⟩

/-- **Fields can have any values**, whatever the others are. -/
theorem exists_row {P : (field : Field α) → field.Value → Prop}
    (hP : ∀ field ∈ fields, ∃ x, P field x) :
    ∃ r : l.Row, ∀ a, row a = r → ∀ field ∈ fields, P field (field.value a) := by
  induction hl with
  | done => exact ⟨(), fun _ _ => nofun⟩
  | word _ ih =>
    obtain ⟨⟨x, hx⟩, hrest⟩ := List.forall_mem_cons.mp hP
    obtain ⟨r, hr⟩ := ih hrest
    refine ⟨(x, r), fun a ha => List.forall_mem_cons.mpr ⟨?_, hr a (Prod.mk.inj ha).2⟩⟩
    obtain rfl := (Prod.mk.inj ha).1
    exact hx
  | address _ ih =>
    obtain ⟨⟨x, hx⟩, hrest⟩ := List.forall_mem_cons.mp hP
    obtain ⟨r, hr⟩ := ih hrest
    refine ⟨(x.toRow, r), fun a ha => List.forall_mem_cons.mpr ⟨?_, hr a (Prod.mk.inj ha).2⟩⟩
    obtain rfl := GenericAddress.toRow_injective (Prod.mk.inj ha).1
    exact hx

end Lists

end Layout

theorem GenericAddress.lists_fields : Layout.Lists layout toRow fields :=
  .word <| .word <| .word <| .word <| .word .done

/-- Only words are in an address. -/
theorem GenericAddress.forall_fields {P : Field GenericAddress → Prop}
    (word : ∀ name w value, P ⟨name, .word w, value⟩) : ∀ field ∈ fields, P field := by
  simp only [fields, List.forall_mem_cons, word, true_and]
  exact nofun

/-- **The table of a kind lists the fields of its records.** -/
theorem RecordKind.lists_fields (kind : RecordKind) :
    Layout.Lists (Packed.layout kind.Record) Packed.toRow kind.fields := by
  cases kind with
  | sciInterrupt => exact .word .done
  | sciCommand => exact .word <| .word <| .word <| .word <| .word <| .word .done
  | pmBlock =>
    exact .word <| .word <| .word <| .word <| .word <| .word <| .word <| .word <| .word <|
      .word .done
  | gpeBlock => exact .word <| .word <| .word <| .word <| .word .done
  | extendedPmBlock =>
    exact .address <| .address <| .address <| .address <| .address <| .address .done
  | misc =>
    exact .word <| .word <| .word <| .word <| .word <| .word <| .word <| .word <| .word .done
  | extendedGpeBlock => exact .address <| .address .done
  | sleepBlock => exact .address <| .address .done
  | resetBlock => exact .address <| .word .done

/-- What holds of optional records holds of every field of a configuration. -/
theorem Configuration.forall_fields {P : Field Configuration → Prop}
    (optional : ∀ name kind value, P ⟨name, .optional kind, value⟩) : ∀ field ∈ fields, P field :=
  List.forall_mem_map.mpr fun _ _ => optional _ _ _

theorem RecordKind.nodup_names (kind : RecordKind) : (kind.fields.map Field.name).Nodup := by
  cases kind <;> simp [fields]

/-! ### Rules -/

/-- **What is declared about reading a structure.** -/
structure ReadingRules where
  /-- Whether a field that is left out has its value in the default structure. -/
  fillsIn : Bool
  /-- Whether a key that is not the name of a field is refused. -/
  refusesUnknown : Bool
deriving DecidableEq, Repr

/-- An address is filled in, and has no other keys. -/
def GenericAddress.rules : ReadingRules := ⟨true, true⟩

/-- A record is filled in, and has no other keys, whatever the kind is. -/
def RecordKind.rules : RecordKind → ReadingRules
  | sciInterrupt | sciCommand | pmBlock | gpeBlock | extendedPmBlock | misc | extendedGpeBlock
  | sleepBlock | resetBlock => ⟨true, true⟩

/-- A configuration is not filled in, and has no other keys. -/
def Configuration.rules : ReadingRules := ⟨false, true⟩

end AcpiTables
