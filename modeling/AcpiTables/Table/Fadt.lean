import AcpiTables.Table.GenericAddress
import AcpiTables.Table.Header

/-!
# The fixed ACPI description table

The FADT tells the operating system where the fixed hardware of a platform is and
how to use it. Most registers have two members: a 32-bit I/O address near the front, and a
generic address, whose name starts with `x`, behind it. Two bytes are reserved. They
are kept when a table is read and written again.
-/

namespace AcpiTables

/-- The fixed ACPI description table. -/
structure Fadt where
  /-- The common start of all tables. -/
  header : TableHeader
  /-- The 32-bit address of the firmware control structure. -/
  firmwareCtrl : UInt32
  /-- The 32-bit address of the differentiated system description table. -/
  dsdt : UInt32
  /-- A reserved byte. -/
  reservedLow : UInt8
  /-- The kind of machine, for power policies. -/
  preferredPmProfile : UInt8
  /-- The line of the system control interrupt. -/
  sciInt : UInt16
  /-- The I/O address of the SMI command register. -/
  smiCmd : UInt32
  /-- The command that hands the hardware to the system. -/
  acpiEnable : UInt8
  /-- The command that hands it back. -/
  acpiDisable : UInt8
  /-- The command that enters the S4 state by firmware. -/
  s4biosReq : UInt8
  /-- The command that takes over performance control. -/
  pstateCnt : UInt8
  /-- The I/O address of the event block PM1a. -/
  pm1aEvtBlk : UInt32
  /-- The I/O address of the event block PM1b. -/
  pm1bEvtBlk : UInt32
  /-- The I/O address of the control block PM1a. -/
  pm1aCntBlk : UInt32
  /-- The I/O address of the control block PM1b. -/
  pm1bCntBlk : UInt32
  /-- The I/O address of the control block PM2. -/
  pm2CntBlk : UInt32
  /-- The I/O address of the timer. -/
  pmTmrBlk : UInt32
  /-- The I/O address of the general purpose event block 0. -/
  gpe0Blk : UInt32
  /-- The I/O address of the general purpose event block 1. -/
  gpe1Blk : UInt32
  /-- The size of the event blocks PM1. -/
  pm1EvtLen : UInt8
  /-- The size of the control blocks PM1. -/
  pm1CntLen : UInt8
  /-- The size of the control block PM2. -/
  pm2CntLen : UInt8
  /-- The size of the timer. -/
  pmTmrLen : UInt8
  /-- The size of the general purpose event block 0. -/
  gpe0BlkLen : UInt8
  /-- The size of the general purpose event block 1. -/
  gpe1BlkLen : UInt8
  /-- The first event of the general purpose event block 1. -/
  gpe1Base : UInt8
  /-- The command that takes over processor states. -/
  cstCnt : UInt8
  /-- The latency of the processor state C2. -/
  pLvl2Lat : UInt16
  /-- The latency of the processor state C3. -/
  pLvl3Lat : UInt16
  /-- How much is read to flush the caches. -/
  flushSize : UInt16
  /-- The step of that reading. -/
  flushStride : UInt16
  /-- The place of the duty cycle setting. -/
  dutyOffset : UInt8
  /-- The width of the duty cycle setting. -/
  dutyWidth : UInt8
  /-- The clock register of the alarm day. -/
  dayAlrm : UInt8
  /-- The clock register of the alarm month. -/
  monAlrm : UInt8
  /-- The clock register of the century. -/
  century : UInt8
  /-- Boot flags of the PC architecture. -/
  iapcBootArch : UInt16
  /-- A reserved byte. -/
  reservedHigh : UInt8
  /-- Fixed feature flags. -/
  flags : UInt32
  /-- The reset register. -/
  resetReg : GenericAddress
  /-- The value that resets. -/
  resetValue : UInt8
  /-- Boot flags of the Arm architecture. -/
  armBootArch : UInt16
  /-- The minor part of the revision of the structure. -/
  minorRevision : UInt8
  /-- The 64-bit address of the firmware control structure. -/
  xFirmwareCtrl : UInt64
  /-- The 64-bit address of the differentiated system description table. -/
  xDsdt : UInt64
  /-- The event block PM1a. -/
  xPm1aEvtBlk : GenericAddress
  /-- The event block PM1b. -/
  xPm1bEvtBlk : GenericAddress
  /-- The control block PM1a. -/
  xPm1aCntBlk : GenericAddress
  /-- The control block PM1b. -/
  xPm1bCntBlk : GenericAddress
  /-- The control block PM2. -/
  xPm2CntBlk : GenericAddress
  /-- The timer. -/
  xPmTmrBlk : GenericAddress
  /-- The general purpose event block 0. -/
  xGpe0Blk : GenericAddress
  /-- The general purpose event block 1. -/
  xGpe1Blk : GenericAddress
  /-- The sleep control register. -/
  sleepControlReg : GenericAddress
  /-- The sleep status register. -/
  sleepStatusReg : GenericAddress
  /-- The vendor of the hypervisor. -/
  hypervisorVendorIdentity : UInt64
deriving DecidableEq, Repr

namespace Fadt

/-- The members of the table. -/
def layout : Layout :=
  .group "header" TableHeader.layout <| .word "firmware_ctrl" .dword <| .word "dsdt" .dword <|
  .reserved (.word .byte) <| .word "preferred_pm_profile" .byte <| .word "sci_int" .word <|
  .word "smi_cmd" .dword <| .word "acpi_enable" .byte <| .word "acpi_disable" .byte <|
  .word "s4bios_req" .byte <| .word "pstate_cnt" .byte <| .word "pm1a_evt_blk" .dword <|
  .word "pm1b_evt_blk" .dword <| .word "pm1a_cnt_blk" .dword <| .word "pm1b_cnt_blk" .dword <|
  .word "pm2_cnt_blk" .dword <| .word "pm_tmr_blk" .dword <| .word "gpe0_blk" .dword <|
  .word "gpe1_blk" .dword <| .word "pm1_evt_len" .byte <| .word "pm1_cnt_len" .byte <|
  .word "pm2_cnt_len" .byte <| .word "pm_tmr_len" .byte <| .word "gpe0_blk_len" .byte <|
  .word "gpe1_blk_len" .byte <| .word "gpe1_base" .byte <| .word "cst_cnt" .byte <|
  .word "p_lvl2_lat" .word <| .word "p_lvl3_lat" .word <| .word "flush_size" .word <|
  .word "flush_stride" .word <| .word "duty_offset" .byte <| .word "duty_width" .byte <|
  .word "day_alrm" .byte <| .word "mon_alrm" .byte <| .word "century" .byte <|
  .word "iapc_boot_arch" .word <| .reserved (.word .byte) <| .word "flags" .dword <|
  .group "reset_reg" GenericAddress.layout <| .word "reset_value" .byte <|
  .word "arm_boot_arch" .word <| .word "minor_revision" .byte <|
  .word "x_firmware_ctrl" .qword <| .word "x_dsdt" .qword <|
  .group "x_pm1a_evt_blk" GenericAddress.layout <|
  .group "x_pm1b_evt_blk" GenericAddress.layout <|
  .group "x_pm1a_cnt_blk" GenericAddress.layout <|
  .group "x_pm1b_cnt_blk" GenericAddress.layout <|
  .group "x_pm2_cnt_blk" GenericAddress.layout <| .group "x_pm_tmr_blk" GenericAddress.layout <|
  .group "x_gpe0_blk" GenericAddress.layout <| .group "x_gpe1_blk" GenericAddress.layout <|
  .group "sleep_control_reg" GenericAddress.layout <|
  .group "sleep_status_reg" GenericAddress.layout <| .word "hypervisor_vendor_identity" .qword <|
  .done

/-- The members' values. -/
def toRow (t : Fadt) : layout.Row :=
  (t.header.toRow, t.firmwareCtrl, t.dsdt, t.reservedLow, t.preferredPmProfile, t.sciInt,
    t.smiCmd, t.acpiEnable, t.acpiDisable, t.s4biosReq, t.pstateCnt, t.pm1aEvtBlk, t.pm1bEvtBlk,
    t.pm1aCntBlk, t.pm1bCntBlk, t.pm2CntBlk, t.pmTmrBlk, t.gpe0Blk, t.gpe1Blk, t.pm1EvtLen,
    t.pm1CntLen, t.pm2CntLen, t.pmTmrLen, t.gpe0BlkLen, t.gpe1BlkLen, t.gpe1Base, t.cstCnt,
    t.pLvl2Lat, t.pLvl3Lat, t.flushSize, t.flushStride, t.dutyOffset, t.dutyWidth, t.dayAlrm,
    t.monAlrm, t.century, t.iapcBootArch, t.reservedHigh, t.flags, t.resetReg.toRow,
    t.resetValue, t.armBootArch, t.minorRevision, t.xFirmwareCtrl, t.xDsdt, t.xPm1aEvtBlk.toRow,
    t.xPm1bEvtBlk.toRow, t.xPm1aCntBlk.toRow, t.xPm1bCntBlk.toRow, t.xPm2CntBlk.toRow,
    t.xPmTmrBlk.toRow, t.xGpe0Blk.toRow, t.xGpe1Blk.toRow, t.sleepControlReg.toRow,
    t.sleepStatusReg.toRow, t.hypervisorVendorIdentity, ())

/-- The table with given members. -/
def ofRow (row : layout.Row) : Fadt :=
  match row with
  | (header, firmwareCtrl, dsdt, reservedLow, preferredPmProfile, sciInt, smiCmd, acpiEnable,
      acpiDisable, s4biosReq, pstateCnt, pm1aEvtBlk, pm1bEvtBlk, pm1aCntBlk, pm1bCntBlk,
      pm2CntBlk, pmTmrBlk, gpe0Blk, gpe1Blk, pm1EvtLen, pm1CntLen, pm2CntLen, pmTmrLen,
      gpe0BlkLen, gpe1BlkLen, gpe1Base, cstCnt, pLvl2Lat, pLvl3Lat, flushSize, flushStride,
      dutyOffset, dutyWidth, dayAlrm, monAlrm, century, iapcBootArch, reservedHigh, flags,
      resetReg, resetValue, armBootArch, minorRevision, xFirmwareCtrl, xDsdt, xPm1aEvtBlk,
      xPm1bEvtBlk, xPm1aCntBlk, xPm1bCntBlk, xPm2CntBlk, xPmTmrBlk, xGpe0Blk, xGpe1Blk,
      sleepControlReg, sleepStatusReg, hypervisorVendorIdentity, ()) =>
    { header := .ofRow header, firmwareCtrl, dsdt, reservedLow, preferredPmProfile, sciInt,
      smiCmd, acpiEnable, acpiDisable, s4biosReq, pstateCnt, pm1aEvtBlk, pm1bEvtBlk, pm1aCntBlk,
      pm1bCntBlk, pm2CntBlk, pmTmrBlk, gpe0Blk, gpe1Blk, pm1EvtLen, pm1CntLen, pm2CntLen,
      pmTmrLen, gpe0BlkLen, gpe1BlkLen, gpe1Base, cstCnt, pLvl2Lat, pLvl3Lat, flushSize,
      flushStride, dutyOffset, dutyWidth, dayAlrm, monAlrm, century, iapcBootArch, reservedHigh,
      flags, resetReg := .ofRow resetReg, resetValue, armBootArch, minorRevision, xFirmwareCtrl,
      xDsdt, xPm1aEvtBlk := .ofRow xPm1aEvtBlk, xPm1bEvtBlk := .ofRow xPm1bEvtBlk,
      xPm1aCntBlk := .ofRow xPm1aCntBlk, xPm1bCntBlk := .ofRow xPm1bCntBlk,
      xPm2CntBlk := .ofRow xPm2CntBlk, xPmTmrBlk := .ofRow xPmTmrBlk,
      xGpe0Blk := .ofRow xGpe0Blk, xGpe1Blk := .ofRow xGpe1Blk,
      sleepControlReg := .ofRow sleepControlReg, sleepStatusReg := .ofRow sleepStatusReg,
      hypervisorVendorIdentity }

instance : Packed Fadt where
  layout := layout
  toRow := toRow
  ofRow := ofRow
  ofRow_toRow _ := rfl
  toRow_ofRow _ := rfl

/-- The signature of the table, `FACP`. -/
def signature : Block 4 := ⟨[0x46, 0x41, 0x43, 0x50], rfl⟩

/-- The revision of the structure, 6.5. -/
def revision : UInt8 × UInt8 := (6, 5)

/-- The table of a maker, of which only the header and the revision are set. -/
def blank (oemId : Block 6) (oemTableId : Block 8) (oemRevision : UInt32) : Fadt :=
  { (Packed.zero : Fadt) with
    header := .unsigned signature (UInt32.ofNat (Packed.size Fadt)) revision.1 oemId oemTableId
      oemRevision
    minorRevision := revision.2 }

end Fadt

end AcpiTables
