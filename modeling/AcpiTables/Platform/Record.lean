import AcpiTables.Platform.RecordKind
import AcpiTables.Table.GenericAddress

/-!
# Platform records

The nine records of a platform, one structure for each kind. A record is packed: it
travels as its members side by side, in the order in which they stand here.

`AcpiTables.RecordKind.Record` is the type of the records of a kind, so that a
function over all kinds is written once.
-/

namespace AcpiTables

namespace Record

/-- The line of the system control interrupt. -/
structure SciInterrupt where
  /-- The interrupt number. -/
  sciInterrupt : UInt16
deriving DecidableEq, Repr

instance : Packed SciInterrupt where
  layout := .word "sci_interrupt" .word <| .done
  toRow r := (r.sciInterrupt, ())
  ofRow := fun (sciInterrupt, ()) => { sciInterrupt }
  ofRow_toRow _ := rfl
  toRow_ofRow _ := rfl

/-- The SMI command register and the values written to it. -/
structure SciCommand where
  /-- The I/O address of the SMI command register. -/
  sciCmd : UInt32
  /-- The command that hands the hardware to the system. -/
  acpiEnable : UInt8
  /-- The command that hands it back. -/
  acpiDisable : UInt8
  /-- The command that enters the S4 state by firmware. -/
  s4biosReq : UInt8
  /-- The command that takes over performance control. -/
  pstateCnt : UInt8
  /-- The command that takes over processor states. -/
  cstCnt : UInt8
deriving DecidableEq, Repr

instance : Packed SciCommand where
  layout :=
    .word "sci_cmd" .dword <| .word "acpi_enable" .byte <| .word "acpi_disable" .byte <|
    .word "s4bios_req" .byte <| .word "pstate_cnt" .byte <| .word "cst_cnt" .byte <| .done
  toRow r := (r.sciCmd, r.acpiEnable, r.acpiDisable, r.s4biosReq, r.pstateCnt, r.cstCnt, ())
  ofRow := fun
    | (sciCmd, acpiEnable, acpiDisable, s4biosReq, pstateCnt, cstCnt, ()) =>
      { sciCmd, acpiEnable, acpiDisable, s4biosReq, pstateCnt, cstCnt }
  ofRow_toRow _ := rfl
  toRow_ofRow _ := rfl

/-- The power management event, control and timer blocks. -/
structure PmBlock where
  /-- The I/O address of the event block PM1a. -/
  pm1aEvtBlk : UInt32
  /-- The I/O address of the event block PM1b. -/
  pm1bEvtBlk : UInt32
  /-- The I/O address of the control block PM1a. -/
  pm1aCntBlk : UInt32
  /-- The I/O address of the control block PM1b. -/
  pm1bCntBlk : UInt32
  /-- The I/O address of the control block PM2. -/
  pm2CntBlk : UInt32
  /-- The I/O address of the timer. -/
  pmTmrBlk : UInt32
  /-- The size of the event blocks PM1. -/
  pm1EvtLen : UInt8
  /-- The size of the control blocks PM1. -/
  pm1CntLen : UInt8
  /-- The size of the control block PM2. -/
  pm2CntLen : UInt8
  /-- The size of the timer. -/
  pmTmrLen : UInt8
deriving DecidableEq, Repr

instance : Packed PmBlock where
  layout :=
    .word "pm1a_evt_blk" .dword <| .word "pm1b_evt_blk" .dword <| .word "pm1a_cnt_blk" .dword <|
    .word "pm1b_cnt_blk" .dword <| .word "pm2_cnt_blk" .dword <| .word "pm_tmr_blk" .dword <|
    .word "pm1_evt_len" .byte <| .word "pm1_cnt_len" .byte <| .word "pm2_cnt_len" .byte <|
    .word "pm_tmr_len" .byte <| .done
  toRow r :=
    (r.pm1aEvtBlk, r.pm1bEvtBlk, r.pm1aCntBlk, r.pm1bCntBlk, r.pm2CntBlk, r.pmTmrBlk,
      r.pm1EvtLen, r.pm1CntLen, r.pm2CntLen, r.pmTmrLen, ())
  ofRow := fun
    | (pm1aEvtBlk, pm1bEvtBlk, pm1aCntBlk, pm1bCntBlk, pm2CntBlk, pmTmrBlk, pm1EvtLen, pm1CntLen,
        pm2CntLen, pmTmrLen, ()) =>
      { pm1aEvtBlk, pm1bEvtBlk, pm1aCntBlk, pm1bCntBlk, pm2CntBlk, pmTmrBlk, pm1EvtLen,
        pm1CntLen, pm2CntLen, pmTmrLen }
  ofRow_toRow _ := rfl
  toRow_ofRow _ := rfl

/-- The general purpose event blocks. -/
structure GpeBlock where
  /-- The I/O address of block 0. -/
  gpe0Blk : UInt32
  /-- The I/O address of block 1. -/
  gpe1Blk : UInt32
  /-- The size of block 0. -/
  gpe0BlkLen : UInt8
  /-- The size of block 1. -/
  gpe1BlkLen : UInt8
  /-- The first event of block 1. -/
  gpe1Base : UInt8
deriving DecidableEq, Repr

instance : Packed GpeBlock where
  layout :=
    .word "gpe0_blk" .dword <| .word "gpe1_blk" .dword <| .word "gpe0_blk_len" .byte <|
    .word "gpe1_blk_len" .byte <| .word "gpe1_base" .byte <| .done
  toRow r := (r.gpe0Blk, r.gpe1Blk, r.gpe0BlkLen, r.gpe1BlkLen, r.gpe1Base, ())
  ofRow := fun
    | (gpe0Blk, gpe1Blk, gpe0BlkLen, gpe1BlkLen, gpe1Base, ()) =>
      { gpe0Blk, gpe1Blk, gpe0BlkLen, gpe1BlkLen, gpe1Base }
  ofRow_toRow _ := rfl
  toRow_ofRow _ := rfl

/-- The power management blocks as generic addresses. -/
structure ExtendedPmBlock where
  /-- The event block PM1a. -/
  xPm1aEvtBlk : GenericAddress
  /-- The event block PM1b. -/
  xPm1bEvtBlk : GenericAddress
  /-- The control block PM1a. -/
  xPm1aCntBlk : GenericAddress
  /-- The control block PM1b. -/
  xPm1bCntBlk : GenericAddress
  /-- The control block PM2. -/
  xPm2CntBlk : GenericAddress
  /-- The timer. -/
  xPmTmrBlk : GenericAddress
deriving DecidableEq, Repr

instance : Packed ExtendedPmBlock where
  layout :=
    .group "x_pm1a_evt_blk" GenericAddress.layout <|
    .group "x_pm1b_evt_blk" GenericAddress.layout <|
    .group "x_pm1a_cnt_blk" GenericAddress.layout <|
    .group "x_pm1b_cnt_blk" GenericAddress.layout <|
    .group "x_pm2_cnt_blk" GenericAddress.layout <|
    .group "x_pm_tmr_blk" GenericAddress.layout <| .done
  toRow r :=
    (r.xPm1aEvtBlk.toRow, r.xPm1bEvtBlk.toRow, r.xPm1aCntBlk.toRow, r.xPm1bCntBlk.toRow,
      r.xPm2CntBlk.toRow, r.xPmTmrBlk.toRow, ())
  ofRow := fun
    | (xPm1aEvtBlk, xPm1bEvtBlk, xPm1aCntBlk, xPm1bCntBlk, xPm2CntBlk, xPmTmrBlk, ()) =>
      { xPm1aEvtBlk := .ofRow xPm1aEvtBlk, xPm1bEvtBlk := .ofRow xPm1bEvtBlk,
        xPm1aCntBlk := .ofRow xPm1aCntBlk, xPm1bCntBlk := .ofRow xPm1bCntBlk,
        xPm2CntBlk := .ofRow xPm2CntBlk, xPmTmrBlk := .ofRow xPmTmrBlk }
  ofRow_toRow _ := rfl
  toRow_ofRow _ := rfl

/-- Latencies, cache flushing, duty cycle and clock registers. -/
structure Misc where
  /-- The latency of the processor state C2. -/
  pLvl2Lat : UInt16
  /-- The latency of the processor state C3. -/
  pLvl3Lat : UInt16
  /-- How much is read to flush the caches. -/
  flushSize : UInt16
  /-- The step of that reading. -/
  flushStride : UInt16
  /-- The place of the duty cycle setting. -/
  dutyOffset : UInt8
  /-- The width of the duty cycle setting. -/
  dutyWidth : UInt8
  /-- The clock register of the alarm day. -/
  dayAlrm : UInt8
  /-- The clock register of the alarm month. -/
  monAlrm : UInt8
  /-- The clock register of the century. -/
  century : UInt8
deriving DecidableEq, Repr

instance : Packed Misc where
  layout :=
    .word "p_lvl2_lat" .word <| .word "p_lvl3_lat" .word <| .word "flush_size" .word <|
    .word "flush_stride" .word <| .word "duty_offset" .byte <| .word "duty_width" .byte <|
    .word "day_alrm" .byte <| .word "mon_alrm" .byte <| .word "century" .byte <| .done
  toRow r :=
    (r.pLvl2Lat, r.pLvl3Lat, r.flushSize, r.flushStride, r.dutyOffset, r.dutyWidth, r.dayAlrm,
      r.monAlrm, r.century, ())
  ofRow := fun
    | (pLvl2Lat, pLvl3Lat, flushSize, flushStride, dutyOffset, dutyWidth, dayAlrm, monAlrm,
        century, ()) =>
      { pLvl2Lat, pLvl3Lat, flushSize, flushStride, dutyOffset, dutyWidth, dayAlrm, monAlrm,
        century }
  ofRow_toRow _ := rfl
  toRow_ofRow _ := rfl

/-- The general purpose event blocks as generic addresses. -/
structure ExtendedGpeBlock where
  /-- Block 0. -/
  xGpe0Blk : GenericAddress
  /-- Block 1. -/
  xGpe1Blk : GenericAddress
deriving DecidableEq, Repr

instance : Packed ExtendedGpeBlock where
  layout :=
    .group "x_gpe0_blk" GenericAddress.layout <| .group "x_gpe1_blk" GenericAddress.layout <|
    .done
  toRow r := (r.xGpe0Blk.toRow, r.xGpe1Blk.toRow, ())
  ofRow := fun
    | (xGpe0Blk, xGpe1Blk, ()) =>
      { xGpe0Blk := .ofRow xGpe0Blk, xGpe1Blk := .ofRow xGpe1Blk }
  ofRow_toRow _ := rfl
  toRow_ofRow _ := rfl

/-- The sleep registers. -/
structure SleepBlock where
  /-- The control register. -/
  sleepControlReg : GenericAddress
  /-- The status register. -/
  sleepStatusReg : GenericAddress
deriving DecidableEq, Repr

instance : Packed SleepBlock where
  layout :=
    .group "sleep_control_reg" GenericAddress.layout <|
    .group "sleep_status_reg" GenericAddress.layout <| .done
  toRow r := (r.sleepControlReg.toRow, r.sleepStatusReg.toRow, ())
  ofRow := fun
    | (sleepControlReg, sleepStatusReg, ()) =>
      { sleepControlReg := .ofRow sleepControlReg, sleepStatusReg := .ofRow sleepStatusReg }
  ofRow_toRow _ := rfl
  toRow_ofRow _ := rfl

/-- The reset register. -/
structure ResetBlock where
  /-- The register. -/
  resetReg : GenericAddress
  /-- The value that resets. -/
  resetValue : UInt8
deriving DecidableEq, Repr

instance : Packed ResetBlock where
  layout := .group "reset_reg" GenericAddress.layout <| .word "reset_value" .byte <| .done
  toRow r := (r.resetReg.toRow, r.resetValue, ())
  ofRow := fun (resetReg, resetValue, ()) => { resetReg := .ofRow resetReg, resetValue }
  ofRow_toRow _ := rfl
  toRow_ofRow _ := rfl

end Record

namespace RecordKind

/-- The records of a kind. -/
@[reducible] def Record : RecordKind → Type
  | sciInterrupt => AcpiTables.Record.SciInterrupt
  | sciCommand => AcpiTables.Record.SciCommand
  | pmBlock => AcpiTables.Record.PmBlock
  | gpeBlock => AcpiTables.Record.GpeBlock
  | extendedPmBlock => AcpiTables.Record.ExtendedPmBlock
  | misc => AcpiTables.Record.Misc
  | extendedGpeBlock => AcpiTables.Record.ExtendedGpeBlock
  | sleepBlock => AcpiTables.Record.SleepBlock
  | resetBlock => AcpiTables.Record.ResetBlock

instance (kind : RecordKind) : Packed kind.Record :=
  match kind with
  | sciInterrupt => inferInstanceAs (Packed AcpiTables.Record.SciInterrupt)
  | sciCommand => inferInstanceAs (Packed AcpiTables.Record.SciCommand)
  | pmBlock => inferInstanceAs (Packed AcpiTables.Record.PmBlock)
  | gpeBlock => inferInstanceAs (Packed AcpiTables.Record.GpeBlock)
  | extendedPmBlock => inferInstanceAs (Packed AcpiTables.Record.ExtendedPmBlock)
  | misc => inferInstanceAs (Packed AcpiTables.Record.Misc)
  | extendedGpeBlock => inferInstanceAs (Packed AcpiTables.Record.ExtendedGpeBlock)
  | sleepBlock => inferInstanceAs (Packed AcpiTables.Record.SleepBlock)
  | resetBlock => inferInstanceAs (Packed AcpiTables.Record.ResetBlock)

end RecordKind

end AcpiTables
