import AcpiTables.Log.Entry
import AcpiTables.Platform.Provider
import AcpiTables.Table.Fadt

/-!
# Filling the FADT

Each kind of record fills its own group of members of the FADT, and no member belongs
to two groups. The kinds are asked for one by one. A kind that cannot be had is told in
the log and leaves its group as it was; the other groups are filled all the same.
-/

namespace AcpiTables.Fadt

/-- The table with the group of a kind taken from a record. -/
def fill (table : Fadt) : (kind : RecordKind) → kind.Record → Fadt
  | .sciInterrupt, (r : Record.SciInterrupt) => { table with sciInt := r.sciInterrupt }
  | .sciCommand, (r : Record.SciCommand) =>
    { table with
      smiCmd := r.sciCmd
      acpiEnable := r.acpiEnable
      acpiDisable := r.acpiDisable
      s4biosReq := r.s4biosReq
      pstateCnt := r.pstateCnt
      cstCnt := r.cstCnt }
  | .pmBlock, (r : Record.PmBlock) =>
    { table with
      pm1aEvtBlk := r.pm1aEvtBlk
      pm1bEvtBlk := r.pm1bEvtBlk
      pm1aCntBlk := r.pm1aCntBlk
      pm1bCntBlk := r.pm1bCntBlk
      pm2CntBlk := r.pm2CntBlk
      pmTmrBlk := r.pmTmrBlk
      pm1EvtLen := r.pm1EvtLen
      pm1CntLen := r.pm1CntLen
      pm2CntLen := r.pm2CntLen
      pmTmrLen := r.pmTmrLen }
  | .gpeBlock, (r : Record.GpeBlock) =>
    { table with
      gpe0Blk := r.gpe0Blk
      gpe1Blk := r.gpe1Blk
      gpe0BlkLen := r.gpe0BlkLen
      gpe1BlkLen := r.gpe1BlkLen
      gpe1Base := r.gpe1Base }
  | .extendedPmBlock, (r : Record.ExtendedPmBlock) =>
    { table with
      xPm1aEvtBlk := r.xPm1aEvtBlk
      xPm1bEvtBlk := r.xPm1bEvtBlk
      xPm1aCntBlk := r.xPm1aCntBlk
      xPm1bCntBlk := r.xPm1bCntBlk
      xPm2CntBlk := r.xPm2CntBlk
      xPmTmrBlk := r.xPmTmrBlk }
  | .misc, (r : Record.Misc) =>
    { table with
      pLvl2Lat := r.pLvl2Lat
      pLvl3Lat := r.pLvl3Lat
      flushSize := r.flushSize
      flushStride := r.flushStride
      dutyOffset := r.dutyOffset
      dutyWidth := r.dutyWidth
      dayAlrm := r.dayAlrm
      monAlrm := r.monAlrm
      century := r.century }
  | .extendedGpeBlock, (r : Record.ExtendedGpeBlock) =>
    { table with xGpe0Blk := r.xGpe0Blk, xGpe1Blk := r.xGpe1Blk }
  | .sleepBlock, (r : Record.SleepBlock) =>
    { table with sleepControlReg := r.sleepControlReg, sleepStatusReg := r.sleepStatusReg }
  | .resetBlock, (r : Record.ResetBlock) =>
    { table with resetReg := r.resetReg, resetValue := r.resetValue }

/-- The table with the group of a kind taken from what a provider answers, and what is
told if there is no record. -/
def fillFrom (provider : Provider) (kind : RecordKind) (table : Fadt) :
    Fadt × List Log.Entry :=
  match provider.record kind Provider.platformToken with
  | .ok record => (table.fill kind record, [])
  | .error e =>
    (table,
      [⟨.error, "FADT: Failed to get " ++ kind.subject ++ " information: " ++ e.message⟩])

/-- The mark of this library as the program that wrote a table, `DYNT`. -/
def generatorId : Block 4 := ⟨[0x44, 0x59, 0x4E, 0x54], rfl⟩

/-- The table with all groups taken from what a provider answers, in the order of the
kinds, and what is told on the way. -/
def populate (provider : Provider) (table : Fadt) : Fadt × List Log.Entry :=
  let (table, log) := RecordKind.all.foldl
    (fun (table, log) kind =>
      let (table, more) := fillFrom provider kind table
      (table, log ++ more))
    (table, [])
  ({ table with header := { table.header with aslCompilerId := generatorId } }, log)

end AcpiTables.Fadt
