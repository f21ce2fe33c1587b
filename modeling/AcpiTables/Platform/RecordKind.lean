/-!
# Kinds of platform records

What a platform says about its fixed hardware comes in nine kinds of record. Each
kind fills one group of fields of the FADT.

The order of the constructors is the order in which the groups are filled, and in
which a configuration lists its records.
-/

namespace AcpiTables

/-- A kind of platform record. -/
inductive RecordKind where
  /-- The line of the system control interrupt (SCI). -/
  | sciInterrupt
  /-- The SMI command register and the values written to it. -/
  | sciCommand
  /-- The power management event, control and timer blocks. -/
  | pmBlock
  /-- The general purpose event blocks. -/
  | gpeBlock
  /-- The power management blocks as generic addresses. -/
  | extendedPmBlock
  /-- Latencies, cache flushing, duty cycle and clock fields. -/
  | misc
  /-- The general purpose event blocks as generic addresses. -/
  | extendedGpeBlock
  /-- The sleep control and status registers. -/
  | sleepBlock
  /-- The reset register and the value that resets. -/
  | resetBlock
deriving DecidableEq, Repr

namespace RecordKind

/-- Every kind, in order. -/
def all : List RecordKind :=
  [sciInterrupt, sciCommand, pmBlock, gpeBlock, extendedPmBlock, misc, extendedGpeBlock,
    sleepBlock, resetBlock]

theorem mem_all (kind : RecordKind) : kind ∈ all := by
  cases kind <;> decide

/-- The word for a kind in messages. -/
def text : RecordKind → String
  | sciInterrupt => "FadtSciInterrupt"
  | sciCommand => "FadtSciCmdInfo"
  | pmBlock => "FadtPmBlockInfo"
  | gpeBlock => "FadtGpeBlockInfo"
  | extendedPmBlock => "FadtXpmBlockInfo"
  | misc => "FadtMiscInfo"
  | extendedGpeBlock => "FadtXgpeBlockInfo"
  | sleepBlock => "FadtSleepBlockInfo"
  | resetBlock => "FadtResetBlockInfo"

/-- The key of a kind in a configuration. -/
def key : RecordKind → String
  | sciInterrupt => "sci_interrupt"
  | sciCommand => "sci_cmd_info"
  | pmBlock => "pm_block_info"
  | gpeBlock => "gpe_block_info"
  | extendedPmBlock => "x_pm_block_info"
  | misc => "misc_info"
  | extendedGpeBlock => "x_gpe_block_info"
  | sleepBlock => "sleep_block_info"
  | resetBlock => "reset_block_info"

/-- What a kind of record is about, as log records say it. -/
def subject : RecordKind → String
  | sciInterrupt => "SCI interrupt"
  | sciCommand => "SCI CMD"
  | pmBlock => "PM block"
  | gpeBlock => "GPE block"
  | extendedPmBlock => "64-bit PM block"
  | misc => "platform misc"
  | extendedGpeBlock => "64-bit GPE block"
  | sleepBlock => "sleep block"
  | resetBlock => "reset block"

end RecordKind

end AcpiTables
