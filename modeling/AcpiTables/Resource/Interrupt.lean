import AcpiTables.Resource.Header

/-!
# Extended interrupt descriptors

A device says which interrupts it uses, or passes on, by an extended interrupt
descriptor: how the interrupts are signalled, four choices of two that become four bits
of a flags byte, and a table of 1 to 255 interrupt numbers in the order in which they
were given.

`AcpiTables.Resource.Interrupt.encode` and `AcpiTables.Resource.Interrupt.decode`
are the two directions. Decoding does not look at the four upper bits of the flags.
-/

namespace AcpiTables.Resource

/-! ### How an interrupt is signalled -/

/-- Whether the device uses the interrupt or provides it to a child. -/
inductive Usage where
  /-- The device provides the interrupt. -/
  | producer
  /-- The device uses the interrupt. -/
  | consumer
deriving DecidableEq, Repr

/-- What triggers the interrupt. -/
inductive Trigger where
  /-- The level of the line. -/
  | level
  /-- A change of the line. -/
  | edge
deriving DecidableEq, Repr

/-- Which state of the line is active. -/
inductive Polarity where
  /-- The high state. -/
  | high
  /-- The low state. -/
  | low
deriving DecidableEq, Repr

/-- Whether other devices may use the interrupt too. -/
inductive Sharing where
  /-- No other device uses it. -/
  | exclusive
  /-- Other devices may use it. -/
  | shared
deriving DecidableEq, Repr

/-- How the interrupts of a descriptor are signalled. -/
structure Signalling where
  /-- Use or provision. -/
  usage : Usage
  /-- Level or edge. -/
  trigger : Trigger
  /-- High or low. -/
  polarity : Polarity
  /-- Exclusive or shared. -/
  sharing : Sharing
deriving DecidableEq, Repr

/-- The flags byte: one bit for each choice, the lowest for the usage. -/
def Signalling.flags (s : Signalling) : UInt8 :=
  (if s.usage = .consumer then 1 else 0) + (if s.trigger = .edge then 2 else 0) +
    (if s.polarity = .low then 4 else 0) + (if s.sharing = .shared then 8 else 0)

/-- The choices that a flags byte stands for. -/
def Signalling.ofFlags (flags : UInt8) : Signalling where
  usage := if flags % 2 = 1 then .consumer else .producer
  trigger := if flags / 2 % 2 = 1 then .edge else .level
  polarity := if flags / 4 % 2 = 1 then .low else .high
  sharing := if flags / 8 % 2 = 1 then .shared else .exclusive

/-! ### Descriptors -/

/-- The most interrupts that one descriptor can list. -/
def maxInterrupts : Nat := 255

/-- An extended interrupt descriptor. -/
structure Interrupt where
  /-- How the interrupts are signalled. -/
  signalling : Signalling
  /-- The interrupt numbers, in order. -/
  numbers : List UInt32
  /-- There is an interrupt. -/
  numbers_ne_nil : numbers ≠ []
  /-- There are no more interrupts than the descriptor can count. -/
  length_le : numbers.length ≤ maxInterrupts
deriving DecidableEq, Repr

namespace Interrupt

/-- The descriptor of a list of interrupts, if it can list them. -/
def ofNumbers (signalling : Signalling) (numbers : List UInt32) : Except Error Interrupt :=
  if h : numbers ≠ [] ∧ numbers.length ≤ maxInterrupts then
    .ok ⟨signalling, numbers, h.1, h.2⟩
  else
    .error (.argument (.interruptCount numbers.length))

/-- The bytes of a descriptor: tag, size of the body, flags, count and table. -/
def encode (i : Interrupt) : Bytes :=
  0x89 :: (Bytes.ofNatLE 2 (2 + 4 * i.numbers.length) ++
    i.signalling.flags :: UInt8.ofNat i.numbers.length ::
      i.numbers.flatMap fun n => Bytes.ofNatLE 4 n.toNat)

/-- The interrupt numbers that a table of `count` entries holds. -/
def decodeTable (count : Nat) (table : Bytes) : List UInt32 :=
  (Bytes.chunks 4 count table).map fun entry => UInt32.ofNat (Bytes.toNatLE entry)

/-- Reads the body of a descriptor: flags, count and table. -/
def decodeBody (body : Bytes) : Except Error Interrupt :=
  match body with
  | flags :: count :: table =>
    if table.length ≠ count.toNat * 4 then
      .error (.argument (.interruptTable count.toNat table.length))
    else
      ofNumbers (Signalling.ofFlags flags) (decodeTable count.toNat table)
  | _ => .error (.argument .interruptBody)

/-- Reads a descriptor. -/
def decode (bytes : Bytes) : Except Error Interrupt := do
  let header ← checkDescriptor bytes
  if header.isInterrupt then decodeBody (bytes.drop header.size)
  else .error (.argument (.notInterrupt (bytes.headD 0)))

/-- The bytes of the descriptor of a list of interrupts whose number is announced
apart. -/
def encodeCounted (signalling : Signalling) (numbers : List UInt32) (count : UInt8) :
    Except Error Bytes :=
  if numbers.isEmpty ∨ numbers.length ≠ count.toNat then
    .error (.argument (.interruptMismatch count.toNat numbers.length))
  else
    encode <$> ofNumbers signalling numbers

end Interrupt

end AcpiTables.Resource
