import AcpiTables.Proofs.Packed
import AcpiTables.Platform.Record
import AcpiTables.Table.Fadt

/-!
# Members in their order

A packed structure is given by a layout, from which its bytes come. This file says what the bytes
are without layouts: for each type the members are listed, in the order in which the type declares
them, and a value is its members one after the other, each word lowest byte first
(`AcpiTables.PlainType.isPlain`). So nothing stands between the members, and the reserved bytes of
the FADT are among them.

The one thing to know is that a type is plain as soon as its members are given and counted
(`AcpiTables.IsPlain.of_members`): that what is read is what was written, of one value and of many,
and that single bytes may be changed, holds of every layout.
-/

namespace AcpiTables

/-! ### Plain types -/

/-- **A plain type**: its values are strings of `count` bytes, those of the `members` of the value
one after the other. -/
structure IsPlain (α : Type) [Packed α] (count : Nat) (members : α → List Bytes) : Prop where
  /-- The bytes of a value are those of its members. -/
  encode_eq : ∀ a : α, Packed.encode a = (members a).flatten
  /-- Every value has the same number of bytes. -/
  length_encode : ∀ a : α, (Packed.encode a).length = count
  /-- Only a short string is not read. -/
  ofBytes?_eq_none_iff : ∀ bs, Packed.ofBytes? (α := α) bs = none ↔ bs.length < count
  /-- What is read is what stands at the front. -/
  encode_of_ofBytes? : ∀ bs (a : α), Packed.ofBytes? bs = some a → Packed.encode a = bs.take count
  /-- What was written is read, whatever follows. -/
  ofBytes?_encode_append : ∀ (a : α) rest, Packed.ofBytes? (Packed.encode a ++ rest) = some a
  /-- Many values are read of a string that divides into them. -/
  manyOfBytes?_isSome_iff : ∀ bs, (Packed.manyOfBytes? (α := α) bs).isSome ↔ count ∣ bs.length
  /-- These are the values that were written side by side. -/
  manyOfBytes?_eq_some_iff : ∀ bs (values : List α),
    Packed.manyOfBytes? bs = some values ↔ values.flatMap Packed.encode = bs
  /-- Bytes may be changed in place, one after the other. -/
  encode_patch : ∀ edits (a : α), Packed.encode (Packed.patch edits a) =
    edits.foldl (fun bs edit => bs.set edit.1 edit.2) (Packed.encode a)
  /-- A value is its bytes. -/
  encode_injective : Function.Injective (Packed.encode : α → Bytes)

/-- A type is plain if its members are given and counted. -/
theorem IsPlain.of_members {α : Type} [Packed α] {count : Nat} {members : α → List Bytes}
    (hcount : Packed.size α = count) (hpos : 0 < count)
    (hmembers : ∀ a : α, Packed.encode a = (members a).flatten) : IsPlain α count members := by
  subst hcount
  exact
    { encode_eq := hmembers
      length_encode := Packed.length_encode
      ofBytes?_eq_none_iff := fun _ => Packed.ofBytes?_eq_none_iff
      encode_of_ofBytes? := fun _ _ => Packed.encode_of_ofBytes?
      ofBytes?_encode_append := Packed.ofBytes?_encode_append
      manyOfBytes?_isSome_iff := fun _ => Packed.manyOfBytes?_isSome_iff hpos
      manyOfBytes?_eq_some_iff := fun _ _ => Packed.manyOfBytes?_eq_some_iff hpos
      encode_patch := Packed.encode_patch
      encode_injective := Packed.encode_injective }

/-! ### Words -/

/-- The bytes of a word, the lowest first. -/
def Width.bytes (w : Width) (v : w.Value) : Bytes :=
  (List.range w.size).map fun place => UInt8.ofNat (w.toNat v / Bytes.capacity place)

theorem Bytes.ofNatLE_eq_map (count n : Nat) : ofNatLE count n =
    (List.range count).map fun place => UInt8.ofNat (n / capacity place) := by
  induction count generalizing n with
  | zero => rfl
  | succ count ih =>
    rw [ofNatLE, ih, List.range_succ_eq_map, List.map_cons, List.map_map, capacity, Nat.div_one]
    refine congrArg _ (List.map_congr_left fun place _ => ?_)
    rw [Function.comp_apply, capacity, Nat.div_div_eq_div_mul]

theorem Width.bytes_eq (w : Width) (v : w.Value) :
    w.bytes v = Bytes.ofNatLE w.size (w.toNat v) := (Bytes.ofNatLE_eq_map _ _).symm

instance (w : Width) : Packed w.Value :=
  match w with
  | .byte => inferInstanceAs (Packed UInt8)
  | .word => inferInstanceAs (Packed UInt16)
  | .dword => inferInstanceAs (Packed UInt32)
  | .qword => inferInstanceAs (Packed UInt64)

/-! ### Members -/

namespace Members

open Width

/-- The members of a generic address. -/
def address (a : GenericAddress) : List Bytes :=
  [bytes byte a.spaceId, bytes byte a.bitWidth, bytes byte a.bitOffset, bytes byte a.accessSize,
    bytes qword a.address]

/-- The members of a table header. -/
def header (h : TableHeader) : List Bytes :=
  [h.signature.bytes, bytes dword h.length, bytes byte h.revision, bytes byte h.checksum,
    h.oemId.bytes, h.oemTableId.bytes, bytes dword h.oemRevision, h.aslCompilerId.bytes,
    bytes dword h.aslCompilerRevision]

/-- The members of the FADT. -/
def table (t : Fadt) : List Bytes :=
  [(header t.header).flatten, bytes dword t.firmwareCtrl, bytes dword t.dsdt,
    bytes byte t.reservedLow, bytes byte t.preferredPmProfile, bytes word t.sciInt,
    bytes dword t.smiCmd, bytes byte t.acpiEnable, bytes byte t.acpiDisable,
    bytes byte t.s4biosReq, bytes byte t.pstateCnt, bytes dword t.pm1aEvtBlk,
    bytes dword t.pm1bEvtBlk, bytes dword t.pm1aCntBlk, bytes dword t.pm1bCntBlk,
    bytes dword t.pm2CntBlk, bytes dword t.pmTmrBlk, bytes dword t.gpe0Blk, bytes dword t.gpe1Blk,
    bytes byte t.pm1EvtLen, bytes byte t.pm1CntLen, bytes byte t.pm2CntLen, bytes byte t.pmTmrLen,
    bytes byte t.gpe0BlkLen, bytes byte t.gpe1BlkLen, bytes byte t.gpe1Base, bytes byte t.cstCnt,
    bytes word t.pLvl2Lat, bytes word t.pLvl3Lat, bytes word t.flushSize, bytes word t.flushStride,
    bytes byte t.dutyOffset, bytes byte t.dutyWidth, bytes byte t.dayAlrm, bytes byte t.monAlrm,
    bytes byte t.century, bytes word t.iapcBootArch, bytes byte t.reservedHigh,
    bytes dword t.flags, (address t.resetReg).flatten, bytes byte t.resetValue,
    bytes word t.armBootArch, bytes byte t.minorRevision, bytes qword t.xFirmwareCtrl,
    bytes qword t.xDsdt, (address t.xPm1aEvtBlk).flatten, (address t.xPm1bEvtBlk).flatten,
    (address t.xPm1aCntBlk).flatten, (address t.xPm1bCntBlk).flatten,
    (address t.xPm2CntBlk).flatten, (address t.xPmTmrBlk).flatten, (address t.xGpe0Blk).flatten,
    (address t.xGpe1Blk).flatten, (address t.sleepControlReg).flatten,
    (address t.sleepStatusReg).flatten, bytes qword t.hypervisorVendorIdentity]

/-- The members of a record. -/
def record : (kind : RecordKind) → kind.Record → List Bytes
  | .sciInterrupt, r => [bytes word r.sciInterrupt]
  | .sciCommand, r =>
    [bytes dword r.sciCmd, bytes byte r.acpiEnable, bytes byte r.acpiDisable,
      bytes byte r.s4biosReq, bytes byte r.pstateCnt, bytes byte r.cstCnt]
  | .pmBlock, r =>
    [bytes dword r.pm1aEvtBlk, bytes dword r.pm1bEvtBlk, bytes dword r.pm1aCntBlk,
      bytes dword r.pm1bCntBlk, bytes dword r.pm2CntBlk, bytes dword r.pmTmrBlk,
      bytes byte r.pm1EvtLen, bytes byte r.pm1CntLen, bytes byte r.pm2CntLen,
      bytes byte r.pmTmrLen]
  | .gpeBlock, r =>
    [bytes dword r.gpe0Blk, bytes dword r.gpe1Blk, bytes byte r.gpe0BlkLen,
      bytes byte r.gpe1BlkLen, bytes byte r.gpe1Base]
  | .extendedPmBlock, r =>
    [(address r.xPm1aEvtBlk).flatten, (address r.xPm1bEvtBlk).flatten,
      (address r.xPm1aCntBlk).flatten, (address r.xPm1bCntBlk).flatten,
      (address r.xPm2CntBlk).flatten, (address r.xPmTmrBlk).flatten]
  | .misc, r =>
    [bytes word r.pLvl2Lat, bytes word r.pLvl3Lat, bytes word r.flushSize,
      bytes word r.flushStride, bytes byte r.dutyOffset, bytes byte r.dutyWidth,
      bytes byte r.dayAlrm, bytes byte r.monAlrm, bytes byte r.century]
  | .extendedGpeBlock, r => [(address r.xGpe0Blk).flatten, (address r.xGpe1Blk).flatten]
  | .sleepBlock, r => [(address r.sleepControlReg).flatten, (address r.sleepStatusReg).flatten]
  | .resetBlock, r => [(address r.resetReg).flatten, bytes byte r.resetValue]

theorem flatten_address (a : GenericAddress) :
    (address a).flatten = GenericAddress.layout.encode a.toRow := by
  simp only [address, bytes_eq]
  rfl

theorem flatten_header (h : TableHeader) :
    (header h).flatten = TableHeader.layout.encode h.toRow := by
  simp only [header, bytes_eq]
  rfl

theorem encode_table (t : Fadt) : Packed.encode t = (table t).flatten := by
  simp only [table, flatten_address, flatten_header, bytes_eq]
  rfl

theorem encode_record (kind : RecordKind) (r : kind.Record) :
    Packed.encode r = (record kind r).flatten := by
  cases kind <;> simp only [record, flatten_address, bytes_eq] <;> rfl

end Members

/-! ### All plain types -/

/-- The types of this library that are packed. -/
inductive PlainType where
  /-- A word. -/
  | word (w : Width)
  /-- A generic address. -/
  | address
  /-- A table header. -/
  | header
  /-- The FADT. -/
  | table
  /-- The records of a kind. -/
  | record (kind : RecordKind)
deriving DecidableEq, Repr

namespace PlainType

/-- The values of a plain type. -/
@[reducible] def Value : PlainType → Type
  | word w => w.Value
  | address => GenericAddress
  | header => TableHeader
  | table => Fadt
  | record kind => kind.Record

instance (type : PlainType) : Packed type.Value :=
  match type with
  | word w => inferInstanceAs (Packed w.Value)
  | address => inferInstanceAs (Packed GenericAddress)
  | header => inferInstanceAs (Packed TableHeader)
  | table => inferInstanceAs (Packed Fadt)
  | record kind => inferInstanceAs (Packed kind.Record)

/-- How many bytes the values of a plain type have. -/
def count : PlainType → Nat
  | word .byte => 1
  | word .word => 2
  | word .dword => 4
  | word .qword => 8
  | address => 12
  | header => 36
  | table => 276
  | record .sciInterrupt => 2
  | record .sciCommand => 9
  | record .pmBlock => 28
  | record .gpeBlock => 11
  | record .extendedPmBlock => 72
  | record .misc => 13
  | record .extendedGpeBlock => 24
  | record .sleepBlock => 24
  | record .resetBlock => 13

/-- The members of a value, in the order in which its type declares them. -/
def members : (type : PlainType) → type.Value → List Bytes
  | word w, v => [w.bytes v]
  | address, a => Members.address a
  | header, h => Members.header h
  | table, t => Members.table t
  | record kind, r => Members.record kind r

theorem size_eq_count (type : PlainType) : Packed.size type.Value = type.count := by
  match type with
  | word w => cases w <;> rfl
  | address | header | table => rfl
  | record kind => cases kind <;> rfl

theorem count_pos (type : PlainType) : 0 < type.count := by
  match type with
  | word w => cases w <;> decide
  | address | header | table => decide
  | record kind => cases kind <;> decide

theorem encode_eq_members (type : PlainType) (v : type.Value) :
    Packed.encode v = (type.members v).flatten := by
  match type with
  | word w =>
    rw [members, Width.bytes_eq]
    cases w <;> rfl
  | address => exact (Members.flatten_address v).symm
  | header => exact (Members.flatten_header v).symm
  | table => exact Members.encode_table v
  | record kind => exact Members.encode_record kind v

/-- **Every packed type is plain**, with the members and the number of bytes that are listed
here. -/
theorem isPlain (type : PlainType) : IsPlain type.Value type.count type.members :=
  .of_members type.size_eq_count type.count_pos type.encode_eq_members

/-- The highest byte of a dword is changed, and three words are read. -/
theorem isPlain_dword :
    Packed.encode (Packed.patch [(3, 0x99)] (0x12345678 : UInt32)) = [0x78, 0x56, 0x34, 0x99] ∧
      Packed.manyOfBytes? [0x01, 0x00, 0x02, 0x00, 0x03, 0x00] = some [(1 : UInt16), 2, 3] :=
  ⟨(isPlain (.word .dword)).encode_patch [(3, 0x99)] (0x12345678 : UInt32),
    ((isPlain (.word .word)).manyOfBytes?_eq_some_iff _ [(1 : UInt16), 2, 3]).mpr (by decide)⟩

end PlainType

end AcpiTables
