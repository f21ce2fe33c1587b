import AcpiTables.Proofs.Aml.Spelling
import AcpiTables.Proofs.Declaring
import Mathlib.Algebra.Group.Nat.Defs

/-!
# Hardware identifiers survive

A hardware identifier is a text of one of two forms, and what is generated for it tells it again.
An ACPI identifier is kept as a string. A PNP identifier becomes a number of 31 bits, and
`AcpiTables.HardwareId.expand` finds its letters and digits there
(`AcpiTables.HardwareId.PnpChars.expand_compress`).

The checks may go by bytes, and so may the compression, which then shifts the parts of an
identifier into their places (`AcpiTables.HardwareId.compressWord`). Both are only right together.
The one thing to know is what the checks give: a byte that passes is one ASCII character, a letter
is above 64 by at most 26, and a digit is below 16. So nothing is subtracted from less, no part
reaches into the next one, and shifting them together adds them
(`AcpiTables.HardwareId.PnpChars.toNat_compressWord`).

| result | theorem |
|---|---|
| checks of bytes are checks of characters | `AcpiTables.HardwareId.hasFormBytes_iff` |
| machine words compress as numbers do | `AcpiTables.HardwareId.PnpChars.toNat_compressWord` |
| what is compressed can be expanded | `AcpiTables.HardwareId.PnpChars.expand_compress` |
| what is declared for an identifier | `AcpiTables.Assembly.declaresHardwareId_run` |
-/

namespace AcpiTables

/-- The number whose bytes, most significant first, are the given ones. -/
def Bytes.toNatBE (bytes : Bytes) : Nat := toNatLE bytes.reverse

theorem Bytes.toNatBE_ofNatBE (count n : Nat) : toNatBE (ofNatBE count n) = n % capacity count := by
  rw [toNatBE, ofNatBE, List.reverse_reverse, toNatLE_ofNatLE]

namespace HardwareId

/-! ### The two forms -/

/-- A letter `A` to `Z`. -/
def IsLetter (c : Char) : Prop := 'A' ≤ c ∧ c ≤ 'Z'

/-- A digit `0` to `9`. -/
def IsDigit (c : Char) : Prop := '0' ≤ c ∧ c ≤ '9'

/-- A digit `0` to `9` or `A` to `F`. -/
def IsHexDigit (c : Char) : Prop := IsDigit c ∨ 'A' ≤ c ∧ c ≤ 'F'

/-- A number of characters of one kind, and four hexadecimal digits. -/
def HasForm (count : Nat) (IsFront : Char → Prop) (id : String) : Prop :=
  ∃ front back : List Char, id.toList = front ++ back ∧ front.length = count ∧
    (∀ c ∈ front, IsFront c) ∧ back.length = 4 ∧ ∀ c ∈ back, IsHexDigit c

/-- **A PNP identifier**: three letters and four hexadecimal digits. -/
def IsPnpId : String → Prop := HasForm 3 IsLetter

/-- **An ACPI identifier**: four letters or digits and four hexadecimal digits. -/
def IsAcpiId : String → Prop := HasForm 4 fun c => IsLetter c ∨ IsDigit c

variable {c : Char} {id : String}

theorem IsLetter.toNat_mem (hc : IsLetter c) : 65 ≤ c.toNat ∧ c.toNat ≤ 90 := hc

theorem IsDigit.toNat_mem (hc : IsDigit c) : 48 ≤ c.toNat ∧ c.toNat ≤ 57 := hc

theorem IsHexDigit.toNat_mem (hc : IsHexDigit c) :
    48 ≤ c.toNat ∧ c.toNat ≤ 57 ∨ 65 ≤ c.toNat ∧ c.toNat ≤ 70 := hc

theorem isCapital_iff : isCapital c = true ↔ IsLetter c := by
  rw [isCapital, Bool.and_eq_true, decide_eq_true_eq, decide_eq_true_eq, IsLetter]

theorem isDecimal_iff : isDecimal c = true ↔ IsDigit c := by
  rw [isDecimal, Bool.and_eq_true, decide_eq_true_eq, decide_eq_true_eq, IsDigit]

theorem isHex_iff : isHex c = true ↔ IsHexDigit c := by
  rw [isHex, Bool.or_eq_true, isDecimal_iff, Bool.and_eq_true, decide_eq_true_eq,
    decide_eq_true_eq, IsHexDigit]

/-- A form is checked by cutting the text. -/
theorem hasForm_iff (count : Nat) {isFront isBack : Char → Bool} {IsFront : Char → Prop}
    (hfront : ∀ c ∈ id.toList, isFront c = true ↔ IsFront c)
    (hback : ∀ c ∈ id.toList, isBack c = true ↔ IsHexDigit c) :
    (id.toList.length == count + 4 && (id.toList.take count).all isFront &&
      (id.toList.drop count).all isBack) = true ↔ HasForm count IsFront id := by
  simp only [Bool.and_eq_true, beq_iff_eq, List.all_eq_true]
  constructor
  · rintro ⟨⟨hlength, hall⟩, hall'⟩
    refine ⟨_, _, (List.take_append_drop count id.toList).symm, ?_, fun c hc => ?_, ?_,
      fun c hc => ?_⟩
    · rw [List.length_take]
      omega
    · exact (hfront c (List.mem_of_mem_take hc)).mp (hall c hc)
    · rw [List.length_drop]
      omega
    · exact (hback c (List.mem_of_mem_drop hc)).mp (hall' c hc)
  · rintro ⟨front, back, hid, rfl, hall, hfour, hall'⟩
    rw [hid] at hfront hback ⊢
    rw [List.take_left, List.drop_left, List.length_append, hfour]
    refine ⟨⟨rfl, fun c hc => ?_⟩, fun c hc => ?_⟩
    · exact (hfront c (List.mem_append_left back hc)).mpr (hall c hc)
    · exact (hback c (List.mem_append_right front hc)).mpr (hall' c hc)

theorem isPnp_iff : isPnp id = true ↔ IsPnpId id :=
  hasForm_iff 3 (fun _ _ => isCapital_iff) fun _ _ => isHex_iff

theorem isAcpi_iff : isAcpi id = true ↔ IsAcpiId id :=
  hasForm_iff 4
    (fun _ _ => Bool.or_eq_true_iff.trans (or_congr isCapital_iff isDecimal_iff))
    fun _ _ => isHex_iff

/-! ### Checks of bytes -/

/-- The byte of a letter. -/
def isLetterByte (b : UInt8) : Bool := 0x41 ≤ b && b ≤ 0x5A

/-- The byte of a digit. -/
def isDigitByte (b : UInt8) : Bool := 0x30 ≤ b && b ≤ 0x39

/-- The byte of a hexadecimal digit. -/
def isHexByte (b : UInt8) : Bool := isDigitByte b || (0x41 ≤ b && b ≤ 0x46)

/-- Whether a byte string has as many bytes as a form asks for, each in its range. -/
def hasFormBytes (count : Nat) (isFront : UInt8 → Bool) (bytes : Bytes) : Bool :=
  bytes.length == count + 4 && (bytes.take count).all isFront && (bytes.drop count).all isHexByte

theorem isLetterByte_iff {b : UInt8} :
    isLetterByte b = true ↔ 65 ≤ b.toNat ∧ b.toNat ≤ 90 := by
  rw [isLetterByte, Bool.and_eq_true, decide_eq_true_eq, decide_eq_true_eq]
  rfl

theorem isDigitByte_iff {b : UInt8} :
    isDigitByte b = true ↔ 48 ≤ b.toNat ∧ b.toNat ≤ 57 := by
  rw [isDigitByte, Bool.and_eq_true, decide_eq_true_eq, decide_eq_true_eq]
  rfl

theorem isHexByte_iff {b : UInt8} : isHexByte b = true ↔
    48 ≤ b.toNat ∧ b.toNat ≤ 57 ∨ 65 ≤ b.toNat ∧ b.toNat ≤ 70 := by
  rw [isHexByte, Bool.or_eq_true, isDigitByte_iff, Bool.and_eq_true, decide_eq_true_eq,
    decide_eq_true_eq]
  rfl

/-- An ASCII character is its byte. -/
theorem toNat_asciiByte (hc : c.toNat < 128) : (UInt8.ofNat c.toNat).toNat = c.toNat := by
  rw [UInt8.toNat_ofNat']
  exact Nat.mod_eq_of_lt (by omega)

theorem HasForm.toNat_lt {count : Nat} {IsFront : Char → Prop} (hid : HasForm count IsFront id)
    (hfront : ∀ c, IsFront c → c.toNat < 128) : ∀ c ∈ id.toList, c.toNat < 128 := by
  obtain ⟨front, back, heq, -, hall, -, hall'⟩ := hid
  intro c hc
  rw [heq] at hc
  rcases List.mem_append.mp hc with hc | hc
  · exact hfront c (hall c hc)
  · have := (hall' c hc).toNat_mem
    omega

/-- **A check of bytes is one of characters**, of whatever text the bytes are. -/
theorem hasFormBytes_iff {count : Nat} {isFront : UInt8 → Bool} {IsFront : Char → Prop}
    (hfront : ∀ c : Char, c.toNat < 128 → (isFront (UInt8.ofNat c.toNat) = true ↔ IsFront c))
    (hbyte : ∀ b, isFront b = true → b.toNat < 128) (hchar : ∀ c, IsFront c → c.toNat < 128) :
    hasFormBytes count isFront (Bytes.ofString id) = true ↔ HasForm count IsFront id := by
  by_cases hascii : ∀ c ∈ id.toList, c.toNat < 128
  · rw [hasFormBytes, Aml.ofString_eq_asciiBytes hascii, Aml.asciiBytes, List.length_map,
      ← List.map_take, ← List.map_drop, List.all_map, List.all_map]
    refine hasForm_iff count (fun c hc => hfront c (hascii c hc)) fun c hc => ?_
    rw [Function.comp_apply, isHexByte_iff, toNat_asciiByte (hascii c hc)]
    exact Iff.rfl
  · refine iff_of_false (fun hcheck => hascii fun c hc => ?_) fun hid => hascii (hid.toNat_lt hchar)
    refine Aml.toNat_lt_of_utf8EncodeChar fun b hb => ?_
    have hmem := Bytes.mem_ofString_iff.mpr ⟨c, hc, hb⟩
    simp only [hasFormBytes, Bool.and_eq_true, List.all_eq_true] at hcheck
    rw [← List.take_append_drop count (Bytes.ofString id)] at hmem
    rcases List.mem_append.mp hmem with hmem | hmem
    · exact hbyte b (hcheck.1.2 b hmem)
    · have := isHexByte_iff.mp (hcheck.2 b hmem)
      omega

theorem isLetterByte_ofNat_iff (hc : c.toNat < 128) :
    isLetterByte (UInt8.ofNat c.toNat) = true ↔ IsLetter c := by
  rw [isLetterByte_iff, toNat_asciiByte hc]
  exact Iff.rfl

theorem isDigitByte_ofNat_iff (hc : c.toNat < 128) :
    isDigitByte (UInt8.ofNat c.toNat) = true ↔ IsDigit c := by
  rw [isDigitByte_iff, toNat_asciiByte hc]
  exact Iff.rfl

theorem hasFormBytes_pnp_iff :
    hasFormBytes 3 isLetterByte (Bytes.ofString id) = true ↔ IsPnpId id := by
  refine hasFormBytes_iff (fun c => isLetterByte_ofNat_iff) (fun b hb => ?_) fun c hc => ?_
  · have := isLetterByte_iff.mp hb
    omega
  · have := hc.toNat_mem
    omega

theorem hasFormBytes_acpi_iff :
    hasFormBytes 4 (fun b => isLetterByte b || isDigitByte b) (Bytes.ofString id) = true ↔
      IsAcpiId id := by
  refine hasFormBytes_iff (fun c hc => ?_) (fun b hb => ?_) fun c hc => ?_
  · rw [Bool.or_eq_true, isLetterByte_ofNat_iff hc, isDigitByte_ofNat_iff hc]
  · rw [Bool.or_eq_true, isLetterByte_iff, isDigitByte_iff] at hb
    omega
  · rcases hc with hc | hc
    · have := hc.toNat_mem
      omega
    · have := hc.toNat_mem
      omega

/-! ### Expanding -/

/-- The letter in five bits of a number. -/
def letterAt (n shift : Nat) : Char := Char.ofNat (0x40 + n / 2 ^ shift % 32)

/-- The hexadecimal digit in four bits of a number. -/
def digitAt (n shift : Nat) : Char :=
  if n / 2 ^ shift % 16 < 10 then Char.ofNat (0x30 + n / 2 ^ shift % 16)
  else Char.ofNat (0x37 + n / 2 ^ shift % 16)

/-- **The identifier in a number**: three letters from bit 30 down to bit 16, and four digits
below. -/
def expand (n : Nat) : String :=
  String.ofList ([26, 21, 16].map (letterAt n) ++ [12, 8, 4, 0].map (digitAt n))

theorem letterValue_mem (hc : IsLetter c) : 1 ≤ letterValue c ∧ letterValue c ≤ 26 := by
  have hrange := hc.toNat_mem
  have hvalue : letterValue c = c.toNat - 65 + 1 := rfl
  omega

theorem hexValue_eq (hc : IsHexDigit c) :
    48 ≤ c.toNat ∧ c.toNat ≤ 57 ∧ hexValue c = c.toNat - 48 ∨
      65 ≤ c.toNat ∧ c.toNat ≤ 70 ∧ hexValue c = c.toNat - 55 := by
  rw [hexValue]
  rcases hc.toNat_mem with hdigit | hletter
  · rw [if_pos (isDecimal_iff.mpr hdigit)]
    exact Or.inl ⟨hdigit.1, hdigit.2, rfl⟩
  · have hnot : ¬isDecimal c = true := fun hdecimal => by
      have := (isDecimal_iff.mp hdecimal).toNat_mem
      omega
    rw [if_neg hnot]
    have hA : 'A'.toNat = 65 := rfl
    exact Or.inr ⟨hletter.1, hletter.2, by omega⟩

theorem hexValue_lt (hc : IsHexDigit c) : hexValue c < 16 := by
  have := hexValue_eq hc
  omega

/-- A letter is told by its value. -/
theorem letterAt_eq {n shift : Nat} (hc : IsLetter c) (hn : n / 2 ^ shift % 32 = letterValue c) :
    letterAt n shift = c := by
  have hrange := hc.toNat_mem
  have hvalue : letterValue c = c.toNat - 65 + 1 := rfl
  have hcode : 0x40 + letterValue c = c.toNat := by omega
  rw [letterAt, hn, hcode, Char.ofNat_toNat]

/-- A digit is told by its value. -/
theorem digitAt_eq {n shift : Nat} (hc : IsHexDigit c) (hn : n / 2 ^ shift % 16 = hexValue c) :
    digitAt n shift = c := by
  rw [digitAt, hn]
  rcases hexValue_eq hc with ⟨hlow, hhigh, hvalue⟩ | ⟨hlow, hhigh, hvalue⟩
  · have hcode : 0x30 + hexValue c = c.toNat := by omega
    rw [if_pos (by omega), hcode, Char.ofNat_toNat]
  · have hcode : 0x37 + hexValue c = c.toNat := by omega
    rw [if_neg (by omega), hcode, Char.ofNat_toNat]

/-- The characters of a PNP identifier. -/
structure PnpChars (id : String) (a b c d e f g : Char) : Prop where
  /-- These are all. -/
  toList_eq : id.toList = [a, b, c, d, e, f, g]
  /-- The first three are letters. -/
  letters : IsLetter a ∧ IsLetter b ∧ IsLetter c
  /-- The last four are digits. -/
  digits : IsHexDigit d ∧ IsHexDigit e ∧ IsHexDigit f ∧ IsHexDigit g

theorem IsPnpId.exists_chars (hid : IsPnpId id) : ∃ a b c d e f g, PnpChars id a b c d e f g := by
  obtain ⟨front, back, heq, hthree, hfront, hfour, hback⟩ := hid
  match front, hthree with
  | [a, b, c], _ =>
    match back, hfour with
    | [d, e, f, g], _ =>
      simp only [List.mem_cons, List.not_mem_nil, or_false, forall_eq_or_imp, forall_eq]
        at hfront hback
      exact ⟨a, b, c, d, e, f, g, heq, hfront, hback⟩

namespace PnpChars

variable {a b c d e f g : Char} (hid : PnpChars id a b c d e f g)

include hid

theorem isPnpId : IsPnpId id := by
  obtain ⟨ha, hb, hc⟩ := hid.letters
  obtain ⟨hd, he, hf, hg⟩ := hid.digits
  refine ⟨[a, b, c], [d, e, f, g], hid.toList_eq, rfl, ?_, rfl, ?_⟩
  · simp only [List.mem_cons, List.not_mem_nil, or_false, forall_eq_or_imp, forall_eq]
    exact ⟨ha, hb, hc⟩
  · simp only [List.mem_cons, List.not_mem_nil, or_false, forall_eq_or_imp, forall_eq]
    exact ⟨hd, he, hf, hg⟩

/-- The parts of an identifier are added up, each in its place. -/
theorem compress_eq : compress id = letterValue a * 2 ^ 26 + letterValue b * 2 ^ 21 +
    letterValue c * 2 ^ 16 + hexValue d * 2 ^ 12 + hexValue e * 2 ^ 8 + hexValue f * 2 ^ 4 +
      hexValue g := by
  simp only [compress, hid.toList_eq, List.take_succ_cons, List.take_zero, List.drop_succ_cons,
    List.drop_zero, List.foldl_cons, List.foldl_nil]
  omega

/-- No part reaches into the next one. -/
theorem values_lt : letterValue a < 32 ∧ letterValue b < 32 ∧ letterValue c < 32 ∧
    hexValue d < 16 ∧ hexValue e < 16 ∧ hexValue f < 16 ∧ hexValue g < 16 := by
  obtain ⟨ha, hb, hc⟩ := hid.letters
  obtain ⟨hd, he, hf, hg⟩ := hid.digits
  have ha := letterValue_mem ha
  have hb := letterValue_mem hb
  have hc := letterValue_mem hc
  exact ⟨by omega, by omega, by omega, hexValue_lt hd, hexValue_lt he, hexValue_lt hf,
    hexValue_lt hg⟩

theorem compress_lt : compress id < 2 ^ 31 := by
  have hvalues := hid.values_lt
  rw [hid.compress_eq]
  omega

/-- **What was compressed is expanded again.** -/
theorem expand_compress : expand (compress id) = id := by
  obtain ⟨ha, hb, hc⟩ := hid.letters
  obtain ⟨hd, he, hf, hg⟩ := hid.digits
  have hvalues := hid.values_lt
  rw [expand, hid.compress_eq]
  simp only [List.map_cons, List.map_nil]
  rw [letterAt_eq ha (by omega), letterAt_eq hb (by omega), letterAt_eq hc (by omega),
    digitAt_eq hd (by omega), digitAt_eq he (by omega), digitAt_eq hf (by omega),
    digitAt_eq hg (by omega), ← String.ofList_toList (s := id), hid.toList_eq]
  rfl

example : expand 0x41D00A03 = "PNP0A03" := by decide

end PnpChars

/-! ### Compressing by machine words -/

/-- The number of a letter, of which the first has the byte 65. -/
def letterWord (b : UInt8) : UInt32 := b.toUInt32 - 0x40

/-- The number of a hexadecimal digit, small letters too; 0 for any other byte. -/
def digitWord (b : UInt8) : UInt32 :=
  if 0x30 ≤ b ∧ b ≤ 0x39 then b.toUInt32 - 0x30
  else if 0x41 ≤ b ∧ b ≤ 0x46 then b.toUInt32 - 0x37
  else if 0x61 ≤ b ∧ b ≤ 0x66 then b.toUInt32 - 0x57
  else 0

/-- Seven bytes compressed to a word, their numbers shifted into their places. -/
def compressWord : Bytes → UInt32
  | [a, b, c, d, e, f, g] =>
    letterWord a <<< 26 ||| letterWord b <<< 21 ||| letterWord c <<< 16 ||| digitWord d <<< 12 |||
      digitWord e <<< 8 ||| digitWord f <<< 4 ||| digitWord g
  | _ => 0

/-- Nothing is subtracted from less. -/
theorem toNat_letterWord (hc : IsLetter c) :
    (letterWord (UInt8.ofNat c.toNat)).toNat = letterValue c := by
  have hrange := hc.toNat_mem
  have hvalue : letterValue c = c.toNat - 65 + 1 := rfl
  have hword : (UInt8.ofNat c.toNat).toUInt32.toNat = c.toNat := by
    rw [UInt8.toNat_toUInt32, toNat_asciiByte (by omega)]
  have hle : (0x40 : UInt32) ≤ (UInt8.ofNat c.toNat).toUInt32 := by
    rw [UInt32.le_iff_toNat_le, hword]
    exact Nat.le_trans (by decide) hrange.1
  rw [letterWord, UInt32.toNat_sub_of_le _ _ hle, hword, hvalue]
  have hsub : UInt32.toNat 0x40 = 64 := rfl
  omega

theorem toNat_digitWord (hc : IsHexDigit c) :
    (digitWord (UInt8.ofNat c.toNat)).toNat = hexValue c := by
  have hbyte : (UInt8.ofNat c.toNat).toNat = c.toNat :=
    toNat_asciiByte (by have := hc.toNat_mem; omega)
  have hword : (UInt8.ofNat c.toNat).toUInt32.toNat = c.toNat := by
    rw [UInt8.toNat_toUInt32, hbyte]
  have hsub : ∀ offset : UInt32, offset.toNat ≤ c.toNat →
      ((UInt8.ofNat c.toNat).toUInt32 - offset).toNat = c.toNat - offset.toNat := by
    intro offset hle
    rw [UInt32.toNat_sub_of_le _ _ (by rwa [UInt32.le_iff_toNat_le, hword]), hword]
  simp only [digitWord, UInt8.le_iff_toNat_le, hbyte]
  rcases hexValue_eq hc with ⟨hlow, hhigh, hvalue⟩ | ⟨hlow, hhigh, hvalue⟩
  · rw [if_pos ⟨hlow, hhigh⟩, hsub 0x30 hlow, hvalue]
    rfl
  · rw [if_neg (fun hdigit => absurd (Nat.le_trans hlow hdigit.2) (by decide)),
      if_pos ⟨hlow, hhigh⟩, hsub 0x37 (Nat.le_trans (by decide) hlow), hvalue]
    rfl

/-- A shift by so few bits that nothing is lost. -/
theorem toNat_shiftLeft {word shift : UInt32} (bits : Nat) (hshift : shift.toNat < 32)
    (hword : word.toNat < 2 ^ bits) (hbits : bits + shift.toNat ≤ 32) :
    (word <<< shift).toNat = word.toNat * 2 ^ shift.toNat := by
  rw [UInt32.toNat_shiftLeft, Nat.mod_eq_of_lt hshift, Nat.shiftLeft_eq]
  refine Nat.mod_eq_of_lt ?_
  calc word.toNat * 2 ^ shift.toNat
    _ < 2 ^ bits * 2 ^ shift.toNat := Nat.mul_lt_mul_of_pos_right hword (Nat.two_pow_pos _)
    _ = 2 ^ (bits + shift.toNat) := (Nat.pow_add 2 _ _).symm
    _ ≤ 2 ^ 32 := Nat.pow_le_pow_right (by decide) hbits

/-- Parts that do not meet are added up by putting them together. -/
theorem toNat_packed {a b c d e f g : UInt32} (ha : a.toNat < 32) (hb : b.toNat < 32)
    (hc : c.toNat < 32) (hd : d.toNat < 16) (he : e.toNat < 16) (hf : f.toNat < 16)
    (hg : g.toNat < 16) :
    (a <<< 26 ||| b <<< 21 ||| c <<< 16 ||| d <<< 12 ||| e <<< 8 ||| f <<< 4 ||| g).toNat =
      a.toNat * 2 ^ 26 + b.toNat * 2 ^ 21 + c.toNat * 2 ^ 16 + d.toNat * 2 ^ 12 +
        e.toNat * 2 ^ 8 + f.toNat * 2 ^ 4 + g.toNat := by
  have shift₂₆ : (a <<< 26).toNat = a.toNat * 2 ^ 26 := toNat_shiftLeft 5 (by decide) ha (by decide)
  have shift₂₁ : (b <<< 21).toNat = b.toNat * 2 ^ 21 := toNat_shiftLeft 5 (by decide) hb (by decide)
  have shift₁₆ : (c <<< 16).toNat = c.toNat * 2 ^ 16 := toNat_shiftLeft 5 (by decide) hc (by decide)
  have shift₁₂ : (d <<< 12).toNat = d.toNat * 2 ^ 12 := toNat_shiftLeft 4 (by decide) hd (by decide)
  have shift₈ : (e <<< 8).toNat = e.toNat * 2 ^ 8 := toNat_shiftLeft 4 (by decide) he (by decide)
  have shift₄ : (f <<< 4).toNat = f.toNat * 2 ^ 4 := toNat_shiftLeft 4 (by decide) hf (by decide)
  have or_eq : ∀ high shift : Nat, ∀ {low : Nat}, low < 2 ^ shift →
      high * 2 ^ shift ||| low = high * 2 ^ shift + low := fun high shift low hlow => by
    rw [← Nat.shiftLeft_eq, ← Nat.shiftLeft_add_eq_or_of_lt hlow]
  -- from the lowest part up: what was added so far is below the place of the next part
  simp only [UInt32.toNat_or, shift₂₆, shift₂₁, shift₁₆, shift₁₂, shift₈, shift₄, Nat.or_assoc]
  rw [or_eq f.toNat 4 (by omega), or_eq e.toNat 8 (by omega), or_eq d.toNat 12 (by omega),
    or_eq c.toNat 16 (by omega), or_eq b.toNat 21 (by omega), or_eq a.toNat 26 (by omega)]
  omega

/-- What machine words have to do with the bytes of a PNP identifier so that they compress it. -/
structure CompressedByWords (id : String) : Prop where
  /-- From no letter is too much subtracted, and its number fits in five bits. -/
  letters : ∀ b ∈ (Bytes.ofString id).take 3, 0x40 ≤ b.toNat ∧ (letterWord b).toNat < 32
  /-- All others are the bytes of digits, whose numbers fit in four bits. -/
  digits : ∀ b ∈ (Bytes.ofString id).drop 3, isHexByte b = true ∧ (digitWord b).toNat < 16
  /-- The word is the number. -/
  toNat_eq : (compressWord (Bytes.ofString id)).toNat = compress id

namespace PnpChars

variable {a b c d e f g : Char} (hid : PnpChars id a b c d e f g)

include hid

theorem ofString_eq :
    Bytes.ofString id = [a, b, c, d, e, f, g].map fun x => UInt8.ofNat x.toNat := by
  rw [← hid.toList_eq]
  refine Aml.ofString_eq_asciiBytes (hid.isPnpId.toNat_lt fun x hx => ?_)
  have := hx.toNat_mem
  omega

/-- **Machine words compress as numbers do**: the parts do not meet, so that putting them together
adds them. -/
theorem toNat_compressWord : (compressWord (Bytes.ofString id)).toNat = compress id := by
  obtain ⟨ha, hb, hc⟩ := hid.letters
  obtain ⟨hd, he, hf, hg⟩ := hid.digits
  obtain ⟨hla, hlb, hlc, hld, hle, hlf, hlg⟩ := hid.values_lt
  rw [hid.compress_eq, hid.ofString_eq]
  rw [← toNat_letterWord ha] at hla ⊢
  rw [← toNat_letterWord hb] at hlb ⊢
  rw [← toNat_letterWord hc] at hlc ⊢
  rw [← toNat_digitWord hd] at hld ⊢
  rw [← toNat_digitWord he] at hle ⊢
  rw [← toNat_digitWord hf] at hlf ⊢
  rw [← toNat_digitWord hg] at hlg ⊢
  exact toNat_packed hla hlb hlc hld hle hlf hlg

theorem compressedByWords : CompressedByWords id := by
  have hletter : ∀ {x : Char}, IsLetter x → 0x40 ≤ (UInt8.ofNat x.toNat).toNat ∧
      (letterWord (UInt8.ofNat x.toNat)).toNat < 32 := fun {x} hx => by
    have hrange := hx.toNat_mem
    have hvalue := letterValue_mem hx
    rw [toNat_letterWord hx, toNat_asciiByte (by omega)]
    omega
  have hdigit : ∀ {x : Char}, IsHexDigit x → isHexByte (UInt8.ofNat x.toNat) = true ∧
      (digitWord (UInt8.ofNat x.toNat)).toNat < 16 := fun {x} hx => by
    have hrange := hx.toNat_mem
    rw [toNat_digitWord hx, isHexByte_iff, toNat_asciiByte (by omega)]
    exact ⟨hrange, hexValue_lt hx⟩
  obtain ⟨ha, hb, hc⟩ := hid.letters
  obtain ⟨hd, he, hf, hg⟩ := hid.digits
  refine ⟨?_, ?_, hid.toNat_compressWord⟩
  · rw [hid.ofString_eq]
    simp only [List.map_cons, List.map_nil, List.take_succ_cons, List.take_zero, List.mem_cons,
      List.not_mem_nil, or_false, forall_eq_or_imp, forall_eq]
    exact ⟨hletter ha, hletter hb, hletter hc⟩
  · rw [hid.ofString_eq]
    simp only [List.map_cons, List.map_nil, List.drop_succ_cons, List.drop_zero, List.mem_cons,
      List.not_mem_nil, or_false, forall_eq_or_imp, forall_eq]
    exact ⟨hdigit hd, hdigit he, hdigit hf, hdigit hg⟩

end PnpChars

end HardwareId

namespace Aml

open HardwareId

variable {id id' : String} {value : Bytes}

/-- **A compressed identifier**: the mark of a dword, and four bytes that tell the identifier. -/
structure Compressed (id : String) (value : Bytes) : Prop where
  /-- The bytes behind the mark are four. -/
  eq : ∃ a b c d, value = [0x0C, a, b, c, d]
  /-- The highest bit is not set. -/
  lt : Bytes.toNatBE value.tail < 2 ^ 31
  /-- The identifier is found in the other bits. -/
  expand_eq : expand (Bytes.toNatBE value.tail) = id

/-- Only a PNP identifier is compressed. -/
theorem eisaId_cases (id : String) :
    (IsPnpId id ∧ eisaId id = .ok (0x0C :: Bytes.ofNatBE 4 (compress id))) ∨
      (¬IsPnpId id ∧ eisaId id = .error (.argument (.notPnpId id))) := by
  rw [eisaId]
  by_cases hid : isPnp id = true
  · rw [if_pos hid]
    exact Or.inl ⟨isPnp_iff.mp hid, rfl⟩
  · rw [if_neg hid]
    exact Or.inr ⟨fun hpnp => hid (isPnp_iff.mpr hpnp), rfl⟩

theorem compressed_of_eisaId (hv : eisaId id = .ok value) : Compressed id value := by
  rcases eisaId_cases id with ⟨hpnp, hok⟩ | ⟨-, herror⟩
  · obtain ⟨a, b, c, d, e, f, g, hid⟩ := hpnp.exists_chars
    obtain rfl := Except.ok.inj (hok.symm.trans hv)
    have hnat : Bytes.toNatBE (Bytes.ofNatBE 4 (compress id)) = compress id := by
      rw [Bytes.toNatBE_ofNatBE]
      exact Nat.mod_eq_of_lt (Nat.lt_trans hid.compress_lt (by decide))
    refine ⟨⟨_, _, _, _, rfl⟩, ?_, ?_⟩
    · rw [List.tail_cons, hnat]
      exact hid.compress_lt
    · rw [List.tail_cons, hnat, hid.expand_compress]
  · exact nomatch herror.symm.trans hv

/-- A string is told by its bytes. -/
theorem string_injective (h : string id = string id') : id = id' :=
  Bytes.ofString_injective (List.append_cancel_right (List.cons.inj h).2)

end Aml

namespace Assembly

open HardwareId

variable {w w' : Workbench} {h : Handle} {parent : Option Handle} {id id' : String} {value : Bytes}

/-! ### Declaring -/

/-- **The value that tells an identifier**: a compressed identifier, or a string. -/
inductive Tells (id : String) : Bytes → Prop
  /-- A PNP identifier is compressed. -/
  | pnp {value : Bytes} : IsPnpId id → Aml.eisaId id = .ok value → Tells id value
  /-- An ACPI identifier is a string. -/
  | acpi : IsAcpiId id → Tells id (Aml.string id)

/-- An identifier is told by its value. -/
theorem Tells.injective (ht : Tells id value) (ht' : Tells id' value) : id = id' := by
  cases ht with
  | pnp hid hv =>
    have hc := Aml.compressed_of_eisaId hv
    cases ht' with
    | pnp hid' hv' => rw [← hc.expand_eq, (Aml.compressed_of_eisaId hv').expand_eq]
    | acpi hid' =>
      obtain ⟨a, b, c, d, hbytes⟩ := hc.eq
      exact absurd (List.cons.inj hbytes).1 (by decide)
  | acpi hid =>
    generalize hv : Aml.string id = value at ht'
    cases ht' with
    | pnp hid' hv' =>
      obtain ⟨a, b, c, d, hbytes⟩ := (Aml.compressed_of_eisaId hv').eq
      exact absurd (List.cons.inj (hv.trans hbytes)).1 (by decide)
    | acpi hid' => exact Aml.string_injective hv

theorem tells_of_hardwareIdValue (hv : hardwareIdValue id = .ok value) : Tells id value := by
  rw [hardwareIdValue] at hv
  split at hv
  · next hpnp => exact .pnp (isPnp_iff.mp hpnp) hv
  · split at hv
    · next hacpi =>
      obtain rfl := Except.ok.inj hv
      exact .acpi (isAcpi_iff.mp hacpi)
    · exact nomatch hv

/-- **The object of an identifier**: `Name (_HID, value)`, where the value tells the identifier. -/
def IsHardwareIdObject (id : String) (bytes : Bytes) : Prop :=
  ∃ value, Tells id value ∧ bytes = [0x08, 0x5F, 0x48, 0x49, 0x44] ++ value

theorem IsHardwareIdObject.injective {bytes : Bytes} (ho : IsHardwareIdObject id bytes)
    (ho' : IsHardwareIdObject id' bytes) : id = id' := by
  obtain ⟨value, ht, rfl⟩ := ho
  obtain ⟨value', ht', heq⟩ := ho'
  obtain rfl := List.append_cancel_left heq
  exact ht.injective ht'

/-- What is written for an identifier of one of the two forms is its object. -/
theorem isHardwareIdObject_of_valid (hid : (Declaration.hardwareId id).HasValue) :
    ∃ bytes, (Declaration.hardwareId id).term.encode = .ok bytes ∧ IsHardwareIdObject id bytes := by
  rcases hardwareIdValue_cases id with ⟨value, hvalue, -, hterm⟩ | ⟨e, -, hnot⟩
  · refine ⟨_, ?_, value, tells_of_hardwareIdValue hvalue, rfl⟩
    rw [Declaration.term, Aml.Term.encode, hterm]
    rfl
  · exact absurd hid hnot

theorem hasValue_hardwareId_iff :
    (Declaration.hardwareId id).HasValue ↔ IsPnpId id ∨ IsAcpiId id := or_congr isPnp_iff isAcpi_iff

/-- **How declaring an identifier ends** in the trees that requests make. -/
theorem declares_hardwareId_run {attempts : List (Attempt Request)} (hw : w.tree = run attempts)
    (hfit : (after (declareHardwareId id parent) w).tree.Fits) :
    match declareHardwareId id parent w with
    | .ok h w' => (IsPlace w.tree parent ∧ (IsPnpId id ∨ IsAcpiId id)) ∧
      ∃ bytes, w'.tree.encode h = .ok bytes ∧ IsHardwareIdObject id bytes
    | .error _ _ => ¬(IsPlace w.tree parent ∧ (IsPnpId id ∨ IsAcpiId id)) := by
  have hs : w.tree.Sound fun _ => True := by
    rw [hw]
    exact sound_run_true (hw ▸ ((Declaration.hardwareId id).leads_perform parent w).1.fits hfit)
  have hname : ∃ bytes, Aml.objectName "_HID" false = .ok bytes := ⟨_, rfl⟩
  have hend := (Declaration.hardwareId id).declares_perform parent hs hfit
  simp only [Declaration.perform, Declaration.Valid, Declaration.name, Declaration.allowRoot,
    hname, true_and, hasValue_hardwareId_iff] at hend
  cases hr : declareHardwareId id parent w with
  | ok h w' =>
    rw [hr] at hend
    obtain ⟨bytes, hbytes, ho⟩ :=
      isHardwareIdObject_of_valid (hasValue_hardwareId_iff.mpr hend.1.2)
    exact ⟨hend.1, bytes, hend.2.encode.trans hbytes, ho⟩
  | error e w' =>
    rw [hr] at hend
    exact hend.2

/-- **A hardware identifier is declared** if it has one of the two forms, and what is declared tells
it again. -/
structure DeclaresHardwareId (w : Workbench) (id : String) (parent : Option Handle) : Prop where
  /-- The checks may go by the bytes. -/
  checked : isPnp id = hasFormBytes 3 isLetterByte (Bytes.ofString id) ∧
    isAcpi id = hasFormBytes 4 (fun b => isLetterByte b || isDigitByte b) (Bytes.ofString id)
  /-- At a place, an identifier is declared exactly if it has one of the two forms. -/
  succeeds_iff : IsPlace w.tree parent →
    ((∃ h w', declareHardwareId id parent w = .ok h w') ↔ IsPnpId id ∨ IsAcpiId id)
  /-- It is compressed exactly if it has the first form. -/
  compresses_iff : (∃ value, Aml.eisaId id = .ok value) ↔ IsPnpId id
  /-- It can then be told from the four bytes behind the mark. -/
  compressed : ∀ value, Aml.eisaId id = .ok value → Aml.Compressed id value
  /-- Machine words do the same: no part is negative, and none reaches into the next one. -/
  words : IsPnpId id → CompressedByWords id
  /-- What is declared is the compressed identifier, or else the string. -/
  object : ∀ h w', declareHardwareId id parent w = .ok h w' →
    ∃ bytes, w'.tree.encode h = .ok bytes ∧ IsHardwareIdObject id bytes
  /-- Wherever the same object is declared, it is for the same identifier. -/
  distinct : ∀ h w', declareHardwareId id parent w = .ok h w' →
    ∀ attempts w₁ id₁ parent₁ h₁ w₁', w₁.tree = run attempts → w₁'.tree.Fits →
      declareHardwareId id₁ parent₁ w₁ = .ok h₁ w₁' → w₁'.tree.encode h₁ = w'.tree.encode h →
        id₁ = id
  /-- Any other text is rejected, and everything stays as it was. -/
  rejected : ¬(IsPnpId id ∨ IsAcpiId id) →
    declareHardwareId id parent w = .error (.parameter (.notHardwareId id)) w

/-- A declared object is the one of its identifier. -/
theorem object_hardwareId_run {attempts : List (Attempt Request)} (hw : w.tree = run attempts)
    (hfit : w'.tree.Fits) (hr : declareHardwareId id parent w = .ok h w') :
    ∃ bytes, w'.tree.encode h = .ok bytes ∧ IsHardwareIdObject id bytes := by
  have hend := declares_hardwareId_run hw (by rwa [after_ok hr])
  rw [hr] at hend
  exact hend.2

/-- **Hardware identifiers in the trees that requests make**, as long as all slots have numbers of
their own afterwards. -/
theorem declaresHardwareId_run (attempts : List (Attempt Request)) (hw : w.tree = run attempts)
    (id : String) (parent : Option Handle)
    (hfit : (after (declareHardwareId id parent) w).tree.Fits) :
    DeclaresHardwareId w id parent := by
  have hend := declares_hardwareId_run hw hfit
  refine {
    checked := ⟨?_, ?_⟩
    succeeds_iff := fun hplace => ?_
    compresses_iff := ?_
    compressed := fun value => Aml.compressed_of_eisaId
    words := fun hid => ?_
    object := fun h w' hr => object_hardwareId_run hw (by rwa [after_ok hr] at hfit) hr
    distinct := fun h w' hr attempts₁ w₁ id₁ parent₁ h₁ w₁' hw₁ hfit₁ hr₁ heq => ?_
    rejected := fun hid => ?_ }
  · exact Bool.eq_iff_iff.mpr (isPnp_iff.trans hasFormBytes_pnp_iff.symm)
  · exact Bool.eq_iff_iff.mpr (isAcpi_iff.trans hasFormBytes_acpi_iff.symm)
  · cases hr : declareHardwareId id parent w with
    | ok h w' =>
      rw [hr] at hend
      exact iff_of_true ⟨h, w', rfl⟩ hend.1.2
    | error e w' =>
      rw [hr] at hend
      exact iff_of_false (fun ⟨_, _, hok⟩ => nomatch hok) fun hid => hend ⟨hplace, hid⟩
  · rcases Aml.eisaId_cases id with ⟨hid, hv⟩ | ⟨hid, hv⟩
    · exact iff_of_true ⟨_, hv⟩ hid
    · exact iff_of_false (fun ⟨_, hok⟩ => nomatch hv.symm.trans hok) hid
  · obtain ⟨a, b, c, d, e, f, g, hchars⟩ := hid.exists_chars
    exact hchars.compressedByWords
  · obtain ⟨bytes, hbytes, ho⟩ := object_hardwareId_run hw (by rwa [after_ok hr] at hfit) hr
    obtain ⟨bytes₁, hbytes₁, ho₁⟩ := object_hardwareId_run hw₁ hfit₁ hr₁
    obtain rfl := Except.ok.inj (hbytes₁.symm.trans (heq.trans hbytes))
    exact ho₁.injective ho
  · have hvalue : hardwareIdValue id = .error (.parameter (.notHardwareId id)) := by
      rw [hardwareIdValue, if_neg fun hpnp => hid (.inl (isPnp_iff.mp hpnp)),
        if_neg fun hacpi => hid (.inr (isAcpi_iff.mp hacpi))]
    exact bind_error (ask_error hvalue)

/-- The bus behind a host bridge. -/
theorem declaresHardwareId_run_bus : DeclaresHardwareId
    ⟨run (amply [.declareRegion .device "PCI0" none]), []⟩ "PNP0A03" (some ⟨1, 0⟩) :=
  declaresHardwareId_run (amply [.declareRegion .device "PCI0" none]) rfl _ _ (by decide)

end Assembly

end AcpiTables
