import AcpiTables.Aml.DataObject
import AcpiTables.Proofs.Reader

/-!
# Where an encoded value ends

A value starts with a byte that tells its form. An integer then has as many bytes as its
form says, and a string goes on to its first zero byte, of which it must not have one of its
own. `AcpiTables.Aml.IsEncoded` are the values that declarations write, and all of them are
read back whatever follows (`AcpiTables.Aml.reads_readEncoded`). No form is told by the byte
that starts a buffer (`AcpiTables.Aml.IsEncoded.exists_cons`).
-/

namespace AcpiTables.Aml

/-! ### Values -/

/-- A value that a declaration writes: an integer, a string of ASCII characters without the
zero, or a compressed hardware identifier. -/
inductive IsEncoded : Bytes → Prop
  /-- An integer in its shortest form. -/
  | integer (value : UInt64) : IsEncoded (integer value)
  /-- A string that ends where it says. -/
  | string {text : String} : (∀ c ∈ text.toList, 0 < c.toNat ∧ c.toNat < 128) →
    IsEncoded (string text)
  /-- A compressed hardware identifier. -/
  | eisaId {id : String} {bytes : Bytes} : eisaId id = .ok bytes → IsEncoded bytes

/-- The three forms of an integer. -/
theorem integer_cases (v : UInt64) :
    (v.toNat = 0 ∧ integer v = zero) ∨ (v.toNat = 1 ∧ integer v = one) ∨
      ∃ (w : Width) (x : w.Value), w.toNat x = v.toNat ∧ integer v = integerOf w x := by
  have htruncate : ∀ w : Width, v.toNat < Bytes.capacity w.size →
      w.toNat (w.truncate v.toNat) = v.toNat := fun w hw => by
    rw [Width.toNat_truncate, Nat.mod_eq_of_lt hw]
  unfold integer
  dsimp only
  split
  · next h0 => exact Or.inl ⟨h0, rfl⟩
  · split
    · next h1 => exact Or.inr (Or.inl ⟨h1, rfl⟩)
    · refine Or.inr (Or.inr ?_)
      split
      · next h => exact ⟨.byte, _, htruncate .byte h, rfl⟩
      · split
        · next h => exact ⟨.word, _, htruncate .word h, rfl⟩
        · split
          · next h => exact ⟨.dword, _, htruncate .dword h, rfl⟩
          · exact ⟨.qword, v, rfl, rfl⟩

/-- A character other than the zero is written without a zero byte. -/
theorem zero_not_mem_utf8EncodeChar {c : Char} (hc : c ≠ Char.ofNat 0) :
    (0 : UInt8) ∉ String.utf8EncodeChar c := by
  have hpos : 0 < c.val.toNat := Nat.pos_of_ne_zero fun hzero =>
    hc (Char.ext (UInt32.toNat_inj.mp hzero))
  have hbyte : ∀ n : Nat, 0 < n → n < 256 → (0 : UInt8) ≠ UInt8.ofNat n := fun n hn hlt he => by
    have := congrArg UInt8.toNat he
    rw [UInt8.toNat_ofNat', Nat.mod_eq_of_lt hlt] at this
    exact absurd this (Nat.ne_of_lt hn)
  have hmany : ∀ n k : Nat, 0 < k → n + k < 256 → (0 : UInt8) ≠ UInt8.ofNat (n + k) :=
    fun n k hk hlt => hbyte (n + k) (Nat.lt_of_lt_of_le hk (Nat.le_add_left k n)) hlt
  -- Of several bytes each has its highest bit set.
  unfold String.utf8EncodeChar
  dsimp only
  split
  · next hone =>
    rw [List.mem_singleton]
    exact hbyte _ hpos (by omega)
  · split
    · simp only [List.mem_cons, List.not_mem_nil, or_false, not_or]
      exact ⟨hmany _ 192 (by decide) (by omega), hmany _ 128 (by decide) (by omega)⟩
    · split
      · simp only [List.mem_cons, List.not_mem_nil, or_false, not_or]
        exact ⟨hmany _ 224 (by decide) (by omega), hmany _ 128 (by decide) (by omega),
          hmany _ 128 (by decide) (by omega)⟩
      · simp only [List.mem_cons, List.not_mem_nil, or_false, not_or]
        exact ⟨hmany _ 240 (by decide) (by omega), hmany _ 128 (by decide) (by omega),
          hmany _ 128 (by decide) (by omega), hmany _ 128 (by decide) (by omega)⟩

/-- **A text without the zero character is written without a zero byte.** -/
theorem zero_not_mem_ofString {text : String} (htext : Char.ofNat 0 ∉ text.toList) :
    (0 : UInt8) ∉ Bytes.ofString text := by
  intro hzero
  obtain ⟨c, hc, hzero⟩ := Bytes.mem_ofString_iff.mp hzero
  refine zero_not_mem_utf8EncodeChar ?_ hzero
  rintro rfl
  exact htext hc

/-! ### Reading integers -/

/-- The width that the first byte of an integer announces. -/
def widthOf (mark : UInt8) : Option Width :=
  if mark = 0x0A then some .byte
  else if mark = 0x0B then some .word
  else if mark = 0x0C then some .dword
  else if mark = 0x0E then some .qword
  else none

theorem widthOf_integerMark (w : Width) : widthOf (integerMark w) = some w := by
  cases w <;> rfl

/-- Takes an integer. -/
def readInteger : Reader Nat
  | [] => none
  | mark :: rest =>
    if mark = 0x00 then some (0, rest)
    else if mark = 0x01 then some (1, rest)
    else do
      let w ← widthOf mark
      let (digits, rest) ← readBytes w.size rest
      return (Bytes.toNatLE digits, rest)

/-- **An integer is read back**, whatever follows. -/
theorem reads_readInteger (v : UInt64) : Reads readInteger (integer v) v.toNat := by
  intro rest
  rcases integer_cases v with ⟨hv, hi⟩ | ⟨hv, hi⟩ | ⟨w, x, hv, hi⟩
  · rw [hi, hv]
    rfl
  · rw [hi, hv]
    rfl
  · have hne : integerMark w ≠ 0x00 ∧ integerMark w ≠ 0x01 := by cases w <;> decide
    have hdigits := reads_readBytes (Bytes.length_ofNatLE w.size (w.toNat x)) rest
    rw [hi, ← hv, integerOf, List.cons_append]
    simp only [readInteger, if_neg hne.1, if_neg hne.2, widthOf_integerMark, hdigits,
      Option.bind_eq_bind, Option.bind_some, Option.pure_def, Bytes.toNatLE_ofNatLE,
      Nat.mod_eq_of_lt (w.toNat_lt x)]

/-! ### Reading values -/

/-- How many bytes a value takes that starts an input. -/
def encodedSize : Bytes → Option Nat
  | [] => none
  | mark :: rest =>
    if mark = 0x00 ∨ mark = 0x01 then some 1
    else if mark = 0x0D then some ((rest.takeWhile (· != 0)).length + 2)
    else (widthOf mark).map fun w => w.size + 1

/-- Takes a value other than a buffer: its bytes. -/
def readEncoded : Reader Bytes := fun input => do
  let size ← encodedSize input
  readBytes size input

theorem encodedSize_mark (w : Width) (rest : Bytes) :
    encodedSize (integerMark w :: rest) = some (w.size + 1) := by
  cases w <;> rfl

/-- The size of a value is told by the value alone. -/
theorem encodedSize_append {bytes : Bytes} (hb : IsEncoded bytes) (rest : Bytes) :
    encodedSize (bytes ++ rest) = some bytes.length := by
  cases hb with
  | integer v =>
    rcases integer_cases v with ⟨-, hi⟩ | ⟨-, hi⟩ | ⟨w, x, -, hi⟩
    · rw [hi]
      rfl
    · rw [hi]
      rfl
    · rw [hi, integerOf, List.cons_append, encodedSize_mark, List.length_cons,
        Bytes.length_ofNatLE]
  | @string text htext =>
    have hzero : Char.ofNat 0 ∉ text.toList := fun hmem => absurd (htext _ hmem).1 (by decide)
    have hall : ∀ b ∈ Bytes.ofString text, (b != 0) = true := fun b hb => by
      rw [bne_iff_ne]
      rintro rfl
      exact zero_not_mem_ofString hzero hb
    -- The zero that closes the string is the first one that is met.
    have htake : (Bytes.ofString text ++ [0x00] ++ rest).takeWhile (· != 0) =
        Bytes.ofString text := by
      rw [List.append_assoc, List.takeWhile_append_of_pos hall]
      simp
    rw [string, List.cons_append, encodedSize, if_neg (by decide), if_pos rfl, htake]
    simp
  | @eisaId id bytes hid =>
    rw [eisaId] at hid
    split at hid
    · rw [← Except.ok.inj hid, List.cons_append, encodedSize_mark, List.length_cons,
        Bytes.ofNatBE, List.length_reverse, Bytes.length_ofNatLE]
      rfl
    · exact nomatch hid

/-- **A value is read back**, whatever follows. -/
theorem reads_readEncoded {bytes : Bytes} (hb : IsEncoded bytes) :
    Reads readEncoded bytes bytes := by
  intro rest
  simp only [readEncoded, encodedSize_append hb, Option.bind_eq_bind, Option.bind_some]
  exact reads_readBytes rfl rest

/-- A value does not start like a buffer. -/
theorem IsEncoded.exists_cons {bytes : Bytes} (hb : IsEncoded bytes) :
    ∃ mark rest, bytes = mark :: rest ∧ mark ≠ 0x11 := by
  have hmark : ∀ w : Width, integerMark w ≠ 0x11 := fun w => by cases w <;> decide
  cases hb with
  | integer v =>
    rcases integer_cases v with ⟨-, hi⟩ | ⟨-, hi⟩ | ⟨w, x, -, hi⟩
    · exact ⟨_, _, hi, by decide⟩
    · exact ⟨_, _, hi, by decide⟩
    · exact ⟨_, _, hi, hmark w⟩
  | string htext => exact ⟨_, _, rfl, by decide⟩
  | eisaId hid =>
    rw [Aml.eisaId] at hid
    split at hid
    · exact ⟨_, _, (Except.ok.inj hid).symm, hmark .dword⟩
    · exact nomatch hid

end AcpiTables.Aml
