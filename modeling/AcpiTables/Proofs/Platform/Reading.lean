import AcpiTables.Platform.Provider
import AcpiTables.Proofs.Members
import AcpiTables.Proofs.Platform.Repository

/-!
# Reading records from any provider

An answer is a byte string and a number, and nothing makes the two agree: there may be bytes and no
records, fewer bytes than announced, or bytes that no records have. What is read is decided by two
conditions (`AcpiTables.Answer.Holds`): the bytes divide into records, and there are as many as
announced.

The one thing to know is that these suffice. The bytes that are announced then divide into records
as well, so cutting them up cannot fail (`AcpiTables.Answer.Holds.exists_manyOfBytes?`), and the
error of the last step is never seen. The number of these bytes fits a word, since no record is
large and the number of records has 32 bits.

| result | theorem |
|---|---|
| which answers are read, and what is read of them | `AcpiTables.Answer.records_eq_ok_iff` |
| what is read from a provider | `AcpiTables.Provider.readsRecords` |
-/

namespace AcpiTables

variable {kind : RecordKind}

/-! ### Answers -/

namespace Answer

variable {answer : Answer} {records : List kind.Record}

/-- **An answer holds the records that it announces.** -/
structure Holds (answer : Answer) (kind : RecordKind) : Prop where
  /-- The bytes divide into records. -/
  divides : Packed.size kind.Record ∣ answer.data.length
  /-- There are no fewer than announced. -/
  enough : answer.count.toNat * Packed.size kind.Record ≤ answer.data.length

/-- An answer is refused for its bytes exactly if it does not hold the records. -/
theorem not_holds_iff : ¬answer.Holds kind ↔ answer.data.length % Packed.size kind.Record ≠ 0 ∨
    answer.data.length < answer.count.toNat * Packed.size kind.Record := by
  rw [← Nat.not_le, ne_eq, ← Nat.dvd_iff_mod_eq_zero, ← not_and_or, not_iff_not]
  constructor
  · intro hh
    exact ⟨hh.divides, hh.enough⟩
  · rintro ⟨hdivides, henough⟩
    exact ⟨hdivides, henough⟩

/-- **The announced bytes divide into records**, if an answer holds them. -/
theorem Holds.exists_manyOfBytes? (hh : answer.Holds kind) : ∃ records : List kind.Record,
    Packed.manyOfBytes? (answer.data.take (answer.count.toNat * Packed.size kind.Record)) =
      some records := by
  refine Option.isSome_iff_exists.mp ((Packed.manyOfBytes?_isSome_iff kind.size_pos).mpr ?_)
  rw [List.length_take_of_le hh.enough]
  exact Nat.dvd_mul_left _ _

/-- **An answer is read** exactly if it is about the kind and holds the records, and what is read
are the records of which these are the bytes. -/
theorem records_eq_ok_iff : answer.records kind = .ok records ↔ answer.kind = kind ∧
    answer.Holds kind ∧ records.flatMap Packed.encode =
      answer.data.take (answer.count.toNat * Packed.size kind.Record) := by
  rw [Answer.records, ← Packed.manyOfBytes?_eq_some_iff kind.size_pos]
  by_cases hkind : answer.kind = kind
  · by_cases hh : answer.Holds kind
    · obtain ⟨read, hread⟩ := hh.exists_manyOfBytes?
      rw [if_neg (not_not.mpr hkind), if_neg (not_holds_iff.not.mp (not_not.mpr hh)), hread]
      simp [hkind, hh]
    · rw [if_neg (not_not.mpr hkind), if_pos (not_holds_iff.mp hh)]
      simp [hh]
  · rw [if_pos hkind]
    simp [hkind]

theorem records_wrongKind (hkind : answer.kind ≠ kind) :
    answer.records kind = .error (.parameter (.wrongKind kind answer.kind)) := by
  rw [Answer.records, if_pos hkind]

theorem records_sizeMismatch (hkind : answer.kind = kind) (hh : ¬answer.Holds kind) :
    answer.records kind =
      .error (.sizeMismatch kind answer.data.length (Packed.size kind.Record)) := by
  rw [Answer.records, if_neg (not_not.mpr hkind), if_pos (not_holds_iff.mp hh)]

theorem Holds.exists_records (hh : answer.Holds kind) (hkind : answer.kind = kind) :
    ∃ records, answer.records kind = .ok records := by
  obtain ⟨records, hread⟩ := hh.exists_manyOfBytes?
  exact ⟨records, records_eq_ok_iff.mpr
    ⟨hkind, hh, (Packed.manyOfBytes?_eq_some_iff kind.size_pos).mp hread⟩⟩

/-- As many records are read as were announced. -/
theorem length_of_records (hread : answer.records kind = .ok records) :
    records.length = answer.count.toNat := by
  obtain ⟨-, hh, hbytes⟩ := records_eq_ok_iff.mp hread
  have hlength := Packed.length_flatMap_encode records
  rw [hbytes, List.length_take_of_le hh.enough] at hlength
  exact (Nat.eq_of_mul_eq_mul_right kind.size_pos hlength).symm

/-- The number of the announced bytes fits a word. -/
theorem announced_lt (answer : Answer) (kind : RecordKind) :
    answer.count.toNat * Packed.size kind.Record < UInt64.size := by
  have hsize : Packed.size kind.Record ≤ 72 := by cases kind <;> decide
  have hcount : answer.count.toNat < 4294967296 := answer.count.toNat_lt
  calc answer.count.toNat * Packed.size kind.Record
      ≤ 4294967296 * 72 := Nat.mul_le_mul (Nat.le_of_lt hcount) hsize
    _ < UInt64.size := by decide

end Answer

/-! ### Providers -/

namespace Provider

variable {provider : Provider} {token : UInt64} {answer : Answer}

/-- The answer of a provider is read. -/
theorem records_eq (hanswer : provider kind token = .ok answer) :
    provider.records kind token = answer.records kind := by
  rw [Provider.records, hanswer]
  rfl

theorem record_of_cons {record : kind.Record} {rest : List kind.Record}
    (hread : provider.records kind token = .ok (record :: rest)) :
    provider.record kind token = .ok record := by
  rw [Provider.record, hread]
  rfl

theorem record_of_nil (hread : provider.records kind token = .ok []) :
    provider.record kind token = .error (.notFound kind) := by
  rw [Provider.record, hread]
  rfl

theorem record_of_error {e : Error} (hread : provider.records kind token = .error e) :
    provider.record kind token = .error e := by
  rw [Provider.record, hread]
  rfl

/-- There is no first record exactly if none was announced. -/
theorem record_eq_notFound_iff {records : List kind.Record}
    (hanswer : provider kind token = .ok answer)
    (hread : provider.records kind token = .ok records) :
    provider.record kind token = .error (.notFound kind) ↔ answer.count = 0 := by
  have hlength := Answer.length_of_records ((records_eq hanswer).symm.trans hread)
  rw [← UInt32.toNat_inj, ← hlength]
  cases records with
  | nil => exact iff_of_true (record_of_nil hread) rfl
  | cons record rest =>
    refine iff_of_false (fun hnone => ?_) (Nat.succ_ne_zero rest.length)
    exact nomatch hnone.symm.trans (record_of_cons hread)

/-- **What is read from a provider**, whatever it answers. -/
structure ReadsRecords (provider : Provider) (kind : RecordKind) (token : UInt64) : Prop where
  /-- How many bytes a record of the kind has. -/
  size_eq : Packed.size kind.Record = (PlainType.record kind).count
  /-- The error of a provider is passed on. -/
  failed : ∀ e, provider kind token = .error e → provider.records kind token = .error e
  /-- An answer about another kind is refused. -/
  wrongKind : ∀ answer, provider kind token = .ok answer → answer.kind ≠ kind →
    provider.records kind token = .error (.parameter (.wrongKind kind answer.kind))
  /-- An answer about the kind is read exactly if its bytes divide into records and are no fewer
  than announced. -/
  succeeds_iff : ∀ answer, provider kind token = .ok answer → answer.kind = kind →
    ((∃ records, provider.records kind token = .ok records) ↔
      Packed.size kind.Record ∣ answer.data.length ∧
        answer.count.toNat * Packed.size kind.Record ≤ answer.data.length)
  /-- What is read are as many records as announced, and their bytes are the first ones. -/
  records : ∀ answer records, provider kind token = .ok answer →
    provider.records kind token = .ok records → records.length = answer.count.toNat ∧
      records.flatMap Packed.encode =
        answer.data.take (answer.count.toNat * Packed.size kind.Record)
  /-- Otherwise the number of bytes is wrong, which the error tells. -/
  mismatch : ∀ answer, provider kind token = .ok answer → answer.kind = kind →
    ¬(Packed.size kind.Record ∣ answer.data.length ∧
      answer.count.toNat * Packed.size kind.Record ≤ answer.data.length) →
      provider.records kind token =
        .error (.sizeMismatch kind answer.data.length (Packed.size kind.Record))
  /-- The number of the announced bytes fits a word. -/
  announced_lt : ∀ answer, provider kind token = .ok answer →
    answer.count.toNat * Packed.size kind.Record < UInt64.size
  /-- The announced bytes are cut into records without fail. -/
  cut : ∀ answer, provider kind token = .ok answer →
    Packed.size kind.Record ∣ answer.data.length →
      answer.count.toNat * Packed.size kind.Record ≤ answer.data.length →
        ∃ records : List kind.Record, Packed.manyOfBytes?
          (answer.data.take (answer.count.toNat * Packed.size kind.Record)) = some records
  /-- Asked for one record, the first is given. -/
  first : ∀ record rest, provider.records kind token = .ok (record :: rest) →
    provider.record kind token = .ok record
  /-- There is no first record exactly if none was announced. -/
  notFound_iff : ∀ answer records, provider kind token = .ok answer →
    provider.records kind token = .ok records →
      (provider.record kind token = .error (.notFound kind) ↔ answer.count = 0)
  /-- An error is passed on. -/
  error : ∀ e, provider.records kind token = .error e → provider.record kind token = .error e

/-- **Reading records from any provider.** -/
theorem readsRecords (provider : Provider) (kind : RecordKind) (token : UInt64) :
    ReadsRecords provider kind token where
  size_eq := (PlainType.record kind).size_eq_count
  failed e herr := by
    rw [Provider.records, herr]
    rfl
  wrongKind answer hanswer hkind := (records_eq hanswer).trans (Answer.records_wrongKind hkind)
  succeeds_iff answer hanswer hkind := by
    rw [records_eq hanswer]
    constructor
    · rintro ⟨records, hread⟩
      obtain ⟨-, hh, -⟩ := Answer.records_eq_ok_iff.mp hread
      exact ⟨hh.divides, hh.enough⟩
    · rintro ⟨hdivides, henough⟩
      exact Answer.Holds.exists_records ⟨hdivides, henough⟩ hkind
  records answer records hanswer hread := by
    rw [records_eq hanswer] at hread
    exact ⟨Answer.length_of_records hread, (Answer.records_eq_ok_iff.mp hread).2.2⟩
  mismatch answer hanswer hkind hnot := by
    rw [records_eq hanswer]
    exact Answer.records_sizeMismatch hkind fun hh => hnot ⟨hh.divides, hh.enough⟩
  announced_lt answer _ := answer.announced_lt kind
  cut answer _ hdivides henough := Answer.Holds.exists_manyOfBytes? ⟨hdivides, henough⟩
  first record rest := record_of_cons
  notFound_iff answer records := record_eq_notFound_iff
  error e := record_of_error

end Provider

end AcpiTables
