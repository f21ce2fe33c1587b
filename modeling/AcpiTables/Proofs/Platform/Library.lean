import AcpiTables.Proofs.Json.Kept
import AcpiTables.Proofs.Platform.Format
import Mathlib.Data.List.Nodup

/-!
# What a library that reads JSON does

Whoever reads JSON for this library is a parameter of it, and this file says what is relied on
(`AcpiTables.JsonLibrary.Lawful`). It is what such libraries document, and three things are asked.

* **Readers go by what is declared.** A word is read of the integer that it is. A structure is read
  of an object, field by field, or of an array, in the order of the fields
  (`AcpiTables.Readers.Derives`). What is left out and what is not known is treated as its rules
  say, and no field comes twice.
* **A text is read as the document that it is**, and blanks around it do not matter.
* **A value that is kept** has the last member of each key, and words of 64 bits as they are
  (`AcpiTables.Json.KeptAs`). Not every document can be kept, but a modest one can.

The readers of a document as it comes and those of a value that was kept are asked the same, each
for itself. Nothing is asked about the two together. That they agree where they should comes from
what is declared, by going through the fields (`AcpiTables.Readers.Derives.eq_of_alike`).

| fact | theorem |
|---|---|
| no key comes twice in what is read | `AcpiTables.Readers.Lawful.distinct` |
| what is read is modest | `AcpiTables.Readers.Lawful.modest` |
| values that are alike are read alike | `AcpiTables.Readers.Lawful.eq_of_alike` |
-/

namespace AcpiTables

variable {α : Type}

/-! ### Laws -/

/-- Whether a value is made of others. -/
def Json.hasParts : Json → Bool
  | array _ | object _ => true
  | _ => false

/-- The value of a field that is left out of an object. -/
def Field.omitted (field : Field α) (rules : ReadingRules) (default : α) : Option field.Value :=
  if rules.fillsIn then some (field.value default) else field.form.missing

/-- The value of a field for which an array is too short. -/
def Field.ended (field : Field α) (rules : ReadingRules) (default : α) : Option field.Value :=
  if rules.fillsIn then some (field.value default) else none

/-- **A reader that comes from what is declared** about a structure: its rules, its default and its
fields. The fields are read by the readers of their types. -/
structure Readers.Derives (r : Readers) (rules : ReadingRules) (default : α)
    (fields : List (Field α)) (read : Json → Option α) : Prop where
  /-- An object is read field by field. No field comes twice, and other keys may be refused. -/
  object : ∀ members a, read (.object members) = some a ↔
    (∀ field ∈ fields, (members.map Prod.fst).count field.name ≤ 1) ∧
    (rules.refusesUnknown = true →
      ∀ key ∈ members.map Prod.fst, ∃ field ∈ fields, field.name = key) ∧
    ∀ field ∈ fields, (members.lookup field.name).elim (field.omitted rules default)
      (field.form.read r) = some (field.value a)
  /-- An array is read in the order of the fields. It may be too short, but not too long. -/
  array : ∀ items a, read (.array items) = some a ↔
    items.length ≤ fields.length ∧ ∀ (i : Nat) (field : Field α), fields[i]? = some field →
      items[i]?.elim (field.ended rules default) (field.form.read r) = some (field.value a)
  /-- Nothing else is read. -/
  other : ∀ v : Json, v.hasParts = false → read v = none

/-- **Readers that go by what is declared.** -/
structure Readers.Lawful (r : Readers) : Prop where
  /-- A word is read of the integer that it is, and of nothing else. -/
  word : ∀ (w : Width) v x, r.word w v = some x ↔ v = .number (.integer (w.toNat x))
  /-- An address is a structure. -/
  address : r.Derives GenericAddress.rules Packed.zero GenericAddress.fields r.address
  /-- A record is a structure. -/
  record : ∀ kind, r.Derives kind.rules Packed.zero kind.fields (r.record kind)
  /-- An optional record is absent where `null` is written. -/
  optional_null : ∀ kind, r.optional kind .null = some none
  /-- An optional record is read as a record where anything else is written. -/
  optional_of_ne_null : ∀ kind v, v ≠ .null → r.optional kind v = some <$> r.record kind v
  /-- A configuration is a structure. -/
  configuration : r.Derives Configuration.rules Configuration.empty Configuration.fields
    r.configuration

/-- **What a library that reads JSON is relied on for.** -/
structure JsonLibrary.Lawful (library : JsonLibrary) : Prop where
  /-- The readers of a document as it comes go by what is declared. -/
  asWritten : library.asWritten.Lawful
  /-- The readers of a value that was kept go by what is declared. -/
  asKept : library.asKept.Lawful
  /-- Blanks around a text do not matter. -/
  document?_blanks : ∀ text front back, (∀ c ∈ front, Json.isBlank c = true) →
    (∀ c ∈ back, Json.isBlank c = true) →
      library.document? (String.ofList front ++ text ++ String.ofList back) = library.document? text
  /-- A configuration is read of the document that a text is. -/
  configuration?_iff : ∀ text config, library.configuration? text = some config ↔
    ∃ v, library.document? text = some v ∧ library.asWritten.configuration v = some config
  /-- What is kept is kept of the document that a text is. -/
  keptAs : ∀ text kept, library.value? text = some kept →
    ∃ v, library.document? text = some v ∧ v.KeptAs kept
  /-- A modest document is kept. -/
  keeps : ∀ text v, library.document? text = some v → v.Modest Json.maxDepth →
    ∃ kept, library.value? text = some kept

/-! ### What structures are read of -/

/-- Where keys are names of fields, no key comes twice if none of these names does. -/
theorem Field.nodup_keys_iff {fields : List (Field α)} {keys : List String}
    (hknown : ∀ key ∈ keys, ∃ field ∈ fields, field.name = key) :
    keys.Nodup ↔ ∀ field ∈ fields, keys.count field.name ≤ 1 := by
  refine ⟨fun hkeys _ _ => List.nodup_iff_count_le_one.mp hkeys _, fun honce => ?_⟩
  refine List.nodup_iff_count_le_one.mpr fun key => ?_
  by_cases hkey : key ∈ keys
  · obtain ⟨field, hfield, rfl⟩ := hknown key hkey
    exact honce field hfield
  · rw [List.count_eq_zero_of_not_mem hkey]
    exact Nat.zero_le 1

namespace Readers.Derives

variable {r r' : Readers} {rules : ReadingRules} {default : α} {fields : List (Field α)}
  {read read' : Json → Option α} {v : Json} {a : α}

/-- The parts of what is read are read, if other keys are refused. -/
theorem parts (h : r.Derives rules default fields read) (hrules : rules.refusesUnknown = true)
    (hv : read v = some a) :
    (∃ members, v = .object members ∧ (members.map Prod.fst).Nodup ∧ ∀ member ∈ members,
      ∃ field ∈ fields, ∃ x, field.form.read r member.2 = some x) ∨
    ∃ items, v = .array items ∧ ∀ item ∈ items,
      ∃ field ∈ fields, ∃ x, field.form.read r item = some x := by
  cases v with
  | null | bool | number | text => exact nomatch (h.other _ rfl).symm.trans hv
  | object members =>
    obtain ⟨honce, hknown, hread⟩ := (h.object members a).mp hv
    have hkeys := (Field.nodup_keys_iff (hknown hrules)).mpr honce
    refine Or.inl ⟨members, rfl, hkeys, fun member hmember => ?_⟩
    obtain ⟨field, hfield, hname⟩ := hknown hrules member.1 (List.mem_map_of_mem hmember)
    have hvalue := hread field hfield
    rw [hname, Json.lookup_eq_some_of_mem hkeys hmember] at hvalue
    exact ⟨field, hfield, _, hvalue⟩
  | array items =>
    obtain ⟨hlength, hread⟩ := (h.array items a).mp hv
    refine Or.inr ⟨items, rfl, fun item hitem => ?_⟩
    obtain ⟨i, hi, rfl⟩ := List.getElem_of_mem hitem
    have hfield := List.getElem?_eq_getElem (Nat.lt_of_lt_of_le hi hlength)
    have hvalue := hread i _ hfield
    rw [List.getElem?_eq_getElem hi] at hvalue
    exact ⟨_, List.mem_of_getElem? hfield, _, hvalue⟩

/-- **No key comes twice in what is read**, if none does in what fields are read of. -/
theorem distinct (h : r.Derives rules default fields read) (hrules : rules.refusesUnknown = true)
    (hfields : ∀ field ∈ fields, ∀ v x, field.form.read r v = some x → v.Distinct)
    (hv : read v = some a) : v.Distinct := by
  rcases h.parts hrules hv with ⟨members, rfl, hkeys, hread⟩ | ⟨items, rfl, hread⟩
  · refine .object hkeys fun member hmember => ?_
    obtain ⟨field, hfield, x, hx⟩ := hread member hmember
    exact hfields field hfield _ x hx
  · refine .array fun item hitem => ?_
    obtain ⟨field, hfield, x, hx⟩ := hread item hitem
    exact hfields field hfield _ x hx

/-- **What is read is modest**, if what fields are read of is nested less deep. -/
theorem modest (h : r.Derives rules default fields read) (hrules : rules.refusesUnknown = true)
    {depth : Nat} (hfields : ∀ field ∈ fields, ∀ v x, field.form.read r v = some x → v.Modest depth)
    (hv : read v = some a) : v.Modest (depth + 1) := by
  rcases h.parts hrules hv with ⟨members, rfl, -, hread⟩ | ⟨items, rfl, hread⟩
  · refine .object fun member hmember => ?_
    obtain ⟨field, hfield, x, hx⟩ := hread member hmember
    exact hfields field hfield _ x hx
  · refine .array fun item hitem => ?_
    obtain ⟨field, hfield, x, hx⟩ := hread item hitem
    exact hfields field hfield _ x hx

/-- What is asked of a part that is there or not has one answer for parts that are alike. -/
theorem elim_eq {β : Type} {part part' : Option Json} {omitted : Option β} {f g : Json → Option β}
    (hpart : Option.Rel Json.Alike part part') (hfg : ∀ a b, Json.Alike a b → f a = g b) :
    part.elim omitted f = part'.elim omitted g := by
  cases hpart with
  | none => rfl
  | some hvalue => exact hfg _ _ hvalue

/-- **Values that are alike are read alike** by two readers, if those of the fields do so. -/
theorem eq_of_alike (h : r.Derives rules default fields read)
    (h' : r'.Derives rules default fields read')
    (hfields : ∀ field ∈ fields, ∀ a b, Json.Alike a b → field.form.read r a = field.form.read r' b)
    {a b : Json} (hab : Json.Alike a b) : read a = read' b := by
  obtain ⟨v, ha, hb⟩ := hab
  cases ha with
  | null | bool | number | text =>
    cases hb
    rw [h.other _ rfl, h'.other _ rfl]
  | @array items kept hkept =>
    cases hb with
    | @array _ kept' hkept' =>
      refine Option.ext fun x => ?_
      rw [h.array, h'.array, ← hkept.length_eq, ← hkept'.length_eq]
      refine and_congr_right fun _ => forall₃_congr fun i field hfield => ?_
      rw [elim_eq (Json.rel_getElem?_of_keptAs hkept hkept' i)
        (hfields field (List.mem_of_getElem? hfield))]
  | @object members kept hkeys hkept =>
    cases hb with
    | @object _ kept' hkeys' hkept' =>
      refine Option.ext fun x => ?_
      -- What is kept has no key twice, so nothing is refused for that.
      have honce : ∀ field ∈ fields, (kept.map Prod.fst).count field.name ≤ 1 := fun _ _ =>
        List.nodup_iff_count_le_one.mp hkeys _
      have honce' : ∀ field ∈ fields, (kept'.map Prod.fst).count field.name ≤ 1 := fun _ _ =>
        List.nodup_iff_count_le_one.mp hkeys' _
      rw [h.object, h'.object, and_iff_right honce, and_iff_right honce']
      simp only [Json.mem_keys_iff_of_keptAs hkept, Json.mem_keys_iff_of_keptAs hkept']
      refine and_congr_right fun _ => forall₂_congr fun field hfield => ?_
      rw [elim_eq (Json.rel_of_keptAs (hkept field.name) (hkept' field.name))
        (hfields field hfield)]

end Readers.Derives

/-! ### What configurations are read of -/

namespace Readers.Lawful

variable {r r' : Readers} {v a b : Json} {kind : RecordKind} {config : Configuration}

theorem toNat_lt_size (w : Width) (x : w.Value) : w.toNat x < UInt64.size :=
  Nat.lt_of_lt_of_le (w.toNat_lt x) (by cases w <;> decide)

section Parts

variable (hr : r.Lawful)

include hr

theorem distinct_word {w : Width} {x : w.Value} (hv : r.word w v = some x) : v.Distinct := by
  rw [(hr.word w v x).mp hv]
  exact .number _

theorem distinct_address {x : GenericAddress} (hv : r.address v = some x) : v.Distinct :=
  hr.address.distinct rfl (GenericAddress.forall_fields fun _ _ _ _ _ => hr.distinct_word) hv

theorem distinct_record {x : kind.Record} (hv : r.record kind v = some x) : v.Distinct :=
  (hr.record kind).distinct (by cases kind <;> rfl) (kind.lists_fields.forall_fields
    (fun _ _ _ _ _ => hr.distinct_word) fun _ _ _ _ => hr.distinct_address) hv

theorem distinct_optional {x : Option kind.Record} (hv : r.optional kind v = some x) :
    v.Distinct := by
  by_cases hnull : v = .null
  · rw [hnull]
    exact .null
  · rw [hr.optional_of_ne_null kind v hnull] at hv
    obtain ⟨record, hrecord, -⟩ := Option.map_eq_some_iff.mp hv
    exact hr.distinct_record hrecord

/-- **A key that comes twice is refused**, in whatever object it does. -/
theorem distinct (hv : r.configuration v = some config) : v.Distinct :=
  hr.configuration.distinct rfl
    (Configuration.forall_fields fun _ _ _ _ _ => hr.distinct_optional) hv

theorem modest_word {w : Width} {x : w.Value} (hv : r.word w v = some x) : v.Modest 0 := by
  rw [(hr.word w v x).mp hv]
  exact .number 0 (toNat_lt_size w x)

theorem modest_address {x : GenericAddress} (hv : r.address v = some x) : v.Modest 1 :=
  hr.address.modest rfl (GenericAddress.forall_fields fun _ _ _ _ _ => hr.modest_word) hv

theorem modest_record {x : kind.Record} (hv : r.record kind v = some x) : v.Modest 2 :=
  (hr.record kind).modest (by cases kind <;> rfl) (kind.lists_fields.forall_fields
    (fun _ _ _ _ _ hv => (hr.modest_word hv).mono (Nat.zero_le 1))
    fun _ _ _ _ => hr.modest_address) hv

theorem modest_optional {x : Option kind.Record} (hv : r.optional kind v = some x) :
    v.Modest 2 := by
  by_cases hnull : v = .null
  · rw [hnull]
    exact .null 2
  · rw [hr.optional_of_ne_null kind v hnull] at hv
    obtain ⟨record, hrecord, -⟩ := Option.map_eq_some_iff.mp hv
    exact hr.modest_record hrecord

/-- **What a configuration is read of is modest**: fields in addresses in records in an object. -/
theorem modest (hv : r.configuration v = some config) : v.Modest 3 :=
  hr.configuration.modest rfl (Configuration.forall_fields fun _ _ _ _ _ => hr.modest_optional) hv

end Parts

section Alike

variable (hr : r.Lawful) (hr' : r'.Lawful)

include hr hr'

/-- Numbers that are alike are the same word. -/
theorem word_eq_of_alike (w : Width) (hab : Json.Alike a b) : r.word w a = r'.word w b := by
  refine Option.ext fun x => ?_
  rw [hr.word, hr'.word]
  obtain ⟨v, ha, hb⟩ := hab
  cases ha with
  | null | bool | text | array | object =>
    cases hb
    exact iff_of_false nofun nofun
  | number hword =>
    cases hb with
    | number hword' =>
      -- A number is kept as it is if it is a word of 64 bits, and no field is wider.
      rw [Json.number.injEq, Json.number.injEq, ← hword _ (toNat_lt_size w x),
        ← hword' _ (toNat_lt_size w x)]

theorem address_eq_of_alike (hab : Json.Alike a b) : r.address a = r'.address b :=
  hr.address.eq_of_alike hr'.address
    (GenericAddress.forall_fields fun _ w _ _ _ => hr.word_eq_of_alike hr' w) hab

theorem record_eq_of_alike (kind : RecordKind) (hab : Json.Alike a b) :
    r.record kind a = r'.record kind b :=
  (hr.record kind).eq_of_alike (hr'.record kind) (kind.lists_fields.forall_fields
    (fun _ w _ _ _ => hr.word_eq_of_alike hr' w) fun _ _ _ _ => hr.address_eq_of_alike hr') hab

/-- Values that are alike are both `null` or neither is. -/
theorem optional_eq_of_alike (kind : RecordKind) (hab : Json.Alike a b) :
    r.optional kind a = r'.optional kind b := by
  have hnull : a = .null ↔ b = .null := by
    obtain ⟨v, ha, hb⟩ := hab
    cases ha <;> cases hb <;> simp
  by_cases ha : a = .null
  · rw [ha, hnull.mp ha, hr.optional_null, hr'.optional_null]
  · rw [hr.optional_of_ne_null kind a ha, hr'.optional_of_ne_null kind b (mt hnull.mpr ha),
      hr.record_eq_of_alike hr' kind hab]

/-- **Values that are alike are read alike.** -/
theorem eq_of_alike (hab : Json.Alike a b) : r.configuration a = r'.configuration b :=
  hr.configuration.eq_of_alike hr'.configuration
    (Configuration.forall_fields fun _ kind _ _ _ => hr.optional_eq_of_alike hr' kind) hab

end Alike

end Readers.Lawful

end AcpiTables
