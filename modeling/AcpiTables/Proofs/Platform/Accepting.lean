import AcpiTables.Proofs.Platform.ConfigurationText
import Mathlib.Algebra.Group.Nat.Defs
import Mathlib.Data.List.Nodup

/-!
# Which values are configurations

A configuration is read of a JSON value without arrays exactly if the value is an object of records,
each `null` or an object of fields, each a number that fits or an object of numbers that fit
(`AcpiTables.Configuration.IsConfiguration`). What is read is what is written, and what is left out
is absent, or zero (`AcpiTables.Configuration.Told`). It is so whoever reads the value, as long as
he goes by what is declared.

The one thing to know is that words, addresses, optional records and configurations need not be
treated one by one. Each has its form, and a form is read as it is written
(`AcpiTables.Form.IsRead`). For a structure this follows from its fields, whatever they are
(`AcpiTables.Readers.Derives.read_eq_some_iff`), and so it goes from words up to configurations.

| fact | theorem |
|---|---|
| a structure is read field by field | `AcpiTables.Readers.Derives.read_eq_some_iff` |
| a structure may be written if its fields may | `AcpiTables.Form.IsRead.allowsFields_iff` |
| what is read is what is written | `AcpiTables.Configuration.told_of_tellsFields` |
| a number at the place of a word fits | `AcpiTables.Configuration.IsConfiguration.fits` |
| all of it for every value without arrays | `AcpiTables.Configuration.readsConfiguration` |
-/

namespace AcpiTables

/-! ### Plain values -/

/-- **No array is in the value.** -/
inductive Json.ArrayFree : Json → Prop
  /-- No array is in `null`. -/
  | null : ArrayFree .null
  /-- No array is in `true` or `false`. -/
  | bool (value : Bool) : ArrayFree (.bool value)
  /-- No array is in a number. -/
  | number (value : Json.Number) : ArrayFree (.number value)
  /-- No array is in a text. -/
  | text (value : String) : ArrayFree (.text value)
  /-- The arrays in an object are in its members. -/
  | object {members : List (String × Json)} (hmembers : ∀ member ∈ members, ArrayFree member.2) :
    ArrayFree (.object members)

/-- **A value without arrays**, each of whose objects has one member of each key. -/
structure Json.Plain (v : Json) : Prop where
  /-- No key comes twice. -/
  distinct : v.Distinct
  /-- There is no array. -/
  arrayFree : v.ArrayFree

variable {α : Type} {v : Json} {members : List (String × Json)} {key : String}

theorem Json.Plain.nodup_keys (hv : (Json.object members).Plain) :
    (members.map Prod.fst).Nodup := by
  obtain ⟨hdistinct, -⟩ := hv
  cases hdistinct with
  | object hkeys _ => exact hkeys

theorem Json.Plain.of_mem (hv : (Json.object members).Plain) (hmem : (key, v) ∈ members) :
    v.Plain := by
  obtain ⟨hdistinct, hfree⟩ := hv
  cases hdistinct with
  | object _ hmembers =>
    cases hfree with
    | object hmembers' => exact ⟨hmembers _ hmem, hmembers' _ hmem⟩

/-- A member is found by its key. -/
theorem Json.Plain.lookup_eq_some_iff (hv : (Json.object members).Plain) :
    members.lookup key = some v ↔ (key, v) ∈ members :=
  ⟨mem_of_lookup, lookup_eq_some_of_mem hv.nodup_keys⟩

theorem Json.lookup_eq_none_iff : members.lookup key = none ↔ key ∉ members.map Prod.fst := by
  rw [← isSome_lookup_iff, Option.not_isSome_iff_eq_none]

/-! ### Reading by forms -/

namespace Form

/-- What a member of an object stands for, if it is there or not. -/
def TellsMember (form : Form α) : Option Json → α → Prop
  | none, a => a = form.zero
  | some v, a => form.Tells v a

/-- What a member stands for, asked of the members of an object. -/
theorem tellsMember_lookup_iff {form : Form α} (hv : (Json.object members).Plain) {a : α} :
    form.TellsMember (members.lookup key) a ↔
      (∀ value, (key, value) ∈ members → form.Tells value a) ∧
        (key ∉ members.map Prod.fst → a = form.zero) := by
  rw [← Json.lookup_eq_none_iff]
  simp only [← hv.lookup_eq_some_iff]
  cases members.lookup key with
  | none => exact ⟨fun ha => ⟨nofun, fun _ => ha⟩, fun h => h.2 rfl⟩
  | some value =>
    refine ⟨fun ha => ⟨fun value' hvalue' => ?_, nofun⟩, fun h => h.1 value rfl⟩
    rwa [← Option.some.inj hvalue']

/-- **A form is read as it is written**, of plain values. -/
structure IsRead (form : Form α) (r : Readers) : Prop where
  /-- A value is read exactly where it is written. -/
  read_eq_some_iff : ∀ v : Json, v.Plain → ∀ a, form.read r v = some a ↔ form.Tells v a
  /-- What may be written is written for some value. -/
  allows_iff : ∀ v : Json, v.Plain → (form.Allows v ↔ ∃ a, form.Tells v a)

variable {r : Readers} {fields : List (Field α)}

/-- A member that may be left out is read as it is written. -/
theorem IsRead.elim_eq_some_iff {form : Form α} (hform : form.IsRead r) {member : Option Json}
    (hmember : ∀ v, member = some v → v.Plain) (a : α) :
    member.elim (some form.zero) (form.read r) = some a ↔ form.TellsMember member a := by
  cases member with
  | none => exact Option.some_inj.trans eq_comm
  | some v => exact hform.read_eq_some_iff v (hmember v rfl) a

/-- **What may be written for a structure** is written for some, if the fields can have any values,
whatever the others are. -/
theorem IsRead.allowsFields_iff (hfields : ∀ field ∈ fields, field.form.IsRead r)
    (hnames : (fields.map Field.name).Nodup)
    (hvalues : ∀ P : (field : Field α) → field.Value → Prop, (∀ field ∈ fields, ∃ x, P field x) →
      ∃ a, ∀ field ∈ fields, P field (field.value a))
    (hv : v.Plain) : AllowsFields fields v ↔ ∃ a, TellsFields fields v a := by
  constructor
  · rintro ⟨members, rfl, hmembers⟩
    have htold : ∀ field ∈ fields, ∃ x, field.form.TellsMember (members.lookup field.name) x := by
      intro field hfield
      cases hmember : members.lookup field.name with
      | none => exact ⟨field.form.zero, rfl⟩
      | some value =>
        have hmem := Json.mem_of_lookup hmember
        obtain ⟨field', hfield', hname, hallows⟩ := hmembers _ value hmem
        obtain rfl := List.inj_on_of_nodup_map hnames hfield' hfield hname
        exact ((hfields _ hfield).allows_iff value (hv.of_mem hmem)).mp hallows
    obtain ⟨a, ha⟩ := hvalues _ htold
    refine ⟨a, members, rfl, fun key hkey => ?_, fun field hfield => ?_⟩
    · obtain ⟨member, hmem, rfl⟩ := List.mem_map.mp hkey
      obtain ⟨field, hfield, hname, -⟩ := hmembers member.1 member.2 hmem
      exact ⟨field, hfield, hname⟩
    · exact (tellsMember_lookup_iff hv).mp (ha field hfield)
  · rintro ⟨a, members, rfl, hknown, htells⟩
    refine ⟨members, rfl, fun key value hmem => ?_⟩
    obtain ⟨field, hfield, rfl⟩ := hknown key (List.mem_map_of_mem hmem)
    refine ⟨field, hfield, rfl, ((hfields field hfield).allows_iff value (hv.of_mem hmem)).mpr ?_⟩
    exact ⟨_, (htells field hfield).1 value hmem⟩

end Form

/-- **A structure is read as it is written**, field by field, if what is left out is zero. -/
theorem Readers.Derives.read_eq_some_iff {r : Readers} {rules : ReadingRules} {default : α}
    {fields : List (Field α)} {read : Json → Option α} (h : r.Derives rules default fields read)
    (hrules : rules.refusesUnknown = true)
    (hzero : ∀ field ∈ fields, field.omitted rules default = some field.form.zero)
    (hfields : ∀ field ∈ fields, field.form.IsRead r) (hv : v.Plain) (a : α) :
    read v = some a ↔ TellsFields fields v a := by
  cases v with
  | null | bool | number | text =>
    rw [h.other _ rfl]
    exact iff_of_false nofun fun ⟨_, hobject, _⟩ => nomatch hobject
  | array => exact nomatch hv.arrayFree
  | object members =>
    have honce : ∀ field ∈ fields, (members.map Prod.fst).count field.name ≤ 1 := fun _ _ =>
      List.nodup_iff_count_le_one.mp hv.nodup_keys _
    have hplain : ∀ key v, members.lookup key = some v → v.Plain := fun key v hkey =>
      hv.of_mem (Json.mem_of_lookup hkey)
    rw [h.object, and_iff_right honce, imp_iff_right hrules, TellsFields]
    simp only [Json.object.injEq, exists_eq_left']
    refine and_congr_right fun _ => forall₂_congr fun field hfield => ?_
    rw [hzero field hfield, (hfields field hfield).elim_eq_some_iff (hplain _),
      Form.tellsMember_lookup_iff hv]

/-! ### Words, addresses and records -/

/-- Where all is zero, each field is. -/
theorem Layout.Lists.value_eq_zero {l : Layout} {row : α → l.Row} {fields : List (Field α)}
    (hl : Lists l row fields) {zero : α} (hzero : row zero = l.zero) :
    ∀ field ∈ fields, field.value zero = field.form.zero := by
  induction hl with
  | done => exact nofun
  | word _ ih =>
    obtain ⟨hvalue, hrest⟩ := Prod.mk.inj hzero
    exact List.forall_mem_cons.mpr ⟨hvalue, ih hrest⟩
  | address _ ih =>
    obtain ⟨hvalue, hrest⟩ := Prod.mk.inj hzero
    exact List.forall_mem_cons.mpr ⟨GenericAddress.toRow_injective hvalue, ih hrest⟩

/-- Fields of a structure can have any values. -/
theorem Layout.Lists.exists_packed [Packed α] {fields : List (Field α)}
    (hl : Lists (Packed.layout α) Packed.toRow fields)
    (P : (field : Field α) → field.Value → Prop) (hP : ∀ field ∈ fields, ∃ x, P field x) :
    ∃ a, ∀ field ∈ fields, P field (field.value a) := by
  obtain ⟨row, hrow⟩ := hl.exists_row hP
  exact ⟨Packed.ofRow row, hrow _ (Packed.toRow_ofRow row)⟩

section Forms

variable {r : Readers} (hr : r.Lawful)

include hr

/-- A word is read as it is written. -/
theorem Form.isRead_word (w : Width) : (Form.word w).IsRead r where
  read_eq_some_iff v _ x := hr.word w v x
  allows_iff v _ := by
    have hcapacity : Bytes.capacity w.size = 2 ^ (8 * w.size) := by cases w <;> rfl
    constructor
    · rintro ⟨n, rfl, hlt⟩
      refine ⟨w.truncate n, ?_⟩
      change Json.number _ = .number (.integer (w.toNat (w.truncate n)))
      rw [Width.toNat_truncate, hcapacity, Nat.mod_eq_of_lt hlt]
    · rintro ⟨x, rfl⟩
      exact ⟨w.toNat x, rfl, hcapacity ▸ w.toNat_lt x⟩

/-- An address is read as it is written. -/
theorem Form.isRead_address : Form.address.IsRead r where
  read_eq_some_iff _ hv a := hr.address.read_eq_some_iff rfl
    (fun field hfield => congrArg some (GenericAddress.lists_fields.value_eq_zero rfl field hfield))
    (GenericAddress.forall_fields fun _ w _ => isRead_word hr w) hv a
  allows_iff _ hv := IsRead.allowsFields_iff
    (GenericAddress.forall_fields fun _ w _ => isRead_word hr w) (by decide)
    GenericAddress.lists_fields.exists_packed hv

theorem RecordKind.isRead_fields (kind : RecordKind) : ∀ field ∈ kind.fields, field.form.IsRead r :=
  kind.lists_fields.forall_fields (fun _ w _ => Form.isRead_word hr w)
    fun _ _ => Form.isRead_address hr

/-- **A record is read as it is written.** -/
theorem RecordKind.read_eq_some_iff (kind : RecordKind) (hv : v.Plain) (record : kind.Record) :
    r.record kind v = some record ↔ TellsFields kind.fields v record := by
  have hrules : kind.rules = ⟨true, true⟩ := by cases kind <;> rfl
  refine (hr.record kind).read_eq_some_iff (by rw [hrules]) (fun field hfield => ?_)
    (kind.isRead_fields hr) hv record
  rw [hrules, ← kind.lists_fields.value_eq_zero (Packed.toRow_ofRow _) field hfield]
  rfl

/-- An optional record is read as it is written. -/
theorem Form.isRead_optional (kind : RecordKind) : (Form.optional kind).IsRead r where
  read_eq_some_iff v hv record := by
    change r.optional kind v = _ ↔ v = .null ∧ record = none ∨ _
    by_cases hnull : v = .null
    · subst hnull
      have htells : ¬∃ x, record = some x ∧ TellsFields kind.fields .null x :=
        fun ⟨_, _, _, hobject, _⟩ => nomatch hobject
      rw [hr.optional_null, or_iff_left htells, and_iff_right rfl, Option.some_inj]
      exact eq_comm
    · rw [hr.optional_of_ne_null kind v hnull, Option.map_eq_map, Option.map_eq_some_iff,
        or_iff_right fun h => hnull h.1]
      refine exists_congr fun x => ?_
      rw [kind.read_eq_some_iff hr hv]
      exact and_comm.trans (and_congr_left fun _ => eq_comm)
  allows_iff v hv := by
    have hallows : AllowsFields kind.fields v ↔ ∃ x, TellsFields kind.fields v x :=
      IsRead.allowsFields_iff (kind.isRead_fields hr) kind.nodup_names
        kind.lists_fields.exists_packed hv
    constructor
    · rintro (rfl | hv)
      · exact ⟨none, .inl ⟨rfl, rfl⟩⟩
      · obtain ⟨x, hx⟩ := hallows.mp hv
        exact ⟨some x, .inr ⟨x, rfl, hx⟩⟩
    · rintro ⟨record, ⟨rfl, -⟩ | ⟨x, -, hx⟩⟩
      · exact .inl rfl
      · exact .inr (hallows.mpr ⟨x, hx⟩)

end Forms

/-! ### Configurations -/

theorem RecordKind.key_injective : Function.Injective RecordKind.key := fun kind kind' h =>
  List.inj_on_of_nodup_map (by decide : (all.map RecordKind.key).Nodup) (mem_all kind)
    (mem_all kind') h

namespace Configuration

/-- **A value that is a configuration**: an object whose members each have the key of a kind, and
are `null` or may be written for a record of the kind. -/
def IsConfiguration (v : Json) : Prop :=
  ∃ members, v = .object members ∧ ∀ key value, (key, value) ∈ members →
    ∃ kind : RecordKind, kind.key = key ∧ (value = .null ∨ AllowsFields kind.fields value)

/-- **What the members of an object tell of the record of a kind.** -/
structure Told (members : List (String × Json)) (kind : RecordKind)
    (record : Option kind.Record) : Prop where
  /-- The record is absent exactly if there is no member for it but `null`. -/
  absent_iff : record = none ↔ ∀ value, (kind.key, value) ∈ members → value = .null
  /-- A record that is not absent is written in the member. -/
  present : ∀ r, record = some r →
    ∃ value, (kind.key, value) ∈ members ∧ TellsFields kind.fields value r

variable {r : Readers} {config : Configuration}

theorem isConfiguration_iff : IsConfiguration v ↔ AllowsFields fields v := by
  refine exists_congr fun members => and_congr_right fun _ => forall₃_congr fun key value _ => ?_
  simp only [fields, List.mem_map, RecordKind.mem_all, true_and, exists_exists_eq_and]
  rfl

/-- **A configuration is read as it is written.** -/
theorem read_eq_some_iff (hr : r.Lawful) (hv : v.Plain) :
    r.configuration v = some config ↔ TellsFields fields v config :=
  hr.configuration.read_eq_some_iff rfl (List.forall_mem_map.mpr fun _ _ => rfl)
    (forall_fields fun _ kind _ => Form.isRead_optional hr kind) hv config

/-- **Which values are configurations.** -/
theorem exists_read_iff (hr : r.Lawful) (hv : v.Plain) :
    (∃ config, r.configuration v = some config) ↔ IsConfiguration v := by
  simp only [read_eq_some_iff hr hv]
  rw [isConfiguration_iff]
  refine (Form.IsRead.allowsFields_iff (forall_fields fun _ kind _ => Form.isRead_optional hr kind)
    nodup_names (fun P hP => ?_) hv).symm
  choose record hrecord using fun kind => List.forall_mem_map.mp hP kind (RecordKind.mem_all kind)
  exact ⟨⟨record⟩, List.forall_mem_map.mpr fun kind _ => hrecord kind⟩

/-- **What is written is told**, record by record. -/
theorem told_of_tellsFields (htells : TellsFields fields (.object members) config)
    (kind : RecordKind) : Told members kind (config.record kind) := by
  obtain ⟨members', hobject, -, htells⟩ := htells
  obtain rfl := Json.object.inj hobject
  obtain ⟨hwritten, hmissing⟩ := List.forall_mem_map.mp htells kind (RecordKind.mem_all kind)
  constructor
  · constructor
    · intro habsent value hmem
      rcases hwritten value hmem with ⟨hnull, -⟩ | ⟨x, hx, -⟩
      · exact hnull
      · exact nomatch habsent.symm.trans hx
    · intro hnull
      by_cases hkey : kind.key ∈ members.map Prod.fst
      · obtain ⟨member, hmem, hname⟩ := List.mem_map.mp hkey
        obtain ⟨key, value⟩ := member
        obtain rfl : key = kind.key := hname
        rcases hwritten value hmem with ⟨-, habsent⟩ | ⟨x, -, hx⟩
        · exact habsent
        · obtain rfl := hnull value hmem
          obtain ⟨_, hobject, -⟩ := hx
          exact nomatch hobject
      · exact hmissing hkey
  · intro record hrecord
    have hkey : kind.key ∈ members.map Prod.fst := by
      by_contra hkey
      exact nomatch (hmissing hkey).symm.trans hrecord
    obtain ⟨member, hmem, hname⟩ := List.mem_map.mp hkey
    obtain ⟨key, value⟩ := member
    obtain rfl : key = kind.key := hname
    rcases hwritten value hmem with ⟨-, habsent⟩ | ⟨x, hx, htells⟩
    · exact nomatch habsent.symm.trans hrecord
    · obtain rfl := Option.some.inj (hx.symm.trans hrecord)
      exact ⟨value, hmem, htells⟩

/-! ### Numbers -/

/-- A number stands at the place of a word, in a record or in an address in one. -/
inductive NumberAt (w : Width) (n : Json.Number) : Json → Prop
  /-- In a record. -/
  | record {members written : List (String × Json)} {kind : RecordKind} {name : String}
    {value : kind.Record → w.Value} : (kind.key, .object written) ∈ members →
    ⟨name, .word w, value⟩ ∈ kind.fields → (name, .number n) ∈ written →
    NumberAt w n (.object members)
  /-- In an address. -/
  | address {members written inner : List (String × Json)} {kind : RecordKind} {name part : String}
    {value : kind.Record → GenericAddress} {value' : GenericAddress → w.Value} :
    (kind.key, .object written) ∈ members → ⟨name, .address, value⟩ ∈ kind.fields →
    (name, .object inner) ∈ written → ⟨part, .word w, value'⟩ ∈ GenericAddress.fields →
    (part, .number n) ∈ inner → NumberAt w n (.object members)

theorem allows_of_mem {fields : List (Field α)} (hnames : (fields.map Field.name).Nodup)
    (hallows : AllowsFields fields (.object members)) {field : Field α} (hfield : field ∈ fields)
    (hmem : (field.name, v) ∈ members) : field.form.Allows v := by
  obtain ⟨members', hobject, hmembers⟩ := hallows
  obtain rfl := Json.object.inj hobject
  obtain ⟨field', hfield', hname, hv⟩ := hmembers _ v hmem
  obtain rfl := List.inj_on_of_nodup_map hnames hfield' hfield hname
  exact hv

theorem IsConfiguration.allowsFields (hv : IsConfiguration (.object members)) {kind : RecordKind}
    {written : List (String × Json)} (hmem : (kind.key, .object written) ∈ members) :
    AllowsFields kind.fields (.object written) := by
  obtain ⟨members', hobject, hmembers⟩ := hv
  obtain rfl := Json.object.inj hobject
  obtain ⟨kind', hkey, hwritten⟩ := hmembers _ _ hmem
  obtain rfl := RecordKind.key_injective hkey
  exact hwritten.resolve_left nofun

/-- **A number at the place of a word is one that fits**, in every configuration. -/
theorem IsConfiguration.fits {w : Width} {n : Json.Number} (hv : IsConfiguration v)
    (hn : NumberAt w n v) : ∃ m : Nat, n = .integer m ∧ m < 2 ^ (8 * w.size) := by
  have hword : (Form.word w).Allows (.number n) := by
    cases hn with
    | record hrecord hfield hmem =>
      exact allows_of_mem (RecordKind.nodup_names _) (hv.allowsFields hrecord) hfield hmem
    | address hrecord hfield haddress hpart hmem =>
      have hallows : Form.address.Allows _ :=
        allows_of_mem (RecordKind.nodup_names _) (hv.allowsFields hrecord) hfield haddress
      exact allows_of_mem (by decide) hallows hpart hmem
  obtain ⟨m, hm, hlt⟩ := hword
  exact ⟨m, Json.number.inj hm, hlt⟩

/-- **A configuration is read exactly of a value that is one**, and it is what is written. -/
structure ReadsConfiguration (library : JsonLibrary) (v : Json) : Prop where
  /-- The values that are read are those that are configurations. -/
  accepts_iff : (∃ config, fromValue library v = .ok config) ↔ IsConfiguration v
  /-- A record is absent if it is not written, or `null`. Else each field has the value that is
  written, and is zero if none is, and so has each field of an address. -/
  told : ∀ config, fromValue library v = .ok config →
    ∃ members, v = .object members ∧ ∀ kind, Told members kind (config.record kind)
  /-- A number that is negative, not whole or too large is refused, wherever a word should be. -/
  refused : ∀ w n, NumberAt w n v → ¬(∃ m : Nat, n = .integer m ∧ m < 2 ^ (8 * w.size)) →
    fromValue library v = .error .malformedConfig

/-- **Every value without arrays is read so**, whichever library reads it. -/
theorem readsConfiguration {library : JsonLibrary} (hr : library.asKept.Lawful) (hv : v.Plain) :
    ReadsConfiguration library v := by
  have haccepts : (∃ config, fromValue library v = .ok config) ↔ IsConfiguration v := by
    simp only [fromValue_eq_ok_iff]
    exact exists_read_iff hr hv
  refine ⟨haccepts, fun config hconfig => ?_, fun w n hn hfits => ?_⟩
  · have htells := (read_eq_some_iff hr hv).mp (fromValue_eq_ok_iff.mp hconfig)
    have ⟨members, hobject, _⟩ := htells
    subst hobject
    exact ⟨members, rfl, told_of_tellsFields htells⟩
  · exact fromValue_eq_error fun config hconfig => hfits <|
      (haccepts.mp ⟨config, hconfig⟩).fits hn

/-- A reset register of which only the address is written, and no interrupt. -/
theorem readsConfiguration_reset : ReadsConfiguration .standard (.object [("sci_interrupt", .null),
    ("reset_block_info", .object [("reset_reg", .object [("address", .number (.integer 0xCF9))]),
      ("reset_value", .number (.integer 15))])]) :=
  readsConfiguration Readers.lawful_standard {
    distinct := .object (by decide) <| List.forall_mem_cons.mpr ⟨.null,
      List.forall_mem_singleton.mpr (.object (by decide) <| List.forall_mem_cons.mpr
        ⟨.object (by decide) (List.forall_mem_singleton.mpr (.number _)),
          List.forall_mem_singleton.mpr (.number _)⟩)⟩
    arrayFree := .object <| List.forall_mem_cons.mpr ⟨.null,
      List.forall_mem_singleton.mpr (.object <| List.forall_mem_cons.mpr
        ⟨.object (List.forall_mem_singleton.mpr (.number _)),
          List.forall_mem_singleton.mpr (.number _)⟩)⟩ }

end Configuration

end AcpiTables
