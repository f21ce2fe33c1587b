import AcpiTables.Platform.ConfigurationText
import AcpiTables.Proofs.Platform.Library

/-!
# A library that reads JSON as it should

The library of this project is one of those that can be relied on
(`AcpiTables.JsonLibrary.lawful_standard`). Its readers go by layouts, row by row, and what they are
asked for is said by tables, field by field.

The one thing to know is that a table and a layout are compared only once, by
`AcpiTables.Layout.Lists`: from then on a row is read exactly if each field of the table is
(`AcpiTables.Layout.Lists.ofMembers?_eq_some_iff`). An array is no different from an object, since
its items get the names of the fields first.
-/

namespace AcpiTables

variable {α : Type} {members : List (String × Json)} {v : Json}

/-! ### Words -/

/-- A word is read of a number that is one. -/
theorem Scalar.ofJson?_word_eq_some_iff {w : Width} {x : w.Value} :
    (Scalar.word w).ofJson? v = some x ↔ v = .number (.integer (w.toNat x)) := by
  constructor
  · intro hv
    cases v with
    | null | bool | text | array | object => exact nomatch hv
    | number n =>
      cases n with
      | decimal => exact nomatch hv
      | integer value =>
        rw [ofJson?] at hv
        split at hv
        · next hrange =>
          obtain rfl := Option.some.inj hv
          rw [Width.toNat_truncate, Nat.mod_eq_of_lt hrange.2, Int.toNat_of_nonneg hrange.1]
        · exact nomatch hv
  · rintro rfl
    have hrange : 0 ≤ (w.toNat x : Int) ∧ ((w.toNat x : Int)).toNat < Bytes.capacity w.size :=
      ⟨Int.natCast_nonneg _, w.toNat_lt x⟩
    rw [ofJson?, if_pos hrange, Int.toNat_natCast, Width.truncate_toNat]

/-! ### Rows -/

namespace Layout

variable {name : String} {rest : Layout}

/-- Two things that are both read are a pair. -/
theorem bind_pair_eq_some_iff {α β : Type} {first : Option α} {second : Option β} {p : α × β} :
    (do let x ← first; return (x, ← second) : Option (α × β)) = some p ↔
      first = some p.1 ∧ second = some p.2 := by
  cases first with
  | none => exact iff_of_false nofun fun h => nomatch h.1
  | some x =>
    cases second with
    | none => exact iff_of_false nofun fun h => nomatch h.2
    | some y =>
      rw [Option.some_inj, Option.some_inj]
      exact Option.some_inj.trans Prod.ext_iff

/-- The member of a field is read, if it is there, and so is the rest. -/
theorem ofMembers?_field_iff {type : Scalar} {row : (field name type rest).Row} :
    (field name type rest).ofMembers? members = some row ↔
      (members.lookup name).elim (some type.zero) type.ofJson? = some row.1 ∧
        rest.ofMembers? members = some row.2 := by
  rw [ofMembers?]
  cases members.lookup name with
  | none => exact bind_pair_eq_some_iff
  | some v => exact bind_pair_eq_some_iff

/-- The members of a group are read, if it is there, and so is the rest. -/
theorem ofMembers?_group_iff {inner : Layout} {row : (group name inner rest).Row} :
    (group name inner rest).ofMembers? members = some row ↔
      (members.lookup name).elim (some inner.zero) inner.ofJson? = some row.1 ∧
        rest.ofMembers? members = some row.2 := by
  rw [ofMembers?]
  cases members.lookup name with
  | none => exact bind_pair_eq_some_iff
  | some v => rw [Option.elim_some, ofJson?, ← bind_pair_eq_some_iff, bind_assoc]

end Layout

/-- A structure is read if its row is. -/
theorem Packed.ofJson?_eq_some_iff [Packed α] {a : α} :
    Packed.ofJson? v = some a ↔ (Packed.layout α).ofJson? v = some (Packed.toRow a) := by
  rw [Packed.ofJson?, Option.map_eq_map, Option.map_eq_some_iff]
  constructor
  · rintro ⟨row, hrow, rfl⟩
    rw [hrow, Packed.toRow_ofRow]
  · exact fun hrow => ⟨_, hrow, Packed.ofRow_toRow a⟩

namespace Layout.Lists

variable {l : Layout} {row : α → l.Row} {fields : List (Field α)} (hl : Lists l row fields)

include hl

theorem names_eq : l.names = fields.map Field.name := by
  induction hl with
  | done => rfl
  | word _ ih => rw [names, ih, List.map_cons]
  | address _ ih => rw [names, ih, List.map_cons]

/-- **A row is read field by field.** -/
theorem ofMembers?_eq_some_iff {zero : α} (hzero : row zero = l.zero) (a : α) :
    l.ofMembers? members = some (row a) ↔
      ∀ field ∈ fields, (members.lookup field.name).elim (some (field.value zero))
        (field.form.read .standard) = some (field.value a) := by
  induction hl with
  | done => exact iff_of_true rfl nofun
  | word _ ih =>
    obtain ⟨hvalue, hrest⟩ := Prod.mk.inj hzero
    rw [ofMembers?_field_iff, List.forall_mem_cons, ih hrest, ← hvalue]
    rfl
  | @address name rest value row fields _ ih =>
    obtain ⟨hvalue, hrest⟩ := Prod.mk.inj hzero
    rw [ofMembers?_group_iff, List.forall_mem_cons, ih hrest, ← hvalue]
    refine and_congr_left fun _ => ?_
    dsimp only
    cases members.lookup name with
    | none => exact Option.some_inj.trans (GenericAddress.toRow_injective.eq_iff.trans
        Option.some_inj.symm)
    | some v =>
      have hread : Packed.ofJson? v = some (value a) ↔
        GenericAddress.layout.ofJson? v = some (value a).toRow := Packed.ofJson?_eq_some_iff
      exact hread.symm

end Layout.Lists

/-! ### Members -/

/-- The keys are known, and none comes twice. -/
theorem Json.areKeysOf_iff {names : List String} : Json.areKeysOf names members = true ↔
    (∀ key ∈ members.map Prod.fst, key ∈ names) ∧ (members.map Prod.fst).Nodup := by
  simp only [Json.areKeysOf, Bool.and_eq_true, List.all_eq_true, List.contains_iff_mem,
    decide_eq_true_eq, List.forall_mem_map]

/-- The members of an object are those that it has. -/
theorem Json.members?_object_eq_some_iff {names : List String}
    {found : List (String × Json)} : (Json.object members).members? names = some found ↔
      ((∀ key ∈ members.map Prod.fst, key ∈ names) ∧ (members.map Prod.fst).Nodup) ∧
        members = found := by
  rw [Json.members?, ← Json.areKeysOf_iff]
  split
  · next hkeys => rw [Option.some.injEq, and_iff_right hkeys]
  · next hkeys => exact iff_of_false nofun fun h => hkeys h.1

/-- The members of an array are its items under the names. -/
theorem Json.members?_array_eq_some_iff {names : List String} {items : List Json}
    {found : List (String × Json)} : (Json.array items).members? names = some found ↔
      items.length ≤ names.length ∧ names.zip items = found := by
  rw [Json.members?]
  split
  · next hlength => rw [Option.some.injEq, and_iff_right hlength]
  · next hlength => exact iff_of_false nofun fun h => hlength h.1

/-- An item is found by the name that it gets. -/
theorem lookup_zip {names : List String} (hnames : names.Nodup) {i : Nat} {name : String}
    (hname : names[i]? = some name) (items : List Json) :
    (names.zip items).lookup name = items[i]? := by
  induction names generalizing items i with
  | nil => exact nomatch hname
  | cons first names ih =>
    obtain ⟨hnew, hnames⟩ := List.nodup_cons.mp hnames
    cases items with
    | nil => rw [List.zip_nil_right, List.lookup_nil, List.getElem?_nil]
    | cons item items =>
      cases i with
      | zero =>
        obtain rfl := Option.some.inj hname
        rw [List.zip_cons_cons, List.lookup_cons_self, List.getElem?_cons_zero]
      | succ i =>
        rw [List.getElem?_cons_succ] at hname
        have hne : (name == first) = false := by
          rw [beq_eq_false_iff_ne]
          rintro rfl
          exact hnew (List.mem_of_getElem? hname)
        rw [List.zip_cons_cons, List.lookup_cons, hne, List.getElem?_cons_succ]
        exact ih hnames hname items

/-- What is asked of the items under the names of fields is asked of them in order. -/
theorem forall_lookup_zip_iff {fields : List (Field α)} (hnames : (fields.map Field.name).Nodup)
    (items : List Json) {P : Field α → Option Json → Prop} :
    (∀ field ∈ fields, P field (((fields.map Field.name).zip items).lookup field.name)) ↔
      ∀ (i : Nat) (field : Field α), fields[i]? = some field → P field items[i]? := by
  have hlookup : ∀ (i : Nat) (field : Field α), fields[i]? = some field →
      ((fields.map Field.name).zip items).lookup field.name = items[i]? := fun i field hfield =>
    lookup_zip hnames (by rw [List.getElem?_map, hfield, Option.map_some]) items
  constructor
  · intro h i field hfield
    rw [← hlookup i field hfield]
    exact h field (List.mem_of_getElem? hfield)
  · intro h field hmem
    obtain ⟨i, hfield⟩ := List.mem_iff_getElem?.mp hmem
    rw [hlookup i field hfield]
    exact h i field hfield

/-! ### Structures -/

/-- **A structure is read as is declared**, if what is left out is zero and no other key is
allowed. -/
theorem Packed.derives_standard [Packed α] {fields : List (Field α)}
    (hl : Layout.Lists (Packed.layout α) Packed.toRow fields)
    (hnames : (fields.map Field.name).Nodup) :
    Readers.standard.Derives ⟨true, true⟩ Packed.zero fields Packed.ofJson? where
  object members a := by
    have hknown : (∀ key ∈ members.map Prod.fst, key ∈ (Packed.layout α).names) ↔
        ∀ key ∈ members.map Prod.fst, ∃ field ∈ fields, field.name = key := by
      rw [hl.names_eq]
      exact forall₂_congr fun key _ => List.mem_map
    rw [Packed.ofJson?_eq_some_iff, Layout.ofJson?, Option.bind_eq_bind, Option.bind_eq_some_iff]
    simp only [Json.members?_object_eq_some_iff, hknown, and_assoc, exists_and_left,
      exists_eq_left', hl.ofMembers?_eq_some_iff (Packed.toRow_ofRow _), forall_const]
    refine Iff.trans (and_congr_right fun hkeys => ?_) and_left_comm
    rw [Field.nodup_keys_iff hkeys]
    rfl
  array items a := by
    rw [Packed.ofJson?_eq_some_iff, Layout.ofJson?, Option.bind_eq_bind, Option.bind_eq_some_iff]
    simp only [Json.members?_array_eq_some_iff, and_assoc, exists_and_left, exists_eq_left',
      hl.ofMembers?_eq_some_iff (Packed.toRow_ofRow _), hl.names_eq, List.length_map]
    exact and_congr_right fun _ => forall_lookup_zip_iff hnames items
      (P := fun field part => part.elim (some (field.value Packed.zero))
        (field.form.read .standard) = some (field.value a))
  other v hv := by
    cases v with
    | array | object => exact nomatch hv
    | null | bool | number | text => rfl

/-! ### Configurations -/

namespace Configuration

variable {config : Configuration}

/-- A record is read if it is there. -/
theorem recordOf?_eq (members : List (String × Json)) (kind : RecordKind) :
    recordOf? members kind =
      (members.lookup kind.key).elim (some none) (Readers.standard.optional kind) := by
  rw [recordOf?]
  cases members.lookup kind.key with
  | none => rfl
  | some v => rfl

/-- A configuration is read if each record is. -/
theorem ofJson?_eq_some_iff : ofJson? v = some config ↔ ∃ members, members? v = some members ∧
    ∀ kind, recordOf? members kind = some (config.record kind) := by
  rw [ofJson?, Option.bind_eq_bind, Option.bind_eq_some_iff]
  refine exists_congr fun members => and_congr_right fun _ => ?_
  constructor
  · intro hconfig kind
    split at hconfig
    · next hall =>
      obtain rfl := Option.some.inj hconfig
      have hread := List.all_eq_true.mp hall kind (RecordKind.mem_all kind)
      obtain ⟨record, hrecord⟩ := Option.isSome_iff_exists.mp hread
      dsimp only
      rw [hrecord, Option.join_some]
    · exact absurd hconfig (Option.some_ne_none config).symm
  · intro hread
    have hall : (RecordKind.all.all fun kind => (recordOf? members kind).isSome) = true :=
      List.all_eq_true.mpr fun kind _ => by rw [hread, Option.isSome_some]
    rw [if_pos hall]
    refine congrArg (fun record => some (mk record)) (funext fun kind => ?_)
    rw [hread]
    rfl

theorem names_fields : fields.map Field.name = RecordKind.all.map RecordKind.key := by
  rw [fields, List.map_map]
  rfl

theorem nodup_names : (fields.map Field.name).Nodup := by
  rw [names_fields]
  decide

/-- An array is one of all records. -/
theorem members?_array_eq_some_iff {items : List Json} {found : List (String × Json)} :
    members? (.array items) = some found ↔
      items.length = fields.length ∧ (fields.map Field.name).zip items = found := by
  have hcount : fields.length = RecordKind.all.length := List.length_map _
  rw [members?, names_fields, hcount]
  split
  · next hlength =>
    rw [Json.members?_array_eq_some_iff, List.length_map]
    exact and_congr_left fun _ => iff_of_true (Nat.le_of_eq hlength) hlength
  · next hlength => exact iff_of_false nofun fun h => hlength h.1

/-- What is asked of every record is asked of every field. -/
theorem forall_recordOf?_iff (members : List (String × Json)) :
    (∀ kind, recordOf? members kind = some (config.record kind)) ↔
      ∀ field ∈ fields, (members.lookup field.name).elim (field.omitted rules empty)
        (field.form.read .standard) = some (field.value config) := by
  simp only [recordOf?_eq]
  refine ⟨fun h => List.forall_mem_map.mpr fun kind _ => h kind, fun h kind => ?_⟩
  exact List.forall_mem_map.mp h kind (RecordKind.mem_all kind)

/-- **A configuration is read as is declared.** -/
theorem derives_standard : Readers.standard.Derives rules empty fields ofJson? where
  object members config := by
    have hknown : (∀ key ∈ members.map Prod.fst, key ∈ RecordKind.all.map RecordKind.key) ↔
        ∀ key ∈ members.map Prod.fst, ∃ field ∈ fields, field.name = key := by
      rw [← names_fields]
      exact forall₂_congr fun key _ => List.mem_map
    rw [ofJson?_eq_some_iff]
    simp only [members?, Json.members?_object_eq_some_iff, hknown, and_assoc, exists_and_left,
      exists_eq_left', forall_recordOf?_iff]
    rw [imp_iff_right (show rules.refusesUnknown = true from rfl)]
    refine Iff.trans (and_congr_right fun hkeys => ?_) and_left_comm
    rw [Field.nodup_keys_iff hkeys]
  array items config := by
    have hzip := forall_lookup_zip_iff nodup_names items (P := fun field part =>
      part.elim (field.omitted rules empty) (field.form.read .standard) =
        some (field.value config))
    rw [ofJson?_eq_some_iff]
    simp only [members?_array_eq_some_iff, and_assoc, exists_and_left, exists_eq_left',
      forall_recordOf?_iff, hzip]
    constructor
    · rintro ⟨hlength, hread⟩
      refine ⟨Nat.le_of_eq hlength, fun i field hfield => ?_⟩
      have hi := (List.getElem?_eq_some_iff.mp hfield).1
      have hvalue := hread i field hfield
      rw [List.getElem?_eq_getElem (hlength ▸ hi)] at hvalue ⊢
      exact hvalue
    · rintro ⟨hlength, hread⟩
      -- No record is filled in, so the array is not too short.
      have hall : ∀ i, i < fields.length → i < items.length := by
        intro i hi
        by_contra hshort
        have hvalue := hread i _ (List.getElem?_eq_getElem hi)
        rw [List.getElem?_eq_none (Nat.le_of_not_lt hshort)] at hvalue
        exact nomatch hvalue
      have hlong : fields.length ≤ items.length :=
        Nat.le_of_not_lt fun h => Nat.lt_irrefl _ (hall _ h)
      refine ⟨Nat.le_antisymm hlength hlong, fun i field hfield => ?_⟩
      have hi := hall i (List.getElem?_eq_some_iff.mp hfield).1
      have hvalue := hread i field hfield
      rw [List.getElem?_eq_getElem hi] at hvalue ⊢
      exact hvalue
  other v hv := by
    cases v with
    | array | object => exact nomatch hv
    | null | bool | number | text => rfl

end Configuration

/-! ### All of it -/

namespace Readers

/-- **The readers go by what is declared.** -/
theorem lawful_standard : Readers.standard.Lawful where
  word _ _ _ := Scalar.ofJson?_word_eq_some_iff
  address := Packed.derives_standard GenericAddress.lists_fields (by decide)
  record kind := by
    have hrules : kind.rules = ⟨true, true⟩ := by cases kind <;> rfl
    rw [hrules]
    exact Packed.derives_standard kind.lists_fields kind.nodup_names
  optional_null _ := rfl
  optional_of_ne_null kind v hv := by
    cases v with
    | null => exact absurd rfl hv
    | bool | number | text | array | object => rfl
  configuration := Configuration.derives_standard

end Readers

namespace JsonLibrary

/-- Of a modest document the last members are kept, in their places. -/
theorem value?_standard {text : String} (hv : Json.parse? text = some v)
    (hmodest : v.Modest Json.maxDepth) : JsonLibrary.standard.value? text = some v.lastWins :=
  Option.bind_eq_some_iff.mpr ⟨v, hv, hmodest.keep?_eq⟩

/-- **The library of this project does what is relied on.** -/
theorem lawful_standard : JsonLibrary.standard.Lawful where
  asWritten := Readers.lawful_standard
  asKept := Readers.lawful_standard
  document?_blanks text front back hfront hback :=
    congrArg (·.bind Json.ofTokens?) (Json.tokens?_append_blanks hfront hback text)
  configuration?_iff _ _ := Option.bind_eq_some_iff
  keptAs text kept hkept := by
    obtain ⟨v, hv, hkept⟩ := Option.bind_eq_some_iff.mp hkept
    exact ⟨v, hv, Json.keptAs_of_keep? hkept⟩
  keeps _ v hv hmodest := ⟨v.lastWins, value?_standard hv hmodest⟩

end JsonLibrary

end AcpiTables
