import AcpiTables.Json.Kept
import AcpiTables.Proofs.Json.Document
import Mathlib.Data.List.Forall2

/-!
# Values as they are kept

One that reads a document may look at it as it comes, or keep it first and look at it later. What is
kept is less than what is written. Of several members of one key only the last is left, members have
no order any more, and a number is kept as an integer of 64 bits if it is one, and as something else
if it is not, which need not be exact. `AcpiTables.Json.KeptAs` says what may be left of a value,
and leaves the rest open: a value can be kept in many ways.

The one thing to know is which values can be kept as they are: those in which no object has two
members of one key (`AcpiTables.Json.Distinct.keptAs`). Keeping the last member in its place,
`AcpiTables.Json.lastWins`, is one way for all of them (`AcpiTables.Json.keptAs_lastWins`). Whether
a value is kept at all is another question, and it is answered only for the plainest ones, those
that are not nested deep and have no numbers but words (`AcpiTables.Json.Modest`).

| fact | theorem |
|---|---|
| values without several members of one key can be kept as they are | `AcpiTables.Json.Distinct.keptAs` |
| values may be kept with the last members in their places | `AcpiTables.Json.keptAs_lastWins` |
| modest values are kept | `AcpiTables.Json.Modest.keep?_eq` |
-/

namespace AcpiTables.Json

/-! ### Several members of one key -/

/-- **No object in the value has two members of one key.** -/
inductive Distinct : Json → Prop
  /-- No object is in `null`. -/
  | null : Distinct .null
  /-- No object is in `true` or `false`. -/
  | bool (value : Bool) : Distinct (.bool value)
  /-- No object is in a number. -/
  | number (value : Number) : Distinct (.number value)
  /-- No object is in a text. -/
  | text (value : String) : Distinct (.text value)
  /-- The objects in an array are in its items. -/
  | array {items : List Json} (hitems : ∀ item ∈ items, Distinct item) : Distinct (.array items)
  /-- An object has no two members of one key, and neither has any object in its members. -/
  | object {members : List (String × Json)} (hkeys : (members.map Prod.fst).Nodup)
    (hmembers : ∀ member ∈ members, Distinct member.2) : Distinct (.object members)

/-- The last member of a key. -/
def lastOf (members : List (String × Json)) (key : String) : Option Json :=
  members.reverse.lookup key

theorem mem_of_lookup {members : List (String × Json)} {key : String} {value : Json}
    (hvalue : members.lookup key = some value) : (key, value) ∈ members := by
  obtain ⟨front, back, rfl, -⟩ := List.lookup_eq_some_iff.mp hvalue
  exact List.mem_append_right front List.mem_cons_self

theorem mem_of_lastOf {members : List (String × Json)} {key : String} {value : Json}
    (hvalue : lastOf members key = some value) : (key, value) ∈ members :=
  List.mem_reverse.mp (mem_of_lookup hvalue)

/-- A key has a member exactly if it is one of the keys. -/
theorem isSome_lookup_iff {members : List (String × Json)} {key : String} :
    (members.lookup key).isSome ↔ key ∈ members.map Prod.fst := by
  rw [List.lookup_isSome_iff, List.mem_map]
  exact exists_congr fun member => and_congr_right fun _ => beq_iff_eq.trans eq_comm

theorem isSome_lastOf_iff {members : List (String × Json)} {key : String} :
    (lastOf members key).isSome ↔ key ∈ members.map Prod.fst := by
  rw [lastOf, isSome_lookup_iff, List.map_reverse, List.mem_reverse]

/-- Where keys are distinct, a member is found by its key. -/
theorem lookup_eq_some_of_mem {members : List (String × Json)}
    (hkeys : (members.map Prod.fst).Nodup) {key : String} {value : Json}
    (hmem : (key, value) ∈ members) : members.lookup key = some value := by
  induction members with
  | nil => exact nomatch hmem
  | cons member members ih =>
    obtain ⟨hnew, hkeys⟩ := List.nodup_cons.mp hkeys
    rcases List.mem_cons.mp hmem with rfl | hmem
    · exact List.lookup_cons_self
    · have hne : (key == member.1) = false := by
        rw [beq_eq_false_iff_ne]
        rintro rfl
        exact hnew (List.mem_map.mpr ⟨_, hmem, rfl⟩)
      rw [List.lookup_cons, hne]
      exact ih hkeys hmem

/-- Where keys are distinct, a member is the last of its key. -/
theorem lastOf_eq_lookup {members : List (String × Json)}
    (hkeys : (members.map Prod.fst).Nodup) (key : String) :
    lastOf members key = members.lookup key := by
  cases hlast : lastOf members key with
  | some value => exact (lookup_eq_some_of_mem hkeys (mem_of_lastOf hlast)).symm
  | none =>
    cases hfirst : members.lookup key with
    | none => rfl
    | some value =>
      have hreverse : (members.reverse.map Prod.fst).Nodup := by
        rw [List.map_reverse]
        exact (List.reverse_perm _).nodup_iff.mpr hkeys
      have hmem := List.mem_reverse.mpr (mem_of_lookup hfirst)
      rw [← lookup_eq_some_of_mem hreverse hmem]
      exact hlast.symm

/-! ### Keeping -/

/-- Numbers that are the same word of 64 bits, if one of them is any. -/
def Number.SameWord (n m : Number) : Prop :=
  ∀ word : Nat, word < UInt64.size → (n = .integer word ↔ m = .integer word)

/-- **What a value may be kept as.** -/
inductive KeptAs : Json → Json → Prop
  /-- The word `null` is kept. -/
  | null : KeptAs .null .null
  /-- The words `true` and `false` are kept. -/
  | bool (value : Bool) : KeptAs (.bool value) (.bool value)
  /-- A number is kept if it is a word of 64 bits, and may become any other if it is not. -/
  | number {n m : Number} (hword : n.SameWord m) : KeptAs (.number n) (.number m)
  /-- A text is kept. -/
  | text (value : String) : KeptAs (.text value) (.text value)
  /-- The items of an array are kept in their order. -/
  | array {items items' : List Json} (hitems : List.Forall₂ KeptAs items items') :
    KeptAs (.array items) (.array items')
  /-- Of the members of an object the last of each key is kept, in any order. -/
  | object {members members' : List (String × Json)} (hkeys : (members'.map Prod.fst).Nodup)
    (hmembers : ∀ key, Option.Rel KeptAs (lastOf members key) (members'.lookup key)) :
    KeptAs (.object members) (.object members')

/-- **Values without several members of one key can be kept as they are.** -/
theorem Distinct.keptAs {v : Json} (hv : v.Distinct) : v.KeptAs v := by
  induction hv with
  | null => exact .null
  | bool value => exact .bool value
  | number value => exact .number fun _ _ => Iff.rfl
  | text value => exact .text value
  | array hitems ih => exact .array (List.forall₂_same.mpr ih)
  | object hkeys hmembers ih =>
    refine .object hkeys fun key => ?_
    rw [lastOf_eq_lookup hkeys]
    cases hlookup : List.lookup key _ with
    | none => exact .none
    | some value => exact .some (ih _ (mem_of_lookup hlookup))

/-- Values that one value may be kept as. -/
def Alike (a b : Json) : Prop := ∃ v : Json, v.KeptAs a ∧ v.KeptAs b

/-- Items that are kept of the same items are alike, place by place. -/
theorem rel_getElem?_of_keptAs {items kept kept' : List Json}
    (hkept : List.Forall₂ KeptAs items kept) (hkept' : List.Forall₂ KeptAs items kept') (i : Nat) :
    Option.Rel Alike kept[i]? kept'[i]? := by
  induction hkept generalizing kept' i with
  | nil =>
    cases hkept'
    exact .none
  | cons hitem _ ih =>
    cases hkept' with
    | cons hitem' hkept' =>
      cases i with
      | zero => exact .some ⟨_, hitem, hitem'⟩
      | succ i => exact ih hkept' i

/-- Members that are kept of the same member are alike, or there is none. -/
theorem rel_of_keptAs {member kept kept' : Option Json} (hkept : Option.Rel KeptAs member kept)
    (hkept' : Option.Rel KeptAs member kept') : Option.Rel Alike kept kept' := by
  cases hkept with
  | none =>
    cases hkept'
    exact .none
  | some hvalue =>
    cases hkept' with
    | some hvalue' => exact .some ⟨_, hvalue, hvalue'⟩

/-- The keys that are kept are those that are written. -/
theorem mem_keys_iff_of_keptAs {members kept : List (String × Json)}
    (hkept : ∀ key, Option.Rel KeptAs (lastOf members key) (kept.lookup key)) (key : String) :
    key ∈ kept.map Prod.fst ↔ key ∈ members.map Prod.fst := by
  have hmember := hkept key
  rw [← isSome_lookup_iff, ← isSome_lastOf_iff]
  generalize lastOf members key = last, kept.lookup key = found at hmember
  cases hmember <;> rfl

/-! ### Keeping the last member in its place -/

theorem lastWinsItems_eq (items : List Json) : lastWinsItems items = items.map lastWins := by
  induction items with
  | nil => rfl
  | cons item items ih => rw [lastWinsItems, ih, List.map_cons]

theorem any_fst_iff {members : List (String × Json)} {key : String} :
    members.any (fun member => member.1 == key) = true ↔ key ∈ members.map Prod.fst := by
  simp only [List.any_eq_true, beq_iff_eq, List.mem_map]

/-- The last member of each key is left. -/
theorem lookup_lastWinsMembers (members : List (String × Json)) (key : String) :
    (lastWinsMembers members).lookup key = (lastOf members key).map lastWins := by
  induction members with
  | nil => rfl
  | cons member members ih =>
    obtain ⟨first, value⟩ := member
    have hlast : lastOf ((first, value) :: members) key =
        (lastOf members key).or (List.lookup key [(first, value)]) := by
      rw [lastOf, List.reverse_cons, List.lookup_append, ← lastOf]
    rw [hlast, lastWinsMembers]
    by_cases hkey : key = first
    · subst hkey
      rw [List.lookup_cons_self]
      split
      · next hagain =>
        obtain ⟨last, hlast⟩ := Option.isSome_iff_exists.mp (isSome_lastOf_iff.mpr
          (any_fst_iff.mp hagain))
        rw [ih, hlast, Option.some_or]
      · next hnew =>
        have hnone := Option.not_isSome_iff_eq_none.mp fun h =>
          hnew (any_fst_iff.mpr (isSome_lastOf_iff.mp h))
        rw [List.lookup_cons_self, hnone, Option.none_or, Option.map_some]
    · have hne : (key == first) = false := beq_eq_false_iff_ne.mpr hkey
      rw [List.lookup_cons, hne, List.lookup_nil, Option.or_none, ← ih]
      split
      · rfl
      · rw [List.lookup_cons, hne]

/-- No key is left twice. -/
theorem nodup_keys_lastWinsMembers (members : List (String × Json)) :
    ((lastWinsMembers members).map Prod.fst).Nodup := by
  induction members with
  | nil => exact List.nodup_nil
  | cons member members ih =>
    obtain ⟨first, value⟩ := member
    rw [lastWinsMembers]
    split
    · exact ih
    · next hnew =>
      refine List.nodup_cons.mpr ⟨fun hmem => hnew ?_, ih⟩
      rw [any_fst_iff, ← isSome_lastOf_iff]
      rw [← isSome_lookup_iff, lookup_lastWinsMembers, Option.isSome_map] at hmem
      exact hmem

/-- **A value may be kept with the last members in their places.** -/
theorem keptAs_lastWins (v : Json) : v.KeptAs v.lastWins := by
  induction v with
  | null => exact .null
  | bool value => exact .bool value
  | number value => exact .number fun _ _ => Iff.rfl
  | text value => exact .text value
  | array items ih =>
    rw [lastWins, lastWinsItems_eq]
    exact .array (List.forall₂_map_right_iff.mpr (List.forall₂_same.mpr ih))
  | object members ih =>
    rw [lastWins]
    refine .object (nodup_keys_lastWinsMembers members) fun key => ?_
    rw [lookup_lastWinsMembers]
    cases hlast : lastOf members key with
    | none => exact .none
    | some value => exact .some (ih _ (mem_of_lastOf hlast))

/-! ### What is kept -/

/-- **A value that is nested at most so deep**, and has no numbers but words of 64 bits. -/
inductive Modest : Nat → Json → Prop
  /-- Nothing is nested in `null`. -/
  | null (depth : Nat) : Modest depth .null
  /-- Nothing is nested in `true` or `false`. -/
  | bool (depth : Nat) (value : Bool) : Modest depth (.bool value)
  /-- A word. -/
  | number (depth : Nat) {word : Nat} (hword : word < UInt64.size) :
    Modest depth (.number (.integer word))
  /-- Nothing is nested in a text. -/
  | text (depth : Nat) (value : String) : Modest depth (.text value)
  /-- An array is nested one deeper than its items. -/
  | array {depth : Nat} {items : List Json} (hitems : ∀ item ∈ items, Modest depth item) :
    Modest (depth + 1) (.array items)
  /-- An object is nested one deeper than its members. -/
  | object {depth : Nat} {members : List (String × Json)}
    (hmembers : ∀ member ∈ members, Modest depth member.2) : Modest (depth + 1) (.object members)

theorem Modest.mono {depth depth' : Nat} {v : Json} (hv : Modest depth v) (hle : depth ≤ depth') :
    Modest depth' v := by
  induction hv generalizing depth' with
  | null => exact .null _
  | bool _ value => exact .bool _ value
  | number _ hword => exact .number _ hword
  | text _ value => exact .text _ value
  | array _ ih =>
    cases depth' with
    | zero => exact absurd hle (Nat.not_succ_le_zero _)
    | succ depth' => exact .array fun item hitem => ih item hitem (Nat.le_of_succ_le_succ hle)
  | object _ ih =>
    cases depth' with
    | zero => exact absurd hle (Nat.not_succ_le_zero _)
    | succ depth' =>
      exact .object fun member hmember => ih member hmember (Nat.le_of_succ_le_succ hle)

theorem areKeepable_iff {depth : Nat} {items : List Json} :
    areKeepable depth items = true ↔ ∀ item ∈ items, isKeepable depth item = true := by
  induction items with
  | nil => exact iff_of_true rfl nofun
  | cons item items ih => rw [areKeepable, Bool.and_eq_true, ih, List.forall_mem_cons]

theorem haveKeepable_iff {depth : Nat} {members : List (String × Json)} :
    haveKeepable depth members = true ↔
      ∀ member ∈ members, isKeepable depth member.2 = true := by
  induction members with
  | nil => exact iff_of_true rfl nofun
  | cons member members ih => rw [haveKeepable, Bool.and_eq_true, ih, List.forall_mem_cons]

/-- Words of 64 bits are far below the limit. -/
theorem Number.size_le_limit : UInt64.size ≤ limit := by decide

/-- **Modest values can be kept.** -/
theorem Modest.isKeepable {depth : Nat} {v : Json} (hv : Modest depth v) :
    v.isKeepable depth = true := by
  induction hv with
  | null | bool | text => rfl
  | number _ hword =>
    rw [Json.isKeepable, Number.isFinite, decide_eq_true_eq, Int.natAbs_natCast]
    exact Nat.lt_of_lt_of_le hword Number.size_le_limit
  | array _ ih => exact areKeepable_iff.mpr ih
  | object _ ih => exact haveKeepable_iff.mpr ih

/-- **Modest values are kept**, with the last members in their places. -/
theorem Modest.keep?_eq {v : Json} (hv : v.Modest maxDepth) : v.keep? = some v.lastWins :=
  if_pos hv.isKeepable

theorem keptAs_of_keep? {v kept : Json} (hkept : v.keep? = some kept) : v.KeptAs kept := by
  rw [keep?] at hkept
  split at hkept
  · obtain rfl := Option.some.inj hkept
    exact v.keptAs_lastWins
  · exact nomatch hkept

end AcpiTables.Json
