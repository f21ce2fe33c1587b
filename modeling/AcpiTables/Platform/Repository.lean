import AcpiTables.Log.Entry
import AcpiTables.Platform.Provider

/-!
# Record repositories

A repository is a provider that keeps its records itself. Records are added one by one
under their kind and a token, and are answered in the order in which they were added.
Where no record was added there is no answer, not an empty one.
-/

namespace AcpiTables

/-- The records under one key. -/
structure Holding where
  /-- The records, side by side. -/
  data : Bytes
  /-- How many records there are. -/
  count : UInt32
deriving DecidableEq, Repr

/-- Records by their kind and token. No key is listed twice. -/
structure Repository where
  /-- The keys with records, in the order in which they came in. -/
  holdings : List ((RecordKind × UInt64) × Holding)
deriving DecidableEq, Repr

namespace Repository

/-- The repository without records. -/
def empty : Repository := ⟨[]⟩

/-- The records under a key. -/
def find? (r : Repository) (kind : RecordKind) (token : UInt64) : Option Holding :=
  r.holdings.lookup (kind, token)

/-- Puts records behind those under a key. -/
def insert (key : RecordKind × UInt64) (more : Holding) :
    List ((RecordKind × UInt64) × Holding) → List ((RecordKind × UInt64) × Holding)
  | [] => [(key, more)]
  | (k, held) :: rest =>
    if k = key then (k, ⟨held.data ++ more.data, held.count + more.count⟩) :: rest
    else (k, held) :: insert key more rest

/-- Putting records under a key changes what is under this key, and no other key. -/
theorem lookup_insert (key k : RecordKind × UInt64) (more : Holding)
    (l : List ((RecordKind × UInt64) × Holding)) :
    (insert key more l).lookup k =
      if k = key then
        some (((l.lookup key).map fun held =>
          ⟨held.data ++ more.data, held.count + more.count⟩).getD more)
      else l.lookup k := by
  induction l with
  | nil => by_cases hk : k = key <;> simp [insert, hk]
  | cons p rest ih =>
    obtain ⟨k', held⟩ := p
    by_cases hp : k' = key
    · subst hp
      by_cases hk : k = k'
      · simp [insert, hk]
      · have hne : (k == k') = false := beq_eq_false_iff_ne.mpr hk
        simp [insert, hk, List.lookup_cons, hne]
    · by_cases hk : k = key
      · subst hk
        have hne : (k == k') = false := beq_eq_false_iff_ne.mpr fun h => hp h.symm
        simp [insert, hp, List.lookup_cons, hne, ih]
      · by_cases hkk : k = k' <;> simp [insert, hp, hk, List.lookup_cons, hkk, ih]

/-- Adds a record. -/
def add (r : Repository) (kind : RecordKind) (token : UInt64) (record : kind.Record) :
    Repository :=
  ⟨insert (kind, token) ⟨Packed.encode record, 1⟩ r.holdings⟩

/-- Adds several records in order. -/
def addList (r : Repository) (kind : RecordKind) (token : UInt64) (records : List kind.Record) :
    Repository :=
  records.foldl (fun r record => r.add kind token record) r

/-- Takes away all records under a key, and tells whether there were any. -/
def remove (r : Repository) (kind : RecordKind) (token : UInt64) : Bool × Repository :=
  ((r.find? kind token).isSome, ⟨r.holdings.filter fun held => held.1 ≠ (kind, token)⟩)

/-- The repository as a provider. -/
def provider (r : Repository) : Provider := fun kind token =>
  match r.find? kind token with
  | some held => .ok ⟨kind, held.data, held.count⟩
  | none => .error (.notFound kind)

end Repository

end AcpiTables
