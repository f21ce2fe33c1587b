import AcpiTables.Platform.Repository
import AcpiTables.Proofs.Packed
import AcpiTables.Proofs.Request
import Mathlib.Logic.Function.Basic

/-!
# A repository is a ledger of records

A repository keeps, under each kind and token, a byte string and a number, and nothing that says
where a record ends. What it stands for is an `AcpiTables.Repository.Ledger`: a list of records
under each key. Adding a record puts it behind the others of its key, and removing a key empties its
list.

The one thing to know is what the bytes and the number are (`AcpiTables.Repository.Holds`): the
records of the key side by side, and how many there are, and nothing at all if there are none. Each
request keeps this, and from it every answer follows.

| result | theorem |
|---|---|
| a request keeps a repository and its ledger together | `AcpiTables.Repository.Request.holds_apply` |
| answers are told by the ledger | `AcpiTables.Repository.Holds.serves` |
| so they are after any requests, key by key | `AcpiTables.Repository.serves_run` |
-/

namespace AcpiTables

/-- No kind of record is empty, so that records can be counted by their bytes. -/
theorem RecordKind.size_pos (kind : RecordKind) : 0 < Packed.size kind.Record := by
  cases kind <;> decide

/-- **What was announced is read**: records side by side, with their number. -/
theorem Answer.records_of_encode {kind : RecordKind} (records : List kind.Record) {count : UInt32}
    (hcount : count.toNat = records.length) :
    Answer.records ⟨kind, records.flatMap Packed.encode, count⟩ kind = .ok records := by
  have hlength := Packed.length_flatMap_encode records
  have htake : (records.flatMap Packed.encode).take (count.toNat * Packed.size kind.Record) =
      records.flatMap Packed.encode := by
    rw [hcount, ← hlength, List.take_length]
  have hfits : ¬((records.flatMap Packed.encode).length % Packed.size kind.Record ≠ 0 ∨
      (records.flatMap Packed.encode).length < count.toNat * Packed.size kind.Record) := by
    rw [hcount, hlength, Nat.mul_mod_left]
    simp
  simp only [Answer.records, ne_eq, not_true_eq_false, if_false, if_neg hfits, htake,
    Packed.manyOfBytes?_flatMap_encode kind.size_pos]

namespace Repository

variable {r : Repository} {kind : RecordKind} {token : UInt64}

/-! ### Ledgers -/

/-- The records under each key, in the order in which they were added. -/
abbrev Ledger := (kind : RecordKind) → UInt64 → List kind.Record

/-- A ledger with other records under one key. -/
def Ledger.write (l : Ledger) (kind : RecordKind) (token : UInt64) (records : List kind.Record) :
    Ledger := Function.update l kind (Function.update (l kind) token records)

namespace Ledger

variable {l : Ledger}

@[simp] theorem write_self (records : List kind.Record) :
    l.write kind token records kind token = records := by
  rw [write, Function.update_self, Function.update_self]

theorem write_of_ne {records : List kind.Record} {kind' : RecordKind} {token' : UInt64}
    (hne : (kind', token') ≠ (kind, token)) :
    l.write kind token records kind' token' = l kind' token' := by
  rw [write]
  by_cases hk : kind' = kind
  · subst hk
    have ht : token' ≠ token := fun ht => hne (by rw [ht])
    rw [Function.update_self, Function.update_of_ne ht]
  · rw [Function.update_of_ne hk]

@[simp] theorem write_eq_self (l : Ledger) : l.write kind token (l kind token) = l := by
  rw [write, Function.update_eq_self, Function.update_eq_self]

@[simp] theorem write_write (records more : List kind.Record) :
    (l.write kind token records).write kind token more = l.write kind token more := by
  rw [write, write, Function.update_self, Function.update_idem, Function.update_idem, ← write]

end Ledger

/-! ### What a key holds -/

/-- What a repository holds for some records of one key. -/
def holding : List kind.Record → Option Holding
  | [] => none
  | record :: records => some ⟨(record :: records).flatMap Packed.encode,
      UInt32.ofNat (record :: records).length⟩

/-- **A repository holds what a ledger lists**, under every key. -/
def Holds (r : Repository) (l : Ledger) : Prop :=
  ∀ kind token, r.find? kind token = holding (l kind token)

theorem holds_empty : empty.Holds fun _ _ => [] := fun _ _ => rfl

/-- One more record under a key. -/
theorem getD_holding (records : List kind.Record) (record : kind.Record) :
    some (((holding records).map fun held =>
      ⟨held.data ++ Packed.encode record, held.count + 1⟩).getD ⟨Packed.encode record, 1⟩) =
      holding (records ++ [record]) := by
  cases records with
  | nil => simp [holding]
  | cons first records =>
    have hcount : UInt32.ofNat ((first :: records) ++ [record]).length =
        UInt32.ofNat (first :: records).length + 1 := by
      rw [List.length_append, UInt32.ofNat_add]
      rfl
    rw [List.cons_append] at hcount ⊢
    simp only [holding, Option.map_some, Option.getD_some, hcount]
    rw [← List.cons_append, List.flatMap_append, List.flatMap_singleton]

theorem Holds.add {l : Ledger} (hr : r.Holds l) (kind : RecordKind) (token : UInt64)
    (record : kind.Record) :
    (r.add kind token record).Holds (l.write kind token (l kind token ++ [record])) := by
  intro kind' token'
  rw [find?, Repository.add, lookup_insert]
  by_cases hkey : (kind', token') = (kind, token)
  · obtain ⟨rfl, rfl⟩ := Prod.mk.inj hkey
    have hfound : r.holdings.lookup (kind', token') = holding (l kind' token') := hr kind' token'
    rw [if_pos rfl, hfound, Ledger.write_self, getD_holding]
  · rw [if_neg hkey, Ledger.write_of_ne hkey]
    exact hr kind' token'

theorem Holds.addList {l : Ledger} (hr : r.Holds l) (kind : RecordKind) (token : UInt64)
    (records : List kind.Record) :
    (r.addList kind token records).Holds (l.write kind token (l kind token ++ records)) := by
  induction records generalizing r l with
  | nil =>
    rw [List.append_nil, Ledger.write_eq_self]
    exact hr
  | cons record records ih =>
    have hrest := ih (hr.add kind token record)
    rwa [Ledger.write_self, Ledger.write_write, List.append_assoc] at hrest

/-- Taking a key away takes nothing else away. -/
theorem lookup_filter_ne (key k : RecordKind × UInt64)
    (held : List ((RecordKind × UInt64) × Holding)) :
    (held.filter fun p => p.1 ≠ key).lookup k = if k = key then none else held.lookup k := by
  induction held with
  | nil => simp
  | cons p held ih =>
    obtain ⟨k', value⟩ := p
    by_cases hp : k' = key
    · subst hp
      rw [List.filter_cons_of_neg (by simp), ih]
      by_cases hk : k = k'
      · rw [if_pos hk, if_pos hk]
      · rw [if_neg hk, if_neg hk, List.lookup_cons, beq_eq_false_iff_ne.mpr hk]
    · rw [List.filter_cons_of_pos (by simpa using hp), List.lookup_cons, List.lookup_cons, ih]
      by_cases hk : k = k'
      · have hkey : k ≠ key := fun he => hp (hk.symm.trans he)
        rw [if_neg hkey, if_neg hkey]
      · rw [beq_eq_false_iff_ne.mpr hk]

theorem find?_remove (r : Repository) (kind kind' : RecordKind) (token token' : UInt64) :
    (r.remove kind token).2.find? kind' token' =
      if (kind', token') = (kind, token) then none else r.find? kind' token' :=
  lookup_filter_ne (kind, token) (kind', token') r.holdings

theorem Holds.remove {l : Ledger} (hr : r.Holds l) (kind : RecordKind) (token : UInt64) :
    (r.remove kind token).2.Holds (l.write kind token []) := by
  intro kind' token'
  rw [find?_remove]
  by_cases hkey : (kind', token') = (kind, token)
  · obtain ⟨rfl, rfl⟩ := Prod.mk.inj hkey
    rw [if_pos rfl, Ledger.write_self, holding]
  · rw [if_neg hkey, Ledger.write_of_ne hkey]
    exact hr kind' token'

/-! ### Requests -/

/-- What can be asked of a repository that changes it. -/
inductive Request where
  /-- A record is added under a token. -/
  | add (kind : RecordKind) (token : UInt64) (record : kind.Record)
  /-- Several records are added under a token. -/
  | addList (kind : RecordKind) (token : UInt64) (records : List kind.Record)
  /-- The records of a kind under a token are taken away. -/
  | remove (kind : RecordKind) (token : UInt64)

namespace Request

/-- The key that a request is about. -/
def key : Request → RecordKind × UInt64
  | add kind token _ => (kind, token)
  | addList kind token _ => (kind, token)
  | remove kind token => (kind, token)

/-- The repository after a request. -/
def apply (r : Repository) : Request → Repository
  | add kind token record => r.add kind token record
  | addList kind token records => r.addList kind token records
  | remove kind token => (r.remove kind token).2

/-- The ledger after a request. -/
def enter (l : Ledger) : Request → Ledger
  | add kind token record => l.write kind token (l kind token ++ [record])
  | addList kind token records => l.write kind token (l kind token ++ records)
  | remove kind token => l.write kind token []

/-- A request keeps a repository and its ledger together. -/
theorem holds_apply {l : Ledger} (hr : r.Holds l) (request : Request) :
    (request.apply r).Holds (request.enter l) := by
  cases request with
  | add kind token record => exact hr.add kind token record
  | addList kind token records => exact hr.addList kind token records
  | remove kind token => exact hr.remove kind token

end Request

/-- The repository after some requests. -/
def run (requests : List Request) : Repository :=
  requests.foldl (fun r request => request.apply r) empty

/-- The ledger of some requests. -/
def ledger (requests : List Request) : Ledger :=
  requests.foldl (fun l request => request.enter l) fun _ _ => []

theorem holds_run (requests : List Request) : (run requests).Holds (ledger requests) := by
  have hgo : ∀ (r : Repository) (l : Ledger), r.Holds l →
      (requests.foldl (fun r request => request.apply r) r).Holds
        (requests.foldl (fun l request => request.enter l) l) := by
    induction requests with
    | nil => exact fun _ _ hr => hr
    | cons request requests ih => exact fun _ _ hr => ih _ _ (request.holds_apply hr)
  exact hgo empty _ holds_empty

/-! ### Answers -/

/-- **Answers are told by the records of the key**: all of them and the first of them are read, what
is handed over is their bytes and their number, and there is no empty answer. -/
structure Serves (r : Repository) (kind : RecordKind) (token : UInt64)
    (records : List kind.Record) : Prop where
  /-- The records are read as they are, in their order. -/
  records_eq : r.provider.records kind token =
    if records.isEmpty then .error (.notFound kind) else .ok records
  /-- The first of them is read. -/
  record_eq : r.provider.record kind token =
    records.head?.elim (.error (.notFound kind)) .ok
  /-- Their bytes are handed over, and their number. -/
  answer_eq : ∃ count : UInt32, count.toNat = records.length ∧ r.provider kind token =
    if records.isEmpty then .error (.notFound kind)
    else .ok ⟨kind, records.flatMap Packed.encode, count⟩
  /-- Taking them away tells whether there were any. -/
  remove_eq : (r.remove kind token).1 = !records.isEmpty

/-- What a repository holds is what it answers. -/
theorem Holds.serves {l : Ledger} (hr : r.Holds l) {kind : RecordKind} {token : UInt64}
    (hcount : (l kind token).length < UInt32.size) : r.Serves kind token (l kind token) := by
  have hfound := hr kind token
  generalize l kind token = records at hfound hcount
  cases records with
  | nil =>
    rw [holding] at hfound
    have hanswer : r.provider kind token = .error (.notFound kind) := by rw [provider, hfound]
    have hrecords : r.provider.records kind token = .error (.notFound kind) := by
      rw [Provider.records, hanswer]
      rfl
    refine ⟨hrecords, ?_, ⟨0, rfl, hanswer⟩, by rw [Repository.remove, hfound]; rfl⟩
    rw [Provider.record, hrecords]
    rfl
  | cons first rest =>
    rw [holding] at hfound
    have hnumber : (UInt32.ofNat (first :: rest).length).toNat = (first :: rest).length :=
      UInt32.toNat_ofNat_of_lt' hcount
    have hanswer : r.provider kind token = .ok ⟨kind, (first :: rest).flatMap Packed.encode,
        UInt32.ofNat (first :: rest).length⟩ := by rw [provider, hfound]
    have hrecords : r.provider.records kind token = .ok (first :: rest) := by
      rw [Provider.records, hanswer]
      exact Answer.records_of_encode _ hnumber
    refine ⟨hrecords, ?_, ⟨_, hnumber, hanswer⟩, by rw [Repository.remove, hfound]; rfl⟩
    rw [Provider.record, hrecords]
    rfl

/-- Nothing that is asked about a key tells two repositories apart. -/
structure AgreesAt (r r' : Repository) (kind : RecordKind) (token : UInt64) : Prop where
  /-- They hand over the same. -/
  answer_eq : r.provider kind token = r'.provider kind token
  /-- The same records are read. -/
  records_eq : r.provider.records kind token = r'.provider.records kind token
  /-- The same first record is read. -/
  record_eq : r.provider.record kind token = r'.provider.record kind token
  /-- Taking the records away tells the same. -/
  remove_eq : (r.remove kind token).1 = (r'.remove kind token).1

theorem agreesAt_of_find? {r' : Repository} (hfound : r.find? kind token = r'.find? kind token) :
    r.AgreesAt r' kind token := by
  have hanswer : r.provider kind token = r'.provider kind token := by
    rw [provider, provider, hfound]
  have hrecords : r.provider.records kind token = r'.provider.records kind token := by
    rw [Provider.records, Provider.records, hanswer]
  refine ⟨hanswer, hrecords, ?_, ?_⟩
  · rw [Provider.record, Provider.record, hrecords]
  · rw [remove, remove, hfound]

/-! ### Other keys -/

theorem find?_add_of_ne {kind' : RecordKind} {token' : UInt64} {record : kind'.Record}
    (hkey : (kind', token') ≠ (kind, token)) :
    (r.add kind' token' record).find? kind token = r.find? kind token := by
  rw [find?, Repository.add, lookup_insert, if_neg hkey.symm, find?]

theorem find?_addList_of_ne {kind' : RecordKind} {token' : UInt64} {records : List kind'.Record}
    (hkey : (kind', token') ≠ (kind, token)) :
    (r.addList kind' token' records).find? kind token = r.find? kind token := by
  induction records generalizing r with
  | nil => rfl
  | cons record records ih => exact ih.trans (find?_add_of_ne hkey)

/-- A request about one key leaves every other key alone. -/
theorem Request.find?_apply_of_ne {request : Request} (hkey : request.key ≠ (kind, token)) :
    (request.apply r).find? kind token = r.find? kind token := by
  cases request with
  | add kind' token' record => exact find?_add_of_ne hkey
  | addList kind' token' records => exact find?_addList_of_ne hkey
  | remove kind' token' => exact (find?_remove _ _ _ _ _).trans (if_neg hkey.symm)

theorem find?_run_append_of_ne {requests more : List Request}
    (hmore : ∀ request ∈ more, request.key ≠ (kind, token)) :
    (run (requests ++ more)).find? kind token = (run requests).find? kind token := by
  rw [run, List.foldl_append, ← run]
  generalize run requests = r
  induction more generalizing r with
  | nil => rfl
  | cons request more ih =>
    have hrest := ih (fun next hnext => hmore next (List.mem_cons_of_mem _ hnext))
      (request.apply r)
    exact hrest.trans (Request.find?_apply_of_ne (hmore request List.mem_cons_self))

/-- **A repository is a map from keys to lists of records.** After any requests, the records under a
key are those that were added under it since they were last taken away, in their order, and are
answered as such. Requests about other keys, however many, change no answer. -/
theorem serves_run (requests : List Request) (kind : RecordKind) (token : UInt64)
    (hcount : (ledger requests kind token).length < UInt32.size) :
    (run requests).Serves kind token (ledger requests kind token) ∧
      ∀ more : List Request, (∀ request ∈ more, request.key ≠ (kind, token)) →
        (run (requests ++ more)).AgreesAt (run requests) kind token := by
  refine ⟨(holds_run requests).serves hcount, fun more hmore => ?_⟩
  exact agreesAt_of_find? (find?_run_append_of_ne hmore)

/-- Two records under one token, and one under another that comes and goes. -/
theorem serves_run_tokens :
    (run [.addList .sciInterrupt 7 [⟨5⟩, ⟨6⟩], .add .sciInterrupt 0 ⟨9⟩]).Serves .sciInterrupt 7
        [⟨5⟩, ⟨6⟩] ∧
      (run [.addList .sciInterrupt 7 [⟨5⟩, ⟨6⟩], .add .sciInterrupt 0 ⟨9⟩,
        .remove .sciInterrupt 0]).AgreesAt
          (run [.addList .sciInterrupt 7 [⟨5⟩, ⟨6⟩], .add .sciInterrupt 0 ⟨9⟩]) .sciInterrupt 7 := by
  have hserves := serves_run [.addList .sciInterrupt 7 [⟨5⟩, ⟨6⟩], .add .sciInterrupt 0 ⟨9⟩]
    .sciInterrupt 7 (by decide)
  exact ⟨hserves.1, hserves.2 [.remove .sciInterrupt 0] (by decide)⟩

end Repository

end AcpiTables
