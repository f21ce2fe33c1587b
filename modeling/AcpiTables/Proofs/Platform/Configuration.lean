import AcpiTables.Platform.Configuration
import AcpiTables.Proofs.Platform.Population
import AcpiTables.Proofs.Platform.Repository

/-!
# A configuration reaches the table

On its way into a table a record of a configuration is packed, kept under its kind and the token of
the platform, handed over as bytes, read, and spread over the members of its group. The one thing to
know is that a configuration becomes a repository by requests, one for each of its records
(`AcpiTables.Configuration.requests`), so that the ledger of these requests is the configuration
itself. What the table then holds is told by what is known of repositories and of tables.

| result | theorem |
|---|---|
| the ledger of a configuration | `AcpiTables.Configuration.ledger_requests` |
| its provider answers its records | `AcpiTables.Configuration.record_provider` |
| and they fill the table | `AcpiTables.Configuration.configured_populate` |
-/

namespace AcpiTables.Configuration

open Provider (platformToken)

variable (config : Configuration)

/-! ### The repository of a configuration -/

/-- The requests by which some kinds of a configuration are put in a repository. -/
def requestsFor (kinds : List RecordKind) : List Repository.Request :=
  kinds.filterMap fun kind => (config.record kind).map (.add kind platformToken)

/-- The requests by which a configuration becomes a repository. -/
def requests : List Repository.Request := config.requestsFor RecordKind.all

theorem toRepository_eq_run : config.toRepository.1 = Repository.run config.requests := by
  rw [Repository.run, requests, requestsFor, List.foldl_filterMap, toRepository]
  dsimp only
  congr 1
  funext r kind
  cases config.record kind <;> rfl

/-- A kind with a record enters this record, and a kind without one enters nothing. -/
theorem foldl_enter_cons (first : RecordKind) (kinds : List RecordKind) (l : Repository.Ledger) :
    (config.requestsFor (first :: kinds)).foldl (fun l request => request.enter l) l =
      (config.requestsFor kinds).foldl (fun l request => request.enter l)
        (l.write first platformToken
          (l first platformToken ++ (config.record first).toList)) := by
  rw [requestsFor, List.filterMap_cons, ← requestsFor]
  cases config.record first with
  | none => rw [Option.toList_none, List.append_nil, Repository.Ledger.write_eq_self]; rfl
  | some record => rfl

theorem foldl_enter {kinds : List RecordKind} (hnodup : kinds.Nodup) (l : Repository.Ledger)
    (kind : RecordKind) :
    (config.requestsFor kinds).foldl (fun l request => request.enter l) l kind platformToken =
      l kind platformToken ++ if kind ∈ kinds then (config.record kind).toList else [] := by
  induction kinds generalizing l with
  | nil => exact (List.append_nil _).symm
  | cons first kinds ih =>
    obtain ⟨hnew, hkinds⟩ := List.nodup_cons.mp hnodup
    rw [foldl_enter_cons, ih hkinds]
    by_cases hkind : kind = first
    · subst hkind
      rw [Repository.Ledger.write_self, if_neg hnew, if_pos List.mem_cons_self, List.append_nil]
    · have hkey : (kind, platformToken) ≠ (first, platformToken) := fun h => hkind (Prod.mk.inj h).1
      rw [Repository.Ledger.write_of_ne hkey]
      simp only [List.mem_cons, hkind, false_or]

/-- **The ledger of a configuration is the configuration.** -/
theorem ledger_requests (kind : RecordKind) :
    Repository.ledger config.requests kind platformToken = (config.record kind).toList := by
  rw [Repository.ledger, requests, foldl_enter config (by decide), List.nil_append,
    if_pos (RecordKind.mem_all kind)]

/-- A configuration is asked for its records. -/
theorem record_provider (kind : RecordKind) :
    config.toRepository.1.provider.record kind platformToken =
      (config.record kind).elim (.error (.notFound kind)) .ok := by
  have hcount : (Repository.ledger config.requests kind platformToken).length < UInt32.size := by
    rw [ledger_requests]
    exact Nat.lt_of_le_of_lt Option.length_toList_le (by decide)
  have hserves := (Repository.holds_run config.requests).serves hcount
  rw [toRepository_eq_run, hserves.record_eq, ledger_requests]
  cases config.record kind <;> rfl

/-! ### The table of a configuration -/

/-- What is told about a kind of which a configuration has no record. -/
def missing (kind : RecordKind) : Log.Entry := Fadt.failed kind (.notFound kind)

theorem complaint_provider (kind : RecordKind) :
    Fadt.complaint config.toRepository.1.provider kind =
      (Option.guard (fun kind => (config.record kind).isNone) kind).map missing := by
  rw [Fadt.complaint, record_provider, Option.guard]
  cases config.record kind <;> rfl

/-- What a table is after it was filled from a configuration. -/
structure Configured (table table' : Fadt) (log : List Log.Entry) : Prop where
  /-- The members of each record stand in the group of its kind. -/
  filled : ∀ kind record, config.record kind = some record → table'.group kind = record
  /-- Where there is no record, the group is as it was. -/
  kept : ∀ kind, config.record kind = none → table'.group kind = table.group kind
  /-- The mark of the program is that of this library. -/
  generator_eq : table'.header.aslCompilerId = Fadt.generatorId
  /-- Everything else is as it was. -/
  frame_eq : table'.frame = table.frame
  /-- One entry for each missing record is told, in the order of the kinds. -/
  log_eq : log = (RecordKind.all.filter fun kind => (config.record kind).isNone).map missing

/-- **A configuration reaches the table as it is.** Whatever its records are, and whatever table is
filled from it, each record stands in the table member by member, nothing else is changed, and
only missing records are complained of. -/
theorem configured_populate (table : Fadt) :
    config.Configured table (Fadt.populate config.toRepository.1.provider table).1
      (Fadt.populate config.toRepository.1.provider table).2 := by
  refine ⟨fun kind record hrecord => ?_, fun kind hnone => ?_, Fadt.generator_populate _ _,
    Fadt.frame_populate _ _, ?_⟩
  · rw [Fadt.group_populate, Fadt.answered, record_provider, hrecord, Option.elim_some]
  · rw [Fadt.group_populate, Fadt.answered, record_provider, hnone, Option.elim_none]
  · rw [Fadt.log_populate, funext (complaint_provider config), ← List.map_filterMap,
      List.filterMap_eq_filter]

/-- Of a configuration with one record, one group is filled and the other eight are missed. -/
theorem configured_populate_interrupt :
    (Fadt.populate (toRepository ⟨fun
        | .sciInterrupt => some ⟨9⟩
        | _ => none⟩).1.provider Packed.zero).1.group .sciInterrupt = ⟨9⟩ ∧
      (Fadt.populate (toRepository ⟨fun
        | .sciInterrupt => some ⟨9⟩
        | _ => none⟩).1.provider Packed.zero).2.length = 8 := by
  have hconfigured := configured_populate ⟨fun
    | .sciInterrupt => some ⟨9⟩
    | _ => none⟩ Packed.zero
  exact ⟨hconfigured.filled .sciInterrupt ⟨9⟩ rfl, congrArg List.length hconfigured.log_eq⟩

end AcpiTables.Configuration
