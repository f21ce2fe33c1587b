import AcpiTables.Platform.Repository

/-!
# Platform configurations

A configuration describes a platform as a whole: at most one record of each kind. It
becomes a repository that holds these records under the token of the platform.
-/

namespace AcpiTables

/-- At most one record of each kind. -/
structure Configuration where
  /-- The record of a kind, if there is one. -/
  record : (kind : RecordKind) → Option kind.Record

namespace Configuration

/-- The configuration without records. -/
def empty : Configuration := ⟨fun _ => none⟩

/-- The repository of the records, with what is told about it. -/
def toRepository (config : Configuration) : Repository × Log.Entry :=
  let repository := RecordKind.all.foldl
    (fun r kind =>
      match config.record kind with
      | some record => r.add kind Provider.platformToken record
      | none => r)
    Repository.empty
  (repository,
    ⟨.debug, s!"Platform repository holds {repository.holdings.length} record kinds"⟩)

end Configuration

end AcpiTables
