import AcpiTables.Proofs.Platform.StandardLibrary

/-!
# Two ways to read a configuration

A configuration may be read of its text as it comes, or of the value that is kept of it. This file
proves that both give the same, except for one thing: a text in which some object has two members of
one key is refused as it comes, and what is kept of it has only the last of them
(`AcpiTables.Configuration.readsAlike_fromText`). It is proved of every library that can be relied
on, not of one.

The one thing to know is that the two ways have readers of their own, which know nothing of each
other. That they agree comes from the types. All that a configuration asks of a value are members by
their keys, and numbers that fit a word, and neither changes when a value is kept
(`AcpiTables.Readers.Lawful.eq_of_alike`). And what is read of a text can be kept, since nothing in
a configuration is nested deep, and no number in it is too large
(`AcpiTables.Readers.Lawful.modest`).

| fact | theorem |
|---|---|
| what is read of a text is kept of it | `AcpiTables.JsonLibrary.Lawful.exists_kept` |
| both ways agree on a value without several members of one key | `AcpiTables.JsonLibrary.Lawful.asWritten_eq` |
| only the last member of each key is seen in what is kept | `AcpiTables.JsonLibrary.Lawful.asKept_eq` |
| a text is read either way | `AcpiTables.Configuration.readsAlike_fromText` |
-/

namespace AcpiTables

variable {library : JsonLibrary} {text : String} {v kept : Json} {config : Configuration}

/-! ### Values that are kept of a document -/

namespace JsonLibrary.Lawful

variable (hlib : library.Lawful)

include hlib

/-- What is kept of a text is kept of the document that it is. -/
theorem keptAs_of_document? (hv : library.document? text = some v)
    (hkept : library.value? text = some kept) : v.KeptAs kept := by
  obtain ⟨w, hw, hkept⟩ := hlib.keptAs text kept hkept
  obtain rfl := Option.some.inj (hv.symm.trans hw)
  exact hkept

/-- **What a configuration is read of can be kept.** -/
theorem exists_kept (hv : library.document? text = some v)
    (hconfig : library.asWritten.configuration v = some config) :
    ∃ kept, library.value? text = some kept :=
  hlib.keeps text v hv ((hlib.asWritten.modest hconfig).mono (by decide))

/-- **Both ways agree** on a document in which no key comes twice. -/
theorem asWritten_eq (hdistinct : v.Distinct) (hkept : v.KeptAs kept) :
    library.asWritten.configuration v = library.asKept.configuration kept :=
  hlib.asWritten.eq_of_alike hlib.asKept ⟨v, hdistinct.keptAs, hkept⟩

/-- **Only the last member of each key is seen** in what is kept, in whatever way it is kept. -/
theorem asKept_eq {kept' : Json} (hkept : v.KeptAs kept) (hkept' : v.KeptAs kept') :
    library.asKept.configuration kept = library.asKept.configuration kept' :=
  hlib.asKept.eq_of_alike hlib.asKept ⟨v, hkept, hkept'⟩

end JsonLibrary.Lawful

namespace Configuration

/-! ### Answers -/

theorem fromText_eq_ok_iff :
    fromText library text = .ok config ↔ library.configuration? text = some config := by
  rw [fromText]
  split
  · next found hfound => rw [hfound, Except.ok.injEq, Option.some.injEq]
  · next hnone =>
    rw [hnone]
    exact iff_of_false nofun nofun

theorem fromValue_eq_ok_iff :
    fromValue library v = .ok config ↔ library.asKept.configuration v = some config := by
  rw [fromValue]
  split
  · next found hfound => rw [hfound, Except.ok.injEq, Option.some.injEq]
  · next hnone =>
    rw [hnone]
    exact iff_of_false nofun nofun

/-- A text is refused in one way only. -/
theorem fromText_eq_error (hrefused : ∀ config, fromText library text ≠ .ok config) :
    fromText library text = .error .malformedConfig := by
  cases hread : library.configuration? text with
  | none => rw [fromText, hread]
  | some config => exact absurd (fromText_eq_ok_iff.mpr hread) (hrefused config)

/-- A value is refused in one way only. -/
theorem fromValue_eq_error (hrefused : ∀ config, fromValue library v ≠ .ok config) :
    fromValue library v = .error .malformedConfig := by
  cases hread : library.asKept.configuration v with
  | none => rw [fromValue, hread]
  | some config => exact absurd (fromValue_eq_ok_iff.mpr hread) (hrefused config)

/-! ### Texts -/

/-- **Both ways to read a text agree.** -/
structure ReadsAlike (library : JsonLibrary) (text : String) : Prop where
  /-- A configuration is read of a text as it comes exactly if the text is a document in which no
  object has two members of one key, and the configuration is read of the value that is kept of
  it. -/
  ok_iff : ∀ config, fromText library text = .ok config ↔
    ∃ v kept, library.document? text = some v ∧ v.Distinct ∧ library.value? text = some kept ∧
      fromValue library kept = .ok config
  /-- A key that comes twice is refused, wherever it is. -/
  refused : ∀ v, library.document? text = some v → ¬v.Distinct →
    fromText library text = .error .malformedConfig
  /-- In the value that is kept only the last member of each key is seen. Any value that has just
  these gives the same. -/
  last : ∀ v kept last, library.document? text = some v → library.value? text = some kept →
    v.KeptAs last → fromValue library kept = fromValue library last
  /-- Blanks around the text do not matter. -/
  blanks : ∀ front back, (∀ c ∈ front, Json.isBlank c = true) →
    (∀ c ∈ back, Json.isBlank c = true) →
      fromText library (String.ofList front ++ text ++ String.ofList back) = fromText library text

/-- A text is read as it comes if the value that is kept of it is, and no key comes twice. -/
theorem fromText_eq_ok_iff_kept (hlib : library.Lawful) : fromText library text = .ok config ↔
    ∃ v kept, library.document? text = some v ∧ v.Distinct ∧ library.value? text = some kept ∧
      fromValue library kept = .ok config := by
  rw [fromText_eq_ok_iff, hlib.configuration?_iff]
  simp only [fromValue_eq_ok_iff]
  constructor
  · rintro ⟨v, hv, hconfig⟩
    have hdistinct := hlib.asWritten.distinct hconfig
    obtain ⟨kept, hkept⟩ := hlib.exists_kept hv hconfig
    rw [hlib.asWritten_eq hdistinct (hlib.keptAs_of_document? hv hkept)] at hconfig
    exact ⟨v, kept, hv, hdistinct, hkept, hconfig⟩
  · rintro ⟨v, kept, hv, hdistinct, hkept, hconfig⟩
    rw [← hlib.asWritten_eq hdistinct (hlib.keptAs_of_document? hv hkept)] at hconfig
    exact ⟨v, hv, hconfig⟩

/-- **Every text is read so**, whichever library reads it. -/
theorem readsAlike_fromText (hlib : library.Lawful) (text : String) : ReadsAlike library text where
  ok_iff _ := fromText_eq_ok_iff_kept hlib
  refused v hv htwice := by
    refine fromText_eq_error fun config hconfig => htwice ?_
    obtain ⟨w, -, hw, hdistinct, -⟩ := (fromText_eq_ok_iff_kept hlib).mp hconfig
    obtain rfl := Option.some.inj (hv.symm.trans hw)
    exact hdistinct
  last v kept last hv hkept hlast := by
    rw [fromValue, fromValue, hlib.asKept_eq (hlib.keptAs_of_document? hv hkept) hlast]
  blanks front back hfront hback := by
    have hdocument := hlib.document?_blanks text front back hfront hback
    have hread : library.configuration? (String.ofList front ++ text ++ String.ofList back) =
        library.configuration? text := Option.ext fun config => by
      rw [hlib.configuration?_iff, hlib.configuration?_iff, hdocument]
    rw [fromText, fromText, hread]

/-- An interrupt that is given twice is refused, and the second is left in what is kept. -/
theorem readsAlike_fromText_interrupt :
    ofText "\x7b\"sci_interrupt\":[9],\"sci_interrupt\":[10]\x7d" = .error .malformedConfig ∧
      ∃ config, config.record .sciInterrupt = some ⟨10⟩ ∧
        ofMergedText "\x7b\"sci_interrupt\":[9],\"sci_interrupt\":[10]\x7d" = .ok config := by
  let v : Json := .object [("sci_interrupt", .array [.number (.integer 9)]),
    ("sci_interrupt", .array [.number (.integer 10)])]
  have hv : Json.parse? "\x7b\"sci_interrupt\":[9],\"sci_interrupt\":[10]\x7d" = some v := by rfl
  have htwice : ¬v.Distinct := by
    intro h
    change Json.Distinct (.object _) at h
    cases h with
    | object hkeys => exact absurd hkeys (by decide)
  have hmodest : v.Modest Json.maxDepth := .object <| List.forall_mem_cons.mpr
    ⟨.array (List.forall_mem_singleton.mpr (.number _ (by decide))),
      List.forall_mem_singleton.mpr
        (.array (List.forall_mem_singleton.mpr (.number _ (by decide))))⟩
  have hkept := JsonLibrary.value?_standard hv hmodest
  have hreads := readsAlike_fromText JsonLibrary.lawful_standard
    "\x7b\"sci_interrupt\":[9],\"sci_interrupt\":[10]\x7d"
  obtain ⟨config, hconfig, hten⟩ : ∃ config, ofJson? v.lastWins = some config ∧
      config.record .sciInterrupt = some ⟨10⟩ := ⟨_, by rfl, by rfl⟩
  refine ⟨hreads.refused v hv htwice, config, hten, ?_⟩
  rw [ofMergedText, hkept]
  exact fromValue_eq_ok_iff.mpr hconfig

end Configuration

end AcpiTables
