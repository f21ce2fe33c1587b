import AcpiTables.Proofs.Aml.Object
import AcpiTables.Proofs.Resource.Interrupt

/-!
# Where a list of descriptors is cut

Nothing stands between the descriptors of a list. How long one is stands in its first bytes, at
another place in a small item than in a large one, and whoever cuts the list reads them with
everything that follows. Any byte can be a tag, so nobody would notice a cut in the wrong place, and
it is not plain that there is one right way to cut.

The one thing to know is that a header is read of its own bytes alone. What the check has found of a
descriptor is found again where others follow, and so the first cut is at its end
(`AcpiTables.Resource.descriptorSize_append`). All else is this one step, made until nothing is
left.

| result | theorem |
|---|---|
| cutting takes the first descriptor off | `AcpiTables.Resource.cutDescriptors_append` |
| cutting gives back the list | `AcpiTables.Resource.cutDescriptors_flatten` |
| no descriptor is the front of another | `AcpiTables.Resource.eq_of_prefix` |
| lists of descriptors and their bytes are one | `AcpiTables.Resource.lists_cut_apart` |
-/

namespace AcpiTables.Resource

open AcpiTables.Aml (AreDescriptors)

variable {d d' : Bytes} {ds : List Bytes} {header header' : Header}

/-! ### A descriptor in front of others -/

/-- Only an item that is named like an End Tag can be refused for its body. -/
theorem Header.isEndTag_of_isEndTagLike_iff :
    (header.isEndTagLike = true → header.isEndTag = true) ↔
      ¬(header.isLarge = false ∧ header.name = 0x0F ∧ header.bodySize ≠ 1) := by
  have hlike : header.isEndTagLike = true ↔ header.isLarge = false ∧ header.name = 0x0F := by
    simp [Header.isEndTagLike, endTagName]
  rw [Header.isEndTag, Bool.and_eq_true, hlike, beq_iff_eq]
  constructor
  · rintro htag ⟨hsmall, hname, hbody⟩
    exact hbody (htag ⟨hsmall, hname⟩).2
  · intro hnot hsmall
    refine ⟨hsmall, Decidable.byContradiction fun hbody => ?_⟩
    exact hnot ⟨hsmall.1, hsmall.2, hbody⟩

/-- **A descriptor declares its own size**, whatever follows. -/
theorem descriptorSize_append (hc : checkDescriptor d = .ok header) (rest : Bytes) :
    descriptorSize (d ++ rest) = .ok d.length := by
  obtain ⟨hp, hsize, -⟩ := checkDescriptor_eq_ok_iff.mp hc
  rw [descriptorSize, Header.parse_append hp, ← hsize]
  rfl

/-- An End Tag is seen at the front of a list if its first descriptor is one. -/
theorem startsWithEndTag_append (hc : checkDescriptor d = .ok header) (rest : Bytes) :
    startsWithEndTag (d ++ rest) = startsWithEndTag d := by
  obtain ⟨hp, -, -⟩ := checkDescriptor_eq_ok_iff.mp hc
  rw [startsWithEndTag, startsWithEndTag, Header.parse_append hp, hp]

/-- What is seen is the tag and a checksum. -/
theorem startsWithEndTag_iff (hc : checkDescriptor d = .ok header) :
    startsWithEndTag d = true ↔ ∃ checksum, d = [0x79, checksum] := by
  constructor
  · exact eq_of_startsWithEndTag hc
  · rintro ⟨checksum, rfl⟩
    exact startsWithEndTag_cons [checksum]

/-- **No descriptor is the front of another.** -/
theorem eq_of_prefix (hc : checkDescriptor d = .ok header)
    (hc' : checkDescriptor d' = .ok header') (hd : d <+: d') : d = d' := by
  refine hd.eq_of_length ?_
  obtain ⟨rest, rfl⟩ := hd
  -- The longer one declares the size of either.
  have hwhole := descriptorSize_append hc' []
  rw [List.append_nil] at hwhole
  exact Except.ok.inj ((descriptorSize_append hc rest).symm.trans hwhole)

/-! ### Cutting -/

/-- **Cuts a list where the declared sizes say**, and notes at each cut whether an End Tag is seen
at the front of what is left. There is no result if a size cannot be read, or is more than what is
left. No size is zero, so that something is taken off each time. -/
def cutDescriptors (resources : Bytes) : Option (List (Bytes × Bool)) :=
  if resources = [] then some []
  else
    match _hs : descriptorSize resources with
    | .error _ => none
    | .ok size =>
      if size ≤ resources.length then do
        let more ← cutDescriptors (resources.drop size)
        return (resources.take size, startsWithEndTag resources) :: more
      else none
termination_by resources.length
decreasing_by
  obtain ⟨hne, hpos⟩ := descriptorSize_spec _hs
  have := List.length_pos_iff.mpr hne
  rw [List.length_drop]
  omega

theorem cutDescriptors_nil : cutDescriptors [] = some [] := by
  rw [cutDescriptors, if_pos rfl]

/-- **The first cut is at the end of the first descriptor.** -/
theorem cutDescriptors_append (hc : checkDescriptor d = .ok header) (rest : Bytes) :
    cutDescriptors (d ++ rest) =
      (cutDescriptors rest).map fun more => (d, startsWithEndTag d) :: more := by
  have hsize := descriptorSize_append hc rest
  have hne : d ++ rest ≠ [] := List.append_ne_nil_of_left_ne_nil (ne_nil_of_checkDescriptor hc) rest
  have hle : d.length ≤ (d ++ rest).length := by
    rw [List.length_append]
    exact Nat.le_add_right _ _
  rw [cutDescriptors, if_neg hne]
  split
  · next e he => exact nomatch hsize.symm.trans he
  · next size hs =>
    obtain rfl := Except.ok.inj (hsize.symm.trans hs)
    rw [if_pos hle, List.take_left, List.drop_left, startsWithEndTag_append hc]
    cases cutDescriptors rest <;> rfl

/-- The pieces that a list of descriptors should be cut into. -/
def pieces (ds : List Bytes) : List (Bytes × Bool) := ds.map fun d => (d, startsWithEndTag d)

theorem map_fst_pieces (ds : List Bytes) : (pieces ds).map Prod.fst = ds := by
  rw [pieces, List.map_map]
  exact List.map_id ds

/-- **A list is cut into its descriptors.** -/
theorem cutDescriptors_flatten (hds : AreDescriptors ds) :
    cutDescriptors ds.flatten = some (pieces ds) := by
  induction ds with
  | nil => exact cutDescriptors_nil
  | cons d ds ih =>
    obtain ⟨header, hc⟩ := hds d List.mem_cons_self
    have hrest := ih fun x hx => hds x (List.mem_cons_of_mem d hx)
    rw [List.flatten_cons, cutDescriptors_append hc, hrest]
    rfl

/-- **Lists with the same bytes are the same**, as they are cut in the same places. -/
theorem eq_of_flatten_eq {ds' : List Bytes} (hds : AreDescriptors ds) (hds' : AreDescriptors ds')
    (hbytes : ds.flatten = ds'.flatten) : ds = ds' := by
  have hcut := cutDescriptors_flatten hds
  rw [hbytes, cutDescriptors_flatten hds'] at hcut
  have hpieces : pieces ds = pieces ds' := (Option.some.inj hcut).symm
  rw [← map_fst_pieces ds, hpieces, map_fst_pieces]

/-! ### Bytes and lists -/

/-- **Bytes that are checked.** -/
structure ChecksBytes (bytes : Bytes) : Prop where
  /-- They pass if their header can be read, the size is theirs, and they are no small item that is
  named like an End Tag and has another body than one byte. -/
  passes_iff : ∀ header, checkDescriptor bytes = .ok header ↔
    Header.parse bytes = .ok header ∧ header.totalSize = bytes.length ∧
      ¬(header.isLarge = false ∧ header.name = 0x0F ∧ header.bodySize ≠ 1)
  /-- No declared size is zero, whether they pass or not. -/
  size_pos : ∀ size, descriptorSize bytes = .ok size → 1 ≤ size
  /-- What passes is not the front of anything else that passes. -/
  front : ∀ header, checkDescriptor bytes = .ok header → ∀ longer header',
    checkDescriptor longer = .ok header' → bytes <+: longer → bytes = longer

/-- **A list of descriptors that is cut apart.** -/
structure CutsApart (ds : List Bytes) : Prop where
  /-- Wherever descriptors are left, the size of the first of them is declared, and an End Tag is
  seen if the first is one. -/
  declared : ∀ front d back, ds = front ++ d :: back →
    descriptorSize (d :: back).flatten = .ok d.length ∧
      (startsWithEndTag (d :: back).flatten = true ↔ ∃ checksum, d = [0x79, checksum])
  /-- Cutting gives back the list, and has seen an End Tag at each that is one and at no other. -/
  cut : ∃ pieces, cutDescriptors ds.flatten = some pieces ∧ pieces.map Prod.fst = ds ∧
    ∀ piece ∈ pieces, piece.2 = true ↔ ∃ checksum, piece.1 = [0x79, checksum]
  /-- No other list has the same bytes. -/
  unique : ∀ ds', AreDescriptors ds' → ds'.flatten = ds.flatten → ds' = ds

theorem checksBytes (bytes : Bytes) : ChecksBytes bytes where
  passes_iff header := by
    rw [checkDescriptor_eq_ok_iff, Header.isEndTag_of_isEndTagLike_iff]
  size_pos size hs := (descriptorSize_spec hs).2
  front header hc longer header' hc' hfront := eq_of_prefix hc hc' hfront

theorem cutsApart (hds : AreDescriptors ds) : CutsApart ds where
  declared front d back he := by
    have hmem : d ∈ ds := he ▸ List.mem_append_right front List.mem_cons_self
    obtain ⟨header, hc⟩ := hds d hmem
    rw [List.flatten_cons, startsWithEndTag_append hc]
    exact ⟨descriptorSize_append hc _, startsWithEndTag_iff hc⟩
  cut := by
    refine ⟨_, cutDescriptors_flatten hds, map_fst_pieces ds, fun piece hpiece => ?_⟩
    obtain ⟨d, hmem, rfl⟩ := List.mem_map.mp hpiece
    obtain ⟨header, hc⟩ := hds d hmem
    exact startsWithEndTag_iff hc
  unique ds' hds' hbytes := eq_of_flatten_eq hds' hds hbytes

/-- **Bytes pass as a descriptor exactly if they are as long as they declare**, and every list of
such bytes is cut apart in one way. -/
theorem lists_cut_apart :
    (∀ bytes, ChecksBytes bytes) ∧ ∀ ds, AreDescriptors ds → CutsApart ds :=
  ⟨checksBytes, fun _ => cutsApart⟩

/-- Two small items around a large one. The checksum of the End Tag is not zero, and the body of the
large item holds what could be tags. -/
theorem lists_cut_apart_irq :
    CutsApart [[0x22, 0x08, 0x00], [0x89, 0x06, 0x00, 0x03, 0x01, 0x79, 0x00, 0x00, 0x00],
      [0x79, 0x5A]] := by
  refine lists_cut_apart.2 _ fun d hd => ?_
  simp only [List.mem_cons, List.not_mem_nil, or_false] at hd
  rcases hd with rfl | rfl | rfl <;> exact ⟨_, rfl⟩

end AcpiTables.Resource
