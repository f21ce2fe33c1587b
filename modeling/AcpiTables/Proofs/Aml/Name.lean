import AcpiTables.Aml.Declaration
import AcpiTables.Proofs.Reader
import AcpiTables.Proofs.Request

/-!
# Where an encoded name ends

A name string has no length field, and yet one that reads it knows where it ends: the
number of segments is announced, unless there is only one, and then the first byte of the
segment is a capital letter or `_` and announces nothing. So it matters that no segment
starts otherwise. `AcpiTables.Aml.NamePath.Lawful` says so of a path, every written path is
lawful (`AcpiTables.Aml.NamePath.lawful_of_parse`), and the bytes of a lawful path are read
back whatever follows (`AcpiTables.Aml.reads_readName`).
-/

namespace AcpiTables.Aml

/-! ### Lawful paths -/

/-- The bytes that a segment may start with: the capital letters and `_`. -/
def IsLeadByte (b : UInt8) : Prop := b = 0x5F ∨ 0x41 ≤ b ∧ b ≤ 0x5A

theorem isLeadByte_of_isLead {c : Char} (hc : NameSegment.isLead c = true) :
    IsLeadByte (UInt8.ofNat c.toNat) := by
  simp only [NameSegment.isLead, Bool.or_eq_true, beq_iff_eq, Bool.and_eq_true,
    decide_eq_true_eq] at hc
  rcases hc with rfl | ⟨hlow, hhigh⟩
  · exact Or.inl rfl
  · have hl : 65 ≤ c.toNat := hlow
    have hh : c.toNat ≤ 90 := hhigh
    refine Or.inr ⟨?_, ?_⟩
    · rw [UInt8.le_iff_toNat_le, UInt8.toNat_ofNat', Nat.mod_eq_of_lt (by omega)]
      exact hl
    · rw [UInt8.le_iff_toNat_le, UInt8.toNat_ofNat', Nat.mod_eq_of_lt (by omega)]
      exact hh

/-- A segment starts with a letter, as far as AML counts `_` among them. -/
theorem NameSegment.isLeadByte_first {written : List Char} {s : NameSegment}
    (hs : NameSegment.parse written = .ok s) : IsLeadByte s.first := by
  simp only [NameSegment.parse] at hs
  split at hs
  · exact nomatch hs
  · next hsize =>
    split at hs
    · next hspelt =>
      rw [← Except.ok.inj hs]
      cases written with
      | nil => exact absurd (Or.inl rfl) hsize
      | cons c cs =>
        exact isLeadByte_of_isLead (Bool.and_eq_true_iff.mp hspelt).1
    · exact nomatch hs

namespace NamePath

/-- **A lawful path**: every segment starts as a segment may, and a byte counts them. -/
structure Lawful (path : NamePath) : Prop where
  /-- Every segment starts with a letter. -/
  lead : ∀ s ∈ path.segments, IsLeadByte s.first
  /-- There are at most 255 segments. -/
  count : path.segments.length ≤ 255

theorem mapM_parse {pieces : List (List Char)} {segments : List NameSegment}
    (hs : pieces.mapM NameSegment.parse = .ok segments) :
    segments.length = pieces.length ∧ ∀ s ∈ segments, IsLeadByte s.first := by
  induction pieces generalizing segments with
  | nil =>
    rw [List.mapM_nil] at hs
    rw [← Except.ok.inj hs]
    exact ⟨rfl, nofun⟩
  | cons piece pieces ih =>
    rw [List.mapM_cons] at hs
    obtain ⟨s, hp, hs⟩ := bind_eq_ok.mp hs
    obtain ⟨rest, hr, hs⟩ := bind_eq_ok.mp hs
    obtain rfl := pure_eq_ok.mp hs
    obtain ⟨hlen, hlead⟩ := ih hr
    refine ⟨by rw [List.length_cons, List.length_cons, hlen], fun x hx => ?_⟩
    rcases List.mem_cons.mp hx with rfl | hx
    · exact NameSegment.isLeadByte_first hp
    · exact hlead x hx

/-- **Every written path is lawful.** -/
theorem lawful_of_parse {name : String} {path : NamePath} (hp : parse name = .ok path) :
    path.Lawful := by
  rw [parse] at hp
  obtain ⟨anchor, -, hp⟩ := bind_eq_ok.mp hp
  obtain ⟨segments, hs, hp⟩ := bind_eq_ok.mp hp
  obtain rfl := pure_eq_ok.mp hp
  -- The anchor does not matter: it is the segments that a reader has to count.
  simp only [parseSegments] at hs
  split at hs
  · rw [← Except.ok.inj hs]
    exact ⟨nofun, Nat.zero_le _⟩
  · split at hs
    · exact nomatch hs
    · next hcount =>
      obtain ⟨hlen, hlead⟩ := mapM_parse hs
      exact ⟨hlead, by rw [hlen]; exact Nat.le_of_not_lt hcount⟩

end NamePath

theorem encodeSegments_ne_nil (segments : List NameSegment) : encodeSegments segments ≠ [] := by
  unfold encodeSegments
  split <;> simp [NameSegment.bytes]

theorem NamePath.encode_ne_nil (path : NamePath) : path.encode ≠ [] := by
  simp [encode, encodeSegments_ne_nil]

/-- **What the name of an object is made of**: the bytes of a lawful path. -/
theorem exists_path_of_objectName {name : String} {allowRoot : Bool} {bytes : Bytes}
    (hn : objectName name allowRoot = .ok bytes) :
    ∃ path : NamePath, path.Lawful ∧ path.encode = bytes := by
  obtain ⟨path, hp, rfl⟩ := map_eq_ok.mp hn
  rw [NamePath.parseObject] at hp
  split at hp
  · exact nomatch hp
  · exact ⟨path, NamePath.lawful_of_parse hp, rfl⟩

theorem objectName_ne_nil {name : String} {allowRoot : Bool} {bytes : Bytes}
    (hn : objectName name allowRoot = .ok bytes) : bytes ≠ [] := by
  obtain ⟨path, -, rfl⟩ := exists_path_of_objectName hn
  exact path.encode_ne_nil

/-! ### Finding the end -/

/-- How many bytes the segments take that start an input. -/
def segmentsSize : Bytes → Option Nat
  | [] => none
  | mark :: rest =>
    if mark = 0x00 then some 1
    else if mark = 0x2E then some 9
    else if mark = 0x2F then rest.head?.map fun count => 2 + 4 * count.toNat
    else some 4

/-- Whether a byte belongs to the start of a path: the root or a step to the parent. -/
def isAnchorByte (b : UInt8) : Bool := b == 0x5C || b == 0x5E

/-- Takes a name: its bytes, up to the last segment. -/
def readName : Reader Bytes := fun input => do
  let size ← segmentsSize (input.dropWhile isAnchorByte)
  readBytes ((input.takeWhile isAnchorByte).length + size) input

theorem Anchor.isAnchorByte_of_mem {anchor : Anchor} {b : UInt8} (hb : b ∈ anchor.encode) :
    isAnchorByte b = true := by
  cases anchor with
  | root =>
    rw [List.mem_singleton.mp hb]
    rfl
  | up levels =>
    rw [List.eq_of_mem_replicate hb]
    rfl

theorem length_flatMap_bytes (segments : List NameSegment) :
    (segments.flatMap NameSegment.bytes).length = 4 * segments.length := by
  induction segments with
  | nil => rfl
  | cons s segments ih =>
    rw [List.flatMap_cons, List.length_append, ih, List.length_cons]
    simp only [NameSegment.bytes, List.length_cons, List.length_nil]
    omega

/-- A byte that a segment may start with announces nothing. -/
theorem IsLeadByte.ne {b c : UInt8} (hb : IsLeadByte b) (hc : ¬IsLeadByte c) : b ≠ c :=
  fun he => hc (he ▸ hb)

instance (b : UInt8) : Decidable (IsLeadByte b) := by
  unfold IsLeadByte
  infer_instance

/-- What the segments of a path start with, and where they end. -/
theorem segmentsSize_encode {segments : List NameSegment}
    (hlead : ∀ s ∈ segments, IsLeadByte s.first) (hcount : segments.length ≤ 255)
    (rest : Bytes) :
    segmentsSize (encodeSegments segments ++ rest) = some (encodeSegments segments).length ∧
      (encodeSegments segments ++ rest).head?.any isAnchorByte = false := by
  -- The cases are those of the encoding: no prefix, none, two segments, or a count.
  match segments with
  | [] => exact ⟨rfl, rfl⟩
  | [s] =>
    have hs : ∀ {c : UInt8}, ¬IsLeadByte c → s.first ≠ c := (hlead s List.mem_cons_self).ne
    simp [encodeSegments, NameSegment.bytes, segmentsSize, isAnchorByte, hs (c := 0x00) (by decide),
      hs (c := 0x2E) (by decide), hs (c := 0x2F) (by decide), hs (c := 0x5C) (by decide),
      hs (c := 0x5E) (by decide)]
  | [s, t] => exact ⟨rfl, rfl⟩
  | s :: t :: u :: segments =>
    refine ⟨?_, rfl⟩
    have hnat : (UInt8.ofNat (s :: t :: u :: segments).length).toNat =
        (s :: t :: u :: segments).length := by
      rw [UInt8.toNat_ofNat']
      exact Nat.mod_eq_of_lt (by omega)
    have hlen : (encodeSegments (s :: t :: u :: segments)).length =
        2 + 4 * (s :: t :: u :: segments).length := by
      rw [encodeSegments, ← length_flatMap_bytes, List.length_cons, List.length_cons]
      · omega
      all_goals exact nofun
    rw [hlen, ← hnat]
    rfl

/-- **A name is read back**, whatever follows. -/
theorem reads_readName {path : NamePath} (hp : path.Lawful) :
    Reads readName path.encode path.encode := by
  intro rest
  obtain ⟨hsize, hhead⟩ := segmentsSize_encode hp.lead hp.count rest
  have htake : (encodeSegments path.segments ++ rest).takeWhile isAnchorByte = [] := by
    cases hs : encodeSegments path.segments ++ rest with
    | nil => rfl
    | cons b bs =>
      rw [hs] at hhead
      exact List.takeWhile_cons_of_neg (Bool.eq_false_iff.mp hhead)
  have hdrop : (encodeSegments path.segments ++ rest).dropWhile isAnchorByte =
      encodeSegments path.segments ++ rest := by
    have := List.takeWhile_append_dropWhile (p := isAnchorByte)
      (l := encodeSegments path.segments ++ rest)
    rwa [htake, List.nil_append] at this
  have hall : ∀ b ∈ path.anchor.encode, isAnchorByte b = true := fun b =>
    Anchor.isAnchorByte_of_mem
  have hfront : ((path.encode ++ rest).takeWhile isAnchorByte).length =
      path.anchor.encode.length := by
    rw [NamePath.encode, List.append_assoc, List.takeWhile_append_of_pos hall, htake,
      List.append_nil]
  have hback : (path.encode ++ rest).dropWhile isAnchorByte =
      encodeSegments path.segments ++ rest := by
    rw [NamePath.encode, List.append_assoc, List.dropWhile_append_of_pos hall, hdrop]
  simp only [readName, hback, hsize, hfront, Option.bind_eq_bind, Option.bind_some]
  exact reads_readBytes (by rw [NamePath.encode, List.length_append]) rest

end AcpiTables.Aml
