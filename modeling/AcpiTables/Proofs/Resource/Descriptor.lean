import AcpiTables.Proofs.Reader
import AcpiTables.Resource.Header

/-!
# Descriptors one behind the other

A descriptor says in its first bytes how long it is. So what is read of it does not change
when more follows (`AcpiTables.Resource.Header.parse_append`), and it is read back from the
front of a list (`AcpiTables.Resource.reads_readDescriptor`).

An End Tag that is exactly one descriptor has two bytes, the tag and a checksum
(`AcpiTables.Resource.eq_of_startsWithEndTag`).
-/

namespace AcpiTables.Resource

variable {bytes : Bytes} {header : Header}

/-- **What a descriptor has to be**: as long as it says, and with a checksum if it is named
like an End Tag. -/
theorem checkDescriptor_eq_ok_iff :
    checkDescriptor bytes = .ok header ↔ Header.parse bytes = .ok header ∧
      header.totalSize = bytes.length ∧ (header.isEndTagLike = true → header.isEndTag = true) := by
  unfold checkDescriptor
  cases hp : Header.parse bytes with
  | error e =>
    constructor
    · exact nofun
    · exact fun h => nomatch h.1
  | ok read =>
    constructor
    · intro hc
      by_cases hsize : read.totalSize = bytes.length
      · cases htag : read.isEndTagLike && !read.isEndTag with
        | true => simp [bind, Except.bind, hsize, htag] at hc
        | false =>
          simp only [bind, Except.bind, hsize, htag, ne_eq, not_true_eq_false, if_false] at hc
          obtain rfl := Except.ok.inj hc
          refine ⟨rfl, hsize, fun hl => ?_⟩
          simpa [hl] using htag
      · simp [bind, Except.bind, hsize] at hc
    · rintro ⟨hr, hsize, htag⟩
      obtain rfl := Except.ok.inj hr
      have hnot : (read.isEndTagLike && !read.isEndTag) = false := by
        cases hl : read.isEndTagLike with
        | false => rfl
        | true => simp [htag hl]
      simp [bind, Except.bind, hsize, hnot]

namespace Header

/-- **What is read of a descriptor does not depend on what follows.** -/
theorem parse_append (hp : parse bytes = .ok header) (rest : Bytes) :
    parse (bytes ++ rest) = .ok header := by
  match bytes with
  | [] => exact nomatch hp
  | tag :: body =>
    simp only [parse, List.cons_append] at hp ⊢
    by_cases hsmall : tag < 0x80
    · simpa only [if_pos hsmall] using hp
    · rw [if_neg hsmall] at hp ⊢
      match body with
      | [] => exact nomatch hp
      | [_] => exact nomatch hp
      | low :: high :: _ => exact hp

end Header

/-- Takes a descriptor, as long as it declares. -/
def readDescriptor : Reader Bytes := fun input =>
  match descriptorSize input with
  | .ok size => readBytes size input
  | .error _ => none

/-- **A descriptor is read back**, whatever follows. -/
theorem reads_readDescriptor (hc : checkDescriptor bytes = .ok header) :
    Reads readDescriptor bytes bytes := by
  intro rest
  obtain ⟨hp, hsize, -⟩ := checkDescriptor_eq_ok_iff.mp hc
  have hdeclared : descriptorSize (bytes ++ rest) = .ok header.totalSize := by
    rw [descriptorSize, Header.parse_append hp]
    rfl
  simp only [readDescriptor, hdeclared]
  exact reads_readBytes hsize.symm rest

theorem ne_nil_of_checkDescriptor (hc : checkDescriptor bytes = .ok header) : bytes ≠ [] := by
  rintro rfl
  exact nomatch hc

/-- The tag of a small item that is named like an End Tag and has one byte for its body. -/
theorem tag_eq_of_isEndTag {tag : UInt8} (hname : tag / 8 = endTagName)
    (hbody : (tag % 8).toNat = 1) : tag = 0x79 := by
  have hdiv : tag.toNat / 8 = 15 := by
    have := congrArg UInt8.toNat hname
    simpa [UInt8.toNat_div, endTagName] using this
  have hmod : tag.toNat % 8 = 1 := by simpa [UInt8.toNat_mod] using hbody
  refine UInt8.toNat_inj.mp ?_
  show tag.toNat = 121
  omega

/-- **A descriptor that starts with an End Tag** is one: the tag and a checksum. -/
theorem eq_of_startsWithEndTag (hc : checkDescriptor bytes = .ok header)
    (hs : startsWithEndTag bytes = true) : ∃ checksum, bytes = [0x79, checksum] := by
  obtain ⟨hp, hsize, -⟩ := checkDescriptor_eq_ok_iff.mp hc
  rw [startsWithEndTag, hp] at hs
  match bytes with
  | [] => exact nomatch hp
  | tag :: body =>
    simp only [Header.parse] at hp
    by_cases hsmall : tag < 0x80
    · rw [if_pos hsmall] at hp
      obtain rfl := Except.ok.inj hp
      simp only [Header.isEndTag, Header.isEndTagLike, Bool.not_false, Bool.true_and,
        Bool.and_eq_true, beq_iff_eq] at hs
      obtain rfl := tag_eq_of_isEndTag hs.1 hs.2
      -- The descriptor is as long as it says, and the tag says one byte.
      have hlen : body.length = 1 := by
        simp [Header.totalSize, Header.size] at hsize
        omega
      obtain ⟨checksum, rfl⟩ := List.length_eq_one_iff.mp hlen
      exact ⟨checksum, rfl⟩
    · rw [if_neg hsmall] at hp
      split at hp
      · obtain rfl := Except.ok.inj hp
        exact nomatch hs
      · exact nomatch hp

theorem startsWithEndTag_cons (rest : Bytes) : startsWithEndTag (0x79 :: rest) = true := rfl

end AcpiTables.Resource
