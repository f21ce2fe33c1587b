import AcpiTables.Proofs.Aml.Name
import Mathlib.Data.List.TakeWhile

/-!
# How names are spelt

A name is read by cutting it up: what it starts with, and what stands between its dots. This file
says the same from the other end. `AcpiTables.Aml.Spelling` is a name in its parts, only such parts
as may be written, and a text is a name exactly if it is the text of a spelling
(`AcpiTables.Aml.nameString_eq_ok_iff`).

The one thing to know about the bytes is that their number tells the number of segments: it is 1, 4
and 9 for up to two of them, and grows by four from 14 on for the others. So names with the same
bytes have as many segments, and nothing is lost of a segment but how much of it was filled up.

| fact | theorem |
|---|---|
| which texts are names, and their bytes | `AcpiTables.Aml.nameString_eq_ok_iff` |
| which texts name an object | `AcpiTables.Aml.objectName_eq_ok_iff` |
| a name is spelt in one way | `AcpiTables.Aml.Spelling.eq_of_text_eq` |
| when names have the same bytes | `AcpiTables.Aml.Spelling.encode_eq_iff` |
| no name is the start of another | `AcpiTables.Aml.Spelling.encode_eq_of_prefix` |
-/

namespace AcpiTables.Aml

/-! ### Characters -/

/-- Characters as bytes, one each. -/
def asciiBytes (text : List Char) : Bytes := text.map fun c => UInt8.ofNat c.toNat

/-- Characters that have one byte each are told by it. -/
theorem map_asciiBytes {text : List Char} (ht : ∀ c ∈ text, c.toNat < 128) :
    (asciiBytes text).map (fun b => Char.ofNat b.toNat) = text := by
  rw [asciiBytes, List.map_map]
  refine (List.map_congr_left fun c hc => ?_).trans (List.map_id text)
  have hlt := ht c hc
  have hbyte : (UInt8.ofNat c.toNat).toNat = c.toNat := by
    rw [UInt8.toNat_ofNat']
    exact Nat.mod_eq_of_lt (by omega)
  rw [Function.comp_apply, hbyte, Char.ofNat_toNat, id]

/-- A character of which every byte is one of ASCII is one of ASCII. -/
theorem toNat_lt_of_utf8EncodeChar {c : Char}
    (hc : ∀ b ∈ String.utf8EncodeChar c, b.toNat < 128) : c.toNat < 128 := by
  by_contra hlarge
  have hlarge : ¬c.val.toNat ≤ 127 := fun hle => hlarge (Nat.lt_succ_of_le hle)
  -- The last of several bytes has its highest bit set.
  have hlast : UInt8.ofNat (c.val.toNat % 64 + 128) ∈ String.utf8EncodeChar c := by
    unfold String.utf8EncodeChar
    dsimp only
    rw [if_neg hlarge]
    split
    · simp
    · split <;> simp
  have hbyte := hc _ hlast
  rw [UInt8.toNat_ofNat'] at hbyte
  omega

/-- **A text of ASCII is its characters**, as bytes. -/
theorem ofString_eq_asciiBytes {text : String} (ht : ∀ c ∈ text.toList, c.toNat < 128) :
    Bytes.ofString text = asciiBytes text.toList := by
  have hone : ∀ c ∈ text.toList, String.utf8EncodeChar c = [UInt8.ofNat c.toNat] := fun c hc => by
    have hsmall : c.val.toNat ≤ 127 := Nat.le_of_lt_succ (ht c hc)
    unfold String.utf8EncodeChar
    dsimp only
    rw [if_pos hsmall]
    rfl
  rw [Bytes.ofString, ← String.utf8Encode_toList, List.utf8Encode, List.data_toByteArray,
    List.flatMap_def, List.map_congr_left hone, ← List.flatMap_def, ← List.map_eq_flatMap,
    asciiBytes]

/-- A text with one more character in front. -/
theorem utf8ByteSize_cons (c : Char) (cs : List Char) :
    (String.ofList (c :: cs)).utf8ByteSize = c.utf8Size + (String.ofList cs).utf8ByteSize := by
  have hcons : String.ofList ([c] ++ cs) = String.singleton c ++ String.ofList cs :=
    String.ofList_append
  rw [← List.singleton_append, hcons, String.utf8ByteSize_append, String.utf8ByteSize_singleton]

/-- No text has fewer bytes than characters. -/
theorem length_le_utf8ByteSize (text : List Char) :
    text.length ≤ (String.ofList text).utf8ByteSize := by
  induction text with
  | nil => exact Nat.zero_le _
  | cons c cs ih =>
    have hc := Char.utf8Size_pos c
    rw [utf8ByteSize_cons, List.length_cons]
    omega

/-- A text of characters that have one byte each. -/
theorem utf8ByteSize_ofList {text : List Char} (ht : ∀ c ∈ text, c.toNat < 128) :
    (String.ofList text).utf8ByteSize = text.length := by
  induction text with
  | nil => rfl
  | cons c cs ih =>
    have hc : c.utf8Size = 1 :=
      Char.utf8Size_eq_one_iff.mpr (Nat.le_of_lt_succ (ht c List.mem_cons_self))
    rw [utf8ByteSize_cons, hc, ih fun d hd => ht d (List.mem_cons_of_mem c hd), List.length_cons,
      Nat.add_comm]

/-- What a list starts with is found again, if what follows does not start likewise. -/
theorem takeWhile_dropWhile_append {α : Type} {p : α → Bool} {front back : List α}
    (hfront : ∀ a ∈ front, p a = true) (hback : ∀ a ∈ back.head?, p a = false) :
    (front ++ back).takeWhile p = front ∧ (front ++ back).dropWhile p = back := by
  rw [List.takeWhile_append_of_pos hfront, List.dropWhile_append_of_pos hfront]
  cases back with
  | nil => exact ⟨List.append_nil front, rfl⟩
  | cons a back =>
    have ha : ¬p a = true := Bool.eq_false_iff.mp (hback a rfl)
    rw [List.takeWhile_cons_of_neg ha, List.dropWhile_cons_of_neg ha, List.append_nil]
    exact ⟨rfl, rfl⟩

/-! ### Segments -/

/-- **A written segment**: one to four characters, of which the first is a capital letter or `_`,
and the others may be digits too. -/
structure IsSegment (piece : List Char) : Prop where
  /-- There is a character. -/
  ne_nil : piece ≠ []
  /-- There are at most four. -/
  length_le : piece.length ≤ 4
  /-- The first is a letter. -/
  lead : ∀ c ∈ piece.head?, c = '_' ∨ 'A' ≤ c ∧ c ≤ 'Z'
  /-- The others are letters or digits. -/
  following : ∀ c ∈ piece.tail, (c = '_' ∨ 'A' ≤ c ∧ c ≤ 'Z') ∨ '0' ≤ c ∧ c ≤ '9'

/-- A segment filled up with `_` to four characters. -/
def filled (piece : List Char) : List Char := piece ++ List.replicate (4 - piece.length) '_'

namespace NameSegment

theorem isLead_iff {c : Char} : isLead c = true ↔ c = '_' ∨ 'A' ≤ c ∧ c ≤ 'Z' := by
  simp [isLead]

theorem isFollowing_iff {c : Char} : isFollowing c = true ↔
    (c = '_' ∨ 'A' ≤ c ∧ c ≤ 'Z') ∨ '0' ≤ c ∧ c ≤ '9' := by
  simp [isFollowing, isLead_iff]

theorem toNat_lt_of_isFollowing {c : Char} (hc : isFollowing c = true) : c.toNat < 128 := by
  rcases isFollowing_iff.mp hc with (rfl | ⟨-, hc⟩) | ⟨-, hc⟩
  · decide
  · have hc : c.toNat ≤ 90 := hc
    omega
  · have hc : c.toNat ≤ 57 := hc
    omega

theorem isWellSpelt_iff {piece : List Char} (hne : piece ≠ []) : isWellSpelt piece = true ↔
    (∀ c ∈ piece.head?, c = '_' ∨ 'A' ≤ c ∧ c ≤ 'Z') ∧
      ∀ c ∈ piece.tail, (c = '_' ∨ 'A' ≤ c ∧ c ≤ 'Z') ∨ '0' ≤ c ∧ c ≤ '9' := by
  cases piece with
  | nil => exact absurd rfl hne
  | cons c cs => simp [isWellSpelt, isLead_iff, isFollowing_iff]

end NameSegment

namespace IsSegment

variable {piece : List Char}

theorem isFollowing (hp : IsSegment piece) {c : Char} (hc : c ∈ piece) :
    NameSegment.isFollowing c = true := by
  cases piece with
  | nil => exact nomatch hc
  | cons d ds =>
    rw [NameSegment.isFollowing_iff]
    rcases List.mem_cons.mp hc with rfl | hc
    · exact Or.inl (hp.lead c rfl)
    · exact hp.following c hc

/-- Dots end a segment, and are in none. -/
theorem dot_not_mem (hp : IsSegment piece) : '.' ∉ piece := fun hc =>
  Bool.false_ne_true (hp.isFollowing hc)

theorem toNat_lt_of_mem_filled (hp : IsSegment piece) {c : Char} (hc : c ∈ filled piece) :
    c.toNat < 128 := by
  rcases List.mem_append.mp hc with hc | hc
  · exact NameSegment.toNat_lt_of_isFollowing (hp.isFollowing hc)
  · rw [List.eq_of_mem_replicate hc]
    decide

theorem length_filled (hp : IsSegment piece) : (filled piece).length = 4 := by
  rw [filled, List.length_append, List.length_replicate]
  exact Nat.add_sub_cancel' hp.length_le

end IsSegment

namespace NameSegment

/-- The four characters of a written segment. -/
def ofPiece (piece : List Char) : NameSegment :=
  ⟨charAt piece 0, charAt piece 1, charAt piece 2, charAt piece 3⟩

theorem bytes_ofPiece {piece : List Char} (hp : IsSegment piece) :
    (ofPiece piece).bytes = asciiBytes (filled piece) := by
  match piece, hp.length_le with
  | [], _ | [_], _ | [_, _], _ | [_, _, _], _ | [_, _, _, _], _ => rfl

/-- **Which pieces are segments.** The length is judged in bytes, and the characters have one
each. -/
theorem parse_eq_ok_iff {piece : List Char} {s : NameSegment} :
    parse piece = .ok s ↔ IsSegment piece ∧ ofPiece piece = s := by
  constructor
  · intro hs
    simp only [parse] at hs
    split at hs
    · cases hs
    · next hsize =>
      split at hs
      · next hspelt =>
        have hne : piece ≠ [] := by
          rintro rfl
          exact hsize (Or.inl rfl)
        have hle : piece.length ≤ 4 := by
          have := length_le_utf8ByteSize piece
          omega
        obtain ⟨hlead, hfollow⟩ := (isWellSpelt_iff hne).mp hspelt
        exact ⟨⟨hne, hle, hlead, hfollow⟩, Except.ok.inj hs⟩
      · cases hs
  · rintro ⟨hp, rfl⟩
    have hsize : (String.ofList piece).utf8ByteSize = piece.length :=
      utf8ByteSize_ofList fun c hc => toNat_lt_of_isFollowing (hp.isFollowing hc)
    have hpos := List.length_pos_iff.mpr hp.ne_nil
    have hle := hp.length_le
    simp only [parse, hsize]
    rw [if_neg (by omega), if_pos ((isWellSpelt_iff hp.ne_nil).mpr ⟨hp.lead, hp.following⟩)]
    rfl

theorem mapM_parse_eq_ok_iff {pieces : List (List Char)} {segments : List NameSegment} :
    pieces.mapM parse = .ok segments ↔
      (∀ piece ∈ pieces, IsSegment piece) ∧ pieces.map ofPiece = segments := by
  induction pieces generalizing segments with
  | nil => simp [pure_eq_ok]
  | cons piece pieces ih =>
    simp only [List.mapM_cons, bind_eq_ok, parse_eq_ok_iff, ih, pure_eq_ok, List.forall_mem_cons,
      List.map_cons]
    constructor
    · rintro ⟨_, ⟨hp, rfl⟩, _, ⟨hps, rfl⟩, rfl⟩
      exact ⟨⟨hp, hps⟩, rfl⟩
    · rintro ⟨⟨hp, hps⟩, rfl⟩
      exact ⟨_, ⟨hp, rfl⟩, _, ⟨hps, rfl⟩, rfl⟩

end NameSegment

/-! ### Pieces between dots -/

namespace NamePath

variable {piece : List Char} {pieces : List (List Char)}

theorem splitDots_of_not_mem (hp : '.' ∉ piece) : splitDots piece = [piece] := by
  induction piece with
  | nil => rfl
  | cons c cs ih =>
    obtain ⟨hc, hcs⟩ := not_or.mp fun h => hp (List.mem_cons.mpr h)
    have hdot : (c == '.') = false := beq_eq_false_iff_ne.mpr (Ne.symm hc)
    rw [splitDots, hdot, ih hcs]

theorem splitDots_append (hp : '.' ∉ piece) (text : List Char) :
    splitDots (piece ++ '.' :: text) = piece :: splitDots text := by
  induction piece with
  | nil => simp [splitDots]
  | cons c cs ih =>
    obtain ⟨hc, hcs⟩ := not_or.mp fun h => hp (List.mem_cons.mpr h)
    have hdot : (c == '.') = false := beq_eq_false_iff_ne.mpr (Ne.symm hc)
    rw [List.cons_append, splitDots, hdot, ih hcs]

/-- Pieces without dots are cut out again. -/
theorem splitDots_intercalate (hne : pieces ≠ []) (hp : ∀ piece ∈ pieces, '.' ∉ piece) :
    splitDots (['.'].intercalate pieces) = pieces := by
  induction pieces with
  | nil => exact absurd rfl hne
  | cons piece pieces ih =>
    have hpiece := hp piece List.mem_cons_self
    cases pieces with
    | nil => rw [List.intercalate_singleton, splitDots_of_not_mem hpiece]
    | cons next more =>
      have hmore := ih (List.cons_ne_nil _ _) fun x hx => hp x (List.mem_cons_of_mem _ hx)
      rw [List.intercalate_cons_cons, List.append_assoc, List.singleton_append,
        splitDots_append hpiece, hmore]

theorem splitDots_ne_nil (text : List Char) : splitDots text ≠ [] := by
  cases text with
  | nil => exact List.cons_ne_nil _ _
  | cons c cs =>
    rw [splitDots]
    split <;> exact List.cons_ne_nil _ _

/-- Cutting at the dots loses nothing. -/
theorem intercalate_splitDots (text : List Char) : ['.'].intercalate (splitDots text) = text := by
  induction text with
  | nil => rfl
  | cons c cs ih =>
    rw [splitDots]
    cases hpieces : splitDots cs with
    | nil => exact absurd hpieces (splitDots_ne_nil cs)
    | cons piece pieces =>
      rw [hpieces] at ih
      cases hdot : c == '.' with
      | true =>
        rw [eq_of_beq hdot, List.intercalate_cons_cons, ih]
        rfl
      | false =>
        cases pieces with
        | nil =>
          rw [List.intercalate_singleton] at ih ⊢
          rw [ih]
        | cons next more =>
          rw [List.intercalate_cons_cons] at ih ⊢
          rw [← ih]
          rfl

end NamePath

/-! ### Spellings -/

/-- What a path starts with, as it is written: one `\`, or any number of `^`. -/
def Anchor.text : Anchor → List Char
  | root => ['\\']
  | up levels => List.replicate levels '^'

/-- **A name in its parts.** -/
structure Spelling where
  /-- Where the name starts. -/
  anchor : Anchor
  /-- The segments, as they are written. -/
  pieces : List (List Char)
  /-- There are at most 255 segments. -/
  length_le : pieces.length ≤ 255
  /-- Each of them may be written. -/
  isSegment : ∀ piece ∈ pieces, IsSegment piece

/-- What announces a number of segments. One announces itself. -/
def announced (count : Nat) : Bytes :=
  match count with
  | 0 => [0x00]
  | 1 => []
  | 2 => [0x2E]
  | count => [0x2F, UInt8.ofNat count]

namespace Spelling

/-- The segments as they are written, with dots between them. -/
def body (s : Spelling) : List Char := ['.'].intercalate s.pieces

/-- The name as it is written. -/
def text (s : Spelling) : String := String.ofList (s.anchor.text ++ s.body)

/-- The bytes of the name: its start, the number of its segments, and the segments filled up. -/
def encode (s : Spelling) : Bytes :=
  asciiBytes s.anchor.text ++
    (announced s.pieces.length ++ s.pieces.flatMap fun piece => asciiBytes (filled piece))

/-- The path that is spelt. -/
def path (s : Spelling) : NamePath := ⟨s.anchor, s.pieces.map NameSegment.ofPiece⟩

end Spelling

/-! ### What a path starts with -/

theorem Anchor.encode_eq (anchor : Anchor) : anchor.encode = asciiBytes anchor.text := by
  cases anchor with
  | root => rfl
  | up levels =>
    rw [text, asciiBytes, List.map_replicate]
    rfl

theorem Anchor.isAnchorChar_of_mem {anchor : Anchor} {c : Char} (hc : c ∈ anchor.text) :
    NamePath.isAnchorChar c = true := by
  cases anchor with
  | root =>
    rw [List.mem_singleton.mp hc]
    rfl
  | up levels =>
    rw [List.eq_of_mem_replicate hc]
    rfl

theorem Anchor.toNat_lt_of_mem (anchor : Anchor) {c : Char} (hc : c ∈ anchor.text) :
    c.toNat < 128 := by
  cases anchor with
  | root =>
    rw [List.mem_singleton.mp hc]
    decide
  | up levels =>
    rw [List.eq_of_mem_replicate hc]
    decide

/-- No way up is written with the mark of the root. -/
theorem Anchor.eq_root_of_mem {anchor : Anchor} (hc : '\\' ∈ anchor.text) : anchor = .root := by
  cases anchor with
  | root => rfl
  | up levels => exact absurd (List.eq_of_mem_replicate hc) (by decide)

theorem Anchor.text_inj {anchor anchor' : Anchor} : anchor.text = anchor'.text ↔
    anchor = anchor' := by
  refine ⟨fun htext => ?_, congrArg text⟩
  cases anchor with
  | root => exact (eq_root_of_mem (htext ▸ List.mem_singleton_self _)).symm
  | up levels =>
    cases anchor' with
    | root => exact eq_root_of_mem (htext ▸ List.mem_singleton_self _)
    | up levels' =>
      have hlen := congrArg List.length htext
      rw [text, text, List.length_replicate, List.length_replicate] at hlen
      rw [hlen]

/-- What a path starts with is read as that of which it is the text. -/
theorem NamePath.parseAnchor_eq_ok_iff {name : String} {written : List Char}
    (hw : ∀ c ∈ written, isAnchorChar c = true) {anchor : Anchor} :
    parseAnchor name written = .ok anchor ↔ anchor.text = written := by
  rw [parseAnchor]
  by_cases hroot : written = ['\\']
  · rw [if_pos hroot, hroot, Except.ok.injEq]
    have htext : anchor.text = Anchor.root.text ↔ anchor = .root := Anchor.text_inj
    exact eq_comm.trans htext.symm
  · rw [if_neg hroot]
    by_cases hmixed : '\\' ∈ written
    · rw [if_pos hmixed]
      refine iff_of_false nofun fun htext => hroot ?_
      have hanchor : anchor = .root := Anchor.eq_root_of_mem (htext ▸ hmixed)
      rw [← htext, hanchor]
      rfl
    · rw [if_neg hmixed, Except.ok.injEq]
      -- What is written holds no mark of the root, so it is all of one character.
      have hup : (Anchor.up written.length).text = written := by
        refine (List.eq_replicate_iff.mpr ⟨rfl, fun c hc => ?_⟩).symm
        have hkind := hw c hc
        simp only [isAnchorChar, Bool.or_eq_true, beq_iff_eq] at hkind
        exact hkind.resolve_left fun he => hmixed (he ▸ hc)
      rw [← hup, Anchor.text_inj, hup]
      exact eq_comm

/-! ### Reading a spelling -/

namespace Spelling

variable (s : Spelling)

theorem toList_text : s.text.toList = s.anchor.text ++ s.body := String.toList_ofList

/-- Only a spelling without segments has nothing behind its start. -/
theorem body_eq_nil_iff : s.body = [] ↔ s.pieces = [] := by
  rw [body]
  cases hpieces : s.pieces with
  | nil => exact iff_of_true rfl rfl
  | cons piece pieces =>
    refine iff_of_false (fun hbody => ?_) (List.cons_ne_nil _ _)
    have hne := (s.isSegment piece (hpieces ▸ List.mem_cons_self)).ne_nil
    cases pieces with
    | nil =>
      rw [List.intercalate_singleton] at hbody
      exact hne hbody
    | cons next more =>
      rw [List.intercalate_cons_cons, List.append_assoc] at hbody
      exact hne (List.append_eq_nil_iff.mp hbody).1

/-- The first segment starts with a letter. -/
theorem isFollowing_of_mem_head? {c : Char} (hc : c ∈ s.body.head?) :
    NameSegment.isFollowing c = true := by
  rw [body] at hc
  cases hpieces : s.pieces with
  | nil =>
    rw [hpieces] at hc
    exact nomatch hc
  | cons piece pieces =>
    rw [hpieces] at hc
    have hp := s.isSegment piece (hpieces ▸ List.mem_cons_self)
    cases piece with
    | nil => exact absurd rfl hp.ne_nil
    | cons d ds =>
      refine hp.isFollowing ?_
      cases pieces with
      | nil =>
        rw [List.intercalate_singleton] at hc
        exact List.mem_of_mem_head? hc
      | cons next more =>
        rw [List.intercalate_cons_cons, List.append_assoc] at hc
        rw [← Option.some.inj hc]
        exact List.mem_cons_self

/-- The parts of a name are found where they are looked for. -/
theorem takeWhile_dropWhile_text : s.text.toList.takeWhile NamePath.isAnchorChar = s.anchor.text ∧
    s.text.toList.dropWhile NamePath.isAnchorChar = s.body := by
  rw [toList_text]
  refine takeWhile_dropWhile_append (fun c => Anchor.isAnchorChar_of_mem) fun c hc => ?_
  have hfollow := s.isFollowing_of_mem_head? hc
  refine Bool.eq_false_iff.mpr fun hanchor => ?_
  simp only [NamePath.isAnchorChar, Bool.or_eq_true, beq_iff_eq] at hanchor
  rcases hanchor with rfl | rfl <;> exact nomatch hfollow

/-- The segments are the pieces between the dots. -/
theorem splitDots_body (hne : s.pieces ≠ []) : NamePath.splitDots s.body = s.pieces :=
  NamePath.splitDots_intercalate hne fun piece hpiece => (s.isSegment piece hpiece).dot_not_mem

/-- **A name is spelt in one way.** -/
theorem eq_of_text_eq {s s' : Spelling} (htext : s.text = s'.text) : s = s' := by
  obtain ⟨hanchor, hbody⟩ := s.takeWhile_dropWhile_text
  obtain ⟨hanchor', hbody'⟩ := s'.takeWhile_dropWhile_text
  rw [htext] at hanchor hbody
  have hanchor := Anchor.text_inj.mp (hanchor.symm.trans hanchor')
  have hbody := hbody.symm.trans hbody'
  have hpieces : s.pieces = s'.pieces := by
    by_cases hne : s.pieces = []
    · rw [hne, s'.body_eq_nil_iff.mp (hbody ▸ s.body_eq_nil_iff.mpr hne)]
    · have hne' : s'.pieces ≠ [] := fun he =>
        hne (s.body_eq_nil_iff.mp (hbody ▸ s'.body_eq_nil_iff.mpr he))
      rw [← s.splitDots_body hne, hbody, s'.splitDots_body hne']
  cases s
  cases s'
  cases hanchor
  cases hpieces
  rfl

end Spelling

/-- Segments are read of what stands behind the start of a name. -/
theorem NamePath.parseSegments_eq_ok_iff {written : List Char} {segments : List NameSegment} :
    parseSegments written = .ok segments ↔ ∃ pieces : List (List Char),
      ['.'].intercalate pieces = written ∧ pieces.length ≤ 255 ∧
        (∀ piece ∈ pieces, IsSegment piece) ∧ pieces.map NameSegment.ofPiece = segments := by
  rw [parseSegments]
  cases written with
  | nil =>
    rw [List.isEmpty_nil, if_pos rfl, Except.ok.injEq]
    constructor
    · rintro rfl
      exact ⟨[], rfl, Nat.zero_le _, List.forall_mem_nil _, rfl⟩
    · rintro ⟨pieces, htext, hcount, hsegment, rfl⟩
      have hnil : pieces = [] :=
        (Spelling.body_eq_nil_iff ⟨.root, pieces, hcount, hsegment⟩).mp htext
      rw [hnil]
      rfl
  | cons c cs =>
    rw [List.isEmpty_cons, if_neg Bool.false_ne_true]
    constructor
    · intro hs
      simp only at hs
      split at hs
      · cases hs
      · next hcount =>
        obtain ⟨hsegment, hsegments⟩ := NameSegment.mapM_parse_eq_ok_iff.mp hs
        exact ⟨_, intercalate_splitDots _, Nat.le_of_not_lt hcount, hsegment, hsegments⟩
    · rintro ⟨pieces, htext, hcount, hsegment, hsegments⟩
      have hne : pieces ≠ [] := by
        rintro rfl
        exact List.cons_ne_nil c cs htext.symm
      have hsplit : splitDots (c :: cs) = pieces := htext ▸
        Spelling.splitDots_body ⟨.root, pieces, hcount, hsegment⟩ hne
      simp only [hsplit]
      rw [if_neg (Nat.not_lt.mpr hcount)]
      exact NameSegment.mapM_parse_eq_ok_iff.mpr ⟨hsegment, hsegments⟩

/-- **Which texts are paths.** -/
theorem NamePath.parse_eq_ok_iff {name : String} {path : NamePath} :
    parse name = .ok path ↔ ∃ s : Spelling, s.text = name ∧ s.path = path := by
  have hall : ∀ c ∈ name.toList.takeWhile isAnchorChar, isAnchorChar c = true :=
    List.all_eq_true.mp List.all_takeWhile
  simp only [parse, bind_eq_ok, parseAnchor_eq_ok_iff hall, parseSegments_eq_ok_iff, pure_eq_ok]
  constructor
  · rintro ⟨anchor, htext, segments, ⟨pieces, hbody, hcount, hsegment, rfl⟩, rfl⟩
    refine ⟨⟨anchor, pieces, hcount, hsegment⟩, ?_, rfl⟩
    rw [Spelling.text, Spelling.body, htext, hbody, List.takeWhile_append_dropWhile,
      String.ofList_toList]
  · rintro ⟨s, rfl, rfl⟩
    obtain ⟨hanchor, hbody⟩ := s.takeWhile_dropWhile_text
    exact ⟨s.anchor, hanchor.symm, _, ⟨s.pieces, hbody.symm, s.length_le, s.isSegment, rfl⟩, rfl⟩

/-! ### Bytes of a spelling -/

theorem encodeSegments_eq (segments : List NameSegment) : encodeSegments segments =
    announced segments.length ++ segments.flatMap NameSegment.bytes := by
  match segments with
  | [] => rfl
  | [s] => simp [encodeSegments, announced]
  | [s, t] => simp [encodeSegments, announced]
  | s :: t :: u :: segments => rfl

namespace Spelling

variable (s : Spelling)

theorem encode_path : s.path.encode = s.encode := by
  have hbytes : (s.pieces.map NameSegment.ofPiece).flatMap NameSegment.bytes =
      s.pieces.flatMap fun piece => asciiBytes (filled piece) := by
    rw [List.flatMap_map, List.flatMap_def, List.flatMap_def]
    exact congrArg List.flatten (List.map_congr_left fun piece hpiece =>
      NameSegment.bytes_ofPiece (s.isSegment piece hpiece))
  rw [NamePath.encode, path, Anchor.encode_eq, encodeSegments_eq, List.length_map, hbytes, encode]

theorem lawful_path : s.path.Lawful :=
  NamePath.lawful_of_parse (NamePath.parse_eq_ok_iff.mpr ⟨s, rfl, rfl⟩)

/-- **No name is the start of another.** -/
theorem encode_eq_of_prefix {s s' : Spelling} (hp : s.encode <+: s'.encode) :
    s.encode = s'.encode := by
  obtain ⟨rest, hrest⟩ := hp
  have hs := reads_readName s.lawful_path rest
  have hs' := reads_readName s'.lawful_path []
  rw [encode_path] at hs hs'
  rw [List.append_nil, ← hrest, hs] at hs'
  rw [← hrest]
  exact (Prod.mk.inj (Option.some.inj hs')).1

/-- What a name starts with and what follows are told apart in its bytes. -/
theorem takeWhile_dropWhile_encode :
    s.encode.takeWhile isAnchorByte = asciiBytes s.anchor.text ∧
      s.encode.dropWhile isAnchorByte =
        announced s.pieces.length ++ s.pieces.flatMap fun piece => asciiBytes (filled piece) := by
  have hhead := (segmentsSize_encode s.lawful_path.lead s.lawful_path.count []).2
  have hencode := s.encode_path
  rw [NamePath.encode, encode, path, Anchor.encode_eq, List.append_cancel_left_eq] at hencode
  rw [List.append_nil, path, hencode] at hhead
  refine takeWhile_dropWhile_append (fun b hb => ?_) fun b hb => ?_
  · rw [← Anchor.encode_eq] at hb
    exact Anchor.isAnchorByte_of_mem hb
  · rw [Option.mem_def.mp hb] at hhead
    exact hhead

theorem length_flatMap_filled {pieces : List (List Char)}
    (hsegment : ∀ piece ∈ pieces, IsSegment piece) :
    (pieces.flatMap fun piece => asciiBytes (filled piece)).length = 4 * pieces.length := by
  induction pieces with
  | nil => rfl
  | cons piece pieces ih =>
    have hpiece := (hsegment piece List.mem_cons_self).length_filled
    have hpieces := ih fun x hx => hsegment x (List.mem_cons_of_mem piece hx)
    rw [List.flatMap_cons, List.length_append, hpieces, asciiBytes, List.length_map, hpiece,
      List.length_cons]
    omega

/-- Segments that are as many are told by their bytes, as far as they are filled up. -/
theorem map_filled_of_flatMap_eq {pieces pieces' : List (List Char)}
    (hsegment : ∀ piece ∈ pieces, IsSegment piece) (hsegment' : ∀ piece ∈ pieces', IsSegment piece)
    (hcount : pieces.length = pieces'.length)
    (hbytes : (pieces.flatMap fun piece => asciiBytes (filled piece)) =
      pieces'.flatMap fun piece => asciiBytes (filled piece)) :
    pieces.map filled = pieces'.map filled := by
  induction pieces generalizing pieces' with
  | nil => rw [List.length_eq_zero_iff.mp hcount.symm]
  | cons piece pieces ih =>
    cases pieces' with
    | nil => exact nomatch hcount
    | cons piece' pieces' =>
      have hpiece := hsegment piece List.mem_cons_self
      have hpiece' := hsegment' piece' List.mem_cons_self
      have hsize : (asciiBytes (filled piece)).length = (asciiBytes (filled piece')).length := by
        simp only [asciiBytes, List.length_map, hpiece.length_filled, hpiece'.length_filled]
      rw [List.flatMap_cons, List.flatMap_cons] at hbytes
      obtain ⟨hfirst, hrest⟩ := List.append_inj hbytes hsize
      have hfilled : filled piece = filled piece' := by
        rw [← map_asciiBytes fun c => hpiece.toNat_lt_of_mem_filled, hfirst,
          map_asciiBytes fun c => hpiece'.toNat_lt_of_mem_filled]
      have hmore := ih (fun x hx => hsegment x (List.mem_cons_of_mem piece hx))
        (fun x hx => hsegment' x (List.mem_cons_of_mem piece' hx)) (Nat.succ.inj hcount) hrest
      rw [List.map_cons, List.map_cons, hfilled, hmore]

theorem length_announced (count : Nat) : count = 0 ∧ (announced count).length = 1 ∨
    count = 1 ∧ (announced count).length = 0 ∨ count = 2 ∧ (announced count).length = 1 ∨
      2 < count ∧ (announced count).length = 2 := by
  match count with
  | 0 => exact .inl ⟨rfl, rfl⟩
  | 1 => exact .inr (.inl ⟨rfl, rfl⟩)
  | 2 => exact .inr (.inr (.inl ⟨rfl, rfl⟩))
  | count + 3 => exact .inr (.inr (.inr ⟨by omega, rfl⟩))

/-- **The number of bytes tells the number of segments.** -/
theorem eq_of_length_announced {count count' : Nat}
    (hlen : (announced count).length + 4 * count = (announced count').length + 4 * count') :
    count = count' := by
  -- The sums are 1, 4 and 9, and then 14, 18, 22 and so on, so no two of them are the same.
  have hcount := length_announced count
  have hcount' := length_announced count'
  omega

/-- **When names have the same bytes**: they start the same, and have the same segments after each
is filled up. -/
theorem encode_eq_iff {s s' : Spelling} : s.encode = s'.encode ↔
    s.anchor = s'.anchor ∧ s.pieces.map filled = s'.pieces.map filled := by
  constructor
  · intro hencode
    obtain ⟨hfront, hback⟩ := s.takeWhile_dropWhile_encode
    obtain ⟨hfront', hback'⟩ := s'.takeWhile_dropWhile_encode
    rw [hencode] at hfront hback
    have hanchor : s.anchor = s'.anchor := by
      rw [← Anchor.text_inj, ← map_asciiBytes fun c => s.anchor.toNat_lt_of_mem,
        hfront.symm.trans hfront', map_asciiBytes fun c => s'.anchor.toNat_lt_of_mem]
    have hback := hback.symm.trans hback'
    -- Segments are compared only once they are known to be as many: what announces them goes away.
    have hcount : s.pieces.length = s'.pieces.length := by
      have hlen := congrArg List.length hback
      rw [List.length_append, List.length_append, length_flatMap_filled s.isSegment,
        length_flatMap_filled s'.isSegment] at hlen
      exact eq_of_length_announced hlen
    rw [hcount] at hback
    exact ⟨hanchor, map_filled_of_flatMap_eq s.isSegment s'.isSegment hcount
      (List.append_cancel_left hback)⟩
  · rintro ⟨hanchor, hfilled⟩
    have hcount : s.pieces.length = s'.pieces.length := by
      simpa only [List.length_map] using congrArg List.length hfilled
    have hbytes : ∀ pieces : List (List Char),
        (pieces.flatMap fun piece => asciiBytes (filled piece)) =
          (pieces.map filled).flatMap asciiBytes := fun pieces => (List.flatMap_map ..).symm
    rw [encode, encode, hanchor, hcount, hbytes, hbytes, hfilled]

end Spelling

/-! ### Names -/

/-- **Which texts are names**, and what their bytes are. -/
theorem nameString_eq_ok_iff {name : String} {bytes : Bytes} : nameString name = .ok bytes ↔
    ∃ s : Spelling, s.text = name ∧ s.encode = bytes := by
  simp only [nameString, map_eq_ok, NamePath.parse_eq_ok_iff]
  constructor
  · rintro ⟨_, ⟨s, htext, rfl⟩, rfl⟩
    exact ⟨s, htext, s.encode_path.symm⟩
  · rintro ⟨s, htext, rfl⟩
    exact ⟨s.path, ⟨s, htext, rfl⟩, s.encode_path⟩

/-- Nothing follows the start of a name exactly if it has no segments. -/
theorem Spelling.all_isAnchorChar_iff (s : Spelling) :
    s.text.toList.all NamePath.isAnchorChar = true ↔ s.pieces = [] := by
  rw [← s.body_eq_nil_iff, ← s.takeWhile_dropWhile_text.2, List.all_eq_true,
    List.dropWhile_eq_nil_iff]

/-- **Which texts name an object**, and what their bytes are. -/
theorem objectName_eq_ok_iff {name : String} {allowRoot : Bool} {bytes : Bytes} :
    objectName name allowRoot = .ok bytes ↔
      ∃ s : Spelling, s.text = name ∧ (s.pieces ≠ [] ∨ allowRoot = true ∧ name = "\\") ∧
        s.encode = bytes := by
  have hobject : objectName name allowRoot = .ok bytes ↔ nameString name = .ok bytes ∧
      (name.toList.all NamePath.isAnchorChar = true → allowRoot = true ∧ name = "\\") := by
    rw [objectName, nameString, NamePath.parseObject]
    cases name.toList.all NamePath.isAnchorChar with
    | false => simp
    | true =>
      by_cases hroot : allowRoot = true ∧ name = "\\"
      · simp [hroot.1, hroot.2]
      · have hnameless : (!(allowRoot && name == "\\")) = true := by
          rw [Bool.not_eq_true', Bool.eq_false_iff]
          exact fun h => hroot ((Bool.and_eq_true_iff.mp h).imp_right eq_of_beq)
        rw [hnameless, Bool.and_self, if_pos rfl]
        refine iff_of_false ?_ fun h => hroot (h.2 rfl)
        rintro ⟨⟩
  rw [hobject, nameString_eq_ok_iff]
  constructor
  · rintro ⟨⟨s, rfl, rfl⟩, hnamed⟩
    rw [s.all_isAnchorChar_iff] at hnamed
    exact ⟨s, rfl, (Decidable.em (s.pieces = [])).symm.imp_right hnamed, rfl⟩
  · rintro ⟨s, rfl, hnamed, rfl⟩
    refine ⟨⟨s, rfl, rfl⟩, ?_⟩
    rw [s.all_isAnchorChar_iff]
    exact fun hnil => hnamed.resolve_left (absurd hnil)

/-- **Names and their bytes.** The texts that are read are those of spellings, each of one. They
name an object if they have a segment, or are a root where it may be opened. Two names have the same
bytes exactly if they start the same and have the same segments, filled up; and the bytes of a name
never go on as those of another. -/
theorem nameString_spelt :
    (∀ name bytes, nameString name = .ok bytes ↔
      ∃ s : Spelling, s.text = name ∧ s.encode = bytes) ∧
    (∀ name allowRoot bytes, objectName name allowRoot = .ok bytes ↔
      ∃ s : Spelling, s.text = name ∧ (s.pieces ≠ [] ∨ allowRoot = true ∧ name = "\\") ∧
        s.encode = bytes) ∧
    Function.Injective Spelling.text ∧
    (∀ s s' : Spelling, s.encode = s'.encode ↔
      s.anchor = s'.anchor ∧ s.pieces.map filled = s'.pieces.map filled) ∧
    ∀ name name' bytes bytes', nameString name = .ok bytes → nameString name' = .ok bytes' →
      bytes <+: bytes' → bytes = bytes' := by
  refine ⟨fun _ _ => nameString_eq_ok_iff, fun _ _ _ => objectName_eq_ok_iff,
    fun _ _ => Spelling.eq_of_text_eq, fun _ _ => Spelling.encode_eq_iff, ?_⟩
  intro name name' bytes bytes' hname hname' hp
  obtain ⟨s, -, rfl⟩ := nameString_eq_ok_iff.mp hname
  obtain ⟨s', -, rfl⟩ := nameString_eq_ok_iff.mp hname'
  exact Spelling.encode_eq_of_prefix hp

/-- A port is named by its path, and a bus by its name, which is the same bus filled up. -/
theorem nameString_spelt_bus :
    (∃ s : Spelling, s.text = "\\_SB.COM0" ∧ s.encode =
      [0x5C, 0x2E, 0x5F, 0x53, 0x42, 0x5F, 0x43, 0x4F, 0x4D, 0x30]) ∧
    nameString "_SB" = .ok [0x5F, 0x53, 0x42, 0x5F] ∧
    nameString "_SB_" = .ok [0x5F, 0x53, 0x42, 0x5F] ∧
    ([0x5F, 0x53, 0x42, 0x5F] : Bytes) = [0x5F, 0x53, 0x42, 0x5F] := by
  have hshort : nameString "_SB" = .ok [0x5F, 0x53, 0x42, 0x5F] := by rfl
  have hfilled : nameString "_SB_" = .ok [0x5F, 0x53, 0x42, 0x5F] := by rfl
  exact ⟨(nameString_spelt.1 _ _).mp (by rfl), hshort, hfilled,
    nameString_spelt.2.2.2.2 _ _ _ _ hshort hfilled List.prefix_rfl⟩

end AcpiTables.Aml
