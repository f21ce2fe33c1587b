import AcpiTables.Bytes
import AcpiTables.Error

/-!
# Name strings

An AML object is found by a path: where to start, and a sequence of four-character
**segments**. A written path such as `\_SB.PCI0` or `^^COM0` starts at the root
(`\`), a number of levels up (`^`), or where it stands, and separates its segments by
dots.

`AcpiTables.Aml.NamePath.parse` reads the written form and
`AcpiTables.Aml.NamePath.encode` gives the bytes. A segment may be written with
fewer than four characters; it is filled up with `_`, so that `_SB` and `_SB_` are
one path. A path may have no segment at all, and then it refers to a place and
names no object: `AcpiTables.Aml.NamePath.parseObject` asks for a name.
-/

namespace AcpiTables.Aml

/-! ### Segments -/

/-- Four characters, as bytes. -/
structure NameSegment where
  /-- The first character, a capital letter or `_`. -/
  first : UInt8
  /-- The second character. -/
  second : UInt8
  /-- The third character. -/
  third : UInt8
  /-- The fourth character. -/
  fourth : UInt8
deriving DecidableEq, Repr

namespace NameSegment

/-- The characters that may start a segment. -/
def isLead (c : Char) : Bool := c == '_' || ('A' ≤ c && c ≤ 'Z')

/-- The characters that may follow in a segment. -/
def isFollowing (c : Char) : Bool := isLead c || ('0' ≤ c && c ≤ '9')

/-- Whether a written segment is made of the right characters. -/
def isWellSpelt : List Char → Bool
  | [] => true
  | c :: cs => isLead c && cs.all isFollowing

/-- The character at a place of a segment, `_` where none is written. -/
def charAt (written : List Char) (i : Nat) : UInt8 :=
  UInt8.ofNat (written.getD i '_').toNat

/-- Reads a segment of one to four characters. The length is judged first, and in
bytes. -/
def parse (written : List Char) : Except Error NameSegment :=
  let size := (String.ofList written).utf8ByteSize
  if size = 0 ∨ 4 < size then
    .error (.argument (.segmentLength (String.ofList written)))
  else if isWellSpelt written then
    .ok ⟨charAt written 0, charAt written 1, charAt written 2, charAt written 3⟩
  else
    .error (.argument (.segmentCharacter (String.ofList written)))

/-- The bytes of a segment. -/
def bytes (s : NameSegment) : Bytes := [s.first, s.second, s.third, s.fourth]

end NameSegment

/-! ### Paths -/

/-- Where a path starts. -/
inductive Anchor where
  /-- At the root of the namespace. -/
  | root
  /-- A number of levels above the place where the path stands. -/
  | up (levels : Nat)
deriving DecidableEq, Repr

/-- A path to a place or an object of the namespace. -/
structure NamePath where
  /-- Where the path starts. -/
  anchor : Anchor
  /-- The segments, outermost first. -/
  segments : List NameSegment
deriving DecidableEq, Repr

namespace NamePath

/-- The characters that stand for the root and for the parent. -/
def isAnchorChar (c : Char) : Bool := c == '\\' || c == '^'

/-- Reads the start of the path `name`: `written` is what stands before its first
segment. The root may be given once and alone, the parent any number of times. -/
def parseAnchor (name : String) (written : List Char) : Except Error Anchor :=
  if written = ['\\'] then .ok .root
  else if '\\' ∈ written then .error (.argument (.mixedAnchor name))
  else .ok (.up written.length)

/-- Cuts a text at its dots. A text without a dot is one piece. -/
def splitDots : List Char → List (List Char)
  | [] => [[]]
  | c :: cs =>
    match c == '.', splitDots cs with
    | true, pieces => [] :: pieces
    | false, [] => [[c]]
    | false, piece :: pieces => (c :: piece) :: pieces

/-- Reads the segments of a path, of which there may be at most 255. -/
def parseSegments (written : List Char) : Except Error (List NameSegment) :=
  if written.isEmpty then .ok []
  else
    let pieces := splitDots written
    if 255 < pieces.length then .error (.argument (.segmentCount pieces.length))
    else pieces.mapM NameSegment.parse

/-- Reads a written path. -/
def parse (name : String) : Except Error NamePath := do
  let anchor ← parseAnchor name (name.toList.takeWhile isAnchorChar)
  let segments ← parseSegments (name.toList.dropWhile isAnchorChar)
  return ⟨anchor, segments⟩

/-- Reads a path that is to name an object. It has to end in a segment; only
where the root itself may be opened is a lone `\` a name. -/
def parseObject (name : String) (allowRoot : Bool) : Except Error NamePath :=
  if name.toList.all isAnchorChar && !(allowRoot && name == "\\") then
    .error (.argument (.nameless name))
  else
    parse name

end NamePath

/-! ### Encoding -/

/-- The bytes of the start of a path. -/
def Anchor.encode : Anchor → Bytes
  | root => [0x5C]
  | up levels => List.replicate levels 0x5E

/-- The bytes of the segments of a path: none are announced by a zero, two by a
mark, and three or more by a mark and their number. -/
def encodeSegments : List NameSegment → Bytes
  | [] => [0x00]
  | [s] => s.bytes
  | [s, t] => 0x2E :: (s.bytes ++ t.bytes)
  | segments => 0x2F :: UInt8.ofNat segments.length :: segments.flatMap NameSegment.bytes

/-- The bytes of a path. -/
def NamePath.encode (path : NamePath) : Bytes :=
  path.anchor.encode ++ encodeSegments path.segments

/-- The bytes of a written path. -/
def nameString (name : String) : Except Error Bytes :=
  NamePath.encode <$> NamePath.parse name

/-- The bytes of a written path that names an object. -/
def objectName (name : String) (allowRoot : Bool) : Except Error Bytes :=
  NamePath.encode <$> NamePath.parseObject name allowRoot

end AcpiTables.Aml
