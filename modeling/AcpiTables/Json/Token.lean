import AcpiTables.Json.Basic

/-!
# JSON tokens

A JSON text is cut into tokens in one pass: punctuation, texts between quotation marks,
and words, which are everything else that stands between blanks. A word is a number or
one of three names.

The pass only finds where a quoted text ends. What stands in it is read afterwards by
`AcpiTables.Json.unescape`, which refuses bare control characters and any half of a
surrogate pair that is written without the other.
-/

namespace AcpiTables.Json

/-- A token of a JSON text. -/
inductive Token where
  /-- The mark before the members of an object. -/
  | openObject
  /-- The mark behind the members of an object. -/
  | closeObject
  /-- The mark before the items of an array. -/
  | openArray
  /-- The mark behind the items of an array. -/
  | closeArray
  /-- The mark between a key and its value. -/
  | colon
  /-- The mark between members or items. -/
  | comma
  /-- A quoted text. -/
  | text (value : String)
  /-- A number. -/
  | number (value : Number)
  /-- The words `true` and `false`. -/
  | bool (value : Bool)
  /-- The word `null`. -/
  | null
deriving DecidableEq, Repr

/-! ### Quoted texts -/

/-- The number that a hexadecimal digit of either case stands for. -/
def hexDigit? (c : Char) : Option Nat :=
  if '0' ≤ c ∧ c ≤ '9' then some (c.toNat - '0'.toNat)
  else if 'a' ≤ c ∧ c ≤ 'f' then some (c.toNat - 'a'.toNat + 10)
  else if 'A' ≤ c ∧ c ≤ 'F' then some (c.toNat - 'A'.toNat + 10)
  else none

/-- The number that four hexadecimal digits stand for. -/
def hexQuad? (a b c d : Char) : Option Nat := do
  let high := (← hexDigit? a) * 16 + (← hexDigit? b)
  let low := (← hexDigit? c) * 16 + (← hexDigit? d)
  return high * 256 + low

/-- The character that a letter after a backslash stands for. -/
def escaped? : Char → Option Char
  | '"' => some '"'
  | '\\' => some '\\'
  | '/' => some '/'
  | 'b' => some '\x08'
  | 'f' => some '\x0c'
  | 'n' => some '\n'
  | 'r' => some '\r'
  | 't' => some '\t'
  | _ => none

/-- Whether a 16-bit unit is the first half of a surrogate pair. -/
def isHighSurrogate (unit : Nat) : Bool := 0xD800 ≤ unit && unit < 0xDC00

/-- Whether a 16-bit unit is the second half of a surrogate pair. -/
def isLowSurrogate (unit : Nat) : Bool := 0xDC00 ≤ unit && unit < 0xE000

/-- The character that two halves of a surrogate pair stand for. -/
def surrogatePair (high low : Nat) : Char :=
  Char.ofNat (0x10000 + (high - 0xD800) * 0x400 + (low - 0xDC00))

/-- The characters that are written between quotation marks, after the first half of a
surrogate pair if there is one. Its second half has to follow at once. -/
def unescapeAfter : Option Nat → List Char → Option (List Char)
  | none, [] => some []
  | none, '\\' :: 'u' :: a :: b :: c :: d :: rest => do
    let unit ← hexQuad? a b c d
    if isHighSurrogate unit then unescapeAfter (some unit) rest
    else if isLowSurrogate unit then none
    else return Char.ofNat unit :: (← unescapeAfter none rest)
  | none, '\\' :: c :: rest => do
    let c ← escaped? c
    return c :: (← unescapeAfter none rest)
  | none, c :: rest =>
    if c == '\\' || c.toNat < 0x20 then none
    else do return c :: (← unescapeAfter none rest)
  | some high, '\\' :: 'u' :: a :: b :: c :: d :: rest => do
    let unit ← hexQuad? a b c d
    if isLowSurrogate unit then return surrogatePair high unit :: (← unescapeAfter none rest)
    else none
  | some _, _ => none

/-- The characters that are written between quotation marks. -/
def unescape (written : List Char) : Option (List Char) := unescapeAfter none written

/-! ### Words -/

/-- Whether a character is a decimal digit. -/
def isDigit (c : Char) : Bool := '0' ≤ c && c ≤ '9'

/-- The number that decimal digits stand for. -/
def digitsValue (digits : List Char) : Nat :=
  digits.foldl (fun n c => n * 10 + (c.toNat - '0'.toNat)) 0

/-- Reads an exponent: a sign or none, and digits. -/
def exponent? (written : List Char) : Option Int :=
  let (isNegative, digits) :=
    match written with
    | '-' :: digits => (true, digits)
    | '+' :: digits => (false, digits)
    | digits => (false, digits)
  if digits.isEmpty || !digits.all isDigit then none
  else if isNegative then some (-(digitsValue digits : Int))
  else some (digitsValue digits)

/-- Reads a number. The part before the point has no leading zero, and each part that
is announced has a digit. -/
def number? (written : List Char) : Option Number := do
  let (isNegative, unsigned) :=
    match written with
    | '-' :: unsigned => (true, unsigned)
    | unsigned => (false, unsigned)
  let whole := unsigned.takeWhile isDigit
  let behindWhole := unsigned.dropWhile isDigit
  if whole.isEmpty || (whole.head? == some '0' && whole.length != 1) then none
  let (fraction, behindFraction) ←
    match behindWhole with
    | '.' :: rest =>
      let fraction := rest.takeWhile isDigit
      if fraction.isEmpty then none else some (fraction, rest.dropWhile isDigit)
    | rest => some ([], rest)
  let exponent ←
    match behindFraction with
    | [] => some none
    | e :: rest => if e == 'e' || e == 'E' then some <$> exponent? rest else none
  let digits := digitsValue (whole ++ fraction)
  match exponent with
  | some exponent => return .decimal isNegative digits (exponent - fraction.length)
  | none =>
    if !fraction.isEmpty || (isNegative && digits == 0) then
      return .decimal isNegative digits (-(fraction.length : Int))
    else
      return .integer (if isNegative then -(digits : Int) else digits)

/-- Reads a word. -/
def word? (written : List Char) : Option Token :=
  if written = ['n', 'u', 'l', 'l'] then some .null
  else if written = ['t', 'r', 'u', 'e'] then some (.bool true)
  else if written = ['f', 'a', 'l', 's', 'e'] then some (.bool false)
  else .number <$> number? written

/-! ### The pass -/

/-- What the pass is in the middle of. The characters read of it are listed last
first. -/
inductive Piece where
  /-- Nothing. -/
  | none
  /-- A word. -/
  | word (read : List Char)
  /-- A quoted text; whether the last character was a backslash that escapes the
  next one. -/
  | quotation (read : List Char) (isEscaping : Bool)

/-- How far the pass has come: the tokens found, the last one first, and what it is in
the middle of. -/
structure Scan where
  /-- The tokens found. -/
  tokens : List Token
  /-- What has begun and has not ended. -/
  piece : Piece

/-- Whether a character is a blank between tokens. -/
def isBlank (c : Char) : Bool := c == ' ' || c == '\t' || c == '\n' || c == '\r'

/-- The punctuation of JSON. -/
def punctuation? : Char → Option Token
  | '\x7b' => some .openObject
  | '\x7d' => some .closeObject
  | '[' => some .openArray
  | ']' => some .closeArray
  | ':' => some .colon
  | ',' => some .comma
  | _ => none

namespace Scan

/-- Ends a word. -/
def endWord (s : Scan) : Option Scan :=
  match s.piece with
  | .word read => (fun token => ⟨token :: s.tokens, .none⟩) <$> word? read.reverse
  | _ => some s

/-- Takes one more character. -/
def step (s : Scan) (c : Char) : Option Scan :=
  match s.piece with
  | .quotation read true => some { s with piece := .quotation (c :: read) false }
  | .quotation read false =>
    if c == '\\' then some { s with piece := .quotation (c :: read) true }
    else if c == '"' then do
      let text ← unescape read.reverse
      return ⟨.text (String.ofList text) :: s.tokens, .none⟩
    else some { s with piece := .quotation (c :: read) false }
  | piece =>
    if isBlank c then s.endWord
    else if c == '"' then do
      let s ← s.endWord
      return { s with piece := .quotation [] false }
    else
      match punctuation? c, piece with
      | some token, _ => do
        let s ← s.endWord
        return { s with tokens := token :: s.tokens }
      | none, .word read => some { s with piece := .word (c :: read) }
      | none, _ => some { s with piece := .word [c] }

/-- Ends the pass. No quoted text may be left open. -/
def finish (s : Scan) : Option (List Token) :=
  match s.piece with
  | .quotation _ _ => none
  | _ => (fun s => s.tokens.reverse) <$> s.endWord

end Scan

/-- The tokens of a text. -/
def tokens? (text : String) : Option (List Token) := do
  let s ← text.toList.foldlM Scan.step ⟨[], .none⟩
  s.finish

end AcpiTables.Json
