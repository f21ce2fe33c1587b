import AcpiTables.Json.Basic

/-!
# Values that are kept

A document can be kept and looked at later. What is kept is less than what is written: of several
members of one key only the last is left (`AcpiTables.Json.lastWins`). And not every document can be
kept. Arrays and objects may be nested `AcpiTables.Json.maxDepth` deep, and a number must be near
some number of double precision, since it is kept as one unless it is an integer of 64 bits.
-/

namespace AcpiTables.Json

/-! ### Several members of one key -/

mutual

/-- The value with only the last of several members of one key, at every depth. -/
def lastWins : Json → Json
  | array items => array (lastWinsItems items)
  | object members => object (lastWinsMembers members)
  | value => value

/-- The items of an array, each with only the last of several members. -/
def lastWinsItems : List Json → List Json
  | [] => []
  | item :: items => lastWins item :: lastWinsItems items

/-- The members of an object without those whose key comes again. -/
def lastWinsMembers : List (String × Json) → List (String × Json)
  | [] => []
  | (key, value) :: members =>
    if members.any (fun member => member.1 == key) then lastWinsMembers members
    else (key, lastWins value) :: lastWinsMembers members

end

/-! ### What can be kept -/

/-- The number from which on no number is rounded to one of double precision: a number with 54
binary digits, all ones, with 970 zeros behind them. -/
def Number.limit : Nat := (1 <<< 54 - 1) <<< 970

/-- Whether a number is rounded to one of double precision. The exponent is compared with the number
of digits first, so that no power is taken that is larger than needed. -/
def Number.isFinite : Number → Bool
  | integer value => value.natAbs < limit
  | decimal _ digits exponent =>
    let order := (Nat.toDigits 10 digits).length + exponent
    digits == 0 || order < 309 || order == 309 &&
      if 0 ≤ exponent then digits * Nat.pow 10 exponent.toNat < limit
      else digits < limit * Nat.pow 10 (-exponent).toNat

/-- How deep the arrays and objects of a document may be nested. -/
def maxDepth : Nat := 127

mutual

/-- Whether a value can be kept, if so much deeper nesting is allowed. -/
def isKeepable (depth : Nat) : Json → Bool
  | number value => value.isFinite
  | array items => depth != 0 && areKeepable (depth - 1) items
  | object members => depth != 0 && haveKeepable (depth - 1) members
  | _ => true

/-- Whether all items can be kept. -/
def areKeepable (depth : Nat) : List Json → Bool
  | [] => true
  | item :: items => isKeepable depth item && areKeepable depth items

/-- Whether the values of all members can be kept. -/
def haveKeepable (depth : Nat) : List (String × Json) → Bool
  | [] => true
  | (_, value) :: members => isKeepable depth value && haveKeepable depth members

end

/-- What is kept of a document, if it can be kept. -/
def keep? (v : Json) : Option Json := if v.isKeepable maxDepth then some v.lastWins else none

end AcpiTables.Json
