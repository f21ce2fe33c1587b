/-!
# JSON values

A JSON value as its text gives it. An object keeps its members in order, and keeps
them all: a key that is written twice is there twice. What that means is for the reader
of the value to say.

A number without fraction and exponent is an integer of any size. The number `-0` is
none of them, since no integer is written like that.
-/

namespace AcpiTables

/-- A JSON number. -/
inductive Json.Number where
  /-- An integer. -/
  | integer (value : Int)
  /-- A number that is written in another way: its sign, its digits as one number, and
  the power of ten to multiply with. -/
  | decimal (isNegative : Bool) (digits : Nat) (exponent : Int)
deriving DecidableEq, Repr

/-- A JSON value. -/
inductive Json where
  /-- The word `null`. -/
  | null
  /-- The words `true` and `false`. -/
  | bool (value : Bool)
  /-- A number. -/
  | number (value : Json.Number)
  /-- A text. -/
  | text (value : String)
  /-- Values in order. -/
  | array (items : List Json)
  /-- Keys with values, in order. -/
  | object (members : List (String × Json))

end AcpiTables
