import AcpiTables.Text.Unshown

/-!
# Numbers and quotations in messages

The messages of this library quote names that a caller passed in, and such a name
may hold any character. `AcpiTables.Text.quoted` writes a text between quotation
marks in one line: a quotation mark and a backslash are escaped, the usual control
characters have their short forms, and every other character that cannot be shown
is written by its code.
-/

namespace AcpiTables.Text

/-- A number in base sixteen, lower case, without leading zeros. -/
def hex (n : Nat) : String := String.ofList (Nat.toDigits 16 n)

/-- How a single character stands inside a quotation. -/
def escape (c : Char) : String :=
  match c with
  | '\x00' => "\\0"
  | '\t' => "\\t"
  | '\n' => "\\n"
  | '\r' => "\\r"
  | '"' => "\\\""
  | '\\' => "\\\\"
  | c => if isUnshown c then "\\u\x7b" ++ hex c.toNat ++ "\x7d" else c.toString

/-- A text between quotation marks, on one line. -/
def quoted (s : String) : String := "\"" ++ String.join (s.toList.map escape) ++ "\""

/-- A text that may be absent: its quotation, or the word for nothing. -/
def quotedOption : Option String → String
  | none => "None"
  | some s => "Some(" ++ quoted s ++ ")"

/-- Numbers between square brackets, separated by commas. -/
def listed (ns : List Nat) : String := "[" ++ ", ".intercalate (ns.map toString) ++ "]"

end AcpiTables.Text
