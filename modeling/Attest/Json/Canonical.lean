import Attest.Json.Print

/-!
The canonical text of a value, over which signatures are made: compact, with one spelling for each
number, and with the members of every object ordered by their names as they stand in the text,
quotes and escapes included. Integers keep all their digits.
-/

namespace Attest.Json

/-- An object with its members, given as texts, in ascending order of the texts of their names. Of
two members with one name the later counts. -/
def canonicalObject (members : List (String × List Char)) : List Char :=
  objectText ((Dict.ofList members).map fun member => (member.1.toList, member.2))

/-- The name of a member as it stands in a text. -/
def nameText (name : String) : String := String.ofList (stringText name)

namespace Value

mutual

/-- The canonical text of a value, as characters. -/
def canonicalChars : Value → List Char
  | .null => nullText
  | .bool b => boolText b
  | .number n => n.canonicalText
  | .string s => stringText s
  | .array items => arrayText (canonicalItems items)
  | .object members => canonicalObject (canonicalMembers members)

def canonicalItems : List Value → List (List Char)
  | [] => []
  | item :: items => item.canonicalChars :: canonicalItems items

def canonicalMembers : List (String × Value) → List (String × List Char)
  | [] => []
  | member :: members => canonicalMember member :: canonicalMembers members

def canonicalMember : String × Value → String × List Char
  | (name, value) => (nameText name, value.canonicalChars)

end

/-- The canonical text of a value as bytes. -/
def canonicalBytes (v : Value) : Bytes := Bytes.ofChars v.canonicalChars

end Value

end Attest.Json
