import Attest.Bytes
import Attest.Json.Value

/-!
The compact text of a value. Members are written in the order in which the object lists them,
without white space. In strings the quote, the backslash and the characters below the space are
escaped, and nothing else is.
-/

namespace Attest.Json

/-- A character as it stands in a string. -/
def escapedChar (c : Char) : List Char :=
  if c = '"' then ['\\', '"']
  else if c = '\\' then ['\\', '\\']
  else if c.toNat = 8 then ['\\', 'b']
  else if c.toNat = 9 then ['\\', 't']
  else if c.toNat = 10 then ['\\', 'n']
  else if c.toNat = 12 then ['\\', 'f']
  else if c.toNat = 13 then ['\\', 'r']
  else if c.toNat < 0x20 then
    ['\\', 'u', '0', '0', Nat.digitChar (c.toNat / 16), Nat.digitChar (c.toNat % 16)]
  else [c]

/-- A string with its quotes. -/
def stringText (s : String) : List Char := '"' :: s.toList.flatMap escapedChar ++ ['"']

/-- Texts separated by commas. -/
def separated : List (List Char) → List Char
  | [] => []
  | [text] => text
  | text :: texts => text ++ ',' :: separated texts

/-- An array of texts. -/
def arrayText (items : List (List Char)) : List Char := '[' :: separated items ++ [']']

/-- An object of texts of names and values. -/
def objectText (members : List (List Char × List Char)) : List Char :=
  '\x7b' :: separated (members.map fun member => member.1 ++ ':' :: member.2) ++ ['\x7d']

def boolText (b : Bool) : List Char :=
  if b then ['t', 'r', 'u', 'e'] else ['f', 'a', 'l', 's', 'e']

def nullText : List Char := ['n', 'u', 'l', 'l']

namespace Value

mutual

/-- The text of a value, as characters. -/
def chars : Value → List Char
  | .null => nullText
  | .bool b => boolText b
  | .number n => n.text
  | .string s => stringText s
  | .array items => arrayText (charsItems items)
  | .object members => objectText (charsMembers members)

def charsItems : List Value → List (List Char)
  | [] => []
  | item :: items => item.chars :: charsItems items

def charsMembers : List (String × Value) → List (List Char × List Char)
  | [] => []
  | member :: members => charsMember member :: charsMembers members

def charsMember : String × Value → List Char × List Char
  | (name, value) => (stringText name, value.chars)

end

def text (v : Value) : String := String.ofList v.chars

/-- The text of a value as bytes. -/
def bytes (v : Value) : Bytes := Bytes.ofChars v.chars

end Value

end Attest.Json
