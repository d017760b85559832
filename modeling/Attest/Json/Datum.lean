import Attest.Json.Canonical
import Attest.Text.Position

/-!
Structured data of a program and its two ways into JSON: directly into canonical text, and by way of
a value. Names of members must be texts: characters, names of variants, integers, truth values and
finite floating-point numbers are turned into one, anything else as a name is refused. A
floating-point number that is not finite becomes null.
-/

namespace Attest.Json

/-- Structured data. Floating-point numbers that are not finite are all alike. -/
inductive Datum
  | unit
  | none
  | some (value : Datum)
  | bool (value : Bool)
  | integer (value : Int) (fits : leastInteger ≤ value ∧ value ≤ greatestInteger)
  | single (value : Option Single)
  | double (value : Option Double)
  | string (value : String)
  | char (value : Char)
  | bytes (value : Bytes)
  /-- Data that refuses to be written, for the reason it gives. -/
  | refusal (reason : String)
  | sequence (items : List Datum)
  | map (entries : List (Datum × Datum))
  | unitVariant (name : String)
  | newtypeVariant (name : String) (value : Datum)
  | structVariant (name : String) (fields : List (String × Datum))

/-- Why data has no JSON text. -/
inductive Unrepresentable
  | nameNotText
  | nameNotFinite
  | refused (reason : String)
  deriving DecidableEq

/-- A reason as it is told. A position at its end is read and told anew, except that one in line 0
is left out. Numbers beyond the greatest integer are not read. -/
def toldReason (reason : String) : String :=
  match Text.Position.split? reason with
  | Option.none => reason
  | Option.some (position, wording) =>
    if greatestInteger < position.line ∨ greatestInteger < position.column then reason
    else if position.line = 0 then wording
    else wording ++ String.ofList position.phrase

def Unrepresentable.message (e : Unrepresentable) : String :=
  "canonicalization error: value is not representable as JSON: " ++ match e with
  | .nameNotText => "key must be a string"
  | .nameNotFinite => "float key must be finite (got NaN or +/-inf)"
  | .refused reason => toldReason reason

namespace Datum

/-- The name that data gives to a member, where `single` and `double` spell floating-point
numbers. -/
def name (single : Single → List Char) (double : Double → List Char) :
    Datum → Except Unrepresentable String
  | .string s => .ok s
  | .char c => .ok (String.singleton c)
  | .unitVariant name => .ok name
  | .some d => d.name single double
  | .integer i _ => .ok (String.ofList (DecimalLayout.integer i))
  | .bool b => .ok (String.ofList (boolText b))
  | .single (.some x) => .ok (String.ofList (single x))
  | .double (.some x) => .ok (String.ofList (double x))
  | .single .none | .double .none => .error .nameNotFinite
  | .refusal reason => .error (.refused reason)
  | _ => .error .nameNotText

def byteNumber (b : UInt8) : Number :=
  .integer b.toNat (by
    have := b.toNat_lt
    simp only [leastInteger, greatestInteger]
    omega)

mutual

/-- The canonical text of data, as characters. -/
def canonicalChars : Datum → Except Unrepresentable (List Char)
  | .unit | .none => .ok nullText
  | .some d => d.canonicalChars
  | .bool b => .ok (boolText b)
  | .integer i _ => .ok (DecimalLayout.integer i)
  | .single x => .ok (x.elim nullText Binary.canonicalText)
  | .double x => .ok (x.elim nullText Binary.canonicalText)
  | .string s => .ok (stringText s)
  | .char c => .ok (stringText (String.singleton c))
  | .bytes b => .ok (arrayText (b.map fun b => (byteNumber b).canonicalText))
  | .refusal reason => .error (.refused reason)
  | .sequence items => arrayText <$> canonicalItems items
  | .map entries => canonicalObject <$> canonicalEntries entries
  | .unitVariant name => .ok (stringText name)
  | .newtypeVariant name d => do
    let text ← d.canonicalChars
    return canonicalObject [(nameText name, text)]
  | .structVariant name fields => do
    let fields ← canonicalFields fields
    return canonicalObject [(nameText name, canonicalObject fields)]

def canonicalItems : List Datum → Except Unrepresentable (List (List Char))
  | [] => .ok []
  | item :: items => do
    let text ← item.canonicalChars
    let texts ← canonicalItems items
    return text :: texts

def canonicalEntries : List (Datum × Datum) → Except Unrepresentable (List (String × List Char))
  | [] => .ok []
  | entry :: entries => do
    let text ← canonicalEntry entry
    let texts ← canonicalEntries entries
    return text :: texts

def canonicalEntry : Datum × Datum → Except Unrepresentable (String × List Char)
  | (key, value) => do
    let name ← key.name Binary.canonicalText Binary.canonicalText
    let text ← value.canonicalChars
    return (nameText name, text)

def canonicalFields : List (String × Datum) → Except Unrepresentable (List (String × List Char))
  | [] => .ok []
  | field :: fields => do
    let text ← canonicalField field
    let texts ← canonicalFields fields
    return text :: texts

def canonicalField : String × Datum → Except Unrepresentable (String × List Char)
  | (name, value) => do
    let text ← value.canonicalChars
    return (nameText name, text)

end

mutual

/-- The value that data stands for. -/
def toValue : Datum → Except Unrepresentable Value
  | .unit | .none => .ok .null
  | .some d => d.toValue
  | .bool b => .ok (.bool b)
  | .integer i h => .ok (.number (.integer i h))
  | .single x => .ok (x.elim .null fun x => .number (.double x.toDouble))
  | .double x => .ok (x.elim .null fun x => .number (.double x))
  | .string s => .ok (.string s)
  | .char c => .ok (.string (String.singleton c))
  | .bytes b => .ok (.array (b.map fun b => .number (byteNumber b)))
  | .refusal reason => .error (.refused reason)
  | .sequence items => .array <$> valueItems items
  | .map entries => (fun members => .object (Dict.ofList members)) <$> valueEntries entries
  | .unitVariant name => .ok (.string name)
  | .newtypeVariant name d => do
    let value ← d.toValue
    return .object [(name, value)]
  | .structVariant name fields => do
    let fields ← valueFields fields
    return .object [(name, .object (Dict.ofList fields))]

def valueItems : List Datum → Except Unrepresentable (List Value)
  | [] => .ok []
  | item :: items => do
    let value ← item.toValue
    let values ← valueItems items
    return value :: values

def valueEntries : List (Datum × Datum) → Except Unrepresentable (List (String × Value))
  | [] => .ok []
  | entry :: entries => do
    let member ← valueEntry entry
    let members ← valueEntries entries
    return member :: members

def valueEntry : Datum × Datum → Except Unrepresentable (String × Value)
  | (key, value) => do
    let name ← key.name Binary.documentText Binary.documentText
    let value ← value.toValue
    return (name, value)

def valueFields : List (String × Datum) → Except Unrepresentable (List (String × Value))
  | [] => .ok []
  | field :: fields => do
    let member ← valueField field
    let members ← valueFields fields
    return member :: members

def valueField : String × Datum → Except Unrepresentable (String × Value)
  | (name, value) => do
    let value ← value.toValue
    return (name, value)

end

/-- The canonical text of data as bytes. -/
def canonicalBytes (d : Datum) : Except Unrepresentable Bytes :=
  d.canonicalChars.map Bytes.ofChars

end Datum

end Attest.Json
