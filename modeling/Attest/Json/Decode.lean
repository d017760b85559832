import Attest.Json.Scan

/-!
Decoders: what a place of a draft holds as a value, as a text, as an optional one, as the members
of a record. A decoder looks at the places it wants in the order of the text and reports the first
thing that stands in its way. Values may be nested to a depth that the decoder is told; a text as
a whole may be nested 127 deep.
-/

namespace Attest.Json

/-- How deep the arrays and objects of a text may be nested. -/
def nestingLimit : Nat := 127

/-- Reports an error if there is one. -/
def report : Option Error → Except Error Unit
  | none => .ok ()
  | some e => .error e

namespace Draft

/-- What stands at a place, for a decoder that wanted something else. Numbers, strings and literals
are read to their end for it, arrays and objects are not. -/
def found : Draft → Except Error Found
  | .null => .ok .null
  | .bool b => .ok (.bool b)
  | .number n => n.map .number
  | .string s => s.map .string
  | .array _ _ => .ok .array
  | .object _ _ => .ok .object
  | .broken fault => .error fault.reading

/-- Reports that something else than `wanted` stands at a place. -/
def unwanted {α : Type} (d : Draft) (wanted : String) : Except Error α := do
  let found ← d.found
  throw (.wrongType found wanted)

mutual

/-- The value at a place, with at most `budget` arrays and objects around any point of it. -/
def value : Draft → (budget : Nat) → Except Error Value
  | .null, _ => .ok .null
  | .bool b, _ => .ok (.bool b)
  | .number n, _ => n.map .number
  | .string s, _ => s.map .string
  | .array _ _, 0 => .error .tooDeep
  | .array items ending, budget + 1 => do
    let items ← valueItems items budget
    report (ending.arrayFault?.map Fault.reading)
    return .array items
  | .object _ _, 0 => .error .tooDeep
  | .object members ending, budget + 1 => do
    let members ← valueMembers members budget
    report (ending.objectFault?.map Fault.reading)
    return .object (Dict.ofList members)
  | .broken fault, _ => .error fault.reading

def valueItems : List Draft → (budget : Nat) → Except Error (List Value)
  | [], _ => .ok []
  | item :: items, budget => do
    let value ← item.value budget
    let values ← valueItems items budget
    return value :: values

def valueMembers : List (Except Error String × Draft) → (budget : Nat) →
    Except Error (List (String × Value))
  | [], _ => .ok []
  | member :: members, budget => do
    let first ← valueMember member budget
    let others ← valueMembers members budget
    return first :: others

def valueMember : Except Error String × Draft → (budget : Nat) → Except Error (String × Value)
  | (name, draft), budget => do
    let name ← name
    let value ← draft.value budget
    return (name, value)

end

mutual

/-- Passes over a place. -/
def skip : Draft → Except Error Unit
  | .array items ending => do
    skipItems items
    report (ending.arrayFault?.map Fault.skipping)
  | .object members ending => do
    skipMembers members
    report (ending.objectFault?.map Fault.skipping)
  | .broken fault => .error fault.skipping
  | _ => .ok ()

def skipItems : List Draft → Except Error Unit
  | [] => .ok ()
  | item :: items => do
    item.skip
    skipItems items

/-- Passes over members, whose names are not looked at either. -/
def skipMembers : List (Except Error String × Draft) → Except Error Unit
  | [] => .ok ()
  | member :: members => do
    skipMember member
    skipMembers members

def skipMember : Except Error String × Draft → Except Error Unit
  | (_, draft) => draft.skip

end

def text : Draft → Except Error String
  | .string s => s
  | d => d.unwanted "a string"

/-- What a decoder finds at a place, or nothing where a null stands. -/
def optional {α : Type} (decode : Draft → Except Error α) : Draft → Except Error (Option α)
  | .null => .ok none
  | d => some <$> decode d

/-- The value at a place, or nothing where a null stands. -/
def optionalValue (budget : Nat) : Draft → Except Error (Option Value) :=
  optional (·.value budget)

/-- The members of the object at a place. -/
def members : Draft → (budget : Nat) → Except Error Object
  | .object _ _, 0 => .error .tooDeep
  | .object members ending, budget + 1 => do
    let members ← valueMembers members budget
    report (ending.objectFault?.map Fault.reading)
    return Dict.ofList members
  | d, _ => d.unwanted "a map"

/-- The items of the array at a place, each as `decode` finds it. -/
def items {α : Type} (decode : Draft → Except Error α) : Draft → Except Error (List α)
  | .array items ending => do
    let values ← items.mapM decode
    report (ending.arrayFault?.map Fault.reading)
    return values
  | d => d.unwanted "a sequence"

/-- Runs through the members of an object in order, handing each name with its place to `step`. -/
def foldMembers {α : Type} (step : α → String → Draft → Except Error α)
    (members : List (Except Error String × Draft)) (ending : Ending) (start : α) :
    Except Error α := do
  let final ← members.foldlM (fun state (name, place) => do step state (← name) place) start
  report (ending.objectFault?.map Fault.reading)
  return final

end Draft

/-- What a decoder finds in a text that holds one value and nothing else. -/
def decodeText {α : Type} (decode : Draft → Except Error α) (text : Bytes) : Except Error α := do
  let (draft, surplus) := scan text
  let result ← decode draft
  if surplus then throw .trailingCharacters
  return result

/-- The value that a text holds. -/
def parse (text : Bytes) : Except Error Value := decodeText (·.value nestingLimit) text

end Attest.Json
