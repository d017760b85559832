import Attest.Calendar.Rfc3339
import Attest.Json.Decode

/-!
Decoders for records: members that may stand only once, members that must be there, and records that
are written as the bare list of their members' values.
-/

namespace Attest.Json

namespace Draft

/-- The time at a place. -/
def time (d : Draft) : Except Error Timestamp := do
  let text ← d.text
  (Timestamp.parseLenient text).mapError fun e => .refused e.message

end Draft

/-- What is read for the member `name`, which must not have been read before. -/
def readOnce {α : Type} (name : String) (before : Option α) (read : Except Error α) :
    Except Error (Option α) :=
  match before with
  | some _ => .error (.repeatedMember name)
  | none => some <$> read

def required {α : Type} (name : String) (value : Option α) : Except Error α :=
  value.elim (.error (.missingMember name)) .ok

/-- The items of an array that have not been read yet. -/
structure ItemsLeft where
  items : List Draft
  ending : Ending

namespace ItemsLeft

/-- Reads the next item, if the array has one. -/
def next {α : Type} (left : ItemsLeft) (decode : Draft → Except Error α) :
    Except Error (Option α × ItemsLeft) :=
  match left.items, left.ending.arrayFault? with
  | item :: items, _ => do return (some (← decode item), { left with items })
  | [], some fault => .error fault.reading
  | [], none => .ok (none, left)

/-- Reads the item with the given place, which a record of the kind `wanted` must have. -/
def nextRequired {α : Type} (left : ItemsLeft) (place : Nat) (wanted : String)
    (decode : Draft → Except Error α) : Except Error (α × ItemsLeft) := do
  match ← left.next decode with
  | (some value, left) => return (value, left)
  | (none, _) => throw (.tooFewItems place wanted)

/-- Checks that all items have been read and the array ends. -/
def close (left : ItemsLeft) : Except Error Unit :=
  if left.items.isEmpty then report left.ending.surplus? else .error .trailingCharacters

end ItemsLeft

end Attest.Json
