import Attest.Json.Error
import Attest.Json.Value

/-!
A JSON text as far as it can be read. Faults stay in the tree at the place where they stand in the
text, so that whoever walks the draft in order meets the first of them first, and one who passes
over a part meets only the faults that make its end uncertain.
-/

namespace Attest.Json

/-- A place where a text cannot be read on: what a reader of the value reports, and what one that
passes over the value reports. -/
structure Fault where
  reading : Error
  skipping : Error

namespace Fault

/-- A fault that both report alike. -/
def both (e : Error) : Fault := ⟨e, e⟩

end Fault

/-- How the items of an array or the members of an object end. -/
inductive Ending
  /-- The closing bracket stands there. -/
  | closed
  /-- The text ends where a comma or the closing bracket should stand. -/
  | cut
  /-- The text ends after a comma. -/
  | cutAfterComma
  /-- The closing bracket stands after a comma. -/
  | commaBeforeEnd
  /-- Something else stands where a comma or the closing bracket should stand. -/
  | unseparated
  /-- Something else than a readable name stands where the name of a member should. -/
  | name (fault : Fault)

namespace Ending

/-- The fault at the end of an array. -/
def arrayFault? : Ending → Option Fault
  | .closed => none
  | .cut => some (.both .cutArray)
  | .cutAfterComma => some (.both .cutValue)
  | .commaBeforeEnd => some ⟨.trailingComma, .expectedValue⟩
  | .unseparated => some (.both .expectedItemEnd)
  | .name fault => some fault

/-- The fault at the end of an object. -/
def objectFault? : Ending → Option Fault
  | .closed => none
  | .cut => some (.both .cutObject)
  | .cutAfterComma => some ⟨.cutValue, .cutObject⟩
  | .commaBeforeEnd => some ⟨.trailingComma, .nameNotString⟩
  | .unseparated => some (.both .expectedMemberEnd)
  | .name fault => some fault

/-- What is reported by a reader that wants no more items than it has read. -/
def surplus? : Ending → Option Error
  | .closed => none
  | .cut => some .cutArray
  | .commaBeforeEnd => some .trailingComma
  | _ => some .trailingCharacters

end Ending

/-- A value of a text as far as it can be read. -/
inductive Draft
  | null
  | bool (value : Bool)
  /-- A well-formed number; an error if it lies outside the range of numbers. -/
  | number (value : Except Error Number)
  /-- A string that ends; an error if it is not the encoding of a text. -/
  | string (value : Except Error String)
  | array (items : List Draft) (ending : Ending)
  | object (members : List (Except Error String × Draft)) (ending : Ending)
  /-- Nothing can be read here. -/
  | broken (fault : Fault)

mutual

/-- The draft of a text that holds the value without a fault. -/
def Value.draft : Value → Draft
  | .null => .null
  | .bool b => .bool b
  | .number n => .number (.ok n)
  | .string s => .string (.ok s)
  | .array items => .array (draftItems items) .closed
  | .object members => .object (draftMembers members) .closed

def draftItems : List Value → List Draft
  | [] => []
  | item :: items => item.draft :: draftItems items

def draftMembers : List (String × Value) → List (Except Error String × Draft)
  | [] => []
  | member :: members => draftMember member :: draftMembers members

def draftMember : String × Value → Except Error String × Draft
  | (name, value) => (.ok name, value.draft)

end

end Attest.Json
