import Attest.Json.Record

/-!
Members that hold one value or an array of values. The form in which they were read is kept: one
value stays one, an array of one stays an array. `toList` is the values in order.
-/

namespace Attest

open Json (Draft Error Value)

/-- One value or an array of values. -/
inductive OneOrMany (α : Type)
  | many (values : List α)
  | one (value : α)
  deriving DecidableEq

namespace OneOrMany

variable {α : Type}

def empty : OneOrMany α := .many []

def toList : OneOrMany α → List α
  | .many values => values
  | .one value => [value]

def isEmpty (m : OneOrMany α) : Bool := m.toList.isEmpty

/-- Whether the member was written as one value. -/
def isOne : OneOrMany α → Bool
  | .many _ => false
  | .one _ => true

/-- Adds a value at the end; one value becomes an array. -/
def push (m : OneOrMany α) (value : α) : OneOrMany α := .many (m.toList ++ [value])

/-- Whether one of the values agrees with the given one. -/
def contains (agrees : α → α → Bool) (m : OneOrMany α) (value : α) : Bool :=
  m.toList.any (agrees · value)

def agrees (agreeing : α → α → Bool) : OneOrMany α → OneOrMany α → Bool
  | .many as, .many bs => as.length == bs.length && (as.zip bs).all fun (a, b) => agreeing a b
  | .one a, .one b => agreeing a b
  | _, _ => false

@[simp] theorem toList_push (m : OneOrMany α) (value : α) :
    (m.push value).toList = m.toList ++ [value] := rfl

def toJson (encode : α → Value) : OneOrMany α → Value
  | .many values => .array (values.map encode)
  | .one value => encode value

/-- The member that a JSON value stands for, where `decode` reads a single value. An array is read
as many values if each of its items can be read. -/
def ofJson? (decode : Value → Option α) (v : Value) : Option (OneOrMany α) :=
  match v with
  | .array items =>
    match items.mapM decode with
    | some values => some (.many values)
    | none => (decode v).map .one
  | v => (decode v).map .one

/-- The member at a place of a document. -/
def ofDraft (decode : Value → Option α) (budget : Nat) (d : Draft) :
    Except Error (OneOrMany α) := do
  match ofJson? decode (← d.value budget) with
  | some m => return m
  | none => throw (.noAlternative "OneOrMany")

end OneOrMany

end Attest
