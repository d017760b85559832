import Attest.Dict
import Attest.Json.Number

/-!
JSON documents as values. An object is the list of its members; the objects that readers build
have their members in ascending order of names, each name once (`Value.Ordered`), so that two
objects with the same members are equal.
-/

namespace Attest.Json

/-- A JSON value. -/
inductive Value
  | null
  | bool (value : Bool)
  | number (value : Number)
  | string (value : String)
  | array (items : List Value)
  | object (members : List (String × Value))

/-- The members of an object. -/
abbrev Object := Dict Value

namespace Value

/-- The name of the kind of a value, for messages. -/
def kind : Value → String
  | .null => "null"
  | .bool _ => "boolean"
  | .number _ => "number"
  | .string _ => "string"
  | .array _ => "array"
  | .object _ => "object"

def string? : Value → Option String
  | .string s => some s
  | _ => none

def object? : Value → Option Object
  | .object members => some members
  | _ => none

mutual

/-- How many arrays and objects stand around the deepest point of a value. -/
def depth : Value → Nat
  | .array items => depthItems items + 1
  | .object members => depthMembers members + 1
  | _ => 0

def depthItems : List Value → Nat
  | [] => 0
  | item :: items => max (depth item) (depthItems items)

def depthMembers : List (String × Value) → Nat
  | [] => 0
  | member :: members => max (depthMember member) (depthMembers members)

def depthMember : String × Value → Nat
  | (_, value) => depth value

end

mutual

/-- Every object, at every depth, lists its members in ascending order of names. -/
def Ordered : Value → Prop
  | .array items => OrderedItems items
  | .object members => Dict.Ascending members ∧ OrderedMembers members
  | _ => True

def OrderedItems : List Value → Prop
  | [] => True
  | item :: items => Ordered item ∧ OrderedItems items

def OrderedMembers : List (String × Value) → Prop
  | [] => True
  | member :: members => OrderedMember member ∧ OrderedMembers members

def OrderedMember : String × Value → Prop
  | (_, value) => Ordered value

end

mutual

/-- Equality of values, where the sign of a floating-point zero does not count. -/
def agrees : Value → Value → Bool
  | .null, .null => true
  | .bool a, .bool b => a == b
  | .number a, .number b => a.agrees b
  | .string a, .string b => a == b
  | .array a, .array b => agreesItems a b
  | .object a, .object b => agreesMembers a b
  | _, _ => false

def agreesItems : List Value → List Value → Bool
  | [], [] => true
  | a :: as, b :: bs => agrees a b && agreesItems as bs
  | _, _ => false

def agreesMembers : List (String × Value) → List (String × Value) → Bool
  | [], [] => true
  | a :: as, b :: bs => agreesMember a b && agreesMembers as bs
  | _, _ => false

def agreesMember : String × Value → String × Value → Bool
  | (a, v), (b, w) => a == b && agrees v w

end

mutual

/-- Decides whether two values are the same. -/
def decEq : (a b : Value) → Decidable (a = b)
  | .null, .null => isTrue rfl
  | .bool a, .bool b =>
    if h : a = b then isTrue (h ▸ rfl) else isFalse fun e => h (Value.bool.inj e)
  | .number a, .number b =>
    if h : a = b then isTrue (h ▸ rfl) else isFalse fun e => h (Value.number.inj e)
  | .string a, .string b =>
    if h : a = b then isTrue (h ▸ rfl) else isFalse fun e => h (Value.string.inj e)
  | .array a, .array b =>
    match decEqItems a b with
    | isTrue h => isTrue (h ▸ rfl)
    | isFalse h => isFalse fun e => h (Value.array.inj e)
  | .object a, .object b =>
    match decEqMembers a b with
    | isTrue h => isTrue (h ▸ rfl)
    | isFalse h => isFalse fun e => h (Value.object.inj e)
  | .null, .bool _ => isFalse nofun
  | .null, .number _ => isFalse nofun
  | .null, .string _ => isFalse nofun
  | .null, .array _ => isFalse nofun
  | .null, .object _ => isFalse nofun
  | .bool _, .null => isFalse nofun
  | .bool _, .number _ => isFalse nofun
  | .bool _, .string _ => isFalse nofun
  | .bool _, .array _ => isFalse nofun
  | .bool _, .object _ => isFalse nofun
  | .number _, .null => isFalse nofun
  | .number _, .bool _ => isFalse nofun
  | .number _, .string _ => isFalse nofun
  | .number _, .array _ => isFalse nofun
  | .number _, .object _ => isFalse nofun
  | .string _, .null => isFalse nofun
  | .string _, .bool _ => isFalse nofun
  | .string _, .number _ => isFalse nofun
  | .string _, .array _ => isFalse nofun
  | .string _, .object _ => isFalse nofun
  | .array _, .null => isFalse nofun
  | .array _, .bool _ => isFalse nofun
  | .array _, .number _ => isFalse nofun
  | .array _, .string _ => isFalse nofun
  | .array _, .object _ => isFalse nofun
  | .object _, .null => isFalse nofun
  | .object _, .bool _ => isFalse nofun
  | .object _, .number _ => isFalse nofun
  | .object _, .string _ => isFalse nofun
  | .object _, .array _ => isFalse nofun

def decEqItems : (a b : List Value) → Decidable (a = b)
  | [], [] => isTrue rfl
  | a :: as, b :: bs =>
    match decEq a b, decEqItems as bs with
    | isTrue h, isTrue t => isTrue (h ▸ t ▸ rfl)
    | isFalse h, _ => isFalse fun e => h (List.cons.inj e).1
    | _, isFalse t => isFalse fun e => t (List.cons.inj e).2
  | [], _ :: _ => isFalse nofun
  | _ :: _, [] => isFalse nofun

def decEqMembers : (a b : List (String × Value)) → Decidable (a = b)
  | [], [] => isTrue rfl
  | a :: as, b :: bs =>
    match decEqMember a b, decEqMembers as bs with
    | isTrue h, isTrue t => isTrue (h ▸ t ▸ rfl)
    | isFalse h, _ => isFalse fun e => h (List.cons.inj e).1
    | _, isFalse t => isFalse fun e => t (List.cons.inj e).2
  | [], _ :: _ => isFalse nofun
  | _ :: _, [] => isFalse nofun

def decEqMember : (a b : String × Value) → Decidable (a = b)
  | (a, v), (b, w) =>
    if h : a = b then
      match decEq v w with
      | isTrue t => isTrue (h ▸ t ▸ rfl)
      | isFalse t => isFalse fun e => t (Prod.mk.inj e).2
    else isFalse fun e => h (Prod.mk.inj e).1

end

instance : DecidableEq Value := decEq

end Value

end Attest.Json
