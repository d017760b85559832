import Attest.Json.Value
import Mathlib.Tactic.Basic

/-!
Values in general: induction over their items and members, and what it is for an array or an object to
be in order and nested only so deep.
-/

namespace Attest.Json

namespace Value

/-- What holds of a value whenever it holds of its items or of the values of its members holds of all. -/
@[elab_as_elim]
theorem nestedRec {P : Value → Prop} (null : P .null) (bool : ∀ b, P (.bool b)) (number : ∀ n, P (.number n))
    (string : ∀ s, P (.string s)) (array : ∀ items, (∀ item ∈ items, P item) → P (.array items))
    (object : ∀ members, (∀ member ∈ members, P member.2) → P (.object members)) (v : Value) : P v := by
  match v with
  | .null => exact null
  | .bool b => exact bool b
  | .number n => exact number n
  | .string s => exact string s
  | .array items =>
      apply array items
      intro item hitem
      have hsize := List.sizeOf_lt_of_mem hitem
      exact nestedRec null bool number string array object item
  | .object members =>
      apply object members
      intro member hmember
      have hsize := List.sizeOf_lt_of_mem hmember
      exact nestedRec null bool number string array object member.2
termination_by v
decreasing_by
  · simp only [Value.array.sizeOf_spec]
    omega
  · obtain ⟨name, value⟩ := member
    simp only [Prod.mk.sizeOf_spec] at hsize
    simp only [Value.object.sizeOf_spec]
    omega

theorem orderedMembers_iff {members : List (String × Value)} :
    OrderedMembers members ↔ ∀ member ∈ members, member.2.Ordered := by
  induction members with
  | nil => simp [OrderedMembers]
  | cons member members ih => rw [OrderedMembers, ih, List.forall_mem_cons, OrderedMember]

theorem orderedItems_iff {items : List Value} : OrderedItems items ↔ ∀ item ∈ items, item.Ordered := by
  induction items with
  | nil => simp [OrderedItems]
  | cons item items ih => rw [OrderedItems, ih, List.forall_mem_cons]

theorem depthMembers_le {members : List (String × Value)} {budget : Nat} :
    depthMembers members ≤ budget ↔ ∀ member ∈ members, member.2.depth ≤ budget := by
  induction members with
  | nil => simp [depthMembers]
  | cons member members ih => rw [depthMembers, Nat.max_le, ih, List.forall_mem_cons, depthMember]

theorem depthItems_le {items : List Value} {budget : Nat} :
    depthItems items ≤ budget ↔ ∀ item ∈ items, item.depth ≤ budget := by
  induction items with
  | nil => simp [depthItems]
  | cons item items ih => rw [depthItems, Nat.max_le, ih, List.forall_mem_cons]

/-- An object is in order if its members are and the value of each of them is. -/
theorem ordered_object {members : Object} :
    (object members).Ordered ↔ Dict.Ascending members ∧ ∀ member ∈ members, member.2.Ordered := by
  rw [Ordered, orderedMembers_iff]

theorem ordered_array {items : List Value} : (array items).Ordered ↔ ∀ item ∈ items, item.Ordered := by
  rw [Ordered, orderedItems_iff]

theorem depth_object_le {members : List (String × Value)} {budget : Nat} :
    (object members).depth ≤ budget + 1 ↔ ∀ member ∈ members, member.2.depth ≤ budget := by
  rw [depth, Nat.add_le_add_iff_right, depthMembers_le]

theorem depth_array_le {items : List Value} {budget : Nat} :
    (array items).depth ≤ budget + 1 ↔ ∀ item ∈ items, item.depth ≤ budget := by
  rw [depth, Nat.add_le_add_iff_right, depthItems_le]

end Value

end Attest.Json
