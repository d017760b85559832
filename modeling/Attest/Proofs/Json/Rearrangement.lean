import Attest.Proofs.Json.RoundTrip

/-!
The order of members in a text. A text of a value may list the members of every object in any order; it is read as the
value all the same, unless it is nested too deep.
-/

namespace Attest.Json

/-! ### The order of members -/

/-- Members of one name, whose values are related. -/
inductive SameName (related : Value → Value → Prop) : String × Value → String × Value → Prop
  | values {name : String} {v w : Value} (h : related v w) : SameName related (name, v) (name, w)

/-- One value has the members of every object of the other, in any order. -/
inductive Rearranged : Value → Value → Prop
  | null : Rearranged .null .null
  | bool (b : Bool) : Rearranged (.bool b) (.bool b)
  | number (x : Number) : Rearranged (.number x) (.number x)
  | string (s : String) : Rearranged (.string s) (.string s)
  | array {items others : List Value} (h : List.Forall₂ Rearranged items others) :
      Rearranged (.array items) (.array others)
  | object {members listed others : List (String × Value)}
      (h : List.Forall₂ (SameName Rearranged) members listed) (hlisted : listed.Perm others) :
      Rearranged (.object members) (.object others)

/-- A text of a value, the members of every object in some order. -/
def IsTextOf (v : Value) (text : Bytes) : Prop := ∃ w, Rearranged w v ∧ WritesText w text

theorem Rearranged.refl (v : Value) : Rearranged v v := by
  induction v using Value.nestedRec with
  | null => exact .null
  | bool b => exact .bool b
  | number x => exact .number x
  | string s => exact .string s
  | array items ih => exact .array (List.forall₂_same.mpr ih)
  | object members ih =>
      exact .object (List.forall₂_same.mpr fun member hmember => .values (ih member hmember)) (List.Perm.refl _)

/-- What is written for a value is one of its texts. -/
theorem isTextOf_bytes (v : Value) : IsTextOf v v.bytes := ⟨v, .refl v, writesText_bytes v⟩

/-! ### Reading -/

theorem valueItems_of_rearranged {items others : List Value} (h : List.Forall₂ Rearranged items others) {budget : Nat}
    (hothers : ∀ other ∈ others, ∀ w, Rearranged w other → w.draft.value budget = .ok other) :
    Draft.valueItems (draftItems items) budget = .ok others := by
  induction h with
  | nil => rfl
  | cons hitem _ ih =>
      rw [List.forall_mem_cons] at hothers
      rw [draftItems, Draft.valueItems, hothers.1 _ hitem, ih hothers.2]
      rfl

theorem valueMembers_of_rearranged {members others : List (String × Value)}
    (h : List.Forall₂ (SameName Rearranged) members others) {budget : Nat}
    (hothers : ∀ other ∈ others, ∀ w, Rearranged w other.2 → w.draft.value budget = .ok other.2) :
    Draft.valueMembers (draftMembers members) budget = .ok others := by
  induction h with
  | nil => rfl
  | cons hmember _ ih =>
      cases hmember with
      | values hv =>
          rw [List.forall_mem_cons] at hothers
          rw [draftMembers, draftMember, Draft.valueMembers, Draft.valueMember, hothers.1 _ hv, ih hothers.2]
          rfl

/-- Whichever order the members of a value have in a draft, they are decoded to the value in order. -/
theorem Rearranged.value_draft {w v : Value} (h : Rearranged w v) (hv : v.Ordered) {budget : Nat}
    (hbudget : v.depth ≤ budget) : w.draft.value budget = .ok v := by
  induction v using Value.nestedRec generalizing w budget with
  | null =>
      cases h
      rfl
  | bool b =>
      cases h
      rfl
  | number x =>
      cases h
      rfl
  | string s =>
      cases h
      rfl
  | array others ih =>
      cases h with
      | array hitems =>
          obtain ⟨budget, rfl⟩ : ∃ n, budget = n + 1 := ⟨budget - 1, by rw [Value.depth] at hbudget; omega⟩
          have hordered := Value.ordered_array.mp hv
          have hdepth := Value.depth_array_le.mp hbudget
          rw [Value.draft, Draft.value, valueItems_of_rearranged hitems fun other hother w hw =>
            ih other hother hw (hordered other hother) (hdepth other hother)]
          rfl
  | object others ih =>
      cases h with
      | object hmembers hlisted =>
          obtain ⟨budget, rfl⟩ : ∃ n, budget = n + 1 := ⟨budget - 1, by rw [Value.depth] at hbudget; omega⟩
          obtain ⟨hascending, hordered⟩ := Value.ordered_object.mp hv
          have hdepth := Value.depth_object_le.mp hbudget
          rw [Value.draft, Draft.value, valueMembers_of_rearranged hmembers fun other hother w hw =>
            have hmem := hlisted.mem_iff.mp hother
            ih other hmem hw (hordered other hmem) (hdepth other hmem)]
          show Except.ok (Value.object (Dict.ofList _)) = _
          rw [Dict.ofList_of_perm hascending hlisted]

/-- Every text of a value is read as the value, unless it is nested too deep. -/
theorem parse_of_isTextOf {v : Value} (hv : v.Ordered) (hdepth : v.depth ≤ nestingLimit) {text : Bytes}
    (h : IsTextOf v text) : parse text = .ok v := by
  obtain ⟨w, hw, htext⟩ := h
  rw [parse, decodeText_eq_ok, scan_of_writesText htext]
  exact ⟨hw.value_draft hv hdepth, rfl⟩

end Attest.Json
