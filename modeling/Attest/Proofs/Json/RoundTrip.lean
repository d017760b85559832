import Attest.Json.Record
import Attest.Proofs.Dict
import Attest.Proofs.Json.Texts
import Attest.Proofs.Json.Values
import Attest.Proofs.Outcome

/-!
Values survive the way into a text and back. A value whose objects are in order is decoded as it was
written unless it is nested deeper than the decoder allows, and what a decoder returns is always in
order and within that depth.
-/

namespace Attest.Json

theorem ite_max_le {α : Type} (m n budget : Nat) (a b : α) :
    (if max m n ≤ budget then a else b) = if m ≤ budget then if n ≤ budget then a else b else b := by
  simp only [Nat.max_le, ite_and]

/-! ### From a value to its draft and back -/

namespace Draft

mutual

theorem value_draft (v : Value) (budget : Nat) (hv : v.Ordered) :
    v.draft.value budget = if v.depth ≤ budget then .ok v else .error .tooDeep := by
  match v, budget with
  | .null, _ | .bool _, _ | .number _, _ | .string _, _ => exact (if_pos (Nat.zero_le _)).symm
  | .array items, 0 => rfl
  | .array items, budget + 1 =>
      rw [Value.draft, value, valueItems_draft items budget hv]
      simp only [Value.depth, Nat.add_le_add_iff_right]
      split <;> rfl
  | .object members, 0 => rfl
  | .object members, budget + 1 =>
      rw [Value.draft, value, valueMembers_draft members budget hv.2]
      simp only [Value.depth, Nat.add_le_add_iff_right]
      split
      · show Except.ok (Value.object (Dict.ofList members)) = _
        rw [Dict.ofList_of_ascending hv.1]
      · rfl

theorem valueItems_draft (items : List Value) (budget : Nat) (hitems : Value.OrderedItems items) :
    valueItems (draftItems items) budget =
      if Value.depthItems items ≤ budget then .ok items else .error .tooDeep := by
  match items with
  | [] => exact (if_pos (Nat.zero_le _)).symm
  | item :: items =>
      rw [draftItems, valueItems, value_draft item budget hitems.1, valueItems_draft items budget hitems.2,
        Value.depthItems, ite_max_le]
      split
      · split <;> rfl
      · rfl

theorem valueMembers_draft (members : List (String × Value)) (budget : Nat)
    (hmembers : Value.OrderedMembers members) :
    valueMembers (draftMembers members) budget =
      if Value.depthMembers members ≤ budget then .ok members else .error .tooDeep := by
  match members with
  | [] => exact (if_pos (Nat.zero_le _)).symm
  | (name, v) :: members =>
      rw [draftMembers, valueMembers, draftMember, valueMember, value_draft v budget hmembers.1,
        valueMembers_draft members budget hmembers.2, Value.depthMembers, Value.depthMember, ite_max_le]
      split
      · split <;> rfl
      · rfl

end

/-! ### Runs through the members of an object -/

theorem foldMembers_cons {α : Type} (step : α → String → Draft → Except Error α) (name : String) (v : Value)
    (members : List (String × Value)) (state : α) :
    foldMembers step (draftMembers ((name, v) :: members)) .closed state =
      step state name v.draft >>= fun next => foldMembers step (draftMembers members) .closed next := by
  rw [draftMembers, foldMembers, List.foldlM_cons]
  show (step state name v.draft >>= _) >>= _ = _
  cases step state name v.draft <;> rfl

theorem optionalValue_draft (v : Value) (budget : Nat) (hv : v.Ordered) {found : Option Value} :
    v.draft.optionalValue budget = .ok found ↔
      v.depth ≤ budget ∧ found = if v = .null then none else some v := by
  by_cases hnull : v = .null
  · subst hnull
    rw [if_pos rfl]
    exact ⟨fun h => ⟨Nat.zero_le _, by cases h; rfl⟩, fun h => by rw [h.2]; rfl⟩
  · have hvalue : v.draft.optionalValue budget = some <$> v.draft.value budget := by
      cases v with
      | null => exact absurd rfl hnull
      | _ => rfl
    rw [hvalue, value_draft v budget hv, if_neg hnull]
    by_cases hdepth : v.depth ≤ budget
    · rw [if_pos hdepth]
      exact ⟨fun h => ⟨hdepth, by cases h; rfl⟩, fun h => by rw [h.2]; rfl⟩
    · rw [if_neg hdepth]
      exact ⟨fun h => (by cases h), fun h => absurd h.1 hdepth⟩

/-! ### What a decoder returns -/

mutual

/-- What is decoded is in order and within the depth allowed. -/
theorem ordered_of_value (d : Draft) (budget : Nat) {v : Value} (h : d.value budget = .ok v) :
    v.Ordered ∧ v.depth ≤ budget := by
  match d, budget with
  | .null, _ =>
      cases h
      exact ⟨trivial, Nat.zero_le _⟩
  | .bool _, _ =>
      cases h
      exact ⟨trivial, Nat.zero_le _⟩
  | .number (.ok _), _ =>
      cases h
      exact ⟨trivial, Nat.zero_le _⟩
  | .number (.error _), _ => cases h
  | .string (.ok _), _ =>
      cases h
      exact ⟨trivial, Nat.zero_le _⟩
  | .string (.error _), _ => cases h
  | .array _ _, 0 => cases h
  | .array items ending, budget + 1 =>
      rw [value] at h
      obtain ⟨values, hitems, h⟩ := bind_eq_ok.mp h
      obtain ⟨_, -, h⟩ := bind_eq_ok.mp h
      cases h
      have hvalues := ordered_of_valueItems items budget hitems
      exact ⟨Value.ordered_array.mpr fun v hv => (hvalues v hv).1,
        Value.depth_array_le.mpr fun v hv => (hvalues v hv).2⟩
  | .object _ _, 0 => cases h
  | .object members ending, budget + 1 =>
      rw [value] at h
      obtain ⟨entries, hmembers, h⟩ := bind_eq_ok.mp h
      obtain ⟨_, -, h⟩ := bind_eq_ok.mp h
      cases h
      have hentries := ordered_of_valueMembers members budget hmembers
      exact ⟨Value.ordered_object.mpr ⟨Dict.ascending_ofList entries, fun entry hentry =>
          (hentries entry (Dict.mem_of_mem_ofList hentry)).1⟩,
        Value.depth_object_le.mpr fun entry hentry =>
          (hentries entry (Dict.mem_of_mem_ofList hentry)).2⟩
  | .broken _, _ => cases h

theorem ordered_of_valueItems (items : List Draft) (budget : Nat) {values : List Value}
    (h : valueItems items budget = .ok values) : ∀ v ∈ values, v.Ordered ∧ v.depth ≤ budget := by
  match items with
  | [] =>
      cases h
      intro v hv
      cases hv
  | item :: items =>
      rw [valueItems] at h
      obtain ⟨first, hitem, h⟩ := bind_eq_ok.mp h
      obtain ⟨rest, hrest, h⟩ := bind_eq_ok.mp h
      cases h
      exact List.forall_mem_cons.mpr ⟨ordered_of_value item budget hitem,
        ordered_of_valueItems items budget hrest⟩

theorem ordered_of_valueMembers (members : List (Except Error String × Draft)) (budget : Nat)
    {entries : List (String × Value)} (h : valueMembers members budget = .ok entries) :
    ∀ entry ∈ entries, entry.2.Ordered ∧ entry.2.depth ≤ budget := by
  match members with
  | [] =>
      cases h
      intro v hv
      cases hv
  | (name, d) :: members =>
      rw [valueMembers, valueMember] at h
      obtain ⟨first, hmember, h⟩ := bind_eq_ok.mp h
      obtain ⟨rest, hrest, h⟩ := bind_eq_ok.mp h
      cases h
      obtain ⟨_, -, hmember⟩ := bind_eq_ok.mp hmember
      obtain ⟨v, hv, hmember⟩ := bind_eq_ok.mp hmember
      cases hmember
      exact List.forall_mem_cons.mpr ⟨ordered_of_value d budget hv,
        ordered_of_valueMembers members budget hrest⟩

end

end Draft

/-! ### Texts -/

/-- A decoder that is given the text of a value looks at the draft of the value. -/
theorem decodeText_bytes {α : Type} (decode : Draft → Except Error α) (v : Value) :
    decodeText decode v.bytes = decode v.draft := by
  rw [decodeText, scan_bytes]
  show (decode v.draft >>= .ok) = decode v.draft
  cases decode v.draft <;> rfl

theorem decodeText_eq_ok {α : Type} {decode : Draft → Except Error α} {text : Bytes} {a : α} :
    decodeText decode text = .ok a ↔ decode (scan text).1 = .ok a ∧ (scan text).2 = false := by
  rw [decodeText]
  generalize scan text = scanned
  obtain ⟨draft, surplus⟩ := scanned
  show (decode draft >>= _) = _ ↔ _
  cases hdecode : decode draft with
  | error e => simp [bind, Except.bind]
  | ok b => cases surplus <;> simp [bind, Except.bind, throw, throwThe, MonadExceptOf.throw, pure, Except.pure]

theorem ordered_of_parse {text : Bytes} {v : Value} (h : parse text = .ok v) :
    v.Ordered ∧ v.depth ≤ nestingLimit :=
  Draft.ordered_of_value _ _ (decodeText_eq_ok.mp h).1

/-- A value in order is read as it was written, unless it is nested too deep. -/
theorem parse_bytes (v : Value) (hv : v.Ordered) :
    parse v.bytes = if v.depth ≤ nestingLimit then .ok v else .error .tooDeep := by
  rw [parse, decodeText_bytes, Draft.value_draft v _ hv]

/-- An object with its members in any order is read as the map of its members. -/
theorem parse_object (members : List (String × Value)) (hmembers : ∀ member ∈ members, member.2.Ordered) :
    parse (Value.object members).bytes =
      if (Value.object members).depth ≤ nestingLimit then .ok (.object (Dict.ofList members))
      else .error .tooDeep := by
  rw [parse, decodeText_bytes, Value.draft, nestingLimit, Draft.value,
    Draft.valueMembers_draft members _ (Value.orderedMembers_iff.mpr hmembers), Value.depth]
  simp only [Nat.add_one_le_iff, Nat.lt_succ_iff]
  split <;> rfl

end Attest.Json
