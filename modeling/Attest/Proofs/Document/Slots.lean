import Attest.Proofs.Document.Credential
import Attest.Proofs.Document.Members
import Mathlib.Data.List.Nodup

/-!
Records as they are written: the members with a field of their own, each of them left out if it says nothing, and the
custom members behind them. A custom member may have the name of another. A reader then finds the custom one, and the
name stands twice if the other is written.
-/

namespace Attest

open Json (Draft Object Value)

/-! ### Members in their places -/

/-- Those of the members that say something. -/
def filled (slots : List (String × Option Value)) : List (String × Value) :=
  slots.flatMap fun slot => optionalMember slot.1 (fun v => v) slot.2

variable {slots : List (String × Option Value)} {custom : Object}

theorem mem_filled {name : String} {v : Value} : (name, v) ∈ filled slots ↔ (name, some v) ∈ slots := by
  simp only [filled, List.mem_flatMap, optionalMember, List.mem_map, Option.mem_toList, Prod.mk.injEq]
  constructor
  · rintro ⟨⟨_, _⟩, hslot, _, rfl, rfl, rfl⟩
    exact hslot
  · intro h
    exact ⟨_, h, v, rfl, rfl, rfl⟩

theorem names_filled_sublist (slots : List (String × Option Value)) :
    ((filled slots).map Prod.fst).Sublist (slots.map Prod.fst) := by
  induction slots with
  | nil => exact List.Sublist.slnil
  | cons slot slots ih =>
      obtain ⟨name, held⟩ := slot
      cases held with
      | none => exact ih.cons name
      | some v => exact ih.cons_cons name

/-- Every name is written once exactly if no custom member has the name of another that is written. -/
theorem nodup_names_iff (hslots : (slots.map Prod.fst).Nodup) (hcustom : custom.Ascending) :
    ((filled slots ++ custom).map Prod.fst).Nodup ↔ ∀ member ∈ custom, ∀ v, (member.1, some v) ∉ slots := by
  rw [List.map_append, List.nodup_append]
  constructor
  · rintro ⟨-, -, hdisjoint⟩ member hmember v hslot
    exact hdisjoint member.1 (List.mem_map.mpr ⟨_, mem_filled.mpr hslot, rfl⟩) member.1
      (List.mem_map_of_mem hmember) rfl
  · intro h
    refine ⟨hslots.sublist (names_filled_sublist slots), hcustom.nodup_names, ?_⟩
    rintro name hname _ hcustomName rfl
    obtain ⟨⟨_, v⟩, hfilled, rfl⟩ := List.mem_map.mp hname
    obtain ⟨member, hmember, heq⟩ := List.mem_map.mp hcustomName
    exact h member hmember v (heq ▸ mem_filled.mp hfilled)

theorem get?_filled (hslots : (slots.map Prod.fst).Nodup) (name : String) :
    Dict.get? (filled slots) name = (Dict.get? slots name).join := by
  refine Option.ext fun v => ?_
  rw [← Dict.mem_iff_get?_of_nodup (hslots.sublist (names_filled_sublist slots)), mem_filled,
    Dict.mem_iff_get?_of_nodup hslots, Option.join_eq_some_iff]

/-- A reader finds the custom member of a name if there is one, and the other one if there is not. -/
theorem get?_written (hslots : (slots.map Prod.fst).Nodup) (hcustom : custom.Ascending) (name : String) :
    (Dict.ofList (filled slots ++ custom)).get? name = (custom.get? name).or (Dict.get? slots name).join := by
  have hfilled := hslots.sublist (names_filled_sublist slots)
  rw [Dict.get?_ofList, List.reverse_append, Dict.get?_append, Dict.get?_reverse hcustom,
    Dict.get?_of_perm hfilled (List.reverse_perm _), get?_filled hslots]

/-- Custom members that do not take the names of others. -/
structure Apart (slots : List (String × Option Value)) (custom : Object) : Prop where
  nodup : (slots.map Prod.fst).Nodup
  ascending : custom.Ascending
  names : ∀ member ∈ custom, member.1 ∉ slots.map Prod.fst

namespace Apart

variable (h : Apart slots custom) {name : String}

include h

theorem nodup_names : ((filled slots ++ custom).map Prod.fst).Nodup :=
  (nodup_names_iff h.nodup h.ascending).mpr fun member hmember _ hslot =>
    h.names member hmember (List.mem_map_of_mem (f := Prod.fst) hslot)

theorem get?_custom_of_mem (hname : name ∈ slots.map Prod.fst) : custom.get? name = none :=
  Dict.get?_eq_none fun member hmember heq => h.names member hmember (heq ▸ hname)

/-- A reader finds a member with a place of its own there. -/
theorem get?_slot {held : Option Value} (hheld : Dict.get? slots name = some held) :
    (Dict.ofList (filled slots ++ custom)).get? name = held := by
  have hname : name ∈ slots.map Prod.fst := List.mem_map_of_mem (f := Prod.fst) (Dict.mem_of_get? hheld)
  rw [get?_written h.nodup h.ascending, h.get?_custom_of_mem hname, hheld, Option.none_or, Option.join_some]

theorem get?_custom (hname : name ∉ slots.map Prod.fst) :
    (Dict.ofList (filled slots ++ custom)).get? name = custom.get? name := by
  have hslot : Dict.get? slots name = none :=
    Dict.get?_eq_none fun slot hslot heq => hname (heq ▸ List.mem_map_of_mem (f := Prod.fst) hslot)
  rw [get?_written h.nodup h.ascending, hslot, Option.join_none, Option.or_none]

/-- Custom members that say the same under every name without a place of its own are the same. -/
theorem ext {other : Object} (hother : Apart slots other)
    (hsame : ∀ name ∉ slots.map Prod.fst, other.get? name = custom.get? name) : other = custom := by
  refine Dict.ext hother.ascending h.ascending fun name => ?_
  by_cases hname : name ∈ slots.map Prod.fst
  · rw [h.get?_custom_of_mem hname, hother.get?_custom_of_mem hname]
  · exact hsame name hname

end Apart

theorem optionalMember_eq_map {α : Type} (name : String) (encode : α → Value) (value : Option α) :
    optionalMember name encode value = optionalMember name (fun v => v) (value.map encode) := by
  cases value <;> rfl

/-! ### Members that are read back -/

section Reading

variable {σ ι : Type} {shape : Draft.Shape σ ι} {step : Nat → σ → String → Draft → Except Json.Error σ} {budget : Nat}
  {written : ι → Option Value} {said : (i : ι) → shape.Held i}

/-- What stands in the places of a record is read as what its fields say, and the custom members as they stand. -/
structure ReadsBack (shape : Draft.Shape σ ι) (budget : Nat) (slots : List (String × Option Value)) (custom : Object)
    (written : ι → Option Value) (said : (i : ι) → shape.Held i) : Prop where
  apart : Apart slots custom
  names : slots.map Prod.fst = shape.names
  place (i : ι) : Dict.get? slots (shape.name i) = some (written i)
  slot (i : ι) : ∀ v ∈ written i, shape.decode budget i v.draft = .ok (said i)
  custom : ∀ member ∈ custom, member.2.draft.value budget = .ok member.2

namespace ReadsBack

variable (h : ReadsBack shape budget slots custom written said) (hshape : shape.ReadBy step)

include h hshape

theorem readable : ∀ member ∈ filled slots ++ custom,
    Draft.Readable (step budget) shape.start member.1 member.2 := by
  rintro ⟨name, v⟩ hmember
  rcases List.mem_append.mp hmember with hfilled | hcustom
  · have hslot := mem_filled.mp hfilled
    obtain ⟨i, rfl⟩ : ∃ i, shape.name i = name := by
      rw [← hshape.mem_names, ← h.names]
      exact List.mem_map_of_mem (f := Prod.fst) hslot
    have hheld : written i = some v :=
      Option.some.inj ((h.place i).symm.trans ((Dict.mem_iff_get?_of_nodup h.apart.nodup).mp hslot))
    exact hshape.readable (h.slot i v hheld)
  · exact hshape.readable_rest (h.names ▸ h.apart.names _ hcustom) (h.custom _ hcustom)

/-- A reader ends with each slot full of what the field says, if anything is written for it, and with the custom
members. -/
theorem foldMembers_eq : ∃ final,
    Draft.foldMembers (step budget) (Json.draftMembers (Dict.ofList (filled slots ++ custom))) .closed shape.start =
      .ok final ∧
    (∀ i, shape.get i final = (written i).map fun _ => said i) ∧ shape.rest final = custom := by
  have hascending : Dict.Ascending (Dict.ofList (filled slots ++ custom)) := Dict.ascending_ofList _
  obtain ⟨final, hfold⟩ := Draft.exists_foldMembers hascending.nodup_names fun member hmember =>
    h.readable hshape member (Dict.mem_of_mem_ofList hmember)
  refine ⟨final, hfold, fun i => ?_, ?_⟩
  · have hread := (hshape.fills i).read hascending (hshape.get_start i) hfold
    rw [h.apart.get?_slot (h.place i)] at hread
    exact hread.eq (h.slot i)
  · obtain ⟨hrest, hnames⟩ := hshape.names_rest hfold
    rw [← h.names] at hnames
    refine h.apart.ext ⟨h.apart.nodup, hrest, hnames⟩ fun name hname => ?_
    have hstart : (shape.rest shape.start).get? name = none := by
      rw [hshape.rest_start]
      rfl
    have hread := (hshape.fills_rest (h.names ▸ hname)).read hascending hstart hfold
    rw [h.apart.get?_custom hname] at hread
    exact hread.eq_self fun v hv => h.custom _ (Dict.mem_of_get? hv)

end ReadsBack

variable (h : ∀ member ∈ filled slots ++ custom, member.2.Ordered ∧ member.2.depth ≤ budget)

include h

theorem forall_mem_slot {name : String} {held : Option Value} (hheld : Dict.get? slots name = some held) :
    ∀ v ∈ held, v.Ordered ∧ v.depth ≤ budget := by
  rintro v rfl
  exact h (name, v) (List.mem_append_left _ (mem_filled.mpr (Dict.mem_of_get? hheld)))

theorem value_custom : ∀ member ∈ custom, member.2.draft.value budget = .ok member.2 := by
  intro member hmember
  obtain ⟨hordered, hdepth⟩ := h member (List.mem_append_right _ hmember)
  rw [Draft.value_draft _ budget hordered, if_pos hdepth]

end Reading

/-! ### One or many values -/

namespace OneOrMany

variable {α : Type} {decode : Value → Option α} {encode : α → Value}

/-- What is written for one or many values, if anything is. -/
def written (encode : α → Value) (m : OneOrMany α) : Option Value :=
  if m.isEmpty then none else some (m.toJson encode)

theorem manyMember_eq_written (name : String) (encode : α → Value) (m : OneOrMany α) :
    manyMember name encode m = optionalMember name (fun v => v) (m.written encode) := by
  rw [manyMember, written]
  split <;> rfl

/-- One value is not an array, which would be read as many. -/
def Plain (m : OneOrMany Value) : Prop := ∀ items, m ≠ .one (.array items)

theorem ofJson?_one {v : Value} (h : ∀ items, v ≠ .array items) : ofJson? decode v = (decode v).map .one := by
  cases v with
  | array items => exact absurd rfl (h items)
  | _ => rfl

theorem mapM_encode (hdecode : ∀ x, decode (encode x) = some x) (values : List α) :
    (values.map encode).mapM decode = some values := by
  induction values with
  | nil => rfl
  | cons x values ih => simp [hdecode, ih]

/-- One or many values are read as they were written, unless the one value was written as an array. -/
theorem ofJson?_toJson (hdecode : ∀ x, decode (encode x) = some x) {m : OneOrMany α}
    (hone : ∀ x, m = .one x → ∀ items, encode x ≠ .array items) : ofJson? decode (m.toJson encode) = some m := by
  cases m with
  | many values => simp only [toJson, ofJson?, mapM_encode hdecode]
  | one x => rw [toJson, ofJson?_one (hone x rfl), hdecode, Option.map_some]

theorem ofDraft_written (hdecode : ∀ x, decode (encode x) = some x) {m : OneOrMany α}
    (hone : ∀ x, m = .one x → ∀ items, encode x ≠ .array items) {budget : Nat}
    (hm : ∀ v ∈ m.written encode, v.Ordered ∧ v.depth ≤ budget) :
    ∀ v ∈ m.written encode, ofDraft decode budget v.draft = .ok m := by
  intro v hv
  obtain ⟨hordered, hdepth⟩ := hm v hv
  rw [ofDraft, Draft.value_draft v budget hordered, if_pos hdepth, ok_bind]
  rw [written, Option.mem_def, Option.ite_none_left_eq_some] at hv
  obtain rfl := Option.some.inj hv.2
  simp only [ofJson?_toJson hdecode hone]
  rfl

theorem ofDraft_written_texts {m : OneOrMany String} {budget : Nat}
    (hm : ∀ v ∈ m.written Value.string, v.Ordered ∧ v.depth ≤ budget) :
    ∀ v ∈ m.written Value.string, ofDraft Value.string? budget v.draft = .ok m := by
  have hdecode (s : String) : Value.string? (.string s) = some s := rfl
  exact ofDraft_written hdecode nofun hm

theorem ofDraft_written_values {m : OneOrMany Value} (hplain : m.Plain) {budget : Nat}
    (hm : ∀ v ∈ m.written fun v => v, v.Ordered ∧ v.depth ≤ budget) :
    ∀ v ∈ m.written fun v => v, ofDraft some budget v.draft = .ok m := by
  have hdecode (v : Value) : some v = some v := rfl
  exact ofDraft_written hdecode (fun _ hone items heq => hplain items (heq ▸ hone)) hm

theorem plain_of_ofJson? {v : Value} {m : OneOrMany Value} (h : ofJson? some v = some m) : m.Plain := by
  rintro items rfl
  cases v with
  | array values =>
      have hvalues : (values.map fun v => v).mapM some = some values := mapM_encode (fun _ => rfl) values
      rw [List.map_id'] at hvalues
      simp only [ofJson?, hvalues] at h
      cases h
  | _ => cases h

theorem ordered_of_ofJson? {v : Value} (hv : v.Ordered) {m : OneOrMany Value} (h : ofJson? some v = some m) :
    m.Ordered := by
  obtain rfl : m.toJson (fun v => v) = v := (toJson_of_ofJson? (fun h => (Option.some.inj h).symm) h).1
  cases m with
  | many values =>
      rwa [toJson, List.map_id', Value.ordered_array] at hv
  | one v =>
      exact List.forall_mem_singleton.mpr hv

/-- What is read as one or many values is in order, and one value is not an array. -/
theorem plain_of_decoded {budget : Nat} {held : Option Value} (hheld : ∀ v ∈ held, v.Ordered)
    {slot : Option (OneOrMany Value)} (h : Draft.Decoded (ofDraft some budget) held slot) :
    (slot.getD .empty).Plain ∧ (slot.getD .empty).Ordered := by
  cases h with
  | absent => exact ⟨nofun, List.forall_mem_nil _⟩
  | present hread =>
      have hjson := ofJson?_of_ofDraft (hheld _ rfl) hread
      exact ⟨plain_of_ofJson? hjson, ordered_of_ofJson? (hheld _ rfl) hjson⟩

/-- Values that are not written are none. -/
theorem getD_written (m : OneOrMany α) : ((m.written encode).map fun _ => m).getD .empty = m := by
  rw [written]
  split
  · rename_i hempty
    cases m with
    | many values =>
        obtain rfl : values = [] := List.isEmpty_iff.mp hempty
        rfl
    | one x => cases hempty
  · rfl

end OneOrMany

/-! ### Optional values -/

theorem optionalText_written (x : Option String) :
    ∀ v ∈ x.map Value.string, v.draft.optional Draft.text = .ok x := by
  intro v hv
  obtain ⟨s, rfl, rfl⟩ := Option.map_eq_some_iff.mp hv
  rfl

/-- An optional time is read as it was written if its text can tell it. -/
theorem optionalTime_written {x : Option Timestamp} (hx : ∀ t ∈ x, t.FourDigitYear ∧ t.Regular) :
    ∀ v ∈ x.map timeJson, v.draft.optional Draft.time = .ok x := by
  intro v hv
  obtain ⟨t, rfl, rfl⟩ := Option.map_eq_some_iff.mp hv
  obtain ⟨hyear, hregular⟩ := hx t rfl
  show some <$> (Timestamp.parseLenient t.text).mapError _ = _
  rw [t.parseLenient_text, Timestamp.reread_eq_ok.mpr ⟨hyear, Timestamp.told_eq_self.mpr hregular⟩]
  rfl

/-- An optional value is read as it was written, unless it is a null. -/
theorem optionalValue_written {x : Option Value} (hx : x ≠ some .null) {budget : Nat}
    (hv : ∀ v ∈ x, v.Ordered ∧ v.depth ≤ budget) : ∀ v ∈ x, v.draft.optionalValue budget = .ok x := by
  rintro v rfl
  obtain ⟨hordered, hdepth⟩ := hv v rfl
  have hnull : v ≠ .null := fun h => hx (congrArg some h)
  exact (Draft.optionalValue_draft v budget hordered).mpr ⟨hdepth, (if_neg hnull).symm⟩

/-- What is read as an optional value is in order and not a null. -/
theorem optionalValue_of_decoded {budget : Nat} {held : Option Value} (hheld : ∀ v ∈ held, v.Ordered)
    {slot : Option (Option Value)} (h : Draft.Decoded (Draft.optionalValue budget) held slot) :
    slot.join ≠ some .null ∧ ∀ v ∈ slot.join, v.Ordered := by
  cases h with
  | absent => exact ⟨nofun, nofun⟩
  | @present v found hread =>
      have hv := hheld v rfl
      obtain ⟨-, rfl⟩ := (Draft.optionalValue_draft v budget hv).mp hread
      by_cases hnull : v = .null
      · rw [if_pos hnull]
        exact ⟨nofun, nofun⟩
      · rw [if_neg hnull]
        exact ⟨fun h => hnull (Option.some.inj h), fun w hw => Option.some.inj hw ▸ hv⟩

theorem join_map_const {α : Type} (x : Option α) : (x.map fun _ => x).join = x := by
  cases x <;> rfl

theorem join_map_map {α : Type} (x : Option α) (f : α → Value) : ((x.map f).map fun _ => x).join = x := by
  rw [Option.map_map]
  exact join_map_const x

end Attest
