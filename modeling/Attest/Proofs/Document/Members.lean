import Attest.Document.Presentation
import Attest.Proofs.Json.Records

/-!
Members that are left out when they say nothing. An optional member is left out if its value is null, and a member
of one or many values if it is an empty array; any other value that is read is written as it was.
-/

namespace Attest

open Json (Draft Object Value)

theorem get?_optionalMember {α : Type} (name : String) (encode : α → Value) (value : Option α) (other : String) :
    Dict.get? (optionalMember name encode value) other = if name = other then value.map encode else none := by
  cases value with
  | none => simp [optionalMember, Dict.get?]
  | some x => rfl

theorem reverse_optionalMember {α : Type} (name : String) (encode : α → Value) (value : Option α) :
    (optionalMember name encode value).reverse = optionalMember name encode value := by
  cases value <;> rfl

/-- The member of an object with the given name, unless it has the value with which it is left out. -/
def keptMember (members : Object) (name : String) (blank : Value) : List (String × Value) :=
  optionalMember name (fun v => v) ((members.get? name).filter fun v => v ≠ blank)

/-- The members with the names of the blank ones, but without the blank ones themselves. -/
def keptMembers (members : Object) (blanks : List (String × Value)) : List (String × Value) :=
  blanks.flatMap fun blank => keptMember members blank.1 blank.2

theorem get?_keptMember (members : Object) (name : String) (blank : Value) (other : String) :
    Dict.get? (keptMember members name blank) other =
      if name = other then (members.get? name).filter fun v => v ≠ blank else none := by
  rw [keptMember, get?_optionalMember, Option.map_id']

theorem mem_of_mem_keptMembers {members : Object} {blanks : List (String × Value)} {member : String × Value}
    (h : member ∈ keptMembers members blanks) : member ∈ members := by
  obtain ⟨blank, -, hkept⟩ := List.mem_flatMap.mp h
  obtain ⟨v, hv, rfl⟩ := List.mem_map.mp hkept
  exact Dict.mem_of_get? (Option.mem_filter_iff.mp (Option.mem_toList.mp hv)).1

/-- What a reader finds of members that were left out if they were blank. -/
theorem get?_reverse_keptMembers (members : Object) {blanks : List (String × Value)}
    (hblanks : (blanks.map Prod.fst).Nodup) (name : String) :
    Dict.get? (keptMembers members blanks).reverse name =
      if name ∈ blanks.map Prod.fst then (members.get? name).filter fun v => (name, v) ∉ blanks else none := by
  induction blanks with
  | nil => rfl
  | cons blank blanks ih =>
      obtain ⟨key, value⟩ := blank
      rw [List.map_cons, List.nodup_cons] at hblanks
      have hreverse : (keptMember members key value).reverse = keptMember members key value :=
        reverse_optionalMember _ _ _
      rw [keptMembers, List.flatMap_cons, List.reverse_append, hreverse, Dict.get?_append, get?_keptMember]
      rw [keptMembers] at ih
      rw [ih hblanks.2]
      -- The names differ, so at most one of the two lists has an entry of the name.
      by_cases hname : key = name
      · subst hname
        have hother (v : Value) : (key, v) ∉ blanks := fun h => hblanks.1 (List.mem_map.mpr ⟨_, h, rfl⟩)
        rw [if_neg hblanks.1, Option.none_or, if_pos rfl, if_pos (List.mem_map_of_mem List.mem_cons_self)]
        simp [hother]
      · have hmem : name ∈ ((key, value) :: blanks).map Prod.fst ↔ name ∈ blanks.map Prod.fst := by
          simp [Ne.symm hname]
        rw [if_neg hname, Option.or_none]
        by_cases hnames : name ∈ blanks.map Prod.fst
        · rw [if_pos hnames, if_pos (hmem.mpr hnames)]
          simp [Ne.symm hname]
        · rw [if_neg hnames, if_neg (fun h => hnames (hmem.mp h))]

/-! ### One or many values -/

namespace OneOrMany

variable {α : Type} {decode : Value → Option α} {encode : α → Value}

theorem map_encode_of_mapM (h : ∀ {v x}, decode v = some x → encode x = v) {items : List Value} {values : List α}
    (hvalues : items.mapM decode = some values) : values.map encode = items := by
  induction items generalizing values with
  | nil =>
      cases hvalues
      rfl
  | cons item items ih =>
      rw [List.mapM_cons] at hvalues
      obtain ⟨x, hx, hvalues⟩ := Option.bind_eq_some_iff.mp hvalues
      obtain ⟨rest, hrest, hvalues⟩ := Option.bind_eq_some_iff.mp hvalues
      cases hvalues
      rw [List.map_cons, h hx, ih hrest]

/-- What is read as one or many values is written as it was, and is empty only if it was an empty array. -/
theorem toJson_of_ofJson? (h : ∀ {v x}, decode v = some x → encode x = v) {v : Value} {m : OneOrMany α}
    (hm : ofJson? decode v = some m) : m.toJson encode = v ∧ (m.isEmpty = true ↔ v = .array []) := by
  have hone {v : Value} (hm : (decode v).map OneOrMany.one = some m) : m.toJson encode = v ∧ m.isEmpty = false := by
    obtain ⟨x, hx, rfl⟩ := Option.map_eq_some_iff.mp hm
    exact ⟨h hx, rfl⟩
  cases v with
  | array items =>
      simp only [ofJson?] at hm
      cases hvalues : items.mapM decode with
      | some values =>
          rw [hvalues] at hm
          cases hm
          have hitems := map_encode_of_mapM h hvalues
          refine ⟨congrArg Value.array hitems, ?_⟩
          rw [← hitems]
          simp [isEmpty, toList]
      | none =>
          rw [hvalues] at hm
          obtain ⟨hjson, hempty⟩ := hone hm
          refine ⟨hjson, fun htrue => ?_, fun hitems => ?_⟩
          · rw [hempty] at htrue
            cases htrue
          · cases hitems
            cases hvalues
  | _ =>
      obtain ⟨hjson, hempty⟩ := hone hm
      exact ⟨hjson, by simp [hempty]⟩

theorem ofJson?_of_ofDraft {v : Value} (hv : v.Ordered) {budget : Nat} {m : OneOrMany α}
    (h : ofDraft decode budget v.draft = .ok m) : ofJson? decode v = some m := by
  obtain ⟨w, hw, h⟩ := bind_eq_ok.mp h
  rw [Draft.value_draft v budget hv] at hw
  split at hw
  · cases hw
    cases hm : ofJson? decode v with
    | none =>
        simp only [hm] at h
        cases h
    | some found =>
        simp only [hm] at h
        cases h
        rfl
  · cases hw

end OneOrMany

theorem string_of_string? {v : Value} {s : String} (h : v.string? = some s) : Value.string s = v := by
  cases v with
  | string t =>
      cases h
      rfl
  | _ => cases h

/-- A member of one or many values is written as it was read, unless it was an empty array. -/
theorem manyMember_of_decoded {α : Type} {decode : Value → Option α} (encode : α → Value)
    (hdecode : ∀ {v x}, decode v = some x → encode x = v) {members : Object}
    (hordered : (Value.object members).Ordered) {name : String} {budget : Nat} {slot : Option (OneOrMany α)}
    (h : Draft.Decoded (OneOrMany.ofDraft decode budget) (members.get? name) slot) :
    manyMember name encode (slot.getD .empty) = keptMember members name (.array []) := by
  rw [keptMember]
  generalize hheld : members.get? name = held at h
  cases h with
  | absent => rfl
  | present h =>
      rename_i v m
      have hv := (Value.ordered_object.mp hordered).2 _ (Dict.mem_of_get? hheld)
      obtain ⟨hjson, hempty⟩ := OneOrMany.toJson_of_ofJson? hdecode (OneOrMany.ofJson?_of_ofDraft hv h)
      rw [manyMember, Option.getD_some, hjson, Option.filter_some]
      by_cases hblank : v = .array []
      · rw [if_pos (hempty.mpr hblank)]
        simp [hblank, optionalMember]
      · rw [if_neg (fun htrue => hblank (hempty.mp htrue))]
        simp [hblank, optionalMember]

/-! ### Optional values -/

/-- An optional member is written as it was read, unless it was null. -/
theorem optionalMember_of_decoded {α : Type} {decode : Draft → Except Json.Error (Option α)} (encode : α → Value)
    {members : Object} {name : String}
    (hdecode : ∀ {v x}, (name, v) ∈ members → decode v.draft = .ok x →
      x.map encode = if v = .null then none else some v)
    {slot : Option (Option α)} (h : Draft.Decoded decode (members.get? name) slot) :
    optionalMember name encode slot.join = keptMember members name .null := by
  rw [keptMember]
  generalize hheld : members.get? name = held at h
  cases h with
  | absent => rfl
  | present h =>
      rename_i v x
      have hx := hdecode (Dict.mem_of_get? hheld) h
      rw [Option.filter_some]
      by_cases hblank : v = .null
      · rw [if_pos hblank] at hx
        rw [Option.map_eq_none_iff.mp hx]
        simp [hblank, optionalMember]
      · rw [if_neg hblank] at hx
        obtain ⟨a, ha, hencode⟩ := Option.map_eq_some_iff.mp hx
        rw [ha]
        simp [hblank, optionalMember, hencode]

theorem map_string_of_optional {v : Value} {x : Option String} (h : v.draft.optional Draft.text = .ok x) :
    x.map Value.string = if v = .null then none else some v := by
  cases v with
  | null =>
      cases h
      rw [if_pos rfl, Option.map_none]
  | string s =>
      obtain ⟨_, hs, rfl⟩ := map_eq_ok.mp h
      cases hs
      rw [if_neg (fun hnull => by cases hnull), Option.map_some]
  | _ =>
      obtain ⟨_, hs, -⟩ := map_eq_ok.mp h
      obtain ⟨_, -, hs⟩ := bind_eq_ok.mp hs
      cases hs

theorem map_id_of_optionalValue {v : Value} (hv : v.Ordered) {budget : Nat} {x : Option Value}
    (h : v.draft.optionalValue budget = .ok x) : x.map (fun v => v) = if v = .null then none else some v := by
  rw [Option.map_id', ((Draft.optionalValue_draft v budget hv).mp h).2]

end Attest
