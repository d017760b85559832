import Attest.Proofs.Json.RoundTrip
import Mathlib.Data.List.Forall2

/-!
How the readers of a draft compare. A reader that is allowed to go deeper reads the same, and what can be read
can be passed over. Of the places where an object has a member of one name the last counts.
-/

namespace Attest.Json

open Ascii (byte)

/-- Nothing is reported only where there is no fault. -/
theorem report_eq_ok {fault : Option Fault} {error : Fault → Error} {done : Unit} :
    report (fault.map error) = .ok done ↔ fault = none := by
  cases fault <;> simp [report]

namespace Draft

mutual

/-- A reader that may go deeper reads the same. -/
theorem value_of_le (d : Draft) {budget larger : Nat} (hle : budget ≤ larger) {v : Value}
    (h : d.value budget = .ok v) : d.value larger = .ok v := by
  match d, budget, larger with
  | .null, _, _ | .bool _, _, _ | .number _, _, _ | .string _, _, _ => exact h
  | .array _ _, 0, _ | .object _ _, 0, _ | .broken _, _, _ => cases h
  | .array items ending, budget + 1, larger + 1 =>
      rw [value] at h ⊢
      obtain ⟨values, hitems, h⟩ := bind_eq_ok.mp h
      rw [valueItems_of_le items (Nat.le_of_succ_le_succ hle) hitems]
      exact h
  | .object members ending, budget + 1, larger + 1 =>
      rw [value] at h ⊢
      obtain ⟨entries, hmembers, h⟩ := bind_eq_ok.mp h
      rw [valueMembers_of_le members (Nat.le_of_succ_le_succ hle) hmembers]
      exact h

theorem valueItems_of_le (items : List Draft) {budget larger : Nat} (hle : budget ≤ larger)
    {values : List Value} (h : valueItems items budget = .ok values) : valueItems items larger = .ok values := by
  match items with
  | [] => exact h
  | item :: items =>
      rw [valueItems] at h ⊢
      obtain ⟨first, hitem, h⟩ := bind_eq_ok.mp h
      obtain ⟨rest, hrest, h⟩ := bind_eq_ok.mp h
      rw [value_of_le item hle hitem, ok_bind, valueItems_of_le items hle hrest]
      exact h

theorem valueMembers_of_le (members : List (Except Error String × Draft)) {budget larger : Nat}
    (hle : budget ≤ larger) {entries : List (String × Value)} (h : valueMembers members budget = .ok entries) :
    valueMembers members larger = .ok entries := by
  match members with
  | [] => exact h
  | (name, d) :: members =>
      rw [valueMembers, valueMember] at h ⊢
      obtain ⟨first, hmember, h⟩ := bind_eq_ok.mp h
      obtain ⟨rest, hrest, h⟩ := bind_eq_ok.mp h
      obtain ⟨known, hname, hmember⟩ := bind_eq_ok.mp hmember
      obtain ⟨v, hv, hmember⟩ := bind_eq_ok.mp hmember
      rw [hname, ok_bind, value_of_le d hle hv, valueMembers_of_le members hle hrest, ok_bind, hmember]
      exact h

end

mutual

/-- What can be read can be passed over. -/
theorem skip_of_value (d : Draft) {budget : Nat} {v : Value} (h : d.value budget = .ok v) : d.skip = .ok () := by
  match d, budget with
  | .null, _ | .bool _, _ | .number _, _ | .string _, _ => rfl
  | .array _ _, 0 | .object _ _, 0 | .broken _, _ => cases h
  | .array items ending, budget + 1 =>
      rw [value] at h
      obtain ⟨values, hitems, h⟩ := bind_eq_ok.mp h
      obtain ⟨_, hend, -⟩ := bind_eq_ok.mp h
      rw [skip, skipItems_of_valueItems items hitems, ok_bind, report_eq_ok]
      exact report_eq_ok.mp hend
  | .object members ending, budget + 1 =>
      rw [value] at h
      obtain ⟨entries, hmembers, h⟩ := bind_eq_ok.mp h
      obtain ⟨_, hend, -⟩ := bind_eq_ok.mp h
      rw [skip, skipMembers_of_valueMembers members hmembers, ok_bind, report_eq_ok]
      exact report_eq_ok.mp hend

theorem skipItems_of_valueItems (items : List Draft) {budget : Nat} {values : List Value}
    (h : valueItems items budget = .ok values) : skipItems items = .ok () := by
  match items with
  | [] => rfl
  | item :: items =>
      rw [valueItems] at h
      obtain ⟨first, hitem, h⟩ := bind_eq_ok.mp h
      obtain ⟨rest, hrest, -⟩ := bind_eq_ok.mp h
      rw [skipItems, skip_of_value item hitem, ok_bind]
      exact skipItems_of_valueItems items hrest

theorem skipMembers_of_valueMembers (members : List (Except Error String × Draft)) {budget : Nat}
    {entries : List (String × Value)} (h : valueMembers members budget = .ok entries) :
    skipMembers members = .ok () := by
  match members with
  | [] => rfl
  | (name, d) :: members =>
      rw [valueMembers, valueMember] at h
      obtain ⟨first, hmember, h⟩ := bind_eq_ok.mp h
      obtain ⟨rest, hrest, -⟩ := bind_eq_ok.mp h
      obtain ⟨_, -, hmember⟩ := bind_eq_ok.mp hmember
      obtain ⟨v, hv, -⟩ := bind_eq_ok.mp hmember
      rw [skipMembers, skipMember, skip_of_value d hv, ok_bind]
      exact skipMembers_of_valueMembers members hrest

end

/-- A null is read from nothing else. -/
theorem eq_null_of_value {d : Draft} {budget : Nat} (h : d.value budget = .ok .null) : d = .null := by
  match d, budget with
  | .null, _ => rfl
  | .number (.ok _), _ | .number (.error _), _ | .string (.ok _), _ | .string (.error _), _ => cases h
  | .bool _, _ | .array _ _, 0 | .object _ _, 0 | .broken _, _ => cases h
  | .array _ _, budget + 1 | .object _ _, budget + 1 =>
      obtain ⟨_, -, h⟩ := bind_eq_ok.mp h
      obtain ⟨_, -, h⟩ := bind_eq_ok.mp h
      cases h

/-- What is read as a value is read as an optional one, a null as none. -/
theorem optionalValue_of_value {d : Draft} {budget : Nat} {v : Value} (h : d.value budget = .ok v) :
    d.optionalValue budget = .ok (if v = .null then none else some v) := by
  by_cases hnull : v = .null
  · subst hnull
    rw [eq_null_of_value h, if_pos rfl]
    rfl
  · rw [if_neg hnull]
    have hvalue : d.optionalValue budget = some <$> d.value budget := by
      cases d with
      | null => exact absurd (Except.ok.inj h).symm hnull
      | _ => rfl
    rw [hvalue, h]
    rfl

theorem skip_of_optionalValue {d : Draft} {budget : Nat} {found : Option Value}
    (h : d.optionalValue budget = .ok found) : d.skip = .ok () := by
  cases d with
  | null => rfl
  | _ =>
      obtain ⟨v, hv, -⟩ := map_eq_ok.mp h
      exact skip_of_value _ hv

theorem unwanted_ne_ok {α : Type} (d : Draft) (wanted : String) (a : α) : d.unwanted wanted ≠ .ok a := by
  intro h
  obtain ⟨_, -, h⟩ := bind_eq_ok.mp h
  cases h

/-! ### Members -/

theorem valueMembers_eq_ok {members : List (Except Error String × Draft)} {budget : Nat}
    {entries : List (String × Value)} :
    valueMembers members budget = .ok entries ↔
      List.Forall₂ (fun member entry => member.1 = .ok entry.1 ∧ member.2.value budget = .ok entry.2)
        members entries := by
  induction members generalizing entries with
  | nil =>
      rw [valueMembers, Except.ok.injEq, List.forall₂_nil_left_iff, eq_comm]
  | cons member members ih =>
      obtain ⟨name, d⟩ := member
      rw [valueMembers, valueMember, List.forall₂_cons_left_iff]
      simp only [bind_eq_ok, pure_eq_ok, ih]
      constructor
      · rintro ⟨_, ⟨known, hname, v, hv, rfl⟩, rest, hrest, rfl⟩
        exact ⟨(known, v), rest, ⟨hname, hv⟩, hrest, rfl⟩
      · rintro ⟨entry, rest, ⟨hname, hv⟩, hrest, rfl⟩
        exact ⟨entry, ⟨entry.1, hname, entry.2, hv, rfl⟩, rest, hrest, rfl⟩

theorem read_of_mem {members : List (Except Error String × Draft)} {budget : Nat} {entries : List (String × Value)}
    (h : valueMembers members budget = .ok entries) {member : Except Error String × Draft}
    (hmember : member ∈ members) : ∃ name v, member.1 = .ok name ∧ member.2.value budget = .ok v := by
  rw [valueMembers_eq_ok] at h
  induction h with
  | nil => cases hmember
  | cons hhead _ ih =>
      rcases List.mem_cons.mp hmember with rfl | hmember
      · exact ⟨_, _, hhead⟩
      · exact ih hmember

theorem skipMembers_eq_ok {members : List (Except Error String × Draft)} :
    skipMembers members = .ok () ↔ ∀ member ∈ members, member.2.skip = .ok () := by
  induction members with
  | nil => exact iff_of_true rfl (List.forall_mem_nil _)
  | cons member members ih =>
      obtain ⟨name, d⟩ := member
      rw [skipMembers, skipMember, List.forall_mem_cons, ← ih, bind_eq_ok]
      exact ⟨fun ⟨_, hd, hrest⟩ => ⟨hd, hrest⟩, fun ⟨hd, hrest⟩ => ⟨(), hd, hrest⟩⟩

/-- The places of the members with a name, in the order of the text. -/
def places (name : String) (members : List (Except Error String × Draft)) : List Draft :=
  members.filterMap fun member => if member.1 = .ok name then some member.2 else none

theorem places_cons_self (name : String) (d : Draft) (members : List (Except Error String × Draft)) :
    places name ((.ok name, d) :: members) = d :: places name members :=
  List.filterMap_cons_some (if_pos rfl)

theorem places_cons_of_ne {name : String} {member : Except Error String × Draft} (h : member.1 ≠ .ok name)
    (members : List (Except Error String × Draft)) :
    places name (member :: members) = places name members :=
  List.filterMap_cons_none (if_neg h)

/-- What stands under a name is the value at the last of its places. -/
theorem get?_ofList_of_values {drafts : List (Except Error String × Draft)} {budget : Nat}
    {entries : List (String × Value)} (h : valueMembers drafts budget = .ok entries) (name : String) :
    Option.Rel (fun d v => d.value budget = .ok v) (places name drafts).getLast?
      ((Dict.ofList entries).get? name) := by
  have hhead {drafts : List (Except Error String × Draft)} {entries : List (String × Value)}
      (h : List.Forall₂ (fun member entry => member.1 = .ok entry.1 ∧ member.2.value budget = .ok entry.2)
        drafts entries) :
      Option.Rel (fun d v => d.value budget = .ok v) (places name drafts).head?
        (Dict.get? entries name) := by
    induction h with
    | nil => exact .none
    | @cons member entry _ _ hmember _ ih =>
        obtain ⟨known, d⟩ := member
        obtain ⟨key, v⟩ := entry
        obtain ⟨rfl, hv⟩ := hmember
        rw [Dict.get?_cons]
        split
        · rename_i hkey
          subst hkey
          rw [places_cons_self]
          exact .some hv
        · rename_i hkey
          rwa [places_cons_of_ne fun h => hkey (Except.ok.inj h)]
  rw [Dict.get?_ofList, ← List.head?_reverse, places, ← List.filterMap_reverse]
  exact hhead (List.rel_reverse (valueMembers_eq_ok.mp h))

end Draft

/-! ### Texts -/

/-- How often the object of a text names a member. -/
def timesNamed (name : String) (text : Bytes) : Nat :=
  match (scan text).1 with
  | .object members _ => (Draft.places name members).length
  | _ => 0

theorem scanLiteral_fst (meaning : Draft) (letters : List Char) (text : Bytes) :
    (scanLiteral meaning letters text).1 = meaning ∨
      ∃ fault, (scanLiteral meaning letters text).1 = .broken fault := by
  rw [scanLiteral]
  cases skipLetters letters text with
  | ok after => exact .inl rfl
  | error e => exact .inr ⟨_, rfl⟩

theorem scanNumber_fst (text : Bytes) :
    (∃ n, (scanNumber text).1 = .number n) ∨ ∃ fault, (scanNumber text).1 = .broken fault := by
  rw [scanNumber]
  split
  · exact .inr ⟨_, rfl⟩
  · exact .inl ⟨_, rfl⟩

/-- A text that does not start with the bracket of an array holds none. -/
theorem scan_ne_array {text : Bytes} (h : (skipBlank text).head? ≠ some (byte '[')) (items : List Draft)
    (ending : Ending) : (scan text).1 ≠ .array items ending := by
  have hfst : (scan text).1 = (scanValue (3 * text.length + 3) text).1 := by
    rw [scan]
    split <;> simp_all
  have hliteral {meaning : Draft} (hmeaning : meaning ≠ .array items ending) (letters : List Char)
      (rest : Bytes) : (scanLiteral meaning letters rest).1 ≠ .array items ending := by
    rcases scanLiteral_fst meaning letters rest with hfst | ⟨fault, hfst⟩ <;> rw [hfst]
    · exact hmeaning
    · simp
  rw [hfst, scanValue]
  cases hblank : skipBlank text with
  | nil => simp
  | cons b rest =>
      have hb : (b == byte '[') = false := by simpa [hblank] using h
      simp only [hb, Bool.false_eq_true, if_false]
      split
      · split <;> simp
      split
      · simp
      split
      · exact hliteral (by simp) _ _
      split
      · exact hliteral (by simp) _ _
      split
      · exact hliteral (by simp) _ _
      split
      · rcases scanNumber_fst (b :: rest) with ⟨n, hfst⟩ | ⟨fault, hfst⟩ <;> rw [hfst] <;> simp
      · simp

theorem scan_of_parse {text : Bytes} {members : Object} (h : parse text = .ok (.object members)) :
    ∃ drafts ending entries, scan text = (.object drafts ending, false) ∧ ending.objectFault? = none ∧
      Draft.valueMembers drafts (nestingLimit - 1) = .ok entries ∧ members = Dict.ofList entries := by
  obtain ⟨hvalue, hsurplus⟩ := decodeText_eq_ok.mp h
  generalize scan text = scanned at hvalue hsurplus
  obtain ⟨d, surplus⟩ := scanned
  cases hsurplus
  cases d with
  | object drafts ending =>
      obtain ⟨entries, hentries, hvalue⟩ := bind_eq_ok.mp hvalue
      obtain ⟨_, hend, hvalue⟩ := bind_eq_ok.mp hvalue
      cases hvalue
      exact ⟨drafts, ending, entries, rfl, report_eq_ok.mp hend, hentries, rfl⟩
  | array items ending =>
      obtain ⟨_, -, hvalue⟩ := bind_eq_ok.mp hvalue
      obtain ⟨_, -, hvalue⟩ := bind_eq_ok.mp hvalue
      cases hvalue
  | number n => cases n <;> cases hvalue
  | string s => cases s <;> cases hvalue
  | _ => cases hvalue

end Attest.Json
