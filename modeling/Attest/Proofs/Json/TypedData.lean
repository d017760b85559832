import Attest.Json.Datum
import Attest.Proofs.Json.MemberOrder
import Attest.Proofs.Outcome

/-!
The two ways of data into canonical text. Data without floating-point numbers has the same canonical text whether it is
written directly or by way of the value that it stands for, and it is refused on both ways or on neither, for the same
reason. Of the entries of a map whose keys become one name the last one counts on both. Floating-point numbers are
another matter: as names the two ways spell them differently.
-/

namespace Attest.Json

/-- An object has the canonical text of the map of its members. -/
theorem canonicalChars_ofList (members : List (String × Value)) :
    (Value.object (Dict.ofList members)).canonicalChars = (Value.object members).canonicalChars := by
  obtain ⟨listed, htext, hsorted, hperm⟩ := exists_listing members
  obtain ⟨listed', htext', hsorted', hperm'⟩ := exists_listing (Dict.ofList members)
  rw [Dict.ofList_of_ascending (Dict.ascending_ofList members)] at hperm'
  have hlisted : listed' = listed := (hperm'.trans hperm.symm).eq_of_pairwise
    (fun _ _ _ _ hlt hgt => absurd hgt (String.lt_asymm hlt)) hsorted' hsorted
  rw [htext, htext', hlisted]

namespace Datum

/-- Data in which no floating-point number stands, at any depth. -/
inductive FloatFree : Datum → Prop
  | unit : FloatFree .unit
  | none : FloatFree .none
  | some {d : Datum} (hd : FloatFree d) : FloatFree (.some d)
  | bool (b : Bool) : FloatFree (.bool b)
  | integer (i : Int) (fits : leastInteger ≤ i ∧ i ≤ greatestInteger) : FloatFree (.integer i fits)
  | string (s : String) : FloatFree (.string s)
  | char (c : Char) : FloatFree (.char c)
  | bytes (b : Bytes) : FloatFree (.bytes b)
  | refusal (reason : String) : FloatFree (.refusal reason)
  | sequence {items : List Datum} (hitems : ∀ item ∈ items, FloatFree item) : FloatFree (.sequence items)
  | map {entries : List (Datum × Datum)} (hkeys : ∀ entry ∈ entries, FloatFree entry.1)
      (hvalues : ∀ entry ∈ entries, FloatFree entry.2) : FloatFree (.map entries)
  | unitVariant (name : String) : FloatFree (.unitVariant name)
  | newtypeVariant (name : String) {d : Datum} (hd : FloatFree d) : FloatFree (.newtypeVariant name d)
  | structVariant (name : String) {fields : List (String × Datum)} (hfields : ∀ field ∈ fields, FloatFree field.2) :
      FloatFree (.structVariant name fields)

/-- The name that data gives to a member of a value. -/
def memberName (key : Datum) : Except Unrepresentable String := key.name Binary.documentText Binary.documentText

/-- The last of the entries of a map whose keys become a name. -/
inductive LastEntry (name : String) : List (Datum × Datum) → Datum → Prop
  | here {key value : Datum} {entries : List (Datum × Datum)} (hkey : key.memberName = .ok name)
      (hentries : ∀ entry ∈ entries, entry.1.memberName ≠ .ok name) : LastEntry name ((key, value) :: entries) value
  | there {value : Datum} {entry : Datum × Datum} {entries : List (Datum × Datum)} (h : LastEntry name entries value) :
      LastEntry name (entry :: entries) value

/-! ### The same text on both ways -/

/-- How floating-point numbers are spelled does not matter for a name without any. -/
theorem FloatFree.name_eq {key : Datum} (h : FloatFree key) (single single' : Single → List Char)
    (double double' : Double → List Char) : key.name single double = key.name single' double' := by
  induction h with
  | some _ ih => exact ih
  | _ => rfl

/-- Data whose canonical text is that of its value. -/
def Agrees (d : Datum) : Prop := d.canonicalChars = Value.canonicalChars <$> d.toValue

theorem canonicalItems_eq {items : List Datum} (h : ∀ item ∈ items, Agrees item) :
    canonicalItems items = Value.canonicalItems <$> valueItems items := by
  induction items with
  | nil => rfl
  | cons item items ih =>
      rw [List.forall_mem_cons] at h
      rw [canonicalItems, valueItems, h.1, ih h.2]
      cases item.toValue with
      | error e => rfl
      | ok v => cases valueItems items <;> rfl

theorem canonicalFields_eq {fields : List (String × Datum)} (h : ∀ field ∈ fields, Agrees field.2) :
    canonicalFields fields = Value.canonicalMembers <$> valueFields fields := by
  induction fields with
  | nil => rfl
  | cons field fields ih =>
      obtain ⟨name, d⟩ := field
      rw [List.forall_mem_cons] at h
      have hfield : d.canonicalChars = Value.canonicalChars <$> d.toValue := h.1
      rw [canonicalFields, valueFields, canonicalField, valueField, hfield, ih h.2]
      cases d.toValue with
      | error e => rfl
      | ok v => cases valueFields fields <;> rfl

theorem canonicalEntries_eq {entries : List (Datum × Datum)} (hkeys : ∀ entry ∈ entries, FloatFree entry.1)
    (h : ∀ entry ∈ entries, Agrees entry.2) :
    canonicalEntries entries = Value.canonicalMembers <$> valueEntries entries := by
  induction entries with
  | nil => rfl
  | cons entry entries ih =>
      obtain ⟨key, d⟩ := entry
      rw [List.forall_mem_cons] at hkeys h
      have hentry : d.canonicalChars = Value.canonicalChars <$> d.toValue := h.1
      have hname : key.name Binary.canonicalText Binary.canonicalText =
          key.name Binary.documentText Binary.documentText := hkeys.1.name_eq _ _ _ _
      rw [canonicalEntries, valueEntries, canonicalEntry, valueEntry, hname, hentry, ih hkeys.2 h.2]
      cases key.name Binary.documentText Binary.documentText with
      | error e => rfl
      | ok name =>
          cases d.toValue with
          | error e => rfl
          | ok v => cases valueEntries entries <;> rfl

theorem canonicalItems_bytes (b : Bytes) :
    Value.canonicalItems (b.map fun b => .number (byteNumber b)) = b.map fun b => (byteNumber b).canonicalText := by
  rw [canonicalItems_eq_map, List.map_map]
  exact List.map_congr_left fun _ _ => rfl

theorem FloatFree.agrees {d : Datum} (h : FloatFree d) : Agrees d := by
  induction h with
  | some _ ih => exact ih
  | bytes b =>
      show Except.ok (arrayText _) = Except.ok (arrayText _)
      rw [canonicalItems_bytes]
  | @sequence items _ ih =>
      rw [Agrees, canonicalChars, toValue, canonicalItems_eq ih]
      cases valueItems items <;> rfl
  | @map entries hkeys _ _ ih =>
      rw [Agrees, canonicalChars, toValue, canonicalEntries_eq hkeys ih]
      cases valueEntries entries with
      | error e => rfl
      | ok members => exact congrArg Except.ok (canonicalChars_ofList members).symm
  | @newtypeVariant name d _ ih =>
      rw [Agrees] at ih
      rw [Agrees, canonicalChars, toValue, ih]
      cases d.toValue <;> rfl
  | @structVariant name fields _ ih =>
      rw [Agrees, canonicalChars, toValue, canonicalFields_eq ih]
      cases valueFields fields with
      | error e => rfl
      | ok members =>
          show Except.ok (canonicalObject [(nameText name, (Value.object members).canonicalChars)]) = _
          rw [← canonicalChars_ofList]
          rfl
  | _ => rfl

/-! ### Keys that become one name -/

theorem valueEntries_cons_eq_ok {key value : Datum} {entries : List (Datum × Datum)} {members : List (String × Value)} :
    valueEntries ((key, value) :: entries) = .ok members ↔
      ∃ name v others, key.memberName = .ok name ∧ value.toValue = .ok v ∧ valueEntries entries = .ok others ∧
        members = (name, v) :: others := by
  rw [valueEntries, valueEntry]
  simp only [bind_eq_ok, pure_eq_ok, memberName]
  constructor
  · rintro ⟨member, ⟨name, hname, v, hv, rfl⟩, others, hothers, rfl⟩
    exact ⟨name, v, others, hname, hv, hothers, rfl⟩
  · rintro ⟨name, v, others, hname, hv, hothers, rfl⟩
    exact ⟨(name, v), ⟨name, hname, v, hv, rfl⟩, others, hothers, rfl⟩

theorem get?_valueEntries_eq_none {entries : List (Datum × Datum)} {members : List (String × Value)}
    (h : valueEntries entries = .ok members) (name : String) :
    Dict.get? members.reverse name = .none ↔ ∀ entry ∈ entries, entry.1.memberName ≠ .ok name := by
  induction entries generalizing members with
  | nil =>
      cases h
      exact ⟨fun _ => List.forall_mem_nil _, fun _ => rfl⟩
  | cons entry entries ih =>
      obtain ⟨key, value⟩ := entry
      obtain ⟨found, v, others, hkey, -, hothers, rfl⟩ := valueEntries_cons_eq_ok.mp h
      rw [Dict.get?_reverse_cons, Option.or_eq_none_iff, ih hothers, List.forall_mem_cons, and_comm, hkey]
      simp

/-- The value of a map says under each name what the last entry of that name says. -/
theorem get?_valueEntries_eq_some {entries : List (Datum × Datum)} {members : List (String × Value)}
    (h : valueEntries entries = .ok members) (name : String) (w : Value) :
    Dict.get? members.reverse name = .some w ↔ ∃ value, LastEntry name entries value ∧ value.toValue = .ok w := by
  induction entries generalizing members with
  | nil =>
      cases h
      constructor
      · intro hget
        cases hget
      · rintro ⟨value, hlast, -⟩
        cases hlast
  | cons entry entries ih =>
      obtain ⟨key, value⟩ := entry
      obtain ⟨found, v, others, hkey, hv, hothers, rfl⟩ := valueEntries_cons_eq_ok.mp h
      rw [Dict.get?_reverse_cons, Option.or_eq_some_iff, ih hothers, get?_valueEntries_eq_none hothers]
      constructor
      · rintro (⟨last, hlast, hw⟩ | ⟨hentries, hhere⟩)
        · exact ⟨last, .there hlast, hw⟩
        · obtain ⟨hname, hvalue⟩ := Option.ite_none_right_eq_some.mp hhere
          cases hvalue
          exact ⟨value, .here (hname ▸ hkey) hentries, hv⟩
      · rintro ⟨last, ⟨hname, hentries⟩ | ⟨hrest⟩, hw⟩
        · rw [hkey] at hname
          rw [hv] at hw
          cases hname
          cases hw
          exact .inr ⟨hentries, if_pos rfl⟩
        · exact .inl ⟨last, hrest, hw⟩

theorem exists_object_of_map {entries : List (Datum × Datum)} {v : Value} (h : (map entries).toValue = .ok v) :
    ∃ members : Object, v = .object members ∧
      ∀ name w, members.get? name = .some w ↔ ∃ value, LastEntry name entries value ∧ value.toValue = .ok w := by
  rw [toValue] at h
  obtain ⟨members, hmembers, rfl⟩ := map_eq_ok.mp h
  refine ⟨Dict.ofList members, rfl, fun name w => ?_⟩
  rw [Dict.get?_ofList]
  exact get?_valueEntries_eq_some hmembers name w

/-- Data without floating-point numbers has the canonical text of its value, or is refused on both ways for one reason.
The value of a map has under each name what the last entry stands for whose key becomes that name. -/
theorem canonicalBytes_eq_toValue {d : Datum} (h : FloatFree d) :
    d.canonicalBytes = d.toValue.map Value.canonicalBytes ∧
      ∀ entries, d = .map entries → ∀ v, d.toValue = .ok v →
        ∃ members : Object, v = .object members ∧ d.canonicalBytes = .ok (Value.object members).canonicalBytes ∧
          ∀ name w, members.get? name = .some w ↔ ∃ value, LastEntry name entries value ∧ value.toValue = .ok w := by
  have hbytes : d.canonicalBytes = d.toValue.map Value.canonicalBytes := by
    have hchars : d.canonicalChars = Value.canonicalChars <$> d.toValue := h.agrees
    rw [canonicalBytes, hchars]
    cases d.toValue <;> rfl
  refine ⟨hbytes, ?_⟩
  rintro entries rfl v hv
  obtain ⟨members, rfl, hmembers⟩ := exists_object_of_map hv
  refine ⟨members, rfl, ?_, hmembers⟩
  rw [hbytes, hv]
  rfl

end Datum

namespace Sample

/-- A map in which an integer and a text become one name, with variants and bytes among its values. -/
def coinciding : Datum :=
  .map [(.integer 5 (by decide), .bool true), (.unitVariant "b", .newtypeVariant "c" (.bytes [0])),
    (.some (.string "5"), .sequence [.char 'x', .none])]

/-- Data whose map has a name that is no text, before another one that is refused. -/
def unnamed : Datum := .sequence [.unit, .map [(.unit, .refusal "a")], .refusal "b"]

end Sample

open Datum Json.Sample in
/-- The later of two entries with one name is written, and data with a name that is no text is refused for that. -/
theorem Datum.canonicalBytes_eq_toValue_coinciding :
    FloatFree coinciding ∧ FloatFree unnamed ∧
      coinciding.toValue.map Value.canonicalBytes =
        .ok (Bytes.ofString "\x7b\"5\":[\"x\",null],\"b\":\x7b\"c\":[0]\x7d\x7d") ∧
      coinciding.canonicalBytes = coinciding.toValue.map Value.canonicalBytes ∧
      unnamed.canonicalBytes = .error .nameNotText ∧ unnamed.toValue = .error .nameNotText := by
  have hcoinciding : FloatFree coinciding := by
    refine .map ?_ ?_ <;> simp only [List.forall_mem_cons]
    · exact ⟨.integer 5 _, .unitVariant "b", .some (.string "5"), List.forall_mem_nil _⟩
    · refine ⟨.bool true, .newtypeVariant "c" (.bytes [0]), .sequence ?_, List.forall_mem_nil _⟩
      exact List.forall_mem_cons.mpr ⟨.char 'x', List.forall_mem_singleton.mpr .none⟩
  have hunnamed : FloatFree unnamed := by
    refine .sequence ?_
    simp only [List.forall_mem_cons]
    exact ⟨.unit, .map (List.forall_mem_singleton.mpr .unit) (List.forall_mem_singleton.mpr (.refusal "a")),
      .refusal "b", List.forall_mem_nil _⟩
  have hrefused : unnamed.toValue = .error .nameNotText := rfl
  refine ⟨hcoinciding, hunnamed, by decide, (canonicalBytes_eq_toValue hcoinciding).1, ?_, hrefused⟩
  rw [(canonicalBytes_eq_toValue hunnamed).1, hrefused]
  rfl

end Attest.Json
