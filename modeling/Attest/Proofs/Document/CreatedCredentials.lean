import Attest.Proofs.Document.Reading
import Attest.Proofs.Document.Slots

/-!
Credentials that are made from contents. What is written for such a credential is always read as its object, but the
contents that are read from the object are the given ones only if their fields say nothing that is read otherwise: no
custom member has the name of a field or of the proofs, no single context is an array, and neither the issuer nor the
subject is a null. That is all if the times are what their texts tell.
-/

namespace Attest

open Json (Draft Object Value)

namespace CredentialContents

/-- The names of the members with a field of their own. -/
def fieldNames : List String :=
  ["@context", "id", "type", "issuer", "issuanceDate", "expirationDate", "credentialSubject"]

/-! ### The reading of members -/

/-- The members with a field of their own. -/
inductive Field
  | context
  | id
  | types
  | issuer
  | issued
  | expires
  | subject

namespace Field

def name : Field → String
  | context => "@context"
  | id => "id"
  | types => "type"
  | issuer => "issuer"
  | issued => "issuanceDate"
  | expires => "expirationDate"
  | subject => "credentialSubject"

/-- What is read for a field. -/
def Held : Field → Type
  | context => OneOrMany Value
  | id => Option String
  | types => OneOrMany String
  | issuer | subject => Option Value
  | issued | expires => Option Timestamp

def decode (budget : Nat) : (field : Field) → Draft → Except Json.Error field.Held
  | context => OneOrMany.ofDraft some budget
  | id => Draft.optional Draft.text
  | types => OneOrMany.ofDraft Value.string? budget
  | issuer | subject => Draft.optionalValue budget
  | issued | expires => Draft.optional Draft.time

def get : (field : Field) → Reading → Option field.Held
  | context, r => r.context
  | id, r => r.id
  | types, r => r.types
  | issuer, r => r.issuer
  | issued, r => r.issued
  | expires, r => r.expires
  | subject, r => r.subject

def put : (field : Field) → Reading → Option field.Held → Reading
  | context, r, x => { r with context := x }
  | id, r, x => { r with id := x }
  | types, r, x => { r with types := x }
  | issuer, r, x => { r with issuer := x }
  | issued, r, x => { r with issued := x }
  | expires, r, x => { r with expires := x }
  | subject, r, x => { r with subject := x }

end Field

def shape : Draft.Shape Reading Field where
  names := fieldNames
  name := Field.name
  Held := Field.Held
  decode := Field.decode
  start := {}
  get := Field.get
  put := Field.put
  rest := Reading.custom
  setRest r custom := { r with custom }

theorem readBy_read : shape.ReadBy Reading.read where
  mem_names := by
    intro name
    constructor
    · show name ∈ [Field.context, .id, .types, .issuer, .issued, .expires, .subject].map Field.name → _
      rw [List.mem_map]
      rintro ⟨field, -, rfl⟩
      exact ⟨field, rfl⟩
    · rintro ⟨field, rfl⟩
      cases field <;> decide
  get_start field := by cases field <;> rfl
  rest_start := rfl
  get_put_self field r x := by cases field <;> rfl
  get_put_of_ne {i j} h r x := by cases i <;> cases j <;> first | rfl | exact absurd rfl h
  get_setRest field r custom := by cases field <;> rfl
  rest_put field r x := by cases field <;> rfl
  rest_setRest _ _ := rfl
  slot budget r field d := by cases field <;> rfl
  other budget r name h d := by
    unfold Reading.read
    split
    all_goals first
      | exact absurd (by decide) h
      | rfl

/-! ### What is written -/

/-- The members with a field of their own, in the order in which they are written. -/
def slots (c : CredentialContents) : List (String × Option Value) :=
  [("@context", c.context.written fun v => v), ("id", c.id.map Value.string), ("type", c.types.written Value.string),
    ("issuer", c.issuer), ("issuanceDate", c.issued.map timeJson), ("expirationDate", c.expires.map timeJson),
    ("credentialSubject", c.subject)]

theorem members_eq_filled (c : CredentialContents) : c.members = filled c.slots ++ c.custom := by
  simp only [members, OneOrMany.manyMember_eq_written, optionalMember_eq_map "id" Value.string,
    optionalMember_eq_map _ timeJson, filled, slots, List.flatMap_cons, List.flatMap_nil, List.append_nil,
    List.append_assoc]

/-- What is written for a field. -/
def written (c : CredentialContents) : Field → Option Value
  | .context => c.context.written fun v => v
  | .id => c.id.map Value.string
  | .types => c.types.written Value.string
  | .issuer => c.issuer
  | .issued => c.issued.map timeJson
  | .expires => c.expires.map timeJson
  | .subject => c.subject

/-- What a field says. -/
def said (c : CredentialContents) : (field : Field) → field.Held
  | .context => c.context
  | .id => c.id
  | .types => c.types
  | .issuer => c.issuer
  | .issued => c.issued
  | .expires => c.expires
  | .subject => c.subject

/-- Contents whose fields, apart from the times, say nothing that would be read otherwise. -/
structure Settled (c : CredentialContents) : Prop where
  context : c.context.Plain
  issuer : c.issuer ≠ some .null
  subject : c.subject ≠ some .null
  custom : ∀ member ∈ c.custom, member.1 ∉ proofName :: fieldNames

/-- Contents whose times are the ones that their texts tell. -/
structure Dated (c : CredentialContents) : Prop where
  issued : ∀ t ∈ c.issued, t.FourDigitYear ∧ t.Regular
  expires : ∀ t ∈ c.expires, t.FourDigitYear ∧ t.Regular

variable {members : Object} {budget : Nat} {c : CredentialContents}

theorem apart (hordered : c.Ordered) (hcustom : ∀ member ∈ c.custom, member.1 ∉ fieldNames) :
    Apart c.slots c.custom where
  nodup := by
    show fieldNames.Nodup
    decide
  ascending := (Value.ordered_object.mp hordered.custom).1
  names := hcustom

theorem Settled.apart (hc : c.Settled) (hordered : c.Ordered) : Apart c.slots c.custom :=
  CredentialContents.apart hordered fun member hmember =>
    (List.ne_and_not_mem_of_not_mem_cons (hc.custom member hmember)).2

/-! ### What is read back -/

theorem Settled.readsBack (hc : c.Settled) (hdated : c.Dated) (hordered : c.Ordered)
    (hdepth : ∀ member ∈ c.members, member.2.depth ≤ budget) :
    ReadsBack shape budget c.slots c.custom c.written c.said := by
  have hsized : ∀ member ∈ filled c.slots ++ c.custom, member.2.Ordered ∧ member.2.depth ≤ budget := by
    rw [← members_eq_filled]
    exact fun member hmember => ⟨Credential.ordered_of_mem_members hordered member hmember, hdepth member hmember⟩
  have hslot (name : String) {held : Option Value} (hheld : Dict.get? c.slots name = some held) :=
    forall_mem_slot hsized hheld
  refine ⟨hc.apart hordered, rfl, fun field => by cases field <;> rfl, fun field => ?_, value_custom hsized⟩
  cases field with
  | context => exact OneOrMany.ofDraft_written_values hc.context (hslot "@context" rfl)
  | id => exact optionalText_written c.id
  | types => exact OneOrMany.ofDraft_written_texts (hslot "type" rfl)
  | issuer => exact optionalValue_written hc.issuer (hslot "issuer" rfl)
  | issued => exact optionalTime_written hdated.issued
  | expires => exact optionalTime_written hdated.expires
  | subject => exact optionalValue_written hc.subject (hslot "credentialSubject" rfl)

/-- What has been read makes up contents again if each field was filled with what they say. -/
theorem finish_eq {r : Reading} (hslots : ∀ field, shape.get field r = (c.written field).map fun _ => c.said field)
    (hcustom : r.custom = c.custom) : r.finish = c := by
  have hcontext : r.context = (c.context.written fun v => v).map fun _ => c.context := hslots .context
  have hid : r.id = (c.id.map Value.string).map fun _ => c.id := hslots .id
  have htypes : r.types = (c.types.written Value.string).map fun _ => c.types := hslots .types
  have hissuer : r.issuer = c.issuer.map fun _ => c.issuer := hslots .issuer
  have hissued : r.issued = (c.issued.map timeJson).map fun _ => c.issued := hslots .issued
  have hexpires : r.expires = (c.expires.map timeJson).map fun _ => c.expires := hslots .expires
  have hsubject : r.subject = c.subject.map fun _ => c.subject := hslots .subject
  rw [Reading.finish, hcontext, hid, htypes, hissuer, hissued, hexpires, hsubject, hcustom, OneOrMany.getD_written,
    OneOrMany.getD_written, join_map_map, join_map_map, join_map_map, join_map_const, join_map_const]

/-- The contents that an object says are those from which the object was made. -/
theorem Settled.ofObject_members (hc : c.Settled) (hdated : c.Dated) (hordered : c.Ordered) :
    ofObject (Dict.ofList c.members) = .ok c := by
  have hnames : (c.members.map Prod.fst).Nodup := by
    rw [members_eq_filled]
    exact (hc.apart hordered).nodup_names
  have hbudget : ∀ member ∈ c.members, member.2.depth ≤ (Value.object (Dict.ofList c.members)).depth - 1 :=
    fun member hmember => Value.depthMembers_le.mp (Nat.le_refl _) member (Dict.mem_ofList_of_nodup hnames hmember)
  obtain ⟨r, hr, hslots, hcustom⟩ := (hc.readsBack hdated hordered hbudget).foldMembers_eq readBy_read
  rw [← members_eq_filled] at hr
  rw [ofObject, Value.draft, ofDraft]
  exact bind_eq_ok.mpr ⟨r, hr, congrArg Except.ok (finish_eq hslots hcustom)⟩

/-- Contents that are read from the object that is made from them say nothing that is read otherwise. -/
theorem settled_of_ofObject (hordered : c.Ordered) (h : ofObject (unsecured (Dict.ofList c.members)) = .ok c) :
    c.Settled := by
  obtain ⟨r, hr, h⟩ := bind_eq_ok.mp h
  obtain rfl : r.finish = c := Except.ok.inj h
  have hunsecured := Dict.ascending_erase (Dict.ascending_ofList r.finish.members) proofName
  have hheld {name : String} : ∀ v ∈ Dict.get? (unsecured (Dict.ofList r.finish.members)) name, v.Ordered := fun v hv =>
    Credential.ordered_of_mem_members hordered _ (Dict.mem_of_mem_ofList (Dict.mem_of_mem_erase (Dict.mem_of_get? hv)))
  have hread (field : Field) := (readBy_read.fills field).read hunsecured (readBy_read.get_start field) hr
  have hcontext := OneOrMany.plain_of_decoded hheld (hread .context)
  have hissuer := optionalValue_of_decoded hheld (hread .issuer)
  have hsubject := optionalValue_of_decoded hheld (hread .subject)
  obtain ⟨-, hnames⟩ := readBy_read.names_rest hr
  refine ⟨hcontext.1, hissuer.1, hsubject.1, fun member hmember => ?_⟩
  rw [List.mem_cons, not_or]
  refine ⟨fun hname => ?_, hnames member hmember⟩
  -- The object was read without its proofs, so a custom member cannot have their name.
  have hrest := (readBy_read.fills_rest (hnames member hmember)).read hunsecured rfl hr
  have hcustom : Dict.get? (shape.rest r) member.1 = some member.2 :=
    Dict.get?_of_mem (Value.ordered_object.mp hordered.custom).1 hmember
  rw [hcustom, hname, Dict.get?_erase_self] at hrest
  cases hrest

end CredentialContents

namespace Credential

/-- What is written for a credential that was made from contents is read as its object. It is read as the credential
only if the contents say nothing that is read otherwise, and then it is if their times are the ones that their texts
tell. -/
theorem parse_create_iff (c : CredentialContents) (hordered : c.Ordered)
    (hdepth : (Value.object (create c).raw).depth ≤ Json.nestingLimit) :
    Json.parse (create c).toBytes = .ok (.object (create c).raw) ∧
      (parse (create c).toBytes = .ok (create c) → c.Settled) ∧
      (c.Dated → (parse (create c).toBytes = .ok (create c) ↔ c.Settled)) := by
  have hraw : (Value.object (create c).raw).Ordered := ordered_ofList (ordered_of_mem_members hordered)
  have hparse : Json.parse (create c).toBytes = .ok (.object (create c).raw) := by
    rw [toBytes, Json.parse_bytes _ hraw, if_pos hdepth]
  have hsettled : parse (create c).toBytes = .ok (create c) → c.Settled := by
    rw [parse_eq_ok]
    rintro ⟨-, -, hcontents⟩
    exact CredentialContents.settled_of_ofObject hordered hcontents
  refine ⟨hparse, hsettled, fun hdated => ⟨hsettled, fun hc => ?_⟩⟩
  have hproof : c.custom.get? proofName = none :=
    Dict.get?_eq_none fun member hmember heq => hc.custom member hmember (heq ▸ List.mem_cons_self)
  have hnone : (create c).raw.get? proofName = none :=
    Dict.get?_eq_none fun member hmember =>
      ne_proofName_of_mem_members hordered hproof member (Dict.mem_of_mem_ofList hmember)
  rw [parse_eq_ok]
  refine ⟨hparse, (valid_create hordered hproof).proofs, ?_⟩
  rw [unsecured, Dict.erase_of_get?_none hnone]
  exact hc.ofObject_members hdated hordered

end Credential

namespace Sample

/-- Contents with a value in each field and a custom member. -/
def full : CredentialContents :=
  { context := .one (.string Presentation.contextV1), id := some "urn:1", types := .many ["VerifiableCredential"],
    issuer := some (.object [("id", .string "did:a")]), issued := some newYear, expires := some newYear,
    subject := some (.array [.string "b"]), custom := custom }

/-- Contents with a custom member that takes the name of a field without a value. -/
def disguised : CredentialContents := { contents with custom := [("id", .string "x")] }

end Sample

open Sample in
/-- A custom member with the name of a field is read into the field. -/
theorem Credential.parse_create_disguised :
    disguised.Ordered ∧ (create disguised).raw = [("id", .string "x")] ∧
    parse (create disguised).toBytes =
      .ok { create disguised with contents := { Sample.contents with id := some "x", custom := [] } } ∧
    parse (create disguised).toBytes ≠ .ok (create disguised) := by
  have hparse : parse (create disguised).toBytes =
      .ok { create disguised with contents := { Sample.contents with id := some "x", custom := [] } } := by
    decide +kernel
  refine ⟨⟨nofun, nofun, nofun, ⟨List.pairwise_singleton _ _, trivial, trivial⟩⟩, rfl, hparse, ?_⟩
  rw [hparse]
  decide +kernel

open Sample in
/-- Contents with all fields are read back from the credential that is made from them. -/
theorem Credential.parse_create_full : full.Ordered ∧ parse (create full).toBytes = .ok (create full) := by
  have hordered : full.Ordered := by
    refine ⟨List.forall_mem_singleton.mpr trivial, ?_, ?_, ordered_custom⟩
    · rintro v hv
      obtain rfl := Option.some.inj hv
      exact ⟨List.pairwise_singleton _ _, trivial, trivial⟩
    · rintro v hv
      obtain rfl := Option.some.inj hv
      exact ⟨trivial, trivial⟩
  have hsettled : full.Settled := ⟨nofun, nofun, nofun, List.forall_mem_singleton.mpr (by decide)⟩
  have hdated : full.Dated := by
    constructor
    · rintro t ⟨⟩
      exact ⟨by decide, by decide⟩
    · rintro t ⟨⟩
      exact ⟨by decide, by decide⟩
  exact ⟨hordered, ((parse_create_iff full hordered (by decide +kernel)).2.2 hdated).mpr hsettled⟩

end Attest
