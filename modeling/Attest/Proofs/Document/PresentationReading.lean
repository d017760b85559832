import Attest.Proofs.Document.Members
import Attest.Proofs.Document.Presentation
import Attest.Proofs.Document.Reading

/-!
Presentations read from texts. A presentation keeps no object beside its fields, so what is written for it is not
always what was read: a null `id` or `holder` and an empty array of contexts, types or credentials are left out.
Nothing else is, and a presentation that was read from a text without such members passes or fails like the text.
-/

namespace Attest

open Json (Draft Object Value)

namespace Presentation

/-- The names of the members with a field of their own. -/
def fieldNames : List String := ["@context", "id", "type", "holder", "verifiableCredential", proofName]

/-- The members that say nothing. A presentation that was read with one of them is written without it. -/
def blankMembers : List (String × Value) :=
  [("@context", .array []), ("id", .null), ("type", .array []), ("holder", .null), ("verifiableCredential", .array [])]

/-! ### The reading of members -/

/-- The members with a field of their own. -/
inductive Field
  | context
  | id
  | types
  | holder
  | credentials
  | proofs

namespace Field

def name : Field → String
  | context => "@context"
  | id => "id"
  | types => "type"
  | holder => "holder"
  | credentials => "verifiableCredential"
  | proofs => proofName

/-- What is read for a field. -/
def Held : Field → Type
  | context | credentials => OneOrMany Value
  | id => Option String
  | types => OneOrMany String
  | holder => Option Value
  | proofs => List Proof

def decode (budget : Nat) : (field : Field) → Draft → Except Json.Error field.Held
  | context | credentials => OneOrMany.ofDraft some budget
  | id => Draft.optional Draft.text
  | types => OneOrMany.ofDraft Value.string? budget
  | holder => Draft.optionalValue budget
  | proofs => readProofs budget

def get : (field : Field) → Reading → Option field.Held
  | context, r => r.context
  | id, r => r.id
  | types, r => r.types
  | holder, r => r.holder
  | credentials, r => r.credentials
  | proofs, r => r.proofs

def put : (field : Field) → Reading → Option field.Held → Reading
  | context, r, x => { r with context := x }
  | id, r, x => { r with id := x }
  | types, r, x => { r with types := x }
  | holder, r, x => { r with holder := x }
  | credentials, r, x => { r with credentials := x }
  | proofs, r, x => { r with proofs := x }

end Field

def shape : Draft.Shape Reading Field where
  names := fieldNames
  name := Field.name
  Held := Field.Held
  decode := Field.decode
  start := {}
  get := Field.get
  put := Field.put
  rest := Reading.custom
  setRest r custom := { r with custom }

theorem readBy_read : shape.ReadBy Reading.read where
  mem_names := by
    intro name
    constructor
    · show name ∈ [Field.context, .id, .types, .holder, .credentials, .proofs].map Field.name → _
      rw [List.mem_map]
      rintro ⟨field, -, rfl⟩
      exact ⟨field, rfl⟩
    · rintro ⟨field, rfl⟩
      cases field <;> decide
  get_start field := by cases field <;> rfl
  rest_start := rfl
  get_put_self field r x := by cases field <;> rfl
  get_put_of_ne {i j} h r x := by cases i <;> cases j <;> first | rfl | exact absurd rfl h
  get_setRest field r custom := by cases field <;> rfl
  rest_put field r x := by cases field <;> rfl
  rest_setRest _ _ := rfl
  slot budget r field d := by cases field <;> rfl
  other budget r name h d := by
    unfold Reading.read
    split
    all_goals first
      | exact absurd (by decide) h
      | rfl

/-! ### What is written for what was read -/

/-- A presentation with the members of an object that are not blank. -/
structure ReadFrom (members : Object) (p : Presentation) : Prop where
  fields : p.fields = keptMembers members blankMembers
  proofs : decodeProofs (members.get? proofName) = .ok p.proofs
  custom : p.custom = members.filter fun member => member.1 ∉ fieldNames

variable {members : Object} {budget : Nat} {r : Reading}

/-- After all members of an object have been read, each slot holds what stands under its name. -/
theorem decoded_of_foldMembers (hascending : members.Ascending)
    (hr : Draft.foldMembers (Reading.read budget) (Json.draftMembers members) .closed {} = .ok r) (field : Field) :
    Draft.Decoded (field.decode budget) (members.get? field.name) (field.get r) :=
  (readBy_read.fills field).read hascending (readBy_read.get_start field) hr

theorem fields_of_foldMembers (hordered : (Value.object members).Ordered)
    (hr : Draft.foldMembers (Reading.read budget) (Json.draftMembers members) .closed {} = .ok r) :
    r.finish.fields = keptMembers members blankMembers := by
  obtain ⟨hascending, hvalues⟩ := Value.ordered_object.mp hordered
  have hread := decoded_of_foldMembers hascending hr
  have hcontext := manyMember_of_decoded (fun v => v) (fun h => (Option.some.inj h).symm) hordered (hread .context)
  have hid := optionalMember_of_decoded Value.string (fun _ h => map_string_of_optional h) (hread .id)
  have htypes := manyMember_of_decoded Value.string string_of_string? hordered (hread .types)
  have hholder := optionalMember_of_decoded (fun v => v) (fun hmem h => map_id_of_optionalValue (hvalues _ hmem) h)
    (hread .holder)
  have hcredentials := manyMember_of_decoded (fun v => v) (fun h => (Option.some.inj h).symm) hordered
    (hread .credentials)
  simp only [Field.name, Field.get] at hcontext hid htypes hholder hcredentials
  simp only [fields, Reading.finish, hcontext, hid, htypes, hholder, hcredentials, keptMembers, blankMembers,
    List.flatMap_cons, List.flatMap_nil, List.append_nil, List.append_assoc]

theorem proofs_of_foldMembers (hordered : (Value.object members).Ordered)
    (hr : Draft.foldMembers (Reading.read budget) (Json.draftMembers members) .closed {} = .ok r) :
    decodeProofs (members.get? proofName) = .ok r.finish.proofs := by
  obtain ⟨hascending, hvalues⟩ := Value.ordered_object.mp hordered
  have hread : Draft.Decoded (readProofs budget) (members.get? proofName) r.proofs :=
    decoded_of_foldMembers hascending hr .proofs
  show _ = Except.ok (r.proofs.getD [])
  generalize hheld : members.get? proofName = held at hread
  generalize r.proofs = slot at hread
  cases hread with
  | absent => rfl
  | present h =>
      rename_i v ps
      obtain ⟨found, hfound, h⟩ := bind_eq_ok.mp h
      obtain ⟨-, rfl⟩ := (Draft.optionalValue_draft v budget (hvalues _ (Dict.mem_of_get? hheld))).mp hfound
      rw [mapError_eq_ok] at h
      -- A null never reaches the reader of proofs, which would take it for no proofs as well.
      by_cases hnull : v = .null
      · rw [if_pos hnull] at h
        rw [hnull]
        exact h
      · rw [if_neg hnull] at h
        exact h

theorem readFrom_of_parse {text : Bytes} {p : Presentation} (h : parse text = .ok p) :
    ∃ members, Json.parse text = .ok (.object members) ∧ ReadFrom members p := by
  obtain ⟨v, hv, h⟩ := bind_eq_ok.mp h
  rw [mapError_eq_ok] at hv
  cases v with
  | object members =>
      obtain ⟨r, hr, h⟩ := bind_eq_ok.mp (mapError_eq_ok.mp h)
      cases h
      have hordered := (Json.ordered_of_parse hv).1
      exact ⟨members, hv, fields_of_foldMembers hordered hr, proofs_of_foldMembers hordered hr,
        readBy_read.rest_eq_filter hordered hr⟩
  | _ => cases h

namespace ReadFrom

variable {p : Presentation}

/-- A reader finds the members that are not blank. -/
theorem get?_written (h : ReadFrom members p) (hascending : members.Ascending) {name : String}
    (hname : name ≠ proofName) :
    (Dict.ofList p.members).get? name = (members.get? name).filter fun v => (name, v) ∉ blankMembers := by
  have hcustom : p.custom.Ascending := by
    rw [h.custom]
    exact hascending.filter _
  rw [get?_members, Dict.get?_reverse hcustom, get?_proofMember_of_ne p hname, Option.none_or, h.fields,
    get?_reverse_keptMembers members (by decide), h.custom, Dict.get?_filter hascending]
  by_cases hfield : name ∈ fieldNames
  · have hblank : name ∈ blankMembers.map Prod.fst := by simp_all [fieldNames, blankMembers]
    rw [if_pos hblank]
    cases members.get? name with
    | none => rfl
    | some v => rw [Option.filter_some, if_neg (by simpa using hfield), Option.none_or]
  · have hblank : name ∉ blankMembers.map Prod.fst := by simp_all [fieldNames, blankMembers]
    have hkept (v : Value) : (name, v) ∉ blankMembers := fun h => hblank (List.mem_map_of_mem h)
    rw [if_neg hblank, Option.or_none]
    simp [hfield, hkept]

/-- A reader finds the proofs that were read. -/
theorem decodeProofs_written (h : ReadFrom members p) :
    decodeProofs ((Dict.ofList p.members).get? proofName) = .ok p.proofs := by
  have hnone : Dict.get? p.custom.reverse proofName = none := by
    apply Dict.get?_eq_none
    intro member hmember heq
    rw [List.mem_reverse, h.custom, List.mem_filter, heq] at hmember
    exact absurd hmember.2 (by decide)
  rw [get?_members, hnone, Option.none_or, h.fields, get?_reverse_keptMembers members (by decide),
    if_neg (by decide), Option.or_none, decodeProofs_proofMember]

theorem unsecured_written (h : ReadFrom members p) (hascending : members.Ascending) :
    unsecured (Dict.ofList p.members) = (unsecured members).filter fun member => member ∉ blankMembers := by
  have hunsecured := Dict.ascending_erase hascending proofName
  refine Dict.ext (Dict.ascending_erase (Dict.ascending_ofList _) _) (hunsecured.filter _) fun name => ?_
  rw [unsecured, unsecured, Dict.get?_filter hunsecured]
  by_cases hname : name = proofName
  · subst hname
    rw [Dict.get?_erase_self, Dict.get?_erase_self]
    rfl
  · rw [Dict.get?_erase_of_ne _ hname, Dict.get?_erase_of_ne _ hname, h.get?_written hascending hname]

theorem embeddable (h : ReadFrom members p) (hmembers : ∀ member ∈ members, Embeddable member.2) :
    ∀ member ∈ p.members, Embeddable member.2 := by
  intro member hmember
  rw [members_eq, List.mem_append, List.mem_append] at hmember
  rcases hmember with (hfield | hproof) | hcustom
  · rw [h.fields] at hfield
    exact hmembers member (mem_of_mem_keptMembers hfield)
  · have hheld : ∀ v ∈ members.get? proofName, Embeddable v := fun v hv => hmembers _ (Dict.mem_of_get? hv)
    rw [proofMember] at hproof
    split at hproof
    · cases hproof
    · rw [List.mem_singleton.mp hproof]
      exact embeddable_encodeProofs hheld h.proofs
  · rw [h.custom] at hcustom
    exact hmembers member (List.mem_of_mem_filter hcustom)

end ReadFrom

/-- Leaving out the blank members changes an object only if it has some. -/
theorem filter_blankMembers_eq_self {members : Object} :
    ((unsecured members).filter fun member => member ∉ blankMembers) = unsecured members ↔
      ∀ blank ∈ blankMembers, blank ∉ members := by
  have hnames : ∀ blank ∈ blankMembers, blank.1 ≠ proofName := by decide
  rw [List.filter_eq_self]
  constructor
  · intro h blank hblank hmember
    have hunsecured : blank ∈ unsecured members :=
      List.mem_filter.mpr ⟨hmember, decide_eq_true (hnames blank hblank)⟩
    exact of_decide_eq_true (h blank hunsecured) hblank
  · intro h member hmember
    exact decide_eq_true fun hblank => h member hblank (List.mem_of_mem_filter hmember)

/-- What is written for a presentation that was read has all members of the text but the blank ones, and a
presentation that was read from a text without blank members passes or fails like the text. -/
theorem parse_leaves_out_blanks (text : Bytes) (p : Presentation) (h : parse text = .ok p) :
    ∃ members written, parseDocument text = .ok members ∧ parseDocument p.toBytes = .ok written ∧
      heldEntries written = heldEntries members ∧
      unsecured written = (unsecured members).filter (fun member => member ∉ blankMembers) ∧
      (unsecured written = unsecured members ↔ ∀ blank ∈ blankMembers, blank ∉ members) ∧
      ((∀ blank ∈ blankMembers, blank ∉ members) →
        ∀ options, ChecksProofs options → p.verify options = verifyDocument text options) := by
  obtain ⟨members, hjson, hread⟩ := readFrom_of_parse h
  obtain ⟨hascending, hmembers⟩ := embeddable_of_parse hjson
  have hparsed : parseDocument text = .ok members := parseDocument_eq_ok.mpr hjson
  have hwritten : parseDocument p.toBytes = .ok (Dict.ofList p.members) :=
    parseDocument_of_embeddable (hread.embeddable hmembers)
  have hentries : heldEntries (Dict.ofList p.members) = heldEntries members := by
    rw [heldEntries_of_decodeProofs (hread.decodeProofs_written),
      heldEntries_of_decodeProofs hread.proofs]
  have hunsecured := hread.unsecured_written hascending
  have hsame : unsecured (Dict.ofList p.members) = unsecured members ↔
      ∀ blank ∈ blankMembers, blank ∉ members := by
    rw [hunsecured, filter_blankMembers_eq_self]
  exact ⟨members, Dict.ofList p.members, hparsed, hwritten, hentries, hunsecured, hsame,
    fun hblanks options hoptions =>
      verifyDocument_congr hwritten hparsed (hsame.mpr hblanks) hentries hoptions⟩

end Presentation

namespace Sample

/-- A signature of the key for the object with nothing but a null `id`. -/
def nulledProof : Proof :=
  ⟨[("created", .string "2024-01-01T00:00:00Z"), ("cryptosuite", .string "eddsa-2022"),
    ("proofPurpose", .string "assertionMethod"),
    ("proofValue", .string
      "z2F7yHuZNuRqgKjHJxPdBwZKC6N7AtGz8nMzLZSiqZzFJntJp2N46HEEaU71dE9KpwoTwvW17McEW6ZHc118QryHG"),
    ("type", .string "DataIntegrityProof"), ("verificationMethod", .string "key-1")], rfl⟩

/-- The text of a presentation with a null `id` and its proof. -/
def nulledText : Bytes := (Value.object [("id", .null), (proofName, nulledProof.toJson)]).bytes

/-- The presentation that is read from the text, which has no `id`. -/
def nulled : Presentation := { Presentation.empty with proofs := [nulledProof] }

/-- The options that say no more than where the key is found. -/
def options : VerificationOptions := (Keyring.ofRegistrations registrations).verification newYear "" "" ""

/-- The signature in the proof. -/
def nulledSignature : Bytes :=
  hex ("3e3196cad6bfddd1ba09750fcdd5151290c5e76792215a3d247e440808390ee5" ++
    "a3a4d69dc6229d7d2d839ea475534d2a35c22b177164ac14c1b48f198ebf6407")

/-- With the options nothing but the signature of the proof decides. -/
theorem verifyEntry_nulledProof (content : Object) :
    verifyEntry (Keyring.ofRegistrations registrations).directory.resolve newYear options.toOptions content
        nulledProof.members =
      ((PublicKey.ed25519 publicKey).verify (hashData configuration content) nulledSignature).mapError
        .invalidSignature := by
  have hvalue : ProofCheck.proofValue nulledProof.members =
      .ok "z2F7yHuZNuRqgKjHJxPdBwZKC6N7AtGz8nMzLZSiqZzFJntJp2N46HEEaU71dE9KpwoTwvW17McEW6ZHc118QryHG" := by
    decide +kernel
  have hsignature : ProofValue.decode
      "z2F7yHuZNuRqgKjHJxPdBwZKC6N7AtGz8nMzLZSiqZzFJntJp2N46HEEaU71dE9KpwoTwvW17McEW6ZHc118QryHG" =
        .ok nulledSignature := by decide +kernel
  have hconfiguration : Dict.erase nulledProof.members "proofValue" = configuration := by decide +kernel
  have hsuite : ProofCheck.suite configuration = .ok .eddsa2022 := by decide +kernel
  have hpurpose : ProofCheck.purpose configuration options.toOptions.purpose = .ok () := by decide +kernel
  have hcreated : ProofCheck.time? configuration "created" = .ok (some newYear) := by decide +kernel
  have hexpiry : ProofCheck.expiry configuration newYear = .ok () := by decide +kernel
  have hkey : ProofCheck.key (Keyring.ofRegistrations registrations).directory.resolve configuration .eddsa2022 =
      .ok (.ed25519 publicKey) := by
    refine ProofCheck.key_eq_ok.mpr ⟨"key-1", rfl, ?_, rfl⟩
    rw [← publicKey_key]
    exact Keyring.resolve_directory (Keyring.ascending_ofRegistrations registrations) rfl
  exact verifyEntry_eq_verify hvalue hconfiguration hsuite hpurpose rfl rfl hcreated hexpiry hkey hsignature

/-- A text with this proof alone passes or fails as the signature does. -/
theorem verifyDocument_nulledProof {text : Bytes} {members : Object} (h : parseDocument text = .ok members)
    (hproof : Dict.get? members proofName = some nulledProof.toJson) :
    verifyDocument text (some options) =
      (((PublicKey.ed25519 publicKey).verify (hashData configuration (unsecured members)) nulledSignature).mapError
        .invalidSignature).mapError .verification := by
  have hcheck : verifyProof (Keyring.ofRegistrations registrations).directory.resolve newYear text
      options.toOptions = _ := verifyProof_eq_verdict rfl h
  rw [heldEntries_object hproof, verdict_singleton (by decide), verifyEntry_nulledProof] at hcheck
  exact congrArg (Except.mapError _) hcheck

/-- The signature is good for the null `id` and not for the object without it. -/
theorem verify_nulledSignature :
    (PublicKey.ed25519 publicKey).verify (hashData configuration [("id", .null)]) nulledSignature = .ok () ∧
    (PublicKey.ed25519 publicKey).verify (hashData configuration []) nulledSignature = .error .edwardsEquation := by
  have hnull : sha256 (Value.object [("id", .null)]).canonicalBytes =
      hex "185486091df0b98cd0497e39891912209209c94df89bd989a0ab397cde61f1d4" := by decide +kernel
  have hempty : sha256 (Value.object []).canonicalBytes =
      hex "44136fa355b3678a1146ad16f7e8649e94fb4fc21fe77e8310c060f61caaff8a" := by decide +kernel
  rw [hashData, hashData, signingInput, signingInput, sha256_configuration, hnull, hempty]
  constructor
  · decide +kernel
  · decide +kernel

/-- The text of a presentation with a holder and with one proof in an array. -/
def heldText : Bytes :=
  Bytes.ofString "\x7b\"holder\": \"a\", \"proof\": [\x7b\"type\": \"DataIntegrityProof\"\x7d]\x7d"

def held : Presentation :=
  { Presentation.empty with
    holder := some (.string "a"), proofs := [⟨[("type", .string "DataIntegrityProof")], rfl⟩] }

theorem parse_heldText : Presentation.parse heldText = .ok held := by decide +kernel

end Sample

open Sample in
/-- A null `id` is signed but not written, so the text passes and the presentation that was read from it fails. -/
theorem Presentation.parse_drops_signed_null :
    parse nulledText = .ok nulled ∧ parseDocument nulled.toBytes = .ok [(proofName, nulledProof.toJson)] ∧
    parseDocument nulledText = .ok [("id", .null), (proofName, nulledProof.toJson)] ∧
    verifyDocument nulledText (some options) = .ok () ∧
    nulled.verify (some options) = .error (.verification (.invalidSignature .edwardsEquation)) := by
  have hparse : parse nulledText = .ok nulled := by decide +kernel
  have hwritten : parseDocument nulled.toBytes = .ok [(proofName, nulledProof.toJson)] := by decide +kernel
  have hread : parseDocument nulledText = .ok [("id", .null), (proofName, nulledProof.toJson)] := by decide +kernel
  have hpasses := verifyDocument_nulledProof hread rfl
  have hfails := verifyDocument_nulledProof hwritten rfl
  have hnull : unsecured [("id", .null), (proofName, nulledProof.toJson)] = [("id", .null)] := rfl
  have hempty : unsecured [(proofName, nulledProof.toJson)] = [] := rfl
  rw [hnull, verify_nulledSignature.1] at hpasses
  rw [hempty, verify_nulledSignature.2] at hfails
  exact ⟨hparse, hwritten, hread, hpasses, hfails⟩

open Sample in
/-- A text that is not laid out as a presentation is written is a presentation, and it fails for the same reason. -/
theorem Presentation.parse_leaves_out_blanks_held :
    held.toBytes ≠ heldText ∧
    (∃ members written, parseDocument heldText = .ok members ∧ parseDocument held.toBytes = .ok written ∧
      unsecured written = unsecured members) ∧
    held.verify (some options) = .error (.verification (.malformedProof (.missing "proofValue"))) := by
  have hwritten : held.toBytes ≠ heldText := by decide +kernel
  have hheld : parseDocument heldText =
      .ok [("holder", .string "a"), (proofName, .array (held.proofs.map Proof.toJson))] := by decide +kernel
  have hfails : verifyDocument heldText (some options) =
      .error (.verification (.malformedProof (.missing "proofValue"))) := by decide +kernel
  have hchecks : ChecksProofs (some options) := by
    rintro _ ⟨⟩ _ ⟨⟩
    exact ⟨_, _, rfl⟩
  obtain ⟨members, written, hmembers, hwrite, -, -, hsame, hverify⟩ :=
    parse_leaves_out_blanks heldText held parse_heldText
  have hblanks : ∀ blank ∈ blankMembers, blank ∉ members := by
    cases hheld.symm.trans hmembers
    decide +kernel
  refine ⟨hwritten, ⟨members, written, hmembers, hwrite, hsame.mpr hblanks⟩, ?_⟩
  rw [hverify hblanks _ hchecks, hfails]

end Attest
