import Attest.Proofs.Document.PresentationReading
import Attest.Proofs.Document.Requests
import Attest.Proofs.Document.Slots
import Attest.Proofs.Json.Texts

/-!
What the text of a presentation lists, and what a reader finds in it. The custom members stand last and may have any
name. A name stands twice if a custom member has the name of a field that says something, and the reader then finds the
custom member. So the proofs of the presentation are found under `proof` exactly if no custom member has that name.
-/

namespace Attest

open Json (Object Value)

namespace Presentation

/-- The members with a field of their own, in the order in which they are written. -/
def slots (p : Presentation) : List (String × Option Value) :=
  [("@context", p.context.written fun v => v), ("id", p.id.map Value.string), ("type", p.types.written Value.string),
    ("holder", p.holder), ("verifiableCredential", p.credentials.written fun v => v),
    (proofName, if p.proofs.isEmpty then none else some (encodeProofs p.proofs))]

theorem members_eq_filled (p : Presentation) : p.members = filled p.slots ++ p.custom := by
  have hproofs : (if p.proofs.isEmpty then [] else [(proofName, encodeProofs p.proofs)]) =
      optionalMember proofName (fun v => v) (if p.proofs.isEmpty then none else some (encodeProofs p.proofs)) := by
    split <;> rfl
  simp only [members, hproofs, OneOrMany.manyMember_eq_written, optionalMember_eq_map "id" Value.string, filled, slots,
    List.flatMap_cons, List.flatMap_nil, List.append_nil, List.append_assoc]

theorem nodup_slots (p : Presentation) : (p.slots.map Prod.fst).Nodup := by
  show fieldNames.Nodup
  decide

variable {p : Presentation}

/-- Every name is listed once exactly if no custom member has the name of a field that says something. -/
theorem nodup_listedNames_iff (hp : p.Ordered) :
    (Json.listedNames p.toBytes).Nodup ↔ ∀ member ∈ p.custom, ∀ v, (member.1, some v) ∉ p.slots := by
  rw [toBytes, toJson, Json.listedNames_bytes, List.nodup_map_iff fun _ _ => Except.ok.inj, members_eq_filled,
    nodup_names_iff p.nodup_slots (Value.ordered_object.mp hp.custom).1]

/-- A reader finds the custom member of a name if there is one, and otherwise what the field says. -/
theorem get?_ofList_members (hp : p.Ordered) (name : String) :
    (Dict.ofList p.members).get? name = (p.custom.get? name).or (Dict.get? p.slots name).join := by
  rw [members_eq_filled, get?_written p.nodup_slots (Value.ordered_object.mp hp.custom).1]

theorem parseDocument_toBytes (hp : p.Ordered) (hdepth : p.toJson.depth ≤ Json.nestingLimit) :
    parseDocument p.toBytes = .ok (Dict.ofList p.members) :=
  (parseDocument_object fun _ => ordered_of_mem_members hp).mpr ⟨hdepth, rfl⟩

/-- A verifier checks the proofs of the presentation if no custom member hides them. -/
theorem verifyProof_toBytes (hp : p.Ordered) (hcustom : p.custom.get? proofName = none)
    (hdepth : p.toJson.depth ≤ Json.nestingLimit) {resolve : Resolver} {clock : Timestamp} {o : ProofOptions}
    (htype : o.isDataIntegrity = true) :
    verifyProof resolve clock p.toBytes o =
      verdict (verifyEntry resolve clock o (unsecured (Dict.ofList p.members))) (p.proofs.map Proof.toJson) := by
  rw [verifyProof_eq_verdict htype (parseDocument_toBytes hp hdepth),
    heldEntries_of_decodeProofs (decodeProofs_members hp hcustom)]

/-- Whatever the signer, what it attaches is in order. -/
theorem ordered_addProof (hp : p.Ordered) {now : Timestamp} {context : ProofContext} {signer : Signer}
    {signed : Presentation} (h : p.addProof now context signer = (.ok (), signed)) :
    signed.Ordered ∧ signed = { p with proofs := signed.proofs } := by
  obtain ⟨ps, hps, rfl⟩ := addProof_eq_ok.mp h
  have hproofs := ordered_encodeProofs.mp (embeddable_of_signDocument hps).1
  exact ⟨⟨hp.context, hp.holder, hp.credentials, hproofs, hp.custom⟩, rfl⟩

/-- What the bytes of a presentation say. Every name is listed once exactly if no custom member has the name of a field
that says something. A reader finds the custom member of a name if there is one, and otherwise what the field says,
which for the proofs is nothing if there are none. So unless a custom member is named like the proofs, the reader gets
the proofs of the presentation, and those that were just attached are the ones that a verifier checks. -/
theorem listed_and_found (p : Presentation) (hp : p.Ordered) :
    ((Json.listedNames p.toBytes).Nodup ↔ ∀ member ∈ p.custom, ∀ v, (member.1, some v) ∉ p.slots) ∧
    (p.toJson.depth ≤ Json.nestingLimit → ∃ members, parseDocument p.toBytes = .ok members ∧
      (∀ name, members.get? name = (p.custom.get? name).or (Dict.get? p.slots name).join) ∧
      members.get? proofName = (p.custom.get? proofName).or
        (if p.proofs.isEmpty then none else some (encodeProofs p.proofs)) ∧
      (p.custom.get? proofName = none → decodeProofs (members.get? proofName) = .ok p.proofs)) ∧
    ∀ now context signer signed, p.addProof now context signer = (.ok (), signed) → p.custom.get? proofName = none →
      signed.toJson.depth ≤ Json.nestingLimit → ∀ resolve clock (o : ProofOptions), o.isDataIntegrity = true →
        verifyProof resolve clock signed.toBytes o =
          verdict (verifyEntry resolve clock o (unsecured (Dict.ofList p.members)))
            (signed.proofs.map Proof.toJson) := by
  refine ⟨nodup_listedNames_iff hp, fun hdepth => ?_, ?_⟩
  · refine ⟨_, parseDocument_toBytes hp hdepth, get?_ofList_members hp, ?_, decodeProofs_members hp⟩
    rw [get?_ofList_members hp]
    rfl
  · intro now context signer signed hsigned hcustom hdepth resolve clock o htype
    obtain ⟨hordered, heq⟩ := ordered_addProof hp hsigned
    have hsame : signed.custom = p.custom := by rw [heq]
    rw [verifyProof_toBytes hordered (hsame ▸ hcustom) hdepth htype, heq, unsecured_members]

end Presentation

namespace Sample

/-- A presentation with a custom member that is named like the proofs. -/
def masked : Presentation := { Presentation.empty with custom := [(proofName, .null)] }

/-- A signer that returns the document of a credential with one proof, whatever it is given. -/
def swap : Signer := fun _ _ => .ok provedText

end Sample

open Sample in
/-- A custom member with the name of the proofs hides the proof that was just attached. -/
theorem Presentation.listed_twice_masked :
    masked.Ordered ∧
    ∃ signed, masked.addProof newYear Sample.context swap = (.ok (), signed) ∧ signed.proofs = [typedProof] ∧
      ¬ (Json.listedNames signed.toBytes).Nodup ∧ parseDocument signed.toBytes = .ok [(proofName, .null)] ∧
      signed.verify (some options) = .error (.verification .missingProof) := by
  refine ⟨⟨nofun, nofun, nofun, nofun, ⟨List.pairwise_singleton _ _, trivial, trivial⟩⟩,
    { masked with proofs := [typedProof] }, ?_⟩
  decide +kernel

open Sample in
/-- The names of a presentation with another custom member are listed once, and of the proofs the one that was just
attached is checked. -/
theorem Presentation.listed_and_found_named :
    presentation.Ordered ∧ (Json.listedNames presentation.toBytes).Nodup ∧
    presentation.addProof newYear Sample.context swap = (.ok (), { presentation with proofs := [typedProof] }) ∧
    ∀ resolve clock, verifyProof resolve clock { presentation with proofs := [typedProof] }.toBytes options.toOptions =
      verdict (verifyEntry resolve clock options.toOptions (unsecured (Dict.ofList presentation.members)))
        [typedProof.toJson] := by
  have hordered : presentation.Ordered := ⟨nofun, nofun, nofun, nofun, ordered_custom⟩
  have hsigned : presentation.addProof newYear Sample.context swap =
      (.ok (), { presentation with proofs := [typedProof] }) := by
    decide +kernel
  have hdepth : ({ presentation with proofs := [typedProof] } : Presentation).toJson.depth ≤ Json.nestingLimit := by
    decide +kernel
  obtain ⟨hnames, -, hchecks⟩ := listed_and_found presentation hordered
  refine ⟨hordered, hnames.mpr ?_, hsigned, fun resolve clock => ?_⟩
  · have hfields : filled presentation.slots = [] := rfl
    intro member _ v hslot
    cases hfields ▸ mem_filled.mpr hslot
  · exact hchecks _ _ _ _ hsigned rfl hdepth resolve clock _ rfl

end Attest
