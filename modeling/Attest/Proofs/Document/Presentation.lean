import Attest.Document.Presentation
import Attest.Proofs.Document.Credential

/-!
Presentations. Their object is made from their fields each time it is written, and unless a custom member
takes the name of the proofs, a reader finds the proofs of the presentation in it. An attached proof
changes nothing else in the object.
-/

namespace Attest

open Json (Object Value)

namespace Presentation

/-- Every value in the presentation is in order. -/
structure Ordered (p : Presentation) : Prop where
  context : p.context.Ordered
  holder : ∀ v ∈ p.holder, v.Ordered
  credentials : p.credentials.Ordered
  proofs : ∀ q ∈ p.proofs, q.toJson.Ordered
  custom : (Value.object p.custom).Ordered

/-- The members that are written before the proofs. -/
def fields (p : Presentation) : List (String × Value) :=
  manyMember "@context" (fun v => v) p.context ++
  optionalMember "id" Value.string p.id ++
  manyMember "type" Value.string p.types ++
  optionalMember "holder" (fun v => v) p.holder ++
  manyMember "verifiableCredential" (fun v => v) p.credentials

/-- The member in which the proofs are written. -/
def proofMember (p : Presentation) : List (String × Value) :=
  if p.proofs.isEmpty then [] else [(proofName, encodeProofs p.proofs)]

theorem members_eq (p : Presentation) : p.members = p.fields ++ p.proofMember ++ p.custom := rfl

theorem get?_proofMember_of_ne (p : Presentation) {name : String} (hname : name ≠ proofName) :
    Dict.get? p.proofMember name = none := by
  apply Dict.get?_eq_none
  intro entry hentry
  rw [proofMember] at hentry
  split at hentry
  · cases hentry
  · rw [List.mem_singleton.mp hentry]
    exact hname.symm

theorem decodeProofs_proofMember (p : Presentation) :
    decodeProofs (Dict.get? p.proofMember proofName) = .ok p.proofs := by
  rw [proofMember]
  split
  · rename_i hempty
    rw [List.isEmpty_iff.mp hempty]
    rfl
  · exact decodeProofs_encodeProofs p.proofs

theorem ordered_of_mem_fields {p : Presentation} (h : p.Ordered) {member : String × Value}
    (hmember : member ∈ p.fields) : member.1 ≠ proofName ∧ member.2.Ordered := by
  simp only [fields, List.mem_append] at hmember
  rcases hmember with (((hcontext | hid) | htypes) | hholder) | hcredentials
  · obtain ⟨hname, hordered⟩ := ordered_of_mem_manyMember h.context hcontext
    exact ⟨by rw [hname]; decide, hordered⟩
  · obtain ⟨hname, hordered⟩ := ordered_of_mem_optionalMember (fun id _ => ordered_string id) hid
    exact ⟨by rw [hname]; decide, hordered⟩
  · obtain ⟨hname, hordered⟩ := ordered_of_mem_manyString htypes
    exact ⟨by rw [hname]; decide, hordered⟩
  · obtain ⟨hname, hordered⟩ := ordered_of_mem_optionalMember h.holder hholder
    exact ⟨by rw [hname]; decide, hordered⟩
  · obtain ⟨hname, hordered⟩ := ordered_of_mem_manyMember h.credentials hcredentials
    exact ⟨by rw [hname]; decide, hordered⟩

theorem ordered_of_mem_members {p : Presentation} (h : p.Ordered) {member : String × Value}
    (hmember : member ∈ p.members) : member.2.Ordered := by
  rw [members_eq, List.mem_append, List.mem_append] at hmember
  rcases hmember with (hfield | hproof) | hcustom
  · exact (ordered_of_mem_fields h hfield).2
  · rw [proofMember] at hproof
    split at hproof
    · cases hproof
    · rw [List.mem_singleton.mp hproof]
      exact ordered_encodeProofs.mpr h.proofs
  · exact (Value.ordered_object.mp h.custom).2 member hcustom

theorem get?_members (p : Presentation) (name : String) :
    (Dict.ofList p.members).get? name =
      (Dict.get? p.custom.reverse name).or ((Dict.get? p.proofMember name).or (Dict.get? p.fields.reverse name)) := by
  have hreverse : p.proofMember.reverse = p.proofMember := by
    rw [proofMember]
    split <;> rfl
  rw [Dict.get?_ofList, members_eq, List.reverse_append, List.reverse_append, hreverse, Dict.get?_append,
    Dict.get?_append]

/-- A reader finds the proofs. -/
theorem get?_proofName {p : Presentation} (h : p.Ordered) (hcustom : p.custom.get? proofName = none) :
    (Dict.ofList p.members).get? proofName = Dict.get? p.proofMember proofName := by
  have hfields : Dict.get? p.fields.reverse proofName = none :=
    Dict.get?_eq_none fun entry hentry => (ordered_of_mem_fields h (List.mem_reverse.mp hentry)).1
  rw [get?_members, Dict.get?_reverse (Value.ordered_object.mp h.custom).1, hcustom, Option.none_or, hfields,
    Option.or_none]

theorem decodeProofs_members {p : Presentation} (h : p.Ordered) (hcustom : p.custom.get? proofName = none) :
    decodeProofs ((Dict.ofList p.members).get? proofName) = .ok p.proofs := by
  rw [get?_proofName h hcustom, decodeProofs_proofMember]

/-- The object without the proofs does not depend on them. -/
theorem unsecured_members (p : Presentation) (ps : List Proof) :
    unsecured (Dict.ofList { p with proofs := ps }.members) = unsecured (Dict.ofList p.members) := by
  refine Dict.ext (Dict.ascending_erase (Dict.ascending_ofList _) _)
    (Dict.ascending_erase (Dict.ascending_ofList _) _) fun name => ?_
  by_cases hname : name = proofName
  · rw [hname, unsecured, unsecured, Dict.get?_erase_self, Dict.get?_erase_self]
  · rw [unsecured, unsecured, Dict.get?_erase_of_ne _ hname, Dict.get?_erase_of_ne _ hname, get?_members,
      get?_members, get?_proofMember_of_ne _ hname, get?_proofMember_of_ne _ hname]
    rfl

/-- What attaching a proof that a keyring makes does to a presentation. -/
structure Signed (ring : Keyring) (now : Timestamp) (context : ProofContext) (p signed : Presentation) : Prop where
  proofs : ∃ q, Makes ring now context (unsecured (Dict.ofList p.members)) q ∧
    signed = { p with proofs := p.proofs ++ [q] }
  depth : (Value.object signed.members).depth ≤ Json.nestingLimit

theorem signed_of_addProof {p signed : Presentation} (hp : p.Ordered) (hcustom : p.custom.get? proofName = none)
    {ring : Keyring} {now clock : Timestamp} {context : ProofContext}
    (h : p.addProof now context (ring.addProof clock) = (.ok (), signed)) : Signed ring now context p signed := by
  obtain ⟨after, hafter, rfl⟩ := addProof_eq_ok.mp h
  have hbefore := decodeProofs_members hp hcustom
  obtain ⟨hdepth, q, hq, rfl, hnested⟩ :=
    (signDocument_eq_ok (fun _ => ordered_of_mem_members hp) hbefore).mp hafter
  have hdepthProofs := Nat.le_trans (depth_encodeProofs_append_le hbefore q) hnested
  refine ⟨⟨q, hq, rfl⟩, Value.depth_object_le.mpr fun member hmember => ?_⟩
  rw [members_eq, List.mem_append, List.mem_append] at hmember
  have hmembers := Value.depth_object_le.mp hdepth
  rcases hmember with (hfield | hproof) | hcustomMember
  · exact hmembers member (List.mem_append_left _ (List.mem_append_left _ hfield))
  · rw [proofMember] at hproof
    split at hproof
    · cases hproof
    · rw [List.mem_singleton.mp hproof]
      exact hdepthProofs
  · exact hmembers member (List.mem_append_right _ hcustomMember)

/-- A presentation without proofs can be signed with any key that is selected. -/
theorem exists_addProof {p : Presentation} (hp : p.Ordered) (hcustom : p.custom.get? proofName = none)
    (hproofs : p.proofs = []) (hdepth : (Value.object p.members).depth ≤ Json.nestingLimit) {ring : Keyring}
    {now : Timestamp} {context : ProofContext} {suite : Cryptosuite} {key : KeyPair}
    (hselect : ring.select (context.resolve now).toOptions = .ok (suite, key)) (clock : Timestamp) :
    ∃ signed, p.addProof now context (ring.addProof clock) = (.ok (), signed) := by
  have hnone : (Dict.ofList p.members).get? proofName = none := by
    rw [get?_proofName hp hcustom, proofMember, hproofs]
    rfl
  obtain ⟨q, hq⟩ := exists_signDocument (fun _ => ordered_of_mem_members hp) hnone hdepth hselect clock
  exact ⟨_, addProof_eq_ok.mpr ⟨[q], hq, rfl⟩⟩

theorem Signed.ordered {p signed : Presentation} (hp : p.Ordered) {ring : Keyring} {now : Timestamp}
    {context : ProofContext} (h : Signed ring now context p signed) : signed.Ordered := by
  obtain ⟨q, hq, rfl⟩ := h.proofs
  refine ⟨hp.context, hp.holder, hp.credentials, ?_, hp.custom⟩
  rw [List.forall_mem_append, List.forall_mem_singleton]
  exact ⟨hp.proofs, hq.ordered⟩

/-- A presentation passes if it is not nested too deep, has a proof of the type, and each of those is accepted. -/
theorem verify_eq_ok {p : Presentation} (hp : p.Ordered) (hcustom : p.custom.get? proofName = none)
    {resolve : Resolver} {clock : Timestamp} {o : VerificationOptions}
    (hverifier : o.verifier = some (verifyProof resolve clock)) :
    p.verify (some o) = .ok () ↔
      (Value.object p.members).depth ≤ Json.nestingLimit ∧ (∃ q ∈ p.proofs, DataIntegrityEntry q.members) ∧
        ∀ q ∈ p.proofs, DataIntegrityEntry q.members →
          Accepted resolve clock o.toOptions (unsecured (Dict.ofList p.members)) q.members :=
  verifyDocument_eq_ok (fun _ => ordered_of_mem_members hp) (decodeProofs_members hp hcustom) hverifier

end Presentation

end Attest
