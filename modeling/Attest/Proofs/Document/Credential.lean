import Attest.Proofs.Document.Calls
import Attest.Proofs.Document.Verification

/-!
Credentials as they are made, read and signed. The object of a credential is in order and holds the
proofs of the credential, which is so when a credential is made or read and stays so when a proof is
attached; an attached proof changes nothing else in it.
-/

namespace Attest

open Json (Object Value)

/-- Every value of one or many is in order. -/
def OneOrMany.Ordered (m : OneOrMany Value) : Prop := ∀ v ∈ m.toList, v.Ordered

/-- Every value in the contents is in order. -/
structure CredentialContents.Ordered (c : CredentialContents) : Prop where
  context : c.context.Ordered
  issuer : ∀ v ∈ c.issuer, v.Ordered
  subject : ∀ v ∈ c.subject, v.Ordered
  custom : (Value.object c.custom).Ordered

theorem ordered_string (s : String) : (Value.string s).Ordered := trivial

theorem ordered_timeJson (t : Timestamp) : (timeJson t).Ordered := ordered_string t.text

theorem ordered_toJson {m : OneOrMany Value} (h : m.Ordered) : (m.toJson fun v => v).Ordered := by
  cases m with
  | many values =>
      rw [OneOrMany.toJson, List.map_id', Value.ordered_array]
      exact h
  | one v => exact h v (List.mem_singleton_self v)

theorem ordered_of_mem_manyMember {name : String} {m : OneOrMany Value} (h : m.Ordered)
    {member : String × Value} (hmember : member ∈ manyMember name (fun v => v) m) :
    member.1 = name ∧ member.2.Ordered := by
  rw [manyMember] at hmember
  split at hmember
  · cases hmember
  · rw [List.mem_singleton.mp hmember]
    exact ⟨rfl, ordered_toJson h⟩

theorem ordered_of_mem_manyString {name : String} {m : OneOrMany String} {member : String × Value}
    (hmember : member ∈ manyMember name Value.string m) : member.1 = name ∧ member.2.Ordered := by
  rw [manyMember] at hmember
  split at hmember
  · cases hmember
  · rw [List.mem_singleton.mp hmember]
    refine ⟨rfl, ?_⟩
    cases m with
    | many values =>
        rw [OneOrMany.toJson, Value.ordered_array, List.forall_mem_map]
        intro s _
        exact ordered_string s
    | one s => exact ordered_string s

theorem ordered_of_mem_optionalMember {α : Type} {name : String} {encode : α → Value} {value : Option α}
    (h : ∀ x ∈ value, (encode x).Ordered) {member : String × Value}
    (hmember : member ∈ optionalMember name encode value) : member.1 = name ∧ member.2.Ordered := by
  rw [optionalMember] at hmember
  obtain ⟨x, hx, rfl⟩ := List.mem_map.mp hmember
  exact ⟨rfl, h x (Option.mem_toList.mp hx)⟩

namespace Credential

/-- A credential whose object is in order and holds its proofs. -/
structure Valid (c : Credential) : Prop where
  ordered : (Value.object c.raw).Ordered
  proofs : decodeProofs (Dict.get? c.raw proofName) = .ok c.proofs

/-- A credential that was made from contents without a member `proof`, or read from a text. -/
def Original (c : Credential) : Prop :=
  (∃ contents : CredentialContents, contents.Ordered ∧ contents.custom.get? proofName = none ∧
    c = create contents) ∨ ∃ text, parse text = .ok c

/-- What is written for contents are fields, none of which is `proof`, and custom members. -/
theorem field_or_custom {contents : CredentialContents} (h : contents.Ordered) :
    ∀ member ∈ contents.members, (member.1 ≠ proofName ∧ member.2.Ordered) ∨ member ∈ contents.custom := by
  intro member hmember
  simp only [CredentialContents.members, List.mem_append] at hmember
  rcases hmember with ((((((hcontext | hid) | htypes) | hissuer) | hissued) | hexpires) | hsubject) | hcustom
  · obtain ⟨hname, hordered⟩ := ordered_of_mem_manyMember h.context hcontext
    exact .inl ⟨by rw [hname]; decide, hordered⟩
  · obtain ⟨hname, hordered⟩ := ordered_of_mem_optionalMember (fun id _ => ordered_string id) hid
    exact .inl ⟨by rw [hname]; decide, hordered⟩
  · obtain ⟨hname, hordered⟩ := ordered_of_mem_manyString htypes
    exact .inl ⟨by rw [hname]; decide, hordered⟩
  · obtain ⟨hname, hordered⟩ := ordered_of_mem_optionalMember h.issuer hissuer
    exact .inl ⟨by rw [hname]; decide, hordered⟩
  · obtain ⟨hname, hordered⟩ := ordered_of_mem_optionalMember (fun t _ => ordered_timeJson t) hissued
    exact .inl ⟨by rw [hname]; decide, hordered⟩
  · obtain ⟨hname, hordered⟩ := ordered_of_mem_optionalMember (fun t _ => ordered_timeJson t) hexpires
    exact .inl ⟨by rw [hname]; decide, hordered⟩
  · obtain ⟨hname, hordered⟩ := ordered_of_mem_optionalMember h.subject hsubject
    exact .inl ⟨by rw [hname]; decide, hordered⟩
  · exact .inr hcustom

theorem ordered_of_mem_members {contents : CredentialContents} (h : contents.Ordered) :
    ∀ member ∈ contents.members, member.2.Ordered := by
  intro member hmember
  rcases field_or_custom h member hmember with hfield | hcustom
  · exact hfield.2
  · exact (Value.ordered_object.mp h.custom).2 member hcustom

theorem ne_proofName_of_mem_members {contents : CredentialContents} (h : contents.Ordered)
    (hproof : contents.custom.get? proofName = none) : ∀ member ∈ contents.members, member.1 ≠ proofName := by
  intro member hmember
  rcases field_or_custom h member hmember with hfield | hcustom
  · exact hfield.1
  · intro hname
    have hget := Dict.get?_of_mem (Value.ordered_object.mp h.custom).1 hcustom
    rw [hname, hproof] at hget
    cases hget

theorem valid_create {contents : CredentialContents} (h : contents.Ordered)
    (hproof : contents.custom.get? proofName = none) : (create contents).Valid := by
  refine ⟨ordered_ofList (ordered_of_mem_members h), ?_⟩
  have hnone : Dict.get? (create contents).raw proofName = none :=
    Dict.get?_eq_none fun entry hentry =>
      ne_proofName_of_mem_members h hproof entry (Dict.mem_of_mem_ofList hentry)
  rw [hnone]
  rfl

theorem valid_parse {text : Bytes} {c : Credential} (h : parse text = .ok c) : c.Valid := by
  obtain ⟨v, hv, h⟩ := bind_eq_ok.mp h
  cases v with
  | object raw =>
      obtain ⟨proofs, hproofs, h⟩ := bind_eq_ok.mp h
      obtain ⟨contents, -, h⟩ := bind_eq_ok.mp h
      cases h
      exact ⟨(Json.ordered_of_parse (mapError_eq_ok.mp hv)).1, mapError_eq_ok.mp hproofs⟩
  | _ => cases h

theorem Original.valid {c : Credential} (h : c.Original) : c.Valid := by
  rcases h with ⟨contents, hordered, hproof, rfl⟩ | ⟨text, hparse⟩
  · exact valid_create hordered hproof
  · exact valid_parse hparse

/-- What attaching a proof that a keyring makes does to a credential. -/
structure Signed (ring : Keyring) (now : Timestamp) (context : ProofContext) (c signed : Credential) : Prop where
  proofs : ∃ p, Makes ring now context (unsecured c.raw) p ∧ signed.proofs = c.proofs ++ [p]
  raw : signed.raw = Dict.insert c.raw proofName (encodeProofs signed.proofs)
  contents : signed.contents = c.contents
  depth : (Value.object signed.raw).depth ≤ Json.nestingLimit

theorem signed_of_addProof {c signed : Credential} (hc : c.Valid) {ring : Keyring} {now clock : Timestamp}
    {context : ProofContext} (h : c.addProof now context (ring.addProof clock) = (.ok (), signed)) :
    Signed ring now context c signed := by
  obtain ⟨hascending, hordered⟩ := Value.ordered_object.mp hc.ordered
  obtain ⟨after, hafter, rfl⟩ := addProof_eq_ok.mp h
  have hraw : Dict.ofList c.raw = c.raw := Dict.ofList_of_ascending hascending
  have hbefore : decodeProofs ((Dict.ofList c.raw).get? proofName) = .ok c.proofs := by rw [hraw, hc.proofs]
  obtain ⟨hdepth, p, hp, rfl, hnested⟩ := (signDocument_eq_ok hordered hbefore).mp hafter
  have hdepthProofs := Nat.le_trans (depth_encodeProofs_append_le hbefore p) hnested
  rw [hraw] at hp
  have hafterRaw : (c.replaceProofs (c.proofs ++ [p])).raw =
      Dict.insert c.raw proofName (encodeProofs (c.proofs ++ [p])) := if_neg (by simp)
  refine ⟨⟨p, hp, rfl⟩, hafterRaw, rfl, Value.depth_object_le.mpr fun member hmember => ?_⟩
  rw [hafterRaw] at hmember
  rcases Dict.mem_insert hmember with rfl | hmem
  · exact hdepthProofs
  · exact Value.depth_object_le.mp hdepth member hmem

/-- A credential without proofs can be signed with any key that is selected. -/
theorem exists_addProof {c : Credential} (hc : c.Valid) (hnone : Dict.get? c.raw proofName = none)
    (hdepth : (Value.object c.raw).depth ≤ Json.nestingLimit) {ring : Keyring} {now : Timestamp}
    {context : ProofContext} {suite : Cryptosuite} {key : KeyPair}
    (hselect : ring.select (context.resolve now).toOptions = .ok (suite, key)) (clock : Timestamp) :
    ∃ signed, c.addProof now context (ring.addProof clock) = (.ok (), signed) := by
  obtain ⟨hascending, hordered⟩ := Value.ordered_object.mp hc.ordered
  have hraw : Dict.ofList c.raw = c.raw := Dict.ofList_of_ascending hascending
  obtain ⟨p, hp⟩ := exists_signDocument hordered (by rw [hraw, hnone]) hdepth hselect clock
  exact ⟨_, addProof_eq_ok.mpr ⟨[p], hp, rfl⟩⟩

theorem Signed.valid {c signed : Credential} (hc : c.Valid) {ring : Keyring} {now : Timestamp}
    {context : ProofContext} (h : Signed ring now context c signed) : signed.Valid := by
  obtain ⟨p, hp, hproofs⟩ := h.proofs
  have hordered : ∀ q ∈ signed.proofs, q.toJson.Ordered := by
    rw [hproofs, List.forall_mem_append, List.forall_mem_singleton]
    exact ⟨ordered_of_decodeProofs hc.ordered hc.proofs, hp.ordered⟩
  refine ⟨?_, ?_⟩
  · rw [h.raw]
    exact ordered_insert hc.ordered _ (ordered_encodeProofs.mpr hordered)
  · rw [h.raw, Dict.get?_insert_self, decodeProofs_encodeProofs]

theorem Signed.unsecured {c signed : Credential} {ring : Keyring} {now : Timestamp} {context : ProofContext}
    (h : Signed ring now context c signed) : unsecured signed.raw = Attest.unsecured c.raw := by
  rw [h.raw]
  exact Dict.erase_insert ..

/-- A credential passes if it is not nested too deep, has a proof of the type, and each of those is accepted. -/
theorem verify_eq_ok {c : Credential} (hc : c.Valid) {resolve : Resolver} {clock : Timestamp}
    {o : VerificationOptions} (hverifier : o.verifier = some (verifyProof resolve clock)) :
    c.verify (some o) = .ok () ↔
      (Value.object c.raw).depth ≤ Json.nestingLimit ∧ (∃ p ∈ c.proofs, DataIntegrityEntry p.members) ∧
        ∀ p ∈ c.proofs, DataIntegrityEntry p.members →
          Accepted resolve clock o.toOptions (Attest.unsecured c.raw) p.members := by
  obtain ⟨hascending, hordered⟩ := Value.ordered_object.mp hc.ordered
  have hraw : Dict.ofList c.raw = c.raw := Dict.ofList_of_ascending hascending
  have hverify := verifyDocument_eq_ok hordered (by rw [hraw]; exact hc.proofs) hverifier
  rw [hraw] at hverify
  exact hverify

end Credential

end Attest
