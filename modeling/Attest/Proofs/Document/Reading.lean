import Attest.Proofs.Document.SignVerify
import Attest.Proofs.Document.Verdict

/-!
Credentials read from texts. The object of a credential is all of what the text said, so the text that is
written for the credential is read as the same credential and gets the same verdict as the text that was read,
whatever that looked like.
-/

namespace Attest

open Json (Object Value)

/-- What was read from a text is read again from the text that is written for it. -/
theorem Json.parse_bytes_of_parse {text : Bytes} {v : Value} (h : Json.parse text = .ok v) :
    Json.parse v.bytes = .ok v := by
  obtain ⟨hordered, hdepth⟩ := Json.ordered_of_parse h
  rw [Json.parse_bytes v hordered, if_pos hdepth]

/-! ### Members of documents that can be read -/

/-- A value that is in order and not too deep to be the member of a document. -/
def Embeddable (v : Value) : Prop := v.Ordered ∧ v.depth ≤ Json.nestingLimit - 1

theorem embeddable_of_parse {text : Bytes} {members : Object} (h : Json.parse text = .ok (.object members)) :
    Dict.Ascending members ∧ ∀ member ∈ members, Embeddable member.2 := by
  obtain ⟨hordered, hdepth⟩ := Json.ordered_of_parse h
  obtain ⟨hascending, hmembers⟩ := Value.ordered_object.mp hordered
  exact ⟨hascending, fun member hmember =>
    ⟨hmembers member hmember, Value.depth_object_le.mp hdepth member hmember⟩⟩

/-- Embeddable members in any order make a document that is read as the map of its members. -/
theorem parseDocument_of_embeddable {members : List (String × Value)}
    (h : ∀ member ∈ members, Embeddable member.2) :
    parseDocument (Value.object members).bytes = .ok (Dict.ofList members) :=
  (parseDocument_object fun member hmember => (h member hmember).1).mpr
    ⟨Value.depth_object_le.mpr fun member hmember => (h member hmember).2, rfl⟩

/-- Proofs read from an embeddable member are written as one. -/
theorem embeddable_encodeProofs {proof : Option Value} (hproof : ∀ v ∈ proof, Embeddable v) {ps : List Proof}
    (h : decodeProofs proof = .ok ps) : Embeddable (encodeProofs ps) := by
  rcases decodeProofs_eq_ok.mp h with ⟨-, rfl⟩ | ⟨p, rfl, rfl⟩ | rfl
  · exact ⟨trivial, by decide⟩
  · exact hproof _ rfl
  · obtain ⟨hordered, hdepth⟩ := hproof _ rfl
    refine ⟨ordered_encodeProofs.mpr ?_, Nat.le_trans (depth_encodeProofs_le ps) hdepth⟩
    rwa [Value.ordered_array, List.forall_mem_map] at hordered

/-! ### Texts with the same verdict -/

/-- Whoever checks the proofs, if anybody does, finds keys in some way and checks at some time. -/
def ChecksProofs (options : Option VerificationOptions) : Prop :=
  ∀ o ∈ options, ∀ verifier ∈ o.verifier, ∃ resolve clock, verifier = verifyProof resolve clock

/-- Two texts with the same object but for its proofs, and with the same entries, pass or fail alike. -/
theorem verifyDocument_congr {text text' : Bytes} {members members' : Object}
    (h : parseDocument text = .ok members) (h' : parseDocument text' = .ok members')
    (hcontent : unsecured members = unsecured members') (hentries : heldEntries members = heldEntries members')
    {options : Option VerificationOptions} (hoptions : ChecksProofs options) :
    verifyDocument text options = verifyDocument text' options := by
  cases options with
  | none => rfl
  | some o =>
      simp only [verifyDocument]
      cases hverifier : o.verifier with
      | none => rfl
      | some verifier =>
          obtain ⟨resolve, clock, rfl⟩ := hoptions o rfl verifier hverifier
          simp only [verifyProof_congr h h' hcontent hentries]

namespace Credential

/-- A text is a credential if it is an object whose proofs and whose other members can be read. -/
theorem parse_eq_ok {text : Bytes} {c : Credential} :
    parse text = .ok c ↔ Json.parse text = .ok (.object c.raw) ∧
      decodeProofs (Dict.get? c.raw proofName) = .ok c.proofs ∧
      CredentialContents.ofObject (unsecured c.raw) = .ok c.contents := by
  constructor
  · intro h
    obtain ⟨v, hv, h⟩ := bind_eq_ok.mp h
    cases v with
    | object raw =>
        obtain ⟨proofs, hproofs, h⟩ := bind_eq_ok.mp h
        obtain ⟨contents, hcontents, h⟩ := bind_eq_ok.mp h
        cases h
        exact ⟨mapError_eq_ok.mp hv, mapError_eq_ok.mp hproofs, mapError_eq_ok.mp hcontents⟩
    | _ => cases h
  · rintro ⟨hv, hproofs, hcontents⟩
    rw [parse, hv, mapError_ok, ok_bind]
    simp only [hproofs, hcontents, mapError_ok, ok_bind]
    rfl

/-- A credential is read again as it was from the text that is written for it, and that text passes or fails
like the one from which the credential was read. -/
theorem parse_keeps (text : Bytes) (c : Credential) (h : parse text = .ok c) :
    parse c.toBytes = .ok c ∧
      ∀ options, ChecksProofs options → c.verify options = verifyDocument text options := by
  obtain ⟨hread, hproofs, hcontents⟩ := parse_eq_ok.mp h
  have hagain : Json.parse c.toBytes = .ok (.object c.raw) := Json.parse_bytes_of_parse hread
  refine ⟨parse_eq_ok.mpr ⟨hagain, hproofs, hcontents⟩, fun options hoptions => ?_⟩
  exact verifyDocument_congr (parseDocument_eq_ok.mpr hagain) (parseDocument_eq_ok.mpr hread) rfl rfl hoptions

end Credential

namespace Sample

/-- A text with blanks, a repeated name, a date with an offset and a null, and with one proof in an array. -/
def received : Bytes := Bytes.ofString
  ("\x7b \"id\": \"a\", \"issuer\": null, \"issuanceDate\": \"2024-01-01T01:00:00+01:00\", " ++
    "\"id\": \"b\", \"proof\": [\x7b\"type\": \"DataIntegrityProof\"\x7d] \x7d")

end Sample

open Sample in
/-- A text that is not laid out as a credential is written is a credential, and it fails for the same reason. -/
theorem Credential.parse_keeps_received :
    ∃ c, parse received = .ok c ∧ c.toBytes ≠ received ∧ parse c.toBytes = .ok c ∧
      verifyDocument received (some (Keyring.empty.verification newYear "" "" "")) =
        .error (.verification (.malformedProof (.missing "proofValue"))) ∧
      c.verify (some (Keyring.empty.verification newYear "" "" "")) =
        .error (.verification (.malformedProof (.missing "proofValue"))) := by
  have hsome : (parse received).isOk = true := by decide +kernel
  have hwritten : (parse received).map (fun c => decide (c.toBytes = received)) = .ok false := by decide +kernel
  have hfails : verifyDocument received (some (Keyring.empty.verification newYear "" "" "")) =
      .error (.verification (.malformedProof (.missing "proofValue"))) := by decide +kernel
  cases h : parse received with
  | error e =>
      rw [h] at hsome
      cases hsome
  | ok c =>
      obtain ⟨hagain, hverify⟩ := parse_keeps received c h
      have hchecks : ChecksProofs (some (Keyring.empty.verification newYear "" "" "")) := by
        rintro _ ⟨⟩ _ ⟨⟩
        exact ⟨_, _, rfl⟩
      rw [h] at hwritten
      refine ⟨c, rfl, ?_, hagain, hfails, by rw [hverify _ hchecks, hfails]⟩
      exact of_decide_eq_false (Except.ok.inj hwritten)

end Attest
