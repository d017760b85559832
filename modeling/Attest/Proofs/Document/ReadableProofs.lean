import Attest.Proofs.Document.SignVerify
import Attest.Proofs.Document.Verdict

/-!
What the verifier accepts, as the reader of proofs finds it. The verifier passes over every object that is not of its
type, even one without any type, while the reader wants a type of each entry. So the proofs of a document that passes
are read exactly if all its entries have a type, and then those that were checked stand among them in their order.
-/

namespace Attest

open Json (Object Value)

/-! ### Entries without a type -/

/-- Whether an entry is an object without a text under `type`. -/
def isUntyped : Value → Bool
  | .object members => (typeText? members).isNone
  | _ => false

theorem Proof.ofEntry_of_untyped (index : Nat) {members : Object} (h : isUntyped (.object members) = true) :
    ofEntry index members = .error (.missingType index) := by
  have htype : (typeText? members).isSome = false := Option.isSome_eq_false_iff.mpr h
  rw [ofEntry, dif_neg (by simp [htype])]

theorem Proof.exists_ofEntry (index : Nat) {members : Object} (h : isUntyped (.object members) = false) :
    ∃ p, ofEntry index members = .ok p := by
  have htype : (typeText? members).isSome = true := Option.isNone_eq_false_iff.mp h
  exact ⟨⟨members, htype⟩, ofEntry_eq_ok.mpr rfl⟩

/-- Of entries that are objects the first one without a type is reported, and without such an entry all are read. -/
theorem decodeEntries_of_objects {entries : List Value}
    (hobjects : ∀ entry ∈ entries, ∃ members, entry = .object members) (start : Nat) :
    (∀ index, entries.findIdx? isUntyped = some index →
      decodeEntries start entries = .error (.missingType (start + index))) ∧
    (entries.findIdx? isUntyped = none → ∃ ps, decodeEntries start entries = .ok ps) := by
  induction entries generalizing start with
  | nil =>
      refine ⟨fun index hindex => ?_, fun _ => ⟨[], rfl⟩⟩
      cases hindex
  | cons entry entries ih =>
      rw [List.forall_mem_cons] at hobjects
      obtain ⟨⟨members, rfl⟩, hrest⟩ := hobjects
      obtain ⟨ihmissing, ihread⟩ := ih hrest (start + 1)
      rw [List.findIdx?_cons, decodeEntries]
      cases huntyped : isUntyped (.object members) with
      | true =>
          rw [Proof.ofEntry_of_untyped start huntyped]
          constructor
          · rintro index ⟨⟩
            rfl
          · intro hnone
            cases hnone
      | false =>
          obtain ⟨p, hp⟩ := Proof.exists_ofEntry start huntyped
          rw [hp, ok_bind]
          constructor
          · intro index hindex
            obtain ⟨place, hplace, rfl⟩ := Option.map_eq_some_iff.mp hindex
            rw [ihmissing place hplace, Nat.add_assoc, Nat.add_comm 1]
            rfl
          · intro hnone
            obtain ⟨ps, hps⟩ := ihread (Option.map_eq_none_iff.mp hnone)
            rw [hps]
            exact ⟨p :: ps, rfl⟩

/-- Objects are read alike whether one stands bare or they stand in an array. -/
theorem decodeProofs_eq_decodeEntries {members : Object} {proof : Value} (h : proofOf members = some proof)
    (hobjects : ∀ entry ∈ proofEntries proof, ∃ entryMembers, entry = .object entryMembers) :
    decodeProofs (members.get? proofName) = decodeEntries 0 (proofEntries proof) := by
  rw [(proofOf_eq_some.mp h).1]
  cases proof with
  | array entries => rfl
  | object entry =>
      show (Proof.ofEntry 0 entry >>= _) = (Proof.ofEntry 0 entry >>= _)
      cases Proof.ofEntry 0 entry <;> rfl
  | _ =>
      obtain ⟨_, heq⟩ := hobjects _ (List.mem_singleton_self _)
      cases heq

/-! ### Documents that pass -/

variable {resolve : Resolver} {now : Timestamp} {document : Bytes} {o : ProofOptions}

/-- The entries of a document that passes. -/
structure Passed (resolve : Resolver) (now : Timestamp) (o : ProofOptions) (members : Object) : Prop where
  objects : ∀ entry ∈ heldEntries members, ∃ entryMembers, entry = .object entryMembers
  checked : (heldEntries members).filter isDataIntegrityValue ≠ []
  accepted : ∀ entry, Value.object entry ∈ heldEntries members → DataIntegrityEntry entry →
    Accepted resolve now o (unsecured members) entry
  decoded : decodeProofs (members.get? proofName) = decodeEntries 0 (heldEntries members)

theorem passed_of_verifyProof (h : verifyProof resolve now document o = .ok ()) :
    ∃ members, parseDocument document = .ok members ∧ Passed resolve now o members := by
  obtain ⟨-, members, proof, hparse, hproof, hpasses, entry, hentry, htyped⟩ := verifyProof_eq_ok.mp h
  have hheld : heldEntries members = proofEntries proof := by rw [heldEntries, hproof, Option.elim_some]
  have hobjects : ∀ entry ∈ proofEntries proof, ∃ entryMembers, entry = .object entryMembers := by
    intro entry hentry
    obtain ⟨entryMembers, heq, -⟩ := hpasses entry hentry
    exact ⟨entryMembers, heq⟩
  refine ⟨members, hparse, hheld ▸ hobjects, ?_, ?_, ?_⟩
  · rw [hheld]
    exact List.ne_nil_of_mem (List.mem_filter.mpr ⟨hentry, htyped⟩)
  · intro entry hentry htype
    obtain ⟨_, heq, hcheck⟩ := hpasses _ (hheld ▸ hentry)
    cases heq
    exact verifyEntry_eq_ok.mp (hcheck htype)
  · rw [hheld]
    exact decodeProofs_eq_decodeEntries hproof hobjects

theorem filter_map_toJson (ps : List Proof) :
    (ps.map Proof.toJson).filter isDataIntegrityValue =
      (ps.filter fun p => isDataIntegrityEntry p.members).map Proof.toJson := by
  rw [List.filter_map]
  rfl

/-- The proofs of a document that passes are read exactly if each of its entries has a type; otherwise the first one
without a type is reported. What is read is all entries in their order, so the entries that were checked are read in
their order too, there are some, and each of them is accepted. -/
theorem verified_read_iff_typed (h : verifyProof resolve now document o = .ok ()) :
    ∃ members, parseDocument document = .ok members ∧
      ((∃ ps, decodeProofs (members.get? proofName) = .ok ps) ↔
        ∀ entry ∈ heldEntries members, isUntyped entry = false) ∧
      (∀ index, decodeProofs (members.get? proofName) = .error (.missingType index) ↔
        (heldEntries members).findIdx? isUntyped = some index) ∧
      ∀ ps, decodeProofs (members.get? proofName) = .ok ps →
        ps.map Proof.toJson = heldEntries members ∧
        (ps.filter fun p => isDataIntegrityEntry p.members).map Proof.toJson =
          (heldEntries members).filter isDataIntegrityValue ∧
        (heldEntries members).filter isDataIntegrityValue ≠ [] ∧
        ∀ p ∈ ps, DataIntegrityEntry p.members → Accepted resolve now o (unsecured members) p.members := by
  obtain ⟨members, hparse, hpassed⟩ := passed_of_verifyProof h
  obtain ⟨hmissing, hread⟩ := decodeEntries_of_objects hpassed.objects 0
  simp only [Nat.zero_add] at hmissing
  rw [← hpassed.decoded] at hmissing hread
  refine ⟨members, hparse, ?_, fun index => ⟨fun hfailed => ?_, hmissing index⟩, fun ps hps => ?_⟩
  · rw [← List.findIdx?_eq_none_iff]
    refine ⟨fun ⟨ps, hps⟩ => ?_, hread⟩
    cases hfound : (heldEntries members).findIdx? isUntyped with
    | none => rfl
    | some index => cases hps.symm.trans (hmissing index hfound)
  · cases hfound : (heldEntries members).findIdx? isUntyped with
    | none =>
        obtain ⟨ps, hps⟩ := hread hfound
        cases hps.symm.trans hfailed
    | some place =>
        cases (hmissing place hfound).symm.trans hfailed
        rfl
  · have hentries := heldEntries_of_decodeProofs hps
    refine ⟨hentries.symm, by rw [hentries, filter_map_toJson], hpassed.checked, fun p hp htyped => ?_⟩
    exact hpassed.accepted p.members (hentries ▸ List.mem_map_of_mem hp) htyped

/-! ### A proof with a neighbour -/

namespace Sample

/-- A proof of the members that are neither fields nor proofs. -/
def made : Proof where
  members := makeProof key (proofConfiguration (context.resolve newYear).toOptions .eddsa2022 newYear) custom
  typed := typed_makeProof ..

/-- A document that holds this proof and another object behind it. -/
def beside (neighbour : Object) : Object := custom ++ [(proofName, .array [made.toJson, .object neighbour])]

/-- The options of whoever asks for proofs with all defaults. -/
def asked : ProofOptions := ((Keyring.ofRegistrations registrations).verification newYear "" "" "").toOptions

theorem makes_made : Makes (Keyring.ofRegistrations registrations) newYear context custom made :=
  ⟨.eddsa2022, key, select_context, rfl⟩

theorem accepted_made :
    Accepted (Keyring.ofRegistrations registrations).directory.resolve newYear asked custom made.members := by
  have hresolved := Keyring.resolvedBy_directory (Keyring.ascending_ofRegistrations registrations)
    context.verificationMethod
  exact (makes_made.accepted_iff times_context hresolved soundFor_custom).mpr ⟨rfl, .inl rfl, .inl rfl, nofun⟩

theorem parseDocument_beside {neighbour : Object} (hordered : (Value.object neighbour).Ordered)
    (hdepth : (Value.object neighbour).depth ≤ Json.nestingLimit - 2) :
    parseDocument (Value.object (beside neighbour)).bytes = .ok (beside neighbour) := by
  have hmade : made.toJson.Ordered ∧ made.toJson.depth ≤ Json.nestingLimit - 2 :=
    ⟨ordered_makeProof .., depth_makeProof ..⟩
  have hnames : "name" < proofName := by decide
  have hascending : Dict.Ascending (beside neighbour) :=
    List.pairwise_cons.mpr ⟨List.forall_mem_singleton.mpr hnames, List.pairwise_singleton _ _⟩
  refine (parseDocument_object ?_).mpr ⟨Value.depth_object_le.mpr ?_, (Dict.ofList_of_ascending hascending).symm⟩
  · refine List.forall_mem_append.mpr ⟨(Value.ordered_object.mp ordered_custom).2, List.forall_mem_singleton.mpr ?_⟩
    exact Value.ordered_array.mpr (List.forall_mem_cons.mpr ⟨hmade.1, List.forall_mem_singleton.mpr hordered⟩)
  · refine List.forall_mem_append.mpr ⟨List.forall_mem_singleton.mpr (Nat.zero_le _), List.forall_mem_singleton.mpr ?_⟩
    exact Value.depth_array_le.mpr (List.forall_mem_cons.mpr ⟨hmade.2, List.forall_mem_singleton.mpr hdepth⟩)

/-- The document passes whatever object of another type stands behind its proof. -/
theorem verifyProof_beside {neighbour : Object} (hordered : (Value.object neighbour).Ordered)
    (hdepth : (Value.object neighbour).depth ≤ Json.nestingLimit - 2) (htype : ¬ DataIntegrityEntry neighbour) :
    verifyProof (Keyring.ofRegistrations registrations).directory.resolve newYear
      (Value.object (beside neighbour)).bytes asked = .ok () := by
  have htyped : isDataIntegrityEntry made.members = true := isDataIntegrityEntry_iff.mpr makes_made.typed
  refine verifyProof_eq_ok.mpr ⟨rfl, beside neighbour, _, parseDocument_beside hordered hdepth, rfl, ?_, made.toJson,
    List.mem_cons_self, htyped⟩
  refine List.forall_mem_cons.mpr ⟨⟨_, rfl, fun _ => verifyEntry_eq_ok.mpr accepted_made⟩, ?_⟩
  exact List.forall_mem_singleton.mpr ⟨neighbour, rfl, fun h => absurd h htype⟩

end Sample

open Sample in
/-- An object without a type behind an accepted proof is passed over by the verifier, and stops the reader. -/
theorem verified_unread_untyped :
    verifyProof (Keyring.ofRegistrations registrations).directory.resolve newYear
      (Value.object (beside [])).bytes asked = .ok () ∧
    parseDocument (Value.object (beside [])).bytes = .ok (beside []) ∧
    decodeProofs (Dict.get? (beside []) proofName) = .error (.missingType 1) := by
  have hordered : (Value.object []).Ordered := Value.ordered_object.mpr ⟨Dict.ascending_nil, List.forall_mem_nil _⟩
  refine ⟨verifyProof_beside hordered (by decide) (by rintro ⟨⟩), parseDocument_beside hordered (by decide), ?_⟩
  show decodeEntries 0 [made.toJson, .object []] = _
  rw [Proof.toJson, decodeEntries, Proof.ofEntry_eq_ok.mpr rfl]
  rfl

open Sample in
/-- A proof of another type behind an accepted one is read with it. -/
theorem verified_read_iff_typed_foreign :
    verifyProof (Keyring.ofRegistrations registrations).directory.resolve newYear
      (Value.object (beside [("type", .string "T")])).bytes asked = .ok () ∧
    ∃ ps, decodeProofs (Dict.get? (beside [("type", .string "T")]) proofName) = .ok ps ∧
      ps.map Proof.toJson = [made.toJson, .object [("type", .string "T")]] ∧
      (ps.filter fun p => isDataIntegrityEntry p.members).map Proof.toJson = [made.toJson] := by
  have hordered : (Value.object [("type", .string "T")]).Ordered :=
    Value.ordered_object.mpr ⟨List.pairwise_singleton _ _, List.forall_mem_singleton.mpr trivial⟩
  have htype : ¬ DataIntegrityEntry [("type", .string "T")] := by
    rw [← isDataIntegrityEntry_iff]
    decide
  have hverified := verifyProof_beside hordered (by decide) htype
  obtain ⟨members, hparse, hread, -, hall⟩ := verified_read_iff_typed hverified
  cases (parseDocument_beside hordered (by decide)).symm.trans hparse
  have htyped : ∀ entry ∈ [made.toJson, .object [("type", .string "T")]], isUntyped entry = false :=
    List.forall_mem_cons.mpr ⟨Option.isNone_eq_false_iff.mpr made.typed, List.forall_mem_singleton.mpr rfl⟩
  obtain ⟨ps, hps⟩ := hread.mpr htyped
  obtain ⟨hentries, hchecked, -⟩ := hall ps hps
  have hmade : isDataIntegrityValue made.toJson = true := isDataIntegrityEntry_iff.mpr makes_made.typed
  refine ⟨hverified, ps, hps, hentries, hchecked.trans ?_⟩
  show List.filter isDataIntegrityValue [made.toJson, .object [("type", .string "T")]] = _
  rw [List.filter_cons_of_pos hmade]
  rfl

end Attest
