import Attest.Proofs.Document.SignVerify
import Attest.Proofs.Document.Verdict

/-!
Entries judged alone. An entry of a document is at fault exactly if a document with this entry as its only proof
is, whatever its neighbours are and whether it stands bare or in an array.
-/

namespace Attest

open Json (Object Value)

variable {resolve : Resolver} {now : Timestamp} {o : ProofOptions}

/-- The text of an object without proofs to which a member `proof` is added. -/
def withOnlyProof (content : Object) (proof : Value) : Bytes :=
  (Value.object (content.insert proofName proof)).bytes

/-- A text that reads as an object without proofs to which a single entry is added, bare or in an array. -/
def HoldsOnly (text : Bytes) (content : Object) (entry : Value) : Prop :=
  ∃ members, parseDocument text = .ok members ∧ unsecured members = content ∧
    (members.get? proofName = some entry ∨ members.get? proofName = some (.array [entry]))

/-- What is wrong with an entry: that it is not an object, or, if it is of the type, why a document with this
entry as its only proof does not pass. -/
def entryFault (resolve : Resolver) (now : Timestamp) (o : ProofOptions) (content : Object) :
    Value → Option VerificationError
  | .object members =>
    if isDataIntegrityEntry members then
      failure? (verifyProof resolve now (withOnlyProof content (.object members)) o)
    else none
  | v => some (.malformedProof (.entryNotObject v.kind))

/-- An entry of a document can be put alone. -/
theorem holdsOnly_withOnlyProof {document : Bytes} {members : Object} (h : parseDocument document = .ok members)
    {entries : List Value} (hproof : members.get? proofName = some (.array entries)) {entry : Value}
    (hentry : entry ∈ entries) :
    HoldsOnly (withOnlyProof (unsecured members) entry) (unsecured members) entry := by
  obtain ⟨hordered, hdepth⟩ := Json.ordered_of_parse (parseDocument_eq_ok.mp h)
  have hmember := Dict.mem_of_get? hproof
  have hentryOrdered := Value.ordered_array.mp ((Value.ordered_object.mp hordered).2 _ hmember) entry hentry
  have hentryDepth : entry.depth ≤ Json.nestingLimit - 1 :=
    Nat.le_succ_of_le (Value.depth_array_le.mp (Value.depth_object_le.mp hdepth _ hmember) entry hentry)
  have halone := ordered_insert (ordered_erase hordered proofName) proofName hentryOrdered
  obtain ⟨hunsecured, hmembers⟩ := Value.ordered_object.mp halone
  refine ⟨_, (parseDocument_object hmembers).mpr ⟨Value.depth_object_le.mpr fun member hmem => ?_, rfl⟩, ?_, ?_⟩
  · rcases Dict.mem_insert hmem with rfl | hrest
    · exact hentryDepth
    · exact Value.depth_object_le.mp hdepth member (Dict.mem_of_mem_erase hrest)
  · rw [Dict.ofList_of_ascending hunsecured]
    exact (Dict.erase_insert _ _ _).trans (Dict.erase_erase _ _)
  · rw [Dict.ofList_of_ascending hunsecured]
    exact .inl (Dict.get?_insert_self ..)

/-- How a single object stands under `proof` does not matter, and how the text is laid out neither. -/
theorem HoldsOnly.heldEntries {text : Bytes} {content entry : Object} (h : HoldsOnly text content (.object entry)) :
    ∃ members, parseDocument text = .ok members ∧ unsecured members = content ∧
      heldEntries members = [.object entry] := by
  obtain ⟨members, hparse, hcontent, hbare | harray⟩ := h
  · exact ⟨members, hparse, hcontent, heldEntries_object hbare⟩
  · exact ⟨members, hparse, hcontent, heldEntries_array harray⟩

theorem HoldsOnly.verifyProof_eq {text text' : Bytes} {content entry : Object}
    (h : HoldsOnly text content (.object entry)) (h' : HoldsOnly text' content (.object entry)) :
    verifyProof resolve now text o = verifyProof resolve now text' o := by
  obtain ⟨members, hparse, hcontent, hentries⟩ := h.heldEntries
  obtain ⟨members', hparse', hcontent', hentries'⟩ := h'.heldEntries
  exact verifyProof_congr hparse hparse' (hcontent.trans hcontent'.symm) (hentries.trans hentries'.symm)

theorem HoldsOnly.verifyProof_eq_check {text : Bytes} {content entry : Object} (htype : o.isDataIntegrity = true)
    (h : HoldsOnly text content (.object entry)) (htyped : isDataIntegrityEntry entry = true) :
    verifyProof resolve now text o = verifyEntry resolve now o content entry := by
  obtain ⟨members, hparse, rfl, hentries⟩ := h.heldEntries
  rw [verifyProof_eq_verdict htype hparse, hentries, verdict_singleton htyped]

/-- The check of an entry finds what a document with this entry as its only proof shows. -/
theorem faultOf_eq_entryFault {document : Bytes} {members : Object} (htype : o.isDataIntegrity = true)
    (h : parseDocument document = .ok members) {entries : List Value}
    (hproof : members.get? proofName = some (.array entries)) {entry : Value} (hentry : entry ∈ entries) :
    faultOf (verifyEntry resolve now o (unsecured members)) entry =
      entryFault resolve now o (unsecured members) entry := by
  cases entry with
  | object entry =>
      rw [faultOf, entryFault]
      split
      · rename_i htyped
        rw [(holdsOnly_withOnlyProof h hproof hentry).verifyProof_eq_check htype htyped]
      · rfl
  | _ => rfl

/-- The verdict on a document with an array of entries is the first fault, where each entry is judged by what the
document with this entry as its only proof shows, and without a fault it is whether there is an entry of the
type. A single entry may stand bare or in an array. So entries of other types can come, go and move without any
change, and the order of the entries does not decide whether the document passes. -/
theorem verifyProof_judges_entries (resolve : Resolver) (now : Timestamp) (o : ProofOptions)
    (htype : o.proofType = ProofOptions.dataIntegrityProof) {document : Bytes} {members : Object}
    (hdocument : parseDocument document = .ok members) {entries : List Value}
    (hproof : Dict.get? members proofName = some (.array entries)) :
    verifyProof resolve now document o =
      (entries.findSome? (entryFault resolve now o (unsecured members))).elim
        (if entries.any isDataIntegrityValue then .ok () else .error .missingProof) .error ∧
    (∀ entry, Value.object entry ∈ entries →
      HoldsOnly (withOnlyProof (unsecured members) (.object entry)) (unsecured members) (.object entry) ∧
      ∀ text, HoldsOnly text (unsecured members) (.object entry) →
        verifyProof resolve now text o =
          verifyProof resolve now (withOnlyProof (unsecured members) (.object entry)) o) ∧
    ∀ document' members' entries', parseDocument document' = .ok members' →
      Dict.get? members' proofName = some (.array entries') → unsecured members' = unsecured members →
      (entries'.filter (fun entry => !isForeign entry) = entries.filter (fun entry => !isForeign entry) →
        verifyProof resolve now document' o = verifyProof resolve now document o) ∧
      (entries'.Perm entries →
        (verifyProof resolve now document' o = .ok () ↔ verifyProof resolve now document o = .ok ())) := by
  have hintegrity : o.isDataIntegrity = true := beq_iff_eq.mpr htype
  have hverdict {text : Bytes} {parsed : Object} (hparse : parseDocument text = .ok parsed) {held : List Value}
      (hheld : Dict.get? parsed proofName = some (.array held)) :
      verifyProof resolve now text o = verdict (verifyEntry resolve now o (unsecured parsed)) held := by
    rw [verifyProof_eq_verdict hintegrity hparse, heldEntries_array hheld]
  refine ⟨?_, fun entry hentry => ?_, fun document' members' entries' hdocument' hproof' hcontent => ⟨?_, ?_⟩⟩
  · rw [hverdict hdocument hproof, verdict_eq, findSome?_eq_of_forall_mem fun entry hentry =>
      faultOf_eq_entryFault hintegrity hdocument hproof hentry]
  · have halone := holdsOnly_withOnlyProof hdocument hproof hentry
    exact ⟨halone, fun text htext => htext.verifyProof_eq halone⟩
  · intro hfilter
    rw [hverdict hdocument' hproof', hverdict hdocument hproof, hcontent, ← verdict_filter, hfilter, verdict_filter]
  · intro hperm
    rw [hverdict hdocument' hproof', hverdict hdocument hproof, hcontent]
    exact verdict_perm hperm

namespace Sample

/-- An object of another type, a proof without a value, and an entry that is no object. -/
def entries : List Value :=
  [.object [("type", .string "Other")], .object [("type", .string ProofOptions.dataIntegrityProof)], .bool true]

/-- The object with these entries under `proof`. -/
def holding (entries : List Value) : Object := [("proof", .array entries)]

theorem parseDocument_holding {entries : List Value} (hordered : ∀ entry ∈ entries, entry.Ordered)
    (hdepth : (Value.object (holding entries)).depth ≤ Json.nestingLimit) :
    parseDocument (Value.object (holding entries)).bytes = .ok (holding entries) := by
  refine (parseDocument_object ?_).mpr ⟨hdepth, rfl⟩
  exact List.forall_mem_singleton.mpr (Value.ordered_array.mpr hordered)

end Sample

open Sample in
/-- Of two entries at fault the first decides, and when their order is turned around the other one does. -/
theorem verifyProof_judges_entries_sample :
    verifyProof Keyring.empty.directory.resolve newYear (Value.object (holding entries)).bytes
        (context.resolve newYear).toOptions = .error (.malformedProof (.missing "proofValue")) ∧
    verifyProof Keyring.empty.directory.resolve newYear (Value.object (holding entries.reverse)).bytes
        (context.resolve newYear).toOptions = .error (.malformedProof (.entryNotObject "boolean")) := by
  have hordered : ∀ entry ∈ entries, entry.Ordered := by
    simp [entries, Value.Ordered, Value.OrderedMembers, Value.OrderedMember, Dict.Ascending]
  have hordered' : ∀ entry ∈ entries.reverse, entry.Ordered := fun entry hentry =>
    hordered entry (List.mem_reverse.mp hentry)
  have hparse := parseDocument_holding hordered (by decide)
  have hparse' := parseDocument_holding hordered' (by decide)
  obtain ⟨hverdict, -⟩ := verifyProof_judges_entries Keyring.empty.directory.resolve newYear
    (context.resolve newYear).toOptions rfl hparse rfl
  obtain ⟨hverdict', -⟩ := verifyProof_judges_entries Keyring.empty.directory.resolve newYear
    (context.resolve newYear).toOptions rfl hparse' rfl
  rw [hverdict, hverdict', ← findSome?_eq_of_forall_mem fun entry hentry =>
    faultOf_eq_entryFault rfl hparse rfl hentry, ← findSome?_eq_of_forall_mem fun entry hentry =>
    faultOf_eq_entryFault rfl hparse' rfl hentry]
  exact ⟨rfl, rfl⟩

end Attest
