import Attest.Proofs.Document.Attachment

/-!
The verdict on a document. It depends only on the object without its proofs and on the entries of the member
`proof`. The first entry that is at fault decides it, entries of other types do not count, and whether there
is a fault does not depend on the order.
-/

namespace Attest

open Json (Object Value)

/-! ### What the verdict depends on -/

/-- The entries under `proof`, of which there are none if the member is absent or null. -/
def heldEntries (members : Object) : List Value := (proofOf members).elim [] proofEntries

/-- The checks of entries in order, at least one of which must have been made. -/
def verdict (check : Object → Except VerificationError Unit) (entries : List Value) :
    Except VerificationError Unit := do
  let checked ← verifyEntries check entries
  if checked = 0 then throw .missingProof

variable {resolve : Resolver} {now : Timestamp} {o : ProofOptions}

theorem verifyProof_eq_verdict {document : Bytes} {members : Object} (htype : o.isDataIntegrity = true)
    (h : parseDocument document = .ok members) :
    verifyProof resolve now document o =
      verdict (verifyEntry resolve now o (unsecured members)) (heldEntries members) := by
  simp only [verifyProof, htype, if_true, h, mapError_ok, ok_bind]
  rw [heldEntries]
  cases proofOf members <;> rfl

/-- Two texts with the same object but for its proofs, and with the same entries, get the same verdict. -/
theorem verifyProof_congr {document document' : Bytes} {members members' : Object}
    (h : parseDocument document = .ok members) (h' : parseDocument document' = .ok members')
    (hcontent : unsecured members = unsecured members') (hentries : heldEntries members = heldEntries members') :
    verifyProof resolve now document o = verifyProof resolve now document' o := by
  cases htype : o.isDataIntegrity with
  | true => rw [verifyProof_eq_verdict htype h, verifyProof_eq_verdict htype h', hcontent, hentries]
  | false => simp [verifyProof, htype, bind, Except.bind, throw, throwThe, MonadExceptOf.throw]

theorem heldEntries_array {members : Object} {entries : List Value}
    (h : members.get? proofName = some (.array entries)) : heldEntries members = entries := by
  rw [heldEntries, proofOf, h]
  rfl

theorem heldEntries_object {members entry : Object} (h : members.get? proofName = some (.object entry)) :
    heldEntries members = [.object entry] := by
  rw [heldEntries, proofOf, h]
  rfl

theorem heldEntries_of_decodeProofs {members : Object} {ps : List Proof}
    (h : decodeProofs (members.get? proofName) = .ok ps) : heldEntries members = ps.map Proof.toJson := by
  rw [heldEntries]
  rcases proofOf_of_decodeProofs h with ⟨hnone, rfl⟩ | ⟨proof, hproof, hentries⟩
  · rw [hnone]
    rfl
  · rw [hproof]
    exact hentries

/-! ### The first fault -/

theorem findSome?_eq_of_forall_mem {α β : Type} {f g : α → Option β} {l : List α} (h : ∀ a ∈ l, f a = g a) :
    l.findSome? f = l.findSome? g := by
  induction l with
  | nil => rfl
  | cons a l ih =>
      rw [List.forall_mem_cons] at h
      rw [List.findSome?_cons, List.findSome?_cons, h.1, ih h.2]

theorem verdict_eq (check : Object → Except VerificationError Unit) (entries : List Value) :
    verdict check entries = (entries.findSome? (faultOf check)).elim
      (if entries.any isDataIntegrityValue then .ok () else .error .missingProof) .error := by
  rw [verdict, verifyEntries_eq]
  cases entries.findSome? (faultOf check) with
  | some e => rfl
  | none =>
      rw [Option.elim_none, Option.elim_none, ok_bind]
      cases hsome : entries.any isDataIntegrityValue with
      | true =>
          have hpos : 0 < entries.countP isDataIntegrityValue :=
            List.countP_pos_iff.mpr (List.any_eq_true.mp hsome)
          rw [if_neg (Nat.ne_of_gt hpos)]
          rfl
      | false =>
          have hzero : entries.countP isDataIntegrityValue = 0 :=
            List.countP_eq_zero.mpr (by simpa using hsome)
          rw [if_pos hzero]
          rfl

/-- A single entry of the type passes exactly as its members do. -/
theorem verdict_singleton {check : Object → Except VerificationError Unit} {members : Object}
    (h : isDataIntegrityEntry members = true) : verdict check [.object members] = check members := by
  rw [verdict, verifyEntries, if_pos h]
  cases check members <;> rfl

/-- Entries without faults, and one of the type among them, are what it takes to pass. -/
theorem verdict_eq_ok {check : Object → Except VerificationError Unit} {entries : List Value} :
    verdict check entries = .ok () ↔
      (∀ entry ∈ entries, faultOf check entry = none) ∧
        ∃ entry ∈ entries, isDataIntegrityValue entry = true := by
  rw [verdict_eq, ← List.findSome?_eq_none_iff, ← List.any_eq_true]
  cases entries.findSome? (faultOf check) with
  | some e => simp
  | none => cases entries.any isDataIntegrityValue <;> simp

/-! ### Entries of other types, and the order of entries -/

/-- Whether an entry is an object of another type. -/
def isForeign : Value → Bool
  | .object members => !isDataIntegrityEntry members
  | _ => false

/-- Entries of other types do not count. -/
theorem verdict_filter (check : Object → Except VerificationError Unit) (entries : List Value) :
    verdict check (entries.filter fun entry => !isForeign entry) = verdict check entries := by
  have hfault (entry : Value) (h : isForeign entry = true) :
      faultOf check entry = none ∧ isDataIntegrityValue entry = false := by
    cases entry with
    | object members =>
        have htyped : isDataIntegrityEntry members = false := by simpa [isForeign] using h
        rw [faultOf, isDataIntegrityValue, htyped]
        exact ⟨rfl, rfl⟩
    | _ => cases h
  have hsame : (entries.filter fun entry => !isForeign entry).findSome? (faultOf check) =
        entries.findSome? (faultOf check) ∧
      (entries.filter fun entry => !isForeign entry).any isDataIntegrityValue =
        entries.any isDataIntegrityValue := by
    induction entries with
    | nil => exact ⟨rfl, rfl⟩
    | cons entry entries ih =>
        obtain ⟨ihfind, ihany⟩ := ih
        rw [List.filter_cons, List.findSome?_cons, List.any_cons]
        cases hforeign : isForeign entry with
        | true =>
            obtain ⟨hnone, huntyped⟩ := hfault entry hforeign
            rw [hnone, huntyped]
            exact ⟨ihfind, ihany⟩
        | false =>
            simp only [Bool.not_false, if_true, List.findSome?_cons, List.any_cons, ihfind, ihany, and_self]
  rw [verdict_eq, verdict_eq, hsame.1, hsame.2]

theorem verdict_perm {check : Object → Except VerificationError Unit} {entries entries' : List Value}
    (h : entries.Perm entries') : verdict check entries = .ok () ↔ verdict check entries' = .ok () := by
  simp only [verdict_eq_ok, h.mem_iff]

end Attest
