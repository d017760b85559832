import Attest.Document.Proof
import Attest.Proofs.Dict
import Attest.Proofs.Json.Values
import Attest.Proofs.Outcome

/-!
The member `proof` and the proofs that it holds. Proofs are read from exactly three shapes of that
member, a proof put behind them is read behind them, and the member in which they are written back
holds them in the same order.
-/

namespace Attest

open Json (Object Value)

namespace Proof

theorem ofEntry_eq_ok {index : Nat} {members : Object} {p : Proof} :
    ofEntry index members = .ok p ↔ p.members = members := by
  rw [ofEntry]
  split
  · constructor
    · intro h
      cases h
      rfl
    · rintro rfl
      rfl
  · rename_i htyped
    constructor
    · intro h
      cases h
    · intro h
      exact absurd (h ▸ p.typed) htyped

end Proof

/-- Proofs are read from the list of their objects and from no other. -/
theorem decodeEntries_eq_ok {index : Nat} {entries : List Value} {ps : List Proof} :
    decodeEntries index entries = .ok ps ↔ entries = ps.map Proof.toJson := by
  induction entries generalizing index ps with
  | nil =>
      rw [decodeEntries]
      cases ps <;> simp
  | cons entry entries ih =>
      cases entry with
      | object members =>
          rw [decodeEntries]
          simp only [bind_eq_ok, pure_eq_ok, Proof.ofEntry_eq_ok, ih]
          constructor
          · rintro ⟨p, hp, others, rfl, rfl⟩
            rw [List.map_cons, Proof.toJson, hp]
          · intro h
            cases ps with
            | nil => cases h
            | cons p ps =>
                injection h with hhead htail
                injection hhead with hmembers
                exact ⟨p, hmembers.symm, ps, htail, rfl⟩
      | _ =>
          constructor
          · intro h
            cases h
          · intro h
            cases ps with
            | nil => cases h
            | cons p ps =>
                injection h with hhead _
                cases hhead

/-- The shapes of a member `proof` that holds proofs. -/
theorem decodeProofs_eq_ok {proof : Option Value} {ps : List Proof} :
    decodeProofs proof = .ok ps ↔
      ((proof = none ∨ proof = some .null) ∧ ps = []) ∨
      (∃ p, proof = some p.toJson ∧ ps = [p]) ∨ proof = some (.array (ps.map Proof.toJson)) := by
  cases proof with
  | none =>
      rw [decodeProofs, Except.ok.injEq]
      simp [eq_comm]
  | some v =>
      cases v with
      | null =>
          rw [decodeProofs, Except.ok.injEq]
          simp [eq_comm, Proof.toJson]
      | object members =>
          rw [decodeProofs]
          simp only [bind_eq_ok, pure_eq_ok, Proof.ofEntry_eq_ok, Proof.toJson]
          constructor
          · rintro ⟨p, hp, rfl⟩
            exact .inr (.inl ⟨p, by rw [hp], rfl⟩)
          · rintro (⟨hnone | hnull, -⟩ | ⟨p, hp, rfl⟩ | harray)
            · cases hnone
            · cases hnull
            · injection hp with hp
              injection hp with hp
              exact ⟨p, hp.symm, rfl⟩
            · cases harray
      | array entries =>
          rw [decodeProofs, decodeEntries_eq_ok]
          simp [Proof.toJson]
      | _ => simp [decodeProofs, Proof.toJson]

theorem ordered_of_decodeProofs {members : Object} (h : (Value.object members).Ordered) {ps : List Proof}
    (hps : decodeProofs (members.get? proofName) = .ok ps) : ∀ p ∈ ps, p.toJson.Ordered := by
  obtain ⟨-, hmembers⟩ := Value.ordered_object.mp h
  rcases decodeProofs_eq_ok.mp hps with ⟨-, rfl⟩ | ⟨p, hp, rfl⟩ | harray
  · exact List.forall_mem_nil _
  · exact List.forall_mem_singleton.mpr (hmembers _ (Dict.mem_of_get? hp))
  · have hordered := hmembers _ (Dict.mem_of_get? harray)
    rwa [Value.ordered_array, List.forall_mem_map] at hordered

/-- The member in which proofs are written holds them. -/
theorem decodeProofs_encodeProofs (ps : List Proof) : decodeProofs (some (encodeProofs ps)) = .ok ps := by
  rw [decodeProofs_eq_ok]
  match ps with
  | [] => exact .inr (.inr rfl)
  | [p] => exact .inr (.inl ⟨p, rfl, rfl⟩)
  | p :: q :: ps => exact .inr (.inr rfl)

/-- One proof is written as it is, more are written as an array. -/
theorem encodeProofs_shape {ps : List Proof} (h : ps ≠ []) :
    (∃ p, ps = [p] ∧ encodeProofs ps = p.toJson) ∨
      (2 ≤ ps.length ∧ encodeProofs ps = .array (ps.map Proof.toJson)) := by
  match ps with
  | [] => exact absurd rfl h
  | [p] => exact .inl ⟨p, rfl, rfl⟩
  | p :: q :: ps => exact .inr ⟨Nat.le_add_left 2 ps.length, rfl⟩

/-- A document either holds no proof, or a member whose entries are its proofs. -/
theorem proofOf_of_decodeProofs {members : Object} {ps : List Proof}
    (h : decodeProofs (members.get? proofName) = .ok ps) :
    (proofOf members = none ∧ ps = []) ∨
      ∃ proof, proofOf members = some proof ∧ proofEntries proof = ps.map Proof.toJson := by
  rw [proofOf]
  rcases decodeProofs_eq_ok.mp h with ⟨hnone | hnull, rfl⟩ | ⟨p, hp, rfl⟩ | harray
  · rw [hnone]
    exact .inl ⟨rfl, rfl⟩
  · rw [hnull]
    exact .inl ⟨rfl, rfl⟩
  · rw [hp]
    exact .inr ⟨p.toJson, rfl, rfl⟩
  · rw [harray]
    exact .inr ⟨.array (ps.map Proof.toJson), rfl, rfl⟩

/-- A document with a proof more holds either the same member as the one in which all its proofs are written,
or the array of them. -/
theorem appendProof_eq {members : Object} {ps : List Proof} (h : decodeProofs (members.get? proofName) = .ok ps)
    (p : Proof) :
    appendProof (proofOf members) p.toJson = encodeProofs (ps ++ [p]) ∨
      appendProof (proofOf members) p.toJson = .array ((ps ++ [p]).map Proof.toJson) := by
  rw [proofOf]
  rcases decodeProofs_eq_ok.mp h with ⟨hnone | hnull, rfl⟩ | ⟨q, hq, rfl⟩ | harray
  · rw [hnone]
    exact .inl rfl
  · rw [hnull]
    exact .inl rfl
  · rw [hq]
    exact .inl rfl
  · rw [harray, List.map_append]
    exact .inr rfl

/-- A proof put behind others is read behind them. -/
theorem decodeProofs_appendProof {members : Object} {ps : List Proof}
    (h : decodeProofs (members.get? proofName) = .ok ps) (p : Proof) :
    decodeProofs (some (appendProof (proofOf members) p.toJson)) = .ok (ps ++ [p]) := by
  rcases appendProof_eq h p with heq | heq
  · rw [heq, decodeProofs_encodeProofs]
  · rw [heq, decodeProofs_eq_ok]
    exact .inr (.inr rfl)

/-- Writing proofs without an array where there is one only makes the member no deeper. -/
theorem depth_encodeProofs_le (ps : List Proof) :
    (encodeProofs ps).depth ≤ (Value.array (ps.map Proof.toJson)).depth := by
  match ps with
  | [] => exact Nat.le_refl _
  | [p] =>
      rw [Value.depth, List.map_singleton, Value.depthItems]
      exact Nat.le_succ_of_le (Nat.le_max_left _ _)
  | p :: q :: ps => exact Nat.le_refl _

theorem depth_encodeProofs_append_le {members : Object} {ps : List Proof}
    (h : decodeProofs (members.get? proofName) = .ok ps) (p : Proof) :
    (encodeProofs (ps ++ [p])).depth ≤ (appendProof (proofOf members) p.toJson).depth := by
  rcases appendProof_eq h p with heq | heq
  · exact Nat.le_of_eq (congrArg Value.depth heq.symm)
  · rw [heq]
    exact depth_encodeProofs_le _

theorem ordered_encodeProofs {ps : List Proof} : (encodeProofs ps).Ordered ↔ ∀ p ∈ ps, p.toJson.Ordered := by
  match ps with
  | [] => simp [encodeProofs, Value.ordered_array]
  | [p] => simp [encodeProofs]
  | p :: q :: ps =>
      show (Value.array ((p :: q :: ps).map Proof.toJson)).Ordered ↔ _
      rw [Value.ordered_array, List.forall_mem_map]

end Attest
