import Attest.Proofs.Integrity.Acceptance
import Attest.Proofs.Json.Unambiguous

/-!
What a signature is bound to. The bytes that are signed determine the configuration of the proof and
the document up to a collision of digests of canonical texts, so a proof value that is accepted again
after a member of either has changed shows such a collision or stands under two different messages.
-/

namespace Attest

open Json (Object Value)

/-- Two values with different canonical texts of one digest. -/
def Collide (v w : Value) : Prop :=
  v.canonicalBytes ≠ w.canonicalBytes ∧ sha256 v.canonicalBytes = sha256 w.canonicalBytes

/-- A configuration and a document that are the same as others, or a collision in place of either. -/
def Bound (configuration document configuration' document' : Object) : Prop :=
  ((Value.object configuration).Same (.object configuration') ∧
    (Value.object document).Same (.object document')) ∨
  Collide (.object configuration) (.object configuration') ∨ Collide (.object document) (.object document')

/-- The proof value is a signature of the message, for the key that the verification method of the proof stands for. -/
def Vouches (resolve : Resolver) (proof : Object) (signature message : Bytes) : Prop :=
  ∃ value method key, Says proof "proofValue" value ∧ Multibase.decode value = .ok (.base58Btc, signature) ∧
    Says proof "verificationMethod" method ∧ resolve method = .ok key ∧ key.verify message signature = .ok ()

/-- Two proofs with one signature, which the key of each accepts for a message of its own. -/
def Transferred (resolve : Resolver) (proof proof' : Object) (message message' : Bytes) : Prop :=
  message ≠ message' ∧ ∃ signature, Vouches resolve proof signature message ∧ Vouches resolve proof' signature message'

theorem same_or_collide {v w : Value} (hv : v.Ordered) (hw : w.Ordered)
    (h : sha256 v.canonicalBytes = sha256 w.canonicalBytes) : v.Same w ∨ Collide v w := by
  by_cases htext : v.canonicalBytes = w.canonicalBytes
  · exact .inl (Json.same_of_canonicalBytes hv hw htext)
  · exact .inr ⟨htext, h⟩

/-- The two digests of the signed bytes can be told apart, since a digest has one length. -/
theorem sha256_eq_of_signingInput {c d c' d' : Value} (h : signingInput c d = signingInput c' d') :
    sha256 c.canonicalBytes = sha256 c'.canonicalBytes ∧ sha256 d.canonicalBytes = sha256 d'.canonicalBytes :=
  List.append_inj h (by rw [length_sha256, length_sha256])

theorem bound_of_hashData {c d c' d' : Object} (hc : (Value.object c).Ordered) (hd : (Value.object d).Ordered)
    (hc' : (Value.object c').Ordered) (hd' : (Value.object d').Ordered) (h : hashData c d = hashData c' d') :
    Bound c d c' d' := by
  obtain ⟨hconfiguration, hdocument⟩ := sha256_eq_of_signingInput h
  rcases same_or_collide hc hc' hconfiguration with hsame | hcollide
  · rcases same_or_collide hd hd' hdocument with hsame' | hcollide
    · exact .inl ⟨hsame, hsame'⟩
    · exact .inr (.inr hcollide)
  · exact .inr (.inl hcollide)

/-- The signed bytes bind every member of the configuration and of the document: equal bytes come from
the same values or show a collision. A proof value that passes with one document and configuration
passes with others only if they are the same, if there is a collision, or if it is a signature of two
messages for the keys of the two proofs. -/
theorem hashData_binds (c d c' d' : Object) (hc : (Value.object c).Ordered) (hd : (Value.object d).Ordered)
    (hc' : (Value.object c').Ordered) (hd' : (Value.object d').Ordered) :
    (hashData c d = hashData c' d' → Bound c d c' d') ∧
    ∀ (resolve : Resolver) (proof proof' : Object), proof.erase "proofValue" = c →
      proof'.erase "proofValue" = c' → proof.get? "proofValue" = proof'.get? "proofValue" →
      SignedBy resolve d proof → SignedBy resolve d' proof' →
      Bound c d c' d' ∨ Transferred resolve proof proof' (hashData c d) (hashData c' d') := by
  refine ⟨bound_of_hashData hc hd hc' hd', ?_⟩
  intro resolve proof proof' hproof hproof' hvalue hsigned hsigned'
  obtain ⟨value, signature, _, method, key, hheld, hdecode, -, hmethod, hresolve, -, hverify⟩ := hsigned
  obtain ⟨value', signature', _, method', key', hheld', hdecode', -, hmethod', hresolve', -, hverify'⟩ := hsigned'
  have hsame : value = value' := Value.string.inj (Option.some.inj (hheld.symm.trans (hvalue.trans hheld')))
  have hsignature : signature = signature' := by
    rw [hsame, hdecode'] at hdecode
    injection hdecode with hdecode
    injection hdecode with _ hsignature
    exact hsignature.symm
  rw [hproof] at hverify
  rw [hproof', ← hsignature] at hverify'
  rw [← hsignature] at hdecode'
  by_cases hbytes : hashData c d = hashData c' d'
  · exact .inl (bound_of_hashData hc hd hc' hd' hbytes)
  · exact .inr ⟨hbytes, signature, ⟨value, method, key, hheld, hdecode, hmethod, hresolve, hverify⟩,
      value', method', key', hheld', hdecode', hmethod', hresolve', hverify'⟩

/-- A whole number is the same as an integer and as a floating-point number, so that the bytes that are
signed do not tell the two apart. -/
theorem hashData_binds_whole_number :
    let configuration : Object := [("type", .string ProofOptions.dataIntegrityProof)]
    let integer : Object := [("n", .number (.integer 1 (by decide)))]
    let double : Object := [("n", .number (.double ⟨false, 4503599627370496, 1022, by decide, by decide, by decide⟩))]
    hashData configuration integer = hashData configuration double ∧
      Bound configuration integer configuration double := by
  have hordered (name : String) (v : Value) (hv : v.Ordered) : (Value.object [(name, v)]).Ordered :=
    ⟨List.pairwise_singleton _ _, hv, trivial⟩
  have hbytes : (Value.object [("n", .number (.integer 1 (by decide)))]).canonicalBytes =
      (Value.object [("n", .number (.double
        ⟨false, 4503599627370496, 1022, by decide, by decide, by decide⟩))]).canonicalBytes := by
    decide +kernel
  have hhash := congrArg (fun document =>
    sha256 (Value.object [("type", .string ProofOptions.dataIntegrityProof)]).canonicalBytes ++ sha256 document) hbytes
  have hconfiguration := hordered "type" (.string ProofOptions.dataIntegrityProof) trivial
  exact ⟨hhash, (hashData_binds _ _ _ _ hconfiguration (hordered "n" (.number _) trivial) hconfiguration
    (hordered "n" (.number _) trivial)).1 hhash⟩

end Attest
