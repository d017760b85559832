import Attest.Proofs.Document.Attachment

/-!
The checking of documents that hold given proofs, and of proofs that keyrings made. A document passes if
it holds a proof of the type and each of them is accepted; a proof that a keyring made is accepted
exactly with the options that match its context.
-/

namespace Attest

open Json (Object Value)

/-- What must hold of a context and of the options of a verifier for a proof that was made for the one to be
accepted with the other at a given time. The verifier has the expiry from its text. -/
structure Matches (context : ProofContext) (o : VerificationOptions) (clock : Timestamp) : Prop where
  purpose : resolvePurpose context.purpose = resolvePurpose o.purpose
  domain : o.domain = "" ∨ o.domain = context.domain
  challenge : o.challenge = "" ∨ o.challenge = context.challenge
  expires : ∀ t ∈ context.expires, ¬ t.told.parts < clock.parts

/-- The times of a context, filled in at a time, that a proof is to hold. -/
structure FourDigitTimes (context : ProofContext) (now : Timestamp) : Prop where
  created : (context.created.getD now).FourDigitYear
  expires : ∀ t ∈ context.expires, t.FourDigitYear

/-- The key that a keyring has for a context accepts what it signs for a document without proofs. -/
def Keyring.SoundFor (ring : Keyring) (now : Timestamp) (context : ProofContext) (content : Object) : Prop :=
  ∀ suite key, ring.select (context.resolve now).toOptions = .ok (suite, key) →
    key.Accepts (hashData
      (proofConfiguration (context.resolve now).toOptions suite (context.created.getD now)) content)

/-- A resolver finds the key that a keyring has for a verification method. -/
def Keyring.ResolvedBy (ring : Keyring) (resolve : Resolver) (method : String) : Prop :=
  ∀ key, ring.keys.get? method = some key → resolve method = .ok key.publicKey

theorem Makes.typed {ring : Keyring} {now : Timestamp} {context : ProofContext} {content : Object} {p : Proof}
    (h : Makes ring now context content p) : DataIntegrityEntry p.members := by
  obtain ⟨suite, key, -, hp⟩ := h
  rw [DataIntegrityEntry, Says, hp, get?_makeProof _ _ _ (by decide), get?_proofConfiguration]
  rfl

/-- A proof that a keyring made is accepted exactly with options that match its context. -/
theorem Makes.accepted_iff {ring : Keyring} {now clock : Timestamp} {context : ProofContext} {content : Object}
    {p : Proof} (h : Makes ring now context content p) (htimes : FourDigitTimes context now) {resolve : Resolver}
    (hresolved : ring.ResolvedBy resolve context.verificationMethod) (hsound : ring.SoundFor now context content)
    {o : VerificationOptions} :
    Accepted resolve clock o.toOptions content p.members ↔ Matches context o clock := by
  obtain ⟨suite, key, hselect, hp⟩ := h
  obtain ⟨-, -, hkey, halgorithm⟩ := Keyring.select_eq_ok.mp hselect
  rw [hp, accepted_makeProof htimes.created htimes.expires (hresolved key hkey) halgorithm
    (hsound suite key hselect)]
  exact ⟨fun ⟨hpurpose, hdomain, hchallenge, hexpires⟩ => ⟨hpurpose, hdomain, hchallenge, hexpires⟩,
    fun ⟨hpurpose, hdomain, hchallenge, hexpires⟩ => ⟨hpurpose, hdomain, hchallenge, hexpires⟩⟩

theorem Makes.accepted_alone_iff {ring : Keyring} {now clock : Timestamp} {context : ProofContext}
    {content : Object} {p : Proof} (h : Makes ring now context content p) (htimes : FourDigitTimes context now)
    {resolve : Resolver} (hresolved : ring.ResolvedBy resolve context.verificationMethod)
    (hsound : ring.SoundFor now context content) {o : VerificationOptions} :
    ((∃ q ∈ [p], DataIntegrityEntry q.members) ∧ ∀ q ∈ [p], DataIntegrityEntry q.members →
      Accepted resolve clock o.toOptions content q.members) ↔ Matches context o clock := by
  rw [List.forall_mem_singleton, ← h.accepted_iff htimes hresolved hsound]
  constructor
  · rintro ⟨-, haccepted⟩
    exact haccepted h.typed
  · intro haccepted
    exact ⟨⟨p, List.mem_singleton_self p, h.typed⟩, fun _ => haccepted⟩

/-- A document passes if it is not nested too deep, holds a proof of the type, and each of those is accepted. -/
theorem verifyDocument_eq_ok {members : List (String × Value)} (hordered : ∀ member ∈ members, member.2.Ordered)
    {ps : List Proof} (hproofs : decodeProofs ((Dict.ofList members).get? proofName) = .ok ps) {resolve : Resolver}
    {clock : Timestamp} {o : VerificationOptions} (hverifier : o.verifier = some (verifyProof resolve clock)) :
    verifyDocument (Value.object members).bytes (some o) = .ok () ↔
      (Value.object members).depth ≤ Json.nestingLimit ∧ (∃ p ∈ ps, DataIntegrityEntry p.members) ∧
        ∀ p ∈ ps, DataIntegrityEntry p.members →
          Accepted resolve clock o.toOptions (unsecured (Dict.ofList members)) p.members := by
  have hverify : verifyDocument (Value.object members).bytes (some o) =
      (verifyProof resolve clock (Value.object members).bytes o.toOptions).mapError .verification := by
    rw [verifyDocument]
    simp only [hverifier]
  rw [hverify, mapError_eq_ok, verifyProof_eq_ok]
  constructor
  · rintro ⟨-, parsed, proof, hparsed, hheld, hall, entry, hentry, htyped⟩
    obtain ⟨hdepth, rfl⟩ := (parseDocument_object hordered).mp hparsed
    rcases proofOf_of_decodeProofs hproofs with ⟨hnone, -⟩ | ⟨found, hfound, hentries⟩
    · cases hnone.symm.trans hheld
    cases hfound.symm.trans hheld
    rw [hentries, List.forall_mem_map] at hall
    rw [hentries] at hentry
    obtain ⟨p, hp, rfl⟩ := List.mem_map.mp hentry
    refine ⟨hdepth, ⟨p, hp, isDataIntegrityEntry_iff.mp htyped⟩, fun q hq hq' => ?_⟩
    obtain ⟨entryMembers, heq, hcheck⟩ := hall q hq
    cases heq
    exact verifyEntry_eq_ok.mp (hcheck hq')
  · rintro ⟨hdepth, ⟨p, hp, htyped⟩, haccepted⟩
    rcases proofOf_of_decodeProofs hproofs with ⟨-, rfl⟩ | ⟨proof, hproof, hentries⟩
    · cases hp
    refine ⟨rfl, _, proof, (parseDocument_object hordered).mpr ⟨hdepth, rfl⟩, hproof, ?_, p.toJson, ?_,
      isDataIntegrityEntry_iff.mpr htyped⟩
    · rw [hentries, List.forall_mem_map]
      intro q hq
      exact ⟨q.members, rfl, fun hq' => verifyEntry_eq_ok.mpr (haccepted q hq hq')⟩
    · rw [hentries]
      exact List.mem_map_of_mem hp

end Attest
