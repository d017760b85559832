import Attest.Proofs.Calendar.RoundTrip
import Attest.Proofs.Dict
import Attest.Proofs.Integrity.Acceptance
import Attest.Proofs.Multibase.Base58

/-!
What a signer makes. A proof says what its options said, so the verifier accepts it exactly with the
options that match and before it expires, provided that the key accepts its own signature and is the
one that the resolver finds. The verifier takes the expiry from its text.
-/

namespace Attest

open Json (Object Value)

/-- A key accepts its own signature of a message. -/
def KeyPair.Accepts (key : KeyPair) (message : Bytes) : Prop :=
  key.publicKey.verify message (key.sign message) = .ok ()

theorem KeyPair.algorithm_publicKey (key : KeyPair) : key.publicKey.algorithm = key.algorithm := by
  cases key <;> rfl

/-! ### The members of a proof -/

/-- A text, unless it is empty. -/
def textUnlessEmpty (text : String) : Option Value := if text = "" then none else some (.string text)

theorem get?_unlessEmpty (name text other : String) :
    Dict.get? (if text = "" then [] else [(name, Value.string text)]).reverse other =
      if name = other then textUnlessEmpty text else none := by
  rw [textUnlessEmpty]
  by_cases htext : text = "" <;> simp [htext, Dict.get?]

theorem get?_expires (expires : Option Timestamp) (other : String) :
    Dict.get? (expires.toList.map fun t => ("expires", Value.string t.text)).reverse other =
      if "expires" = other then expires.map fun t => Value.string t.text else none := by
  cases expires <;> simp [Dict.get?]

theorem get?_proofConfiguration (o : ProofOptions) (suite : Cryptosuite) (created : Timestamp)
    (name : String) :
    Dict.get? (proofConfiguration o suite created) name =
      if "challenge" = name then textUnlessEmpty o.challenge
      else if "domain" = name then textUnlessEmpty o.domain
      else if "expires" = name then o.expires.map fun t => Value.string t.text
      else if "proofPurpose" = name then textUnlessEmpty o.purpose
      else if "verificationMethod" = name then some (.string o.verificationMethod)
      else if "created" = name then some (.string created.text)
      else if "cryptosuite" = name then some (.string suite.name)
      else if "type" = name then some (.string ProofOptions.dataIntegrityProof)
      else none := by
  rw [proofConfiguration, Dict.get?_ofList]
  simp only [List.reverse_append, Dict.get?_append, get?_unlessEmpty, get?_expires]
  by_cases hchallenge : "challenge" = name
  · subst hchallenge
    simp [Dict.get?]
  rw [if_neg hchallenge, if_neg hchallenge, Option.none_or]
  by_cases hdomain : "domain" = name
  · subst hdomain
    simp [Dict.get?]
  rw [if_neg hdomain, if_neg hdomain, Option.none_or]
  by_cases hexpires : "expires" = name
  · subst hexpires
    simp [Dict.get?]
  rw [if_neg hexpires, if_neg hexpires, Option.none_or]
  by_cases hpurpose : "proofPurpose" = name
  · subst hpurpose
    simp [Dict.get?]
  rw [if_neg hpurpose, if_neg hpurpose, Option.none_or]
  rfl

theorem ascending_proofConfiguration (o : ProofOptions) (suite : Cryptosuite) (created : Timestamp) :
    Dict.Ascending (proofConfiguration o suite created) := Dict.ascending_ofList _

/-- Every member of a configuration is a text. -/
theorem string_of_mem_proofConfiguration {o : ProofOptions} {suite : Cryptosuite} {created : Timestamp}
    {member : String × Value} (h : member ∈ proofConfiguration o suite created) :
    ∃ text, member.2 = .string text := by
  have hget := Dict.get?_of_mem (ascending_proofConfiguration o suite created) h
  have hunlessEmpty {text : String} (heq : textUnlessEmpty text = some member.2) :
      ∃ text, member.2 = .string text := by
    rw [textUnlessEmpty] at heq
    split at heq
    · cases heq
    · exact ⟨text, (Option.some.inj heq).symm⟩
  rw [get?_proofConfiguration] at hget
  split at hget
  · exact hunlessEmpty hget
  split at hget
  · exact hunlessEmpty hget
  split at hget
  · obtain ⟨t, -, heq⟩ := Option.map_eq_some_iff.mp hget
    exact ⟨t.text, heq.symm⟩
  split at hget
  · exact hunlessEmpty hget
  repeat'
    split at hget
    · exact ⟨_, (Option.some.inj hget).symm⟩
  cases hget

/-- Without its value a proof is its configuration. -/
theorem erase_makeProof (key : KeyPair) (o : ProofOptions) (suite : Cryptosuite) (created : Timestamp)
    (content : Object) :
    Dict.erase (makeProof key (proofConfiguration o suite created) content) "proofValue" =
      proofConfiguration o suite created := by
  rw [makeProof, Dict.erase_insert, Dict.erase_of_get?_none]
  rw [get?_proofConfiguration]
  rfl

theorem get?_makeProof (key : KeyPair) (configuration content : Object) {name : String}
    (h : name ≠ "proofValue") :
    Dict.get? (makeProof key configuration content) name = configuration.get? name :=
  Dict.get?_insert_of_ne _ h _

/-! ### The acceptance of what is made -/

theorem textUnlessEmpty_eq_some {text : String} {v : Value} :
    textUnlessEmpty text = some v ↔ text ≠ "" ∧ v = .string text := by
  rw [textUnlessEmpty]
  split <;> simp_all [eq_comm]

theorem textUnlessEmpty_eq_none {text : String} : textUnlessEmpty text = none ↔ text = "" := by
  rw [textUnlessEmpty]
  split <;> simp_all

/-- A member that is left out if its text is empty says exactly the other texts. -/
theorem says_unlessEmpty {proof : Object} {name text expected : String}
    (h : proof.get? name = textUnlessEmpty text) (hexpected : expected ≠ "") :
    Says proof name expected ↔ expected = text := by
  rw [Says, h, textUnlessEmpty_eq_some]
  constructor
  · rintro ⟨-, heq⟩
    exact Value.string.inj heq
  · rintro rfl
    exact ⟨hexpected, rfl⟩

theorem absent_unlessEmpty {proof : Object} {name text : String} (h : proof.get? name = textUnlessEmpty text) :
    Absent proof name ↔ text = "" := by
  rw [Absent, h, textUnlessEmpty_eq_none, textUnlessEmpty_eq_some]
  simp

theorem saysAmong_unlessEmpty {proof : Object} {name text expected : String}
    (h : proof.get? name = textUnlessEmpty text) (hexpected : expected ≠ "") :
    SaysAmong proof name expected ↔ expected = text := by
  rw [SaysAmong, says_unlessEmpty h hexpected, h]
  simp [textUnlessEmpty_eq_some]

/-- An empty text that is left out is as good as one that says so. -/
theorem says_or_absent_unlessEmpty {proof : Object} {name text : String}
    (h : proof.get? name = textUnlessEmpty text) (expected : String) :
    (Says proof name expected ∨ (Absent proof name ∧ expected = "")) ↔ text = expected := by
  rw [absent_unlessEmpty h]
  by_cases hempty : expected = ""
  · rw [hempty, Says, h, textUnlessEmpty_eq_some]
    simp
  · rw [says_unlessEmpty h hempty]
    exact ⟨fun hsaid => (hsaid.resolve_right fun habsent => hempty habsent.2).symm, fun hsame => .inl hsame.symm⟩

/-- A time that is left out if there is none is read as what its text tells. -/
theorem timeIfAny_text {proof : Object} {name : String} {time : Option Timestamp}
    (h : proof.get? name = time.map fun t => Value.string t.text) (hyear : ∀ t ∈ time, t.FourDigitYear)
    {allowed : Timestamp → Prop} : TimeIfAny proof name allowed ↔ ∀ t ∈ time, allowed t.told := by
  rw [TimeIfAny]
  simp only [Absent, Says, h]
  cases time with
  | none => simp
  | some t =>
      have hparse : Timestamp.parseLenient t.text = .ok t.told := by
        rw [t.parseLenient_text, Timestamp.reread_eq_ok.mpr ⟨hyear t rfl, rfl⟩]
      constructor
      · rintro (habsent | ⟨text, u, hheld, hread, hallowed⟩) v hv
        · simp at habsent
        · cases hv
          rw [← Value.string.inj (Option.some.inj hheld), hparse] at hread
          cases hread
          exact hallowed
      · intro hall
        exact .inr ⟨t.text, t.told, rfl, hparse, hall t rfl⟩

theorem signedBy_makeProof {resolve : Resolver} {created : Timestamp} {p : ProofOptions} {suite : Cryptosuite}
    {key : KeyPair} {content : Object} (hresolve : resolve p.verificationMethod = .ok key.publicKey)
    (halgorithm : key.algorithm = suite.algorithm)
    (hkey : key.Accepts (hashData (proofConfiguration p suite created) content)) :
    SignedBy resolve content (makeProof key (proofConfiguration p suite created) content) := by
  refine ⟨ProofValue.encode (key.sign (hashData (proofConfiguration p suite created) content)),
    key.sign (hashData (proofConfiguration p suite created) content), suite, p.verificationMethod, key.publicKey,
    ?_, ProofValue.decode_eq_ok.mp (ProofValue.decode_encode _), ?_, ?_, hresolve,
    key.algorithm_publicKey.trans halgorithm, ?_⟩
  · rw [Says, makeProof, Dict.get?_insert_self]
  · rw [Says, get?_makeProof _ _ _ (by decide), get?_proofConfiguration]
    rfl
  · rw [Says, get?_makeProof _ _ _ (by decide), get?_proofConfiguration]
    rfl
  · rw [erase_makeProof]
    exact hkey

/-- The verifier accepts a proof exactly with options that match those it was made with, and as long as
the time that its expiry is read as has not passed. -/
theorem accepted_makeProof {resolve : Resolver} {now created : Timestamp} {o p : ProofOptions}
    {suite : Cryptosuite} {key : KeyPair} {content : Object} (hcreated : created.FourDigitYear)
    (hexpires : ∀ t ∈ p.expires, t.FourDigitYear)
    (hresolve : resolve p.verificationMethod = .ok key.publicKey) (halgorithm : key.algorithm = suite.algorithm)
    (hkey : key.Accepts (hashData (proofConfiguration p suite created) content)) :
    Accepted resolve now o content (makeProof key (proofConfiguration p suite created) content) ↔
      p.purpose = o.purpose ∧ (o.domain = "" ∨ o.domain = p.domain) ∧
        (o.challenge = "" ∨ o.challenge = p.challenge) ∧ ∀ t ∈ p.expires, ¬ t.told.parts < now.parts := by
  obtain ⟨proof, hproof⟩ : ∃ proof, makeProof key (proofConfiguration p suite created) content = proof :=
    ⟨_, rfl⟩
  have hget {name : String} (h : name ≠ "proofValue") :
      Dict.get? proof name = Dict.get? (proofConfiguration p suite created) name :=
    hproof ▸ get?_makeProof key _ content h
  have hpurpose : Dict.get? proof "proofPurpose" = textUnlessEmpty p.purpose := by
    rw [hget (by decide), get?_proofConfiguration]
    rfl
  have hdomain : Dict.get? proof "domain" = textUnlessEmpty p.domain := by
    rw [hget (by decide), get?_proofConfiguration]
    rfl
  have hchallenge : Dict.get? proof "challenge" = textUnlessEmpty p.challenge := by
    rw [hget (by decide), get?_proofConfiguration]
    rfl
  have hexpiry : Dict.get? proof "expires" = p.expires.map fun t => Value.string t.text := by
    rw [hget (by decide), get?_proofConfiguration]
    rfl
  have htime : Dict.get? proof "created" = (some created).map fun t => Value.string t.text := by
    rw [hget (by decide), get?_proofConfiguration]
    rfl
  have hsigned : SignedBy resolve content proof := hproof ▸ signedBy_makeProof hresolve halgorithm hkey
  have hpurposes := says_or_absent_unlessEmpty hpurpose o.purpose
  have hdomains : (o.domain = "" ∨ SaysAmong proof "domain" o.domain) ↔ o.domain = "" ∨ o.domain = p.domain :=
    or_congr_right' fun hempty => saysAmong_unlessEmpty hdomain hempty
  have hchallenges : (o.challenge = "" ∨ Says proof "challenge" o.challenge) ↔
      o.challenge = "" ∨ o.challenge = p.challenge :=
    or_congr_right' fun hempty => says_unlessEmpty hchallenge hempty
  have hexpired : TimeIfAny proof "expires" (fun t => ¬ t.parts < now.parts) ↔ _ := timeIfAny_text hexpiry hexpires
  have hmade : TimeIfAny proof "created" fun _ => True :=
    (timeIfAny_text htime fun t ht => Option.some.inj ht ▸ hcreated).mpr fun _ _ => trivial
  rw [hproof]
  constructor
  · intro h
    exact ⟨hpurposes.mp h.purpose, hdomains.mp h.domain, hchallenges.mp h.challenge, hexpired.mp h.expires⟩
  · rintro ⟨hp, hd, hc, he⟩
    exact ⟨hpurposes.mpr hp, hdomains.mpr hd, hchallenges.mpr hc, hmade, hexpired.mpr he, hsigned⟩

/-! ### The signed document -/

/-- The suite and the key that the options name are selected if they are known and fit each other. -/
theorem Keyring.select_eq_ok {r : Keyring} {o : ProofOptions} {suite : Cryptosuite} {key : KeyPair} :
    r.select o = .ok (suite, key) ↔ o.proofType = ProofOptions.dataIntegrityProof ∧
      Cryptosuite.ofName? o.suite = some suite ∧ r.keys.get? o.verificationMethod = some key ∧
      key.algorithm = suite.algorithm := by
  rw [select, ProofOptions.isDataIntegrity]
  by_cases htype : o.proofType = ProofOptions.dataIntegrityProof
  · rw [if_pos (beq_iff_eq.mpr htype), and_iff_right htype]
    cases Cryptosuite.ofName? o.suite with
    | none => simp
    | some found =>
        cases r.keys.get? o.verificationMethod with
        | none => simp
        | some pair =>
            by_cases halgorithm : pair.algorithm = found.algorithm
            · simp only [ProofCheck.keyMismatch?_eq_none.mpr halgorithm, Except.ok.injEq, Prod.mk.injEq,
                Option.some.injEq]
              constructor
              · rintro ⟨rfl, rfl⟩
                exact ⟨rfl, rfl, halgorithm⟩
              · rintro ⟨rfl, rfl, -⟩
                exact ⟨rfl, rfl⟩
            · simp only [keyMismatch?, if_neg halgorithm, reduceCtorEq, Option.some.injEq, false_iff]
              rintro ⟨rfl, rfl, heq⟩
              exact halgorithm heq
  · rw [if_neg fun h => htype (beq_iff_eq.mp h)]
    simp [htype]

/-- The members of a document with one more proof. -/
def withProof (members proof : Object) : Object :=
  (unsecured members).insert proofName (appendProof (proofOf members) (.object proof))

/-- What a signer puts into a document: its proof of the document without proofs, behind those that are
there. -/
theorem Keyring.addProof_eq_ok {r : Keyring} {now : Timestamp} {document out : Bytes} {o : ProofOptions} :
    r.addProof now document o = .ok out ↔
      ∃ suite key members, r.select o = .ok (suite, key) ∧ parseDocument document = .ok members ∧
        out = (Value.object (withProof members
          (makeProof key (proofConfiguration o suite (o.created.getD now)) (unsecured members)))).bytes := by
  rw [addProof]
  simp only [bind_eq_ok, mapError_eq_ok, pure_eq_ok, Prod.exists]
  constructor
  · rintro ⟨suite, key, hselect, members, hparse, rfl⟩
    exact ⟨suite, key, members, hselect, hparse, rfl⟩
  · rintro ⟨suite, key, members, hselect, hparse, rfl⟩
    exact ⟨suite, key, hselect, members, hparse, rfl⟩

end Attest
