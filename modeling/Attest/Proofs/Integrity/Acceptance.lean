import Attest.Integrity.Verify
import Attest.Proofs.Multibase.Base58
import Attest.Proofs.Outcome

/-!
What the verifier accepts. Each check of a proof is told as a condition on the members of the proof,
the conditions together are `Accepted`, and a document passes if each of its entries of the type that
is checked satisfies them and there is such an entry.
-/

namespace Attest

open Json (Object Value)

/-- A member that is not there or is null. -/
def Absent (members : Object) (name : String) : Prop :=
  members.get? name = none ∨ members.get? name = some .null

/-- A member that is the given text. -/
def Says (members : Object) (name text : String) : Prop := members.get? name = some (.string text)

/-- A member that is a time for which `allowed` holds, if it is there. -/
def TimeIfAny (members : Object) (name : String) (allowed : Timestamp → Prop) : Prop :=
  Absent members name ∨
    ∃ text t, Says members name text ∧ Timestamp.parseLenient text = .ok t ∧ allowed t

/-- A member that is the given text or an array with that text among its items. -/
def SaysAmong (members : Object) (name text : String) : Prop :=
  Says members name text ∨ ∃ items, members.get? name = some (.array items) ∧ Value.string text ∈ items

/-- A proof value that is in base 58 the signature by a key which the verification method stands for
and which is of the algorithm of the suite. -/
def SignedBy (resolve : Resolver) (content proof : Object) : Prop :=
  ∃ value signature suite method key,
    Says proof "proofValue" value ∧ Multibase.decode value = .ok (.base58Btc, signature) ∧
    Says proof "cryptosuite" (Cryptosuite.name suite) ∧
    Says proof "verificationMethod" method ∧ resolve method = .ok key ∧
    key.algorithm = suite.algorithm ∧
    key.verify (hashData (proof.erase "proofValue") content) signature = .ok ()

/-- What the members of a proof must say for the proof to be accepted. -/
structure Accepted (resolve : Resolver) (now : Timestamp) (o : ProofOptions) (content proof : Object) :
    Prop where
  purpose : Says proof "proofPurpose" o.purpose ∨ (Absent proof "proofPurpose" ∧ o.purpose = "")
  domain : o.domain = "" ∨ SaysAmong proof "domain" o.domain
  challenge : o.challenge = "" ∨ Says proof "challenge" o.challenge
  created : TimeIfAny proof "created" fun _ => True
  expires : TimeIfAny proof "expires" fun t => ¬ t.parts < now.parts
  signed : SignedBy resolve content proof

/-! ### Single checks -/

namespace ProofCheck

theorem text?_eq_ok {proof : Object} {name : String} {text : Option String} :
    text? proof name = .ok text ↔
      (text = none ∧ Absent proof name) ∨ ∃ s, text = some s ∧ Says proof name s := by
  rw [text?, Absent]
  simp only [Says]
  cases proof.get? name with
  | none => simp [eq_comm]
  | some v => cases v <;> simp [eq_comm]

theorem text?_eq_none {proof : Object} {name : String} :
    text? proof name = .ok none ↔ Absent proof name := by
  rw [text?_eq_ok]
  simp

theorem text?_eq_some {proof : Object} {name s : String} :
    text? proof name = .ok (some s) ↔ Says proof name s := by
  rw [text?_eq_ok]
  simp

theorem proofValue_eq_ok {proof : Object} {value : String} :
    proofValue proof = .ok value ↔ Says proof "proofValue" value := by
  rw [proofValue, Says]
  cases proof.get? "proofValue" with
  | none => simp
  | some v => cases v <;> simp

/-- A proof without a suite names the empty one, which is not supported. -/
theorem suite_eq_ok {proof : Object} {s : Cryptosuite} :
    suite proof = .ok s ↔ Says proof "cryptosuite" s.name := by
  constructor
  · intro h
    obtain ⟨text, htext, h⟩ := bind_eq_ok.mp h
    cases hname : Cryptosuite.ofName? (text.getD "") with
    | none =>
        simp only [hname] at h
        cases h
    | some found =>
        simp only [hname] at h
        cases pure_eq_ok.mp h
        rcases text?_eq_ok.mp htext with ⟨rfl, -⟩ | ⟨name, rfl, hheld⟩
        · cases hname
        · rwa [← Cryptosuite.eq_name_of_ofName? hname]
  · intro h
    rw [suite, text?_eq_some.mpr h, ok_bind]
    simp only [Option.getD_some, Cryptosuite.ofName?_name]
    rfl

theorem purpose_eq_ok {proof : Object} {expected : String} :
    purpose proof expected = .ok () ↔
      Says proof "proofPurpose" expected ∨ (Absent proof "proofPurpose" ∧ expected = "") := by
  constructor
  · intro h
    obtain ⟨text, htext, h⟩ := bind_eq_ok.mp h
    have hsame : text.getD "" = expected := Decidable.byContradiction fun hne => by
      simp only [ne_eq, hne, not_false_eq_true, if_true] at h
      cases h
    rcases text?_eq_ok.mp htext with ⟨rfl, habsent⟩ | ⟨s, rfl, hheld⟩
    · exact .inr ⟨habsent, hsame.symm⟩
    · exact .inl (hsame ▸ hheld)
  · rintro (hheld | ⟨habsent, rfl⟩)
    · rw [purpose, text?_eq_some.mpr hheld, ok_bind]
      simp only [Option.getD_some, ne_eq, not_true_eq_false, if_false]
      rfl
    · rw [purpose, text?_eq_none.mpr habsent, ok_bind]
      simp only [Option.getD_none, ne_eq, not_true_eq_false, if_false]
      rfl

theorem namesDomain_iff {proof : Object} {expected : String} :
    namesDomain (proof.get? "domain") expected = true ↔ SaysAmong proof "domain" expected := by
  rw [SaysAmong, Says]
  cases proof.get? "domain" with
  | none => simp [namesDomain]
  | some v =>
      cases v with
      | string s => simp [namesDomain]
      | array items =>
          have hitem (item : Value) : item.string? = some expected ↔ item = .string expected := by
            cases item <;> simp [Value.string?]
          simp [namesDomain, hitem]
      | _ => simp [namesDomain]

theorem domain_eq_ok {proof : Object} {expected : String} :
    domain proof expected = .ok () ↔ expected = "" ∨ SaysAmong proof "domain" expected := by
  rw [← namesDomain_iff, domain]
  by_cases hempty : expected = "" <;>
    cases namesDomain (proof.get? "domain") expected <;> simp [hempty]

theorem challenge_eq_ok {proof : Object} {expected : String} :
    challenge proof expected = .ok () ↔ expected = "" ∨ Says proof "challenge" expected := by
  by_cases hempty : expected = ""
  · simp [challenge, hempty, pure, Except.pure]
  simp only [hempty, false_or, challenge, ne_eq, not_false_eq_true, if_true]
  constructor
  · intro h
    obtain ⟨text, htext, h⟩ := bind_eq_ok.mp h
    have hsame : text.getD "" = expected := Decidable.byContradiction fun hne => by
      simp only [hne, not_false_eq_true, if_true] at h
      cases h
    rcases text?_eq_ok.mp htext with ⟨rfl, -⟩ | ⟨s, rfl, hheld⟩
    · exact absurd hsame.symm hempty
    · exact hsame ▸ hheld
  · intro hheld
    rw [text?_eq_some.mpr hheld, ok_bind]
    simp only [Option.getD_some, not_true_eq_false, if_false]
    rfl

theorem time?_eq_ok {proof : Object} {name : String} {t : Option Timestamp} :
    time? proof name = .ok t ↔
      (t = none ∧ Absent proof name) ∨
        ∃ text u, t = some u ∧ Says proof name text ∧ Timestamp.parseLenient text = .ok u := by
  constructor
  · intro h
    obtain ⟨text, htext, h⟩ := bind_eq_ok.mp h
    rcases text?_eq_ok.mp htext with ⟨rfl, habsent⟩ | ⟨s, rfl, hheld⟩
    · exact .inl ⟨(pure_eq_ok.mp h).symm, habsent⟩
    · cases hparse : Timestamp.parseLenient s with
      | error cause =>
          simp only [hparse] at h
          cases h
      | ok u =>
          simp only [hparse] at h
          exact .inr ⟨s, u, (pure_eq_ok.mp h).symm, hheld, hparse⟩
  · rintro (⟨rfl, habsent⟩ | ⟨s, u, rfl, hheld, hparse⟩)
    · rw [time?, text?_eq_none.mpr habsent]
      rfl
    · rw [time?, text?_eq_some.mpr hheld, ok_bind]
      simp only [hparse]
      rfl

theorem exists_time?_eq_ok {proof : Object} {name : String} :
    (∃ t, time? proof name = .ok t) ↔ TimeIfAny proof name fun _ => True := by
  simp only [time?_eq_ok, TimeIfAny]
  constructor
  · rintro ⟨t, ⟨-, habsent⟩ | ⟨text, u, -, hheld, hparse⟩⟩
    · exact .inl habsent
    · exact .inr ⟨text, u, hheld, hparse, trivial⟩
  · rintro (habsent | ⟨text, u, hheld, hparse, -⟩)
    · exact ⟨none, .inl ⟨rfl, habsent⟩⟩
    · exact ⟨some u, .inr ⟨text, u, rfl, hheld, hparse⟩⟩

theorem expiry_eq_ok {proof : Object} {now : Timestamp} :
    expiry proof now = .ok () ↔ TimeIfAny proof "expires" fun t => ¬ t.parts < now.parts := by
  constructor
  · intro h
    obtain ⟨t, ht, h⟩ := bind_eq_ok.mp h
    rcases time?_eq_ok.mp ht with ⟨rfl, habsent⟩ | ⟨text, u, rfl, hheld, hparse⟩
    · exact .inl habsent
    · refine .inr ⟨text, u, hheld, hparse, fun hpassed => ?_⟩
      simp only [Timestamp.hasPassed, hpassed, decide_true, if_true] at h
      cases h
  · rintro (habsent | ⟨text, u, hheld, hparse, hpassed⟩)
    · rw [expiry, time?_eq_ok.mpr (.inl ⟨rfl, habsent⟩)]
      rfl
    · rw [expiry, time?_eq_ok.mpr (.inr ⟨text, u, rfl, hheld, hparse⟩), ok_bind]
      simp only [Timestamp.hasPassed, hpassed, decide_false, Bool.false_eq_true, if_false]
      rfl

theorem keyMismatch?_eq_none {method : String} {s : Cryptosuite} {algorithm : KeyAlgorithm} :
    keyMismatch? method s algorithm = none ↔ algorithm = s.algorithm := by
  rw [keyMismatch?]
  split <;> simp_all

theorem key_eq_ok {resolve : Resolver} {proof : Object} {s : Cryptosuite} {found : PublicKey} :
    key resolve proof s = .ok found ↔
      ∃ method, Says proof "verificationMethod" method ∧ resolve method = .ok found ∧
        found.algorithm = s.algorithm := by
  constructor
  · intro h
    obtain ⟨text, htext, h⟩ := bind_eq_ok.mp h
    rcases text?_eq_ok.mp htext with ⟨rfl, -⟩ | ⟨method, rfl, hheld⟩
    · cases h
    · cases hresolve : resolve method with
      | error reason =>
          simp only [hresolve] at h
          cases h
      | ok k =>
          simp only [hresolve] at h
          cases hmismatch : keyMismatch? method s k.algorithm with
          | some mismatch =>
              simp only [hmismatch] at h
              cases h
          | none =>
              simp only [hmismatch] at h
              cases pure_eq_ok.mp h
              exact ⟨method, hheld, hresolve, keyMismatch?_eq_none.mp hmismatch⟩
  · rintro ⟨method, hheld, hresolve, halgorithm⟩
    rw [key, text?_eq_some.mpr hheld, ok_bind]
    simp only [hresolve, keyMismatch?_eq_none.mpr halgorithm]
    rfl

end ProofCheck

/-! ### A proof and a document -/

theorem erase_proofValue {proof : Object} {name : String} (h : name ≠ "proofValue") :
    Dict.get? (proof.erase "proofValue") name = proof.get? name := Dict.get?_erase_of_ne _ h

/-- Once the members of a proof have passed their checks, its signature decides. -/
theorem verifyEntry_eq_verify {resolve : Resolver} {now : Timestamp} {o : ProofOptions}
    {content proof configuration : Object} {value : String} {suite : Cryptosuite} {created : Option Timestamp}
    {key : PublicKey} {signature : Bytes} (hvalue : ProofCheck.proofValue proof = .ok value)
    (hconfiguration : Dict.erase proof "proofValue" = configuration)
    (hsuite : ProofCheck.suite configuration = .ok suite)
    (hpurpose : ProofCheck.purpose configuration o.purpose = .ok ())
    (hdomain : ProofCheck.domain configuration o.domain = .ok ())
    (hchallenge : ProofCheck.challenge configuration o.challenge = .ok ())
    (hcreated : ProofCheck.time? configuration "created" = .ok created)
    (hexpiry : ProofCheck.expiry configuration now = .ok ())
    (hkey : ProofCheck.key resolve configuration suite = .ok key)
    (hsignature : ProofValue.decode value = .ok signature) :
    verifyEntry resolve now o content proof =
      (key.verify (hashData configuration content) signature).mapError .invalidSignature := by
  rw [verifyEntry, hvalue, ok_bind]
  simp only [hconfiguration, hsuite, hpurpose, hdomain, hchallenge, hcreated, hexpiry, hkey, hsignature,
    mapError_ok, ok_bind]

/-- The verifier passes a proof exactly if it is accepted. -/
theorem verifyEntry_eq_ok {resolve : Resolver} {now : Timestamp} {o : ProofOptions}
    {content proof : Object} :
    verifyEntry resolve now o content proof = .ok () ↔ Accepted resolve now o content proof := by
  have hget {name : String} (h : name ≠ "proofValue") :
      Dict.get? (proof.erase "proofValue") name = proof.get? name := erase_proofValue h
  have hheld {name text : String} (h : name ≠ "proofValue") :
      Says (proof.erase "proofValue") name text ↔ Says proof name text := by rw [Says, hget h, Says]
  have habsent {name : String} (h : name ≠ "proofValue") :
      Absent (proof.erase "proofValue") name ↔ Absent proof name := by rw [Absent, hget h, Absent]
  have htime {name : String} {allowed : Timestamp → Prop} (h : name ≠ "proofValue") :
      TimeIfAny (proof.erase "proofValue") name allowed ↔ TimeIfAny proof name allowed := by
    simp only [TimeIfAny, hheld h, habsent h]
  have hamong {name text : String} (h : name ≠ "proofValue") :
      SaysAmong (proof.erase "proofValue") name text ↔ SaysAmong proof name text := by
    simp only [SaysAmong, hheld h, hget h]
  constructor
  · intro h
    obtain ⟨value, hvalue, h⟩ := bind_eq_ok.mp h
    obtain ⟨suite, hsuite, h⟩ := bind_eq_ok.mp h
    obtain ⟨⟨⟩, hpurpose, h⟩ := bind_eq_ok.mp h
    obtain ⟨⟨⟩, hdomain, h⟩ := bind_eq_ok.mp h
    obtain ⟨⟨⟩, hchallenge, h⟩ := bind_eq_ok.mp h
    obtain ⟨created, hcreated, h⟩ := bind_eq_ok.mp h
    obtain ⟨⟨⟩, hexpiry, h⟩ := bind_eq_ok.mp h
    obtain ⟨key, hkey, h⟩ := bind_eq_ok.mp h
    obtain ⟨signature, hsignature, h⟩ := bind_eq_ok.mp h
    obtain ⟨method, hmethod, hresolve, halgorithm⟩ := ProofCheck.key_eq_ok.mp hkey
    refine ⟨?_, ?_, ?_, ?_, ?_, value, signature, suite, method, key, ProofCheck.proofValue_eq_ok.mp hvalue,
      ProofValue.decode_eq_ok.mp (mapError_eq_ok.mp hsignature), ?_, (hheld (by decide)).mp hmethod, hresolve,
      halgorithm, mapError_eq_ok.mp h⟩
    · have hconfigured := ProofCheck.purpose_eq_ok.mp hpurpose
      rwa [hheld (by decide), habsent (by decide)] at hconfigured
    · have hconfigured := ProofCheck.domain_eq_ok.mp hdomain
      rwa [hamong (by decide)] at hconfigured
    · have hconfigured := ProofCheck.challenge_eq_ok.mp hchallenge
      rwa [hheld (by decide)] at hconfigured
    · exact (htime (by decide)).mp (ProofCheck.exists_time?_eq_ok.mp ⟨created, hcreated⟩)
    · exact (htime (by decide)).mp (ProofCheck.expiry_eq_ok.mp hexpiry)
    · exact (hheld (by decide)).mp (ProofCheck.suite_eq_ok.mp hsuite)
  · rintro ⟨hpurpose, hdomain, hchallenge, hcreated, hexpires, value, signature, suite, method, key, hvalue,
      hsignature, hsuite, hmethod, hresolve, halgorithm, hverify⟩
    rw [← hheld (by decide), ← habsent (by decide)] at hpurpose
    rw [← hamong (by decide)] at hdomain
    rw [← hheld (by decide)] at hchallenge hsuite hmethod
    rw [← htime (by decide)] at hcreated hexpires
    obtain ⟨created, hcreated⟩ := ProofCheck.exists_time?_eq_ok.mpr hcreated
    rw [verifyEntry_eq_verify (ProofCheck.proofValue_eq_ok.mpr hvalue) rfl (ProofCheck.suite_eq_ok.mpr hsuite)
      (ProofCheck.purpose_eq_ok.mpr hpurpose) (ProofCheck.domain_eq_ok.mpr hdomain)
      (ProofCheck.challenge_eq_ok.mpr hchallenge) hcreated (ProofCheck.expiry_eq_ok.mpr hexpires)
      (ProofCheck.key_eq_ok.mpr ⟨method, hmethod, hresolve, halgorithm⟩) (ProofValue.decode_eq_ok.mpr hsignature),
      hverify, mapError_ok]

/-- An entry of the type that is checked here. -/
def DataIntegrityEntry (members : Object) : Prop := Says members "type" ProofOptions.dataIntegrityProof

theorem isDataIntegrityEntry_iff {members : Object} :
    isDataIntegrityEntry members = true ↔ DataIntegrityEntry members := by
  rw [isDataIntegrityEntry, DataIntegrityEntry, Says, beq_iff_eq]
  cases members.get? "type" with
  | none => simp
  | some v => cases v <;> simp [Value.string?]

/-- An entry that does not stop the check: an object that passes if it is of the type. -/
def Passes (check : Object → Except VerificationError Unit) (entry : Value) : Prop :=
  ∃ members, entry = .object members ∧ (DataIntegrityEntry members → check members = .ok ())

/-- Whether an entry is an object of the type. -/
def isDataIntegrityValue : Value → Bool
  | .object members => isDataIntegrityEntry members
  | _ => false

/-- Why a computation fails, if it does. -/
def failure? {ε α : Type} : Except ε α → Option ε
  | .ok _ => none
  | .error e => some e

/-- What is wrong with an entry: that it is not an object, or, if it is of the type, what the check of its
members says. -/
def faultOf (check : Object → Except VerificationError Unit) : Value → Option VerificationError
  | .object members => if isDataIntegrityEntry members then failure? (check members) else none
  | v => some (.malformedProof (.entryNotObject v.kind))

/-- The first fault ends the checks, and without one the entries of the type are counted. -/
theorem verifyEntries_eq (check : Object → Except VerificationError Unit) (entries : List Value) :
    verifyEntries check entries =
      (entries.findSome? (faultOf check)).elim (.ok (entries.countP isDataIntegrityValue)) .error := by
  induction entries with
  | nil => rfl
  | cons entry entries ih =>
      cases entry with
      | object members =>
          rw [verifyEntries, List.findSome?_cons, faultOf, ih]
          cases htyped : isDataIntegrityEntry members with
          | false =>
              rw [List.countP_cons_of_neg (by simp [isDataIntegrityValue, htyped])]
              rfl
          | true =>
              rw [List.countP_cons_of_pos (by simp [isDataIntegrityValue, htyped])]
              cases check members with
              | error e => rfl
              | ok _ => cases entries.findSome? (faultOf check) <;> rfl
      | _ => rfl

theorem faultOf_eq_none {check : Object → Except VerificationError Unit} {entry : Value} :
    faultOf check entry = none ↔ Passes check entry := by
  cases entry with
  | object members =>
      have hpasses : Passes check (.object members) ↔ (DataIntegrityEntry members → check members = .ok ()) := by
        simp [Passes]
      rw [hpasses, ← isDataIntegrityEntry_iff, faultOf]
      cases isDataIntegrityEntry members with
      | false => simp
      | true => cases check members <;> simp [failure?]
  | _ => simp [faultOf, Passes]

/-- The count of a run over entries that do not stop it is the number of those of the type. -/
theorem verifyEntries_eq_ok {check : Object → Except VerificationError Unit} {entries : List Value}
    {n : Nat} :
    verifyEntries check entries = .ok n ↔
      (∀ entry ∈ entries, Passes check entry) ∧ entries.countP isDataIntegrityValue = n := by
  simp only [verifyEntries_eq, ← faultOf_eq_none, ← List.findSome?_eq_none_iff]
  cases entries.findSome? (faultOf check) <;> simp

/-- The check of a document without regard to how the document was read. -/
theorem verifyProof_eq_ok {resolve : Resolver} {now : Timestamp} {document : Bytes} {o : ProofOptions} :
    verifyProof resolve now document o = .ok () ↔
      o.isDataIntegrity = true ∧ ∃ members proof, parseDocument document = .ok members ∧
        proofOf members = some proof ∧
        (∀ entry ∈ proofEntries proof, Passes (verifyEntry resolve now o (unsecured members)) entry) ∧
        ∃ entry ∈ proofEntries proof, isDataIntegrityValue entry = true := by
  cases htype : o.isDataIntegrity with
  | false => simp [verifyProof, htype, bind, Except.bind, throw, throwThe, MonadExceptOf.throw]
  | true =>
      simp only [verifyProof, htype, if_true, true_and]
      constructor
      · intro h
        obtain ⟨members, hparse, h⟩ := bind_eq_ok.mp h
        cases hproof : proofOf members with
        | none =>
            simp only [hproof] at h
            cases h
        | some proof =>
            simp only [hproof] at h
            obtain ⟨checked, hchecked, h⟩ := bind_eq_ok.mp h
            obtain ⟨hall, hcount⟩ := verifyEntries_eq_ok.mp hchecked
            refine ⟨members, proof, mapError_eq_ok.mp hparse, hproof, hall, ?_⟩
            refine List.countP_pos_iff.mp (Nat.pos_of_ne_zero fun hzero => ?_)
            rw [if_pos (hcount.symm.trans hzero)] at h
            cases h
      · rintro ⟨members, proof, hparse, hproof, hall, hsome⟩
        have hpos := List.countP_pos_iff.mpr hsome
        simp only [hparse, mapError_ok, ok_bind, hproof, verifyEntries_eq_ok.mpr ⟨hall, rfl⟩,
          if_neg (Nat.ne_of_gt hpos)]
        rfl

theorem parseDocument_eq_ok {document : Bytes} {members : Object} :
    parseDocument document = .ok members ↔ Json.parse document = .ok (.object members) := by
  rw [parseDocument]
  cases Json.parse document with
  | error cause => simp
  | ok v => cases v <;> simp

theorem proofOf_eq_some {members : Object} {proof : Value} :
    proofOf members = some proof ↔ members.get? proofName = some proof ∧ proof ≠ .null := by
  rw [proofOf]
  cases members.get? proofName with
  | none => simp
  | some v =>
      cases v with
      | null => simp [eq_comm]
      | _ =>
          constructor
          · rintro ⟨⟩
            simp
          · exact And.left

/-- The verifier accepts a document exactly if it is asked for the type of proofs that it can check,
the document is an object with a `proof` other than null, every entry of that member is an object, at
least one of them is of the type, and each of these is accepted. -/
theorem verifyProof_accepts_iff (resolve : Resolver) (now : Timestamp) (document : Bytes)
    (o : ProofOptions) :
    verifyProof resolve now document o = .ok () ↔
      o.proofType = ProofOptions.dataIntegrityProof ∧
      ∃ members proof, Json.parse document = .ok (.object members) ∧
        Dict.get? members proofName = some proof ∧ proof ≠ .null ∧
        (∀ entry ∈ proofEntries proof, ∃ entryMembers, entry = .object entryMembers) ∧
        (∃ entry, Value.object entry ∈ proofEntries proof ∧ DataIntegrityEntry entry) ∧
        ∀ entry, Value.object entry ∈ proofEntries proof → DataIntegrityEntry entry →
          Accepted resolve now o (Dict.erase members proofName) entry := by
  rw [verifyProof_eq_ok, ProofOptions.isDataIntegrity, beq_iff_eq]
  refine and_congr_right fun _ => exists_congr fun members => exists_congr fun proof => ?_
  rw [parseDocument_eq_ok, proofOf_eq_some, and_assoc]
  refine and_congr_right fun _ => and_congr_right fun _ => and_congr_right fun _ => ?_
  have hpasses : (∀ entry ∈ proofEntries proof, Passes (verifyEntry resolve now o (unsecured members)) entry) ↔
      (∀ entry ∈ proofEntries proof, ∃ entryMembers, entry = .object entryMembers) ∧
      ∀ entry, Value.object entry ∈ proofEntries proof → DataIntegrityEntry entry →
        Accepted resolve now o (Dict.erase members proofName) entry := by
    constructor
    · refine fun h => ⟨fun entry hentry => ?_, fun entry hentry htyped => ?_⟩
      · obtain ⟨entryMembers, heq, -⟩ := h entry hentry
        exact ⟨entryMembers, heq⟩
      · obtain ⟨entryMembers, heq, hcheck⟩ := h _ hentry
        cases heq
        exact verifyEntry_eq_ok.mp (hcheck htyped)
    · rintro ⟨hobjects, haccepted⟩ entry hentry
      obtain ⟨entryMembers, rfl⟩ := hobjects entry hentry
      exact ⟨entryMembers, rfl, fun htyped => verifyEntry_eq_ok.mpr (haccepted entryMembers hentry htyped)⟩
  have htyped : (∃ entry ∈ proofEntries proof, isDataIntegrityValue entry = true) ↔
      ∃ entry, Value.object entry ∈ proofEntries proof ∧ DataIntegrityEntry entry := by
    constructor
    · rintro ⟨entry, hentry, h⟩
      cases entry with
      | object members => exact ⟨members, hentry, isDataIntegrityEntry_iff.mp h⟩
      | _ => cases h
    · rintro ⟨members, hentry, h⟩
      exact ⟨.object members, hentry, isDataIntegrityEntry_iff.mpr h⟩
  rw [hpasses, htyped]
  exact and_right_comm.trans and_assoc

end Attest
