import Attest.Proofs.Document.Independence

/-!
A proof put into a document, from end to end: what stands in the way and which of it is reported, what the new proof
says and signs, and what the document says that holds it. The new proof stands alone or behind the entries, which are
left as they are. One kind of document is lost to readers that way: if its only entry stands bare and is as deep as
there is room for, the array that is put around it makes the document too deep.
-/

namespace Attest

open Json (Object Value)

/-! ### What stands in the way -/

/-- The place of an error in the order in which a signer looks for what stands in its way. -/
def SigningError.rank : SigningError → Nat
  | .unsupportedProofType _ => 0
  | .unsupportedSuite _ => 1
  | .unknownVerificationMethod _ => 2
  | .keyMismatch _ => 3
  | .malformedDocument _ => 4
  | .unserializable _ => 5

namespace Keyring

/-- What stands in the way of a proof, whether or not something else does. -/
inductive Obstacle (r : Keyring) (document : Bytes) (o : ProofOptions) : SigningError → Prop
  | proofType (h : o.proofType ≠ ProofOptions.dataIntegrityProof) :
      Obstacle r document o (.unsupportedProofType o.proofType)
  | suite (h : Cryptosuite.ofName? o.suite = none) : Obstacle r document o (.unsupportedSuite o.suite)
  | method (h : r.keys.get? o.verificationMethod = none) :
      Obstacle r document o (.unknownVerificationMethod o.verificationMethod)
  | algorithm {suite : Cryptosuite} {key : KeyPair} (hsuite : Cryptosuite.ofName? o.suite = some suite)
      (hkey : r.keys.get? o.verificationMethod = some key) (h : key.algorithm ≠ suite.algorithm) :
      Obstacle r document o
        (.keyMismatch ⟨o.verificationMethod, suite.name, key.algorithm.name, suite.algorithm.name⟩)
  | document {cause : DocumentError} (h : parseDocument document = .error cause) :
      Obstacle r document o (.malformedDocument cause.message)

variable {r : Keyring} {document : Bytes} {o : ProofOptions} {e e' : SigningError} {now : Timestamp}

/-- Obstacles of the same kind are the same. -/
theorem Obstacle.eq_of_rank_eq (h : r.Obstacle document o e) (h' : r.Obstacle document o e')
    (hrank : e.rank = e'.rank) : e = e' := by
  cases h with
  | proofType | suite | method =>
      cases h' with
      | proofType | suite | method => first | rfl | cases hrank
      | algorithm | document => cases hrank
  | algorithm hsuite hkey _ =>
      cases h' with
      | algorithm hsuite' hkey' _ =>
          cases hsuite.symm.trans hsuite'
          cases hkey.symm.trans hkey'
          rfl
      | _ => cases hrank
  | document h =>
      cases h' with
      | document h' =>
          cases h.symm.trans h'
          rfl
      | _ => cases hrank

/-- The obstacle before which no other one is looked for. -/
structure First (r : Keyring) (document : Bytes) (o : ProofOptions) (e : SigningError) : Prop where
  obstacle : r.Obstacle document o e
  least : ∀ other, r.Obstacle document o other → e.rank ≤ other.rank

theorem First.unique (h : r.First document o e) (h' : r.First document o e') : e = e' :=
  h.obstacle.eq_of_rank_eq h'.obstacle (Nat.le_antisymm (h.least e' h'.obstacle) (h'.least e h.obstacle))

/-- What a signer reports that does not get a suite and a key is the first obstacle. -/
theorem first_of_select_error (h : r.select o = .error e) : r.First document o e := by
  rw [select, ProofOptions.isDataIntegrity] at h
  by_cases htype : o.proofType = ProofOptions.dataIntegrityProof
  · rw [if_pos (beq_iff_eq.mpr htype)] at h
    cases hsuite : Cryptosuite.ofName? o.suite with
    | none =>
        simp only [hsuite, Except.error.injEq] at h
        subst h
        -- What was found so far rules out the obstacles of lower rank, here and below.
        refine ⟨.suite hsuite, fun other hother => ?_⟩
        cases hother with
        | proofType h => exact absurd htype h
        | _ => simp [SigningError.rank]
    | some suite =>
        cases hkey : r.keys.get? o.verificationMethod with
        | none =>
            simp only [hsuite, hkey, Except.error.injEq] at h
            subst h
            refine ⟨.method hkey, fun other hother => ?_⟩
            cases hother with
            | proofType h => exact absurd htype h
            | suite h => cases hsuite.symm.trans h
            | _ => simp [SigningError.rank]
        | some key =>
            by_cases halgorithm : key.algorithm = suite.algorithm
            · simp only [hsuite, hkey, ProofCheck.keyMismatch?_eq_none.mpr halgorithm, reduceCtorEq] at h
            · simp only [hsuite, hkey, keyMismatch?, if_neg halgorithm, Except.error.injEq] at h
              subst h
              refine ⟨.algorithm hsuite hkey halgorithm, fun other hother => ?_⟩
              cases hother with
              | proofType h => exact absurd htype h
              | suite h => cases hsuite.symm.trans h
              | method h => cases hkey.symm.trans h
              | _ => simp [SigningError.rank]
  · rw [if_neg fun h => htype (beq_iff_eq.mp h), Except.error.injEq] at h
    subst h
    exact ⟨.proofType htype, fun _ _ => Nat.zero_le _⟩

/-- With a suite and a key there is no obstacle but a text that is not a document. -/
theorem Obstacle.of_select_ok {suite : Cryptosuite} {key : KeyPair} (h : r.Obstacle document o e)
    (hselect : r.select o = .ok (suite, key)) :
    ∃ cause, parseDocument document = .error cause ∧ e = .malformedDocument cause.message := by
  obtain ⟨htype, hsuite, hkey, halgorithm⟩ := select_eq_ok.mp hselect
  cases h with
  | proofType h => exact absurd htype h
  | suite h => cases hsuite.symm.trans h
  | method h => cases hkey.symm.trans h
  | algorithm hsuite' hkey' h =>
      cases hsuite.symm.trans hsuite'
      cases hkey.symm.trans hkey'
      exact absurd halgorithm h
  | document h => exact ⟨_, h, rfl⟩

theorem first_of_select_ok {suite : Cryptosuite} {key : KeyPair} (hselect : r.select o = .ok (suite, key))
    {cause : DocumentError} (h : parseDocument document = .error cause) :
    r.First document o (.malformedDocument cause.message) := by
  refine ⟨.document h, fun other hother => ?_⟩
  obtain ⟨_, -, rfl⟩ := hother.of_select_ok hselect
  exact Nat.le_refl _

/-- Either the first obstacle is reported, or there is none and a proof is put into the document. -/
theorem addProof_cases (r : Keyring) (now : Timestamp) (document : Bytes) (o : ProofOptions) :
    (∃ e, r.addProof now document o = .error e ∧ r.First document o e) ∨
      (∃ out, r.addProof now document o = .ok out) ∧ ∀ e, ¬ r.Obstacle document o e := by
  cases hselect : r.select o with
  | error e =>
      refine .inl ⟨e, ?_, first_of_select_error hselect⟩
      rw [addProof, hselect]
      rfl
  | ok selected =>
      obtain ⟨suite, key⟩ := selected
      cases hparse : parseDocument document with
      | error cause =>
          refine .inl ⟨.malformedDocument cause.message, ?_, first_of_select_ok hselect hparse⟩
          rw [addProof, hselect, ok_bind]
          simp only [hparse]
          rfl
      | ok members =>
          refine .inr ⟨⟨_, addProof_eq_ok.mpr ⟨suite, key, members, hselect, hparse, rfl⟩⟩, fun e h => ?_⟩
          obtain ⟨cause, hcause, -⟩ := h.of_select_ok hselect
          cases hparse.symm.trans hcause

/-- The error that is reported is the first obstacle. -/
theorem addProof_eq_error : r.addProof now document o = .error e ↔ r.First document o e := by
  rcases addProof_cases r now document o with ⟨first, herror, hfirst⟩ | ⟨⟨out, hout⟩, hnone⟩
  · rw [herror, Except.error.injEq]
    constructor
    · rintro rfl
      exact hfirst
    · exact hfirst.unique
  · rw [hout]
    exact iff_of_false nofun fun h => hnone e h.obstacle

/-- With a suite and a key a signer reports that a text is malformed if it is not a document. -/
theorem addProof_eq_malformed {suite : Cryptosuite} {key : KeyPair} (hselect : r.select o = .ok (suite, key))
    {reason : String} : r.addProof now document o = .error (.malformedDocument reason) ↔
      ∃ cause, parseDocument document = .error cause ∧ reason = cause.message := by
  rw [addProof_eq_error]
  constructor
  · intro h
    obtain ⟨cause, hcause, heq⟩ := h.obstacle.of_select_ok hselect
    exact ⟨cause, hcause, SigningError.malformedDocument.inj heq⟩
  · rintro ⟨cause, hcause, rfl⟩
    exact first_of_select_ok hselect hcause

theorem exists_addProof_iff : (∃ out, r.addProof now document o = .ok out) ↔ ∀ e, ¬ r.Obstacle document o e := by
  rcases addProof_cases r now document o with ⟨first, herror, hfirst⟩ | ⟨hout, hnone⟩
  · rw [herror]
    exact iff_of_false (fun ⟨out, hout⟩ => by cases hout) fun h => h first hfirst.obstacle
  · exact iff_of_true hout hnone

end Keyring

/-! ### The new proof -/

/-- The options with the time of creation filled in. -/
def ProofOptions.filled (o : ProofOptions) (now : Timestamp) : ProofOptions :=
  { o with created := some (o.created.getD now) }

/-- The names of the members that a new proof may have. -/
def newProofNames : List String :=
  ["type", "cryptosuite", "created", "verificationMethod", "proofValue", "proofPurpose", "domain", "challenge",
    "expires"]

/-- What a new proof says: what it was asked to say at a time, the signature of the key for the content and for all
that it says itself, and nothing else. -/
structure NewProof (key : KeyPair) (o : ProofOptions) (created : Timestamp) (content proof : Object) : Prop where
  ascending : Dict.Ascending proof
  type : proof.get? "type" = some (.string ProofOptions.dataIntegrityProof)
  suite : proof.get? "cryptosuite" = some (.string o.suite)
  created : proof.get? "created" = some (.string created.text)
  method : proof.get? "verificationMethod" = some (.string o.verificationMethod)
  signature : ∃ value, proof.get? "proofValue" = some (.string value) ∧
    ProofValue.decode value = .ok (key.sign (hashData (proof.erase "proofValue") content))
  purpose : proof.get? "proofPurpose" = textUnlessEmpty o.purpose
  domain : proof.get? "domain" = textUnlessEmpty o.domain
  challenge : proof.get? "challenge" = textUnlessEmpty o.challenge
  expires : proof.get? "expires" = o.expires.map fun t => .string t.text
  others : ∀ name ∉ newProofNames, proof.get? name = none

theorem newProof_makeProof (key : KeyPair) (o : ProofOptions) {suite : Cryptosuite}
    (hsuite : Cryptosuite.ofName? o.suite = some suite) (created : Timestamp) (content : Object) :
    NewProof key o created content (makeProof key (proofConfiguration o suite created) content) := by
  have hget {name : String} (h : name ≠ "proofValue") :
      Dict.get? (makeProof key (proofConfiguration o suite created) content) name = _ :=
    (get?_makeProof key _ content h).trans (get?_proofConfiguration o suite created name)
  exact {
    ascending := Dict.ascending_insert (ascending_proofConfiguration ..) _ _
    type := hget (by decide)
    suite := by
      rw [Cryptosuite.eq_name_of_ofName? hsuite]
      exact hget (by decide)
    created := hget (by decide)
    method := hget (by decide)
    signature := by
      refine ⟨_, Dict.get?_insert_self _ _ _, ?_⟩
      rw [erase_makeProof]
      exact ProofValue.decode_encode _
    purpose := hget (by decide)
    domain := hget (by decide)
    challenge := hget (by decide)
    expires := hget (by decide)
    others := fun name hname => by
      simp only [newProofNames, List.mem_cons, List.not_mem_nil, or_false, not_or] at hname
      rw [hget (by simp [hname])]
      simp [hname, eq_comm (b := name)] }

/-! ### The document with the new proof -/

/-- A document with one proof more: outside `proof` nothing is changed, and there the new proof stands alone or behind
the entries. -/
structure Extends (members proof signed : Object) : Prop where
  content : unsecured signed = unsecured members
  alone : members.get? proofName = none ∨ members.get? proofName = some .null →
    signed.get? proofName = some (.object proof)
  behind : ∀ existing, members.get? proofName = some existing → existing ≠ .null →
    signed.get? proofName = some (.array (proofEntries existing ++ [.object proof]))

theorem extends_withProof (members proof : Object) : Extends members proof (withProof members proof) := by
  have hget : Dict.get? (withProof members proof) proofName =
      some (appendProof (proofOf members) (.object proof)) := Dict.get?_insert_self ..
  refine ⟨unsecured_withProof members proof, fun hnone => ?_, fun existing hexisting hnull => ?_⟩
  · have hproof : proofOf members = none := by
      rw [proofOf]
      rcases hnone with hnone | hnone <;> rw [hnone]
    rw [hget, hproof]
    rfl
  · rw [hget, proofOf_eq_some.mpr ⟨hexisting, hnull⟩]
    cases existing <;> rfl

/-- The only entry of a document stands bare and is so deep that an array around it is too deep. -/
def Overfull (members : Object) : Prop :=
  ∃ entry, members.get? proofName = some (.object entry) ∧ (Value.object entry).depth = Json.nestingLimit - 1

/-- A document that can be read has room for one proof more, unless it is overfull. -/
theorem roomy_iff {members : Object} (hdepth : (Value.object members).depth ≤ Json.nestingLimit) :
    Keyring.Roomy (unsecured members) (heldEntries members) ↔ ¬ Overfull members := by
  have hmembers : ∀ member ∈ members, member.2.depth ≤ Json.nestingLimit - 1 := Value.depth_object_le.mp hdepth
  have hcontent : ∀ member ∈ unsecured members, member.2.depth ≤ Json.nestingLimit - 1 :=
    fun member hmember => hmembers member (Dict.mem_of_mem_erase hmember)
  rw [Keyring.Roomy, and_iff_right hcontent, heldEntries, proofOf_eq_bind, Overfull]
  cases hproof : Dict.get? members proofName with
  | none => simp
  | some proof =>
      have hproofDepth := hmembers _ (Dict.mem_of_get? hproof)
      cases proof with
      | object entry =>
          have hbare : (∀ e ∈ [Value.object entry], e.depth ≤ Json.nestingLimit - 2) ↔
              ¬ (Value.object entry).depth = Json.nestingLimit - 1 := by
            rw [List.forall_mem_singleton]
            simp only [Json.nestingLimit] at hproofDepth ⊢
            omega
          simpa [proofEntries] using hbare
      | array entries =>
          have hentries : ∀ entry ∈ entries, entry.depth ≤ Json.nestingLimit - 2 := Value.depth_array_le.mp hproofDepth
          simpa [proofEntries] using hentries
      | _ => simp [proofEntries, Value.depth]

/-- Who reads the document with a new proof finds what was written, or finds it too deep. -/
theorem parseDocument_withProof {members : Object} (h : (Value.object members).Ordered)
    (hdepth : (Value.object members).depth ≤ Json.nestingLimit) {r : Keyring} {content proof : Object}
    {o : ProofOptions} (hproof : r.newProof content o = some proof) :
    (Overfull members →
      parseDocument (Value.object (withProof members proof)).bytes = .error (.json .tooDeep)) ∧
    (¬ Overfull members →
      parseDocument (Value.object (withProof members proof)).bytes = .ok (withProof members proof)) := by
  obtain ⟨hascending, hmembers⟩ := Value.ordered_object.mp (Keyring.ordered_withProof h hproof)
  have hroomy := (Keyring.depth_withProof_le (Value.ordered_object.mp h).1 hproof).trans (roomy_iff hdepth)
  rw [parseDocument_bytes hmembers, Dict.ofList_of_ascending hascending]
  constructor
  · intro hfull
    rw [if_neg fun hle => hroomy.mp hle hfull]
  · intro hroom
    rw [if_pos (hroomy.mpr hroom)]

namespace Keyring

theorem addProof_filled (r : Keyring) (now : Timestamp) (document : Bytes) (o : ProofOptions) :
    r.addProof now document (o.filled now) = r.addProof now document o := rfl

/-- A proof is put into a document unless something stands in its way, and the first thing that does is reported. The
new proof says what the options say and signs that together with the document without proofs. The document with the
new proof says outside `proof` what it said, and there the new proof alone or all entries and then the new proof. It
can be read unless it was overfull. -/
theorem addProof_end_to_end (r : Keyring) (now : Timestamp) (document : Bytes) (o : ProofOptions) :
    (∀ e, r.addProof now document o = .error e ↔ r.First document o e) ∧
    ((∃ out, r.addProof now document o = .ok out) ↔ ∀ e, ¬ r.Obstacle document o e) ∧
    ∀ out, r.addProof now document o = .ok out →
      ∃ members key proof signed, parseDocument document = .ok members ∧
        r.keys.get? o.verificationMethod = some key ∧
        NewProof key o (o.created.getD now) (unsecured members) proof ∧
        Denotes out signed ∧ Extends members proof signed ∧
        (Overfull members → parseDocument out = .error (.json .tooDeep)) ∧
        (¬ Overfull members → parseDocument out = .ok signed) := by
  refine ⟨fun e => addProof_eq_error, exists_addProof_iff, fun out hout => ?_⟩
  -- The clock is read for nothing but the time of creation, so the options may be taken to give it.
  rw [← addProof_filled] at hout
  obtain ⟨members, proof, hparse, hproof, rfl⟩ := (addProof_eq_newProof rfl now).mp hout
  obtain ⟨_, suite, key, ⟨⟩, hselect, hmade⟩ := newProof_eq_some.mp hproof
  obtain ⟨-, hsuite, hkey, -⟩ := select_eq_ok.mp hselect
  obtain ⟨hordered, hdepth⟩ := Json.ordered_of_parse (parseDocument_eq_ok.mp hparse)
  obtain ⟨hdeep, hread⟩ := parseDocument_withProof hordered hdepth hproof
  refine ⟨members, key, proof, withProof members proof, hparse, hkey, ?_,
    denotes_bytes (ordered_withProof hordered hproof), extends_withProof members proof, hdeep, hread⟩
  rw [hmade]
  exact newProof_makeProof key o hsuite _ _

end Keyring

/-! ### As deep as there is room for -/

namespace Sample

/-- Arrays around a null, as many as are asked for. -/
def nest : Nat → Value
  | 0 => .null
  | n + 1 => .array [nest n]

theorem ordered_nest (n : Nat) : (nest n).Ordered := by
  induction n with
  | zero => trivial
  | succ n ih => exact Value.ordered_array.mpr (List.forall_mem_singleton.mpr ih)

theorem depth_nest (n : Nat) : (nest n).depth = n := by
  induction n with
  | zero => rfl
  | succ n ih => rw [nest, Value.depth, Value.depthItems, Value.depthItems, ih, Nat.max_zero]

/-- A proof of another type with a member that is nested. -/
def nestedProof (n : Nat) : Object := [("a", nest n), ("type", .string "T")]

/-- A document with nothing but this proof. -/
def bare (n : Nat) : Object := [(proofName, .object (nestedProof n))]

theorem depth_nestedProof (n : Nat) : (Value.object (nestedProof n)).depth = n + 1 := by
  simp [nestedProof, Value.depth, Value.depthMembers, Value.depthMember, depth_nest]

theorem depth_bare (n : Nat) : (Value.object (bare n)).depth = n + 2 := by
  rw [bare, Value.depth, Value.depthMembers, Value.depthMember, depth_nestedProof]
  rfl

theorem ordered_bare (n : Nat) : (Value.object (bare n)).Ordered := by
  have hnames : "a" < "type" := by decide
  have hproof : (Value.object (nestedProof n)).Ordered := Value.ordered_object.mpr
    ⟨List.pairwise_pair.mpr hnames, List.forall_mem_cons.mpr ⟨ordered_nest n, List.forall_mem_singleton.mpr trivial⟩⟩
  exact Value.ordered_object.mpr ⟨List.pairwise_singleton _ _, List.forall_mem_singleton.mpr hproof⟩

theorem parseDocument_bare {n : Nat} (h : n + 2 ≤ Json.nestingLimit) :
    parseDocument (Value.object (bare n)).bytes = .ok (bare n) := by
  obtain ⟨hascending, hmembers⟩ := Value.ordered_object.mp (ordered_bare n)
  rw [parseDocument_bytes hmembers, if_pos (by rwa [depth_bare]), Dict.ofList_of_ascending hascending]

theorem newProof_bare (n : Nat) : ∃ proof, (Keyring.ofRegistrations registrations).newProof (unsecured (bare n))
    (context.resolve newYear).toOptions = some proof :=
  ⟨_, Keyring.newProof_eq_some.mpr ⟨newYear, .eddsa2022, key, rfl, select_context, rfl⟩⟩

end Sample

open Sample in
/-- A proof is put into a document whose only entry is as deep as it can be, and then nobody can read the document. -/
theorem Keyring.addProof_overfull :
    ∃ out, (ofRegistrations registrations).addProof newYear (Value.object (bare 125)).bytes
        (context.resolve newYear).toOptions = .ok out ∧
      parseDocument (Value.object (bare 125)).bytes = .ok (bare 125) ∧
      parseDocument out = .error (.json .tooDeep) := by
  have hread : parseDocument (Value.object (bare 125)).bytes = .ok (bare 125) := parseDocument_bare (by decide)
  have hdepth : (Value.object (bare 125)).depth ≤ Json.nestingLimit := by
    rw [depth_bare]
    decide
  obtain ⟨proof, hproof⟩ := newProof_bare 125
  have hfull : Overfull (bare 125) := ⟨nestedProof 125, rfl, depth_nestedProof 125⟩
  exact ⟨_, (addProof_eq_newProof rfl newYear).mpr ⟨_, proof, hread, hproof, rfl⟩, hread,
    (parseDocument_withProof (ordered_bare 125) hdepth hproof).1 hfull⟩

open Sample in
/-- With one level less the document can be read, and the new proof stands behind the entry. -/
theorem Keyring.addProof_end_to_end_nested :
    ∃ out signed proof, (ofRegistrations registrations).addProof newYear (Value.object (bare 124)).bytes
        (context.resolve newYear).toOptions = .ok out ∧
      parseDocument out = .ok signed ∧
      signed.get? proofName = some (.array [.object (nestedProof 124), .object proof]) ∧
      NewProof key (context.resolve newYear).toOptions newYear [] proof := by
  have hread : parseDocument (Value.object (bare 124)).bytes = .ok (bare 124) := parseDocument_bare (by decide)
  obtain ⟨made, hmade⟩ := newProof_bare 124
  have hout := (addProof_eq_newProof rfl newYear).mpr ⟨_, made, hread, hmade, rfl⟩
  obtain ⟨-, -, hsuccess⟩ := addProof_end_to_end (ofRegistrations registrations) newYear
    (Value.object (bare 124)).bytes (context.resolve newYear).toOptions
  obtain ⟨members, found, proof, signed, hparse, hkey, hnew, -, hextends, -, hsigned⟩ := hsuccess _ hout
  cases hread.symm.trans hparse
  cases hkey
  refine ⟨_, signed, proof, hout, hsigned ?_, hextends.behind (.object (nestedProof 124)) rfl nofun, hnew⟩
  rintro ⟨entry, hentry, hdepth⟩
  cases hentry
  rw [depth_nestedProof] at hdepth
  exact absurd hdepth (by decide)

end Attest
