import Attest.Proofs.Document.AddedProof
import Attest.Proofs.Document.PresentationRoundTrip

/-!
Credentials in presentations. An embedded credential stands among the values of the presentation as it is written by
itself, through all proofs that the presentation gets and through its text, so it passes or fails there as it does
alone. But the presentation is nested two levels deeper than its credentials are, so some that were read from texts
can no longer be presented: the signer finds the presentation too deep.
-/

namespace Attest

open Json (Object Value)

namespace Presentation

variable {p : Presentation} {credentials : List Credential}

/-! ### The values of a presentation -/

theorem credentials_addCredentials {values : List Value} (h : p.credentials = .many values)
    (credentials : List Credential) :
    (p.addCredentials credentials).credentials = .many (values ++ credentials.map fun c => .object c.raw) := by
  induction credentials generalizing p values with
  | nil => rw [addCredentials, List.foldl_nil, h, List.map_nil, List.append_nil]
  | cons c credentials ih =>
      have hpushed : ({ p with credentials := p.credentials.push (.object c.raw) } : Presentation).credentials =
          .many (values ++ [.object c.raw]) := by rw [h, OneOrMany.push, OneOrMany.toList]
      have hrest := ih hpushed
      rw [List.append_assoc, List.singleton_append] at hrest
      exact hrest

/-- The objects of the credentials are put behind the values that are there. -/
theorem toList_addCredentials (p : Presentation) (credentials : List Credential) :
    (p.addCredentials credentials).credentials.toList =
      p.credentials.toList ++ credentials.map fun c => .object c.raw := by
  cases credentials with
  | nil => rw [addCredentials, List.foldl_nil, List.map_nil, List.append_nil]
  | cons c credentials =>
      have hpushed : ({ p with credentials := p.credentials.push (.object c.raw) } : Presentation).credentials =
          .many (p.credentials.toList ++ [.object c.raw]) := rfl
      have hrest := congrArg OneOrMany.toList (credentials_addCredentials hpushed credentials)
      rw [OneOrMany.toList, List.append_assoc] at hrest
      exact hrest

/-- Attempts to attach proofs leave the values alone. -/
theorem credentials_afterAttempts (p : Presentation) (requests : List Request) :
    (afterAttempts attempt p requests).credentials = p.credentials := by
  have hstep (q : Presentation) (r : Request) (next : Presentation) (hnext : attempt q r = (.ok (), next))
      (hq : q.credentials = p.credentials) : next.credentials = p.credentials := by
    obtain ⟨ps, -, rfl⟩ := addProof_eq_ok.mp hnext
    exact hq
  exact kept_afterAttempts allOrNothing_attempt hstep rfl requests

theorem Settled.afterAttempts (hp : p.Settled) (requests : List Request) :
    (Attest.afterAttempts Presentation.attempt p requests).Settled :=
  kept_afterAttempts allOrNothing_attempt (fun _ _ _ hnext hq => hq.attempt hnext) hp requests

/-- A value that says what a credential says, in the same bytes and to every verifier. -/
structure Intact (v : Value) (c : Credential) : Prop where
  text : v.bytes = c.toBytes
  verdict : ∀ options, verifyDocument v.bytes options = c.verify options
  reread : ∀ d, Credential.parse v.bytes = .ok d → d.raw = c.raw ∧ ∀ options, d.verify options = c.verify options
  unchanged : (∃ text, Credential.parse text = .ok c) → Credential.parse v.bytes = .ok c

theorem intact_object {c : Credential} (h : (Value.object c.raw).Ordered) : Intact (.object c.raw) c where
  text := rfl
  verdict _ := rfl
  reread d hd := by
    obtain ⟨hjson, -, -⟩ := Credential.parse_eq_ok.mp hd
    rw [Json.parse_bytes _ h] at hjson
    split at hjson
    · injection hjson with hobject
      injection hobject with hraw
      refine ⟨hraw.symm, fun options => ?_⟩
      rw [Credential.verify, Credential.verify, Credential.toBytes, Credential.toBytes, hraw]
    · cases hjson
  unchanged := by
    rintro ⟨text, htext⟩
    obtain ⟨hjson, hproofs, hcontents⟩ := Credential.parse_eq_ok.mp htext
    exact Credential.parse_eq_ok.mpr ⟨Json.parse_bytes_of_parse hjson, hproofs, hcontents⟩

/-- Credentials that are embedded in a presentation, to which proofs are attached then, are found in its text behind
the values that were there, in their order and each of them intact. -/
theorem embedded_intact {start : Presentation} (hstart : start = new ∨ ∃ text, parse text = .ok start)
    {before : List Action} (hbefore : ∀ action ∈ before, action.Ordered)
    (hcredentials : ∀ c ∈ credentials, (Value.object c.raw).Ordered) (requests : List Request)
    (hdepth : (afterAttempts attempt ((start.run before).addCredentials credentials) requests).toJson.depth ≤
      Json.nestingLimit) :
    ∃ read, parse (afterAttempts attempt ((start.run before).addCredentials credentials) requests).toBytes = .ok read ∧
      read.credentials.toList =
        (start.run before).credentials.toList ++ credentials.map (fun c => .object c.raw) ∧
      ∀ i c, credentials[i]? = some c →
        ∃ v, read.credentials.toList[(start.run before).credentials.toList.length + i]? = some v ∧ Intact v c := by
  have hsettled : start.Settled := by
    rcases hstart with rfl | ⟨text, htext⟩
    · exact settled_new
    · exact settled_of_parse htext
  have hend := ((hsettled.run hbefore).addCredentials hcredentials).afterAttempts requests
  have hvalues : (afterAttempts attempt ((start.run before).addCredentials credentials) requests).credentials.toList =
      (start.run before).credentials.toList ++ credentials.map fun c => .object c.raw := by
    rw [credentials_afterAttempts, toList_addCredentials]
  refine ⟨_, hend.parse_toBytes hdepth, hvalues, fun i c hc => ⟨.object c.raw, ?_, ?_⟩⟩
  · rw [hvalues, List.getElem?_append_right (Nat.le_add_right _ _), Nat.add_sub_cancel_left, List.getElem?_map, hc]
    rfl
  · exact intact_object (hcredentials c (List.mem_of_getElem? hc))

/-! ### How deep a presentation gets -/

/-- Values in an array are one level below the member that holds them. -/
theorem depth_manyMember {name : String} {values : List Value} {budget : Nat} :
    (∀ member ∈ manyMember name (fun v => v) (.many values), member.2.depth ≤ budget + 1) ↔
      ∀ v ∈ values, v.depth ≤ budget := by
  cases values with
  | nil => exact iff_of_true (List.forall_mem_nil _) (List.forall_mem_nil _)
  | cons v values =>
      rw [manyMember, OneOrMany.isEmpty, OneOrMany.toList, List.isEmpty_cons, if_neg Bool.false_ne_true,
        List.forall_mem_singleton, OneOrMany.toJson, List.map_id', Value.depth_array_le]

/-- A presentation of nothing but credentials is nested two levels deeper than they are. -/
theorem depth_addCredentials_new : (new.addCredentials credentials).toJson.depth ≤ Json.nestingLimit ↔
    ∀ c ∈ credentials, (Value.object c.raw).depth ≤ Json.nestingLimit - 2 := by
  have hmembers : (new.addCredentials credentials).members =
      [("@context", .array [.string contextV1]), ("type", .array [.string baseType])] ++
        manyMember "verifiableCredential" (fun v => v) (new.addCredentials credentials).credentials := by
    rw [members_eq]
    exact (List.append_nil _).trans (List.append_nil _)
  have hflat : ∀ member ∈ [("@context", Value.array [.string contextV1]), ("type", .array [.string baseType])],
      member.2.depth ≤ Json.nestingLimit - 1 := by decide
  refine (@Value.depth_object_le _ (Json.nestingLimit - 1)).trans ?_
  rw [hmembers, List.forall_mem_append, and_iff_right hflat, credentials_addCredentials rfl credentials,
    List.nil_append]
  exact depth_manyMember.trans List.forall_mem_map

theorem addProof_eq_signing {now : Timestamp} {context : ProofContext} {signer : Signer} {e : SigningError} :
    p.addProof now context signer = (.error (.signing e), p) ↔
      signer p.toBytes (context.resolve now).toOptions = .error e := by
  have hends := endsAs_concluded ⟨now, context, signer⟩ p.toBytes p.replaceProofs p
  rw [← addProof_eq] at hends
  rw [Prod.ext_iff, and_iff_left_of_imp (hends.unchanged _)]
  exact hends.signing e

/-- A signer with a suite and a key finds what is written for a presentation malformed if it is too deep. -/
theorem malformed_toBytes_iff (hp : p.Ordered) {ring : Keyring} {o : ProofOptions} {suite : Cryptosuite} {key : KeyPair}
    (hselect : ring.select o = .ok (suite, key)) (clock : Timestamp) (reason : String) :
    ring.addProof clock p.toBytes o = .error (.malformedDocument reason) ↔
      Json.nestingLimit < p.toJson.depth ∧ reason = (DocumentError.json .tooDeep).message := by
  rw [Keyring.addProof_eq_malformed hselect, toBytes, toJson, parseDocument_bytes fun _ => ordered_of_mem_members hp]
  split
  · rename_i hdepth
    refine iff_of_false ?_ fun h => absurd h.1 (Nat.not_lt.mpr hdepth)
    rintro ⟨cause, hcause, -⟩
    cases hcause
  · rename_i hdeep
    simp only [Except.error.injEq, exists_eq_left', Nat.lt_of_not_le hdeep, true_and]

/-- Credentials that were read from texts are presented in a new presentation with a proof, by a signer that has the
key, if they are nested two levels less deep than a text may be. If one of them is not, the signer reports that the
presentation is too deep, which is the only thing that it ever finds malformed in a presentation. -/
theorem present_read_credentials (hcredentials : ∀ c ∈ credentials, ∃ text, Credential.parse text = .ok c)
    {ring : Keyring} {context : ProofContext} {suite : Cryptosuite} {key : KeyPair}
    (hsuite : Cryptosuite.ofName? context.suite = some suite)
    (hkey : ring.keys.get? context.verificationMethod = some key) (halgorithm : key.algorithm = suite.algorithm)
    (now clock : Timestamp) :
    ((∀ c ∈ credentials, (Value.object c.raw).depth ≤ Json.nestingLimit - 2) →
      ∃ q, Makes ring now context (unsecured (Dict.ofList (new.addCredentials credentials).members)) q ∧
        (new.addCredentials credentials).addProof now context (ring.addProof clock) =
          (.ok (), { new.addCredentials credentials with proofs := [q] })) ∧
    (∀ c ∈ credentials, Json.nestingLimit - 2 < (Value.object c.raw).depth →
      (new.addCredentials credentials).addProof now context (ring.addProof clock) =
        (.error (.signing (.malformedDocument (DocumentError.json .tooDeep).message)),
          new.addCredentials credentials)) ∧
    ∀ p : Presentation, p.Ordered → ∀ reason,
      p.addProof now context (ring.addProof clock) = (.error (.signing (.malformedDocument reason)), p) ↔
        Json.nestingLimit < p.toJson.depth ∧ reason = (DocumentError.json .tooDeep).message := by
  have hselect : ring.select (context.resolve now).toOptions = .ok (suite, key) :=
    Keyring.select_eq_ok.mpr ⟨rfl, hsuite, hkey, halgorithm⟩
  have hvalues : ∀ c ∈ credentials, (Value.object c.raw).Ordered := by
    intro c hc
    obtain ⟨text, htext⟩ := hcredentials c hc
    exact (Credential.valid_parse htext).ordered
  have hordered := (settled_new.addCredentials hvalues).ordered
  have hmalformed {p : Presentation} (hp : p.Ordered) (reason : String) :
      p.addProof now context (ring.addProof clock) = (.error (.signing (.malformedDocument reason)), p) ↔
        Json.nestingLimit < p.toJson.depth ∧ reason = (DocumentError.json .tooDeep).message := by
    rw [addProof_eq_signing, malformed_toBytes_iff hp hselect]
  refine ⟨fun hshallow => ?_, fun c hc hdeep => ?_, fun p hp => hmalformed hp⟩
  · have hdepth := depth_addCredentials_new.mpr hshallow
    obtain ⟨signed, hsigned⟩ := exists_addProof hordered rfl rfl hdepth hselect clock
    obtain ⟨q, hq, hproofs⟩ := (signed_of_addProof hordered rfl hsigned).proofs
    rw [hproofs] at hsigned
    exact ⟨q, hq, hsigned⟩
  · refine (hmalformed hordered _).mpr ⟨Nat.lt_of_not_le fun hdepth => ?_, rfl⟩
    exact absurd (depth_addCredentials_new.mp hdepth c hc) (Nat.not_le.mpr hdeep)

end Presentation

namespace Sample

/-- The text of a credential with nothing but a nested member. -/
def nestedText (n : Nat) : Bytes := (Value.object [("a", nest n)]).bytes

def nestedCredential (n : Nat) : Credential := ⟨[("a", nest n)], { contents with custom := [("a", nest n)] }, []⟩

theorem parse_nestedText : Credential.parse (nestedText 124) = .ok (nestedCredential 124) ∧
    Credential.parse (nestedText 125) = .ok (nestedCredential 125) := by
  decide +kernel

end Sample

open Sample in
/-- A credential that is embedded in a presentation with one, to which a proof is attached after that. -/
theorem Presentation.embedded_intact_held :
    ∃ read, parse (afterAttempts attempt ((held.run embedding).addCredentials [nestedCredential 124])
        [⟨newYear, Sample.context, swap⟩]).toBytes = .ok read ∧
      read.credentials.toList = [.object proved.raw, .object (nestedCredential 124).raw] ∧
      Intact (.object (nestedCredential 124).raw) (nestedCredential 124) := by
  have hproved : (Value.object proved.raw).Ordered := (Credential.valid_parse parse_provedText).ordered
  have hnested : (Value.object (nestedCredential 124).raw).Ordered :=
    (Credential.valid_parse parse_nestedText.1).ordered
  have hbefore : ∀ action ∈ embedding, action.Ordered :=
    List.forall_mem_cons.mpr ⟨List.forall_mem_singleton.mpr hproved, List.forall_mem_singleton.mpr trivial⟩
  have hdepth : (afterAttempts attempt ((held.run embedding).addCredentials [nestedCredential 124])
      [⟨newYear, Sample.context, swap⟩]).toJson.depth ≤ Json.nestingLimit := by decide +kernel
  have hheld : (held.run embedding).credentials.toList = [.object proved.raw] := by decide +kernel
  obtain ⟨read, hread, hvalues, hintact⟩ := embedded_intact (.inr ⟨heldText, parse_heldText⟩) hbefore
    (List.forall_mem_singleton.mpr hnested) [⟨newYear, Sample.context, swap⟩] hdepth
  rw [hheld] at hvalues hintact
  obtain ⟨v, hv, hsame⟩ := hintact 0 (nestedCredential 124) rfl
  rw [hvalues] at hv
  cases hv
  exact ⟨read, hread, hvalues, hsame⟩

open Sample in
/-- A credential that was read from a text cannot be presented, though the key and the suite are there. -/
theorem Presentation.read_credential_too_deep :
    Credential.parse (nestedText 125) = .ok (nestedCredential 125) ∧
    Cryptosuite.ofName? Sample.context.suite = some .eddsa2022 ∧
    (Keyring.ofRegistrations registrations).keys.get? Sample.context.verificationMethod = some key ∧
    key.algorithm = Cryptosuite.eddsa2022.algorithm ∧
    (new.addCredentials [nestedCredential 125]).addProof newYear Sample.context
        ((Keyring.ofRegistrations registrations).addProof newYear) =
      (.error (.signing (.malformedDocument (DocumentError.json .tooDeep).message)),
        new.addCredentials [nestedCredential 125]) :=
  ⟨parse_nestedText.2, rfl, rfl, rfl, by decide +kernel⟩

open Sample in
/-- With one level less it is presented, and the presentation gets a proof. -/
theorem Presentation.present_read_credentials_nested :
    ∃ q, Makes (Keyring.ofRegistrations registrations) newYear Sample.context
        (unsecured (Dict.ofList (new.addCredentials [nestedCredential 124]).members)) q ∧
      (new.addCredentials [nestedCredential 124]).addProof newYear Sample.context
          ((Keyring.ofRegistrations registrations).addProof newYear) =
        (.ok (), { new.addCredentials [nestedCredential 124] with proofs := [q] }) := by
  have hparsed : ∀ c ∈ [nestedCredential 124], ∃ text, Credential.parse text = .ok c :=
    List.forall_mem_singleton.mpr ⟨nestedText 124, parse_nestedText.1⟩
  have hsuite : Cryptosuite.ofName? Sample.context.suite = some .eddsa2022 := rfl
  have hkey : (Keyring.ofRegistrations registrations).keys.get? Sample.context.verificationMethod = some key := rfl
  obtain ⟨hshallow, -, -⟩ := present_read_credentials hparsed hsuite hkey rfl newYear newYear
  refine hshallow (List.forall_mem_singleton.mpr ?_)
  decide +kernel

end Attest
