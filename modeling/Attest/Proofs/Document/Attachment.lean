import Attest.Document.Attachment
import Attest.Proofs.Document.Proofs
import Attest.Proofs.Document.Shown
import Attest.Proofs.Integrity.Signing
import Attest.Proofs.Json.RoundTrip

/-!
Attaching a proof. What a signer returns for a document is read back, and the proofs that are found are
those of the document followed by the one that the signer made.
-/

namespace Attest

open Json (Draft Object Value draftMember draftMembers)

/-! ### The proofs of a signed document -/

/-- A name of an object has one place, or none. -/
theorem places_draftMembers {members : Object} (h : Dict.Ascending members) (name : String) :
    Draft.places name (draftMembers members) = ((members.get? name).map Value.draft).toList := by
  induction members with
  | nil => rfl
  | cons member members ih =>
      obtain ⟨key, v⟩ := member
      rw [draftMembers, draftMember, Dict.get?_cons]
      split
      · rename_i hkey
        subst hkey
        rw [Draft.places_cons_self, ih h.tail, h.get?_tail]
        rfl
      · rename_i hkey
        rw [Draft.places_cons_of_ne fun heq => hkey (Except.ok.inj heq), ih h.tail]

theorem passable_draftMembers {members : List (String × Value)} (h : ∀ member ∈ members, member.2.Ordered) :
    ∀ member ∈ draftMembers members, Passable member := by
  induction members with
  | nil => exact List.forall_mem_nil _
  | cons member members ih =>
      obtain ⟨name, v⟩ := member
      rw [List.forall_mem_cons] at h
      refine List.forall_mem_cons.mpr ⟨⟨name, rfl, fun _ => ?_⟩, ih h.2⟩
      exact Draft.skip_of_value _ ((Draft.value_draft v v.depth h.1).trans (if_pos (Nat.le_refl _)))

theorem proofOf_eq_bind (members : Object) :
    proofOf members = (members.get? proofName).bind fun v => if v = .null then none else some v := by
  rw [proofOf]
  cases members.get? proofName with
  | none => rfl
  | some v => cases v <;> simp

/-- A signed document shows its proof, unless that is nested too deep. -/
theorem shows_object {members : Object} (h : (Value.object members).Ordered) {proof : Option Value} :
    Shows (Value.object members).bytes proof ↔
      (∀ v, members.get? proofName = some v → v.depth ≤ Json.nestingLimit - 1) ∧ proof = proofOf members := by
  obtain ⟨hascending, hmembers⟩ := Value.ordered_object.mp h
  have hplaces := places_draftMembers hascending proofName
  rw [Shows, Json.scan_bytes, Value.draft, proofOf_eq_bind]
  cases hproof : members.get? proofName with
  | none =>
      rw [hproof] at hplaces
      constructor
      · rintro ⟨_, _, slot, ⟨⟩, -, -, hread, rfl⟩
        rw [hplaces] at hread
        cases hread
        exact ⟨by simp, rfl⟩
      · rintro ⟨-, rfl⟩
        exact ⟨_, _, none, rfl, rfl, passable_draftMembers hmembers, hplaces ▸ .nowhere, rfl⟩
  | some v =>
      have hordered : v.Ordered := hmembers _ (Dict.mem_of_get? hproof)
      rw [hproof] at hplaces
      constructor
      · rintro ⟨_, _, slot, ⟨⟩, -, -, hread, rfl⟩
        rw [hplaces] at hread
        cases hread with
        | once _ hfound =>
            obtain ⟨hdepth, rfl⟩ := (Draft.optionalValue_draft v _ hordered).mp hfound
            exact ⟨fun w hw => Option.some.inj hw ▸ hdepth, rfl⟩
      · rintro ⟨hdepth, rfl⟩
        have hfound := (Draft.optionalValue_draft v _ hordered).mpr ⟨hdepth v rfl, rfl⟩
        exact ⟨_, _, some _, rfl, rfl, passable_draftMembers hmembers, hplaces ▸ .once rfl hfound, rfl⟩

theorem decodeProofs_proofOf (members : Object) :
    decodeProofs (proofOf members) = decodeProofs (members.get? proofName) := by
  rw [proofOf]
  cases members.get? proofName with
  | none => rfl
  | some v => cases v <;> rfl

/-- The proofs of a document are read from it alike whether a signer returned it or not, unless they are
nested too deep. -/
theorem decodeSigned_object {members : Object} (h : (Value.object members).Ordered) {ps : List Proof} :
    decodeSigned (Value.object members).bytes = .ok ps ↔
      (∀ v, members.get? proofName = some v → v.depth ≤ Json.nestingLimit - 1) ∧
        decodeProofs (members.get? proofName) = .ok ps := by
  have harray : ∀ items ending, (Json.scan (Value.object members).bytes).1 ≠ .array items ending := by
    rw [Json.scan_bytes]
    intro items ending heq
    cases heq
  rw [decodeSigned_eq_ok harray]
  simp only [shows_object h, and_assoc, exists_and_left, exists_eq_left, decodeProofs_proofOf]

/-! ### Signing a document -/

/-- A proof that a keyring makes for a context, filled in at a time, and for a document without proofs. -/
def Makes (ring : Keyring) (now : Timestamp) (context : ProofContext) (content : Object) (p : Proof) : Prop :=
  ∃ suite key, ring.select (context.resolve now).toOptions = .ok (suite, key) ∧
    p.members = makeProof key
      (proofConfiguration (context.resolve now).toOptions suite (context.created.getD now)) content

/-- What is made is a proof. -/
theorem typed_makeProof (key : KeyPair) (o : ProofOptions) (suite : Cryptosuite) (created : Timestamp)
    (content : Object) :
    (typeText? (makeProof key (proofConfiguration o suite created) content)).isSome = true := by
  rw [typeText?, get?_makeProof _ _ _ (by decide), get?_proofConfiguration]
  rfl

/-- Every member of what is made is a text. -/
theorem string_of_mem_makeProof {key : KeyPair} {o : ProofOptions} {suite : Cryptosuite} {created : Timestamp}
    {content : Object} {member : String × Value}
    (h : member ∈ makeProof key (proofConfiguration o suite created) content) :
    ∃ text, member.2 = .string text := by
  rcases Dict.mem_insert h with rfl | hmem
  · exact ⟨_, rfl⟩
  · exact string_of_mem_proofConfiguration hmem

theorem ordered_makeProof (key : KeyPair) (o : ProofOptions) (suite : Cryptosuite) (created : Timestamp)
    (content : Object) :
    (Value.object (makeProof key (proofConfiguration o suite created) content)).Ordered := by
  refine Value.ordered_object.mpr ⟨Dict.ascending_insert (ascending_proofConfiguration o suite created) _ _, ?_⟩
  intro member hmember
  obtain ⟨text, htext⟩ := string_of_mem_makeProof hmember
  rw [htext]
  trivial

/-- What is made holds nothing but texts. -/
theorem depth_makeProof (key : KeyPair) (o : ProofOptions) (suite : Cryptosuite) (created : Timestamp)
    (content : Object) (budget : Nat) :
    (Value.object (makeProof key (proofConfiguration o suite created) content)).depth ≤ budget + 1 := by
  refine Value.depth_object_le.mpr fun member hmember => ?_
  obtain ⟨text, htext⟩ := string_of_mem_makeProof hmember
  rw [htext]
  exact Nat.zero_le _

theorem ordered_appendProof {members : Object} (h : (Value.object members).Ordered) {proof : Value}
    (hproof : proof.Ordered) : (appendProof (proofOf members) proof).Ordered := by
  cases hexisting : proofOf members with
  | none => exact hproof
  | some existing =>
      have hmem := Dict.mem_of_get? (proofOf_eq_some.mp hexisting).1
      have hordered : existing.Ordered := (Value.ordered_object.mp h).2 _ hmem
      cases existing with
      | array entries =>
          have hentries := Value.ordered_array.mp hordered
          exact Value.ordered_array.mpr (List.forall_mem_append.mpr
            ⟨hentries, List.forall_mem_singleton.mpr hproof⟩)
      | _ => exact Value.ordered_array.mpr (List.forall_mem_cons.mpr
          ⟨hordered, List.forall_mem_singleton.mpr hproof⟩)

theorem ordered_insert {members : Object} (h : (Value.object members).Ordered) (name : String) {v : Value}
    (hv : v.Ordered) : (Value.object (Dict.insert members name v)).Ordered := by
  obtain ⟨hascending, hmembers⟩ := Value.ordered_object.mp h
  refine Value.ordered_object.mpr ⟨Dict.ascending_insert hascending _ _, fun member hmember => ?_⟩
  rcases Dict.mem_insert hmember with rfl | hmem
  · exact hv
  · exact hmembers member hmem

theorem ordered_erase {members : Object} (h : (Value.object members).Ordered) (name : String) :
    (Value.object (Dict.erase members name)).Ordered := by
  obtain ⟨hascending, hmembers⟩ := Value.ordered_object.mp h
  exact Value.ordered_object.mpr ⟨Dict.ascending_erase hascending name, fun member hmember =>
    hmembers member (Dict.mem_of_mem_erase hmember)⟩

theorem ordered_ofList {members : List (String × Value)} (h : ∀ member ∈ members, member.2.Ordered) :
    (Value.object (Dict.ofList members)).Ordered :=
  Value.ordered_object.mpr ⟨Dict.ascending_ofList members, fun member hmember =>
    h member (Dict.mem_of_mem_ofList hmember)⟩

theorem Makes.ordered {ring : Keyring} {now : Timestamp} {context : ProofContext} {content : Object} {p : Proof}
    (h : Makes ring now context content p) : p.toJson.Ordered := by
  obtain ⟨suite, key, -, hp⟩ := h
  rw [Proof.toJson, hp]
  exact ordered_makeProof ..

/-- A document is parsed to the map of its members, unless it is nested too deep. -/
theorem parseDocument_bytes {members : List (String × Value)} (hordered : ∀ member ∈ members, member.2.Ordered) :
    parseDocument (Value.object members).bytes =
      if (Value.object members).depth ≤ Json.nestingLimit then .ok (Dict.ofList members)
      else .error (.json .tooDeep) := by
  rw [parseDocument, Json.parse_object members hordered]
  by_cases hdepth : (Value.object members).depth ≤ Json.nestingLimit
  · rw [if_pos hdepth, if_pos hdepth]
  · rw [if_neg hdepth, if_neg hdepth]

theorem parseDocument_object {members : List (String × Value)} (hordered : ∀ member ∈ members, member.2.Ordered)
    {parsed : Object} :
    parseDocument (Value.object members).bytes = .ok parsed ↔
      (Value.object members).depth ≤ Json.nestingLimit ∧ parsed = Dict.ofList members := by
  rw [parseDocument_bytes hordered]
  split
  · rename_i hdepth
    rw [Except.ok.injEq, and_iff_right hdepth, eq_comm]
  · rename_i hdeep
    exact iff_of_false nofun fun h => hdeep h.1

/-- A document with a proof more shows that proof behind the others, unless they get nested too deep. -/
theorem decodeSigned_withProof {members : Object} (h : (Value.object members).Ordered) {ps : List Proof}
    (hps : decodeProofs (members.get? proofName) = .ok ps) {p : Proof} (hp : p.toJson.Ordered)
    {after : List Proof} :
    decodeSigned (Value.object (withProof members p.members)).bytes = .ok after ↔
      (appendProof (proofOf members) p.toJson).depth ≤ Json.nestingLimit - 1 ∧ after = ps ++ [p] := by
  have hsigned : (Value.object (withProof members p.members)).Ordered :=
    ordered_insert (ordered_erase h _) _ (ordered_appendProof h hp)
  have hget : Dict.get? (withProof members p.members) proofName = some (appendProof (proofOf members) p.toJson) :=
    Dict.get?_insert_self ..
  rw [decodeSigned_object hsigned, hget, decodeProofs_appendProof hps, Except.ok.injEq, eq_comm (a := after)]
  simp only [Option.some.injEq, forall_eq']

/-- A signer attaches to an object a proof that it made for the context, behind those that the object holds,
unless the object or the member of its proofs gets nested too deep. -/
theorem signDocument_eq_ok {members : List (String × Value)} (hordered : ∀ member ∈ members, member.2.Ordered)
    {before after : List Proof} (hbefore : decodeProofs ((Dict.ofList members).get? proofName) = .ok before)
    {ring : Keyring} {now clock : Timestamp} {context : ProofContext} :
    signDocument now (Value.object members).bytes context (ring.addProof clock) = .ok after ↔
      (Value.object members).depth ≤ Json.nestingLimit ∧
      ∃ p, Makes ring now context (unsecured (Dict.ofList members)) p ∧ after = before ++ [p] ∧
        (appendProof (proofOf (Dict.ofList members)) p.toJson).depth ≤ Json.nestingLimit - 1 := by
  have hparsed := ordered_ofList hordered
  rw [signDocument]
  simp only [bind_eq_ok, mapError_eq_ok, Keyring.addProof_eq_ok]
  constructor
  · rintro ⟨_, ⟨suite, key, parsed, hselect, hdocument, rfl⟩, hdecode⟩
    obtain ⟨hdepth, rfl⟩ := (parseDocument_object hordered).mp hdocument
    obtain ⟨p, hp⟩ : ∃ p : Proof, p.members = makeProof key (proofConfiguration (context.resolve now).toOptions suite
        (context.created.getD now)) (unsecured (Dict.ofList members)) := ⟨⟨_, typed_makeProof ..⟩, rfl⟩
    have hmakes : Makes ring now context (unsecured (Dict.ofList members)) p := ⟨suite, key, hselect, hp⟩
    obtain ⟨hnested, hafter⟩ := (decodeSigned_withProof hparsed hbefore hmakes.ordered).mp (by rw [hp]; exact hdecode)
    exact ⟨hdepth, p, hmakes, hafter, hnested⟩
  · rintro ⟨hdepth, p, hmakes, hafter, hnested⟩
    have hdecode := (decodeSigned_withProof hparsed hbefore hmakes.ordered).mpr ⟨hnested, hafter⟩
    obtain ⟨suite, key, hselect, hp⟩ := hmakes
    rw [hp] at hdecode
    exact ⟨_, ⟨suite, key, _, hselect, (parseDocument_object hordered).mpr ⟨hdepth, rfl⟩, rfl⟩, hdecode⟩

/-- A document without proofs can be signed with any key that is selected. -/
theorem exists_signDocument {members : List (String × Value)} (hordered : ∀ member ∈ members, member.2.Ordered)
    (hnone : (Dict.ofList members).get? proofName = none)
    (hdepth : (Value.object members).depth ≤ Json.nestingLimit) {ring : Keyring} {now : Timestamp}
    {context : ProofContext} {suite : Cryptosuite} {key : KeyPair}
    (hselect : ring.select (context.resolve now).toOptions = .ok (suite, key)) (clock : Timestamp) :
    ∃ p, signDocument now (Value.object members).bytes context (ring.addProof clock) = .ok [p] := by
  obtain ⟨p, hp⟩ : ∃ p : Proof, p.members = makeProof key (proofConfiguration (context.resolve now).toOptions suite
      (context.created.getD now)) (unsecured (Dict.ofList members)) := ⟨⟨_, typed_makeProof ..⟩, rfl⟩
  have hflat : p.toJson.depth ≤ Json.nestingLimit - 1 := by
    rw [Proof.toJson, hp]
    exact depth_makeProof ..
  refine ⟨p, (signDocument_eq_ok hordered (by rw [hnone]; rfl)).mpr
    ⟨hdepth, p, ⟨suite, key, hselect, hp⟩, rfl, ?_⟩⟩
  rw [proofOf, hnone]
  exact hflat

end Attest
