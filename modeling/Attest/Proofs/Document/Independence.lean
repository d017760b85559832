import Attest.Proofs.Document.Reading
import Attest.Proofs.Json.Drafts

/-!
Several proofs put into one document. A proof signs the document without any proofs, so it does not depend on the
proofs that are there, and in whatever order proofs are made, the document ends with the same proofs behind those
that it held, listed in the order in which they were made.
-/

namespace Attest

open Json (Object Value Draft)

/-! ### What a document says -/

/-- The object that a text denotes to a reader that goes as deep as the text does. -/
def Denotes (text : Bytes) (members : Object) : Prop :=
  ∃ budget, Json.decodeText (·.value budget) text = .ok (.object members)

theorem denotes_of_parseDocument {text : Bytes} {members : Object} (h : parseDocument text = .ok members) :
    Denotes text members := ⟨Json.nestingLimit, parseDocument_eq_ok.mp h⟩

theorem denotes_bytes {members : Object} (h : (Value.object members).Ordered) :
    Denotes (Value.object members).bytes members := by
  refine ⟨(Value.object members).depth, ?_⟩
  rw [Json.decodeText_bytes, Draft.value_draft _ _ h, if_pos (Nat.le_refl _)]

theorem Denotes.ordered {text : Bytes} {members : Object} (h : Denotes text members) :
    (Value.object members).Ordered := by
  obtain ⟨budget, hbudget⟩ := h
  exact (Draft.ordered_of_value _ _ (Json.decodeText_eq_ok.mp hbudget).1).1

/-- A text denotes one object. -/
theorem Denotes.unique {text : Bytes} {members others : Object} (h : Denotes text members)
    (h' : Denotes text others) : members = others := by
  obtain ⟨budget, hbudget⟩ := h
  obtain ⟨budget', hbudget'⟩ := h'
  have hread := Draft.value_of_le _ (Nat.le_max_left budget budget') (Json.decodeText_eq_ok.mp hbudget).1
  have hread' := Draft.value_of_le _ (Nat.le_max_right budget budget') (Json.decodeText_eq_ok.mp hbudget').1
  exact Value.object.inj (Except.ok.inj (hread.symm.trans hread'))

/-- A text denotes an object with this content and with these entries under `proof`. -/
def Carries (text : Bytes) (content : Object) (entries : List Value) : Prop :=
  ∃ members, Denotes text members ∧ unsecured members = content ∧ heldEntries members = entries

theorem carries_of_parseDocument {text : Bytes} {members : Object} (h : parseDocument text = .ok members) :
    Carries text (unsecured members) (heldEntries members) := ⟨members, denotes_of_parseDocument h, rfl, rfl⟩

/-! ### One more proof -/

theorem unsecured_withProof (members proof : Object) : unsecured (withProof members proof) = unsecured members :=
  (Dict.erase_insert _ _ _).trans (Dict.erase_erase _ _)

theorem heldEntries_withProof (members proof : Object) :
    heldEntries (withProof members proof) = heldEntries members ++ [.object proof] := by
  have hget : Dict.get? (withProof members proof) proofName =
      some (appendProof (proofOf members) (.object proof)) := Dict.get?_insert_self ..
  rw [heldEntries, proofOf, hget, heldEntries]
  cases proofOf members with
  | none => rfl
  | some existing => cases existing <;> rfl

namespace Keyring

/-- The proof that a keyring makes of a document without proofs with options that give its time of creation. -/
def newProof (r : Keyring) (content : Object) (o : ProofOptions) : Option Object := do
  let created ← o.created
  let (suite, key) ← (r.select o).toOption
  return makeProof key (proofConfiguration o suite created) content

variable {r : Keyring} {content : Object} {o : ProofOptions} {proof : Object}

theorem newProof_eq_some : r.newProof content o = some proof ↔
    ∃ created suite key, o.created = some created ∧ r.select o = .ok (suite, key) ∧
      proof = makeProof key (proofConfiguration o suite created) content := by
  rw [newProof]
  cases o.created with
  | none => simp
  | some created =>
      cases r.select o with
      | error e => simp [Except.toOption]
      | ok selected =>
          obtain ⟨suite, key⟩ := selected
          simp [Except.toOption, eq_comm]

theorem ordered_newProof (h : r.newProof content o = some proof) : (Value.object proof).Ordered := by
  obtain ⟨created, suite, key, -, -, rfl⟩ := newProof_eq_some.mp h
  exact ordered_makeProof ..

theorem depth_newProof (h : r.newProof content o = some proof) {budget : Nat} :
    (Value.object proof).depth ≤ budget + 1 := by
  obtain ⟨created, suite, key, -, -, rfl⟩ := newProof_eq_some.mp h
  exact depth_makeProof ..

/-- With options that give the time of creation the clock does not matter, and the proof that is put into a document
is made of the document without its proofs. -/
theorem addProof_eq_newProof (hcreated : o.created.isSome = true) (now : Timestamp) {document out : Bytes} :
    r.addProof now document o = .ok out ↔
      ∃ members proof, parseDocument document = .ok members ∧ r.newProof (unsecured members) o = some proof ∧
        out = (Value.object (withProof members proof)).bytes := by
  obtain ⟨created, hsome⟩ := Option.isSome_iff_exists.mp hcreated
  simp only [addProof_eq_ok, newProof_eq_some, hsome, Option.getD_some, Option.some.injEq]
  constructor
  · rintro ⟨suite, key, members, hselect, hparse, rfl⟩
    exact ⟨members, _, hparse, ⟨created, suite, key, rfl, hselect, rfl⟩, rfl⟩
  · rintro ⟨members, _, hparse, ⟨_, suite, key, rfl, hselect, rfl⟩, rfl⟩
    exact ⟨suite, key, members, hselect, hparse, rfl⟩

theorem ordered_withProof {members : Object} (h : (Value.object members).Ordered)
    (hproof : r.newProof content o = some proof) : (Value.object (withProof members proof)).Ordered :=
  ordered_insert (ordered_erase h _) _ (ordered_appendProof h (ordered_newProof hproof))

/-- A signer leaves the content of a document as it is, and puts the proof that it makes of the content behind the
entries. -/
theorem carries_of_addProof (hcreated : o.created.isSome = true) {now : Timestamp} {document out : Bytes}
    {entries : List Value} (h : Carries document content entries) (hout : r.addProof now document o = .ok out) :
    ∃ proof, r.newProof content o = some proof ∧ Carries out content (entries ++ [.object proof]) := by
  obtain ⟨parsed, proof, hparse, hproof, rfl⟩ := (addProof_eq_newProof hcreated now).mp hout
  obtain ⟨members, hdenotes, rfl, rfl⟩ := h
  obtain rfl := hdenotes.unique (denotes_of_parseDocument hparse)
  exact ⟨proof, hproof, _, denotes_bytes (ordered_withProof hdenotes.ordered hproof),
    unsecured_withProof members proof, heldEntries_withProof members proof⟩

/-! ### How deep a document gets -/

/-- There is room for more proofs: no member and no entry is so deep that a document with a proof behind the
entries could not be read. -/
def Roomy (content : Object) (entries : List Value) : Prop :=
  (∀ member ∈ content, member.2.depth ≤ Json.nestingLimit - 1) ∧ ∀ entry ∈ entries, entry.depth ≤ Json.nestingLimit - 2

theorem depth_appendProof_le {members : Object} (hproof : r.newProof content o = some proof) :
    (appendProof (proofOf members) (.object proof)).depth ≤ Json.nestingLimit - 1 ↔
      ∀ entry ∈ heldEntries members, entry.depth ≤ Json.nestingLimit - 2 := by
  have hflat : (Value.object proof).depth ≤ Json.nestingLimit - 2 := depth_newProof hproof
  have hmany (entries : List Value) : (Value.array (entries ++ [.object proof])).depth ≤ Json.nestingLimit - 1 ↔
      ∀ entry ∈ entries, entry.depth ≤ Json.nestingLimit - 2 := by
    refine (@Value.depth_array_le _ (Json.nestingLimit - 2)).trans ?_
    rw [List.forall_mem_append, List.forall_mem_singleton, and_iff_left hflat]
  rw [heldEntries]
  cases proofOf members with
  | none => exact iff_of_true (Nat.le_succ_of_le hflat) (List.forall_mem_nil _)
  | some existing =>
      cases existing with
      | array entries => exact hmany entries
      | _ => exact hmany [_]

/-- A document with a new proof can be read exactly if there was room for it. -/
theorem depth_withProof_le {members : Object} (hmembers : Dict.Ascending members)
    (hproof : r.newProof content o = some proof) :
    (Value.object (withProof members proof)).depth ≤ Json.nestingLimit ↔
      Roomy (unsecured members) (heldEntries members) := by
  rw [Roomy, ← depth_appendProof_le hproof]
  refine (@Value.depth_object_le _ (Json.nestingLimit - 1)).trans ⟨fun h => ⟨?_, ?_⟩, fun h => ?_⟩
  · rintro ⟨name, v⟩ hmember
    refine h (name, v) (Dict.mem_of_get? ?_)
    have hname : name ≠ proofName := of_decide_eq_true (List.mem_filter.mp hmember).2
    rw [withProof, Dict.get?_insert_of_ne _ hname]
    exact Dict.get?_of_mem (Dict.ascending_erase hmembers _) hmember
  · exact h (proofName, _) (Dict.mem_of_get? (Dict.get?_insert_self ..))
  · intro member hmember
    rcases Dict.mem_insert hmember with rfl | hmem
    · exact h.2
    · exact h.1 member hmem

theorem Roomy.append {entries : List Value} (h : Roomy content entries) {other : Object}
    (hproof : r.newProof other o = some proof) : Roomy content (entries ++ [.object proof]) :=
  ⟨h.1, List.forall_mem_append.mpr ⟨h.2, List.forall_mem_singleton.mpr (depth_newProof hproof)⟩⟩

/-! ### Proofs put in one after the other -/

/-- A document after proofs have been put into it one after the other, each at a time of its own. -/
def addProofs (r : Keyring) (document : Bytes) (calls : List (Timestamp × ProofOptions)) :
    Except SigningError Bytes := calls.foldlM (fun text call => r.addProof call.1 text call.2) document

theorem addProofs_cons_eq_ok {document out : Bytes} {call : Timestamp × ProofOptions}
    {calls : List (Timestamp × ProofOptions)} :
    r.addProofs document (call :: calls) = .ok out ↔
      ∃ next, r.addProof call.1 document call.2 = .ok next ∧ r.addProofs next calls = .ok out := by
  rw [addProofs, List.foldlM_cons, bind_eq_ok]
  rfl

/-- The members of the proof that a keyring makes; none if it makes no proof. -/
def newMembers (r : Keyring) (content : Object) (o : ProofOptions) : Object := (r.newProof content o).getD []

variable {calls : List (Timestamp × ProofOptions)}

/-- A run keeps the content, makes a proof of it with each of the options, and puts these behind the entries. -/
theorem carries_of_addProofs (hcreated : ∀ call ∈ calls, call.2.created.isSome = true) {document out : Bytes}
    {entries : List Value} (h : Carries document content entries) (hout : r.addProofs document calls = .ok out) :
    (∀ call ∈ calls, ∃ proof, r.newProof content call.2 = some proof) ∧
      Carries out content (entries ++ calls.map fun call => .object (r.newMembers content call.2)) := by
  induction calls generalizing document entries with
  | nil =>
      cases hout
      exact ⟨List.forall_mem_nil _, by rwa [List.map_nil, List.append_nil]⟩
  | cons call calls ih =>
      rw [List.forall_mem_cons] at hcreated
      obtain ⟨next, hnext, hout⟩ := addProofs_cons_eq_ok.mp hout
      obtain ⟨proof, hproof, hcarries⟩ := carries_of_addProof hcreated.1 h hnext
      obtain ⟨hmade, hrun⟩ := ih hcreated.2 hcarries hout
      refine ⟨List.forall_mem_cons.mpr ⟨⟨proof, hproof⟩, hmade⟩, ?_⟩
      rwa [List.map_cons, newMembers, hproof, Option.getD_some, ← List.singleton_append, ← List.append_assoc]

/-- A run of two proofs or more finds room for them. -/
theorem roomy_of_addProofs (hcreated : ∀ call ∈ calls, call.2.created.isSome = true) {document out : Bytes}
    {members : Object} (hdocument : parseDocument document = .ok members)
    (hout : r.addProofs document calls = .ok out) (hmany : 2 ≤ calls.length) :
    Roomy (unsecured members) (heldEntries members) := by
  match calls with
  | [] | [_] => simp at hmany
  | first :: second :: rest =>
      obtain ⟨next, hnext, hout⟩ := addProofs_cons_eq_ok.mp hout
      obtain ⟨after, hafter, -⟩ := addProofs_cons_eq_ok.mp hout
      simp only [List.forall_mem_cons] at hcreated
      obtain ⟨parsed, proof, hparse, hproof, rfl⟩ := (addProof_eq_newProof hcreated.1 first.1).mp hnext
      obtain ⟨read, -, hread, -, -⟩ := (addProof_eq_newProof hcreated.2.1 second.1).mp hafter
      obtain rfl := Except.ok.inj (hparse.symm.trans hdocument)
      -- The second proof is put into a text that can be read, so the first one did not make it too deep.
      have hordered := (Json.ordered_of_parse (parseDocument_eq_ok.mp hdocument)).1
      have hvalues := (Value.ordered_object.mp (ordered_withProof hordered hproof)).2
      exact (depth_withProof_le (Value.ordered_object.mp hordered).1 hproof).mp
        ((parseDocument_object hvalues).mp hread).1

/-- A document can be signed with options that give the time of creation and with which a proof can be made. -/
theorem exists_addProofs (hcreated : ∀ call ∈ calls, call.2.created.isSome = true) {document : Bytes}
    {members : Object} (hdocument : parseDocument document = .ok members)
    (hmade : ∀ call ∈ calls, ∃ proof, r.newProof (unsecured members) call.2 = some proof)
    (hroom : 2 ≤ calls.length → Roomy (unsecured members) (heldEntries members)) :
    ∃ out, r.addProofs document calls = .ok out := by
  induction calls generalizing document members with
  | nil => exact ⟨document, rfl⟩
  | cons call calls ih =>
      rw [List.forall_mem_cons] at hcreated hmade
      obtain ⟨proof, hproof⟩ := hmade.1
      have hnext := (addProof_eq_newProof hcreated.1 call.1).mpr ⟨members, proof, hdocument, hproof, rfl⟩
      cases calls with
      | nil => exact ⟨_, addProofs_cons_eq_ok.mpr ⟨_, hnext, rfl⟩⟩
      | cons second rest =>
          have hroomy := hroom (by simp)
          have hordered := (Json.ordered_of_parse (parseDocument_eq_ok.mp hdocument)).1
          obtain ⟨hascending, -⟩ := Value.ordered_object.mp hordered
          have hsigned := ordered_withProof hordered hproof
          have hread : parseDocument (Value.object (withProof members proof)).bytes = .ok (withProof members proof) :=
            (parseDocument_object (Value.ordered_object.mp hsigned).2).mpr
              ⟨(depth_withProof_le hascending hproof).mpr hroomy,
                (Dict.ofList_of_ascending (Value.ordered_object.mp hsigned).1).symm⟩
          have hcontent := unsecured_withProof members proof
          obtain ⟨out, hout⟩ := ih hcreated.2 hread (by rw [hcontent]; exact hmade.2) fun _ => by
            rw [hcontent, heldEntries_withProof]
            exact hroomy.append hproof
          exact ⟨out, addProofs_cons_eq_ok.mpr ⟨_, hnext, hout⟩⟩

/-- Proofs with options that give their times of creation can be put into a document in any order if they can in one.
Each order leaves the content as it is and puts the same proofs, in its own order, behind the entries; and the proof
for given options is the one that any document with the same content gets. -/
theorem addProofs_perm (r : Keyring) (document : Bytes) (members : Object)
    (hdocument : parseDocument document = .ok members) (calls calls' : List (Timestamp × ProofOptions))
    (hcreated : ∀ call ∈ calls, call.2.created.isSome = true)
    (horders : (calls.map Prod.snd).Perm (calls'.map Prod.snd)) (out : Bytes)
    (hout : r.addProofs document calls = .ok out) :
    ∃ (made : ProofOptions → Object) (out' : Bytes), r.addProofs document calls' = .ok out' ∧
      Carries out (unsecured members) (heldEntries members ++ calls.map fun call => .object (made call.2)) ∧
      Carries out' (unsecured members) (heldEntries members ++ calls'.map fun call => .object (made call.2)) ∧
      ∀ o ∈ calls.map Prod.snd, ∀ other others now, parseDocument other = .ok others →
        unsecured others = unsecured members → ∃ signed, r.addProof now other o = .ok signed ∧
          Carries signed (unsecured members) (heldEntries others ++ [.object (made o)]) := by
  have hdocumented := carries_of_parseDocument hdocument
  have hoptions {P : ProofOptions → Prop} (h : ∀ call ∈ calls, P call.2) : ∀ call ∈ calls', P call.2 := by
    rw [← List.forall_mem_map (f := Prod.snd)] at h ⊢
    exact fun o ho => h o (horders.mem_iff.mpr ho)
  have hlength : calls'.length = calls.length := by
    simpa using horders.length_eq.symm
  obtain ⟨hmade, hcarries⟩ := carries_of_addProofs hcreated hdocumented hout
  have hcreated' := hoptions (P := fun o => o.created.isSome = true) hcreated
  have hmade' := hoptions (P := fun o => ∃ proof, r.newProof (unsecured members) o = some proof) hmade
  obtain ⟨out', hout'⟩ := exists_addProofs hcreated' hdocument hmade' fun hmany =>
    roomy_of_addProofs hcreated hdocument hout (hlength ▸ hmany)
  obtain ⟨-, hcarries'⟩ := carries_of_addProofs hcreated' hdocumented hout'
  refine ⟨r.newMembers (unsecured members), out', hout', hcarries, hcarries', ?_⟩
  rw [List.forall_mem_map]
  intro call hcall other others now hother hcontent
  obtain ⟨proof, hproof⟩ := hmade call hcall
  have hsigned := (addProof_eq_newProof (hcreated call hcall) now).mpr
    ⟨others, proof, hother, by rw [hcontent]; exact hproof, rfl⟩
  obtain ⟨proof', hproof', hentries⟩ :=
    carries_of_addProof (hcreated call hcall) (carries_of_parseDocument hother) hsigned
  rw [hcontent] at hproof' hentries
  exact ⟨_, hsigned, by rwa [newMembers, hproof', Option.getD_some]⟩

end Keyring

namespace Sample

/-- The options of the context with a challenge. -/
def challenged (challenge : String) : ProofOptions := { (context.resolve newYear).toOptions with challenge }

/-- A document with a proof of another type. -/
def foreign : Object := custom ++ [(proofName, .object [("type", .string "T")])]

end Sample

open Sample in
/-- Two proofs with different challenges, put in either order behind a proof of another type. -/
theorem Keyring.addProofs_perm_sample :
    ∃ first second out out',
      (ofRegistrations registrations).addProofs (Value.object foreign).bytes
        [(newYear, challenged "a"), (newYear, challenged "b")] = .ok out ∧
      (ofRegistrations registrations).addProofs (Value.object foreign).bytes
        [(newYear, challenged "b"), (newYear, challenged "a")] = .ok out' ∧
      Carries out custom [.object [("type", .string "T")], .object first, .object second] ∧
      Carries out' custom [.object [("type", .string "T")], .object second, .object first] := by
  have hdocument : parseDocument (Value.object foreign).bytes = .ok foreign := by decide +kernel
  have hcreated : ∀ call ∈ [(newYear, challenged "a"), (newYear, challenged "b")], call.2.created.isSome = true := by
    decide
  have hmade (challenge : String) : ∃ proof,
      (ofRegistrations registrations).newProof (unsecured foreign) (challenged challenge) = some proof :=
    ⟨_, newProof_eq_some.mpr ⟨newYear, .eddsa2022, key, rfl, rfl, rfl⟩⟩
  obtain ⟨out, hout⟩ := exists_addProofs (r := ofRegistrations registrations) hcreated hdocument
    (by simp [hmade]) fun _ => ⟨by decide, by decide⟩
  obtain ⟨made, out', hout', hcarries, hcarries', -⟩ := addProofs_perm (ofRegistrations registrations) _ foreign
    hdocument _ [(newYear, challenged "b"), (newYear, challenged "a")] hcreated (.swap _ _ []) out hout
  exact ⟨made (challenged "a"), made (challenged "b"), out, out', hout, hout', hcarries, hcarries'⟩

end Attest
