import Attest.Document.Attachment
import Attest.Proofs.Json.Drafts
import Attest.Proofs.Json.Records

/-!
What the reader of a signed document sees. Of an object only the member `proof` is read, which may be named once.
Whatever else the object says is passed over and need not be readable.
-/

namespace Attest

open Json (Draft Ending Error Object Value)

/-! ### The member that is read -/

/-- A member that does not stop the reader: its name is a text, and it is `proof` or can be passed over. -/
def Passable (member : Except Error String × Draft) : Prop :=
  ∃ name, member.1 = .ok name ∧ (name ≠ proofName → member.2.skip = .ok ())

/-- What is read at the places of a member that may be named once, after what was read before. -/
inductive ReadAt (before : Option (Option Value)) : List Draft → Option (Option Value) → Prop
  | nowhere : ReadAt before [] before
  | once {d : Draft} {found : Option Value} (hbefore : before = none)
      (h : d.optionalValue (Json.nestingLimit - 1) = .ok found) : ReadAt before [d] (some found)

theorem readSignedMember_proof {before after : Option (Option Value)} {d : Draft} :
    readSignedMember before proofName d = .ok after ↔ ReadAt before [d] after := by
  rw [readSignedMember, if_pos rfl, Json.readOnce_eq_ok]
  constructor
  · rintro ⟨hbefore, found, hfound, rfl⟩
    exact .once hbefore hfound
  · rintro ⟨⟩
    exact ⟨‹_›, _, ‹_›, rfl⟩

theorem readSignedMember_other {name : String} (hname : name ≠ proofName) {before after : Option (Option Value)}
    {d : Draft} : readSignedMember before name d = .ok after ↔ d.skip = .ok () ∧ after = before := by
  rw [readSignedMember, if_neg hname]
  simp only [bind_eq_ok, pure_eq_ok, exists_and_right]
  exact ⟨fun ⟨⟨_, hskip⟩, hstate⟩ => ⟨hskip, hstate.symm⟩, fun ⟨hskip, hstate⟩ => ⟨⟨(), hskip⟩, hstate.symm⟩⟩

/-- What is read at several places is read at the first of them, and then at the others. -/
theorem readAt_cons {before after : Option (Option Value)} {d : Draft} {ds : List Draft} :
    ReadAt before (d :: ds) after ↔ ∃ next, ReadAt before [d] next ∧ ReadAt next ds after := by
  constructor
  · rintro ⟨⟩
    exact ⟨_, .once ‹_› ‹_›, .nowhere⟩
  · rintro ⟨_, ⟨⟩, hlater⟩
    cases hlater with
    | nowhere => exact .once ‹_› ‹_›
    | once hbefore => cases hbefore

/-- A run through members succeeds if none of them stops the reader and `proof` is named once at most. -/
theorem foldMembers_readSigned_eq_ok {members : List (Except Error String × Draft)} {ending : Ending}
    {before after : Option (Option Value)} :
    Draft.foldMembers readSignedMember members ending before = .ok after ↔
      ending.objectFault? = none ∧ (∀ member ∈ members, Passable member) ∧
        ReadAt before (Draft.places proofName members) after := by
  induction members generalizing before with
  | nil =>
      rw [Draft.foldMembers, List.foldlM_nil]
      simp only [bind_eq_ok, pure_eq_ok, Json.report_eq_ok]
      constructor
      · rintro ⟨_, rfl, _, hend, rfl⟩
        exact ⟨hend, List.forall_mem_nil _, .nowhere⟩
      · rintro ⟨hend, -, hread⟩
        cases hread
        exact ⟨_, rfl, (), hend, rfl⟩
  | cons member members ih =>
      obtain ⟨known, d⟩ := member
      have hcons : Draft.foldMembers readSignedMember ((known, d) :: members) ending before =
          (known >>= fun name => readSignedMember before name d) >>= fun next =>
            Draft.foldMembers readSignedMember members ending next := by
        rw [Draft.foldMembers, List.foldlM_cons]
        exact bind_assoc ..
      rw [hcons, List.forall_mem_cons]
      simp only [bind_eq_ok, ih]
      constructor
      · rintro ⟨next, ⟨name, rfl, hstep⟩, hend, hpassable, hread⟩
        by_cases hname : name = proofName
        · subst hname
          rw [Draft.places_cons_self, readAt_cons]
          exact ⟨hend, ⟨⟨_, rfl, absurd rfl⟩, hpassable⟩, next, readSignedMember_proof.mp hstep, hread⟩
        · obtain ⟨hskip, rfl⟩ := (readSignedMember_other hname).mp hstep
          rw [Draft.places_cons_of_ne (fun h => hname (Except.ok.inj h))]
          exact ⟨hend, ⟨⟨_, rfl, fun _ => hskip⟩, hpassable⟩, hread⟩
      · rintro ⟨hend, ⟨⟨name, hknown, hskip⟩, hpassable⟩, hread⟩
        cases hknown
        by_cases hname : name = proofName
        · subst hname
          rw [Draft.places_cons_self, readAt_cons] at hread
          obtain ⟨next, hfirst, hread⟩ := hread
          exact ⟨next, ⟨_, rfl, readSignedMember_proof.mpr hfirst⟩, hend, hpassable, hread⟩
        · rw [Draft.places_cons_of_ne (fun h => hname (Except.ok.inj h))] at hread
          exact ⟨before, ⟨_, rfl, (readSignedMember_other hname).mpr ⟨hskip hname, rfl⟩⟩, hend, hpassable, hread⟩

/-! ### Texts -/

/-- The object of a text does not stop the reader, and `held` is what stands there as `proof`, nothing if that is a
null. -/
def Shows (text : Bytes) (held : Option Value) : Prop :=
  ∃ members ending slot, Json.scan text = (.object members ending, false) ∧ ending.objectFault? = none ∧
    (∀ member ∈ members, Passable member) ∧ ReadAt none (Draft.places proofName members) slot ∧ held = slot.join

theorem decodeSigned_eq_ok {text : Bytes} (h : ∀ items ending, (Json.scan text).1 ≠ .array items ending)
    {ps : List Proof} : decodeSigned text = .ok ps ↔ ∃ held, Shows text held ∧ decodeProofs held = .ok ps := by
  rw [decodeSigned]
  simp only [bind_eq_ok, mapError_eq_ok, Json.decodeText_eq_ok]
  refine exists_congr fun held => and_congr_left fun _ => ?_
  rw [Shows]
  generalize Json.scan text = scanned at h
  obtain ⟨d, surplus⟩ := scanned
  cases d with
  | object members ending =>
      rw [signedProof]
      simp only [bind_eq_ok, pure_eq_ok, foldMembers_readSigned_eq_ok, Prod.mk.injEq, Draft.object.injEq]
      constructor
      · rintro ⟨⟨slot, ⟨hend, hpassable, hread⟩, rfl⟩, rfl⟩
        exact ⟨members, ending, slot, ⟨⟨rfl, rfl⟩, rfl⟩, hend, hpassable, hread, rfl⟩
      · rintro ⟨_, _, slot, ⟨⟨rfl, rfl⟩, rfl⟩, hend, hpassable, hread, rfl⟩
        exact ⟨⟨slot, ⟨hend, hpassable, hread⟩, rfl⟩, rfl⟩
  | array items ending => exact absurd rfl (h items ending)
  | _ =>
      constructor
      · rintro ⟨hfound, -⟩
        exact absurd hfound (Draft.unwanted_ne_ok _ _ _)
      · rintro ⟨_, _, _, hscan, -⟩
        cases hscan

/-- An object that shows something can be passed over as a whole. -/
theorem Shows.skip {text : Bytes} {held : Option Value} (h : Shows text held) :
    (Json.scan text).1.skip = .ok () ∧ (Json.scan text).2 = false := by
  obtain ⟨members, ending, slot, hscan, hend, hpassable, hread, -⟩ := h
  rw [hscan]
  refine ⟨?_, rfl⟩
  have hmembers : Draft.skipMembers members = .ok () := by
    refine Draft.skipMembers_eq_ok.mpr fun member hmember => ?_
    obtain ⟨name, hname, hskip⟩ := hpassable member hmember
    by_cases hproof : name = proofName
    · have hplace : member.2 ∈ Draft.places proofName members :=
        List.mem_filterMap.mpr ⟨member, hmember, if_pos (hproof ▸ hname)⟩
      generalize Draft.places proofName members = places at hread hplace
      cases hread with
      | nowhere => cases hplace
      | once _ hfound =>
          rw [List.mem_singleton.mp hplace]
          exact Draft.skip_of_optionalValue hfound
    · exact hskip hproof
  rw [Draft.skip, hmembers, ok_bind]
  exact Json.report_eq_ok.mpr hend

end Attest
