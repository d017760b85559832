import Attest.Proofs.Document.Proofs

/-!
The member `proof` as a code for lists of proofs. Each list of proofs has a member that holds it. Proofs are held by the
absent member, by null, by a bare proof and by an array of proofs, and by nothing else. Written back, a member is what
it was, except that one without any proofs becomes the empty array and an array of one proof becomes the proof. What
holds no proofs is refused for its kind, or for the first of its entries that is no proof.
-/

namespace Attest

open Json (Object Value)

/-- An object with a text as its type. -/
inductive ProofShaped : Value → Prop
  | typed {members : Object} {type : String} (htype : members.get? "type" = some (.string type)) :
      ProofShaped (.object members)

/-- The members `proof` that hold proofs. -/
inductive HoldsProofs : Option Value → Prop
  | absent : HoldsProofs none
  | null : HoldsProofs (some .null)
  | bare {v : Value} (hv : ProofShaped v) : HoldsProofs (some v)
  | array {entries : List Value} (hentries : ∀ entry ∈ entries, ProofShaped entry) :
      HoldsProofs (some (.array entries))

/-- What is wrong with an entry that is no proof. -/
inductive EntryDefect (index : Nat) : Value → ProofDecodeError → Prop
  | notObject {v : Value} (hv : ∀ members, v ≠ .object members) :
      EntryDefect index v (.entryNotObject index v.kind)
  | untyped {members : Object} (htype : ∀ type, members.get? "type" ≠ some (.string type)) :
      EntryDefect index (.object members) (.missingType index)

/-- What is wrong with a member `proof` that holds no proofs. Of the entries of an array the first one that is no proof
counts. -/
inductive MemberDefect : Option Value → ProofDecodeError → Prop
  | kind {v : Value} (hnull : v ≠ .null) (hobject : ∀ members, v ≠ .object members)
      (harray : ∀ entries, v ≠ .array entries) : MemberDefect (some v) (.invalidShape v.kind)
  | bare {members : Object} {e : ProofDecodeError} (h : EntryDefect 0 (.object members) e) :
      MemberDefect (some (.object members)) e
  | entry {before after : List Value} {v : Value} {e : ProofDecodeError} (hbefore : ∀ entry ∈ before, ProofShaped entry)
      (h : EntryDefect before.length v e) : MemberDefect (some (.array (before ++ v :: after))) e

/-- The member in which the proofs of a member are written back. -/
def writtenBack : Option Value → Value
  | none | some .null => .array []
  | some (.array [entry]) => entry
  | some v => v

/-! ### Entries -/

theorem isSome_typeText? {members : Object} :
    (typeText? members).isSome = true ↔ ∃ type, members.get? "type" = some (.string type) := by
  rw [typeText?]
  cases members.get? "type" with
  | none => simp
  | some v => cases v <;> simp [Value.string?]

/-- The values that are proofs. -/
theorem proofShaped_iff {v : Value} : ProofShaped v ↔ ∃ p : Proof, v = p.toJson := by
  constructor
  · rintro ⟨htype⟩
    exact ⟨⟨_, isSome_typeText?.mpr ⟨_, htype⟩⟩, rfl⟩
  · rintro ⟨p, rfl⟩
    obtain ⟨type, htype⟩ := isSome_typeText?.mp p.typed
    exact .typed htype

theorem forall_proofShaped_iff {entries : List Value} :
    (∀ entry ∈ entries, ProofShaped entry) ↔ ∃ ps : List Proof, entries = ps.map Proof.toJson := by
  constructor
  · intro h
    induction entries with
    | nil => exact ⟨[], rfl⟩
    | cons entry entries ih =>
        rw [List.forall_mem_cons] at h
        obtain ⟨p, rfl⟩ := proofShaped_iff.mp h.1
        obtain ⟨ps, rfl⟩ := ih h.2
        exact ⟨p :: ps, rfl⟩
  · rintro ⟨ps, rfl⟩ entry hentry
    obtain ⟨p, -, rfl⟩ := List.mem_map.mp hentry
    exact proofShaped_iff.mpr ⟨p, rfl⟩

/-- An entry is a proof or has a defect. -/
theorem proofShaped_or_defect (index : Nat) (v : Value) : ProofShaped v ∨ ∃ e, EntryDefect index v e := by
  cases v with
  | object members =>
      by_cases htype : ∃ type, Dict.get? members "type" = some (Value.string type)
      · obtain ⟨type, htype⟩ := htype
        exact .inl (.typed htype)
      · exact .inr ⟨_, .untyped (not_exists.mp htype)⟩
  | _ => exact .inr ⟨_, .notObject nofun⟩

theorem decodeEntries_toJson (index : Nat) (p : Proof) (entries : List Value) :
    decodeEntries index (p.toJson :: entries) = (p :: ·) <$> decodeEntries (index + 1) entries := by
  have hentry : Proof.ofEntry index p.members = .ok p := Proof.ofEntry_eq_ok.mpr rfl
  rw [Proof.toJson, decodeEntries, hentry]
  cases decodeEntries (index + 1) entries <;> rfl

theorem ofEntry_of_defect {index : Nat} {members : Object} {e : ProofDecodeError}
    (h : EntryDefect index (.object members) e) : Proof.ofEntry index members = .error e := by
  cases h with
  | notObject hv => exact absurd rfl (hv members)
  | untyped htype =>
      rw [Proof.ofEntry, dif_neg fun hsome => not_exists.mpr htype (isSome_typeText?.mp hsome)]

theorem decodeEntries_of_defect {index : Nat} {v : Value} {e : ProofDecodeError} (h : EntryDefect index v e)
    (entries : List Value) : decodeEntries index (v :: entries) = .error e := by
  cases v with
  | object members =>
      rw [decodeEntries, ofEntry_of_defect h]
      rfl
  | _ =>
      cases h
      rfl

/-- The entries of an array are refused for the first of them that is no proof. -/
theorem decodeEntries_eq_error {index : Nat} {entries : List Value} {e : ProofDecodeError} :
    decodeEntries index entries = .error e ↔
      ∃ before v after, entries = before ++ v :: after ∧ (∀ entry ∈ before, ProofShaped entry) ∧
        EntryDefect (index + before.length) v e := by
  constructor
  · intro h
    induction entries generalizing index with
    | nil => cases h
    | cons entry entries ih =>
        rcases proofShaped_or_defect index entry with hentry | ⟨cause, hcause⟩
        · obtain ⟨p, rfl⟩ := proofShaped_iff.mp hentry
          rw [decodeEntries_toJson] at h
          have hrest : decodeEntries (index + 1) entries = .error e := by
            cases hdecode : decodeEntries (index + 1) entries with
            | ok ps =>
                rw [hdecode] at h
                cases h
            | error cause =>
                rw [hdecode] at h
                cases h
                rfl
          obtain ⟨before, v, after, rfl, hbefore, hv⟩ := ih hrest
          refine ⟨p.toJson :: before, v, after, rfl, List.forall_mem_cons.mpr ⟨hentry, hbefore⟩, ?_⟩
          rwa [List.length_cons, Nat.add_comm before.length, ← Nat.add_assoc]
        · rw [decodeEntries_of_defect hcause] at h
          cases h
          exact ⟨[], entry, entries, rfl, List.forall_mem_nil _, hcause⟩
  · rintro ⟨before, v, after, rfl, hbefore, hv⟩
    induction before generalizing index with
    | nil => exact decodeEntries_of_defect hv after
    | cons entry before ih =>
        rw [List.forall_mem_cons] at hbefore
        obtain ⟨p, rfl⟩ := proofShaped_iff.mp hbefore.1
        rw [List.length_cons, Nat.add_comm before.length, ← Nat.add_assoc] at hv
        rw [List.cons_append, decodeEntries_toJson, ih hbefore.2 hv]
        rfl

/-! ### Members -/

theorem holdsProofs_iff {raw : Option Value} : HoldsProofs raw ↔ ∃ ps, decodeProofs raw = .ok ps := by
  constructor
  · rintro (_ | _ | hv | hentries)
    · exact ⟨[], rfl⟩
    · exact ⟨[], rfl⟩
    · obtain ⟨p, rfl⟩ := proofShaped_iff.mp hv
      exact ⟨[p], decodeProofs_eq_ok.mpr (.inr (.inl ⟨p, rfl, rfl⟩))⟩
    · obtain ⟨ps, rfl⟩ := forall_proofShaped_iff.mp hentries
      exact ⟨ps, decodeProofs_eq_ok.mpr (.inr (.inr rfl))⟩
  · rintro ⟨ps, hps⟩
    rcases decodeProofs_eq_ok.mp hps with ⟨rfl | rfl, -⟩ | ⟨p, rfl, -⟩ | rfl
    · exact .absent
    · exact .null
    · exact .bare (proofShaped_iff.mpr ⟨p, rfl⟩)
    · exact .array (forall_proofShaped_iff.mpr ⟨ps, rfl⟩)

theorem encodeProofs_of_decodeProofs {raw : Option Value} {ps : List Proof} (h : decodeProofs raw = .ok ps) :
    encodeProofs ps = writtenBack raw := by
  rcases decodeProofs_eq_ok.mp h with ⟨rfl | rfl, rfl⟩ | ⟨p, rfl, rfl⟩ | rfl
  · rfl
  · rfl
  · rfl
  · match ps with
    | [] => rfl
    | [p] => rfl
    | p :: q :: ps => rfl

theorem encodeProofs_injective : Function.Injective encodeProofs := by
  intro ps qs h
  have hdecoded := decodeProofs_encodeProofs ps
  rw [h, decodeProofs_encodeProofs] at hdecoded
  exact (Except.ok.inj hdecoded).symm

theorem decodeProofs_eq_error {raw : Option Value} {e : ProofDecodeError} :
    decodeProofs raw = .error e ↔ MemberDefect raw e := by
  constructor
  · intro h
    cases raw with
    | none => cases h
    | some v =>
        cases v with
        | null => cases h
        | object members =>
            rcases proofShaped_or_defect 0 (.object members) with hv | ⟨cause, hcause⟩
            · obtain ⟨ps, hps⟩ := holdsProofs_iff.mp (.bare hv)
              cases hps.symm.trans h
            · rw [decodeProofs, ofEntry_of_defect hcause] at h
              cases h
              exact .bare hcause
        | array entries =>
            obtain ⟨before, v, after, rfl, hbefore, hv⟩ := decodeEntries_eq_error.mp h
            rw [Nat.zero_add] at hv
            exact .entry hbefore hv
        | _ =>
            cases h
            exact .kind (fun heq => by cases heq) (fun _ heq => by cases heq) fun _ heq => by cases heq
  · rintro (⟨hnull, hobject, harray⟩ | h | ⟨hbefore, h⟩)
    · rename_i v
      cases v with
      | null => exact absurd rfl hnull
      | object members => exact absurd rfl (hobject members)
      | array entries => exact absurd rfl (harray entries)
      | _ => rfl
    · rw [decodeProofs, ofEntry_of_defect h]
      rfl
    · rw [decodeProofs]
      exact decodeEntries_eq_error.mpr ⟨_, _, _, rfl, hbefore, by rwa [Nat.zero_add]⟩

/-- A list of proofs is read back from its member. A member holds proofs exactly if it is absent, null, a proof or an
array of proofs; its proofs are those with which it is written back, up to the members without proofs and the arrays of
one. Every other member is refused for what is wrong with it first. -/
theorem member_holds_proofs :
    (∀ ps, decodeProofs (some (encodeProofs ps)) = .ok ps) ∧
      (∀ raw, (∃ ps, decodeProofs raw = .ok ps) ↔ HoldsProofs raw) ∧
      (∀ raw ps, decodeProofs raw = .ok ps ↔ HoldsProofs raw ∧ encodeProofs ps = writtenBack raw) ∧
      ∀ raw e, decodeProofs raw = .error e ↔ MemberDefect raw e := by
  refine ⟨decodeProofs_encodeProofs, fun _ => holdsProofs_iff.symm, fun raw ps => ⟨fun h => ?_, ?_⟩,
    fun _ _ => decodeProofs_eq_error⟩
  · exact ⟨holdsProofs_iff.mpr ⟨ps, h⟩, encodeProofs_of_decodeProofs h⟩
  · rintro ⟨hholds, hback⟩
    obtain ⟨qs, hqs⟩ := holdsProofs_iff.mp hholds
    have hsame : ps = qs := encodeProofs_injective (hback.trans (encodeProofs_of_decodeProofs hqs).symm)
    rw [hsame, hqs]

end Attest
