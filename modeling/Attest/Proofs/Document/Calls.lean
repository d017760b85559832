import Attest.Document.Presentation
import Attest.Proofs.Outcome

/-!
Attempts that may fail, one after the other. An attempt ends well or with an error, and either way it leaves the thing
it was made on in some state. Those that fail might as well not have been made if each of them leaves the thing as it
found it. The attaching of a proof does: a credential and a presentation are changed only once the proofs of the signed
document have been read.
-/

namespace Attest

/-! ### Runs of attempts -/

section Runs

variable {σ ρ ε : Type} (attempt : σ → ρ → Except ε Unit × σ)

/-- What an attempt leaves, however it ends. -/
def afterAttempt (s : σ) (r : ρ) : σ := (attempt s r).2

/-- What attempts leave that are made one after the other. -/
def afterAttempts (s : σ) (rs : List ρ) : σ := rs.foldl (afterAttempt attempt) s

/-- Those of the attempts that do not fail when it is their turn. -/
def successfulAttempts : σ → List ρ → List ρ
  | _, [] => []
  | s, r :: rs =>
    match attempt s r with
    | (.ok (), next) => r :: successfulAttempts next rs
    | (.error _, next) => successfulAttempts next rs

/-- An attempt that fails leaves everything as it was. -/
def AllOrNothing : Prop := ∀ s r e next, attempt s r = (.error e, next) → next = s

variable {attempt}

theorem afterAttempts_cons_ok {s next : σ} {r : ρ} (h : attempt s r = (.ok (), next)) (rs : List ρ) :
    afterAttempts attempt s (r :: rs) = afterAttempts attempt next rs ∧
      successfulAttempts attempt s (r :: rs) = r :: successfulAttempts attempt next rs := by
  rw [afterAttempts, List.foldl_cons, afterAttempt, successfulAttempts, h]
  exact ⟨rfl, rfl⟩

theorem afterAttempts_cons_error (hnothing : AllOrNothing attempt) {s next : σ} {r : ρ} {e : ε}
    (h : attempt s r = (.error e, next)) (rs : List ρ) :
    afterAttempts attempt s (r :: rs) = afterAttempts attempt s rs ∧
      successfulAttempts attempt s (r :: rs) = successfulAttempts attempt s rs := by
  obtain rfl := hnothing _ _ _ _ h
  rw [afterAttempts, List.foldl_cons, afterAttempt, successfulAttempts, h]
  exact ⟨rfl, rfl⟩

/-- The attempts that fail can be left out. -/
theorem afterAttempts_successful (hnothing : AllOrNothing attempt) (s : σ) (rs : List ρ) :
    afterAttempts attempt s (successfulAttempts attempt s rs) = afterAttempts attempt s rs ∧
      successfulAttempts attempt s (successfulAttempts attempt s rs) = successfulAttempts attempt s rs := by
  induction rs generalizing s with
  | nil => exact ⟨rfl, rfl⟩
  | cons r rs ih =>
      rcases h : attempt s r with ⟨e | _, next⟩
      · obtain ⟨hafter, hsuccessful⟩ := afterAttempts_cons_error hnothing h rs
        rw [hsuccessful, hafter]
        exact ih s
      · obtain ⟨hafter, hsuccessful⟩ := afterAttempts_cons_ok h rs
        obtain ⟨hafter', hsuccessful'⟩ := afterAttempts_cons_ok h (successfulAttempts attempt next rs)
        rw [hsuccessful, hafter', hafter, hsuccessful', (ih next).1, (ih next).2]
        exact ⟨rfl, rfl⟩

/-- What each success keeps is kept by a run. -/
theorem kept_afterAttempts (hnothing : AllOrNothing attempt) {kept : σ → Prop}
    (hstep : ∀ s r next, attempt s r = (.ok (), next) → kept s → kept next) {s : σ} (hs : kept s) (rs : List ρ) :
    kept (afterAttempts attempt s rs) := by
  induction rs generalizing s with
  | nil => exact hs
  | cons r rs ih =>
      rcases h : attempt s r with ⟨e | _, next⟩
      · rw [(afterAttempts_cons_error hnothing h rs).1]
        exact ih hs
      · rw [(afterAttempts_cons_ok h rs).1]
        exact ih (hstep _ _ _ h hs)

end Runs

/-! ### Requests for proofs -/

/-- A request for proofs: a context, the time at which it is filled in, and a signer. -/
structure Request where
  now : Timestamp
  context : ProofContext
  signer : Signer

/-- How a request ends, and what it leaves, given the proofs of the signed document or why there are none to be had. -/
def concluded {σ : Type} (answer : Except IntegrityError (List Proof)) (attached : List Proof → σ) (before : σ) :
    Except IntegrityError Unit × σ :=
  match answer with
  | .ok ps => (.ok (), attached ps)
  | .error e => (.error e, before)

theorem concluded_eq_ok {σ : Type} {answer : Except IntegrityError (List Proof)} {attached : List Proof → σ}
    {before after : σ} :
    concluded answer attached before = (.ok (), after) ↔ ∃ ps, answer = .ok ps ∧ attached ps = after := by
  cases answer <;> simp [concluded]

theorem concluded_eq_error {σ : Type} {answer : Except IntegrityError (List Proof)} {attached : List Proof → σ}
    {before after : σ} {e : IntegrityError} :
    concluded answer attached before = (.error e, after) ↔ answer = .error e ∧ before = after := by
  cases answer <;> simp [concluded]

namespace Credential

/-- The credential with other proofs, which its object gets only if there are any. -/
def replaceProofs (c : Credential) (ps : List Proof) : Credential :=
  { c with raw := if ps.isEmpty then c.raw else Dict.insert c.raw proofName (encodeProofs ps), proofs := ps }

variable {now : Timestamp} {context : ProofContext} {signer : Signer}

/-- The credential changes when the proofs of the signed document are there, and not before. -/
theorem addProof_eq (c : Credential) (now : Timestamp) (context : ProofContext) (signer : Signer) :
    c.addProof now context signer = concluded (signDocument now c.toBytes context signer) c.replaceProofs c := by
  -- The first step reads the state that was given, so it is known what the signer gets.
  have hsteps : c.addProof now context signer = (ExceptT.run (do
      let proofs ← (signDocument now c.toBytes context signer : ExceptT IntegrityError (StateM Credential) (List Proof))
      unless proofs.isEmpty do
        modify fun c => { c with raw := Dict.insert c.raw proofName (encodeProofs proofs) }
      modify fun c => { c with proofs })).run c := rfl
  rw [hsteps]
  cases signDocument now c.toBytes context signer with
  | ok ps => cases ps <;> rfl
  | error e => rfl

theorem addProof_eq_ok {c signed : Credential} : c.addProof now context signer = (.ok (), signed) ↔
    ∃ ps, signDocument now c.toBytes context signer = .ok ps ∧ c.replaceProofs ps = signed := by
  rw [addProof_eq, concluded_eq_ok]

/-- A request for proofs of a credential. -/
def attempt (c : Credential) (r : Request) : Except IntegrityError Unit × Credential :=
  c.addProof r.now r.context r.signer

theorem eq_of_addProof_error {c after : Credential} {e : IntegrityError}
    (h : c.addProof now context signer = (.error e, after)) : after = c := by
  rw [addProof_eq, concluded_eq_error] at h
  exact h.2.symm

theorem allOrNothing_attempt : AllOrNothing attempt := fun _ _ _ _ => eq_of_addProof_error

end Credential

namespace Presentation

/-- The presentation with other proofs. -/
def replaceProofs (p : Presentation) (ps : List Proof) : Presentation := { p with proofs := ps }

variable {now : Timestamp} {context : ProofContext} {signer : Signer}

/-- The presentation changes when the proofs of the signed document are there, and not before. -/
theorem addProof_eq (p : Presentation) (now : Timestamp) (context : ProofContext) (signer : Signer) :
    p.addProof now context signer = concluded (signDocument now p.toBytes context signer) p.replaceProofs p := by
  have hsteps : p.addProof now context signer = (ExceptT.run (do
      let proofs ←
        (signDocument now p.toBytes context signer : ExceptT IntegrityError (StateM Presentation) (List Proof))
      modify fun p => { p with proofs })).run p := rfl
  rw [hsteps]
  cases signDocument now p.toBytes context signer <;> rfl

theorem addProof_eq_ok {p signed : Presentation} : p.addProof now context signer = (.ok (), signed) ↔
    ∃ ps, signDocument now p.toBytes context signer = .ok ps ∧ p.replaceProofs ps = signed := by
  rw [addProof_eq, concluded_eq_ok]

/-- A request for proofs of a presentation. -/
def attempt (p : Presentation) (r : Request) : Except IntegrityError Unit × Presentation :=
  p.addProof r.now r.context r.signer

theorem allOrNothing_attempt : AllOrNothing attempt := by
  intro p r e next h
  rw [attempt, addProof_eq, concluded_eq_error] at h
  exact h.2.symm

end Presentation

end Attest
