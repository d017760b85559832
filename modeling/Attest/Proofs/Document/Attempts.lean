import Attest.Document.Presentation
import Attest.Proofs.Document.Requests

/-!
Attempts to attach proofs, to credentials and to presentations, through signers of any kind. An attempt ends as the
signer and what it returned decide. One that fails leaves the document as it is, so a run ends where the run of the
attempts that succeed does, and one that succeeds changes nothing but the proofs.
-/

namespace Attest

open Json (Object Value)

/-! ### One attempt -/

/-- What the signer of a request returns for a document. -/
def Request.returned (r : Request) (document : Bytes) : Except SigningError Bytes :=
  r.signer document (r.context.resolve r.now).toOptions

/-- An attempt ends with the error of the signer, or with the fault of what it returned, and leaves the document as it
was before, or else it ends well and leaves the document with the proofs that were found there. -/
structure EndsAs {σ : Type} (result : Except IntegrityError Unit × σ) (before : σ)
    (returned : Except SigningError Bytes) (attached : List Proof → σ) : Prop where
  signing : ∀ e, result.1 = .error (.signing e) ↔ returned = .error e
  decoding : ∀ e, result.1 = .error (.decoding e) ↔ ∃ signed, returned = .ok signed ∧ decodeSigned signed = .error e
  unchanged : ∀ e, result.1 = .error e → result.2 = before
  success : result.1 = .ok () ↔ ∃ signed ps, returned = .ok signed ∧ decodeSigned signed = .ok ps
  attached : ∀ signed ps, returned = .ok signed → decodeSigned signed = .ok ps → result.2 = attached ps

theorem endsAs_concluded {σ : Type} (r : Request) (document : Bytes) (attached : List Proof → σ) (before : σ) :
    EndsAs (concluded (signDocument r.now document r.context r.signer) attached before) before (r.returned document)
      attached := by
  have hsign : signDocument r.now document r.context r.signer =
      (r.returned document).mapError .signing >>= fun signed => (decodeSigned signed).mapError .decoding := rfl
  cases hreturned : r.returned document with
  | error e =>
      have hends : concluded (signDocument r.now document r.context r.signer) attached before =
          (.error (.signing e), before) := by
        rw [hsign, hreturned]
        rfl
      rw [hends]
      exact ⟨by simp, by simp, fun _ _ => rfl, by simp, nofun⟩
  | ok signed =>
      cases hdecode : decodeSigned signed with
      | error e =>
          have hends : concluded (signDocument r.now document r.context r.signer) attached before =
              (.error (.decoding e), before) := by
            rw [hsign, hreturned, Except.mapError, ok_bind, hdecode]
            rfl
          rw [hends]
          refine ⟨by simp, by simp [hdecode], fun _ _ => rfl, by simp [hdecode], ?_⟩
          rintro _ ps ⟨⟩ hps
          cases hdecode.symm.trans hps
      | ok found =>
          have hends : concluded (signDocument r.now document r.context r.signer) attached before =
              (.ok (), attached found) := by
            rw [hsign, hreturned, Except.mapError, ok_bind, hdecode]
            rfl
          rw [hends]
          refine ⟨by simp, by simp [hdecode], fun _ h => ?_, by simp [hdecode], ?_⟩
          · cases h
          · rintro _ ps ⟨⟩ hps
            cases hdecode.symm.trans hps
            rfl

/-! ### Runs of attempts -/

section Runs

variable {σ : Type} (attempt : σ → Request → Except IntegrityError Unit × σ)

/-- What holds of a run of attempts on documents of a kind. `text` is what is written for a document, `attached` the
document with other proofs, and `kept` what attempts leave alone. -/
structure LeavesNoTrace (text : σ → Bytes) (attached : σ → List Proof → σ) (kept : σ → Prop) (start : σ)
    (rs : List Request) : Prop where
  /-- Each attempt ends as its signer decides, and changes the document only if it ends well. -/
  ends : ∀ done r, done ++ [r] <+: rs → EndsAs (attempt (afterAttempts attempt start done) r)
    (afterAttempts attempt start done) (r.returned (text (afterAttempts attempt start done)))
    (attached (afterAttempts attempt start done))
  /-- Without the attempts that fail the run ends alike. -/
  removed : afterAttempts attempt start (successfulAttempts attempt start rs) = afterAttempts attempt start rs
  /-- Without the attempts that fail there are none that fail. -/
  succeeding : successfulAttempts attempt start (successfulAttempts attempt start rs) =
    successfulAttempts attempt start rs
  /-- At every point of the run. -/
  kept : ∀ done, done <+: rs → kept (afterAttempts attempt start done)

variable {attempt}

/-- All this holds if an attempt asks the signer for proofs of what is written, and attaches them or leaves the
document alone. -/
theorem leavesNoTrace {text : σ → Bytes} {attached : σ → List Proof → σ} {kept : σ → Prop}
    (hattempt : ∀ s r, attempt s r = concluded (signDocument r.now (text s) r.context r.signer) (attached s) s)
    (hkept : ∀ s ps, kept s → kept (attached s ps)) {start : σ} (hstart : kept start) (rs : List Request) :
    LeavesNoTrace attempt text attached kept start rs := by
  have hends (s : σ) (r : Request) : EndsAs (attempt s r) s (r.returned (text s)) (attached s) := by
    rw [hattempt]
    exact endsAs_concluded r (text s) (attached s) s
  have hnothing : AllOrNothing attempt := by
    intro s r e next h
    have hunchanged := (hends s r).unchanged e
    rw [h] at hunchanged
    exact hunchanged rfl
  refine ⟨fun done r _ => hends _ r, (afterAttempts_successful hnothing start rs).1,
    (afterAttempts_successful hnothing start rs).2, fun done _ => ?_⟩
  refine kept_afterAttempts hnothing (fun s r next h hs => ?_) hstart done
  rw [hattempt, concluded_eq_ok] at h
  obtain ⟨ps, -, rfl⟩ := h
  exact hkept s ps hs

end Runs

/-! ### Credentials and presentations -/

namespace Credential

theorem unsecured_replaceProofs (c : Credential) (ps : List Proof) :
    unsecured (c.replaceProofs ps).raw = unsecured c.raw := by
  rw [replaceProofs]
  split
  · rfl
  · exact Dict.erase_insert ..

theorem raw_replaceProofs_nil (c : Credential) : (c.replaceProofs []).raw = c.raw := rfl

theorem get?_replaceProofs {c : Credential} {ps : List Proof} (h : ps ≠ []) :
    (c.replaceProofs ps).raw.get? proofName = some (encodeProofs ps) := by
  rw [replaceProofs, if_neg (by rwa [List.isEmpty_iff])]
  exact Dict.get?_insert_self ..

end Credential

/-- In a run of attempts on a credential or on a presentation, each attempt fails exactly if its signer does or if what
the signer returned shows no proofs, and one that fails might as well not have been made. The contents of the
credential, the members of its object but for `proof`, and the fields of the presentation but for its proofs stay as
they are. A success without proofs leaves the object of a credential alone and takes the proofs of a presentation. -/
theorem attempts_leave_no_trace (c : Credential) (p : Presentation) (rs : List Request) :
    LeavesNoTrace Credential.attempt Credential.toBytes Credential.replaceProofs
      (fun d => d.contents = c.contents ∧ unsecured d.raw = unsecured c.raw) c rs ∧
    LeavesNoTrace Presentation.attempt Presentation.toBytes Presentation.replaceProofs
      (fun q => { q with proofs := p.proofs } = p) p rs ∧
    (∀ d : Credential, ∀ ps, (d.replaceProofs ps).proofs = ps ∧
      (ps = [] → (d.replaceProofs ps).raw = d.raw) ∧
      (ps ≠ [] → (d.replaceProofs ps).raw.get? proofName = some (encodeProofs ps))) ∧
    ∀ q : Presentation, (q.replaceProofs []).proofs = [] := by
  refine ⟨?_, ?_, fun d ps => ⟨rfl, ?_, Credential.get?_replaceProofs⟩, fun _ => rfl⟩
  · refine leavesNoTrace (fun d r => d.addProof_eq ..) (fun d ps hd => ⟨hd.1, ?_⟩) ⟨rfl, rfl⟩ rs
    rw [Credential.unsecured_replaceProofs]
    exact hd.2
  · have hkept (q : Presentation) (ps : List Proof) (hq : { q with proofs := p.proofs } = p) :
        { q.replaceProofs ps with proofs := p.proofs } = p := hq
    exact leavesNoTrace (fun q r => q.addProof_eq ..) hkept rfl rs
  · rintro rfl
    exact d.raw_replaceProofs_nil

end Attest
