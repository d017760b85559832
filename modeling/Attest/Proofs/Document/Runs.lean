import Attest.Proofs.Calendar.TextOrder
import Attest.Proofs.Document.SignVerify
import Mathlib.Data.List.Forall2

/-!
Runs of requests to sign a credential. A request that fails leaves the credential as it is. Over a run the
proofs grow at their end, by one for each request that succeeds, and nothing else changes. Since each proof
signs the credential without any proofs, all of them are accepted together as long as each is.
-/

namespace Attest

open Json (Object Value)

/-- A request for a proof: a context, the time at which it is filled in, and a keyring with its clock. -/
structure SigningCall where
  now : Timestamp
  context : ProofContext
  ring : Keyring
  clock : Timestamp

namespace SigningCall

/-- How a request ends, and the credential that it leaves. -/
def attempt (c : Credential) (call : SigningCall) : Except IntegrityError Unit × Credential :=
  c.addProof call.now call.context (call.ring.addProof call.clock)

/-- The credential after requests, one after the other. -/
def run (c : Credential) (calls : List SigningCall) : Credential := afterAttempts attempt c calls

/-- Those of the requests that succeed, one after the other. -/
def successes (c : Credential) (calls : List SigningCall) : List SigningCall := successfulAttempts attempt c calls

theorem allOrNothing_attempt : AllOrNothing attempt := fun _ _ _ _ => Credential.eq_of_addProof_error

/-- What a verifier needs for the proof of a request: the same purpose with the default filled in, times that can
be read, a proof that has not expired, and the key, which accepts what it signs. -/
structure Passes (resolve : Resolver) (clock : Timestamp) (purpose : String) (content : Object)
    (call : SigningCall) : Prop where
  purpose : resolvePurpose call.context.purpose = resolvePurpose purpose
  times : FourDigitTimes call.context call.now
  unexpired : ∀ t ∈ call.context.expires, ¬ t.parts < clock.parts
  resolved : call.ring.ResolvedBy resolve call.context.verificationMethod
  sound : call.ring.SoundFor call.now call.context content

/-- Where a run stands that started with a credential and in which some requests succeeded. -/
structure Stands (start : Credential) (done : List SigningCall) (c : Credential) : Prop where
  valid : c.Valid
  proofs : ∃ news, c.proofs = start.proofs ++ news ∧
    List.Forall₂ (fun call p => Makes call.ring call.now call.context (unsecured start.raw) p) done news
  contents : c.contents = start.contents
  content : unsecured c.raw = unsecured start.raw
  held : done ≠ [] → Dict.get? c.raw proofName = some (encodeProofs c.proofs) ∧
    (Value.object c.raw).depth ≤ Json.nestingLimit

theorem stands_start {c : Credential} (hc : c.Valid) : Stands c [] c :=
  ⟨hc, ⟨[], (List.append_nil _).symm, .nil⟩, rfl, rfl, fun h => absurd rfl h⟩

/-- A request that succeeds puts one proof behind those that are there. -/
theorem Stands.step {start c signed : Credential} {done : List SigningCall} (h : Stands start done c)
    {call : SigningCall} (hcall : call.attempt c = (.ok (), signed)) : Stands start (done ++ [call]) signed := by
  have hsigned := Credential.signed_of_addProof h.valid hcall
  obtain ⟨p, hp, hafter⟩ := hsigned.proofs
  obtain ⟨news, hbefore, hnews⟩ := h.proofs
  rw [h.content] at hp
  refine ⟨hsigned.valid h.valid, ⟨news ++ [p], ?_, ?_⟩, ?_, ?_, fun _ => ⟨?_, hsigned.depth⟩⟩
  · rw [hafter, hbefore, List.append_assoc]
  · exact List.rel_append hnews (.cons hp .nil)
  · rw [hsigned.contents, h.contents]
  · rw [hsigned.unsecured, h.content]
  · rw [hsigned.raw, Dict.get?_insert_self]

theorem Stands.run {start c : Credential} {done : List SigningCall} (h : Stands start done c)
    (calls : List SigningCall) : Stands start (done ++ successes c calls) (run c calls) := by
  rw [successes, SigningCall.run]
  induction calls generalizing c done with
  | nil =>
      rw [successfulAttempts, List.append_nil]
      exact h
  | cons call calls ih =>
      rcases hcall : call.attempt c with ⟨e | _, next⟩
      · obtain ⟨hrun, hsuccesses⟩ := afterAttempts_cons_error allOrNothing_attempt hcall calls
        rw [hrun, hsuccesses]
        exact ih h
      · obtain ⟨hrun, hsuccesses⟩ := afterAttempts_cons_ok hcall calls
        rw [hrun, hsuccesses, ← List.singleton_append, ← List.append_assoc]
        exact ih (h.step hcall)

theorem accepted_of_made {resolve : Resolver} {clock : Timestamp} {purpose : String} {content : Object}
    {done : List SigningCall} {news : List Proof}
    (hmade : List.Forall₂ (fun call p => Makes call.ring call.now call.context content p) done news)
    (hpasses : ∀ call ∈ done, call.Passes resolve clock purpose content) :
    ∀ p ∈ news, DataIntegrityEntry p.members ∧ Accepted resolve clock
      (VerificationOptions.toOptions ⟨some (verifyProof resolve clock), purpose, "", ""⟩) content p.members := by
  induction hmade with
  | nil => exact List.forall_mem_nil _
  | cons hp _ ih =>
      rw [List.forall_mem_cons] at hpasses ⊢
      obtain ⟨hcall, hcalls⟩ := hpasses
      refine ⟨⟨hp.typed, (hp.accepted_iff hcall.times hcall.resolved hcall.sound).mpr ?_⟩, ih hcalls⟩
      exact ⟨hcall.purpose, .inl rfl, .inl rfl, fun t ht htold =>
        hcall.unexpired t ht (Timestamp.parts_lt_of_told htold)⟩

/-- New proofs alone pass if there are any, given what a verifier needs for each. -/
theorem Stands.verify_eq_ok {start c : Credential} {done : List SigningCall} (h : Stands start done c)
    (hstart : start.proofs = []) {resolve : Resolver} {clock : Timestamp} {purpose : String}
    (hpasses : ∀ call ∈ done, call.Passes resolve clock purpose (unsecured start.raw)) :
    c.verify (some ⟨some (verifyProof resolve clock), purpose, "", ""⟩) = .ok () ↔ done ≠ [] := by
  obtain ⟨news, hnews, hmade⟩ := h.proofs
  rw [hstart, List.nil_append] at hnews
  rw [Credential.verify_eq_ok h.valid rfl, h.content, hnews]
  have hall := accepted_of_made hmade hpasses
  constructor
  · rintro ⟨-, ⟨p, hp, -⟩, -⟩ hnone
    subst hnone
    cases hmade
    cases hp
  · intro hdone
    refine ⟨(h.held hdone).2, ?_, fun p hp _ => (hall p hp).2⟩
    cases hmade with
    | nil => exact absurd rfl hdone
    | cons _ _ => exact ⟨_, List.mem_cons_self, (hall _ List.mem_cons_self).1⟩

theorem Stands.shape {start c : Credential} {done : List SigningCall} (h : Stands start done c)
    (hdone : done ≠ []) :
    (∃ p, c.proofs = [p] ∧ Dict.get? c.raw proofName = some p.toJson) ∨
      (2 ≤ c.proofs.length ∧ Dict.get? c.raw proofName = some (.array (c.proofs.map Proof.toJson))) := by
  obtain ⟨news, hproofs, hmade⟩ := h.proofs
  have hnonempty : c.proofs ≠ [] := by
    rw [hproofs]
    cases hmade with
    | nil => exact absurd rfl hdone
    | cons _ _ => exact List.append_ne_nil_of_right_ne_nil _ (List.cons_ne_nil _ _)
  rw [(h.held hdone).1]
  rcases encodeProofs_shape hnonempty with ⟨p, hp, hencode⟩ | ⟨hmany, hencode⟩
  · exact .inl ⟨p, hp, congrArg some hencode⟩
  · exact .inr ⟨hmany, congrArg some hencode⟩

/-- A run puts one proof for each request that succeeds, in their order, behind the proofs of the credential. It
leaves the contents and all other members as they are, and once a request has succeeded the object holds a single
proof bare and several as an array. If there were no proofs before, and the verifier has what it needs for each
new one, the credential passes exactly if a request has succeeded. -/
theorem run_keeps (c : Credential) (hc : c.Original) (calls : List SigningCall) :
    (∃ news, (run c calls).proofs = c.proofs ++ news ∧
      List.Forall₂ (fun call p => Makes call.ring call.now call.context (unsecured c.raw) p) (successes c calls)
        news) ∧
    (run c calls).contents = c.contents ∧
    unsecured (run c calls).raw = unsecured c.raw ∧
    (successes c calls ≠ [] →
      (∃ p, (run c calls).proofs = [p] ∧ Dict.get? (run c calls).raw proofName = some p.toJson) ∨
      (2 ≤ (run c calls).proofs.length ∧ Dict.get? (run c calls).raw proofName =
        some (.array ((run c calls).proofs.map Proof.toJson)))) ∧
    (c.proofs = [] → ∀ (resolve : Resolver) (clock : Timestamp) (purpose : String),
      (∀ call ∈ successes c calls, call.Passes resolve clock purpose (unsecured c.raw)) →
      ((run c calls).verify (some ⟨some (verifyProof resolve clock), purpose, "", ""⟩) = .ok () ↔
        successes c calls ≠ [])) := by
  have hstands := (stands_start hc.valid).run calls
  rw [List.nil_append] at hstands
  exact ⟨hstands.proofs, hstands.contents, hstands.content, hstands.shape, fun hstart _ _ _ hpasses =>
    hstands.verify_eq_ok hstart hpasses⟩

end SigningCall

namespace Sample

def call : SigningCall := ⟨newYear, context, Keyring.ofRegistrations registrations, newYear⟩

/-- A request whose key is not there. -/
def strayCall : SigningCall := ⟨newYear, context, .empty, newYear⟩

end Sample

open Sample in
/-- Of two requests the first of which has no key, the second leaves a proof that passes. -/
theorem SigningCall.run_keeps_sample :
    ∃ p, (run (Credential.create contents) [strayCall, call]).proofs = [p] ∧
      (run (Credential.create contents) [strayCall, call]).verify
        (some ((Keyring.ofRegistrations registrations).verification newYear "" "" "")) = .ok () := by
  have horiginal : (Credential.create contents).Original :=
    .inl ⟨contents, ⟨nofun, nofun, nofun, ordered_custom⟩, rfl, rfl⟩
  obtain ⟨signed, hsigned⟩ := Credential.exists_addProof horiginal.valid rfl (by decide) select_context newYear
  have hcall : call.attempt (Credential.create contents) = (.ok (), signed) := hsigned
  have hstray : strayCall.attempt (Credential.create contents) =
      (.error (.signing (.unknownVerificationMethod "key-1")), Credential.create contents) := rfl
  have hsuccesses : successes (Credential.create contents) [strayCall, call] = [call] := by
    rw [successes, (afterAttempts_cons_error allOrNothing_attempt hstray [call]).2, (afterAttempts_cons_ok hcall []).2]
    rfl
  have hring := Keyring.ascending_ofRegistrations registrations
  have hpasses : call.Passes (Keyring.ofRegistrations registrations).directory.resolve newYear "" custom :=
    ⟨rfl, times_context, nofun, Keyring.resolvedBy_directory hring _, soundFor_custom⟩
  obtain ⟨⟨news, hproofs, hmade⟩, -, -, -, hverify⟩ := run_keeps _ horiginal [strayCall, call]
  rw [hsuccesses] at hmade hverify
  obtain ⟨p, hp⟩ : ∃ p, news = [p] := by
    cases hmade with
    | cons _ hrest =>
        cases hrest
        exact ⟨_, rfl⟩
  refine ⟨p, by rw [hproofs, hp]; rfl, (hverify rfl _ newYear "" ?_).mpr (List.cons_ne_nil _ _)⟩
  exact List.forall_mem_singleton.mpr hpasses

end Attest
