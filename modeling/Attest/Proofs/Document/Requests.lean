import Attest.Proofs.Document.Reading
import Attest.Proofs.Json.Records

/-!
Requests for proofs of a credential to signers of any kind. A credential says what its proofs are in two places,
its list of proofs and its object. A request that succeeds replaces the list by the proofs that the signer
returned, and the object gets them only if there are any. So after a run of requests the list is what the last
answer held, and the object holds the last answer that held proofs.
-/

namespace Attest

open Json (Draft Error ItemsLeft Object Value readOnce readOnce_eq_ok)

/-! ### What signers return -/

/-- The member `proof` of any text is embeddable. -/
theorem embeddable_of_signedProof {d : Draft} {proof : Option Value} (h : signedProof d = .ok proof) :
    ∀ v ∈ proof, Embeddable v := by
  cases d with
  | object members ending =>
      obtain ⟨state, hfold, h⟩ := bind_eq_ok.mp h
      cases h
      have hstate : ∀ v ∈ state.join, Embeddable v := by
        refine Draft.foldMembers_invariant (fun state => ∀ v ∈ state.join, Embeddable v) ?_ ?_ hfold
        · intro before name d after hstep hbefore
          rw [readSignedMember] at hstep
          split at hstep
          · obtain ⟨-, found, hfound, rfl⟩ := readOnce_eq_ok.mp hstep
            exact Draft.ordered_of_optionalValue hfound
          · obtain ⟨_, -, hstep⟩ := bind_eq_ok.mp hstep
            cases hstep
            exact hbefore
        · intro v hv
          cases hv
      exact hstate
  | array items ending =>
      obtain ⟨⟨found, left⟩, hnext, h⟩ := bind_eq_ok.mp h
      obtain ⟨_, -, h⟩ := bind_eq_ok.mp h
      cases h
      cases items with
      | cons item items =>
          obtain ⟨first, hfirst, hnext⟩ := bind_eq_ok.mp hnext
          cases hnext
          exact Draft.ordered_of_optionalValue hfirst
      | nil =>
          simp only [ItemsLeft.next] at hnext
          cases hfault : ending.arrayFault? with
          | some fault =>
              rw [hfault] at hnext
              cases hnext
          | none =>
              rw [hfault] at hnext
              cases hnext
              intro v hv
              cases hv
  | _ =>
      obtain ⟨_, -, h⟩ := bind_eq_ok.mp h
      cases h

theorem embeddable_of_signDocument {now : Timestamp} {document : Bytes} {context : ProofContext} {signer : Signer}
    {ps : List Proof} (h : signDocument now document context signer = .ok ps) : Embeddable (encodeProofs ps) := by
  obtain ⟨signed, -, h⟩ := bind_eq_ok.mp h
  obtain ⟨proof, hproof, hdecode⟩ := bind_eq_ok.mp (mapError_eq_ok.mp h)
  have hread := (Json.decodeText_eq_ok.mp (mapError_eq_ok.mp hproof)).1
  exact embeddable_encodeProofs (embeddable_of_signedProof hread) hdecode

/-! ### Runs of requests -/

namespace Credential

/-- The proofs that the signer returns, or why there are none to be had. -/
def answer (c : Credential) (r : Request) : Except IntegrityError (List Proof) :=
  signDocument r.now c.toBytes r.context r.signer

/-- The credential after a request. -/
def request (c : Credential) (r : Request) : Credential := afterAttempt attempt c r

/-- The credential after requests, one after the other. -/
def requests (c : Credential) (rs : List Request) : Credential := afterAttempts attempt c rs

/-- The proofs that the signers returned, for each request that succeeded, one after the other. -/
def answers : Credential → List Request → List (List Proof)
  | _, [] => []
  | c, r :: rs =>
    match c.answer r with
    | .ok ps => ps :: answers (c.request r) rs
    | .error _ => answers (c.request r) rs

theorem request_eq (c : Credential) (r : Request) :
    c.request r = (concluded (c.answer r) c.replaceProofs c).2 := by
  rw [request, afterAttempt, attempt, addProof_eq, answer]

theorem request_ok {c : Credential} {r : Request} {ps : List Proof} (h : c.answer r = .ok ps) :
    c.request r = c.replaceProofs ps := by
  rw [request_eq, h, concluded]

theorem request_error {c : Credential} {r : Request} {e : IntegrityError} (h : c.answer r = .error e) :
    c.request r = c := by
  rw [request_eq, h, concluded]

/-- Only the answers matter for what a run leaves. -/
theorem requests_eq (c : Credential) (rs : List Request) :
    c.requests rs = (c.answers rs).foldl replaceProofs c := by
  induction rs generalizing c with
  | nil => rfl
  | cons r rs ih =>
      have hrest : c.requests (r :: rs) = (c.request r).requests rs := rfl
      rw [hrest, ih, answers]
      cases h : c.answer r with
      | ok ps => rw [request_ok h, List.foldl_cons]
      | error e => rw [request_error h]

theorem embeddable_of_mem_answers {c : Credential} {rs : List Request} :
    ∀ ps ∈ c.answers rs, Embeddable (encodeProofs ps) := by
  induction rs generalizing c with
  | nil => exact List.forall_mem_nil _
  | cons r rs ih =>
      rw [answers]
      cases h : c.answer r with
      | ok ps => exact List.forall_mem_cons.mpr ⟨embeddable_of_signDocument h, ih⟩
      | error e => exact ih

/-! ### The two places where proofs are told -/

/-- The last of the answers that held proofs, or the proofs from the start. -/
def lastHeld (start : List Proof) (answers : List (List Proof)) : List Proof :=
  ((answers.filter fun ps => !ps.isEmpty).getLast?).getD start

theorem lastHeld_concat (start : List Proof) (answers : List (List Proof)) (ps : List Proof) :
    lastHeld start (answers ++ [ps]) = if ps.isEmpty then lastHeld start answers else ps := by
  rw [lastHeld, lastHeld, List.filter_append]
  cases h : ps.isEmpty <;> simp [h]

theorem lastHeld_eq_nil {start : List Proof} {answers : List (List Proof)} :
    lastHeld start answers = [] ↔ start = [] ∧ ∀ ps ∈ answers, ps = [] := by
  induction answers using List.reverseRecOn with
  | nil => simp [lastHeld]
  | append_singleton answers ps ih =>
      rw [lastHeld_concat, List.forall_mem_append, List.forall_mem_singleton]
      cases ps with
      | nil => simp [ih]
      | cons p ps => simp

/-- The last answer is the last one that held proofs, unless it held none where there had been some. -/
theorem lastHeld_eq_last {start : List Proof} {answers : List (List Proof)} :
    lastHeld start answers = answers.getLast?.getD start ↔
      (answers.getLast? = some [] → start = [] ∧ ∀ ps ∈ answers, ps = []) := by
  induction answers using List.reverseRecOn with
  | nil => simp [lastHeld]
  | append_singleton answers ps _ =>
      rw [← lastHeld_eq_nil, lastHeld_concat, List.getLast?_concat]
      cases ps with
      | nil => simp
      | cons p ps => simp

/-- How a credential that was valid stands after answers. -/
structure Told (start : Credential) (answers : List (List Proof)) (c : Credential) : Prop where
  ordered : (Value.object c.raw).Ordered
  proofs : c.proofs = answers.getLast?.getD start.proofs
  held : decodeProofs (Dict.get? c.raw proofName) = .ok (lastHeld start.proofs answers)
  contents : c.contents = start.contents
  content : unsecured c.raw = unsecured start.raw
  depth : (Value.object start.raw).depth ≤ Json.nestingLimit → (Value.object c.raw).depth ≤ Json.nestingLimit

theorem told_start {c : Credential} (hc : c.Valid) : Told c [] c :=
  ⟨hc.ordered, rfl, hc.proofs, rfl, rfl, id⟩

theorem Told.step {start c : Credential} {answers : List (List Proof)} (h : Told start answers c)
    {ps : List Proof} (hps : Embeddable (encodeProofs ps)) :
    Told start (answers ++ [ps]) (c.replaceProofs ps) := by
  have hproofs : (c.replaceProofs ps).proofs = (answers ++ [ps]).getLast?.getD start.proofs := by
    rw [List.getLast?_concat]
    rfl
  cases hempty : ps.isEmpty with
  | true =>
      have hraw : (c.replaceProofs ps).raw = c.raw := if_pos hempty
      refine ⟨by rw [hraw]; exact h.ordered, hproofs, ?_, h.contents, by rw [hraw, h.content], ?_⟩
      · rw [hraw, h.held, lastHeld_concat, if_pos hempty]
      · rw [hraw]
        exact h.depth
  | false =>
      have hraw : (c.replaceProofs ps).raw = Dict.insert c.raw proofName (encodeProofs ps) :=
        if_neg (by rw [hempty]; exact Bool.false_ne_true)
      refine ⟨?_, hproofs, ?_, h.contents, ?_, fun hstart => ?_⟩
      · rw [hraw]
        exact ordered_insert h.ordered _ hps.1
      · rw [hraw, Dict.get?_insert_self, decodeProofs_encodeProofs, lastHeld_concat, hempty]
        rfl
      · rw [hraw, ← h.content]
        exact Dict.erase_insert ..
      · rw [hraw]
        refine Value.depth_object_le.mpr fun member hmember => ?_
        rcases Dict.mem_insert hmember with rfl | hmem
        · exact hps.2
        · exact Value.depth_object_le.mp (h.depth hstart) member hmem

theorem Told.run {start c : Credential} {before : List (List Proof)} (h : Told start before c)
    {answers : List (List Proof)} (hanswers : ∀ ps ∈ answers, Embeddable (encodeProofs ps)) :
    Told start (before ++ answers) (answers.foldl replaceProofs c) := by
  induction answers generalizing c before with
  | nil =>
      rw [List.append_nil]
      exact h
  | cons ps answers ih =>
      rw [List.forall_mem_cons] at hanswers
      have hrun := ih (h.step hanswers.1) hanswers.2
      rwa [List.append_assoc, List.singleton_append] at hrun

theorem told_requests {c : Credential} (hc : c.Valid) (rs : List Request) :
    Told c (c.answers rs) (c.requests rs) := by
  have hanswers : ∀ ps ∈ c.answers rs, Embeddable (encodeProofs ps) := embeddable_of_mem_answers
  have hrun := (told_start hc).run hanswers
  rwa [List.nil_append, ← requests_eq] at hrun

/-- A text that is written for a credential after answers tells the proofs that its object holds. -/
theorem Told.parse_proofs {start c : Credential} {answers : List (List Proof)} (h : Told start answers c)
    {read : Credential} (hread : parse c.toBytes = .ok read) : read.proofs = lastHeld start.proofs answers := by
  obtain ⟨hjson, hproofs, -⟩ := parse_eq_ok.mp hread
  rw [toBytes, Json.parse_bytes _ h.ordered] at hjson
  split at hjson
  · injection hjson with hobject
    injection hobject with hraw
    rw [← hraw, h.held] at hproofs
    exact (Except.ok.inj hproofs).symm
  · cases hjson

/-- A credential that was read from a text can be read again after answers. -/
theorem Told.exists_parse {start c : Credential} {answers : List (List Proof)} (h : Told start answers c)
    {text : Bytes} (hstart : parse text = .ok start) : ∃ read, parse c.toBytes = .ok read := by
  obtain ⟨hjson, -, hcontents⟩ := parse_eq_ok.mp hstart
  refine ⟨⟨c.raw, start.contents, lastHeld start.proofs answers⟩, parse_eq_ok.mpr ⟨?_, h.held, ?_⟩⟩
  · rw [toBytes, Json.parse_bytes _ h.ordered, if_pos (h.depth (Json.ordered_of_parse hjson).2)]
  · rw [h.content]
    exact hcontents

/-- After a run of requests the list of proofs is the last answer, and the object holds the last answer with
proofs. The two agree unless the last answer is empty and there were proofs before. What is written for the
credential tells the proofs of the object to whoever can read it, and it can be read if the credential was read
from a text. -/
theorem views_after_requests (c : Credential) (hc : c.Original) (rs : List Request) :
    (c.requests rs).proofs = (c.answers rs).getLast?.getD c.proofs ∧
    decodeProofs (Dict.get? (c.requests rs).raw proofName) = .ok (lastHeld c.proofs (c.answers rs)) ∧
    (decodeProofs (Dict.get? (c.requests rs).raw proofName) = .ok (c.requests rs).proofs ↔
      ((c.answers rs).getLast? = some [] → c.proofs = [] ∧ ∀ ps ∈ c.answers rs, ps = [])) ∧
    (∀ read, parse (c.requests rs).toBytes = .ok read → read.proofs = lastHeld c.proofs (c.answers rs)) ∧
    ((∃ text, parse text = .ok c) → ∃ read, parse (c.requests rs).toBytes = .ok read) := by
  have htold := told_requests hc.valid rs
  refine ⟨htold.proofs, htold.held, ?_, fun read hread => htold.parse_proofs hread, ?_⟩
  · rw [htold.held, htold.proofs, Except.ok.injEq]
    exact lastHeld_eq_last
  · rintro ⟨text, htext⟩
    exact htold.exists_parse htext

end Credential

namespace Sample

/-- A proof that says no more than its type. -/
def typedProof : Proof := ⟨[("type", .string "T")], rfl⟩

/-- The text of a credential with nothing but this proof. -/
def provedText : Bytes := Bytes.ofString "\x7b\"proof\": \x7b\"type\": \"T\"\x7d\x7d"

def proved : Credential :=
  ⟨[("proof", typedProof.toJson)], { contents with custom := [] }, [typedProof]⟩

/-- A request to a signer that takes the proofs out. -/
def strip : Request where
  now := newYear
  context := context
  signer := fun document _ => do
    let members ← (parseDocument document).mapError fun e => .malformedDocument e.message
    return (Value.object (unsecured members)).bytes

/-- A request to a signer that returns the document as it is. -/
def echo : Request := ⟨newYear, context, fun document _ => .ok document⟩

/-- Contents with a custom member that takes the name of a field. -/
def misnamed : CredentialContents := { contents with custom := [("id", .bool true)] }

theorem parse_provedText : Credential.parse provedText = .ok proved := by decide +kernel

end Sample

open Sample in
/-- Once a signer has taken out the proof of a credential, its list of proofs is empty, but its object holds the
proof, and so does what is written for it. And what is written for a credential that was made from contents can
be unreadable. -/
theorem Credential.views_differ_once_stripped :
    parse provedText = .ok proved ∧ (proved.requests [strip]).proofs = [] ∧
    decodeProofs (Dict.get? (proved.requests [strip]).raw proofName) = .ok [typedProof] ∧
    parse (proved.requests [strip]).toBytes = .ok proved ∧
    misnamed.custom.get? proofName = none ∧
    parse (create misnamed).toBytes = .error (.json (.wrongType (.bool true) "a string")) := by
  decide +kernel

open Sample in
/-- A signer that takes the proof out and one that returns what is written: the proof is back in the list. -/
theorem Credential.views_after_requests_echo :
    (proved.requests [strip, echo]).proofs = [typedProof] ∧
    decodeProofs (Dict.get? (proved.requests [strip, echo]).raw proofName) =
      .ok (proved.requests [strip, echo]).proofs ∧
    ∃ read, parse (proved.requests [strip, echo]).toBytes = .ok read ∧ read.proofs = [typedProof] := by
  have hanswers : proved.answers [strip, echo] = [[], [typedProof]] := by decide +kernel
  obtain ⟨hproofs, -, hagree, htold, hread⟩ :=
    views_after_requests proved (.inr ⟨provedText, parse_provedText⟩) [strip, echo]
  rw [hanswers] at hproofs hagree htold
  obtain ⟨read, hread⟩ := hread ⟨provedText, parse_provedText⟩
  exact ⟨hproofs, hagree.mpr nofun, read, hread, htold read hread⟩

end Attest
