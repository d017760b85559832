import Attest.Proofs.Document.PresentationReading
import Attest.Proofs.Document.Requests
import Attest.Proofs.Json.Drafts

/-!
The proofs of the bytes that a signer returns, whatever they are. An object that could be read as a whole and that
names the member `proof` at most once shows the proofs that a reader of the whole finds. Arrays, whose items would
stand for members, are left aside here.
-/

namespace Attest

open Json (Draft Ending Error Object Value)
open Ascii (byte)

/-! ### Texts that can be read as a whole -/

theorem readAt_of_value {places : List Draft} (hone : places.length ≤ 1) {held : Option Value}
    (h : Option.Rel (fun d v => d.value (Json.nestingLimit - 1) = .ok v) places.getLast? held)
    (slot : Option (Option Value)) :
    ReadAt none places slot ↔ slot = held.map fun v => if v = .null then none else some v := by
  match places, hone with
  | [], _ =>
      cases h
      constructor
      · rintro ⟨⟩
        rfl
      · rintro rfl
        exact .nowhere
  | [d], _ =>
      rw [List.getLast?_singleton] at h
      cases h with
      | some hv =>
          have hfound := Draft.optionalValue_of_value hv
          constructor
          · rintro ⟨⟩
            rename_i hread
            rw [hfound] at hread
            cases hread
            rfl
          · rintro rfl
            exact .once rfl hfound

/-- An object that can be read as a whole and that names `proof` once at most shows what it has as `proof`. -/
theorem shows_of_parse {text : Bytes} {members : Object} (h : Json.parse text = .ok (.object members))
    (hone : Json.timesNamed proofName text ≤ 1) {held : Option Value} :
    Shows text held ↔ held = proofOf members := by
  obtain ⟨drafts, ending, entries, hscan, hend, hentries, rfl⟩ := Json.scan_of_parse h
  rw [Json.timesNamed, hscan] at hone
  have hread := readAt_of_value hone (Draft.get?_ofList_of_values hentries proofName)
  have hjoin : ((Dict.ofList entries).get? proofName |>.map fun v => if v = .null then none else some v).join =
      proofOf (Dict.ofList entries) := by
    rw [proofOf_eq_bind]
    cases (Dict.ofList entries).get? proofName <;> rfl
  constructor
  · rintro ⟨_, _, slot, hscan', -, -, hslot, rfl⟩
    rw [hscan] at hscan'
    cases hscan'
    rw [(hread slot).mp hslot, hjoin]
  · rintro rfl
    refine ⟨drafts, ending, _, hscan, hend, fun member hmember => ?_, (hread _).mpr rfl, hjoin.symm⟩
    obtain ⟨name, v, hname, hv⟩ := Draft.read_of_mem hentries hmember
    exact ⟨name, hname, fun _ => Draft.skip_of_value _ hv⟩

theorem Shows.timesNamed_le {text : Bytes} {held : Option Value} (h : Shows text held) :
    Json.timesNamed proofName text ≤ 1 := by
  obtain ⟨members, ending, slot, hscan, -, -, hread, -⟩ := h
  rw [Json.timesNamed, hscan]
  show (Draft.places proofName members).length ≤ 1
  generalize Draft.places proofName members = places at hread
  cases hread with
  | nowhere => exact Nat.zero_le _
  | once => exact Nat.le_refl _

/-- A text that shows something holds an object if it can be read as a whole. -/
theorem Shows.object_of_parse {text : Bytes} {held : Option Value} (h : Shows text held) {v : Value}
    (hv : Json.parse text = .ok v) : ∃ members, v = .object members := by
  obtain ⟨drafts, ending, slot, hscan, -⟩ := h
  have hvalue := (Json.decodeText_eq_ok.mp hv).1
  rw [hscan] at hvalue
  obtain ⟨entries, -, hvalue⟩ := bind_eq_ok.mp hvalue
  obtain ⟨_, -, hvalue⟩ := bind_eq_ok.mp hvalue
  cases hvalue
  exact ⟨_, rfl⟩

/-! ### The proofs of what a signer returned -/

/-- How a result follows from the bytes that a signer returned. -/
structure FollowsFrom (signed : Bytes) (result : Except IntegrityError (List Proof)) : Prop where
  /-- The result is proofs exactly if they are in what the object shows. -/
  success : ∀ ps, result = .ok ps ↔ ∃ held, Shows signed held ∧ decodeProofs held = .ok ps
  /-- If it is not proofs it is a fault of what was returned. -/
  failure : (∀ ps, result ≠ .ok ps) → ∃ e, result = .error (.decoding e)
  /-- Bytes that cannot even be passed over have no proofs. -/
  grammar : ∀ ps, result = .ok ps → (Json.scan signed).1.skip = .ok () ∧ (Json.scan signed).2 = false
  /-- In an object that can be read as a whole the proofs are where a reader of the whole finds them. -/
  object : ∀ members : Object, Json.parse signed = .ok (.object members) → Json.timesNamed proofName signed ≤ 1 →
    ∀ ps, result = .ok ps ↔ decodeProofs (members.get? proofName) = .ok ps
  /-- An object that names them repeatedly has none. -/
  repeated : 1 < Json.timesNamed proofName signed → ∃ e, result = .error (.decoding e)
  /-- Neither has another value. -/
  other : ∀ v, Json.parse signed = .ok v → v.object? = none → ∃ e, result = .error (.decoding e)

section Results

variable {now : Timestamp} {document signed : Bytes} {context : ProofContext} {signer : Signer}

theorem signDocument_of_returned (h : signer document (context.resolve now).toOptions = .ok signed) :
    signDocument now document context signer = (decodeSigned signed).mapError .decoding := by
  rw [signDocument, h, mapError_ok, ok_bind]

theorem followsFrom_signDocument (h : signer document (context.resolve now).toOptions = .ok signed)
    (hbracket : (Json.skipBlank signed).head? ≠ some (byte '[')) :
    FollowsFrom signed (signDocument now document context signer) := by
  have hsuccess (ps : List Proof) : signDocument now document context signer = .ok ps ↔
      ∃ held, Shows signed held ∧ decodeProofs held = .ok ps := by
    rw [signDocument_of_returned h, mapError_eq_ok, decodeSigned_eq_ok (Json.scan_ne_array hbracket)]
  have hfailure (hnone : ∀ ps, signDocument now document context signer ≠ .ok ps) :
      ∃ e, signDocument now document context signer = .error (.decoding e) := by
    rw [signDocument_of_returned h] at hnone ⊢
    cases hdecode : decodeSigned signed with
    | error e => exact ⟨e, rfl⟩
    | ok ps => exact absurd (by rw [hdecode, mapError_ok]) (hnone ps)
  refine ⟨hsuccess, hfailure, fun ps hps => ?_, fun members hmembers hone ps => ?_, fun hmany => ?_,
    fun v hv hobject => ?_⟩
  · obtain ⟨held, hshows, -⟩ := (hsuccess ps).mp hps
    exact hshows.skip
  · rw [hsuccess]
    simp only [shows_of_parse hmembers hone, exists_eq_left, decodeProofs_proofOf]
  · refine hfailure fun ps hps => ?_
    obtain ⟨held, hshows, -⟩ := (hsuccess ps).mp hps
    exact absurd hshows.timesNamed_le (Nat.not_le.mpr hmany)
  · refine hfailure fun ps hps => ?_
    obtain ⟨held, hshows, -⟩ := (hsuccess ps).mp hps
    obtain ⟨members, rfl⟩ := hshows.object_of_parse hv
    cases hobject

/-- Where an object can be read as a whole, the proofs found are those of the whole. -/
theorem decodeProofs_of_signDocument (h : signer document (context.resolve now).toOptions = .ok signed)
    {ps : List Proof} (hps : signDocument now document context signer = .ok ps) {members : Object}
    (hmembers : Json.parse signed = .ok (.object members)) : decodeProofs (members.get? proofName) = .ok ps := by
  have harray : ∀ items ending, (Json.scan signed).1 ≠ .array items ending := by
    obtain ⟨drafts, ending, entries, hscan, -⟩ := Json.scan_of_parse hmembers
    rw [hscan]
    intro items ending' harray
    cases harray
  rw [signDocument_of_returned h, mapError_eq_ok, decodeSigned_eq_ok harray] at hps
  obtain ⟨held, hshows, hdecode⟩ := hps
  rw [(shows_of_parse hmembers hshows.timesNamed_le).mp hshows, decodeProofs_proofOf] at hdecode
  exact hdecode

end Results

/-- What a signer returned is read as far as its proofs need. Unless it starts like an array, the result follows from
the object that it shows, and where a credential or a presentation can be read from it too, that has the same proofs. -/
theorem signDocument_reads_returned (now : Timestamp) (document : Bytes) (context : ProofContext) (signer : Signer)
    (signed : Bytes) (h : signer document (context.resolve now).toOptions = .ok signed) :
    ((Json.skipBlank signed).head? ≠ some (byte '[') →
      FollowsFrom signed (signDocument now document context signer)) ∧
    ∀ ps, signDocument now document context signer = .ok ps →
      (∀ c, Credential.parse signed = .ok c → c.proofs = ps) ∧
      ∀ p, Presentation.parse signed = .ok p → p.proofs = ps := by
  refine ⟨followsFrom_signDocument h, fun ps hps => ⟨fun c hc => ?_, fun p hp => ?_⟩⟩
  · obtain ⟨hparse, hproofs, -⟩ := Credential.parse_eq_ok.mp hc
    rw [decodeProofs_of_signDocument h hps hparse] at hproofs
    exact (Except.ok.inj hproofs).symm
  · obtain ⟨members, hparse, hread⟩ := Presentation.readFrom_of_parse hp
    have hproofs := hread.proofs
    rw [decodeProofs_of_signDocument h hps hparse] at hproofs
    exact (Except.ok.inj hproofs).symm

namespace Sample

/-- A text with a number out of range beside a proof. -/
def unreadableText : Bytes := Bytes.ofString "\x7b\"x\":1e999,\"proof\":\x7b\"type\":\"T\"\x7d\x7d"

/-- A text with the same proof twice. -/
def repeatedText : Bytes :=
  Bytes.ofString "\x7b\"proof\":\x7b\"type\":\"T\"\x7d,\"proof\":\x7b\"type\":\"T\"\x7d\x7d"

/-- The signer that returns a text whatever it gets. -/
def canned (text : Bytes) : Signer := fun _ _ => .ok text

end Sample

open Sample in
/-- What is passed over need not be readable, and a credential has the proofs that are found in its text. -/
theorem signDocument_reads_returned_samples :
    canned unreadableText [] (context.resolve newYear).toOptions = .ok unreadableText ∧
    (Json.skipBlank unreadableText).head? ≠ some (byte '[') ∧
    (∃ held, Shows unreadableText held ∧ decodeProofs held = .ok [typedProof]) ∧
    canned received [] (context.resolve newYear).toOptions = .ok received ∧
    ∃ c, Credential.parse received = .ok c ∧ c.proofs = [⟨[("type", .string "DataIntegrityProof")], rfl⟩] := by
  have hunreadable := signDocument_reads_returned newYear [] context (canned unreadableText) unreadableText rfl
  have hreceived := signDocument_reads_returned newYear [] context (canned received) received rfl
  refine ⟨rfl, by decide, ((hunreadable.1 (by decide)).success _).mp (by decide +kernel), rfl, ?_⟩
  have hsome : (Credential.parse received).isOk = true := by decide +kernel
  cases hparse : Credential.parse received with
  | error e =>
      rw [hparse] at hsome
      cases hsome
  | ok c => exact ⟨c, rfl, (hreceived.2 _ (by decide +kernel)).1 c hparse⟩

open Sample in
/-- An object that cannot be read as a whole shows its proofs, and one that names them twice, of which a reader of the
whole takes the second, does not. -/
theorem signDocument_reads_part :
    signDocument newYear [] context (canned unreadableText) = .ok [typedProof] ∧
    Json.parse unreadableText = .error .numberOutOfRange ∧
    Json.parse repeatedText = .ok (.object [(proofName, typedProof.toJson)]) ∧
    decodeProofs (some typedProof.toJson) = .ok [typedProof] ∧
    signDocument newYear [] context (canned repeatedText) =
      .error (.decoding (.json (.repeatedMember proofName))) := by
  decide +kernel

end Attest
