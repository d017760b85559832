import Attest.Proofs.Document.Attempts
import Attest.Proofs.Document.WrittenPresentation

/-!
Presentations that are read back as they were written. This holds of every presentation that a run leads to which
starts with the new one or with one that was read, embeds credentials and attaches proofs: on the way no custom member
gets the name of a field, no holder is a null and no single value is an array.
-/

namespace Attest

open Json (Draft Object Value)

namespace Presentation

/-- A presentation whose fields say nothing that would be read otherwise. -/
structure Settled (p : Presentation) : Prop where
  ordered : p.Ordered
  context : p.context.Plain
  holder : p.holder ≠ some .null
  credentials : p.credentials.Plain
  custom : ∀ member ∈ p.custom, member.1 ∉ fieldNames

theorem Settled.apart {p : Presentation} (hp : p.Settled) : Apart p.slots p.custom where
  nodup := p.nodup_slots
  ascending := (Value.ordered_object.mp hp.ordered.custom).1
  names := hp.custom

theorem Settled.nodup_names {p : Presentation} (hp : p.Settled) : (p.members.map Prod.fst).Nodup := by
  rw [members_eq_filled]
  exact hp.apart.nodup_names

/-! ### What is read back -/

/-- What is written for a field. -/
def written (p : Presentation) : Field → Option Value
  | .context => p.context.written fun v => v
  | .id => p.id.map Value.string
  | .types => p.types.written Value.string
  | .holder => p.holder
  | .credentials => p.credentials.written fun v => v
  | .proofs => if p.proofs.isEmpty then none else some (encodeProofs p.proofs)

/-- What a field says. -/
def said (p : Presentation) : (field : Field) → field.Held
  | .context => p.context
  | .id => p.id
  | .types => p.types
  | .holder => p.holder
  | .credentials => p.credentials
  | .proofs => p.proofs

theorem readProofs_encodeProofs {ps : List Proof} (hps : ps ≠ []) {budget : Nat}
    (h : (encodeProofs ps).Ordered ∧ (encodeProofs ps).depth ≤ budget) :
    readProofs budget (encodeProofs ps).draft = .ok ps := by
  have hnull : encodeProofs ps ≠ .null := by
    rcases encodeProofs_shape hps with ⟨q, -, hq⟩ | ⟨-, hqs⟩
    · rw [hq]
      exact nofun
    · rw [hqs]
      exact nofun
  rw [readProofs, (Draft.optionalValue_draft _ budget h.1).mpr ⟨h.2, rfl⟩, if_neg hnull, ok_bind,
    decodeProofs_encodeProofs]
  rfl

theorem Settled.readsBack {p : Presentation} (hp : p.Settled) {budget : Nat}
    (hdepth : ∀ member ∈ p.members, member.2.depth ≤ budget) :
    ReadsBack shape budget p.slots p.custom p.written p.said := by
  have hsized : ∀ member ∈ filled p.slots ++ p.custom, member.2.Ordered ∧ member.2.depth ≤ budget := by
    rw [← members_eq_filled]
    exact fun member hmember => ⟨ordered_of_mem_members hp.ordered hmember, hdepth member hmember⟩
  have hslot (name : String) {held : Option Value} (hheld : Dict.get? p.slots name = some held) :=
    forall_mem_slot hsized hheld
  refine ⟨hp.apart, rfl, fun field => by cases field <;> rfl, fun field => ?_, value_custom hsized⟩
  cases field with
  | context => exact OneOrMany.ofDraft_written_values hp.context (hslot "@context" rfl)
  | id => exact optionalText_written p.id
  | types => exact OneOrMany.ofDraft_written_texts (hslot "type" rfl)
  | holder => exact optionalValue_written hp.holder (hslot "holder" rfl)
  | credentials => exact OneOrMany.ofDraft_written_values hp.credentials (hslot "verifiableCredential" rfl)
  | proofs =>
      intro v hv
      have hsized := hslot proofName rfl v hv
      rw [written, Option.mem_def, Option.ite_none_left_eq_some] at hv
      obtain rfl := Option.some.inj hv.2
      exact readProofs_encodeProofs (fun h => hv.1 (List.isEmpty_iff.mpr h)) hsized

variable {p : Presentation} {budget : Nat}

/-- What has been read makes up a presentation again if each field was filled with what it says. -/
theorem finish_eq {r : Reading} (hslots : ∀ field, shape.get field r = (p.written field).map fun _ => p.said field)
    (hcustom : r.custom = p.custom) : r.finish = p := by
  have hcontext : r.context = (p.context.written fun v => v).map fun _ => p.context := hslots .context
  have hid : r.id = (p.id.map Value.string).map fun _ => p.id := hslots .id
  have htypes : r.types = (p.types.written Value.string).map fun _ => p.types := hslots .types
  have hholder : r.holder = p.holder.map fun _ => p.holder := hslots .holder
  have hcredentials : r.credentials = (p.credentials.written fun v => v).map fun _ => p.credentials :=
    hslots .credentials
  have hproofs : r.proofs = (p.written .proofs).map fun _ => p.proofs := hslots .proofs
  have hheld : ((p.written .proofs).map fun _ => p.proofs).getD [] = p.proofs := by
    rw [written]
    split
    · rename_i hempty
      exact (List.isEmpty_iff.mp hempty).symm
    · rfl
  rw [Reading.finish, hcontext, hid, htypes, hholder, hcredentials, hproofs, hheld, hcustom, OneOrMany.getD_written,
    OneOrMany.getD_written, OneOrMany.getD_written, join_map_map, join_map_const]

/-- A presentation whose fields say nothing that would be read otherwise is read back as it was written. -/
theorem Settled.parse_toBytes (hp : p.Settled) (hdepth : (Value.object p.members).depth ≤ Json.nestingLimit) :
    parse p.toBytes = .ok p := by
  have hparse : Json.parse p.toBytes = .ok (.object (Dict.ofList p.members)) := by
    rw [toBytes, toJson, Json.parse_object p.members fun _ => ordered_of_mem_members hp.ordered, if_pos hdepth]
  have hbudget : ∀ member ∈ p.members, member.2.depth ≤ (Value.object (Dict.ofList p.members)).depth - 1 :=
    fun member hmember =>
      Value.depthMembers_le.mp (Nat.le_refl _) member (Dict.mem_ofList_of_nodup hp.nodup_names hmember)
  obtain ⟨r, hr, hslots, hcustom⟩ := (hp.readsBack hbudget).foldMembers_eq readBy_read
  rw [← members_eq_filled] at hr
  have hobject : ofObject (Dict.ofList p.members) = .ok p := by
    rw [ofObject, Value.draft, ofDraft]
    exact bind_eq_ok.mpr ⟨r, hr, congrArg Except.ok (finish_eq hslots hcustom)⟩
  rw [parse, hparse, mapError_ok, ok_bind]
  simp only [hobject, mapError_ok]

/-! ### What a run leads to -/

/-- A presentation that was read is settled. -/
theorem settled_of_parse {text : Bytes} (h : parse text = .ok p) : p.Settled := by
  obtain ⟨v, hv, h⟩ := bind_eq_ok.mp h
  rw [mapError_eq_ok] at hv
  cases v with
  | object members =>
      obtain ⟨r, hr, h⟩ := bind_eq_ok.mp (mapError_eq_ok.mp h)
      cases h
      have hordered := (Json.ordered_of_parse hv).1
      obtain ⟨hascending, hmembers⟩ := Value.ordered_object.mp hordered
      have hheld {name : String} : ∀ v ∈ Dict.get? members name, v.Ordered :=
        fun v hv => hmembers _ (Dict.mem_of_get? hv)
      have hread := decoded_of_foldMembers hascending hr
      have hcontext := OneOrMany.plain_of_decoded hheld (hread .context)
      have hholder := optionalValue_of_decoded hheld (hread .holder)
      have hcredentials := OneOrMany.plain_of_decoded hheld (hread .credentials)
      have hproofs := ordered_of_decodeProofs hordered (proofs_of_foldMembers hordered hr)
      obtain ⟨hcustom, hnames⟩ := readBy_read.names_rest hr
      have hrest : r.custom = members.filter fun member => member.1 ∉ fieldNames :=
        readBy_read.rest_eq_filter hordered hr
      have hvalues : ∀ member ∈ r.custom, member.2.Ordered := by
        rw [hrest]
        exact fun member hmember => hmembers member (List.mem_of_mem_filter hmember)
      exact ⟨⟨hcontext.2, hholder.2, hcredentials.2, hproofs, Value.ordered_object.mpr ⟨hcustom, hvalues⟩⟩,
        hcontext.1, hholder.1, hcredentials.1, hnames⟩
  | _ => cases h

theorem settled_new : new.Settled where
  ordered := ⟨List.forall_mem_singleton.mpr trivial, nofun, List.forall_mem_nil _, List.forall_mem_nil _,
    Value.ordered_object.mpr ⟨Dict.ascending_nil, List.forall_mem_nil _⟩⟩
  context := nofun
  holder := nofun
  credentials := nofun
  custom := List.forall_mem_nil _

/-- What may be done with a presentation. -/
inductive Action
  /-- Credentials are embedded. -/
  | embed (credentials : List Credential)
  /-- A proof is asked for. -/
  | prove (r : Request)

/-- The presentation after an action. A request for a proof that fails leaves it as it is. -/
def act (p : Presentation) : Action → Presentation
  | .embed credentials => p.addCredentials credentials
  | .prove r => afterAttempt attempt p r

/-- The presentation after actions, one after the other. -/
def run (p : Presentation) (actions : List Action) : Presentation := actions.foldl act p

/-- The objects of the credentials that are embedded are in order. -/
def Action.Ordered : Action → Prop
  | .embed credentials => ∀ c ∈ credentials, (Value.object c.raw).Ordered
  | .prove _ => True

theorem Settled.addCredentials (hp : p.Settled) {credentials : List Credential}
    (h : ∀ c ∈ credentials, (Value.object c.raw).Ordered) : (p.addCredentials credentials).Settled := by
  induction credentials generalizing p with
  | nil => exact hp
  | cons c credentials ih =>
      rw [List.forall_mem_cons] at h
      have hpushed : (p.credentials.push (.object c.raw)).Ordered := by
        rw [OneOrMany.Ordered, OneOrMany.toList_push, List.forall_mem_append, List.forall_mem_singleton]
        exact ⟨hp.ordered.credentials, h.1⟩
      have hnext : ({ p with credentials := p.credentials.push (.object c.raw) } : Presentation).Settled :=
        ⟨⟨hp.ordered.context, hp.ordered.holder, hpushed, hp.ordered.proofs, hp.ordered.custom⟩, hp.context,
          hp.holder, nofun, hp.custom⟩
      exact ih hnext h.2

theorem Settled.attempt (hp : p.Settled) {r : Request} {next : Presentation} (h : p.attempt r = (.ok (), next)) :
    next.Settled := by
  obtain ⟨hordered, heq⟩ := ordered_addProof hp.ordered h
  rw [heq] at hordered ⊢
  exact ⟨hordered, hp.context, hp.holder, hp.credentials, hp.custom⟩

theorem Settled.act (hp : p.Settled) {action : Action} (h : action.Ordered) : (p.act action).Settled := by
  cases action with
  | embed credentials => exact hp.addCredentials h
  | prove r =>
      exact kept_afterAttempts allOrNothing_attempt (fun _ _ _ hnext hq => hq.attempt hnext) hp [r]

theorem Settled.run (hp : p.Settled) {actions : List Action} (h : ∀ action ∈ actions, action.Ordered) :
    (p.run actions).Settled := by
  induction actions generalizing p with
  | nil => exact hp
  | cons action actions ih =>
      rw [List.forall_mem_cons] at h
      exact ih (hp.act h.1) h.2

/-- A presentation that a run leads to is read back as it was written. The run starts with the new presentation or with
one that was read, embeds credentials and asks for proofs, and its end is not nested too deep. -/
theorem parse_run {start : Presentation} (hstart : start = new ∨ ∃ text, parse text = .ok start)
    {actions : List Action} (hactions : ∀ action ∈ actions, action.Ordered)
    (hdepth : (start.run actions).toJson.depth ≤ Json.nestingLimit) :
    parse (start.run actions).toBytes = .ok (start.run actions) := by
  have hsettled : start.Settled := by
    rcases hstart with rfl | ⟨text, htext⟩
    · exact settled_new
    · exact settled_of_parse htext
  exact (hsettled.run hactions).parse_toBytes hdepth

end Presentation

namespace Sample

/-- A credential with a proof is embedded, and a proof of another type attached. -/
def embedding : List Presentation.Action :=
  [.embed [proved], .prove ⟨newYear, context, swap⟩]

end Sample

open Sample in
/-- A presentation with one proof in an array that was read, to which a credential and a proof are added. -/
theorem Presentation.parse_run_held :
    parse heldText = .ok held ∧
    held.run embedding = { held with credentials := .many [.object proved.raw], proofs := [typedProof] } ∧
    parse (held.run embedding).toBytes = .ok (held.run embedding) := by
  have hrun : held.run embedding = { held with credentials := .many [.object proved.raw], proofs := [typedProof] } := by
    decide +kernel
  have hproved : (Value.object proved.raw).Ordered := (Credential.valid_parse parse_provedText).ordered
  have hordered : ∀ action ∈ embedding, action.Ordered :=
    List.forall_mem_cons.mpr ⟨List.forall_mem_singleton.mpr hproved, List.forall_mem_singleton.mpr trivial⟩
  have hdepth : (held.run embedding).toJson.depth ≤ Json.nestingLimit := by decide +kernel
  exact ⟨parse_heldText, hrun, parse_run (.inr ⟨heldText, parse_heldText⟩) hordered hdepth⟩

end Attest
