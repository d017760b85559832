import Attest.Proofs.Document.Slots

/-!
Members of one or many values, from where they come through any run of pushes. The JSON of one array is that of many
values, so it is only because no member ever is one array that the JSON of a member is read as the member. Neither
what is read nor what is made from a list is one array, and a push makes many values of whatever there was.
-/

namespace Attest

open Json (Value decodeText nestingLimit parse)

namespace OneOrMany

/-- A member that is not one array is read from its own JSON and from no other. -/
theorem ofJson?_eq_some_iff {m : OneOrMany Value} (hplain : m.Plain) {v : Value} :
    ofJson? some v = some m ↔ v = m.toJson fun v => v := by
  constructor
  · intro h
    exact (toJson_of_ofJson? (fun h => (Option.some.inj h).symm) h).1.symm
  · rintro rfl
    exact ofJson?_toJson (fun _ => rfl) fun v hone items heq => hplain items (heq ▸ hone)

/-- A text is read as the member that its value stands for. -/
theorem decodeText_ofDraft_eq_ok {m : OneOrMany Value} {text : Bytes} :
    decodeText (ofDraft some nestingLimit) text = .ok m ↔ ∃ v, parse text = .ok v ∧ ofJson? some v = some m := by
  simp only [parse, Json.decodeText_eq_ok, ofDraft, bind_eq_ok]
  constructor
  · rintro ⟨⟨v, hv, h⟩, hsurplus⟩
    refine ⟨v, ⟨hv, hsurplus⟩, ?_⟩
    cases hm : ofJson? some v with
    | none =>
        rw [hm] at h
        cases h
    | some found =>
        rw [hm] at h
        cases h
        rfl
  · rintro ⟨v, ⟨hv, hsurplus⟩, hm⟩
    exact ⟨⟨v, hv, by rw [hm]; rfl⟩, hsurplus⟩

/-! ### Origins -/

/-- Where a member comes from: it is the empty one, made from a list, or read from a JSON value. -/
inductive Origin
  | empty
  | list (values : List Value)
  | read (v : Value)

namespace Origin

/-- The member that comes from there. -/
def member? : Origin → Option (OneOrMany Value)
  | .empty => some .empty
  | .list values => some (.many values)
  | .read v => ofJson? some v

/-- The values that stand there, in order. -/
def values : Origin → List Value
  | .empty => []
  | .list values => values
  | .read (.array items) => items
  | .read v => [v]

/-- The JSON of what stands there. -/
def json : Origin → Value
  | .empty => .array []
  | .list values => .array values
  | .read v => v

end Origin

theorem exists_ofJson? (v : Value) : ∃ m, ofJson? some v = some m ∧ m.toList = (Origin.read v).values := by
  cases v with
  | array items =>
      have hitems : (items.map fun v => v).mapM some = some items := mapM_encode (fun _ => rfl) items
      rw [List.map_id'] at hitems
      exact ⟨.many items, by simp only [ofJson?, hitems], rfl⟩
  | _ => exact ⟨.one _, rfl, rfl⟩

/-- Every origin gives a member, with its values and its JSON, and never one array. -/
theorem Origin.exists_member (origin : Origin) :
    ∃ m, origin.member? = some m ∧ m.Plain ∧ m.toList = origin.values ∧ m.toJson (fun v => v) = origin.json := by
  cases origin with
  | empty => exact ⟨_, rfl, nofun, rfl, rfl⟩
  | list values => exact ⟨_, rfl, nofun, rfl, congrArg Value.array (List.map_id' values)⟩
  | read v =>
      obtain ⟨m, hm, hvalues⟩ := exists_ofJson? v
      have hplain := plain_of_ofJson? hm
      exact ⟨m, hm, hplain, hvalues, ((ofJson?_eq_some_iff hplain).mp hm).symm⟩

/-! ### Pushes -/

/-- The member after pushes of values, one after the other. -/
def pushAll {α : Type} (m : OneOrMany α) (values : List α) : OneOrMany α := values.foldl push m

theorem toList_pushAll {α : Type} (m : OneOrMany α) (values : List α) :
    (m.pushAll values).toList = m.toList ++ values := by
  induction values generalizing m with
  | nil => exact (List.append_nil _).symm
  | cons v values ih =>
      have hstep : m.pushAll (v :: values) = (m.push v).pushAll values := rfl
      rw [hstep, ih, toList_push, List.append_assoc, List.singleton_append]

theorem plain_push (m : OneOrMany Value) (v : Value) : (m.push v).Plain := nofun

theorem Plain.pushAll {m : OneOrMany Value} (h : m.Plain) (values : List Value) : (m.pushAll values).Plain := by
  induction values generalizing m with
  | nil => exact h
  | cons v values ih => exact ih (plain_push m v)

/-- Over any run of pushes the values are those of the origin and then those pushed, no member is one array, and
a member is read from its own JSON, as a value or as a text, and from no other. What comes from a JSON value and has
not been pushed to is written as that value. -/
theorem pushAll_keeps (origin : Origin) (pushed : List Value) :
    ∃ start, origin.member? = some start ∧ start.toJson (fun v => v) = origin.json ∧
      (start.pushAll pushed).toList = origin.values ++ pushed ∧
      (∀ items, start.pushAll pushed ≠ .one (.array items)) ∧
      (∀ v, ofJson? some v = some (start.pushAll pushed) ↔ v = (start.pushAll pushed).toJson fun v => v) ∧
      ∀ text, decodeText (ofDraft some nestingLimit) text = .ok (start.pushAll pushed) ↔
        parse text = .ok ((start.pushAll pushed).toJson fun v => v) := by
  obtain ⟨start, hmember, hplain, hvalues, hjson⟩ := origin.exists_member
  have hfinal := hplain.pushAll pushed
  refine ⟨start, hmember, hjson, by rw [toList_pushAll, hvalues], hfinal, fun v => ofJson?_eq_some_iff hfinal, ?_⟩
  intro text
  simp only [decodeText_ofDraft_eq_ok, ofJson?_eq_some_iff hfinal, exists_eq_right]

end OneOrMany

end Attest
