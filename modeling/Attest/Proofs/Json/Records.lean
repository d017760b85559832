import Attest.Proofs.Json.RoundTrip

/-!
Records read member by member. What every step of a reader keeps holds at the end, and a slot that only the
member of one name fills holds what was decoded under that name, or nothing if the object has no such member. A
record has such a slot for each of its names, and keeps the members with other names as they are.
-/

namespace Attest.Json

theorem readOnce_eq_ok {α : Type} {name : String} {before after : Option α} {read : Except Error α} :
    readOnce name before read = .ok after ↔ before = none ∧ ∃ a, read = .ok a ∧ after = some a := by
  cases before with
  | some _ => simp [readOnce]
  | none =>
      rw [readOnce, map_eq_ok]
      simp [eq_comm]

/-- A step that reads a member into a slot succeeds once. -/
theorem fillOnce_eq_ok {α σ : Type} {name : String} {before : Option α} {read : Except Error α}
    {fill : Option α → σ} {state : σ} :
    (readOnce name before read >>= fun after => pure (fill after)) = .ok state ↔
      before = none ∧ ∃ a, read = .ok a ∧ state = fill (some a) := by
  rw [bind_eq_ok]
  constructor
  · rintro ⟨_, hread, hstate⟩
    obtain ⟨hbefore, a, ha, rfl⟩ := readOnce_eq_ok.mp hread
    exact ⟨hbefore, a, ha, (Except.ok.inj hstate).symm⟩
  · rintro ⟨hbefore, a, ha, rfl⟩
    exact ⟨_, readOnce_eq_ok.mpr ⟨hbefore, a, ha, rfl⟩, rfl⟩

namespace Draft

/-- What is decoded as an optional value is in order and within the depth allowed. -/
theorem ordered_of_optionalValue {d : Draft} {budget : Nat} {found : Option Value}
    (h : d.optionalValue budget = .ok found) : ∀ v ∈ found, v.Ordered ∧ v.depth ≤ budget := by
  have hvalue {d : Draft} (h : some <$> d.value budget = .ok found) :
      ∀ v ∈ found, v.Ordered ∧ v.depth ≤ budget := by
    obtain ⟨v, hv, rfl⟩ := map_eq_ok.mp h
    rintro _ ⟨⟩
    exact ordered_of_value d budget hv
  cases d with
  | null =>
      cases h
      exact nofun
  | _ => exact hvalue h

variable {σ β : Type} {step : σ → String → Draft → Except Error σ}

/-- What every step keeps holds after all members have been read. -/
theorem foldMembers_invariant (Inv : σ → Prop)
    (hstep : ∀ {s name d s'}, step s name d = .ok s' → Inv s → Inv s')
    {members : List (Except Error String × Draft)} {ending : Ending} {start final : σ} (hstart : Inv start)
    (h : foldMembers step members ending start = .ok final) : Inv final := by
  obtain ⟨last, hfold, hend⟩ := bind_eq_ok.mp h
  obtain ⟨_, -, hlast⟩ := bind_eq_ok.mp hend
  cases hlast
  clear h hend
  induction members generalizing start with
  | nil =>
      cases hfold
      exact hstart
  | cons member members ih =>
      rw [List.foldlM_cons] at hfold
      obtain ⟨next, hnext, hfold⟩ := bind_eq_ok.mp hfold
      obtain ⟨name, -, hnext⟩ := bind_eq_ok.mp hnext
      exact ih (hstep hnext hstart) hfold

/-- What stands under a name, if anything does, and what is decoded from it. -/
inductive Decoded (decode : Draft → Except Error β) : Option Value → Option β → Prop
  | absent : Decoded decode none none
  | present {v : Value} {x : β} (h : decode v.draft = .ok x) : Decoded decode (some v) (some x)

/-- The slot is filled by what is decoded under the name, and only there. -/
structure Fills (step : σ → String → Draft → Except Error σ) (slot : σ → Option β) (name : String)
    (decode : Draft → Except Error β) : Prop where
  self : ∀ {s s' d}, slot s = none → step s name d = .ok s' → ∃ x, decode d = .ok x ∧ slot s' = some x
  other : ∀ {s s' d other}, other ≠ name → step s other d = .ok s' → slot s' = slot s

variable {slot : σ → Option β} {name : String} {decode : Draft → Except Error β}

theorem Fills.frame (h : Fills step slot name decode) {members : List (String × Value)}
    (hmembers : ∀ member ∈ members, member.1 ≠ name) {start final : σ}
    (hfold : foldMembers step (draftMembers members) .closed start = .ok final) : slot final = slot start := by
  induction members generalizing start with
  | nil =>
      cases hfold
      rfl
  | cons member members ih =>
      obtain ⟨key, v⟩ := member
      rw [List.forall_mem_cons] at hmembers
      rw [foldMembers_cons] at hfold
      obtain ⟨next, hnext, hfold⟩ := bind_eq_ok.mp hfold
      rw [ih hmembers.2 hfold, h.other hmembers.1 hnext]

/-- After all members of an object have been read, a slot holds what stands under its name. -/
theorem Fills.read (h : Fills step slot name decode) {members : Object} (hmembers : Dict.Ascending members)
    {start final : σ} (hstart : slot start = none)
    (hfold : foldMembers step (draftMembers members) .closed start = .ok final) :
    Decoded decode (members.get? name) (slot final) := by
  induction members generalizing start with
  | nil =>
      cases hfold
      rw [hstart]
      exact .absent
  | cons member members ih =>
      obtain ⟨key, v⟩ := member
      rw [foldMembers_cons] at hfold
      obtain ⟨next, hnext, hfold⟩ := bind_eq_ok.mp hfold
      rw [Dict.get?_cons]
      by_cases hkey : key = name
      · subst hkey
        obtain ⟨x, hx, hslot⟩ := h.self hstart hnext
        have hframe := h.frame (fun member hmember heq =>
          String.lt_irrefl key (heq ▸ hmembers.lt_of_mem hmember)) hfold
        rw [if_pos rfl, hframe, hslot]
        exact .present hx
      · rw [if_neg hkey]
        exact ih hmembers.tail ((h.other hkey hnext).trans hstart) hfold

/-- What is decoded under a name is known if each value that may stand there is decoded to it. -/
theorem Decoded.eq {held : Option Value} {slot : Option β} (h : Decoded decode held slot) {x : β}
    (hx : ∀ v ∈ held, decode v.draft = .ok x) : slot = held.map fun _ => x := by
  cases h with
  | absent => rfl
  | present hread => rw [Option.map_some, ← Except.ok.inj (hread.symm.trans (hx _ rfl))]

/-- What is decoded as a value is the value that stands there. -/
theorem Decoded.eq_self {budget : Nat} {held slot : Option Value} (h : Decoded (·.value budget) held slot)
    (hv : ∀ v ∈ held, v.draft.value budget = .ok v) : slot = held := by
  cases h with
  | absent => rfl
  | present hread => rw [← Except.ok.inj (hread.symm.trans (hv _ rfl))]

/-- Whatever was read before under other names, the value can be read under the name. -/
inductive Readable (step : σ → String → Draft → Except Error σ) (start : σ) (name : String) (v : Value) : Prop
  | intro {β : Type} {slot : σ → Option β} {decode : Draft → Except Error β} (fills : Fills step slot name decode)
      (free : slot start = none) (read : ∀ s, slot s = none → ∃ s', step s name v.draft = .ok s') :
      Readable step start name v

theorem Readable.after {start next : σ} {v : Value} (h : Readable step start name v) {other : String} {d : Draft}
    (hother : other ≠ name) (hnext : step start other d = .ok next) : Readable step next name v := by
  cases h with
  | intro fills free read => exact .intro fills ((fills.other hother hnext).trans free) read

/-- Members with different names are read, one after the other, if each can be read. -/
theorem exists_foldMembers {members : List (String × Value)} (hnames : (members.map Prod.fst).Nodup) {start : σ}
    (h : ∀ member ∈ members, Readable step start member.1 member.2) :
    ∃ final, foldMembers step (draftMembers members) .closed start = .ok final := by
  induction members generalizing start with
  | nil => exact ⟨start, rfl⟩
  | cons member members ih =>
      obtain ⟨name, v⟩ := member
      rw [List.map_cons, List.nodup_cons] at hnames
      rw [List.forall_mem_cons] at h
      obtain ⟨next, hnext⟩ : ∃ next, step start name v.draft = .ok next := by
        cases h.1 with
        | intro _ free read => exact read start free
      obtain ⟨final, hfinal⟩ := ih hnames.2 fun other hother =>
        (h.2 other hother).after (fun heq => hnames.1 (List.mem_map.mpr ⟨other, hother, heq.symm⟩)) hnext
      exact ⟨final, by rw [foldMembers_cons, hnext, ok_bind, hfinal]⟩

/-! ### The shape of a record -/

/-- What a record is read into: a slot for the member of each of its names, and the rest for all other members. -/
structure Shape (σ ι : Type) where
  names : List String
  name : ι → String
  Held : ι → Type
  decode : Nat → (i : ι) → Draft → Except Error (Held i)
  start : σ
  get : (i : ι) → σ → Option (Held i)
  put : (i : ι) → σ → Option (Held i) → σ
  rest : σ → Object
  setRest : σ → Object → σ

/-- A step of the reader puts a member into the slot with its name, or into the rest if there is none, and leaves
everything else as it is. -/
structure Shape.ReadBy {ι : Type} (shape : Shape σ ι) (step : Nat → σ → String → Draft → Except Error σ) : Prop where
  mem_names {name : String} : name ∈ shape.names ↔ ∃ i, shape.name i = name
  get_start (i : ι) : shape.get i shape.start = none
  rest_start : shape.rest shape.start = []
  get_put_self (i : ι) (s : σ) (x : Option (shape.Held i)) : shape.get i (shape.put i s x) = x
  get_put_of_ne {i j : ι} (h : i ≠ j) (s : σ) (x : Option (shape.Held j)) :
    shape.get i (shape.put j s x) = shape.get i s
  get_setRest (i : ι) (s : σ) (others : Object) : shape.get i (shape.setRest s others) = shape.get i s
  rest_put (i : ι) (s : σ) (x : Option (shape.Held i)) : shape.rest (shape.put i s x) = shape.rest s
  rest_setRest (s : σ) (others : Object) : shape.rest (shape.setRest s others) = others
  slot (budget : Nat) (s : σ) (i : ι) (d : Draft) : step budget s (shape.name i) d =
    readOnce (shape.name i) (shape.get i s) (shape.decode budget i d) >>= fun after => pure (shape.put i s after)
  other (budget : Nat) (s : σ) {name : String} (h : name ∉ shape.names) (d : Draft) : step budget s name d =
    d.value budget >>= fun v => pure (shape.setRest s ((shape.rest s).insert name v))

namespace Shape.ReadBy

variable {ι : Type} {shape : Shape σ ι} {step : Nat → σ → String → Draft → Except Error σ} {budget : Nat}

/-- What a step can do. -/
theorem step_cases (h : shape.ReadBy step) {s s' : σ} {name : String} {d : Draft}
    (hstep : step budget s name d = .ok s') :
    (∃ i x, shape.name i = name ∧ shape.decode budget i d = .ok x ∧ s' = shape.put i s (some x)) ∨
      ∃ v, name ∉ shape.names ∧ d.value budget = .ok v ∧ s' = shape.setRest s ((shape.rest s).insert name v) := by
  by_cases hname : name ∈ shape.names
  · obtain ⟨i, rfl⟩ := h.mem_names.mp hname
    rw [h.slot] at hstep
    obtain ⟨-, x, hx, rfl⟩ := fillOnce_eq_ok.mp hstep
    exact .inl ⟨i, x, rfl, hx, rfl⟩
  · rw [h.other budget s hname] at hstep
    obtain ⟨v, hv, hstep⟩ := bind_eq_ok.mp hstep
    exact .inr ⟨v, hname, hv, (Except.ok.inj hstep).symm⟩

theorem fills (h : shape.ReadBy step) (i : ι) :
    Fills (step budget) (shape.get i) (shape.name i) (shape.decode budget i) where
  self _ hstep := by
    rw [h.slot] at hstep
    obtain ⟨-, x, hx, rfl⟩ := fillOnce_eq_ok.mp hstep
    exact ⟨x, hx, h.get_put_self i _ _⟩
  other hother hstep := by
    rcases h.step_cases hstep with ⟨j, x, hname, -, rfl⟩ | ⟨v, -, -, rfl⟩
    · refine h.get_put_of_ne (fun heq => ?_) _ _
      rw [← hname, heq] at hother
      exact hother rfl
    · exact h.get_setRest i _ _

/-- Each of the other members is filled like a slot of its own. -/
theorem fills_rest (h : shape.ReadBy step) {name : String} (hname : name ∉ shape.names) :
    Fills (step budget) (fun s => (shape.rest s).get? name) name (·.value budget) where
  self _ hstep := by
    rw [h.other budget _ hname] at hstep
    obtain ⟨v, hv, hstep⟩ := bind_eq_ok.mp hstep
    cases hstep
    refine ⟨v, hv, ?_⟩
    rw [h.rest_setRest, Dict.get?_insert_self]
  other hother hstep := by
    rcases h.step_cases hstep with ⟨i, x, -, -, rfl⟩ | ⟨v, -, -, rfl⟩
    · rw [h.rest_put]
    · rw [h.rest_setRest, Dict.get?_insert_of_ne _ hother.symm]

/-- The other members that have been read are in order, and none of them has the name of a slot. -/
theorem names_rest (h : shape.ReadBy step) {members : List (Except Error String × Draft)} {ending : Ending} {final : σ}
    (hfold : foldMembers (step budget) members ending shape.start = .ok final) :
    (shape.rest final).Ascending ∧ ∀ member ∈ shape.rest final, member.1 ∉ shape.names := by
  refine foldMembers_invariant
    (fun s => (shape.rest s).Ascending ∧ ∀ member ∈ shape.rest s, member.1 ∉ shape.names) ?_ ?_ hfold
  · rintro s name d s' hstep ⟨hascending, hnames⟩
    rcases h.step_cases hstep with ⟨i, x, -, -, rfl⟩ | ⟨v, hname, -, rfl⟩
    · rw [h.rest_put]
      exact ⟨hascending, hnames⟩
    · rw [h.rest_setRest]
      refine ⟨Dict.ascending_insert hascending _ _, fun member hmember => ?_⟩
      rcases Dict.mem_insert hmember with rfl | hold
      · exact hname
      · exact hnames member hold
  · rw [h.rest_start]
    exact ⟨Dict.ascending_nil, List.forall_mem_nil _⟩

/-- The rest of an object that was read are its members without slots. -/
theorem rest_eq_filter (h : shape.ReadBy step) {members : Object} (hordered : (Value.object members).Ordered) {final : σ}
    (hfold : foldMembers (step budget) (draftMembers members) .closed shape.start = .ok final) :
    shape.rest final = members.filter fun member => member.1 ∉ shape.names := by
  obtain ⟨hascending, hvalues⟩ := Value.ordered_object.mp hordered
  obtain ⟨hrest, hnames⟩ := h.names_rest hfold
  refine Dict.ext hrest (hascending.filter _) fun name => ?_
  rw [Dict.get?_filter hascending]
  -- The slots say nothing about their own names, under which nothing is inserted.
  by_cases hname : name ∈ shape.names
  · have hnone : (shape.rest final).get? name = none :=
      Dict.get?_eq_none fun member hmember heq => hnames member hmember (heq ▸ hname)
    rw [hnone]
    simp [hname]
  · have hstart : (shape.rest shape.start).get? name = none := by
      rw [h.rest_start]
      rfl
    have hread := (h.fills_rest hname).read hascending hstart hfold
    generalize hheld : members.get? name = held at hread
    generalize (shape.rest final).get? name = slot at hread
    cases hread with
    | absent => rfl
    | present hv =>
        rw [Draft.value_draft _ budget (hvalues _ (Dict.mem_of_get? hheld))] at hv
        split at hv
        · cases hv
          rw [Option.filter_some, if_pos (decide_eq_true hname)]
        · cases hv

theorem readable (h : shape.ReadBy step) {i : ι} {v : Value} {x : shape.Held i}
    (hx : shape.decode budget i v.draft = .ok x) : Readable (step budget) shape.start (shape.name i) v :=
  .intro (h.fills i) (h.get_start i) fun s hs =>
    ⟨shape.put i s (some x), (h.slot budget s i _).trans (fillOnce_eq_ok.mpr ⟨hs, x, hx, rfl⟩)⟩

theorem readable_rest (h : shape.ReadBy step) {name : String} (hname : name ∉ shape.names) {v w : Value}
    (hv : v.draft.value budget = .ok w) : Readable (step budget) shape.start name v := by
  refine .intro (h.fills_rest hname) ?_ fun s _ => ⟨shape.setRest s ((shape.rest s).insert name w), ?_⟩
  · rw [h.rest_start]
    rfl
  · rw [h.other budget s hname, hv]
    rfl

end Shape.ReadBy

end Draft

end Attest.Json
