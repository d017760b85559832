import Attest.Dict
import Mathlib.Data.List.Induction

/-!
Finite maps by what they say under each name. A map in ascending order is determined by its
entries, so the operations can be compared name by name; building a map from a list of entries gives
an ascending one in which the last entry of each name counts, and leaves an ascending list as it is.
-/

namespace Attest.Dict

variable {α : Type}

theorem eq_of_not_lt {a b : String} (hab : ¬ a < b) (hba : ¬ b < a) : a = b :=
  String.le_antisymm (String.not_lt.mp hba) (String.not_lt.mp hab)

theorem mem_of_get? {d : Dict α} {name : String} {value : α} (h : d.get? name = some value) :
    (name, value) ∈ d := by
  induction d with
  | nil => simp [get?] at h
  | cons entry rest ih =>
      obtain ⟨key, old⟩ := entry
      rw [get?] at h
      split at h
      · rename_i hkey
        cases h
        rw [hkey]
        exact List.mem_cons_self
      · exact List.mem_cons_of_mem _ (ih h)

theorem get?_eq_none {d : Dict α} {name : String} (h : ∀ entry ∈ d, entry.1 ≠ name) :
    d.get? name = none := by
  cases hget : d.get? name with
  | none => rfl
  | some value => exact absurd rfl (h _ (mem_of_get? hget))

theorem get?_cons (key : String) (old : α) (rest : Dict α) (name : String) :
    get? ((key, old) :: rest) name = if key = name then some old else rest.get? name := rfl

theorem get?_append (d e : Dict α) (name : String) :
    get? (d ++ e) name = (d.get? name).or (e.get? name) := by
  induction d with
  | nil => rfl
  | cons entry rest ih =>
      obtain ⟨key, old⟩ := entry
      rw [List.cons_append, get?_cons, get?_cons, ih]
      split <;> rfl

/-! ### Entries with different names -/

/-- Where no name stands twice, a look-up finds each entry. -/
theorem mem_iff_get?_of_nodup {l : List (String × α)} (h : (l.map Prod.fst).Nodup) {name : String} {value : α} :
    (name, value) ∈ l ↔ get? l name = some value := by
  refine ⟨fun hmem => ?_, mem_of_get?⟩
  induction l with
  | nil => cases hmem
  | cons entry rest ih =>
      obtain ⟨key, old⟩ := entry
      rw [List.map_cons, List.nodup_cons] at h
      rw [get?_cons]
      rcases List.mem_cons.mp hmem with heq | hrest
      · cases heq
        rw [if_pos rfl]
      · rw [if_neg fun heq => h.1 (List.mem_map.mpr ⟨_, hrest, heq.symm⟩)]
        exact ih h.2 hrest

/-- A list of the same entries in any order says the same. -/
theorem get?_of_perm {l k : List (String × α)} (hk : (k.map Prod.fst).Nodup) (h : l.Perm k) (name : String) :
    get? l name = get? k name := by
  have hl : (l.map Prod.fst).Nodup := (h.map Prod.fst).nodup_iff.mpr hk
  exact Option.ext fun value => by
    rw [← mem_iff_get?_of_nodup hl, ← mem_iff_get?_of_nodup hk, h.mem_iff]

/-! ### Ascending maps -/

theorem Ascending.tail {entry : String × α} {rest : Dict α} (h : Ascending (entry :: rest)) :
    rest.Ascending := (List.pairwise_cons.mp h).2

theorem Ascending.lt_of_mem {key : String} {old : α} {rest : Dict α}
    (h : Ascending ((key, old) :: rest)) {entry : String × α} (hentry : entry ∈ rest) :
    key < entry.1 := (List.pairwise_cons.mp h).1 entry hentry

theorem Ascending.get?_tail {key : String} {old : α} {rest : Dict α}
    (h : Ascending ((key, old) :: rest)) : rest.get? key = none :=
  get?_eq_none fun _ hentry heq => String.lt_irrefl key (heq ▸ h.lt_of_mem hentry)

theorem Ascending.nodup_names {d : Dict α} (h : d.Ascending) : (d.map Prod.fst).Nodup := by
  refine List.pairwise_map.mpr (List.Pairwise.imp ?_ h)
  intro entry other hlt heq
  exact String.lt_irrefl _ (heq ▸ hlt)

theorem get?_of_mem {d : Dict α} (h : d.Ascending) {name : String} {value : α}
    (hmem : (name, value) ∈ d) : d.get? name = some value := (mem_iff_get?_of_nodup h.nodup_names).mp hmem

theorem mem_iff_get? {d : Dict α} (h : d.Ascending) {entry : String × α} :
    entry ∈ d ↔ d.get? entry.1 = some entry.2 := ⟨get?_of_mem h, mem_of_get?⟩

theorem Ascending.nodup {d : Dict α} (h : d.Ascending) : d.Nodup := by
  refine List.Pairwise.imp ?_ h
  rintro entry _ hlt rfl
  exact String.lt_irrefl _ hlt

/-- Two ascending maps that say the same under every name are equal. -/
theorem ext {d e : Dict α} (hd : d.Ascending) (he : e.Ascending)
    (h : ∀ name, d.get? name = e.get? name) : d = e := by
  induction d generalizing e with
  | nil =>
      cases e with
      | nil => rfl
      | cons entry rest =>
          have hhead := h entry.1
          simp [get?] at hhead
  | cons entry rest ih =>
      obtain ⟨key, old⟩ := entry
      cases e with
      | nil =>
          have hhead := h key
          simp [get?] at hhead
      | cons entry' rest' =>
          obtain ⟨key', old'⟩ := entry'
          -- Each of the two first names stands in the other map, so neither is below the other.
          have hlow : ¬ key' < key := fun hlt => by
            have hget := h key'
            rw [get?_cons, if_neg (fun heq : key = key' => String.lt_irrefl key' (heq ▸ hlt)),
              get?_cons, if_pos rfl] at hget
            exact String.lt_asymm hlt (hd.lt_of_mem (mem_of_get? hget))
          have hhigh : ¬ key < key' := fun hlt => by
            have hget := h key
            rw [get?_cons, if_pos rfl, get?_cons,
              if_neg (fun heq : key' = key => String.lt_irrefl key (heq ▸ hlt))] at hget
            exact String.lt_asymm hlt (he.lt_of_mem (mem_of_get? hget.symm))
          obtain rfl := eq_of_not_lt hhigh hlow
          have hvalue := h key
          rw [get?_cons, if_pos rfl, get?_cons, if_pos rfl] at hvalue
          have hrest : rest = rest' := by
            apply ih hd.tail he.tail
            intro name
            by_cases hname : key = name
            · rw [← hname, hd.get?_tail, he.get?_tail]
            · have hget := h name
              rwa [get?_cons, if_neg hname, get?_cons, if_neg hname] at hget
          rw [Option.some.inj hvalue, hrest]

theorem mem_insert {d : Dict α} {name : String} {value : α} {entry : String × α}
    (h : entry ∈ d.insert name value) : entry = (name, value) ∨ entry ∈ d := by
  induction d with
  | nil => simpa [insert] using h
  | cons first rest ih =>
      obtain ⟨key, old⟩ := first
      rw [insert] at h
      split at h
      · simpa using h
      split at h
      · rcases List.mem_cons.mp h with heq | hrest
        · exact .inl heq
        · exact .inr (List.mem_cons_of_mem _ hrest)
      · rcases List.mem_cons.mp h with heq | hrest
        · exact .inr (heq ▸ List.mem_cons_self)
        · exact (ih hrest).imp_right (List.mem_cons_of_mem _)

theorem ascending_insert {d : Dict α} (h : d.Ascending) (name : String) (value : α) :
    (d.insert name value).Ascending := by
  induction d with
  | nil => exact List.pairwise_singleton _ _
  | cons first rest ih =>
      obtain ⟨key, old⟩ := first
      rw [insert]
      split
      · rename_i hlt
        refine List.pairwise_cons.mpr ⟨fun entry hentry => ?_, h⟩
        rcases List.mem_cons.mp hentry with heq | hrest
        · rwa [heq]
        · exact String.lt_trans hlt (h.lt_of_mem hrest)
      split
      · rename_i heq
        refine List.pairwise_cons.mpr ⟨fun entry hentry => ?_, h.tail⟩
        rw [heq]
        exact h.lt_of_mem hentry
      · rename_i hnot hne
        refine List.pairwise_cons.mpr ⟨fun entry hentry => ?_, ih h.tail⟩
        rcases mem_insert hentry with heq | hrest
        · rw [heq]
          exact Decidable.byContradiction fun hlow => hne (eq_of_not_lt hnot hlow)
        · exact h.lt_of_mem hrest

theorem ascending_erase {d : Dict α} (h : d.Ascending) (name : String) :
    (d.erase name).Ascending := List.Pairwise.filter _ h

theorem ascending_nil : Ascending ([] : Dict α) := List.Pairwise.nil

/-! ### Maps from lists of entries -/

theorem ofList_append (l : List (String × α)) (entry : String × α) :
    ofList (l ++ [entry]) = (ofList l).insert entry.1 entry.2 := by
  simp [ofList]

theorem ascending_ofList (l : List (String × α)) : (ofList l).Ascending := by
  induction l using List.reverseRecOn with
  | nil => exact ascending_nil
  | append_singleton l entry ih =>
      rw [ofList_append]
      exact ascending_insert ih _ _

theorem mem_of_mem_ofList {l : List (String × α)} {entry : String × α} (h : entry ∈ ofList l) :
    entry ∈ l := by
  induction l using List.reverseRecOn with
  | nil => cases h
  | append_singleton l last ih =>
      rw [ofList_append] at h
      rcases mem_insert h with heq | hrest
      · exact List.mem_append_right _ (by simp [heq])
      · exact List.mem_append_left _ (ih hrest)

/-- Of the entries with one name the last counts. -/
theorem get?_ofList (l : List (String × α)) (name : String) :
    (ofList l).get? name = get? l.reverse name := by
  induction l using List.reverseRecOn with
  | nil => rfl
  | append_singleton l entry ih =>
      rw [ofList_append, List.reverse_append, List.reverse_singleton, List.singleton_append, get?_cons,
        ← ih]
      split
      · rename_i heq
        rw [heq, get?_insert_self]
      · rename_i hne
        rw [get?_insert_of_ne _ (Ne.symm hne)]

theorem get?_reverse_cons (entry : String × α) (l : List (String × α)) (name : String) :
    get? (entry :: l).reverse name = (get? l.reverse name).or (if entry.1 = name then some entry.2 else none) := by
  rw [List.reverse_cons, get?_append]
  rfl

theorem get?_reverse {d : Dict α} (h : d.Ascending) (name : String) :
    get? d.reverse name = d.get? name := get?_of_perm h.nodup_names (List.reverse_perm d) name

/-- Where no name stands twice, the map says what the entries say. -/
theorem get?_ofList_of_nodup {l : List (String × α)} (h : (l.map Prod.fst).Nodup) (name : String) :
    (ofList l).get? name = get? l name := by
  rw [get?_ofList, get?_of_perm h (List.reverse_perm l)]

theorem mem_ofList_of_nodup {l : List (String × α)} (h : (l.map Prod.fst).Nodup) {entry : String × α}
    (hentry : entry ∈ l) : entry ∈ ofList l := by
  apply mem_of_get?
  rw [get?_ofList_of_nodup h, ← mem_iff_get?_of_nodup h]
  exact hentry

/-- An ascending list of entries is the map of its entries. -/
theorem ofList_of_ascending {d : Dict α} (h : d.Ascending) : ofList d = d :=
  ext (ascending_ofList d) h fun name => by rw [get?_ofList, get?_reverse h]

/-- The entries of a map in any order make up the map. -/
theorem ofList_of_perm {l : List (String × α)} {d : Dict α} (hd : d.Ascending) (h : l.Perm d) : ofList l = d :=
  ext (ascending_ofList l) hd fun name => by
    rw [get?_ofList, get?_of_perm hd.nodup_names ((List.reverse_perm l).trans h)]

theorem map_insert {β : Type} (f : α → β) (d : Dict α) (name : String) (value : α) :
    (d.insert name value).map (fun entry => (entry.1, f entry.2)) =
      insert (d.map fun entry => (entry.1, f entry.2)) name (f value) := by
  induction d with
  | nil => rfl
  | cons entry rest ih =>
      obtain ⟨key, old⟩ := entry
      rw [insert, List.map_cons, insert]
      split
      · rfl
      split
      · rfl
      · rw [List.map_cons, ih]

/-- Changing the values does not change the order. -/
theorem ofList_map {β : Type} (f : α → β) (l : List (String × α)) :
    ofList (l.map fun entry => (entry.1, f entry.2)) =
      (ofList l).map fun entry => (entry.1, f entry.2) := by
  induction l using List.reverseRecOn with
  | nil => rfl
  | append_singleton l entry ih =>
      rw [List.map_append, List.map_singleton, ofList_append, ofList_append, map_insert, ih]

theorem get?_map_value {β : Type} (f : α → β) (d : Dict α) (name : String) :
    get? (d.map fun entry => (entry.1, f entry.2)) name = (d.get? name).map f := by
  induction d with
  | nil => rfl
  | cons entry rest ih =>
      obtain ⟨key, value⟩ := entry
      rw [List.map_cons, get?_cons, get?_cons, ih]
      split <;> rfl

/-- Under other names, which differ where the names did, stands what stood under the names. -/
theorem get?_map_name {rename : String → String} (h : Function.Injective rename) (d : Dict α)
    (name : String) :
    get? (d.map fun entry => (rename entry.1, entry.2)) (rename name) = d.get? name := by
  induction d with
  | nil => rfl
  | cons entry rest ih =>
      rw [List.map_cons, get?_cons, get?_cons, ih]
      simp only [h.eq_iff]

/-- In an ascending map a filter does to the entry of each name what it does to all. -/
theorem get?_filter {d : Dict α} (h : d.Ascending) (keep : String × α → Bool) (name : String) :
    get? (d.filter keep) name = (d.get? name).filter fun value => keep (name, value) := by
  induction d with
  | nil => rfl
  | cons entry rest ih =>
      obtain ⟨key, old⟩ := entry
      rw [List.filter_cons, get?_cons]
      by_cases hname : key = name
      · subst hname
        rw [if_pos rfl, Option.filter_some]
        split
        · rw [get?_cons, if_pos rfl]
        · rw [ih h.tail, h.get?_tail]
          rfl
      · rw [if_neg hname, ← ih h.tail]
        split
        · rw [get?_cons, if_neg hname]
        · rfl

/-! ### Operations under which maps are equal -/

theorem erase_insert (d : Dict α) (name : String) (value : α) :
    (d.insert name value).erase name = d.erase name := by
  induction d with
  | nil => simp [insert, erase]
  | cons entry rest ih =>
      obtain ⟨key, old⟩ := entry
      rw [insert]
      split
      · simp [erase]
      split
      · rename_i same
        simp [erase, same]
      · rename_i different
        have hkey : key ≠ name := fun heq => different heq.symm
        rw [erase, erase, List.filter_cons_of_pos (by simp [hkey]), List.filter_cons_of_pos (by simp [hkey])]
        exact congrArg _ ih

theorem erase_of_get?_none {d : Dict α} {name : String} (h : d.get? name = none) : d.erase name = d := by
  induction d with
  | nil => rfl
  | cons entry rest ih =>
      obtain ⟨key, old⟩ := entry
      rw [get?_cons] at h
      split at h
      · cases h
      · rename_i hkey
        rw [erase, List.filter_cons_of_pos (by simp [hkey])]
        exact congrArg _ (ih h)

theorem erase_erase (d : Dict α) (name : String) : (d.erase name).erase name = d.erase name :=
  erase_of_get?_none (get?_erase_self d name)

theorem mem_of_mem_erase {d : Dict α} {name : String} {entry : String × α}
    (h : entry ∈ d.erase name) : entry ∈ d := (List.mem_filter.mp h).1

end Attest.Dict
