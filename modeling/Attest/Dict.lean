/-!
Finite maps from names, kept as lists of entries in ascending order of their names. Names are
ordered by code points, which is also the order of their UTF-8 bytes. Each operation is described
by what it does to `get?`.
-/

namespace Attest

/-- A finite map from names, as the ascending list of its entries. -/
abbrev Dict (α : Type) := List (String × α)

namespace Dict

variable {α : Type}

def get? : Dict α → String → Option α
  | [], _ => none
  | (key, value) :: rest, name => if key = name then some value else get? rest name

/-- Puts a value under a name, in place of the one that stands there. -/
def insert : Dict α → String → α → Dict α
  | [], name, value => [(name, value)]
  | (key, old) :: rest, name, value =>
    if name < key then (name, value) :: (key, old) :: rest
    else if name = key then (name, value) :: rest
    else (key, old) :: insert rest name value

/-- Leaves out the entry of a name. -/
def erase (d : Dict α) (name : String) : Dict α := d.filter fun entry => entry.1 ≠ name

/-- The map with these entries; of two with one name the later counts. -/
def ofList (entries : List (String × α)) : Dict α :=
  entries.foldl (fun d entry => d.insert entry.1 entry.2) []

/-- Every name stands before the next one. -/
def Ascending (d : Dict α) : Prop := d.Pairwise fun a b => a.1 < b.1

theorem get?_insert_self (d : Dict α) (name : String) (value : α) :
    (d.insert name value).get? name = some value := by
  induction d with
  | nil => simp [insert, get?]
  | cons entry rest ih =>
    obtain ⟨key, old⟩ := entry
    unfold insert
    split
    · simp [get?]
    split
    · simp [get?]
    · rename_i different
      simp [get?, Ne.symm different, ih]

theorem get?_insert_of_ne (d : Dict α) {name other : String} (h : other ≠ name) (value : α) :
    (d.insert name value).get? other = d.get? other := by
  induction d with
  | nil => simp [insert, get?, h.symm]
  | cons entry rest ih =>
    obtain ⟨key, old⟩ := entry
    unfold insert
    split
    · simp [get?, h.symm]
    split
    · rename_i same
      simp [get?, ← same, h.symm]
    · simp only [get?, ih]

theorem get?_erase_self (d : Dict α) (name : String) : (d.erase name).get? name = none := by
  induction d with
  | nil => rfl
  | cons entry rest ih =>
    by_cases h : entry.1 = name
    · simpa [erase, h] using ih
    · simpa [erase, h, get?] using ih

theorem get?_erase_of_ne (d : Dict α) {name other : String} (h : other ≠ name) :
    (d.erase name).get? other = d.get? other := by
  induction d with
  | nil => rfl
  | cons entry rest ih =>
    by_cases same : entry.1 = name
    · simpa [erase, same, get?, h.symm] using ih
    · by_cases there : entry.1 = other
      · simp [erase, get?, there, h]
      · simpa [erase, same, get?, there] using ih

end Dict

end Attest
