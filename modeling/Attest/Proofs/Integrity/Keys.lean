import Attest.Integrity.Keys
import Attest.Proofs.Dict

/-!
The directory of a keyring finds, under each verification method, the public key of the pair that was
registered last under that name.
-/

namespace Attest

namespace Keyring

/-- The keyring after registrations of keys, one after the other. -/
def ofRegistrations (registrations : List (String × KeyPair)) : Keyring :=
  registrations.foldl (fun r entry => r.insert entry.1 entry.2) .empty

theorem keys_ofRegistrations (registrations : List (String × KeyPair)) :
    (ofRegistrations registrations).keys = Dict.ofList registrations := by
  have hfold (r : Keyring) : (registrations.foldl (fun r entry => r.insert entry.1 entry.2) r).keys =
      registrations.foldl (fun d entry => Dict.insert d entry.1 entry.2) r.keys := by
    induction registrations generalizing r with
    | nil => rfl
    | cons entry registrations ih =>
        rw [List.foldl_cons, List.foldl_cons, ih]
        rfl
  exact hfold .empty

theorem ascending_ofRegistrations (registrations : List (String × KeyPair)) :
    Dict.Ascending (ofRegistrations registrations).keys := by
  rw [keys_ofRegistrations]
  exact Dict.ascending_ofList registrations

theorem keys_directory (r : Keyring) :
    r.directory.keys = Dict.ofList (r.keys.map fun entry => (entry.1, entry.2.publicKey)) := by
  have hfold (keys : Dict KeyPair) (d : KeyDirectory) :
      (keys.foldl (fun d entry => d.insert entry.1 entry.2.publicKey) d).keys =
        (keys.map fun entry => (entry.1, entry.2.publicKey)).foldl
          (fun d entry => Dict.insert d entry.1 entry.2) d.keys := by
    induction keys generalizing d with
    | nil => rfl
    | cons entry keys ih =>
        rw [List.foldl_cons, List.map_cons, List.foldl_cons, ih]
        rfl
  exact hfold r.keys .empty

/-- A directory finds the public key of the pair that stands in the keyring. -/
theorem resolve_directory {r : Keyring} (h : Dict.Ascending r.keys) {method : String} {key : KeyPair}
    (hkey : r.keys.get? method = some key) : r.directory.resolve method = .ok key.publicKey := by
  have hget : r.directory.keys.get? method = some key.publicKey := by
    rw [keys_directory, Dict.ofList_map, Dict.ofList_of_ascending h, Dict.get?_map_value, hkey, Option.map_some]
  rw [KeyDirectory.resolve, hget]

end Keyring

end Attest
