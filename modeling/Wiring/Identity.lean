import Wiring.Table

/-!
A declared type is identified by the path of its module and its name. Identities are
ordered by path and then by name, code point by code point.
-/
namespace Wiring

structure Identity where
  path : String
  name : String
deriving DecidableEq, Repr, Inhabited

namespace Identity

/-- Types without a path, such as those of a prelude, are shown by their name alone. -/
def display (i : Identity) : String :=
  if i.path = "" then i.name else i.path ++ "::" ++ i.name

instance : LT Identity where
  lt i j := i.path < j.path ∨ i.path = j.path ∧ i.name < j.name

instance : DecidableLT Identity := fun i j =>
  inferInstanceAs (Decidable (i.path < j.path ∨ i.path = j.path ∧ i.name < j.name))

instance : KeyOrder Identity where
  irrefl i h := by
    rcases h with h | ⟨_, h⟩
    · exact String.lt_irrefl _ h
    · exact String.lt_irrefl _ h
  trans := by
    intro i j k hij hjk
    rcases hij with hij | ⟨hij, hij'⟩ <;> rcases hjk with hjk | ⟨hjk, hjk'⟩
    · exact .inl (String.lt_trans hij hjk)
    · exact .inl (hjk ▸ hij)
    · exact .inl (hij ▸ hjk)
    · exact .inr ⟨hij.trans hjk, String.lt_trans hij' hjk'⟩
  connected := by
    intro i j hij hji
    have hpath : i.path = j.path :=
      KeyOrder.connected (fun h => hij (.inl h)) (fun h => hji (.inl h))
    have hname : i.name = j.name :=
      KeyOrder.connected (fun h => hij (.inr ⟨hpath, h⟩)) (fun h => hji (.inr ⟨hpath.symm, h⟩))
    cases i
    cases j
    cases hpath
    cases hname
    rfl

/-- Identities in the order in which tables list them; equal ones stay side by side. -/
def sort (is : List Identity) : List Identity :=
  is.mergeSort fun i j => !decide (j < i)

end Identity

/-- Identities in the order of a dependency chain. -/
def displayChain (chain : List Identity) : String :=
  " -> ".intercalate (chain.map Identity.display)

end Wiring
