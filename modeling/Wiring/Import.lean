import Wiring.Identity

/-!
Imports of one artifact. Every module path gets an alias, numbered from one in the order
in which the paths are first met, and a type is named through the alias of its path.
-/
namespace Wiring

/-- The paths met so far, in order and without repetition. -/
structure ImportTable where
  paths : List String := []
deriving DecidableEq, Repr, Inhabited

namespace ImportTable

def empty : ImportTable := {}

def aliasName (n : Nat) : String :=
  "di_import_" ++ toString n

/-- Make sure that a path has an alias. -/
def meet (t : ImportTable) (path : String) : ImportTable :=
  if path ∈ t.paths then t else { paths := t.paths ++ [path] }

/-- The alias of a path that the table holds. -/
def aliasOf (t : ImportTable) (path : String) : String :=
  aliasName (t.paths.idxOf path + 1)

/-- The alias of a path, which gets the next number if it is new. -/
def aliasFor (t : ImportTable) (path : String) : String × ImportTable :=
  ((t.meet path).aliasOf path, t.meet path)

/-- The name of a type. One without a path needs no import. -/
def qualify (t : ImportTable) (i : Identity) : String × ImportTable :=
  if i.path = "" then (i.name, t)
  else ((t.meet i.path).aliasOf i.path ++ "::" ++ i.name, t.meet i.path)

def isEmpty (t : ImportTable) : Bool :=
  t.paths.isEmpty

def useLine (n : Nat) (path : String) : String :=
  "use " ++ path ++ " as " ++ aliasName n ++ ";\n"

/-- One line for each path. -/
def render (t : ImportTable) : String :=
  String.join ((t.paths.zipIdx 1).map fun (path, n) => useLine n path)

@[simp] theorem paths_empty : (empty : ImportTable).paths = [] := rfl

theorem mem_meet (t : ImportTable) (path : String) : path ∈ (t.meet path).paths := by
  unfold meet
  split <;> simp_all

end ImportTable

end Wiring
