import Wiring.Identity

/-!
References to types as they stand in fields, parameters and results. Only a declared
type and a reference to one can be injected: these are the two shapes.
-/
namespace Wiring

inductive TypeRef where
  | named (identity : Identity)
  | pointer (target : TypeRef)
  | slice (element : TypeRef)
  | map (domain value : TypeRef)
  | tuple (items : List TypeRef)
  | builtin (name : String)
  | error
deriving Repr, Inhabited

/-- A declared type, requested by value or by reference. -/
structure Shape where
  identity : Identity
  isReference : Bool
deriving DecidableEq, Repr

namespace TypeRef

mutual

/-- Whether two references are the same. -/
def same : TypeRef → TypeRef → Bool
  | named i, named j => i == j
  | pointer t, pointer t' => same t t'
  | slice t, slice t' => same t t'
  | map k v, map k' v' => same k k' && same v v'
  | tuple ts, tuple ts' => sameAll ts ts'
  | builtin n, builtin n' => n == n'
  | error, error => true
  | _, _ => false

def sameAll : List TypeRef → List TypeRef → Bool
  | [], [] => true
  | t :: ts, t' :: ts' => same t t' && sameAll ts ts'
  | _, _ => false

end

mutual

theorem same_iff (t t' : TypeRef) : same t t' = true ↔ t = t' := by
  cases t <;> cases t' <;> simp [same, same_iff, sameAll_iff]

theorem sameAll_iff (ts ts' : List TypeRef) : sameAll ts ts' = true ↔ ts = ts' := by
  cases ts <;> cases ts' <;> simp [sameAll, same_iff, sameAll_iff]

end

instance : DecidableEq TypeRef := fun t t' =>
  decidable_of_iff _ (same_iff t t')

/-- The shape of a reference that can be injected. -/
def shape : TypeRef → Option Shape
  | named i => some ⟨i, false⟩
  | pointer (named i) => some ⟨i, true⟩
  | _ => none

/-- A reference of any kind, also one that has no shape. -/
def isPointer : TypeRef → Bool
  | pointer _ => true
  | _ => false

def isError : TypeRef → Bool
  | error => true
  | _ => false

mutual

def display : TypeRef → String
  | named i => i.display
  | pointer t => "&" ++ display t
  | slice t => "[" ++ display t ++ "]"
  | map k v => "Map<" ++ display k ++ ", " ++ display v ++ ">"
  | tuple ts => "(" ++ ", ".intercalate (displayAll ts) ++ ")"
  | builtin n => n
  | error => "Error"

def displayAll : List TypeRef → List String
  | [] => []
  | t :: ts => display t :: displayAll ts

end

theorem shape_eq_some_iff {t : TypeRef} {s : Shape} :
    t.shape = some s ↔
      t = if s.isReference then pointer (named s.identity) else named s.identity := by
  obtain ⟨i, b⟩ := s
  cases b
  · cases t with
    | pointer t => cases t <;> simp [shape]
    | _ => simp [shape]
  · cases t with
    | pointer t => cases t <;> simp [shape]
    | _ => simp [shape]

end TypeRef

end Wiring
