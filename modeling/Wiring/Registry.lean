import Wiring.Failure
import Wiring.Universe

/-!
What modules offer: providers, which build values of a type, and bindings, which answer
requests for an interface with a struct. A type is registered by one method only.
-/
namespace Wiring

/-- A method of a value module that builds values of a type. -/
structure Provider where
  provides : Identity
  module : Identity
  method : String
  params : List Param
  result : TypeRef
  isFallible : Bool
deriving DecidableEq, Repr

instance : Keyed Provider Identity where
  key := Provider.provides

def Provider.site (p : Provider) : Site :=
  ⟨p.module, p.method⟩

/-- Whether the values are provided by reference. -/
def Provider.isReference (p : Provider) : Bool :=
  p.result.isPointer

/-- A method of a binding module that binds an interface to a struct. -/
structure Binding where
  interface : Identity
  implementation : Identity
  module : Identity
  method : String
deriving DecidableEq, Repr

instance : Keyed Binding Identity where
  key := Binding.interface

def Binding.site (b : Binding) : Site :=
  ⟨b.module, b.method⟩

/-- A struct whose methods are providers. One that is provided is passed to the component
from outside; the component builds the others itself. -/
structure ValueModule where
  identity : Identity
  isProvided : Bool
deriving DecidableEq, Repr

instance : Keyed ValueModule Identity where
  key := ValueModule.identity

structure Registry where
  providers : Table Provider := .empty
  bindings : Table Binding := .empty
  valueModules : Table ValueModule := .empty
deriving DecidableEq, Inhabited

namespace Registry

def empty : Registry := {}

def provider? (r : Registry) (i : Identity) : Option Provider :=
  r.providers.find? i

def binding? (r : Registry) (i : Identity) : Option Binding :=
  r.bindings.find? i

def valueModule? (r : Registry) (i : Identity) : Option ValueModule :=
  r.valueModules.find? i

/-- The method that has registered a type. -/
def siteOf? (r : Registry) (i : Identity) : Option Site :=
  match r.provider? i with
  | some p => some p.site
  | none => (r.binding? i).map Binding.site

/-- What has a site is provided or bound. -/
theorem siteOf?_eq_none_iff {r : Registry} {i : Identity} :
    r.siteOf? i = none ↔ r.provider? i = none ∧ r.binding? i = none := by
  unfold siteOf?
  cases r.provider? i <;> simp

def addProvider (r : Registry) (p : Provider) : Except Failure Registry :=
  match r.siteOf? p.provides with
  | some first => .error (.duplicateRegistration p.provides first p.site)
  | none => .ok { r with providers := r.providers.insert p }

def addBinding (r : Registry) (b : Binding) : Except Failure Registry :=
  match r.siteOf? b.interface with
  | some first => .error (.duplicateRegistration b.interface first b.site)
  | none => .ok { r with bindings := r.bindings.insert b }

def addValueModule (r : Registry) (m : ValueModule) : Registry :=
  { r with valueModules := r.valueModules.insert m }

end Registry

end Wiring
