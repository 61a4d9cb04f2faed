import Wiring.Diagnostic
import Wiring.TypeRef

/-!
What can be wrong with a definition, with its modules, or with the dependencies between
what they declare. The first failure ends a run and becomes one diagnostic.
-/
namespace Wiring

/-- The method of a module that registers a provider or a binding. -/
structure Site where
  module : Identity
  method : String
deriving DecidableEq, Repr, Inhabited

def Site.display (s : Site) : String :=
  s.module.display ++ "::" ++ s.method

/-- What asks for a dependency. -/
inductive Requirement where
  | target (method : String)
  | field (owner : Identity) (field : String)
  | parameter (site : Site) (param : String)
  | binding (interface : Identity)
deriving DecidableEq, Repr

def Requirement.display : Requirement → String
  | target method => "target `" ++ method ++ "`"
  | field owner f => "field `" ++ f ++ "` of `" ++ owner.display ++ "`"
  | parameter site p => "parameter `" ++ p ++ "` of provider `" ++ site.display ++ "`"
  | binding interface => "the binding for `" ++ interface.display ++ "`"

/-- How a method of a value module fails to be a provider. -/
inductive ProviderFlaw where
  | nothing
  | results
  | unnamed
  | interfaceByReference
deriving DecidableEq, Repr

def ProviderFlaw.reason : ProviderFlaw → String
  | nothing => "returns nothing"
  | results => "must return one value, optionally followed by an error"
  | unnamed => "must return a named type or a reference to one"
  | interfaceByReference => "must return an interface by value"

/-- How a method of a binding module fails to be a binding. -/
inductive BindingFlaw where
  | modulesWithParameters
  | signature
  | result
  | notInterface
  | implementationByValue
  | notStruct
deriving DecidableEq, Repr

def BindingFlaw.reason : BindingFlaw → String
  | modulesWithParameters => "must take no parameters"
  | signature => "must take exactly one parameter and return exactly one value"
  | result => "must return an interface by value"
  | notInterface => "must return an interface"
  | implementationByValue => "must take a reference to its implementation"
  | notStruct => "must take a reference to a struct"

inductive Failure where
  | definitionNotFound (identity : Identity)
  | definitionNotInterface (identity : Identity)
  | missingModulesMethod (identity : Identity)
  | noTargets (identity : Identity)
  | targetHasParameters (method : String) (count : Nat)
  | invalidTargetResults (method : String)
  | unsupportedTargetType (method : String) (type : TypeRef)
  | reservedTargetName (method : String)
  | fallibleChain (method : String) (provider : Site)
  | unsupportedModule (module : TypeRef)
  | moduleNotFound (identity : Identity)
  | invalidProvider (site : Site) (reason : String)
  | invalidBinding (site : Site) (reason : String)
  | valueModuleDeclaresModules (identity : Identity)
  | duplicateRegistration (identity : Identity) (first second : Site)
  | unresolved (type : TypeRef) (requiredBy : Requirement) (chain : List Identity)
  | cyclic (chain : List Identity)
  | unsupportedShape (type : TypeRef) (requiredBy : Requirement)
  | referenceMismatch (type provided : TypeRef) (requiredBy : Requirement)
deriving DecidableEq, Repr

namespace Failure

def message : Failure → String
  | definitionNotFound i => "definition `" ++ i.display ++ "` not found"
  | definitionNotInterface i => "definition `" ++ i.display ++ "` is not an interface"
  | missingModulesMethod i =>
    "definition `" ++ i.display ++ "` has no zero-argument `modules` method"
  | noTargets i => "definition `" ++ i.display ++ "` declares no targets"
  | targetHasParameters m n => "target `" ++ m ++ "` takes " ++ toString n ++ " parameter(s)"
  | invalidTargetResults m =>
    "target `" ++ m ++ "` must return one value, optionally followed by an error"
  | unsupportedTargetType m t =>
    "target `" ++ m ++ "` returns `" ++ t.display ++
      "`, which is not a named type or a reference to one"
  | reservedTargetName m =>
    "target `" ++ m ++ "` clashes with a generated method of the component"
  | fallibleChain m p =>
    "target `" ++ m ++ "` cannot fail, but provider `" ++ p.display ++
      "` in its dependency chain can"
  | unsupportedModule t =>
    "module `" ++ t.display ++ "` is neither a reference to a struct nor an interface"
  | moduleNotFound i => "module `" ++ i.display ++ "` is not declared"
  | invalidProvider s reason => "provider `" ++ s.display ++ "` " ++ reason
  | invalidBinding s reason => "binding `" ++ s.display ++ "` " ++ reason
  | valueModuleDeclaresModules i =>
    "value module `" ++ i.display ++ "` declares nested modules"
  | duplicateRegistration i first second =>
    "`" ++ i.display ++ "` is registered by both `" ++ first.display ++ "` and `" ++
      second.display ++ "`"
  | unresolved t r _ =>
    "no provider, binding, or injectable struct for `" ++ t.display ++ "` required by " ++
      r.display
  | cyclic chain => "cyclic dependency: " ++ displayChain chain
  | unsupportedShape t r =>
    "`" ++ t.display ++ "` required by " ++ r.display ++
      " is not a named type or a reference to one"
  | referenceMismatch t provided r =>
    r.display ++ " requests `" ++ t.display ++ "`, but it is provided as `" ++
      provided.display ++ "`"

def code : Failure → ErrorCode
  | definitionNotFound _ | definitionNotInterface _ => .e1001
  | targetHasParameters _ _ => .e1002
  | invalidTargetResults _ => .e1003
  | unsupportedTargetType _ _ => .e1004
  | fallibleChain _ _ => .e1005
  | missingModulesMethod _ => .e1006
  | noTargets _ => .e1007
  | reservedTargetName _ => .e1008
  | unsupportedModule _ => .e2001
  | invalidProvider _ _ => .e2002
  | invalidBinding _ _ => .e2003
  | valueModuleDeclaresModules _ => .e2004
  | duplicateRegistration _ _ _ => .e2005
  | moduleNotFound _ => .e2006
  | unresolved _ _ _ => .e3001
  | cyclic _ => .e3002
  | unsupportedShape _ _ => .e3003
  | referenceMismatch _ _ _ => .e3004

/-- A broad class of failures, which cuts across the steps of generation. -/
inductive Category where
  | missingDefinition
  | invalidTargetShape
  | unsupportedShape
  | duplicateRegistration
  | unresolvedDependency
  | cyclicDependency
deriving DecidableEq, Repr

def category : Failure → Category
  | definitionNotFound _ | definitionNotInterface _ | moduleNotFound _ => .missingDefinition
  | missingModulesMethod _ | noTargets _ | targetHasParameters _ _ | invalidTargetResults _
  | unsupportedTargetType _ _ | reservedTargetName _ | fallibleChain _ _ => .invalidTargetShape
  | unsupportedModule _ | invalidProvider _ _ | invalidBinding _ _
  | valueModuleDeclaresModules _ | unsupportedShape _ _ | referenceMismatch _ _ _ =>
    .unsupportedShape
  | duplicateRegistration _ _ _ => .duplicateRegistration
  | unresolved _ _ _ => .unresolvedDependency
  | cyclic _ => .cyclicDependency

def notes : Failure → List String
  | duplicateRegistration _ first _ => ["first registered by `" ++ first.display ++ "`"]
  | unresolved _ _ chain =>
    if chain.isEmpty then [] else ["while resolving " ++ displayChain chain]
  | _ => []

def suggestions : Failure → List String
  | definitionNotFound _ => ["check `--package` and `--definition`"]
  | missingModulesMethod _ => ["add `fn modules(&self) -> (...)` listing the modules"]
  | targetHasParameters _ _ => ["remove the parameters; targets are built from modules"]
  | reservedTargetName _ =>
    ["rename the target, or declare targets on an interface returned by `target`"]
  | fallibleChain m _ => ["declare `" ++ m ++ "` as returning a `Result`"]
  | duplicateRegistration _ _ _ => ["remove one of the registrations"]
  | unresolved t _ _ =>
    match t.shape with
    | some ⟨i, true⟩ =>
      ["add a provider for `" ++ t.display ++ "`, or mark `" ++ i.display ++ "` as injectable"]
    | _ => ["add a provider or binding for `" ++ t.display ++ "`"]
  | cyclic _ => ["break the cycle with a provider that constructs one side explicitly"]
  | referenceMismatch _ provided _ =>
    ["request the dependency as `" ++ provided.display ++ "`"]
  | definitionNotInterface _ | noTargets _ | invalidTargetResults _ | unsupportedTargetType _ _
  | unsupportedModule _ | moduleNotFound _ | invalidProvider _ _ | invalidBinding _ _
  | valueModuleDeclaresModules _ | unsupportedShape _ _ => []

def diagnostic (f : Failure) : Diagnostic where
  code := f.code
  severity := .error
  message := f.message
  notes := f.notes
  suggestions := f.suggestions

end Failure

end Wiring
