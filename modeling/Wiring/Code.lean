import Wiring.Naming
import Wiring.Plan
import Wiring.Sheet

/-!
Generated code. A routine takes its steps one after another and ends with a value. It is
fallible if its result may be an error; a call that propagates hands the error of its
callee on. Code becomes lines, in which types are still named by their identities.
-/
namespace Wiring

open Naming

namespace TypeRef

mutual

/-- How generated code spells a type: references and interfaces are boxed. -/
def pieces (u : Universe) : TypeRef → List Piece
  | named i =>
    if u.declaresInterface i then [.text "Box<dyn ", .typeName i, .text ">"] else [.typeName i]
  | pointer t => .text "Box<" :: pieces u t ++ [.text ">"]
  | slice t => .text "Vec<" :: pieces u t ++ [.text ">"]
  | map k v =>
    .text "std::collections::HashMap<" :: pieces u k ++ .text ", " :: pieces u v ++ [.text ">"]
  | tuple ts => .text "(" :: itemPieces u ts ++ [.text ")"]
  | builtin n => [.text n]
  | error => [.errorType]

def itemPieces (u : Universe) : List TypeRef → List Piece
  | [] => []
  | [t] => pieces u t
  | t :: ts => pieces u t ++ .text ", " :: itemPieces u ts

end

end TypeRef

/-- A boxed interface, whatever is declared under its identity. -/
def boxedInterface (i : Identity) : List Piece :=
  [.text "Box<dyn ", .typeName i, .text ">"]

/-- The result type of a function, which may return an error instead. -/
def resultPieces (type : List Piece) (isFallible : Bool) : List Piece :=
  if isFallible then .text "Result<" :: type ++ [.text ", ", .errorType, .text ">"] else type

/-- What generated code calls. -/
inductive Callee where
  /-- The component's wrapper of a provider. -/
  | wrapper (provides : Identity)
  /-- The function that builds a struct. -/
  | factory (struct : Identity)
  /-- The method of a value module. -/
  | method (module : Identity) (name : String) (args : List String)
deriving DecidableEq, Repr

inductive Expr where
  /-- A call, where `component` is the expression for the component. -/
  | call (callee : Callee) (component : String) (propagates : Bool) (cast : Option Identity)
  | defaultOf (struct : Identity)
  | var (name : String)
deriving DecidableEq, Repr

namespace Expr

def calleeText (component : String) : Callee → String
  | .wrapper i => component ++ "." ++ providerMethod i ++ "()"
  | .factory i => "super::" ++ factoryArtifact i ++ "::" ++ factoryFunction i ++ "(" ++ component ++ ")"
  | .method m name args =>
    component ++ "." ++ moduleField m ++ "." ++ identifier name ++ "(" ++ ", ".intercalate args ++ ")"

def castPieces : Option Identity → List Piece
  | none => []
  | some i => .text " as " :: boxedInterface i

def pieces : Expr → List Piece
  | call callee component propagates cast =>
    .text (calleeText component callee ++ if propagates then "?" else "") :: castPieces cast
  | defaultOf i => [.text "Box::new(", .typeName i, .text "::default())"]
  | var name => [.text name]

/-- The value from a source. -/
def ofSource (component : String) (s : Source) : Expr :=
  let callee := match s.kind with
    | .provider => .wrapper s.identity
    | .factory => .factory s.identity
  call callee component s.isFallible s.cast

end Expr

inductive Step where
  | bind (name : String) (value : Expr)
  | bindMutable (name : String) (value : Expr)
  | assign (field : String) (value : Expr)
deriving DecidableEq, Repr

def Step.pieces : Step → List Piece
  | bind name value => .text ("let " ++ name ++ " = ") :: value.pieces ++ [.text ";"]
  | bindMutable name value => .text ("let mut " ++ name ++ " = ") :: value.pieces ++ [.text ";"]
  | assign field value =>
    .text ("target." ++ identifier field ++ " = ") :: value.pieces ++ [.text ";"]

structure Routine where
  visibility : String
  name : String
  params : String
  result : List Piece
  isFallible : Bool
  steps : List Step
  value : Expr
deriving DecidableEq, Repr

namespace Routine

def header (r : Routine) : List Piece :=
  .text (r.visibility ++ "fn " ++ r.name ++ "(" ++ r.params ++ ") -> ") ::
    resultPieces r.result r.isFallible ++ [.text " \x7b"]

/-- The last line; a fallible routine returns its value as a success. -/
def last (r : Routine) : List Piece :=
  if r.isFallible then .text "Ok(" :: r.value.pieces ++ [.text ")"] else r.value.pieces

def lines (r : Routine) (depth : Nat) : List Line :=
  ⟨depth, r.header⟩ :: r.steps.map (fun s => ⟨depth + 1, s.pieces⟩) ++
    [⟨depth + 1, r.last⟩, ⟨depth, [.text "\x7d"]⟩]

/-- The accessor of a target. -/
def accessor (u : Universe) (visibility : String) (t : WiredTarget) : Routine where
  visibility := visibility
  name := identifier t.target.method
  params := "&self"
  result := t.target.type.pieces u
  isFallible := t.target.isFallible
  steps := []
  value := .ofSource "self" t.source

def paramName (n : Nat) : String :=
  "param" ++ toString n

/-- The method of the component that calls a provider: the parameters are made first. -/
def wrapper (u : Universe) (e : PlannedProvider) : Routine where
  visibility := "pub(super) "
  name := providerMethod e.provider.provides
  params := "&self"
  result := e.provider.result.pieces u
  isFallible := e.isFallible
  steps := e.params.mapIdx fun n s => .bind (paramName n) (.ofSource "self" s)
  value := .call
    (.method e.provider.module e.provider.method ((List.range e.params.length).map paramName))
    "self" e.provider.isFallible none

/-- The function that builds a struct. The struct starts from its default, and a step that
fails returns before later fields are assigned. -/
def factory (component : String) (f : Factory) : Routine :=
  let result := [.text "Box<", .typeName f.identity, .text ">"]
  if f.fields.isEmpty then
    { visibility := "pub(super) ", name := factoryFunction f.identity,
      params := "_component: &" ++ component, result, isFallible := f.isFallible, steps := [],
      value := .defaultOf f.identity }
  else
    { visibility := "pub(super) ", name := factoryFunction f.identity,
      params := "component: &" ++ component, result, isFallible := f.isFallible,
      steps := .bindMutable "target" (.defaultOf f.identity) ::
        f.fields.map fun a => .assign a.field (.ofSource "component" a.source),
      value := .var "target" }

end Routine

end Wiring
