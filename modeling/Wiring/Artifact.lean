import Wiring.Code

/-!
The artifacts of a component: one with the component itself, one for each factory and
each provider that the plan holds, and one that declares them all as modules.
-/
namespace Wiring

open Naming

/-- A generated file, without the ending of its name. -/
structure Artifact where
  name : String
  text : String
deriving DecidableEq, Repr

instance : Keyed Artifact String where
  key := Artifact.name

/-- Why a plan cannot be written as code. -/
inductive EmissionError where
  | danglingSource (kind : SourceKind) (identity : Identity)
  | invalidComponentType (name : String)
deriving DecidableEq, Repr

def SourceKind.text : SourceKind → String
  | provider => "provider"
  | factory => "factory"

namespace EmissionError

def message : EmissionError → String
  | danglingSource kind i =>
    "plan uses " ++ kind.text ++ " `" ++ i.display ++ "` but does not contain it"
  | invalidComponentType name => "component type `" ++ name ++ "` is not a Rust identifier"

def code : EmissionError → ErrorCode
  | danglingSource _ _ => .e9001
  | invalidComponentType _ => .e9002

def diagnostic (e : EmissionError) : Diagnostic :=
  .ofError e.code e.message

end EmissionError

namespace Artifact

def componentName : String := "component"

def rootName : String := "mod"

def plain (s : String) (depth : Nat) : Line :=
  ⟨depth, [.text s]⟩

/-- The fields of the component are its value modules. -/
def fieldLine (m : ValueModule) : Line :=
  ⟨1, [.text ("pub(super) " ++ moduleField m.identity ++ ": "), .typeName m.identity, .text ","]⟩

def structLines (component : String) (p : Plan) : List Line :=
  plain ("pub struct " ++ component ++ " \x7b") 0 :: p.modules.map fieldLine ++ [plain "\x7d" 0]

/-- The parameters of the constructor, parted by commas. -/
def constructorParams : List ValueModule → List Piece
  | [] => []
  | [m] => [.text (moduleField m.identity ++ ": "), .typeName m.identity]
  | m :: ms =>
    .text (moduleField m.identity ++ ": ") :: .typeName m.identity :: .text ", " ::
      constructorParams ms

/-- A module that is passed to the component is stored, any other is built here. -/
def initialLine (m : ValueModule) : Line :=
  if m.isProvided then plain (moduleField m.identity ++ ",") 3
  else ⟨3, [.text (moduleField m.identity ++ ": "), .typeName m.identity, .text "::default(),"]⟩

def constructorLines (component : String) (p : Plan) : List Line :=
  ⟨1, .text "pub fn new(" :: constructorParams p.providedModules ++ [.text ") -> Self \x7b"]⟩ ::
    plain (component ++ " \x7b") 2 :: p.modules.map initialLine ++ [plain "\x7d" 2, plain "\x7d" 1]

def accessors (u : Universe) (visibility : String) (p : Plan) : List Routine :=
  p.targets.map (Routine.accessor u visibility)

/-- The lines of routines, each but the first after a blank line. -/
def routineLines : List Routine → List Line
  | [] => []
  | [r] => r.lines 1
  | r :: rs => r.lines 1 ++ .blank :: routineLines rs

/-- The accessors stand on the component itself or, if there is one, on its interface. -/
def componentLines (u : Universe) (component : String) (p : Plan) : List Line :=
  structLines component p ++ .blank ::
    plain ("impl " ++ component ++ " \x7b") 0 :: constructorLines component p ++
    match p.definition.componentInterface with
    | none =>
      (accessors u "pub " p).flatMap (fun r => .blank :: r.lines 1) ++ [plain "\x7d" 0]
    | some i =>
      [plain "\x7d" 0, .blank,
        ⟨0, [.text "impl ", .typeName i, .text (" for " ++ component ++ " \x7b")]⟩] ++
        routineLines (accessors u "" p) ++ [plain "\x7d" 0]

def factoryLines (component : String) (f : Factory) : List Line :=
  (Routine.factory component f).lines 0

def wrapperLines (u : Universe) (component : String) (e : PlannedProvider) : List Line :=
  plain ("impl " ++ component ++ " \x7b") 0 :: (Routine.wrapper u e).lines 1 ++ [plain "\x7d" 0]

/-- The import of the component in the other artifacts. -/
def componentUse (component : String) : String :=
  "use super::" ++ component ++ ";"

def ofComponent (u : Universe) (component : String) (p : Plan) : Artifact where
  name := componentName
  text := (Sheet.ofLines (componentLines u component p)).finish []

def ofFactory (component : String) (f : Factory) : Artifact where
  name := factoryArtifact f.identity
  text := (Sheet.ofLines (factoryLines component f)).finish [componentUse component]

def ofProvider (u : Universe) (component : String) (e : PlannedProvider) : Artifact where
  name := providerArtifact e.provider.provides
  text := (Sheet.ofLines (wrapperLines u component e)).finish [componentUse component]

def modLine (name : String) : String :=
  "mod " ++ name ++ ";\n"

/-- The text that declares the artifacts called `names` and shows the component. -/
def rootText (names : List String) (component : String) (definition : Identity) : String :=
  generatedHeader ++ "// Component: " ++ definition.display ++ "\n\n" ++
    "#![allow(non_snake_case, dead_code)]\n\n" ++
    String.join (names.map modLine) ++ "\n" ++
    "pub use " ++ componentName ++ "::" ++ component ++ ";\n\n" ++
    "/// Error returned by fallible providers and accessors.\n" ++
    "pub type " ++ errorTypeName ++ " = Box<dyn std::error::Error + Send + Sync>;\n"

/-- The artifacts of the items of a plan, without the root. -/
def ofItems (u : Universe) (component : String) (p : Plan) : Table Artifact :=
  .ofList (ofComponent u component p :: p.factories.toList.map (ofFactory component) ++
    p.providers.toList.map (ofProvider u component))

def ofPlan (u : Universe) (component : String) (p : Plan) : Table Artifact :=
  let items := ofItems u component p
  items.insert { name := rootName, text := rootText items.keys component p.definition.identity }

end Artifact

/-- The artifacts of a plan, in the order of their names. The component type has to be an
identifier, and the plan has to hold what its sources name. -/
def emit (u : Universe) (component : String) (p : Plan) :
    Except EmissionError (Table Artifact) :=
  if !isIdentifier component then .error (.invalidComponentType component)
  else
    match p.sources.find? fun s => !p.holds s with
    | some s => .error (.danglingSource s.kind s.identity)
    | none => .ok (Artifact.ofPlan u component p)

end Wiring
