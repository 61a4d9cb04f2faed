import Wiring.Artifact
import Wiring.Resolution

/-!
Generation of a component: its definition is loaded, its modules are discovered, its
dependencies are resolved, and the plan is written as artifacts. A run stops at the
first phase that fails, and a run that fails has no artifacts.
-/
namespace Wiring

structure Settings where
  /-- The package that declares the definition. -/
  package : String := "crate"
  definition : String := "Component"
  /-- The name of the module that the artifacts make up. -/
  outputModule : String := "digen"
  componentType : String := "GeneratedComponent"
deriving DecidableEq, Repr, Inhabited

inductive Phase where
  | definition
  | discovery
  | resolution
  | emission
deriving DecidableEq, Repr

inductive Outcome where
  | generated (artifacts : Table Artifact) (summary : PlanSummary)
  | failed (phase : Phase) (diagnostic : Diagnostic) (summary : Option PlanSummary)

namespace Outcome

def success : Outcome → Bool
  | generated _ _ => true
  | failed _ _ _ => false

def artifacts : Outcome → Table Artifact
  | generated artifacts _ => artifacts
  | failed _ _ _ => .empty

def summary? : Outcome → Option PlanSummary
  | generated _ summary => some summary
  | failed _ _ summary => summary

def diagnostics : Outcome → List Diagnostic
  | generated _ _ => []
  | failed _ d _ => [d]

def phase? : Outcome → Option Phase
  | generated _ _ => none
  | failed phase _ _ => some phase

end Outcome

/-- A plan together with the phase in which making it failed. -/
def planInPhases (u : Universe) (package name : String) : Except (Phase × Failure) Plan :=
  match Definition.load u package name with
  | .error e => .error (.definition, e)
  | .ok d =>
    match discover u d.modules with
    | .error e => .error (.discovery, e)
    | .ok r =>
      match resolve u d r with
      | .error e => .error (.resolution, e)
      | .ok p => .ok p

def outputModuleDiagnostic (name : String) : Diagnostic :=
  .ofError .e9002 ("output module `" ++ name ++ "` is not a Rust identifier")

/-- Write a plan as artifacts. A name that no module can have is refused without regard
to the plan. -/
def emitPlan (u : Universe) (s : Settings) (p : Plan) : Outcome :=
  if !Naming.isIdentifier s.outputModule then
    .failed .emission (outputModuleDiagnostic s.outputModule) none
  else
    match emit u s.componentType p with
    | .error e => .failed .emission e.diagnostic (some p.summary)
    | .ok artifacts => .generated artifacts p.summary

def generate (u : Universe) (s : Settings) : Outcome :=
  match planInPhases u s.package s.definition with
  | .error (phase, e) => .failed phase e.diagnostic none
  | .ok p => emitPlan u s p

end Wiring
