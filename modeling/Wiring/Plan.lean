import Wiring.Definition
import Wiring.Registry

/-!
The plan of a component: which providers it calls, which structs it builds by factories,
where each of their inputs comes from, and from where each target takes its value.
Collections are tables in the order of identities, except where the order has a meaning.
-/
namespace Wiring

/-- How a value is produced: by calling a provider, or by building a struct. -/
inductive SourceKind where
  | provider
  | factory
deriving DecidableEq, Repr

/-- Where a requested value comes from. -/
structure Source where
  kind : SourceKind
  /-- The type that is provided or built. -/
  identity : Identity
  /-- The interface that the value is cast to, if a binding led to it. -/
  cast : Option Identity
  /-- Whether producing the value can fail. -/
  isFallible : Bool
deriving DecidableEq, Repr

/-- A provider that the component calls, with a source for each parameter. -/
structure PlannedProvider where
  provider : Provider
  params : List Source
  isFallible : Bool
deriving DecidableEq, Repr

instance : Keyed PlannedProvider Identity where
  key e := e.provider.provides

structure Assignment where
  field : String
  source : Source
deriving DecidableEq, Repr

/-- How a struct is built: its injected fields are assigned in the order of declaration. -/
structure Factory where
  identity : Identity
  fields : List Assignment
  isFallible : Bool
deriving DecidableEq, Repr

instance : Keyed Factory Identity where
  key := Factory.identity

namespace Factory

/-- The factory of a struct whose injected fields have the given sources. -/
def ofSources (d : Decl) (sources : List Source) : Factory where
  identity := d.identity
  fields := List.zipWith (fun f source => ⟨f.name, source⟩) d.injectedFields sources
  isFallible := sources.any Source.isFallible

/-- The factory of a struct; the sources of its injected fields are asked for in order. -/
def synthesize {m : Type → Type} [Monad m] (d : Decl) (source : Field → m Source) :
    m Factory := do
  let sources ← d.injectedFields.mapM source
  return ofSources d sources

theorem map_source_ofSources {d : Decl} {sources : List Source}
    (h : d.injectedFields.length = sources.length) :
    (ofSources d sources).fields.map Assignment.source = sources := by
  apply List.ext_getElem
  · simp [ofSources, h]
  · simp [ofSources]

end Factory

structure WiredTarget where
  target : Target
  source : Source
deriving DecidableEq, Repr

structure Plan where
  definition : Definition
  /-- The value modules of the providers that are called, in the order of first use. -/
  modules : List ValueModule
  providers : Table PlannedProvider
  /-- The bindings that led to a source. -/
  bindings : Table Binding
  factories : Table Factory
  targets : List WiredTarget
deriving DecidableEq

/-- How much a plan holds. -/
structure PlanSummary where
  targets : Nat
  providers : Nat
  bindings : Nat
  factories : Nat
  modules : Nat
deriving DecidableEq, Repr

def PlanSummary.display (s : PlanSummary) : String :=
  toString s.targets ++ " target(s), " ++ toString s.providers ++ " provider(s), " ++
    toString s.bindings ++ " binding(s), " ++ toString s.factories ++ " factory(ies), " ++
    toString s.modules ++ " module(s)"

namespace Plan

def summary (p : Plan) : PlanSummary where
  targets := p.targets.length
  providers := p.providers.size
  bindings := p.bindings.size
  factories := p.factories.size
  modules := p.modules.length

/-- The modules that are passed to the component. -/
def providedModules (p : Plan) : List ValueModule :=
  p.modules.filter ValueModule.isProvided

/-- A provider that can fail by itself and that `s` depends on, found by following the
fallible sources in order through at most `room` entries of the plan. -/
def originWithin (p : Plan) : Nat → Source → Option Site
  | 0, _ => none
  | room + 1, s =>
    if !s.isFallible then none
    else
      match s.kind with
      | .provider =>
        match p.providers.find? s.identity with
        | none => none
        | some e =>
          if e.provider.isFallible then some e.provider.site
          else e.params.findSome? (originWithin p room)
      | .factory =>
        match p.factories.find? s.identity with
        | none => none
        | some f => (f.fields.map Assignment.source).findSome? (originWithin p room)

/-- A provider that makes `s` fallible. A path through a plan without cycles meets each
entry at most once. -/
def fallibleOrigin (p : Plan) (s : Source) : Option Site :=
  p.originWithin (p.providers.size + p.factories.size) s

/-- The first target that cannot fail although its source can, and the culprit. -/
def fallibleChain? (p : Plan) : Option (String × Site) :=
  p.targets.findSome? fun t =>
    if t.target.isFallible || !t.source.isFallible then none
    else (p.fallibleOrigin t.source).map fun site => (t.target.method, site)

/-- Whether the plan has the entry that a source names. -/
def holds (p : Plan) (s : Source) : Bool :=
  match s.kind with
  | .provider => p.providers.contains s.identity
  | .factory => p.factories.contains s.identity

/-- All sources of a plan: those of the targets, then those of the parameters of the
providers, then those of the fields of the factories. -/
def sources (p : Plan) : List Source :=
  p.targets.map WiredTarget.source ++ p.providers.toList.flatMap PlannedProvider.params ++
    p.factories.toList.flatMap fun f => f.fields.map Assignment.source

end Plan

end Wiring
