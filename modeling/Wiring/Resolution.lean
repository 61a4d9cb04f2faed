import Wiring.Discovery
import Wiring.Plan

/-!
Resolution of dependencies. Every demand for a type is answered by a node of the
dependency graph, a provider or a struct that can be built field by field, either
directly or through a binding. The nodes are wired depth first: each is finished after
everything it demands, finished nodes are not visited again, and a demand for a node
that is being built closes a cycle.
-/
namespace Wiring

/-- What a plan is made from: the declared types and what the modules offer. -/
structure Catalog where
  types : Universe
  registry : Registry

/-- A type that something asks for. -/
structure Demand where
  type : TypeRef
  requirement : Requirement
deriving DecidableEq, Repr

inductive Node where
  | provider (provider : Provider)
  | factory (decl : Decl)
deriving DecidableEq, Repr

namespace Node

def identity : Node → Identity
  | provider p => p.provides
  | factory d => d.identity

def kind : Node → SourceKind
  | provider _ => .provider
  | factory _ => .factory

/-- What has to be built before the node: the parameters of a provider, or the injected
fields of a struct. -/
def demands : Node → List Demand
  | provider p => p.params.map fun q => ⟨q.type, .parameter p.site q.name⟩
  | factory d => d.injectedFields.map fun f => ⟨f.type, .field d.identity f.name⟩

/-- Whether the node can fail by itself. -/
def canFail : Node → Bool
  | provider p => p.isFallible
  | factory _ => false

/-- Whether the node can fail when its demands are met by `sources`. -/
def isFallible (n : Node) (sources : List Source) : Bool :=
  n.canFail || sources.any Source.isFallible

end Node

def Target.demand (t : Target) : Demand :=
  ⟨t.type, .target t.method⟩

/-- The demand that a binding passes on: a reference to its implementation. -/
def Binding.demand (b : Binding) : Demand :=
  ⟨.pointer (.named b.implementation), .binding b.interface⟩

/-- What a shape is answered with, before a binding is followed. -/
inductive Answer where
  | node (n : Node)
  | binding (b : Binding)
  | mismatch (provided : TypeRef)
  | nothing
deriving DecidableEq, Repr

/-- The node that meets a demand, and the binding that led to it. -/
structure Supply where
  node : Node
  binding : Option Binding
deriving DecidableEq, Repr

def Supply.source (s : Supply) (isFallible : Bool) : Source where
  kind := s.node.kind
  identity := s.node.identity
  cast := s.binding.map Binding.interface
  isFallible := isFallible

/-- Why no node meets a demand. -/
inductive Gap where
  | shape (d : Demand)
  | mismatch (d : Demand) (provided : TypeRef)
  | nothing (d : Demand)
deriving DecidableEq, Repr

/-- The failure that a gap is, when the nodes of `chain` are being built, outermost first. -/
def Gap.failure (chain : List Identity) : Gap → Failure
  | shape d => .unsupportedShape d.type d.requirement
  | mismatch d provided => .referenceMismatch d.type provided d.requirement
  | nothing d => .unresolved d.type d.requirement chain

namespace Catalog

/-- A provider comes before a binding, and a binding before a factory. -/
def answer (c : Catalog) (s : Shape) : Answer :=
  match c.registry.provider? s.identity with
  | some p => if p.isReference = s.isReference then .node (.provider p) else .mismatch p.result
  | none =>
    match c.registry.binding? s.identity with
    | some b => if s.isReference then .mismatch (.named s.identity) else .binding b
    | none =>
      match c.types.lookup s.identity with
      | some d =>
        if d.isInjectable then
          if s.isReference then .node (.factory d)
          else .mismatch (.pointer (.named s.identity))
        else .nothing
      | none => .nothing

/-- Follow a binding. A second binding cannot follow, since references are not bound. -/
def supplyBound (c : Catalog) (b : Binding) : Except Gap Supply :=
  match c.answer ⟨b.implementation, true⟩ with
  | .node n => .ok ⟨n, some b⟩
  | .mismatch provided => .error (.mismatch b.demand provided)
  | .binding _ | .nothing => .error (.nothing b.demand)

/-- The node that meets a demand. -/
def supply (c : Catalog) (d : Demand) : Except Gap Supply :=
  match d.type.shape with
  | none => .error (.shape d)
  | some s =>
    match c.answer s with
    | .node n => .ok ⟨n, none⟩
    | .binding b => c.supplyBound b
    | .mismatch provided => .error (.mismatch d provided)
    | .nothing => .error (.nothing d)

/-- How many nodes there can be. -/
def nodeCount (c : Catalog) : Nat :=
  c.registry.providers.size + (c.types.decls.filter Decl.isInjectable).length

theorem answer_reference_ne_binding (c : Catalog) (i : Identity) (b : Binding) :
    c.answer ⟨i, true⟩ ≠ .binding b := by
  unfold answer
  dsimp only
  split
  · split <;> simp
  · split
    · simp
    · split
      · split <;> simp
      · simp

end Catalog

/-- What has been wired so far. -/
structure Wired where
  modules : List ValueModule := []
  providers : Table PlannedProvider := .empty
  bindings : Table Binding := .empty
  factories : Table Factory := .empty
deriving DecidableEq

namespace Wired

/-- Whether a finished node can fail. -/
def isFallible? (w : Wired) : Node → Option Bool
  | .provider p => (w.providers.find? p.provides).map PlannedProvider.isFallible
  | .factory d => (w.factories.find? d.identity).map Factory.isFallible

def addBinding (w : Wired) : Option Binding → Wired
  | none => w
  | some b => { w with bindings := w.bindings.insert b }

/-- Add the value module called `i` unless it has been used before. -/
def useModule (w : Wired) (r : Registry) (i : Identity) : Wired :=
  match r.valueModule? i with
  | none => w
  | some m => if m ∈ w.modules then w else { w with modules := w.modules ++ [m] }

/-- Finish a node whose demands are met by `sources`. -/
def finish (w : Wired) (r : Registry) (n : Node) (sources : List Source) : Wired :=
  match n with
  | .provider p =>
    let w := w.useModule r p.module
    let entry := { provider := p, params := sources, isFallible := n.isFallible sources }
    { w with providers := w.providers.insert entry }
  | .factory d => { w with factories := w.factories.insert (.ofSources d sources) }

def plan (w : Wired) (d : Definition) (sources : List Source) : Plan where
  definition := d
  modules := w.modules
  providers := w.providers
  bindings := w.bindings
  factories := w.factories
  targets := List.zipWith WiredTarget.mk d.targets sources

end Wired

namespace Resolution

/-- The nodes from `i` to the innermost one, and `i` again. The path is innermost first. -/
def cycle (path : List Identity) (i : Identity) : List Identity :=
  i :: (path.takeWhile (· ≠ i)).reverse ++ [i]

/-- Meet demands in order, each starting from what the one before has left. -/
def wireAll {σ ε : Type} (wire : Demand → σ → Except ε (Source × σ)) :
    List Demand → σ → Except ε (List Source × σ)
  | [], w => .ok ([], w)
  | d :: ds, w =>
    match wire d w with
    | .error e => .error e
    | .ok (s, w) =>
      match wireAll wire ds w with
      | .error e => .error e
      | .ok (ss, w) => .ok (s :: ss, w)

/-- Meet one demand while the nodes of `path` are being built, innermost first. A node is
built inside at most `room` others; when there is no room left all nodes are on the path,
so that a node that is not finished closes a cycle. -/
def wire (c : Catalog) (room : Nat) (path : List Identity) (d : Demand) (w : Wired) :
    Except Failure (Source × Wired) :=
  match c.supply d with
  | .error gap => .error (gap.failure path.reverse)
  | .ok s =>
    let w := w.addBinding s.binding
    match w.isFallible? s.node with
    | some isFallible => .ok (s.source isFallible, w)
    | none =>
      if s.node.identity ∈ path then .error (.cyclic (cycle path s.node.identity))
      else
        match room with
        | 0 => .error (.cyclic (cycle path s.node.identity))
        | room + 1 =>
          match wireAll (wire c room (s.node.identity :: path)) s.node.demands w with
          | .error e => .error e
          | .ok (sources, w) =>
            .ok (s.source (s.node.isFallible sources), w.finish c.registry s.node sources)

end Resolution

open Resolution in
/-- The plan in which every target of a definition is wired, whatever can fail. -/
def wirePlan (u : Universe) (d : Definition) (r : Registry) : Except Failure Plan :=
  let c : Catalog := ⟨u, r⟩
  match wireAll (wire c c.nodeCount []) (d.targets.map Target.demand) {} with
  | .error e => .error e
  | .ok (sources, w) => .ok (w.plan d sources)

/-- Wire every target of a definition. A target that cannot fail may not depend on a
provider that can. -/
def resolve (u : Universe) (d : Definition) (r : Registry) : Except Failure Plan :=
  match wirePlan u d r with
  | .error e => .error e
  | .ok p =>
    match p.fallibleChain? with
    | some (method, site) => .error (.fallibleChain method site)
    | none => .ok p

/-- The plan of the component that a definition in a package stands for. -/
def planComponent (u : Universe) (package name : String) : Except Failure Plan :=
  match Definition.load u package name with
  | .error e => .error e
  | .ok d =>
    match discover u d.modules with
    | .error e => .error e
    | .ok r => resolve u d r

end Wiring
