import Mathlib.Data.List.Basic
import Wiring.Proofs.DependencyGraph

/-!
The resolver as a machine. It remembers the nodes that it has visited, the path of the nodes that it
is building and the modules in use beside the plan so far, and the calls that wait for an answer are
a stack of callers. A step calls the resolver, answers a call, or changes what is remembered between
two calls. Nothing bounds the depth of the stack, and nothing in the steps rules out that a binding
is followed by a binding.
-/
namespace Wiring

/-- How far a node has come that has been visited. -/
inductive Visit where
  | inProgress
  | resolved (isFallible : Bool)
deriving DecidableEq, Repr

structure Mark where
  identity : Identity
  visit : Visit
deriving DecidableEq, Repr

instance : Keyed Mark Identity where
  key := Mark.identity

/-- What the resolver remembers. -/
structure Resolver where
  memo : Table Mark := .empty
  /-- The nodes that are being built, outermost first. -/
  path : List Identity := []
  /-- The modules of the providers in the plan. -/
  used : List Identity := []
  plan : Wired := {}

/-- Why nothing is done about a demand. -/
def Catalog.gap? (c : Catalog) (q : Demand) : Option Gap :=
  match q.type.shape with
  | none => some (.shape q)
  | some s =>
    match c.answer s with
    | .mismatch provided => some (.mismatch q provided)
    | .nothing => some (.nothing q)
    | .node _ | .binding _ => none

/-- The flag of the entry of a kind for `i`, if there is one. -/
def Wired.entry? (w : Wired) (kind : SourceKind) (i : Identity) : Option Bool :=
  match kind with
  | .provider => (w.providers.find? i).map PlannedProvider.isFallible
  | .factory => (w.factories.find? i).map Factory.isFallible

namespace Resolver

def visit? (r : Resolver) (i : Identity) : Option Visit :=
  (r.memo.find? i).map Mark.visit

/-- Start to build a node. -/
def enter (r : Resolver) (i : Identity) : Resolver :=
  { r with memo := r.memo.insert ⟨i, .inProgress⟩, path := r.path ++ [i] }

/-- The innermost node has been built. -/
def leave (r : Resolver) (i : Identity) (isFallible : Bool) : Resolver :=
  { r with memo := r.memo.insert ⟨i, .resolved isFallible⟩, path := r.path.dropLast }

/-- The chain that is reported when `i` is entered while it is being built. -/
def closing (r : Resolver) (i : Identity) : List Identity :=
  r.path.drop ((r.path.idxOf? i).getD 0) ++ [i]

/-- Note a binding unless one has been noted for its interface. -/
def note (r : Resolver) (b : Binding) : Resolver :=
  if r.plan.bindings.contains b.interface then r
  else { r with plan := { r.plan with bindings := r.plan.bindings.insert b } }

/-- Use a module that is not in use, if the registry holds it. -/
def useModule (r : Resolver) (registry : Registry) (i : Identity) : Resolver :=
  if i ∈ r.used then r
  else
    { r with
      used := i :: r.used
      plan := { r.plan with modules := r.plan.modules ++ (registry.valueModule? i).toList } }

/-- Put a node into the plan. -/
def record (r : Resolver) (registry : Registry) (n : Node) (sources : List Source) : Resolver :=
  match n with
  | .provider p =>
    let r := r.useModule registry p.module
    let entry := { provider := p, params := sources, isFallible := n.isFallible sources }
    { r with plan := { r.plan with providers := r.plan.providers.insert entry } }
  | .factory d =>
    { r with plan := { r.plan with factories := r.plan.factories.insert (.ofSources d sources) } }

/-- Finish the innermost node. Nothing is asked for between its entry in the plan and its end. -/
def finish (r : Resolver) (registry : Registry) (n : Node) (sources : List Source) : Resolver :=
  (r.record registry n sources).leave n.identity (n.isFallible sources)

/-- What waits for the source of a demand: the targets or a node, with the sources before it and
the demands after it, or a binding, to whose interface the source is cast. -/
inductive Caller where
  | targets (sources : List Source) (rest : List Demand)
  | node (n : Node) (sources : List Source) (rest : List Demand) (outer : Caller)
  | binding (b : Binding) (outer : Caller)

/-- What the resolver is about to do. -/
inductive Control where
  /-- To meet a demand. -/
  | request (q : Demand) (caller : Caller)
  /-- To hand a source to the caller. -/
  | answer (x : Source) (caller : Caller)
  | targets (sources : List Source) (rest : List Demand)
  | node (n : Node) (sources : List Source) (rest : List Demand) (outer : Caller)
  | failed (e : Failure) (caller : Caller)

structure Config where
  resolver : Resolver
  control : Control

/-- A step that starts to build a node or follows a binding, or any other. -/
inductive Event where
  | build (i : Identity)
  | hop (b : Binding)
  | other
deriving DecidableEq, Repr

inductive Step (c : Catalog) : Config → Event → Config → Prop
  | target {r : Resolver} {xs : List Source} {q : Demand} {qs : List Demand} :
      Step c ⟨r, .targets xs (q :: qs)⟩ .other ⟨r, .request q (.targets xs qs)⟩
  | input {r : Resolver} {n : Node} {xs : List Source} {q : Demand} {qs : List Demand}
      {k : Caller} : Step c ⟨r, .node n xs (q :: qs) k⟩ .other ⟨r, .request q (.node n xs qs k)⟩
  | gap {r : Resolver} {q : Demand} {k : Caller} {g : Gap} (hg : c.gap? q = some g) :
      Step c ⟨r, .request q k⟩ .other ⟨r, .failed (g.failure r.path) k⟩
  | reuse {r : Resolver} {q : Demand} {k : Caller} {s : Shape} {n : Node} {f : Bool}
      (hs : q.type.shape = some s) (hn : c.answer s = .node n)
      (hv : r.visit? n.identity = some (.resolved f)) :
      Step c ⟨r, .request q k⟩ .other ⟨r, .answer (Supply.source ⟨n, none⟩ f) k⟩
  | cycle {r : Resolver} {q : Demand} {k : Caller} {s : Shape} {n : Node}
      (hs : q.type.shape = some s) (hn : c.answer s = .node n)
      (hv : r.visit? n.identity = some .inProgress) :
      Step c ⟨r, .request q k⟩ .other ⟨r, .failed (.cyclic (r.closing n.identity)) k⟩
  | build {r : Resolver} {q : Demand} {k : Caller} {s : Shape} {n : Node}
      (hs : q.type.shape = some s) (hn : c.answer s = .node n)
      (hv : r.visit? n.identity = none) :
      Step c ⟨r, .request q k⟩ (.build n.identity) ⟨r.enter n.identity, .node n [] n.demands k⟩
  | hop {r : Resolver} {q : Demand} {k : Caller} {s : Shape} {b : Binding}
      (hs : q.type.shape = some s) (hb : c.answer s = .binding b) :
      Step c ⟨r, .request q k⟩ (.hop b) ⟨r.note b, .request b.demand (.binding b k)⟩
  | finish {r : Resolver} {n : Node} {xs : List Source} {k : Caller} :
      Step c ⟨r, .node n xs [] k⟩ .other
        ⟨r.finish c.registry n xs, .answer (Supply.source ⟨n, none⟩ (n.isFallible xs)) k⟩
  | toTargets {r : Resolver} {x : Source} {xs : List Source} {qs : List Demand} :
      Step c ⟨r, .answer x (.targets xs qs)⟩ .other ⟨r, .targets (xs ++ [x]) qs⟩
  | toNode {r : Resolver} {x : Source} {n : Node} {xs : List Source} {qs : List Demand}
      {k : Caller} :
      Step c ⟨r, .answer x (.node n xs qs k)⟩ .other ⟨r, .node n (xs ++ [x]) qs k⟩
  | toBinding {r : Resolver} {x : Source} {b : Binding} {k : Caller} :
      Step c ⟨r, .answer x (.binding b k)⟩ .other
        ⟨r, .answer { x with cast := some b.interface } k⟩

/-- Steps one after another, and what they were. -/
inductive Run (c : Catalog) : Config → List Event → Config → Prop
  | nil (s : Config) : Run c s [] s
  | cons {s s' s'' : Config} {e : Event} {es : List Event} :
      Step c s e s' → Run c s' es s'' → Run c s (e :: es) s''

/-- The targets are about to be wired. -/
def Config.start (d : Definition) : Config :=
  ⟨{}, .targets [] (d.targets.map Target.demand)⟩

/-- The nodes that are being built, innermost first. -/
def Caller.building : Caller → List Node
  | targets _ _ => []
  | node n _ _ outer => n :: outer.building
  | binding _ outer => outer.building

def Control.building : Control → List Node
  | request _ caller => caller.building
  | answer _ caller => caller.building
  | targets _ _ => []
  | node n _ _ outer => n :: outer.building
  | failed _ caller => caller.building

/-- The sources of the targets and what has been wired for them, or the failure. -/
def Config.result? : Config → Option (Except Failure (List Source × Wired))
  | ⟨r, .targets sources []⟩ => some (.ok (sources, r.plan))
  | ⟨_, .failed e _⟩ => some (.error e)
  | _ => none

section Memo

variable {r : Resolver} {i j : Identity}

@[simp] theorem visit?_enter : (r.enter i).visit? j =
    if i = j then some .inProgress else r.visit? j := by
  by_cases h : i = j <;> simp [visit?, enter, key, h]

@[simp] theorem plan_enter : (r.enter i).plan = r.plan := rfl

@[simp] theorem path_enter : (r.enter i).path = r.path ++ [i] := rfl

variable {b : Binding}

@[simp] theorem visit?_note : (r.note b).visit? j = r.visit? j := by
  unfold note
  split <;> rfl

@[simp] theorem path_note : (r.note b).path = r.path := by
  unfold note
  split <;> rfl

@[simp] theorem used_note : (r.note b).used = r.used := by
  unfold note
  split <;> rfl

@[simp] theorem modules_note : (r.note b).plan.modules = r.plan.modules := by
  unfold note
  split <;> rfl

@[simp] theorem providers_note : (r.note b).plan.providers = r.plan.providers := by
  unfold note
  split <;> rfl

@[simp] theorem factories_note : (r.note b).plan.factories = r.plan.factories := by
  unfold note
  split <;> rfl

@[simp] theorem entry?_note {kind : SourceKind} :
    (r.note b).plan.entry? kind j = r.plan.entry? kind j := by
  cases kind <;> simp [Wired.entry?]

/-- A binding that has been noted stays. -/
theorem find?_bindings_note : (r.note b).plan.bindings.find? j =
    (r.plan.bindings.find? j).or (if b.interface = j then some b else none) := by
  unfold note
  split
  · next h =>
    obtain ⟨b', hb'⟩ := Option.isSome_iff_exists.mp h
    by_cases hj : b.interface = j
    · subst hj
      simp [hb']
    · simp [hj]
  · next h =>
    have hfree : r.plan.bindings.find? b.interface = none := by
      simpa [Table.contains] using h
    by_cases hj : b.interface = j
    · subst hj
      simp [key, hfree]
    · simp [key, hj]

end Memo

section Finish

variable {r : Resolver} {registry : Registry} {n : Node} {sources : List Source} {j : Identity}

@[simp] theorem memo_useModule {i : Identity} : (r.useModule registry i).memo = r.memo := by
  unfold useModule
  split <;> rfl

@[simp] theorem path_useModule {i : Identity} : (r.useModule registry i).path = r.path := by
  unfold useModule
  split <;> rfl

@[simp] theorem providers_useModule {i : Identity} :
    (r.useModule registry i).plan.providers = r.plan.providers := by
  unfold useModule
  split <;> rfl

@[simp] theorem factories_useModule {i : Identity} :
    (r.useModule registry i).plan.factories = r.plan.factories := by
  unfold useModule
  split <;> rfl

@[simp] theorem bindings_useModule {i : Identity} :
    (r.useModule registry i).plan.bindings = r.plan.bindings := by
  unfold useModule
  split <;> rfl

@[simp] theorem visit?_finish : (r.finish registry n sources).visit? j =
    if n.identity = j then some (.resolved (n.isFallible sources)) else r.visit? j := by
  by_cases h : n.identity = j <;> cases n <;>
    simp_all [finish, record, leave, visit?, key]

@[simp] theorem path_finish : (r.finish registry n sources).path = r.path.dropLast := by
  cases n <;> simp [finish, record, leave]

@[simp] theorem bindings_finish :
    (r.finish registry n sources).plan.bindings = r.plan.bindings := by
  cases n <;> simp [finish, record, leave]

/-- The entry of a finished node takes no other's place. -/
theorem entry?_finish {kind : SourceKind} : (r.finish registry n sources).plan.entry? kind j =
    if n.kind = kind ∧ n.identity = j then some (n.isFallible sources)
    else r.plan.entry? kind j := by
  cases n with
  | provider p =>
    cases kind <;> by_cases h : p.provides = j <;>
      simp [finish, record, leave, Wired.entry?, Node.kind, Node.identity, key, h]
  | factory d =>
    cases kind <;> by_cases h : d.identity = j <;>
      simp [finish, record, leave, Wired.entry?, Node.kind, Node.identity, key, h,
        Factory.ofSources, Node.isFallible, Node.canFail]

end Finish

/-- Unless there is a result, there is a step. -/
theorem exists_step {c : Catalog} {s : Config} (h : s.result? = none) : ∃ e s', Step c s e s' := by
  obtain ⟨r, control⟩ := s
  cases control with
  | request q k =>
    cases hs : q.type.shape with
    | none => exact ⟨_, _, .gap (g := .shape q) (by simp [Catalog.gap?, hs])⟩
    | some s =>
      cases hanswer : c.answer s with
      | node n =>
        cases hv : r.visit? n.identity with
        | none => exact ⟨_, _, .build hs hanswer hv⟩
        | some v =>
          cases v with
          | inProgress => exact ⟨_, _, .cycle hs hanswer hv⟩
          | resolved f => exact ⟨_, _, .reuse hs hanswer hv⟩
      | binding b => exact ⟨_, _, .hop hs hanswer⟩
      | mismatch t => exact ⟨_, _, .gap (g := .mismatch q t) (by simp [Catalog.gap?, hs, hanswer])⟩
      | nothing => exact ⟨_, _, .gap (g := .nothing q) (by simp [Catalog.gap?, hs, hanswer])⟩
  | answer x k =>
    cases k with
    | targets xs qs => exact ⟨_, _, .toTargets⟩
    | node n xs qs k => exact ⟨_, _, .toNode⟩
    | binding b k => exact ⟨_, _, .toBinding⟩
  | targets xs qs =>
    cases qs with
    | nil => cases h
    | cons q qs => exact ⟨_, _, .target⟩
  | node n xs qs k =>
    cases qs with
    | nil => exact ⟨_, _, .finish⟩
    | cons q qs => exact ⟨_, _, .input⟩
  | failed e k => cases h

end Resolver

end Wiring
