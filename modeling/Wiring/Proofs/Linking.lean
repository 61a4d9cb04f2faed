import Mathlib.Logic.ExistsUnique
import Wiring.Proofs.ArtifactTable
import Wiring.Proofs.TypedWiring
import Wiring.Proofs.UsedModules

/-!
Generated code links. A call of a routine names a symbol, a method of the component or a function
of another artifact, and a resolved plan has a single routine for it: names tell identities apart,
targets of the definition itself keep away from the names of wrappers, and targets of an interface
become methods of that interface. The module that a wrapper calls is a field of the component,
since discovery has registered the module of every provider. A routine calls what its node
depends on, so that no calls go round in a circle.
-/
namespace Wiring

open Relation Naming Artifact

/-- What a routine is called by. -/
inductive Symbol where
  /-- A method of the component itself. -/
  | method (name : String)
  /-- A method of the interface that the component implements. -/
  | interfaceMethod (name : String)
  /-- A function in the module of an artifact. -/
  | function (artifact name : String)
deriving DecidableEq, Repr

/-- A call of the symbol by way of the expression `component`. -/
def Symbol.callText (component : String) : Symbol → String
  | method name | interfaceMethod name => component ++ "." ++ name ++ "()"
  | function artifact name => "super::" ++ artifact ++ "::" ++ name ++ "(" ++ component ++ ")"

/-- A routine of an artifact that takes no `self` is a function there. A method of an interface
has no visibility of its own. -/
def Routine.symbol (r : Routine) (artifact : String) : Symbol :=
  if r.params ≠ "&self" then .function artifact r.name
  else if r.visibility = "" then .interfaceMethod r.name
  else .method r.name

/-- The symbol that a call names. The method of a value module is not generated. -/
def Callee.symbol? : Callee → Option Symbol
  | .wrapper i => some (.method (providerMethod i))
  | .factory i => some (.function (factoryArtifact i) (factoryFunction i))
  | .method _ _ _ => none

/-- The constructor of the component, which is not a routine of the plan. -/
def Symbol.constructor : Symbol :=
  .method "new"

namespace Plan

/-- The artifact `a` of the plan holds the routine `r`. -/
def Defines (u : Universe) (component : String) (p : Plan) (a : Artifact) (r : Routine) : Prop :=
  ∃ rs, p.Part u component a rs ∧ r ∈ rs

/-- A routine called `s` calls one that is called `s'`. -/
def Calls (u : Universe) (component : String) (p : Plan) (s s' : Symbol) : Prop :=
  ∃ a r, p.Defines u component a r ∧ r.symbol a.name = s ∧
    ∃ e ∈ r.exprs, ∃ callee, e.callee? = some callee ∧ callee.symbol? = some s'

/-- The artifacts of a plan link. -/
structure Linked (u : Universe) (component : String) (p : Plan) (arts : Table Artifact) :
    Prop where
  artifact : ∀ a ∈ arts.toList,
    (∃ names, a = ⟨rootName, rootText names component p.definition.identity⟩) ∨
      ∃ rs ls uses, p.Part u component a rs ∧ LaidOut ls rs ∧
        a.text = (Sheet.ofLines ls).finish uses
  /-- A call of a routine is written by its symbol, and a single routine has this symbol. -/
  call : ∀ a r, p.Defines u component a r → ∀ e ∈ r.exprs, ∀ callee s,
    e.callee? = some callee → callee.symbol? = some s →
      (∀ receiver, Expr.calleeText receiver callee = s.callText receiver) ∧ s ≠ .constructor ∧
        ∃! x : Artifact × Routine, x.1 ∈ arts.toList ∧ p.Defines u component x.1 x.2 ∧
          x.2.symbol x.1.name = s
  /-- Every method call goes to a field of the component. -/
  receiver : ∀ a r, p.Defines u component a r → ∀ e ∈ r.exprs, ∀ m name args,
    e.callee? = some (.method m name args) →
      ∃ v ∈ p.modules, v.identity = m ∧ fieldLine v ∈ structLines component p
  fields : (p.modules.map fun v => moduleField v.identity).Nodup
  acyclic : ∀ s, ¬ TransGen (p.Calls u component) s s

end Plan

section Symbols

variable {u : Universe} {component : String} {p : Plan} {a : Artifact} {r : Routine}

theorem providerMethod_ne_new (i : Identity) : providerMethod i ≠ "new" := by
  intro h
  have hfirst := congrArg (fun s => s.toList.head?) h
  simp [providerMethod] at hfirst

/-- The symbol of the routine that produces values of a type. -/
def SourceKind.symbol (i : Identity) : SourceKind → Symbol
  | .provider => .method (providerMethod i)
  | .factory => .function (factoryArtifact i) (factoryFunction i)

theorem SourceKind.symbol_inj {k k' : SourceKind} {i i' : Identity} :
    k.symbol i = k'.symbol i' ↔ k = k' ∧ i = i' := by
  cases k <;> cases k' <;> simp [symbol, providerMethod_inj, factoryFunction_inj]
  exact fun h => factoryArtifact_inj.mpr h

/-- The symbol of the routine that a source calls. -/
def Source.symbol (x : Source) : Symbol :=
  x.kind.symbol x.identity

theorem Source.symbol?_callee (x : Source) : x.callee.symbol? = some x.symbol := by
  unfold callee symbol
  cases x.kind <;> rfl

theorem calleeText_eq {callee : Callee} {s : Symbol} (h : callee.symbol? = some s)
    (receiver : String) : Expr.calleeText receiver callee = s.callText receiver := by
  cases callee with
  | wrapper i =>
    cases h
    rfl
  | factory i =>
    cases h
    rfl
  | method m name args => cases h

theorem symbol_ne_constructor {callee : Callee} {s : Symbol} (h : callee.symbol? = some s) :
    s ≠ .constructor := by
  cases callee with
  | wrapper i =>
    cases h
    simpa [Symbol.constructor] using providerMethod_ne_new i
  | factory i =>
    cases h
    simp [Symbol.constructor]
  | method m name args => cases h

theorem symbol_wrapper (e : PlannedProvider) (artifact : String) :
    (Routine.wrapper u e).symbol artifact = SourceKind.provider.symbol e.provider.provides := by
  simp [Routine.symbol, Routine.wrapper, SourceKind.symbol]

theorem symbol_factory (f : Factory) : (Routine.factory component f).symbol
    (ofFactory component f).name = SourceKind.factory.symbol f.identity := by
  have hused : ∀ s : String, ("component: &" ++ s) ≠ "&self" := by
    intro s h
    have hfirst := congrArg (fun s => s.toList.head?) h
    simp at hfirst
  have hunused : ∀ s : String, ("_component: &" ++ s) ≠ "&self" := by
    intro s h
    have hfirst := congrArg (fun s => s.toList.head?) h
    simp at hfirst
  unfold Routine.factory
  dsimp only
  split <;> simp [Routine.symbol, SourceKind.symbol, ofFactory, hused, hunused]

/-- The targets of the definition itself do not have the names of wrappers. -/
def Plan.Unreserved (p : Plan) : Prop :=
  p.definition.componentInterface = none →
    ∀ z ∈ p.targets, Definition.isReserved z.target.method = false

theorem identifier_ne_providerMethod {name : String} (h : Definition.isReserved name = false)
    (i : Identity) : identifier name ≠ providerMethod i := by
  intro heq
  unfold identifier at heq
  split at heq
  · have hfirst := congrArg (fun s => s.toList.head?) heq
    simp [providerMethod] at hfirst
  · have hreserved : Definition.isReserved name = true := by
      simp [Definition.isReserved, heq, providerMethod]
    rw [h] at hreserved
    cases hreserved

theorem mem_placedAccessors (h : r ∈ placedAccessors u p) : ∃ z ∈ p.targets,
    (p.definition.componentInterface = none ∧ r = .accessor u "pub " z) ∨
      r = .accessor u "" z := by
  unfold placedAccessors accessors at h
  split at h
  · next hinterface =>
    obtain ⟨z, hz, rfl⟩ := List.mem_map.mp h
    exact ⟨z, hz, .inl ⟨hinterface, rfl⟩⟩
  · obtain ⟨z, hz, rfl⟩ := List.mem_map.mp h
    exact ⟨z, hz, .inr rfl⟩

/-- An accessor does not have the symbol of a source. -/
theorem symbol_accessor_ne (h : p.Unreserved) (hr : r ∈ placedAccessors u p) (artifact : String)
    (x : Source) : r.symbol artifact ≠ x.symbol := by
  obtain ⟨z, hz, ⟨hinterface, rfl⟩ | rfl⟩ := mem_placedAccessors hr
  · have hname := identifier_ne_providerMethod (h hinterface z hz) x.identity
    cases hkind : x.kind <;>
      simp [Routine.symbol, Routine.accessor, Source.symbol, SourceKind.symbol, hkind, hname]
  · cases hkind : x.kind <;>
      simp [Routine.symbol, Routine.accessor, Source.symbol, SourceKind.symbol, hkind]

theorem defines_iff : p.Defines u component a r ↔
    a = ofComponent u component p ∧ r ∈ placedAccessors u p ∨
      (∃ f ∈ p.factories.toList, a = ofFactory component f ∧ r = .factory component f) ∨
        ∃ e ∈ p.providers.toList, a = ofProvider u component e ∧ r = .wrapper u e := by
  constructor
  · rintro ⟨rs, hpart, hr⟩
    cases hpart with
    | component => exact .inl ⟨rfl, hr⟩
    | factory hf => exact .inr (.inl ⟨_, hf, rfl, List.mem_singleton.mp hr⟩)
    | wrapper he => exact .inr (.inr ⟨_, he, rfl, List.mem_singleton.mp hr⟩)
  · rintro (⟨rfl, hr⟩ | ⟨f, hf, rfl, rfl⟩ | ⟨e, he, rfl, rfl⟩)
    · exact ⟨_, .component, hr⟩
    · exact ⟨_, .factory hf, List.mem_singleton_self _⟩
    · exact ⟨_, .wrapper he, List.mem_singleton_self _⟩

theorem Plan.Defines.mem_ofPlan (h : p.Defines u component a r) :
    a ∈ (ofPlan u component p).toList := by
  refine mem_ofPlan_iff.mpr (.inr (mem_items_iff.mpr ?_))
  rcases defines_iff.mp h with ⟨rfl, -⟩ | ⟨f, hf, rfl, -⟩ | ⟨e, he, rfl, -⟩
  · exact .inl rfl
  · exact .inr (.inl ⟨f, hf, rfl⟩)
  · exact .inr (.inr ⟨e, he, rfl⟩)

/-- The routine with the symbol of a source is that of the entry that the source names. -/
theorem Plan.Defines.of_symbol (hp : p.Unreserved) (h : p.Defines u component a r) {x : Source}
    (hs : r.symbol a.name = x.symbol) :
    (∃ e, x.kind = .provider ∧ p.providers.find? x.identity = some e ∧
      a = ofProvider u component e ∧ r = .wrapper u e) ∨
    ∃ f, x.kind = .factory ∧ p.factories.find? x.identity = some f ∧
      a = ofFactory component f ∧ r = .factory component f := by
  rcases defines_iff.mp h with ⟨-, hr⟩ | ⟨f, hf, rfl, rfl⟩ | ⟨e, he, rfl, rfl⟩
  · exact absurd hs (symbol_accessor_ne hp hr a.name x)
  · rw [symbol_factory] at hs
    obtain ⟨hkind, hid⟩ := SourceKind.symbol_inj.mp hs
    exact .inr ⟨f, hkind.symm, Table.find?_eq_some_iff.mpr ⟨hf, hid⟩, rfl, rfl⟩
  · rw [symbol_wrapper] at hs
    obtain ⟨hkind, hid⟩ := SourceKind.symbol_inj.mp hs
    exact .inl ⟨e, hkind.symm, Table.find?_eq_some_iff.mpr ⟨he, hid⟩, rfl, rfl⟩

/-- A source whose entry is in the plan names a single routine. -/
theorem existsUnique_routine (hp : p.Unreserved) {x : Source} (hx : p.holds x = true) :
    ∃! y : Artifact × Routine, y.1 ∈ (ofPlan u component p).toList ∧
      p.Defines u component y.1 y.2 ∧ y.2.symbol y.1.name = x.symbol := by
  have hentry : ∃ y : Artifact × Routine, p.Defines u component y.1 y.2 ∧
      y.2.symbol y.1.name = x.symbol := by
    unfold Plan.holds at hx
    cases hkind : x.kind with
    | provider =>
      simp only [hkind] at hx
      obtain ⟨e, he⟩ := Option.isSome_iff_exists.mp hx
      obtain ⟨hmem, hid⟩ := Table.find?_eq_some_iff.mp he
      refine ⟨(ofProvider u component e, .wrapper u e),
        defines_iff.mpr (.inr (.inr ⟨e, hmem, rfl, rfl⟩)), ?_⟩
      rw [symbol_wrapper, Source.symbol, hkind, ← hid]
      rfl
    | factory =>
      simp only [hkind] at hx
      obtain ⟨f, hf⟩ := Option.isSome_iff_exists.mp hx
      obtain ⟨hmem, hid⟩ := Table.find?_eq_some_iff.mp hf
      refine ⟨(ofFactory component f, .factory component f),
        defines_iff.mpr (.inr (.inl ⟨f, hmem, rfl, rfl⟩)), ?_⟩
      rw [symbol_factory, Source.symbol, hkind, ← hid]
      rfl
  obtain ⟨⟨a, r⟩, hdefines, hsymbol⟩ := hentry
  refine ⟨(a, r), ⟨hdefines.mem_ofPlan, hdefines, hsymbol⟩, ?_⟩
  rintro ⟨a', r'⟩ ⟨-, hdefines', hsymbol'⟩
  rcases hdefines.of_symbol hp hsymbol with ⟨e, hkind, he, rfl, rfl⟩ | ⟨f, hkind, hf, rfl, rfl⟩ <;>
    rcases hdefines'.of_symbol hp hsymbol' with ⟨e', hkind', he', rfl, rfl⟩ |
      ⟨f', hkind', hf', rfl, rfl⟩ <;> simp_all

end Symbols

section Calls

variable {u : Universe} {component : String} {p : Plan} {a : Artifact} {r : Routine} {e : Expr}
  {k : Callee}

theorem callee_of_wrapper {q : PlannedProvider} (he : e ∈ (Routine.wrapper u q).exprs)
    (hk : e.callee? = some k) : (∃ x ∈ q.params, k = x.callee) ∨
      ∃ args, k = .method q.provider.module q.provider.method args := by
  rw [Routine.exprs_wrapper, List.mem_append, List.mem_map, List.mem_singleton] at he
  rcases he with ⟨x, hx, rfl⟩ | rfl
  · cases hk
    exact .inl ⟨x, hx, rfl⟩
  · cases hk
    exact .inr ⟨_, rfl⟩

theorem callee_of_factory {f : Factory} (he : e ∈ (Routine.factory component f).exprs)
    (hk : e.callee? = some k) : ∃ x ∈ f.fields.map Assignment.source, k = x.callee := by
  obtain ⟨g, hg, rfl⟩ := Routine.mem_exprs_factory he hk
  cases hk
  exact ⟨g.source, List.mem_map_of_mem hg, rfl⟩

theorem callee_of_accessor (hr : r ∈ placedAccessors u p) (he : e ∈ r.exprs)
    (hk : e.callee? = some k) : ∃ z ∈ p.targets, k = z.source.callee := by
  obtain ⟨z, hz, ⟨-, rfl⟩ | rfl⟩ := mem_placedAccessors hr <;>
    · obtain rfl := List.mem_singleton.mp he
      cases hk
      exact ⟨z, hz, rfl⟩

/-- A call in a routine is for a source of the plan, or a wrapper calls its provider. -/
theorem Plan.Defines.callee (h : p.Defines u component a r) (he : e ∈ r.exprs)
    (hk : e.callee? = some k) : (∃ x ∈ p.sources, k = x.callee) ∨
      ∃ q ∈ p.providers.toList, ∃ args, k = .method q.provider.module q.provider.method args := by
  rcases defines_iff.mp h with ⟨-, hr⟩ | ⟨f, hf, -, rfl⟩ | ⟨q, hq, -, rfl⟩
  · obtain ⟨z, hz, rfl⟩ := callee_of_accessor hr he hk
    exact .inl ⟨z.source, Plan.mem_sources_iff.mpr (.inl ⟨z, hz, rfl⟩), rfl⟩
  · obtain ⟨x, hx, rfl⟩ := callee_of_factory he hk
    obtain ⟨g, hg, rfl⟩ := List.mem_map.mp hx
    exact .inl ⟨g.source, Plan.mem_sources_iff.mpr (.inr (.inr ⟨f, hf, g, hg, rfl⟩)), rfl⟩
  · rcases callee_of_wrapper he hk with ⟨x, hx, rfl⟩ | ⟨args, rfl⟩
    · exact .inl ⟨x, Plan.mem_sources_iff.mpr (.inr (.inl ⟨q, hq, hx⟩)), rfl⟩
    · exact .inr ⟨q, hq, args, rfl⟩

/-- A symbol that is called is that of a source. -/
theorem symbol_of_callee {s : Symbol} (h : p.Defines u component a r) (he : e ∈ r.exprs)
    (hk : e.callee? = some k) (hs : k.symbol? = some s) : ∃ x ∈ p.sources, s = x.symbol := by
  rcases h.callee he hk with ⟨x, hx, rfl⟩ | ⟨q, -, args, rfl⟩
  · rw [Source.symbol?_callee] at hs
    exact ⟨x, hx, (Option.some.inj hs).symm⟩
  · cases hs

end Calls

/-- The symbol of the routine of a node. -/
def Node.symbol (n : Node) : Symbol :=
  n.kind.symbol n.identity

theorem Catalog.HasNode.eq_of_symbol {c : Catalog} {n m : Node} (hn : c.HasNode n)
    (hm : c.HasNode m) (h : n.symbol = m.symbol) : n = m :=
  hn.eq_of_identity hm (SourceKind.symbol_inj.mp h).2

namespace Wired.Complete

variable {c : Catalog} {d : Definition} {w : Wired} {xs : List Source} {component : String}

theorem holds (h : w.Complete c d xs) {x : Source} (hx : x ∈ (w.plan d xs).sources) :
    (w.plan d xs).holds x = true := by
  obtain ⟨t, -, hmet⟩ := h.source_met hx
  obtain ⟨⟨n, b⟩, sources, -, hfin, rfl⟩ := h.sound.meets hmet
  cases n with
  | provider q =>
    have hentry : w.providers.find? q.provides = some _ := hfin.holds
    simp [Plan.holds, Supply.source, Node.kind, Node.identity, plan, Table.contains, hentry]
  | factory e =>
    have hentry : w.factories.find? e.identity = some _ := hfin.holds
    simp [Plan.holds, Supply.source, Node.kind, Node.identity, plan, Table.contains, hentry]

/-- The routine of a node calls for the sources of what the node asks for. -/
theorem callee_of_node (h : w.Complete c d xs) (hp : (w.plan d xs).Unreserved) {n : Node}
    (hn : c.HasNode n) {a : Artifact} {r : Routine}
    (hdefines : (w.plan d xs).Defines c.types component a r) (hr : r.symbol a.name = n.symbol)
    {e : Expr} (he : e ∈ r.exprs) {k : Callee} (hk : e.callee? = some k) {s : Symbol}
    (hs : k.symbol? = some s) : ∃ t ∈ n.requests, ∃ x, w.Meets c t x ∧ s = x.symbol := by
  have hsource : ∀ x : Source, k = x.callee → s = x.symbol := by
    rintro x rfl
    rw [Source.symbol?_callee] at hs
    exact (Option.some.inj hs).symm
  rcases hdefines.of_symbol hp (x := ⟨n.kind, n.identity, none, false⟩) hr with
    ⟨q, -, hq, -, rfl⟩ | ⟨f, -, hf, -, rfl⟩
  · obtain ⟨hid, hfin⟩ := h.sound.provider hq
    obtain rfl := hn.eq_of_identity hfin.hasNode hid.symm
    rcases callee_of_wrapper he hk with ⟨x, hx, heq⟩ | ⟨args, rfl⟩
    · obtain ⟨t, ht, hmet⟩ := exists_of_forall₂_right hfin.met hx
      exact ⟨t, ht, x, hmet, hsource x heq⟩
    · cases hs
  · obtain ⟨e', sources, hid, hfin⟩ := h.sound.factory hf
    obtain rfl := hn.eq_of_identity hfin.hasNode hid.symm
    have hentry : w.factories.find? e'.identity = some (.ofSources e' sources) := hfin.holds
    obtain rfl : f = .ofSources e' sources := Option.some.inj (hf.symm.trans hentry)
    obtain ⟨x, hx, heq⟩ := callee_of_factory he hk
    rw [hfin.map_source] at hx
    obtain ⟨t, ht, hmet⟩ := exists_of_forall₂_right hfin.met hx
    exact ⟨t, ht, x, hmet, hsource x heq⟩

/-- What the routine of a node calls are the routines of nodes that it depends on. -/
theorem calls_depends (h : w.Complete c d xs) (hp : (w.plan d xs).Unreserved) {n : Node}
    {s : Symbol} (hn : c.HasNode n) (hcalls : (w.plan d xs).Calls c.types component n.symbol s) :
    ∃ m, c.HasNode m ∧ s = m.symbol ∧ c.Depends n m := by
  obtain ⟨a, r, hdefines, hr, e, he, k, hk, hs⟩ := hcalls
  obtain ⟨t, ht, x, hmet, rfl⟩ := h.callee_of_node hp hn hdefines hr he hk hs
  obtain ⟨⟨m, b⟩, f, hm, -, rfl, -⟩ := hmet
  exact ⟨m, hm.hasNode, rfl, t, ht, b, hm⟩

theorem transGen_calls_depends (h : w.Complete c d xs) (hp : (w.plan d xs).Unreserved) {n : Node}
    {s : Symbol} (hn : c.HasNode n)
    (hcalls : TransGen ((w.plan d xs).Calls c.types component) n.symbol s) :
    ∃ m, c.HasNode m ∧ s = m.symbol ∧ TransGen c.Depends n m := by
  induction hcalls with
  | single hcall =>
    obtain ⟨m, hm, rfl, hdepends⟩ := h.calls_depends hp hn hcall
    exact ⟨m, hm, rfl, .single hdepends⟩
  | tail _ hcall ih =>
    obtain ⟨m, hm, rfl, hpath⟩ := ih
    obtain ⟨m', hm', rfl, hdepends⟩ := h.calls_depends hp hm hcall
    exact ⟨m', hm', rfl, hpath.tail hdepends⟩

/-- No routine is called again by what it calls. -/
theorem acyclic (h : w.Complete c d xs) (hp : (w.plan d xs).Unreserved) (s : Symbol) :
    ¬ TransGen ((w.plan d xs).Calls c.types component) s s := by
  intro hcycle
  obtain ⟨s', -, a, r, hdefines, -, e, he, k, hk, hs⟩ := TransGen.tail'_iff.mp hcycle
  obtain ⟨x, hx, rfl⟩ := symbol_of_callee hdefines he hk hs
  obtain ⟨t, -, hmet⟩ := h.source_met hx
  obtain ⟨⟨n, b⟩, sources, hn, hfin, rfl⟩ := h.sound.meets hmet
  obtain ⟨m, hm, heq, hpath⟩ := h.transGen_calls_depends hp hn.hasNode hcycle
  obtain rfl : n = m := hn.hasNode.eq_of_symbol hm heq
  exact hfin.grounded.not_cyclic hpath

theorem unreserved (h : w.Complete c d xs)
    (hd : d.componentInterface = none → ∀ t ∈ d.targets, Definition.isReserved t.method = false) :
    (w.plan d xs).Unreserved := by
  intro hinterface z hz
  obtain ⟨t, ht, rfl, -⟩ := exists_of_forall₂_right h.targets hz
  exact hd hinterface _ ht

end Wired.Complete

namespace Definition

/-- Targets that stand on the definition itself do not have reserved names. -/
theorem wantedTargets_unreserved {u : Universe} {d : Decl} {targets : List Target}
    (h : wantedTargets u d = .ok (targets, none)) : ∀ t ∈ targets, isReserved t.method = false := by
  rcases wantedTargets_eq_ok_iff.mp h with ⟨-, -, hown⟩ | ⟨_, _, -, hinterface, -⟩
  · exact (ownTargets_eq_ok_iff.mp hown).2
  · cases hinterface

theorem load_unreserved {u : Universe} {package name : String} {d : Definition}
    (h : load u package name = .ok d) (hinterface : d.componentInterface = none) :
    ∀ t ∈ d.targets, isReserved t.method = false := by
  obtain ⟨e, -, -, -, hwanted, -, -⟩ := load_eq_ok_iff.mp h
  rw [hinterface] at hwanted
  exact wantedTargets_unreserved hwanted

end Definition

end Wiring
