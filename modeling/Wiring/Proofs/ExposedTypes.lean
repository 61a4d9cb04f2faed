import Wiring.Proofs.HiddenMembers
import Wiring.Proofs.ImplementedInterface
import Wiring.Proofs.UsedModules

/-!
The types that a plan names. A public method shows the types of its parameters and results, and a
struct shows those of the fields that a factory assigns; whatever a plan names is mentioned in one
of them. Who may see a declared type is not asked for: a universe in which other types are private
has the same plan and the same artifacts, so that private types are kept out of generated code only
where no visible member mentions them.
-/
namespace Wiring

/-- The reference mentions a declared type, behind references or among the items of a tuple. -/
inductive TypeRef.Mentions (i : Identity) : TypeRef → Prop
  | named : Mentions i (.named i)
  | pointer {t : TypeRef} (h : Mentions i t) : Mentions i (.pointer t)
  | item {t : TypeRef} {ts : List TypeRef} (ht : t ∈ ts) (h : Mentions i t) : Mentions i (.tuple ts)

/-- What stands in the visible members of a declaration. -/
inductive Decl.Shows (d : Decl) : TypeRef → Prop
  | param {m : Method} {q : Param} (hm : m ∈ d.publicMethods) (hq : q ∈ m.params) : Shows d q.type
  | result {m : Method} {t : TypeRef} (hm : m ∈ d.publicMethods) (ht : t ∈ m.results) : Shows d t
  | field {f : Field} (hf : f ∈ d.injectedFields) : Shows d f.type

namespace Universe

/-- The type stands in a visible member of a declared type. -/
def Shows (u : Universe) (t : TypeRef) : Prop :=
  ∃ i d, u.lookup i = some d ∧ d.Shows t

/-- A visible member mentions the type. -/
def Exposes (u : Universe) (i : Identity) : Prop :=
  ∃ t, u.Shows t ∧ t.Mentions i

/-- The universe with other visibilities of its types. -/
def withVisibility (u : Universe) (v : Identity → Visibility) : Universe where
  rootPackage := u.rootPackage
  types := u.types.mapEntries (fun d => { d with visibility := v d.identity }) fun _ => rfl

end Universe

/-- The types that a plan names: those of its modules, providers, bindings and factories, and the
interface of the component. -/
inductive Plan.Names (p : Plan) : Identity → Prop
  | module {m : ValueModule} (hm : m ∈ p.modules) : Names p m.identity
  | host {e : PlannedProvider} (he : e ∈ p.providers.toList) : Names p e.provider.module
  | provided {e : PlannedProvider} (he : e ∈ p.providers.toList) : Names p e.provider.provides
  | factory {f : Factory} (hf : f ∈ p.factories.toList) : Names p f.identity
  | interface {b : Binding} (hb : b ∈ p.bindings.toList) : Names p b.interface
  | implementation {b : Binding} (hb : b ∈ p.bindings.toList) : Names p b.implementation
  | component {i : Identity} (hi : p.definition.componentInterface = some i) : Names p i

section Definition

variable {u : Universe} {package name : String} {d : Definition}

open Definition

theorem mem_results_of_targetOf {m : Method} {t : Target} (h : targetOf m = .ok t) :
    t.type ∈ m.results := by
  obtain ⟨-, hresult, -, -⟩ := targetOf_eq_ok_iff.mp h
  obtain ⟨-, hresults⟩ := targetResult?_eq_some_iff.mp hresult
  rw [hresults]
  cases t.isFallible <;> exact List.mem_cons_self

/-- The targets of a declaration have types that its public methods return. -/
theorem shows_of_targetsOf {e : Decl} {targets : List Target} {t : Target}
    (h : targetsOf e = .ok targets) (ht : t ∈ targets) : e.Shows t.type := by
  obtain ⟨m, hm, htarget⟩ := exists_of_forall₂_right (mapM_eq_ok_iff.mp h) ht
  exact .result (List.mem_of_mem_filter hm) (mem_results_of_targetOf htarget)

theorem mem_of_method? {e : Decl} {m : Method} {name : String} (h : e.method? name = some m) :
    m ∈ e.publicMethods :=
  List.mem_of_find?_eq_some h

/-- Targets are declared by the definition, or by an interface that one of its methods returns. -/
theorem declared_of_wantedTargets {e : Decl} {targets : List Target} {interface : Option Identity}
    (h : wantedTargets u e = .ok (targets, interface)) :
    (interface = none ∧ targetsOf e = .ok targets) ∨
      ∃ m ∈ e.publicMethods, ∃ i e', interface = some i ∧ m.results = [.named i] ∧
        u.lookup i = some e' ∧ targetsOf e' = .ok targets := by
  rcases wantedTargets_eq_ok_iff.mp h with ⟨-, hinterface, hown⟩ | ⟨m, i, hm, hinterface, hfound⟩
  · exact .inl ⟨hinterface, (ownTargets_eq_ok_iff.mp hown).1⟩
  · obtain ⟨-, hresults, e', he', -, htargets⟩ := interfaceTargets_eq_ok_iff.mp hfound
    exact .inr ⟨m, mem_of_method? hm, i, e', hinterface, hresults, he', htargets⟩

theorem shows_of_load {t : Target} (h : load u package name = .ok d) (ht : t ∈ d.targets) :
    u.Shows t.type := by
  obtain ⟨e, he, -, -, hwanted, -⟩ := load_eq_ok_iff.mp h
  rcases declared_of_wantedTargets hwanted with ⟨-, htargets⟩ | ⟨m, -, i, e', -, -, he', htargets⟩
  · exact ⟨_, e, he, shows_of_targetsOf htargets ht⟩
  · exact ⟨i, e', he', shows_of_targetsOf htargets ht⟩

theorem exposes_of_load_interface {i : Identity} (h : load u package name = .ok d)
    (hi : d.componentInterface = some i) : u.Exposes i := by
  obtain ⟨e, he, -, -, hwanted, -⟩ := load_eq_ok_iff.mp h
  rcases declared_of_wantedTargets hwanted with ⟨hnone, -⟩ | ⟨m, hm, j, -, hj, hresults, -, -⟩
  · rw [hnone] at hi
    cases hi
  · rw [hj] at hi
    cases hi
    exact ⟨_, ⟨_, e, he, .result hm (by simp [hresults])⟩, .named⟩

theorem mentions_of_mem_moduleList {results : List TypeRef} {t : TypeRef} {i : Identity}
    (ht : t ∈ moduleList results) (hi : t.Mentions i) : ∃ t' ∈ results, t'.Mentions i := by
  unfold moduleList at ht
  split at ht
  · exact ⟨_, List.mem_singleton.mpr rfl, .item ht hi⟩
  · exact ⟨t, ht, hi⟩

theorem exposes_of_mem_moduleList {j i : Identity} {e : Decl} {m : Method} {t : TypeRef}
    (he : u.lookup j = some e) (hm : m ∈ e.publicMethods) (ht : t ∈ moduleList m.results)
    (hi : t.Mentions i) : u.Exposes i := by
  obtain ⟨t', ht', hi'⟩ := mentions_of_mem_moduleList ht hi
  exact ⟨t', ⟨j, e, he, .result hm ht'⟩, hi'⟩

theorem exposes_of_load_modules {t : TypeRef} {i : Identity} (h : load u package name = .ok d)
    (ht : t ∈ d.modules) (hi : t.Mentions i) : u.Exposes i := by
  obtain ⟨e, he, -, hmodules, -⟩ := load_eq_ok_iff.mp h
  unfold modulesOf at hmodules
  split at hmodules
  · next m hm =>
    split at hmodules
    · have hlist := Except.ok.inj hmodules
      exact exposes_of_mem_moduleList he (mem_of_method? hm) (hlist ▸ ht) hi
    · cases hmodules
  · cases hmodules

end Definition

section Modules

variable {u : Universe} {roots : List TypeRef} {r : Registry}

open Discovery

/-- Included modules stand in the results of public methods, like those that are asked for. -/
theorem exposes_of_reachable {t : TypeRef} {i : Identity}
    (hroots : ∀ t ∈ roots, ∀ i, t.Mentions i → u.Exposes i) (h : Reachable u roots t)
    (hi : t.Mentions i) : u.Exposes i := by
  induction h generalizing i with
  | root ht => exact hroots _ ht i hi
  | nested _ hd _ hm ht _ =>
    have hpublic := List.mem_of_mem_filter (List.mem_of_getLast? hm)
    exact exposes_of_mem_moduleList hd hpublic ht hi

theorem exposes_of_reachableModule {d : Decl}
    (hroots : ∀ t ∈ roots, ∀ i, t.Mentions i → u.Exposes i) (h : ReachableModule u roots d) :
    u.Exposes d.identity := by
  obtain ⟨t, ht, -, hrefers⟩ := h
  refine exposes_of_reachable hroots ht ?_
  rcases hrefers with ⟨rfl, -⟩ | ⟨rfl, -⟩
  · exact .named
  · exact .pointer .named

/-- A registered provider is a public method of a reachable module. -/
theorem exists_method_of_provider {i : Identity} {q : Provider} (hr : r.Discovered u roots)
    (h : r.provider? i = some q) : ∃ d m, ReachableModule u roots d ∧ u.lookup d.identity = some d ∧
      m ∈ d.publicMethods ∧ q.DeclaredBy u d.identity m := by
  obtain ⟨-, d, k, hd, m, hm, hdeclares⟩ := (hr.provider i q).mp h
  have hlookup : u.lookup d.identity = some d := by
    obtain ⟨-, -, hlookup, -⟩ := hd
    exact hlookup
  cases hdeclares with
  | provider _ hq => exact ⟨d, m, hd, hlookup, List.mem_of_getElem? hm, hq⟩

theorem exists_method_of_binding {i : Identity} {b : Binding} (hr : r.Discovered u roots)
    (h : r.binding? i = some b) : ∃ d m, u.lookup d.identity = some d ∧
      m ∈ d.publicMethods ∧ b.DeclaredBy u d.identity m := by
  obtain ⟨-, d, k, ⟨-, -, hlookup, -⟩, m, hm, hdeclares⟩ := (hr.binding i b).mp h
  cases hdeclares with
  | binding _ _ hb => exact ⟨d, m, hlookup, List.mem_of_getElem? hm, hb⟩

theorem exposes_of_provider {i : Identity} {q : Provider} (hr : r.Discovered u roots)
    (h : r.provider? i = some q) : u.Exposes q.provides := by
  obtain ⟨d, m, -, hd, hm, hq⟩ := exists_method_of_provider hr h
  have hresult : q.result ∈ m.results := by
    rw [hq.results]
    split <;> exact List.mem_cons_self
  refine ⟨q.result, ⟨_, d, hd, .result hm hresult⟩, ?_⟩
  rcases hq.shape with hshape | ⟨hshape, -⟩
  · rw [hshape]
    exact .named
  · rw [hshape]
    exact .pointer .named

theorem exposes_of_binding {i : Identity} {b : Binding} (hr : r.Discovered u roots)
    (h : r.binding? i = some b) : u.Exposes b.interface ∧ u.Exposes b.implementation := by
  obtain ⟨d, m, hd, hm, hb⟩ := exists_method_of_binding hr h
  obtain ⟨name, hparams⟩ := hb.params
  have hparam : ⟨name, .pointer (.named b.implementation)⟩ ∈ m.params := by simp [hparams]
  have hresult : .named b.interface ∈ m.results := by simp [hb.results]
  exact ⟨⟨_, ⟨_, d, hd, .result hm hresult⟩, .named⟩,
    _, ⟨_, d, hd, .param hm hparam⟩, .pointer .named⟩

end Modules

section Plan

variable {u : Universe} {roots : List TypeRef} {r : Registry} {d : Definition}

/-- What is asked for stands in a visible member: of the definition, or of the node that asks. -/
theorem shows_of_asked (hr : r.Discovered u roots) (htargets : ∀ t ∈ d.requests, u.Shows t)
    {t : TypeRef} (h : Catalog.Asked ⟨u, r⟩ d.requests t) : u.Shows t := by
  cases h with
  | root ht => exact htargets t ht
  | @request t' _ s _ hs ht =>
    obtain ⟨n, o⟩ := s
    cases n with
    | provider q =>
      obtain ⟨e, m, -, he, hm, hq⟩ := exists_method_of_provider hr hs.hasNode.provider
      obtain ⟨x, hx, rfl⟩ := List.mem_map.mp ht
      exact ⟨_, e, he, .param hm (hq.params ▸ hx)⟩
    | factory e =>
      obtain ⟨-, he, -⟩ := hs.hasNode.factory
      obtain ⟨f, hf, rfl⟩ := List.mem_map.mp ht
      exact ⟨_, e, he, .field hf⟩

/-- A struct is built because a visible member mentions it, or because it is bound to an
interface. -/
theorem exposes_of_reached_factory (hr : r.Discovered u roots)
    (htargets : ∀ t ∈ d.requests, u.Shows t) {e : Decl}
    (h : Catalog.Reached ⟨u, r⟩ d.requests (.factory e)) : u.Exposes e.identity := by
  obtain ⟨t, o, ht, hs⟩ := h
  cases o with
  | none =>
    cases hs with
    | @direct _ s _ hshape hn =>
      have hidentity : e.identity = s.identity := hn.identity_eq
      refine ⟨t, shows_of_asked hr htargets ht, ?_⟩
      rw [TypeRef.shape_eq_some_iff.mp hshape, hidentity]
      split
      · exact .pointer .named
      · exact .named
  | some b =>
    obtain ⟨-, hb, hidentity⟩ := hs.of_binding
    have hbound := (exposes_of_binding hr hb).2
    rwa [← hidentity] at hbound

theorem Wired.Complete.exposes {w : Wired} {xs : List Source} (h : w.Complete ⟨u, r⟩ d xs)
    (hhosted : w.Hosted r) (hr : r.Discovered u roots)
    (hroots : ∀ t ∈ roots, ∀ i, t.Mentions i → u.Exposes i)
    (htargets : ∀ t ∈ d.requests, u.Shows t)
    (hinterface : ∀ i, d.componentInterface = some i → u.Exposes i) {i : Identity}
    (hi : (w.plan d xs).Names i) : u.Exposes i := by
  cases hi with
  | @module m hm =>
    obtain ⟨e, he, -, hidentity, -⟩ := (hr.valueModule _ m).mp (hhosted.registered m hm)
    rw [← hidentity]
    exact exposes_of_reachableModule hroots he
  | @host e he =>
    have hprovider := (h.sound.of_mem_providers he).hasNode.provider
    obtain ⟨e', m, he', -, -, hq⟩ := exists_method_of_provider hr hprovider
    rw [hq.module]
    exact exposes_of_reachableModule hroots he'
  | @provided e he =>
    exact exposes_of_provider hr (h.sound.of_mem_providers he).hasNode.provider
  | @factory f hf =>
    obtain ⟨e, hidentity, hreached, -⟩ := h.fields hf
    rw [← hidentity]
    exact exposes_of_reached_factory hr htargets hreached
  | @interface b hb =>
    obtain ⟨-, t, n, -, hs⟩ := h.sound.binding (Table.find?_eq_some_iff.mpr ⟨hb, rfl⟩)
    exact (exposes_of_binding hr hs.of_binding.2.1).1
  | @implementation b hb =>
    obtain ⟨-, t, n, -, hs⟩ := h.sound.binding (Table.find?_eq_some_iff.mpr ⟨hb, rfl⟩)
    exact (exposes_of_binding hr hs.of_binding.2.1).2
  | component hi => exact hinterface i hi

/-- A plan names types that a visible member mentions. -/
theorem planComponent_exposes {package name : String} {p : Plan}
    (h : planComponent u package name = .ok p) {i : Identity} (hi : p.Names i) : u.Exposes i := by
  obtain ⟨d, r, hload, hdiscover, hresolve⟩ := planComponent_eq_ok_iff.mp h
  obtain ⟨hwire, -⟩ := resolve_eq_ok_iff.mp hresolve
  obtain ⟨w, xs, rfl, hrun, hmet⟩ := wirePlan_run hwire
  have hcomplete : w.Complete ⟨u, r⟩ d xs := ⟨hrun.sound Wired.sound_nothing, hmet⟩
  refine hcomplete.exposes (hrun.hosted_of_discover hdiscover)
    (Discovery.discover_discovered hdiscover) (fun t ht i => exposes_of_load_modules hload ht) ?_
    (fun i => exposes_of_load_interface hload) hi
  intro t ht
  obtain ⟨x, hx, rfl⟩ := List.mem_map.mp ht
  exact shows_of_load hload hx

end Plan

/-! Who may see a type does not matter. -/

section Visibility

variable (u : Universe) (v : Identity → Visibility)

@[simp] theorem surface_withVisibility : (u.withVisibility v).surface = u.surface := by
  simp [Universe.surface, Universe.withVisibility, Table.mapEntries, Function.comp_def,
    Decl.surface]

@[simp] theorem planComponent_surface (package name : String) :
    planComponent u.surface package name = planComponent u package name := by
  simp [planComponent]

theorem planComponent_withVisibility (package name : String) :
    planComponent (u.withVisibility v) package name = planComponent u package name := by
  rw [← planComponent_surface, surface_withVisibility, planComponent_surface]

theorem generate_withVisibility (s : Settings) :
    generate (u.withVisibility v) s = generate u s := by
  rw [← generate_surface, surface_withVisibility, generate_surface]

end Visibility

/-- Generation names types that a visible member mentions, whatever their own visibility is: with
other visibilities the plan and the artifacts are the same. -/
theorem generate_exposes {u : Universe} {s : Settings} {arts : Table Artifact} {t : PlanSummary}
    (h : generate u s = .generated arts t) :
    ∃ p, planComponent u s.package s.definition = .ok p ∧
      arts = Artifact.ofPlan u s.componentType p ∧ (∀ i, p.Names i → u.Exposes i) ∧
      ∀ v, planComponent (u.withVisibility v) s.package s.definition = .ok p ∧
        generate (u.withVisibility v) s = .generated arts t := by
  obtain ⟨-, p, hp, harts, -⟩ := generate_eq_generated_iff.mp h
  refine ⟨p, hp, harts, fun i => planComponent_exposes hp, fun v => ?_⟩
  rw [planComponent_withVisibility, generate_withVisibility]
  exact ⟨hp, h⟩

theorem shop_exposes : ∃ arts t, generate Shop.types (Shop.called "Shop") = .generated arts t ∧
    ∃ p, planComponent Shop.types "shop" "Shop" = .ok p ∧
      arts = Artifact.ofPlan Shop.types "Shop" p ∧ (∀ i, p.Names i → Shop.types.Exposes i) ∧
      ∀ v, planComponent (Shop.types.withVisibility v) "shop" "Shop" = .ok p ∧
        generate (Shop.types.withVisibility v) (Shop.called "Shop") = .generated arts t := by
  have hidentifier : Naming.isIdentifier "Shop" = true := by decide
  have hgenerate := Shop.generate_called hidentifier
  exact ⟨_, _, hgenerate, generate_exposes hgenerate⟩

/-- The shop with a private service. -/
def Shop.typesWithPrivate : Universe :=
  types.withVisibility fun i => if i = service then .private else .public

/-- A private struct has a factory if a target returns a reference to it. -/
theorem private_service_is_built : ∃ arts t e,
    generate Shop.typesWithPrivate (Shop.called "Shop") = .generated arts t ∧
      planComponent Shop.typesWithPrivate "shop" "Shop" = .ok Shop.plan ∧
      Shop.typesWithPrivate.lookup Shop.service = some e ∧ e.visibility = .private ∧
      Shop.service ∈ Shop.plan.factories.keys ∧ Shop.plan.Names Shop.service := by
  have hidentifier : Naming.isIdentifier "Shop" = true := by decide
  have hplan : planComponent Shop.types "shop" "Shop" = .ok Shop.plan := by decide +kernel
  have hfactory : ⟨Shop.service, [⟨"store", Shop.storeSource⟩], true⟩ ∈
      Shop.plan.factories.toList := by decide +kernel
  have hvisibility : (Shop.typesWithPrivate.lookup Shop.service).map Decl.visibility =
      some .private := by decide +kernel
  obtain ⟨e, he, hprivate⟩ := Option.map_eq_some_iff.mp hvisibility
  have hsame : generate Shop.typesWithPrivate (Shop.called "Shop") =
      generate Shop.types (Shop.called "Shop") := generate_withVisibility ..
  exact ⟨_, _, e, hsame.trans (Shop.generate_called hidentifier),
    (planComponent_withVisibility ..).trans hplan, he, hprivate, List.mem_map_of_mem hfactory,
    .factory hfactory⟩

end Wiring
