import Wiring.Proofs.Calls
import Wiring.Proofs.Fallibility
import Wiring.Proofs.Layout

/-!
Errors are propagated where they can occur and nowhere else. The flags of a resolved plan agree
with each other (`Plan.Flagged`), and a routine reads its flag and those of its calls from the
same entries. Every call is therefore followed by a question mark exactly if its callee may
return an error, and a routine with such a call may return one itself.
-/
namespace Wiring

open Relation Naming Artifact

/-- The flag of the entry that a source names. -/
def Plan.flag? (p : Plan) (x : Source) : Option Bool :=
  p.read? x PlannedProvider.isFallible Factory.isFallible

/-- The flag of a source is that of its entry, and it is set exactly if the node of the source
is, or depends on, a provider of the plan that can fail by itself. -/
structure Plan.FlagExact (c : Catalog) (p : Plan) (x : Source) : Prop where
  entry : p.flag? x = some x.isFallible
  node : ∃ n, c.HasNode n ∧ x.kind = n.kind ∧ x.identity = n.identity ∧
    (x.isFallible = true ↔ ∃ e ∈ p.providers.toList, e.provider.isFallible = true ∧
      ReflTransGen c.Depends n (.provider e.provider))

/-- The flags of a plan agree. -/
structure Plan.Flagged (p : Plan) : Prop where
  source : ∀ x ∈ p.sources, p.flag? x = some x.isFallible
  provider : ∀ e ∈ p.providers.toList,
    e.isFallible = (e.provider.isFallible || e.params.any Source.isFallible)
  factory : ∀ f ∈ p.factories.toList,
    f.isFallible = (f.fields.map Assignment.source).any Source.isFallible
  target : ∀ z ∈ p.targets, z.source.isFallible = true → z.target.isFallible = true

/-- What is entered by a call. -/
inductive Entered where
  | routine (r : Routine)
  | method (q : Provider)

/-- What is entered may return an error: a routine by its header, and a method by the provider
that it was registered as. -/
def Entered.ReturnsResult : Entered → Prop
  | routine r => r.ReturnsResult
  | method q => q.isFallible = true

/-- What a call in the routine `r` of a plan enters. The wrapper of a provider calls the
method that provides the value. -/
inductive Plan.Enters (u : Universe) (component : String) (p : Plan) (r : Routine) :
    Callee → Entered → Prop
  | routine {callee : Callee} {r' : Routine} (h : p.routine? u component callee = some r') :
      Enters u component p r callee (.routine r')
  | method {e : PlannedProvider} (args : List String) (he : e ∈ p.providers.toList)
      (hr : r = .wrapper u e) :
      Enters u component p r (.method e.provider.module e.provider.method args)
        (.method e.provider)

/-- The routine `r` of a plan propagates the errors of its calls. -/
structure Plan.Threads (u : Universe) (component : String) (p : Plan) (r : Routine) :
    Prop where
  call : ∀ e ∈ r.exprs, ∀ callee, e.callee? = some callee →
    ∃ m, p.Enters u component r callee m ∧ (e.Propagates ↔ m.ReturnsResult)
  result : ∀ e ∈ r.exprs, e.Propagates → r.ReturnsResult
  success : r.last = .text "Ok(" :: r.value.pieces ++ [.text ")"] ↔ r.ReturnsResult
  value : r.last = r.value.pieces ↔ ¬ r.ReturnsResult

namespace Plan

variable {u : Universe} {component : String} {p : Plan} {r : Routine}

/-- The call for a source enters a routine that returns what the flag of the source says. -/
theorem Flagged.exists_routine (h : p.Flagged) {x : Source} (hx : x ∈ p.sources) :
    ∃ r, p.routine? u component x.callee = some r ∧
      (r.ReturnsResult ↔ x.isFallible = true) := by
  have hflag := h.source x hx
  unfold flag? read? at hflag
  unfold routine? Source.callee
  cases hkind : x.kind with
  | provider =>
    simp only [hkind] at hflag ⊢
    obtain ⟨e, he, hfail⟩ := Option.map_eq_some_iff.mp hflag
    refine ⟨Routine.wrapper u e, by rw [he]; rfl, ?_⟩
    rw [Routine.wrapper_returnsResult_iff, hfail]
  | factory =>
    simp only [hkind] at hflag ⊢
    obtain ⟨f, hf, hfail⟩ := Option.map_eq_some_iff.mp hflag
    refine ⟨Routine.factory component f, by rw [hf]; rfl, ?_⟩
    rw [Routine.factory_returnsResult_iff, hfail]

/-- The call for a source is propagated exactly if the routine that it enters may return an
error. -/
theorem Flagged.call_ofSource (h : p.Flagged) {x : Source} (hx : x ∈ p.sources)
    {receiver : String} {callee : Callee}
    (hcallee : (Expr.ofSource receiver x).callee? = some callee) :
    ∃ m, p.Enters u component r callee m ∧
      ((Expr.ofSource receiver x).Propagates ↔ m.ReturnsResult) := by
  have hroutine : ∃ r', p.routine? u component x.callee = some r' ∧
      (r'.ReturnsResult ↔ x.isFallible = true) := h.exists_routine hx
  obtain ⟨r', hr', hreturns⟩ := hroutine
  rw [Expr.ofSource_eq] at hcallee ⊢
  cases hcallee
  refine ⟨.routine r', .routine hr', ?_⟩
  rw [Expr.propagates_call_iff]
  exact hreturns.symm

/-- The last line of a routine follows its header. -/
theorem threads_of_calls (hr : r.ReturnsResult ↔ r.isFallible = true)
    (hcall : ∀ e ∈ r.exprs, ∀ callee, e.callee? = some callee →
      ∃ m, p.Enters u component r callee m ∧ (e.Propagates ↔ m.ReturnsResult))
    (hresult : ∀ e ∈ r.exprs, e.Propagates → r.isFallible = true) :
    p.Threads u component r where
  call := hcall
  result e he hprop := hr.mpr (hresult e he hprop)
  success := by rw [Routine.last_eq_success_iff, hr]
  value := by rw [Routine.last_eq_value_iff, hr, Bool.not_eq_true]

theorem Flagged.threads_accessor (h : p.Flagged) (visibility : String) {z : WiredTarget}
    (hz : z ∈ p.targets) : p.Threads u component (.accessor u visibility z) := by
  have hx : z.source ∈ p.sources := mem_sources_iff.mpr (.inl ⟨z, hz, rfl⟩)
  refine threads_of_calls (Routine.accessor_returnsResult_iff visibility z) ?_ ?_
  · intro e he callee hcallee
    rw [Routine.exprs_accessor, List.mem_singleton] at he
    subst he
    exact h.call_ofSource hx hcallee
  · intro e he hprop
    rw [Routine.exprs_accessor, List.mem_singleton] at he
    subst he
    rw [Expr.ofSource_eq, Expr.propagates_call_iff] at hprop
    exact h.target z hz hprop

theorem Flagged.threads_wrapper (h : p.Flagged) {e : PlannedProvider}
    (he : e ∈ p.providers.toList) : p.Threads u component (.wrapper u e) := by
  have hfallible : (Routine.wrapper u e).isFallible =
      (e.provider.isFallible || e.params.any Source.isFallible) := h.provider e he
  refine threads_of_calls (Routine.wrapper_returnsResult_iff e) ?_ ?_
  · intro e' he' callee hcallee
    rw [Routine.exprs_wrapper, List.mem_append, List.mem_map, List.mem_singleton] at he'
    rcases he' with ⟨x, hx, rfl⟩ | rfl
    · have hsource : x ∈ p.sources := mem_sources_iff.mpr (.inr (.inl ⟨e, he, hx⟩))
      exact h.call_ofSource hsource hcallee
    · cases hcallee
      exact ⟨.method e.provider, .method _ he rfl, Expr.propagates_call_iff⟩
  · intro e' he' hprop
    rw [Routine.exprs_wrapper, List.mem_append, List.mem_map, List.mem_singleton] at he'
    rw [hfallible, Bool.or_eq_true]
    rcases he' with ⟨x, hx, rfl⟩ | rfl
    · rw [Expr.ofSource_eq, Expr.propagates_call_iff] at hprop
      exact .inr (List.any_eq_true.mpr ⟨x, hx, hprop⟩)
    · rw [Expr.propagates_call_iff] at hprop
      exact .inl hprop

theorem Flagged.threads_factory (h : p.Flagged) {f : Factory} (hf : f ∈ p.factories.toList) :
    p.Threads u component (.factory component f) := by
  have hreturns : (Routine.factory component f).ReturnsResult ↔
      (Routine.factory component f).isFallible = true := by
    rw [Routine.factory_returnsResult_iff, Routine.factory_isFallible]
  refine threads_of_calls hreturns ?_ ?_
  · intro e he callee hcallee
    obtain ⟨a, ha, rfl⟩ := Routine.mem_exprs_factory he hcallee
    have hsource : a.source ∈ p.sources :=
      mem_sources_iff.mpr (.inr (.inr ⟨f, hf, a, ha, rfl⟩))
    exact h.call_ofSource hsource hcallee
  · intro e he hprop
    rw [Routine.factory_isFallible, h.factory f hf, List.any_eq_true]
    cases hprop with
    | call hmark =>
      obtain ⟨a, ha, hexpr⟩ := Routine.mem_exprs_factory he rfl
      have hprop := Expr.Propagates.call hmark
      rw [hexpr, Expr.ofSource_eq, Expr.propagates_call_iff] at hprop
      exact ⟨a.source, List.mem_map_of_mem ha, hprop⟩

/-- Every routine of an artifact propagates the errors of its calls. -/
theorem Flagged.threads (h : p.Flagged) {a : Artifact} {rs : List Routine}
    (hpart : p.Part u component a rs) (hr : r ∈ rs) : p.Threads u component r := by
  cases hpart with
  | component =>
    have haccessor : ∃ visibility, ∃ z ∈ p.targets, Routine.accessor u visibility z = r := by
      unfold placedAccessors accessors at hr
      split at hr
      · obtain ⟨z, hz, hzr⟩ := List.mem_map.mp hr
        exact ⟨_, z, hz, hzr⟩
      · obtain ⟨z, hz, hzr⟩ := List.mem_map.mp hr
        exact ⟨_, z, hz, hzr⟩
    obtain ⟨visibility, z, hz, rfl⟩ := haccessor
    exact h.threads_accessor visibility hz
  | factory hf =>
    obtain rfl := List.mem_singleton.mp hr
    exact h.threads_factory hf
  | wrapper he =>
    obtain rfl := List.mem_singleton.mp hr
    exact h.threads_wrapper he

end Plan

namespace Wired

variable {c : Catalog} {asked : TypeRef → Prop} {w : Wired} {d : Definition} {xs : List Source}

/-- The entry of a finished node has the flag of the node. -/
theorem Finished.flag? {s : Supply} {sources : List Source} {f : Bool}
    (h : Finished c asked w s.node sources) :
    (w.plan d xs).flag? (s.source f) = some (s.node.isFallible sources) := by
  rw [Plan.flag?, h.read?]
  cases s.node <;> rfl

namespace Complete

theorem flag?_eq (h : w.Complete c d xs) {x : Source} (hx : x ∈ (w.plan d xs).sources) :
    (w.plan d xs).flag? x = some x.isFallible := by
  obtain ⟨t, -, hmet⟩ := h.source_met hx
  obtain ⟨s, sources, -, hfin, rfl⟩ := h.sound.meets hmet
  exact hfin.flag?

theorem flagged (h : w.Complete c d xs) (hchain : (w.plan d xs).fallibleChain? = none) :
    (w.plan d xs).Flagged where
  source _ hx := h.flag?_eq hx
  provider := by
    intro e he
    have hholds : w.providers.find? e.provider.provides = some _ :=
      (h.sound.of_mem_providers he).holds
    have hfind : w.providers.find? e.provider.provides = some e :=
      Table.find?_eq_some_iff.mpr ⟨he, rfl⟩
    rw [hfind] at hholds
    exact congrArg PlannedProvider.isFallible (Option.some.inj hholds)
  factory := by
    intro f hf
    obtain ⟨e, sources, hfin, rfl⟩ := h.sound.of_mem_factories hf
    rw [hfin.map_source]
    rfl
  target := by
    intro z hz hfail
    by_contra htarget
    have hsource := h.fallibleChain?_eq_none_iff.mp hchain z hz (by simpa using htarget)
    rw [hfail] at hsource
    cases hsource

/-- A needed node may fail exactly if it is, or depends on, a provider of the plan that can
fail by itself. -/
theorem mayFail_iff (h : w.Complete c d xs) {n : Node} (hn : c.Reached d.requests n) :
    c.MayFail n ↔ ∃ e ∈ (w.plan d xs).providers.toList, e.provider.isFallible = true ∧
      ReflTransGen c.Depends n (.provider e.provider) := by
  constructor
  · intro hmay
    obtain ⟨q, hq, hfail⟩ := hmay
    obtain ⟨sources, hfin⟩ := h.reached_finished (hn.trans hq)
    have hentry := Table.mem_of_find? hfin.holds
    exact ⟨_, hentry, hfail, hq⟩
  · intro horigin
    obtain ⟨e, -, hfail, hq⟩ := horigin
    exact ⟨e.provider, hq, hfail⟩

theorem flagExact (h : w.Complete c d xs) {x : Source} (hx : x ∈ (w.plan d xs).sources) :
    (w.plan d xs).FlagExact c x where
  entry := h.flag?_eq hx
  node := by
    obtain ⟨t, ht, hmet⟩ := h.source_met hx
    obtain ⟨s, sources, hs, hfin, rfl⟩ := h.sound.meets hmet
    refine ⟨s.node, hs.hasNode, rfl, rfl, ?_⟩
    have hreached : c.Reached d.requests s.node := ⟨t, s.binding, ht, hs⟩
    rw [← h.mayFail_iff hreached]
    exact h.sound.isFallible_iff hfin

end Complete

end Wired

/-- The flags of a resolved plan say what may fail, and every artifact that is made from it
propagates errors accordingly. -/
theorem resolve_fallibility {u : Universe} {d : Definition} {r : Registry} {p : Plan}
    (h : resolve u d r = .ok p) :
    (∀ x ∈ p.sources, p.FlagExact ⟨u, r⟩ x) ∧
      ∀ component arts, emit u component p = .ok arts → ∀ a ∈ arts.toList,
        (∃ names, a = ⟨rootName, rootText names component d.identity⟩) ∨
          ∃ rs ls uses, p.Part u component a rs ∧ LaidOut ls rs ∧
            a.text = (Sheet.ofLines ls).finish uses ∧ ∀ r ∈ rs, p.Threads u component r := by
  obtain ⟨hwire, hchain⟩ := resolve_eq_ok_iff.mp h
  obtain ⟨w, xs, rfl, hcomplete⟩ := wirePlan_complete hwire
  refine ⟨fun x hx => hcomplete.flagExact hx, fun component arts harts a ha => ?_⟩
  have hflagged := hcomplete.flagged hchain
  obtain ⟨hcomponent, -, -⟩ := emit_eq_ok harts
  rcases emit_part harts ha with hroot | ⟨rs, hpart⟩
  · exact .inl hroot
  · obtain ⟨ls, uses, htext, hlaid⟩ := hpart.laidOut hcomponent
    exact .inr ⟨rs, ls, uses, hpart, hlaid, htext, fun r hr => hflagged.threads hpart hr⟩

theorem shop_fallibility : resolve Shop.types Shop.definition Shop.registry = .ok Shop.plan ∧
    emit Shop.types "Shop" Shop.plan = .ok (ofPlan Shop.types "Shop" Shop.plan) ∧
      Shop.plan.FlagExact ⟨Shop.types, Shop.registry⟩ Shop.storeSource ∧
        ∀ a ∈ (ofPlan Shop.types "Shop" Shop.plan).toList,
          (∃ names, a = ⟨rootName, rootText names "Shop" Shop.shop⟩) ∨
            ∃ rs, Shop.plan.Part Shop.types "Shop" a rs ∧
              ∀ r ∈ rs, Shop.plan.Threads Shop.types "Shop" r := by
  have hplan : resolve Shop.types Shop.definition Shop.registry = .ok Shop.plan := by
    decide +kernel
  have hemit : emit Shop.types "Shop" Shop.plan = .ok (ofPlan Shop.types "Shop" Shop.plan) := by
    decide +kernel
  obtain ⟨hflags, hartifacts⟩ := resolve_fallibility hplan
  refine ⟨hplan, hemit, hflags Shop.storeSource (by decide +kernel), fun a ha => ?_⟩
  refine (hartifacts "Shop" _ hemit a ha).imp_right ?_
  intro hartifact
  obtain ⟨rs, _, _, hpart, -, -, hthreads⟩ := hartifact
  exact ⟨rs, hpart, hthreads⟩

end Wiring
