import Mathlib.Algebra.Order.BigOperators.Group.List
import Mathlib.Algebra.Order.Ring.Nat
import Wiring.Proofs.ResolverOutcome

/-!
The resolver ends. The calls that wait and the nodes that have not been visited bound the steps that
are left: a node is visited when it is built, and can then no longer be built, so that what its
demands add to the calls is used up. A binding adds to them too, but a demand that it passes on is
for a reference, and no binding answers that. There is at most one step from a configuration; the
run that ends is therefore the only one, and all others are its beginnings.
-/
namespace Wiring

/-- All nodes there can be. -/
def Catalog.nodes (c : Catalog) : List Node :=
  c.registry.providers.toList.map .provider ++
    (c.types.decls.filter Decl.isInjectable).map .factory

theorem Catalog.HasNode.mem_nodes {c : Catalog} {n : Node} (h : c.HasNode n) : n ∈ c.nodes := by
  cases n with
  | provider p =>
    exact List.mem_append_left _ (List.mem_map_of_mem (Table.mem_of_find? h.provider))
  | factory d =>
    obtain ⟨-, hd, hinject⟩ := h.factory
    have hmem : d ∈ c.types.decls := Table.mem_of_find? hd
    exact List.mem_append_right _ (List.mem_map_of_mem (List.mem_filter.mpr ⟨hmem, hinject⟩))

namespace Resolver

/-- The node that a step starts to build. -/
def Event.built? : Event → Option Identity
  | build i => some i
  | _ => none

/-- How many steps a node can add when it is built. -/
def cost (n : Node) : Nat :=
  5 * n.demands.length + 1

/-- How many steps the nodes that have not been visited can add. -/
def unvisited (c : Catalog) (r : Resolver) : Nat :=
  (c.nodes.map fun n => if r.visit? n.identity = none then cost n else 0).sum

/-- A demand by value may be passed through a binding before it is met. -/
def demandWeight (q : Demand) : Nat :=
  if q.type.isPointer then 2 else 4

/-- How many steps a caller can take once it has been handed a source. -/
def Caller.weight : Caller → Nat
  | targets _ rest => 5 * rest.length + 2
  | node _ _ rest outer => 5 * rest.length + 2 + outer.weight
  | binding _ outer => 1 + outer.weight

/-- How many steps there can be before a node is built. -/
def Control.weight : Control → Nat
  | request q caller => demandWeight q + caller.weight
  | answer _ caller => 1 + caller.weight
  | targets _ rest => 5 * rest.length + 2
  | node _ _ rest outer => 5 * rest.length + 2 + outer.weight
  | failed _ _ => 0

/-- `k` is the caller, or waits for what comes of it. -/
inductive Caller.Awaits (k : Caller) : Caller → Prop
  | self : Awaits k k
  | node {n : Node} {xs : List Source} {qs : List Demand} {outer : Caller} (h : Awaits k outer) :
      Awaits k (.node n xs qs outer)
  | binding {b : Binding} {outer : Caller} (h : Awaits k outer) : Awaits k (.binding b outer)

/-- The call that `k` waits for has not come back. -/
inductive Control.Within (k : Caller) : Control → Prop
  | request {q : Demand} {caller : Caller} (h : k.Awaits caller) : Within k (.request q caller)
  | answer {x : Source} {caller : Caller} (h : k.Awaits caller) : Within k (.answer x caller)
  | node {n : Node} {xs : List Source} {qs : List Demand} {outer : Caller} (h : k.Awaits outer) :
      Within k (.node n xs qs outer)

/-- The call that `k` waits for has come back with a source, or resolution has failed. -/
def Control.Returned (k : Caller) : Control → Prop
  | answer _ caller => caller = k
  | failed _ _ => True
  | _ => False

/-- How many steps there can be from a configuration. -/
def Config.weight (c : Catalog) (s : Config) : Nat :=
  s.control.weight + s.resolver.unvisited c

/-- How many steps there can be for a definition. -/
def stepBound (c : Catalog) (d : Definition) : Nat :=
  5 * d.targets.length + 2 + (c.nodes.map cost).sum

section Unvisited

variable {c : Catalog} {r r' : Resolver} {n : Node}

private theorem share_le {i : Identity} {k : Nat}
    (h : r'.visit? i = none → r.visit? i = none) :
    (if r'.visit? i = none then k else 0) ≤ if r.visit? i = none then k else 0 := by
  by_cases hi : r'.visit? i = none
  · rw [if_pos hi, if_pos (h hi)]
  · rw [if_neg hi]
    exact Nat.zero_le _

theorem unvisited_le (h : ∀ i, r'.visit? i = none → r.visit? i = none) :
    r'.unvisited c ≤ r.unvisited c :=
  List.sum_le_sum fun _ _ => share_le (h _)

/-- The node that is visited takes its share with it. -/
theorem unvisited_add_le (hn : n ∈ c.nodes) (hnew : r.visit? n.identity = none)
    (hvisited : r'.visit? n.identity ≠ none)
    (h : ∀ i, r'.visit? i = none → r.visit? i = none) :
    r'.unvisited c + cost n ≤ r.unvisited c := by
  have hbefore : r.unvisited c = _ := (List.sum_map_erase _ hn).symm
  have hafter : r'.unvisited c = _ := (List.sum_map_erase _ hn).symm
  rw [if_pos hnew] at hbefore
  rw [if_neg hvisited, Nat.zero_add] at hafter
  have hothers : r'.unvisited c ≤ _ := hafter.trans_le (List.sum_le_sum fun _ _ => share_le (h _))
  omega

end Unvisited

section Steps

variable {c : Catalog} {s s' s'' : Config} {e e' : Event} {es es' : List Event}

/-- A node that has been visited stays so. -/
theorem Step.visited (h : Step c s e s') {i : Identity} (hi : s'.resolver.visit? i = none) :
    s.resolver.visit? i = none := by
  cases h with
  | build hshape hn hv =>
    rw [visit?_enter] at hi
    split at hi
    · cases hi
    · exact hi
  | hop hshape hb => rwa [visit?_note] at hi
  | finish =>
    rw [visit?_finish] at hi
    split at hi
    · cases hi
    · exact hi
  | _ => exact hi

/-- Only a node that has not been visited is built. -/
theorem Step.built (h : Step c s e s') {i : Identity} (he : e.built? = some i) :
    s.resolver.visit? i = none ∧ s'.resolver.visit? i ≠ none := by
  cases h with
  | build hshape hn hv =>
    obtain rfl := Option.some.inj he
    exact ⟨hv, by simp⟩
  | _ => cases he

/-- A type that a binding answers is asked for by value. -/
theorem isPointer_eq_false {q : Demand} {shape : Shape} {b : Binding}
    (hshape : q.type.shape = some shape) (hb : c.answer shape = .binding b) :
    q.type.isPointer = false := by
  obtain ⟨href, -, -⟩ := Catalog.answer_eq_binding_iff.mp hb
  have htype := TypeRef.shape_eq_some_iff.mp hshape
  rw [href] at htype
  simp [htype, TypeRef.isPointer]

theorem two_le_demandWeight (q : Demand) : 2 ≤ demandWeight q := by
  unfold demandWeight
  split <;> omega

theorem demandWeight_le_four (q : Demand) : demandWeight q ≤ 4 := by
  unfold demandWeight
  split <;> omega

/-- Between two builds the control gets lighter. -/
theorem Step.control_lt (h : Step c s e s') (he : e.built? = none) :
    s'.control.weight < s.control.weight := by
  cases h with
  | @target r xs q qs =>
    have hle := demandWeight_le_four q
    simp only [Control.weight, Caller.weight, List.length_cons]
    omega
  | @input r n xs q qs k =>
    have hle := demandWeight_le_four q
    simp only [Control.weight, Caller.weight, List.length_cons]
    omega
  | @gap r q k g hg =>
    have hge := two_le_demandWeight q
    simp only [Control.weight]
    omega
  | @reuse r q k shape n f hshape hn hv =>
    have hge := two_le_demandWeight q
    simp only [Control.weight]
    omega
  | @cycle r q k shape n hshape hn hv =>
    have hge := two_le_demandWeight q
    simp only [Control.weight]
    omega
  | build hshape hn hv => cases he
  | @hop r q k shape b hshape hb =>
    have hvalue : demandWeight q = 4 := by simp [demandWeight, isPointer_eq_false hshape hb]
    have hreference : demandWeight b.demand = 2 := rfl
    simp only [Control.weight, Caller.weight, hvalue, hreference]
    omega
  | _ =>
    simp only [Control.weight, Caller.weight, List.length_nil]
    omega

theorem Step.weight_lt (h : Step c s e s') : s'.weight c < s.weight c := by
  cases he : e.built? with
  | none =>
    have hcontrol := h.control_lt he
    have hunvisited : s'.resolver.unvisited c ≤ s.resolver.unvisited c :=
      unvisited_le fun _ => h.visited
    simp only [Config.weight]
    omega
  | some i =>
    have hvisited : ∀ i, s'.resolver.visit? i = none → s.resolver.visit? i = none :=
      fun _ => h.visited
    cases h with
    | @build r q k shape n hshape hn hv =>
      have hnode : n ∈ c.nodes :=
        Catalog.HasNode.mem_nodes ⟨shape, Catalog.answer_eq_node_iff.mp hn⟩
      have hused : (r.enter n.identity).unvisited c + cost n ≤ r.unvisited c :=
        unvisited_add_le hnode hv (by simp) hvisited
      have hge := two_le_demandWeight q
      simp only [Config.weight, Control.weight]
      simp only [cost] at hused
      omega
    | _ => cases he

theorem Run.weight_add_le (h : Run c s es s') : s'.weight c + es.length ≤ s.weight c := by
  induction h with
  | nil => exact Nat.le_refl _
  | cons hstep _ ih =>
    have hlt := hstep.weight_lt
    rw [List.length_cons]
    omega

theorem weight_start (c : Catalog) (d : Definition) :
    (Config.start d).weight c = stepBound c d := by
  have hfresh : unvisited c {} = (c.nodes.map cost).sum := rfl
  simp [Config.weight, Config.start, Control.weight, stepBound, hfresh]

/-- If the resolver can go on as long as `P` does not hold, it comes to where `P` holds. -/
theorem exists_run {I P : Config → Prop} (hopen : ∀ s, I s → ¬ P s → s.result? = none)
    (hstep : ∀ s e s', Step c s e s' → I s → ¬ P s → I s' ∨ P s') (s : Config) (hs : I s ∨ P s) :
    ∃ es s', Run c s es s' ∧ P s' := by
  induction hweight : s.weight c using Nat.strong_induction_on generalizing s with
  | h w ih =>
    by_cases hP : P s
    · exact ⟨[], s, .nil s, hP⟩
    · have hI : I s := hs.resolve_right hP
      obtain ⟨e, s', h⟩ := exists_step (c := c) (hopen s hI hP)
      have hlt : s'.weight c < w := hweight ▸ h.weight_lt
      obtain ⟨es, s'', hrun, hP'⟩ := ih _ hlt s' (hstep s e s' h hI hP) rfl
      exact ⟨e :: es, s'', .cons h hrun, hP'⟩

theorem exists_result (c : Catalog) (s : Config) :
    ∃ es s' y, Run c s es s' ∧ s'.result? = some y := by
  obtain ⟨es, s', hrun, hresult⟩ := exists_run (c := c) (I := fun _ => True)
    (P := fun s => s.result? ≠ none) (fun _ _ => not_not.mp) (fun _ _ _ _ _ _ => .inl trivial) s
    (.inl trivial)
  obtain ⟨y, hy⟩ := Option.ne_none_iff_exists'.mp hresult
  exact ⟨es, s', y, hrun, hy⟩

theorem not_step_of_result? {y : Except Failure (List Source × Wired)} (hy : s.result? = some y) :
    ¬ Step c s e s' := by
  intro h
  cases h <;> cases hy

/-- There is at most one step. -/
theorem Step.unique (h : Step c s e s') (h' : Step c s e' s'') : e = e' ∧ s' = s'' := by
  cases h with
  | gap hg => cases h' <;> simp_all [Catalog.gap?]
  | reuse hshape hn hv => cases h' <;> simp_all [Catalog.gap?]
  | cycle hshape hn hv => cases h' <;> simp_all [Catalog.gap?]
  | build hshape hn hv => cases h' <;> simp_all [Catalog.gap?]
  | hop hshape hb => cases h' <;> simp_all [Catalog.gap?]
  | _ =>
    cases h'
    exact ⟨rfl, rfl⟩

/-- Every run is a beginning of the one that leads to a result. -/
theorem Run.prefix_of_result {y : Except Failure (List Source × Wired)} (h : Run c s es s')
    (hy : s'.result? = some y) (h' : Run c s es' s'') : es' <+: es := by
  induction h generalizing es' s'' with
  | nil =>
    cases h' with
    | nil => exact List.prefix_rfl
    | cons hstep _ => exact absurd hstep (not_step_of_result? hy)
  | cons hstep _ ih =>
    cases h' with
    | nil => exact List.nil_prefix
    | cons hstep' hrun' =>
      obtain ⟨rfl, rfl⟩ := hstep.unique hstep'
      exact List.cons_prefix_cons.mpr ⟨rfl, ih hy hrun'⟩

/-- What a run builds has not been visited before it, and is built once. -/
theorem Run.nodup_built (h : Run c s es s') : (es.filterMap Event.built?).Nodup ∧
    ∀ i ∈ es.filterMap Event.built?, s.resolver.visit? i = none := by
  induction h with
  | nil => simp
  | @cons s s₁ s₂ e es hstep _ ih =>
    obtain ⟨hnodup, hnew⟩ := ih
    have hlater : ∀ i ∈ es.filterMap Event.built?, s.resolver.visit? i = none :=
      fun i hi => hstep.visited (hnew i hi)
    cases he : e.built? with
    | none =>
      rw [List.filterMap_cons_none he]
      exact ⟨hnodup, hlater⟩
    | some i =>
      obtain ⟨hi, hvisited⟩ := hstep.built he
      rw [List.filterMap_cons_some he]
      exact ⟨List.nodup_cons.mpr ⟨fun hmem => hvisited (hnew i hmem), hnodup⟩,
        List.forall_mem_cons.mpr ⟨hi, hlater⟩⟩

/-- A binding is not followed by a binding. -/
theorem Step.not_hop {b b' : Binding} (h : Step c s (.hop b) s') : ¬ Step c s' (.hop b') s'' := by
  intro h'
  cases h with
  | hop hshape hb =>
    cases h' with
    | hop hshape' hb' => cases isPointer_eq_false hshape' hb'

theorem Run.not_hop_hop (h : Run c s es s') (b b' : Binding) : ¬ [.hop b, .hop b'] <:+: es := by
  induction h with
  | nil => simp
  | cons hstep hrun ih =>
    rw [List.infix_cons_iff]
    rintro (hfront | hrest)
    · obtain ⟨rfl, hnext⟩ := List.cons_prefix_cons.mp hfront
      cases hrun with
      | nil => cases hnext.length_le
      | cons hstep' _ =>
        obtain ⟨rfl, -⟩ := List.cons_prefix_cons.mp hnext
        exact hstep.not_hop hstep'
    · exact ih hrest

/-- A call goes on until it comes back. -/
theorem Step.within {k : Caller} (h : Step c s e s') (hk : s.control.Within k)
    (hopen : ¬ s.control.Returned k) : s'.control.Within k ∨ s'.control.Returned k := by
  cases h with
  | gap hg => exact .inr trivial
  | cycle hshape hn hv => exact .inr trivial
  | reuse hshape hn hv =>
    cases hk with
    | request h => exact .inl (.answer h)
  | build hshape hn hv =>
    cases hk with
    | request h => exact .inl (.node h)
  | hop hshape hb =>
    cases hk with
    | request h => exact .inl (.request (.binding h))
  | input =>
    cases hk with
    | node h => exact .inl (.request (.node h))
  | finish =>
    cases hk with
    | node h => exact .inl (.answer h)
  | target => cases hk
  | toTargets =>
    cases hk with
    | answer h =>
      cases h with
      | self => exact absurd rfl hopen
  | toNode =>
    cases hk with
    | answer h =>
      cases h with
      | self => exact absurd rfl hopen
      | node h => exact .inl (.node h)
  | toBinding =>
    cases hk with
    | answer h =>
      cases h with
      | self => exact absurd rfl hopen
      | binding h => exact .inl (.answer h)

theorem Control.Within.result?_eq_none {k : Caller} (hk : s.control.Within k) :
    s.result? = none := by
  obtain ⟨r, control⟩ := s
  cases hk <;> rfl

/-- A call comes back unless resolution fails. -/
theorem exists_return (c : Catalog) {k : Caller} (s : Config) (hk : s.control.Within k) :
    ∃ es s', Run c s es s' ∧ s'.control.Returned k :=
  exists_run (fun _ hk _ => hk.result?_eq_none) (fun _ _ _ h hk hopen => h.within hk hopen) s
    (.inl hk)

end Steps

section Results

variable (u : Universe) (d : Definition) (r : Registry)

/-- The resolver ends, with the plan or the failure of `wirePlan`. It builds no node twice and
follows no binding right after another, its path never holds more nodes than are provided or
declared, and each of its calls comes back unless resolution fails. -/
theorem resolver_ends : ∃ es s y, Run ⟨u, r⟩ (.start d) es s ∧ s.result? = some y ∧
    wirePlan u d r = (fun z => z.2.plan d z.1) <$> y ∧ es.length ≤ stepBound ⟨u, r⟩ d ∧
      (es.filterMap Event.built?).Nodup ∧ (∀ b b', ¬ [.hop b, .hop b'] <:+: es) ∧
        ∀ es' s', Run ⟨u, r⟩ (.start d) es' s' → es' <+: es ∧
          s'.control.building.length ≤
            r.providers.keys.length + (u.decls.filter Decl.isInjectable).length ∧
          ∀ q k, s'.control = .request q k →
            ∃ es'' s'', Run ⟨u, r⟩ s' es'' s'' ∧ s''.control.Returned k := by
  obtain ⟨es, s, y, hrun, hy⟩ := exists_result ⟨u, r⟩ (.start d)
  have hweight := hrun.weight_add_le
  rw [weight_start] at hweight
  refine ⟨es, s, y, hrun, hy, hrun.wirePlan_eq hy, by omega, hrun.nodup_built.1,
    hrun.not_hop_hop, fun es' s' hrun' => ⟨hrun.prefix_of_result hy hrun', ?_, ?_⟩⟩
  · have hdepth := (hrun'.valid (valid_start _ d)).length_building_le
    simpa [Catalog.nodeCount, Table.size, Table.keys] using hdepth
  · intro q k hcall
    exact exists_return _ s' (hcall ▸ .request .self)

/-- At every moment until the resolver ends with what `wirePlan` says, its memory is coherent, a
node that is entered again while it is being built is found on the path, and what has been resolved
stays as it is; a call that comes back leaves the path as it was. -/
theorem resolver_coherent : ∃ es s y, Run ⟨u, r⟩ (.start d) es s ∧ s.result? = some y ∧
    wirePlan u d r = (fun z => z.2.plan d z.1) <$> y ∧
      ∀ es' s', Run ⟨u, r⟩ (.start d) es' s' → es' <+: es ∧ s'.resolver.Coherent ∧
        (∀ i, s'.resolver.visit? i = some .inProgress →
          ∃ k, s'.resolver.path.idxOf? i = some k) ∧
        ∀ es'' s'', Run ⟨u, r⟩ s' es'' s'' → Keeps s'.resolver s''.resolver ∧
          ∀ q x k, s'.control = .request q k → s''.control = .answer x k →
            s''.resolver.path = s'.resolver.path := by
  obtain ⟨es, s, y, hrun, hy⟩ := exists_result ⟨u, r⟩ (.start d)
  refine ⟨es, s, y, hrun, hy, hrun.wirePlan_eq hy, fun es' s' hrun' => ?_⟩
  have hvalid := hrun'.valid (valid_start _ d)
  refine ⟨hrun.prefix_of_result hy hrun', hvalid.coherent, fun i hi => ?_, fun es'' s'' hcall =>
    ⟨hcall.keeps hvalid, fun q x k hq hx => ?_⟩⟩
  · rw [hvalid.coherent.inProgress, ← List.isSome_idxOf?] at hi
    exact Option.isSome_iff_exists.mp hi
  · rw [hvalid.path, (hcall.valid hvalid).path, hq, hx]
    rfl

end Results

end Resolver

end Wiring
