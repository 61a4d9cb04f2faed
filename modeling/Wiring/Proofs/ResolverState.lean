import Mathlib.Data.List.Nodup
import Wiring.Proofs.ResolverSteps
import Wiring.Proofs.Solvability

/-!
What the resolver remembers fits together at every moment. The nodes in progress are those of the
path, each of them once; a node has been resolved when the plan has an entry for it, and then with
the flag of the entry. What has been resolved stays as it is. Each update of the memory keeps this,
where the callers that wait say which node is innermost and which sources have been found; from the
updates it follows for a step, and for a run by induction.
-/
namespace Wiring

namespace Resolver

/-- A source names a node that has been resolved, with the flag of the node. -/
def Names (r : Resolver) (x : Source) : Prop :=
  r.visit? x.identity = some (.resolved x.isFallible) ∧
    r.plan.entry? x.kind x.identity = some x.isFallible

/-- The nodes in progress are those of the path, and the resolved ones those of the plan. -/
structure Coherent (r : Resolver) : Prop where
  inProgress : ∀ i, r.visit? i = some .inProgress ↔ i ∈ r.path
  nodup : r.path.Nodup
  resolved : ∀ i f, r.visit? i = some (.resolved f) ↔ ∃ kind, r.plan.entry? kind i = some f
  apart : ∀ i, r.plan.entry? .provider i = none ∨ r.plan.entry? .factory i = none
  params : ∀ e ∈ r.plan.providers.toList, ∀ x ∈ e.params, r.Names x
  fields : ∀ e ∈ r.plan.factories.toList, ∀ a ∈ e.fields, r.Names a.source

/-- What has been resolved stays as it is, and so do the entries of the plan. -/
structure Keeps (r r' : Resolver) : Prop where
  resolved : ∀ i f, r.visit? i = some (.resolved f) → r'.visit? i = some (.resolved f)
  provider : ∀ i e, r.plan.providers.find? i = some e → r'.plan.providers.find? i = some e
  factory : ∀ i e, r.plan.factories.find? i = some e → r'.plan.factories.find? i = some e
  binding : ∀ i b, r.plan.bindings.find? i = some b → r'.plan.bindings.find? i = some b
  modules : r.plan.modules <+: r'.plan.modules

/-- The sources that wait for others to be found. -/
def Caller.sources : Caller → List Source
  | targets xs _ => xs
  | node _ xs _ outer => xs ++ outer.sources
  | binding _ outer => outer.sources

def Control.sources : Control → List Source
  | request _ caller => caller.sources
  | answer x caller => x :: caller.sources
  | targets xs _ => xs
  | node _ xs _ outer => xs ++ outer.sources
  | failed _ caller => caller.sources

/-- The memory of the resolver is coherent, and belongs to its callers and to the catalog. -/
structure Config.Valid (c : Catalog) (s : Config) : Prop where
  coherent : s.resolver.Coherent
  path : s.resolver.path = (s.control.building.map Node.identity).reverse
  hasNode : ∀ n ∈ s.control.building, c.HasNode n
  planned : ∀ kind i f, s.resolver.plan.entry? kind i = some f →
    ∃ n, c.HasNode n ∧ n.kind = kind ∧ n.identity = i
  binding : ∀ i b, s.resolver.plan.bindings.find? i = some b → c.registry.binding? i = some b
  used : ∀ i v, c.registry.valueModule? i = some v →
    (i ∈ s.resolver.used ↔ v ∈ s.resolver.plan.modules)
  sources : ∀ x ∈ s.control.sources, s.resolver.Names x

section Keeps

variable {r r' r'' : Resolver} {x : Source}

theorem Keeps.refl (r : Resolver) : Keeps r r :=
  ⟨fun _ _ h => h, fun _ _ h => h, fun _ _ h => h, fun _ _ h => h, List.prefix_rfl⟩

theorem Keeps.trans (h : Keeps r r') (h' : Keeps r' r'') : Keeps r r'' where
  resolved i f hi := h'.resolved i f (h.resolved i f hi)
  provider i e he := h'.provider i e (h.provider i e he)
  factory i e he := h'.factory i e (h.factory i e he)
  binding i b hb := h'.binding i b (h.binding i b hb)
  modules := h.modules.trans h'.modules

theorem Keeps.entry? (h : Keeps r r') {kind : SourceKind} {i : Identity} {f : Bool}
    (he : r.plan.entry? kind i = some f) : r'.plan.entry? kind i = some f := by
  cases kind with
  | provider =>
    obtain ⟨e, hfind, hflag⟩ := Option.map_eq_some_iff.mp he
    exact Option.map_eq_some_iff.mpr ⟨e, h.provider i e hfind, hflag⟩
  | factory =>
    obtain ⟨e, hfind, hflag⟩ := Option.map_eq_some_iff.mp he
    exact Option.map_eq_some_iff.mpr ⟨e, h.factory i e hfind, hflag⟩

theorem Names.keeps (hx : r.Names x) (h : Keeps r r') : r'.Names x :=
  ⟨h.resolved _ _ hx.1, h.entry? hx.2⟩

end Keeps

section Updates

variable {r : Resolver} {i : Identity} {b : Binding} {registry : Registry} {n : Node}
  {xs : List Source}

/-- A node that has not been resolved is not in the plan. -/
theorem Coherent.entry?_eq_none (h : r.Coherent) (hi : ∀ f, r.visit? i ≠ some (.resolved f))
    (kind : SourceKind) : r.plan.entry? kind i = none := by
  cases he : r.plan.entry? kind i with
  | none => rfl
  | some f => exact absurd ((h.resolved i f).mpr ⟨kind, he⟩) (hi f)

theorem keeps_enter (hi : r.visit? i = none) : Keeps r (r.enter i) where
  resolved j f hj := by
    have hne : i ≠ j := by
      rintro rfl
      cases hi.symm.trans hj
    rwa [visit?_enter, if_neg hne]
  provider _ _ he := he
  factory _ _ he := he
  binding _ _ hb := hb
  modules := List.prefix_rfl

theorem keeps_note (r : Resolver) (b : Binding) : Keeps r (r.note b) where
  resolved j f hj := by rwa [visit?_note]
  provider j e he := by rwa [providers_note]
  factory j e he := by rwa [factories_note]
  binding j b' hb' := by rw [find?_bindings_note, hb', Option.some_or]
  modules := modules_note ▸ List.prefix_rfl

theorem find?_providers_finish {j : Identity} (hj : n.identity ≠ j) :
    (r.finish registry n xs).plan.providers.find? j = r.plan.providers.find? j := by
  cases n with
  | provider p =>
    have hne : p.provides ≠ j := hj
    simp [finish, record, leave, key, hne]
  | factory d => rfl

theorem find?_factories_finish {j : Identity} (hj : n.identity ≠ j) :
    (r.finish registry n xs).plan.factories.find? j = r.plan.factories.find? j := by
  cases n with
  | provider p => simp [finish, record, leave]
  | factory d =>
    have hne : d.identity ≠ j := hj
    simp [finish, record, leave, key, Factory.ofSources, hne]

theorem mem_providers_finish {e : PlannedProvider}
    (he : e ∈ (r.finish registry n xs).plan.providers.toList) :
    e ∈ r.plan.providers.toList ∨ e.params = xs := by
  cases n with
  | provider p =>
    simp only [finish, record, leave, providers_useModule, Table.mem_insert_iff] at he
    rcases he with rfl | ⟨he, -⟩
    · exact .inr rfl
    · exact .inl he
  | factory d => exact .inl he

theorem mem_factories_finish {e : Factory}
    (he : e ∈ (r.finish registry n xs).plan.factories.toList) :
    e ∈ r.plan.factories.toList ∨ ∀ a ∈ e.fields, a.source ∈ xs := by
  cases n with
  | provider p => exact .inl (by simpa [finish, record, leave] using he)
  | factory d =>
    simp only [finish, record, leave, Table.mem_insert_iff] at he
    rcases he with rfl | ⟨he, -⟩
    · refine .inr fun a ha => ?_
      obtain ⟨k, hk, rfl⟩ := List.mem_iff_getElem.mp ha
      simp only [Factory.ofSources, List.getElem_zipWith]
      exact List.getElem_mem _
    · exact .inl he

theorem prefix_modules_finish : r.plan.modules <+: (r.finish registry n xs).plan.modules := by
  cases n with
  | provider p =>
    simp only [finish, record, leave, useModule]
    split
    · exact List.prefix_rfl
    · exact List.prefix_append _ _
  | factory d => exact List.prefix_rfl

theorem Coherent.keeps_finish (h : r.Coherent) (hn : r.visit? n.identity = some .inProgress) :
    Keeps r (r.finish registry n xs) := by
  have hunresolved : ∀ f, r.visit? n.identity ≠ some (.resolved f) := by simp [hn]
  have hother : ∀ kind j f, r.plan.entry? kind j = some f → n.identity ≠ j := by
    rintro kind j f he rfl
    rw [h.entry?_eq_none hunresolved] at he
    cases he
  refine ⟨fun j f hj => ?_, fun j e he => ?_, fun j e he => ?_, fun j b hb => ?_,
    prefix_modules_finish⟩
  · obtain ⟨kind, he⟩ := (h.resolved j f).mp hj
    rwa [visit?_finish, if_neg (hother kind j f he)]
  · have hentry : r.plan.entry? .provider j = some e.isFallible := by simp [Wired.entry?, he]
    rwa [find?_providers_finish (hother _ _ _ hentry)]
  · have hentry : r.plan.entry? .factory j = some e.isFallible := by simp [Wired.entry?, he]
    rwa [find?_factories_finish (hother _ _ _ hentry)]
  · rwa [bindings_finish]

theorem Coherent.enter (h : r.Coherent) (hi : r.visit? i = none) : (r.enter i).Coherent where
  inProgress j := by
    rw [visit?_enter, path_enter, List.mem_append, List.mem_singleton, ← h.inProgress]
    by_cases hj : i = j
    · simp [hj]
    · simp [hj, Ne.symm hj]
  nodup := by
    have hnew : i ∉ r.path := by
      rw [← h.inProgress, hi]
      nofun
    exact List.nodup_append.mpr ⟨h.nodup, by simp, by
      rintro j hj _ hlast rfl
      exact hnew (List.mem_singleton.mp hlast ▸ hj)⟩
  resolved j f := by
    rw [visit?_enter, plan_enter, ← h.resolved]
    by_cases hj : i = j
    · subst hj
      simp [hi]
    · rw [if_neg hj]
  apart := h.apart
  params e he x hx := (h.params e he x hx).keeps (keeps_enter hi)
  fields e he a ha := (h.fields e he a ha).keeps (keeps_enter hi)

theorem Coherent.note (h : r.Coherent) (b : Binding) : (r.note b).Coherent where
  inProgress j := by rw [visit?_note, path_note, h.inProgress]
  nodup := by
    rw [path_note]
    exact h.nodup
  resolved j f := by simpa using h.resolved j f
  apart j := by simpa using h.apart j
  params e he x hx := (h.params e (providers_note ▸ he) x hx).keeps (keeps_note r b)
  fields e he a ha := (h.fields e (factories_note ▸ he) a ha).keeps (keeps_note r b)

/-- The innermost node leaves the path for the plan. -/
theorem Coherent.finish {outer : List Identity} (h : r.Coherent)
    (hpath : r.path = outer ++ [n.identity]) (hxs : ∀ x ∈ xs, r.Names x) :
    (r.finish registry n xs).Coherent := by
  have hn : r.visit? n.identity = some .inProgress := by simp [h.inProgress, hpath]
  have hkeeps : Keeps r (r.finish registry n xs) := h.keeps_finish hn
  have hnone := h.entry?_eq_none (i := n.identity) (by simp [hn])
  have hnodup := h.nodup
  rw [hpath] at hnodup
  obtain ⟨houter, -, hfresh⟩ := List.nodup_append.mp hnodup
  refine ⟨fun j => ?_, ?_, fun j f => ?_, fun j => ?_, fun e he x hx => ?_, fun e he a ha => ?_⟩
  · rw [path_finish, hpath, List.dropLast_concat, visit?_finish]
    by_cases hj : n.identity = j
    · subst hj
      have hnot : n.identity ∉ outer := fun hmem => hfresh _ hmem _ (List.mem_singleton_self _) rfl
      simp [hnot]
    · rw [if_neg hj, h.inProgress, hpath]
      simp [Ne.symm hj]
  · rw [path_finish, hpath, List.dropLast_concat]
    exact houter
  · simp only [visit?_finish, entry?_finish]
    by_cases hj : n.identity = j
    · subst hj
      simp only [if_true, and_true, Option.some.injEq, Visit.resolved.injEq, hnone]
      constructor
      · rintro rfl
        exact ⟨n.kind, by simp⟩
      · rintro ⟨kind, hkind⟩
        split at hkind
        · exact Option.some.inj hkind
        · cases hkind
    · simp [hj, h.resolved]
  · simp only [entry?_finish]
    by_cases hj : n.identity = j
    · subst hj
      cases hkind : n.kind <;> simp [hnone]
    · simpa [hj] using h.apart j
  · rcases mem_providers_finish he with he | rfl
    · exact (h.params e he x hx).keeps hkeeps
    · exact (hxs x hx).keeps hkeeps
  · rcases mem_factories_finish he with he | hfields
    · exact (h.fields e he a ha).keeps hkeeps
    · exact (hxs _ (hfields a ha)).keeps hkeeps

/-- A module is in use when it is in the plan. -/
theorem used_finish (h : ∀ i v, registry.valueModule? i = some v →
    (i ∈ r.used ↔ v ∈ r.plan.modules)) : ∀ i v, registry.valueModule? i = some v →
      (i ∈ (r.finish registry n xs).used ↔ v ∈ (r.finish registry n xs).plan.modules) := by
  intro i v hv
  cases n with
  | provider p =>
    simp only [Resolver.finish, record, leave, useModule]
    split
    · exact h i v hv
    · have hkey : registry.valueModule? p.module = some v ↔ i = p.module := by
        constructor
        · intro hp
          have hi : v.identity = i := Table.key_of_find? hv
          exact hi.symm.trans (Table.key_of_find? hp)
        · rintro rfl
          exact hv
      simp [h i v hv, hkey, or_comm]
  | factory d => exact h i v hv

end Updates

section Steps

variable {c : Catalog} {s s' : Config} {r : Resolver} {e : Event} {es : List Event}

/-- What has been resolved for the identity of a node is its own entry. -/
theorem Config.Valid.entry? {n : Node} {f : Bool} (h : s.Valid c) (hn : c.HasNode n)
    (hv : s.resolver.visit? n.identity = some (.resolved f)) :
    s.resolver.plan.entry? n.kind n.identity = some f := by
  obtain ⟨kind, he⟩ := (h.coherent.resolved _ f).mp hv
  obtain ⟨m, hm, rfl, hidentity⟩ := h.planned _ _ _ he
  cases hm.eq_of_identity hn hidentity
  exact he

theorem Config.Valid.of_control {control control' : Control} (h : Config.Valid c ⟨r, control⟩)
    (hbuilding : control'.building = control.building)
    (hsources : ∀ x ∈ control'.sources, r.Names x) : Config.Valid c ⟨r, control'⟩ where
  coherent := h.coherent
  path := by
    rw [hbuilding]
    exact h.path
  hasNode := by
    rw [hbuilding]
    exact h.hasNode
  planned := h.planned
  binding := h.binding
  used := h.used
  sources := hsources

theorem Config.Valid.build {q : Demand} {k : Caller} {n : Node}
    (h : Config.Valid c ⟨r, .request q k⟩) (hn : c.HasNode n)
    (hv : r.visit? n.identity = none) :
    Config.Valid c ⟨r.enter n.identity, .node n [] n.demands k⟩ where
  coherent := h.coherent.enter hv
  path := by
    have hpath : r.path = (k.building.map Node.identity).reverse := h.path
    simp [Control.building, hpath]
  hasNode := List.forall_mem_cons.mpr ⟨hn, h.hasNode⟩
  planned := h.planned
  binding := h.binding
  used := h.used
  sources x hx := (h.sources x hx).keeps (keeps_enter hv)

theorem Config.Valid.hop {q q' : Demand} {k : Caller} {b : Binding}
    (h : Config.Valid c ⟨r, .request q k⟩)
    (hb : c.registry.binding? b.interface = some b) :
    Config.Valid c ⟨r.note b, .request q' (.binding b k)⟩ where
  coherent := h.coherent.note b
  path := path_note.trans h.path
  hasNode := h.hasNode
  planned kind i f he := h.planned kind i f (entry?_note ▸ he)
  binding i b' hb' := by
    rw [find?_bindings_note, Option.or_eq_some_iff] at hb'
    rcases hb' with hb' | ⟨-, hb'⟩
    · exact h.binding i b' hb'
    · split at hb'
      · next hi =>
        cases hb'
        rwa [← hi]
      · cases hb'
  used i v hv := by
    rw [used_note, modules_note]
    exact h.used i v hv
  sources x hx := (h.sources x hx).keeps (keeps_note r b)

/-- The node that is being built is innermost on the path. -/
theorem Config.Valid.path_node {n : Node} {xs : List Source} {qs : List Demand} {k : Caller}
    (h : Config.Valid c ⟨r, .node n xs qs k⟩) :
    r.path = (k.building.map Node.identity).reverse ++ [n.identity] := by
  rw [h.path]
  simp [Control.building]

theorem Config.Valid.finish {n : Node} {xs : List Source} {k : Caller}
    (h : Config.Valid c ⟨r, .node n xs [] k⟩) : Config.Valid c
      ⟨r.finish c.registry n xs, .answer (Supply.source ⟨n, none⟩ (n.isFallible xs)) k⟩ := by
  have hpath := h.path_node
  have hn : r.visit? n.identity = some .inProgress := by simp [h.coherent.inProgress, hpath]
  have hkeeps : Keeps r (r.finish c.registry n xs) := h.coherent.keeps_finish hn
  have hxs : ∀ x ∈ xs, r.Names x := fun x hx => h.sources x (List.mem_append_left _ hx)
  refine ⟨h.coherent.finish hpath hxs, ?_, ?_, fun kind i f he => ?_, fun i b hb => ?_,
    used_finish h.used, fun x hx => ?_⟩
  · simp [hpath, Control.building]
  · exact (List.forall_mem_cons.mp h.hasNode).2
  · rw [entry?_finish] at he
    split at he
    · next hsame => exact ⟨n, h.hasNode n List.mem_cons_self, hsame⟩
    · exact h.planned kind i f he
  · exact h.binding i b (bindings_finish ▸ hb)
  · rcases List.mem_cons.mp hx with rfl | hx
    · exact ⟨by simp [Supply.source], by simp [Supply.source, entry?_finish]⟩
    · exact (h.sources x (List.mem_append_right _ hx)).keeps hkeeps

/-- A binding that a demand is passed through is the one of its interface. -/
theorem binding?_of_answer {shape : Shape} {b : Binding} (hb : c.answer shape = .binding b) :
    c.registry.binding? b.interface = some b := by
  obtain ⟨-, -, hbinding⟩ := Catalog.answer_eq_binding_iff.mp hb
  have hkey : b.interface = shape.identity := Table.key_of_find? hbinding
  rwa [hkey]

theorem Step.valid (h : Step c s e s') (hs : s.Valid c) : s'.Valid c := by
  cases h with
  | target => exact hs.of_control rfl hs.sources
  | input => exact hs.of_control rfl hs.sources
  | gap hg => exact hs.of_control rfl hs.sources
  | reuse hshape hn hv =>
    refine hs.of_control rfl (List.forall_mem_cons.mpr ⟨⟨hv, ?_⟩, hs.sources⟩)
    exact hs.entry? ⟨_, Catalog.answer_eq_node_iff.mp hn⟩ hv
  | cycle hshape hn hv => exact hs.of_control rfl hs.sources
  | build hshape hn hv => exact hs.build ⟨_, Catalog.answer_eq_node_iff.mp hn⟩ hv
  | hop hshape hb => exact hs.hop (binding?_of_answer hb)
  | finish => exact hs.finish
  | toTargets =>
    obtain ⟨hx, hxs⟩ := List.forall_mem_cons.mp hs.sources
    exact hs.of_control rfl (List.forall_mem_append.mpr ⟨hxs, List.forall_mem_singleton.mpr hx⟩)
  | toNode =>
    obtain ⟨hx, hxs⟩ := List.forall_mem_cons.mp hs.sources
    obtain ⟨hxs, hk⟩ := List.forall_mem_append.mp hxs
    refine hs.of_control rfl (List.forall_mem_append.mpr ⟨?_, hk⟩)
    exact List.forall_mem_append.mpr ⟨hxs, List.forall_mem_singleton.mpr hx⟩
  | toBinding =>
    obtain ⟨hx, hk⟩ := List.forall_mem_cons.mp hs.sources
    exact hs.of_control rfl (List.forall_mem_cons.mpr ⟨hx, hk⟩)

theorem Step.keeps (h : Step c s e s') (hs : s.Valid c) : Keeps s.resolver s'.resolver := by
  cases h with
  | build hshape hn hv => exact keeps_enter hv
  | hop hshape hb => exact keeps_note _ _
  | finish =>
    refine hs.coherent.keeps_finish ((hs.coherent.inProgress _).mpr ?_)
    simp [hs.path_node]
  | _ => exact .refl _

theorem Run.valid (h : Run c s es s') (hs : s.Valid c) : s'.Valid c := by
  induction h with
  | nil => exact hs
  | cons hstep _ ih => exact ih (hstep.valid hs)

theorem Run.keeps (h : Run c s es s') (hs : s.Valid c) : Keeps s.resolver s'.resolver := by
  induction h with
  | nil => exact .refl _
  | cons hstep _ ih => exact (hstep.keeps hs).trans (ih (hstep.valid hs))

theorem valid_start (c : Catalog) (d : Definition) : (Config.start d).Valid c where
  coherent := {
    inProgress _ := ⟨nofun, nofun⟩
    nodup := .nil
    resolved i f := ⟨nofun, fun ⟨kind, he⟩ => by cases kind <;> cases he⟩
    apart _ := .inl rfl
    params := nofun
    fields := nofun }
  path := rfl
  hasNode := nofun
  planned kind _ _ he := by cases kind <;> cases he
  binding := nofun
  used _ _ _ := ⟨nofun, nofun⟩
  sources := nofun

/-- There are no more nodes on the path than there can be. -/
theorem Config.Valid.length_building_le (h : s.Valid c) :
    s.control.building.length ≤ c.nodeCount := by
  have hnodup : (s.control.building.map Node.identity).Nodup := by
    rw [← List.nodup_reverse, ← h.path]
    exact h.coherent.nodup
  have hsub : s.control.building.map Node.identity ⊆ c.nodeIdentities := by
    intro i hi
    obtain ⟨n, hn, rfl⟩ := List.mem_map.mp hi
    exact (h.hasNode n hn).mem_nodeIdentities
  have hle := (hnodup.subperm hsub).length_le
  rwa [List.length_map, Catalog.length_nodeIdentities] at hle

end Steps

end Resolver

end Wiring
