import Mathlib.Data.List.Nodup
import Mathlib.Data.List.Perm.Basic
import Wiring.Proofs.UsedModules

/-!
The order in which nodes are finished. Requests are met from left to right, and a node is finished
once, right after what it asks for: this is a traversal of the dependency graph in postorder
(`Completes`), which the catalog and the targets decide. The modules of a plan are those of the
providers in this order, each where it comes first (`resolve_usesInOrder`).
-/
namespace Wiring

open Resolution

namespace Node

def provider? : Node → Option Provider
  | provider p => some p
  | factory _ => none

theorem provider?_eq_some_iff {n : Node} {p : Provider} :
    n.provider? = some p ↔ n = .provider p := by
  cases n <;> simp [provider?]

end Node

namespace Catalog

/-- After the nodes of `done`, depth-first search from the types of a list finishes further nodes
and ends with the second list of nodes. -/
inductive Completes (c : Catalog) : List Node → List TypeRef → List Node → Prop
  | nil {done : List Node} : Completes c done [] done
  | again {done done' : List Node} {t : TypeRef} {ts : List TypeRef} {s : Supply}
      (hs : c.Answers t s) (hdone : s.node ∈ done) (h : Completes c done ts done') :
      Completes c done (t :: ts) done'
  | node {done inside done' : List Node} {t : TypeRef} {ts : List TypeRef} {s : Supply}
      (hs : c.Answers t s) (hnew : s.node ∉ done)
      (hinside : Completes c done s.node.requests inside)
      (h : Completes c (inside ++ [s.node]) ts done') : Completes c done (t :: ts) done'

variable {c : Catalog} {done done' done'' : List Node} {ts ts' : List TypeRef}

/-- The search finishes the nodes in a single order. -/
theorem Completes.unique (h : c.Completes done ts done') (h' : c.Completes done ts done'') :
    done' = done'' := by
  induction h generalizing done'' with
  | nil =>
    cases h'
    rfl
  | again hs hdone _ ih =>
    cases h' with
    | again _ _ h' => exact ih h'
    | node hs' hnew' _ _ =>
      cases hs.unique hs'
      exact absurd hdone hnew'
  | node hs hnew _ _ ihinside ih =>
    cases h' with
    | again hs' hdone' _ =>
      cases hs.unique hs'
      exact absurd hdone' hnew
    | node hs' _ hinside' h' =>
      cases hs.unique hs'
      cases ihinside hinside'
      exact ih h'

theorem Completes.append (h : c.Completes done ts done') (h' : c.Completes done' ts' done'') :
    c.Completes done (ts ++ ts') done'' := by
  induction h with
  | nil => exact h'
  | again hs hdone _ ih => exact .again hs hdone (ih h')
  | node hs hnew hinside _ _ ih => exact .node hs hnew hinside (ih h')

end Catalog

namespace Wired

variable {c : Catalog} {done : List Node} {w w' : Wired}

/-- The modules of the providers among some nodes, in the order in which they come first. -/
def firstUses (r : Registry) (done : List Node) : List ValueModule :=
  ((done.filterMap Node.provider?).map Provider.module).eraseDups.filterMap r.valueModule?

/-- The nodes of `done` are those that are finished in `w`, in the order in which they were. -/
structure Tracks (c : Catalog) (done : List Node) (w : Wired) : Prop where
  hasNode : ∀ n ∈ done, c.HasNode n
  finished : ∀ n, c.HasNode n → (n ∈ done ↔ w.isFallible? n ≠ none)
  nodup : done.Nodup
  modules : w.modules = firstUses c.registry done

theorem tracks_nothing (c : Catalog) : Tracks c [] {} where
  hasNode := nofun
  finished n _ := by cases n <;> simp [Wired.isFallible?]
  nodup := .nil
  modules := rfl

theorem Tracks.addBinding (h : Tracks c done w) (b : Option Binding) :
    Tracks c done (w.addBinding b) where
  hasNode := h.hasNode
  finished n hn := by simpa using h.finished n hn
  nodup := h.nodup
  modules := by simpa using h.modules

/-- A module is used where it comes first. If it is in use, a provider that is done has it, since
modules are found by their identity. -/
theorem modules_useModule {r : Registry} {p : Provider} (h : w.modules = firstUses r done) :
    (w.useModule r p.module).modules = firstUses r (done ++ [.provider p]) := by
  have happend : firstUses r (done ++ [.provider p]) = firstUses r done ++
      (if p.module ∈ (done.filterMap Node.provider?).map Provider.module then []
        else [p.module]).filterMap r.valueModule? := by
    simp [firstUses, Node.provider?, eraseDups_concat]
  have hused : ∀ v, r.valueModule? p.module = some v → (v ∈ firstUses r done ↔
      p.module ∈ (done.filterMap Node.provider?).map Provider.module) := by
    intro v hv
    rw [firstUses, List.mem_filterMap]
    simp only [List.mem_eraseDups]
    constructor
    · rintro ⟨i, hi, hfound⟩
      have hid : v.identity = i := Table.key_of_find? hfound
      have hid' : v.identity = p.module := Table.key_of_find? hv
      rwa [← hid', hid]
    · exact fun hi => ⟨p.module, hi, hv⟩
  rw [happend]
  unfold useModule
  split
  · next hnone =>
    rw [h]
    split <;> simp [hnone]
  · next v hv =>
    rw [h]
    by_cases hmem : p.module ∈ (done.filterMap Node.provider?).map Provider.module
    · simp [hmem, (hused v hv).mpr hmem, h]
    · have hnew : v ∉ firstUses r done := fun hv' => hmem ((hused v hv).mp hv')
      simp [hmem, hnew, hv]

theorem Tracks.finish {n : Node} (h : Tracks c done w) (hn : c.HasNode n)
    (hnew : w.isFallible? n = none) (sources : List Source) :
    Tracks c (done ++ [n]) (w.finish c.registry n sources) where
  hasNode := List.forall_mem_append.mpr ⟨h.hasNode, by simpa using hn⟩
  finished m hm := by
    rw [isFallible?_finish]
    split
    · next hsame => simp [hn.eq_of_identity hm hsame.2]
    · next hother =>
      have hne : m ≠ n := fun heq => hother (heq ▸ ⟨rfl, rfl⟩)
      simp [hne, h.finished m hm]
  nodup := by
    refine List.nodup_append.mpr ⟨h.nodup, List.pairwise_singleton _ _, ?_⟩
    rintro m hm m' hm' rfl
    rw [List.mem_singleton.mp hm'] at hm
    exact (h.finished n hn).mp hm hnew
  modules := by
    cases n with
    | provider p => exact modules_useModule h.modules
    | factory d =>
      have hnone : [Node.factory d].filterMap Node.provider? = [] := rfl
      have hmodules := h.modules
      simpa [firstUses, hnone, Wired.finish] using hmodules

end Wired

namespace Resolution

variable {c : Catalog}

/-- If every call of `wire` follows the search, so does meeting all demands. -/
theorem wireAll_completes {wire : Demand → Wired → Except Failure (Source × Wired)}
    {ds : List Demand} (hwire : ∀ d ∈ ds, ∀ done w x w', Wired.Tracks c done w →
      wire d w = .ok (x, w') → ∃ done', c.Completes done [d.type] done' ∧ Wired.Tracks c done' w')
    {done : List Node} {w w' : Wired} {xs : List Source} (hw : Wired.Tracks c done w)
    (h : wireAll wire ds w = .ok (xs, w')) :
    ∃ done', c.Completes done (ds.map Demand.type) done' ∧ Wired.Tracks c done' w' := by
  induction ds generalizing done w xs with
  | nil =>
    cases h
    exact ⟨done, .nil, hw⟩
  | cons d ds ih =>
    unfold wireAll at h
    split at h
    · cases h
    · next x w₁ hx =>
      split at h
      · cases h
      · next xs' w₂ hxs =>
        cases h
        obtain ⟨done₁, hfirst, hw₁⟩ := hwire d List.mem_cons_self done w x w₁ hw hx
        obtain ⟨done', hrest, hw'⟩ :=
          ih (fun d' hd' => hwire d' (List.mem_cons_of_mem d hd')) hw₁ hxs
        exact ⟨done', hfirst.append hrest, hw'⟩

/-- A successful call of `wire` follows depth-first search from its demand. -/
theorem wire_completes {room : Nat} {path : List Identity} {d : Demand} {done : List Node}
    {w w' : Wired} {x : Source} (hw : Wired.Tracks c done w)
    (h : wire c room path d w = .ok (x, w')) :
    ∃ done', c.Completes done [d.type] done' ∧ Wired.Tracks c done' w' := by
  induction room generalizing path d done w w' x with
  | zero =>
    obtain ⟨s, hs, ⟨f, hf, -, rfl⟩ | ⟨room', _, _, hroom, _⟩⟩ := wire_cases h
    · have hdone : s.node ∈ done := (hw.finished _ hs.hasNode).mpr (by simp [hf])
      exact ⟨done, .again hs hdone .nil, hw.addBinding s.binding⟩
    · cases hroom
  | succ room ih =>
    obtain ⟨s, hs, ⟨f, hf, -, rfl⟩ | ⟨room', sources, w₁, hroom, hnew, -, hall, -, rfl⟩⟩ :=
      wire_cases h
    · have hdone : s.node ∈ done := (hw.finished _ hs.hasNode).mpr (by simp [hf])
      exact ⟨done, .again hs hdone .nil, hw.addBinding s.binding⟩
    · cases hroom
      obtain ⟨inside, hinside, hw₁⟩ := wireAll_completes (fun d' _ done w x w' => ih)
        (hw.addBinding s.binding) hall
      rw [Node.map_type_demands] at hinside
      have hcalls : ∀ d' ∈ s.node.demands, ∀ w x w',
          wire c room (s.node.identity :: path) d' w = .ok (x, w') →
            Wired.Run c (s.node.identity :: path) (fun _ => True) w w' ∧ w'.Meets c d'.type x :=
        fun d' _ w x w' => wire_run (fun _ _ _ => trivial) trivial
      obtain ⟨hrun, -⟩ := wireAll_run hcalls hall
      have hnew' : w₁.isFallible? s.node = none :=
        hrun.unfinished List.mem_cons_self (by simpa using hnew)
      have hfresh : s.node ∉ done := fun hdone => (hw.finished _ hs.hasNode).mp hdone hnew
      exact ⟨inside ++ [s.node], .node hs hfresh hinside .nil, hw₁.finish hs.hasNode hnew' sources⟩

end Resolution

/-- The providers of the plan are finished in the order of the search, and its modules are theirs,
as the registry holds them, each where it comes first. -/
structure Plan.UsesInOrder (c : Catalog) (d : Definition) (p : Plan) (order : List Node) :
    Prop where
  completes : c.Completes [] d.requests order
  unique : ∀ order', c.Completes [] d.requests order' → order' = order
  planned : (order.filterMap Node.provider?).Perm
    (p.providers.toList.map PlannedProvider.provider)
  modules : p.modules.map some =
    ((order.filterMap Node.provider?).map Provider.module).eraseDups.map c.registry.valueModule?
  distinct : (p.modules.map ValueModule.identity).Nodup

theorem wirePlan_tracks {u : Universe} {d : Definition} {r : Registry} {p : Plan}
    (h : wirePlan u d r = .ok p) : ∃ order w xs, p = Wired.plan w d xs ∧
      Catalog.Completes ⟨u, r⟩ [] d.requests order ∧ Wired.Tracks ⟨u, r⟩ order w := by
  unfold wirePlan at h
  dsimp only at h
  split at h
  · cases h
  · next xs w hall =>
    cases h
    have htypes : (d.targets.map Target.demand).map Demand.type = d.requests := by
      simp [Definition.requests, Target.demand]
    obtain ⟨order, hcompletes, htracks⟩ :=
      wireAll_completes (fun d' _ done w x w' => wire_completes) (Wired.tracks_nothing ⟨u, r⟩) hall
    rw [htypes] at hcompletes
    exact ⟨order, w, xs, rfl, hcompletes, htracks⟩

namespace Wired

variable {c : Catalog} {asked : TypeRef → Prop} {w : Wired} {order : List Node}

/-- A plan holds all that has been wired. -/
theorem eq_of_plan_eq {w' : Wired} {d d' : Definition} {xs xs' : List Source}
    (h : w.plan d xs = w'.plan d' xs') : w = w' := by
  have hmodules : w.modules = w'.modules := congrArg Plan.modules h
  have hproviders : w.providers = w'.providers := congrArg Plan.providers h
  have hbindings : w.bindings = w'.bindings := congrArg Plan.bindings h
  have hfactories : w.factories = w'.factories := congrArg Plan.factories h
  cases w
  cases w'
  simp_all

/-- The tracked providers are the planned ones. -/
theorem Tracks.mem_providers (h : Tracks c order w) (hw : Sound c asked w) {q : Provider} :
    q ∈ order.filterMap Node.provider? ↔ q ∈ w.providers.toList.map PlannedProvider.provider := by
  have hnode : q ∈ order.filterMap Node.provider? ↔ .provider q ∈ order := by
    simp [List.mem_filterMap, Node.provider?_eq_some_iff]
  rw [hnode, List.mem_map]
  constructor
  · intro hmem
    have hq := h.hasNode _ hmem
    have hfinished := (h.finished _ hq).mp hmem
    obtain ⟨f, hf⟩ := Option.ne_none_iff_exists'.mp hfinished
    obtain ⟨e, he, -⟩ := Option.map_eq_some_iff.mp hf
    obtain ⟨hid, hfin⟩ := hw.provider he
    cases hfin.hasNode.eq_of_identity hq hid
    exact ⟨e, Table.mem_of_find? he, rfl⟩
  · rintro ⟨e, he, rfl⟩
    have hfin := hw.of_mem_providers he
    exact (h.finished _ hfin.hasNode).mpr (by simp [hfin.holds.isFallible?])

theorem Tracks.perm_providers (h : Tracks c order w) (hw : Sound c asked w) :
    (order.filterMap Node.provider?).Perm (w.providers.toList.map PlannedProvider.provider) := by
  have horder : (order.filterMap Node.provider?).Nodup := by
    refine List.Nodup.filterMap (fun n n' q hq hq' => ?_) h.nodup
    rw [Option.mem_def, Node.provider?_eq_some_iff] at hq hq'
    exact hq.trans hq'.symm
  have hplanned : (w.providers.toList.map PlannedProvider.provider).Nodup := by
    have hkeys :
        ((w.providers.toList.map PlannedProvider.provider).map Provider.provides).Nodup := by
      rw [List.map_map]
      exact w.providers.nodup_keys
    exact List.Nodup.of_map _ hkeys
  exact (List.perm_ext_iff_of_nodup horder hplanned).mpr fun q => h.mem_providers hw

/-- If the registry holds the modules of all providers, none is left out. -/
theorem Tracks.map_modules (h : Tracks c order w)
    (hr : ∀ i p, c.registry.provider? i = some p → p.module ∈ c.registry.valueModules.keys) :
    w.modules.map some = ((order.filterMap Node.provider?).map Provider.module).eraseDups.map
      c.registry.valueModule? := by
  rw [h.modules, firstUses, List.map_filterMap_some_eq_filter_map_isSome, List.filter_eq_self,
    List.forall_mem_map]
  intro i hi
  rw [List.mem_eraseDups, List.mem_map] at hi
  obtain ⟨q, hq, rfl⟩ := hi
  obtain ⟨n, hn, hnq⟩ := List.mem_filterMap.mp hq
  rw [Node.provider?_eq_some_iff] at hnq
  have hregistered := (hnq ▸ h.hasNode n hn).provider
  exact Option.isSome_iff_exists.mpr (Table.mem_keys_iff.mp (hr _ q hregistered))

end Wired

/-- The modules of a resolved plan, after discovery. -/
theorem resolve_usesInOrder {u : Universe} {d : Definition} {roots : List TypeRef} {r : Registry}
    {p : Plan} (hr : discover u roots = .ok r) (h : resolve u d r = .ok p) :
    ∃ order, p.UsesInOrder ⟨u, r⟩ d order := by
  obtain ⟨hwire, -⟩ := resolve_eq_ok_iff.mp h
  obtain ⟨order, w, xs, rfl, hcompletes, htracks⟩ := wirePlan_tracks hwire
  obtain ⟨w', xs', hplan, hrun, -⟩ := wirePlan_run hwire
  cases Wired.eq_of_plan_eq hplan
  have hdiscovered := Discovery.discover_discovered hr
  exact ⟨order, hcompletes, fun order' h' => h'.unique hcompletes,
    htracks.perm_providers (hrun.sound Wired.sound_nothing),
    htracks.map_modules hdiscovered.provider_module, (hrun.hosted_of_discover hr).nodup_identities⟩

end Wiring
