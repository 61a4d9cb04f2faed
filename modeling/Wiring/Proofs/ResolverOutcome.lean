import Wiring.Proofs.FailureChains
import Wiring.Proofs.ResolverState

/-!
The resolver computes the plan of `wirePlan`. The outcome of a configuration is what its callers come
to when the demand in hand is met by `wire`, with the room that the nodes that are being built leave.
No step changes the outcome, and when there are no more steps it is the result. Where the resolver
consults its memory, `wire` consults the plan and its path: a step does the same in both because the
memory is coherent.
-/
namespace Wiring

open Resolution

namespace Resolution

variable {c : Catalog} {room : Nat} {path : List Identity} {q : Demand} {w : Wired} {s : Shape}
  {n : Node} {b : Binding}

theorem wire_gap {g : Gap} (hg : c.supply q = .error g) :
    wire c room path q w = .error (g.failure path.reverse) := by
  rw [wire, hg]

theorem wire_cycle {b? : Option Binding} (hs : c.supply q = .ok ⟨n, b?⟩)
    (hf : w.isFallible? n = none) (hstop : n.identity ∈ path ∨ room = 0) :
    wire c room path q w = .error (.cyclic (cycle path n.identity)) := by
  rw [wire, hs]
  simp only [Wired.isFallible?_addBinding, hf]
  rcases hstop with hpath | rfl
  · rw [if_pos hpath]
  · simp

/-- A node is built inside the nodes of the path, if there is room. -/
theorem wire_build {b? : Option Binding} (hs : c.supply q = .ok ⟨n, b?⟩)
    (hf : w.isFallible? n = none) (hpath : n.identity ∉ path) : wire c (room + 1) path q w =
      (fun y => (Supply.source ⟨n, b?⟩ (n.isFallible y.1), y.2.finish c.registry n y.1)) <$>
        wireAll (wire c room (n.identity :: path)) n.demands (w.addBinding b?) := by
  rw [wire, hs]
  simp only [Wired.isFallible?_addBinding, hf, if_neg hpath]
  split <;> simp_all

/-- What a binding passes on is met like any other demand, and the source is cast. -/
theorem wire_binding (hs : q.type.shape = some s) (hb : c.answer s = .binding b) :
    wire c room path q w = (fun y => ({ y.1 with cast := some b.interface }, y.2)) <$>
      wire c room path b.demand (w.addBinding (some b)) := by
  have hq : c.supply q = c.supplyBound b := by simp [Catalog.supply, hs, hb]
  have hshape : b.demand.type.shape = some ⟨b.implementation, true⟩ := rfl
  cases hanswer : c.answer ⟨b.implementation, true⟩ with
  | binding b' => exact absurd hanswer (c.answer_reference_ne_binding _ b')
  | mismatch t =>
    rw [wire_gap (g := .mismatch b.demand t) (by simp [hq, Catalog.supplyBound, hanswer]),
      wire_gap (g := .mismatch b.demand t) (by simp [Catalog.supply, hshape, hanswer])]
    rfl
  | nothing =>
    rw [wire_gap (g := .nothing b.demand) (by simp [hq, Catalog.supplyBound, hanswer]),
      wire_gap (g := .nothing b.demand) (by simp [Catalog.supply, hshape, hanswer])]
    rfl
  | node n =>
    have hsupply : c.supply q = .ok ⟨n, some b⟩ := by simp [hq, Catalog.supplyBound, hanswer]
    have hdirect : c.supply b.demand = .ok ⟨n, none⟩ := by
      simp [Catalog.supply, hshape, hanswer]
    cases hf : w.isFallible? n with
    | some f =>
      rw [wire_finished (Catalog.supply_eq_ok_iff.mp hsupply) hf,
        wire_finished (Catalog.supply_eq_ok_iff.mp hdirect) (by simpa using hf)]
      rfl
    | none =>
      have hf' : (w.addBinding (some b)).isFallible? n = none := by simpa using hf
      by_cases hstop : n.identity ∈ path ∨ room = 0
      · rw [wire_cycle hsupply hf hstop, wire_cycle hdirect hf' hstop]
        rfl
      · obtain ⟨hpath, hroom⟩ := not_or.mp hstop
        obtain ⟨room, rfl⟩ := Nat.exists_eq_succ_of_ne_zero hroom
        have hnone : (w.addBinding (some b)).addBinding none = w.addBinding (some b) := rfl
        rw [wire_build hsupply hf hpath, wire_build hdirect hf' hpath, hnone]
        cases wireAll (wire c room (n.identity :: path)) n.demands (w.addBinding (some b)) <;> rfl

end Resolution

namespace Resolver

/-- What `wire` says about a demand while the nodes of `ns` are being built, innermost first. -/
def meet (c : Catalog) (ns : List Node) (q : Demand) (w : Wired) :
    Except Failure (Source × Wired) :=
  wire c (c.nodeCount - ns.length) (ns.map Node.identity) q w

/-- What becomes of further demands when those before them are met by `xs`. -/
def gather (c : Catalog) (ns : List Node) (xs : List Source) (qs : List Demand) (w : Wired) :
    Except Failure (List Source × Wired) :=
  (fun y => (xs ++ y.1, y.2)) <$> wireAll (meet c ns) qs w

/-- A node whose demands are met, and the plan with it. -/
def built (c : Catalog) (n : Node) (y : List Source × Wired) : Source × Wired :=
  (Supply.source ⟨n, none⟩ (n.isFallible y.1), y.2.finish c.registry n y.1)

/-- What a caller comes to with the source that it waits for. -/
def Caller.resume (c : Catalog) (y : Source × Wired) : Caller →
    Except Failure (List Source × Wired)
  | targets xs qs => gather c [] (xs ++ [y.1]) qs y.2
  | node n xs qs outer => do
    let z ← gather c (n :: outer.building) (xs ++ [y.1]) qs y.2
    outer.resume c (built c n z)
  | binding b outer => outer.resume c ({ y.1 with cast := some b.interface }, y.2)

/-- The sources of the targets and what is wired for them in the end, or the failure. -/
def Config.outcome (c : Catalog) : Config → Except Failure (List Source × Wired)
  | ⟨r, .request q k⟩ => do
    let y ← meet c k.building q r.plan
    k.resume c y
  | ⟨r, .answer x k⟩ => k.resume c (x, r.plan)
  | ⟨r, .targets xs qs⟩ => gather c [] xs qs r.plan
  | ⟨r, .node n xs qs k⟩ => do
    let y ← gather c (n :: k.building) xs qs r.plan
    k.resume c (built c n y)
  | ⟨_, .failed e _⟩ => .error e

section Meet

variable {c : Catalog} {ns : List Node} {q : Demand} {w : Wired} {xs : List Source}
  {qs : List Demand}

theorem gather_nil : gather c ns xs [] w = .ok (xs, w) := by
  simp [gather, wireAll]

theorem gather_cons : gather c ns xs (q :: qs) w =
    meet c ns q w >>= fun y => gather c ns (xs ++ [y.1]) qs y.2 := by
  simp only [gather, wireAll]
  cases meet c ns q w with
  | error e => rfl
  | ok y =>
    change _ = (fun z => (xs ++ [y.1] ++ z.1, z.2)) <$> wireAll (meet c ns) qs y.2
    dsimp only
    cases wireAll (meet c ns) qs y.2 <;> simp

/-- The room that is left for the demands of a node is what `wire` has for them. -/
theorem meet_build {n : Node} (hs : c.supply q = .ok ⟨n, none⟩) (hf : w.isFallible? n = none)
    (hpath : n.identity ∉ ns.map Node.identity) (hroom : ns.length < c.nodeCount) :
    meet c ns q w = built c n <$> gather c (n :: ns) [] n.demands w := by
  obtain ⟨room, hcount⟩ := Nat.exists_eq_add_of_lt hroom
  have houter : c.nodeCount - ns.length = room + 1 := by omega
  have hinner : meet c (n :: ns) = wire c room (n.identity :: ns.map Node.identity) := by
    have hlength : c.nodeCount - (n :: ns).length = room := by
      rw [List.length_cons]
      omega
    funext q w
    rw [meet, hlength, List.map_cons]
  rw [meet, houter, wire_build hs hf hpath, gather, hinner, Functor.map_map]
  rfl

end Meet

section Memory

variable {c : Catalog} {r : Resolver} {ns : List Node} {n : Node} {b : Binding} {xs : List Source}

theorem isFallible?_eq_flag (w : Wired) (n : Node) :
    w.isFallible? n = w.entry? n.kind n.identity := by
  cases n <;> rfl

/-- A noted binding may be noted again, because it is the only one for its interface. -/
theorem plan_note (h : ∀ i b, r.plan.bindings.find? i = some b → c.registry.binding? i = some b)
    (hb : c.registry.binding? b.interface = some b) :
    (r.note b).plan = r.plan.addBinding (some b) := by
  unfold note
  split
  · next hnoted =>
    obtain ⟨b', hb'⟩ := Option.isSome_iff_exists.mp hnoted
    obtain rfl : b = b' := Option.some.inj (hb.symm.trans (h _ _ hb'))
    have hsame : r.plan.bindings.insert b = r.plan.bindings := by
      refine Table.ext_find? fun i => ?_
      rw [Table.find?_insert]
      split
      · next hi => exact hi ▸ hb'.symm
      · rfl
    simp only [Wired.addBinding, hsame]
  · rfl

/-- A module is in use when it is in the plan, so that either can be asked. -/
theorem plan_useModule {registry : Registry} {i : Identity}
    (h : ∀ v, registry.valueModule? i = some v → (i ∈ r.used ↔ v ∈ r.plan.modules)) :
    (r.useModule registry i).plan = r.plan.useModule registry i := by
  unfold useModule Wired.useModule
  cases hv : registry.valueModule? i with
  | none =>
    dsimp only
    split <;> simp
  | some v =>
    simp only [h v hv]
    split <;> simp

theorem plan_finish (h : ∀ i v, c.registry.valueModule? i = some v →
    (i ∈ r.used ↔ v ∈ r.plan.modules)) :
    (r.finish c.registry n xs).plan = r.plan.finish c.registry n xs := by
  cases n with
  | provider p => simp only [finish, record, leave, Wired.finish, plan_useModule (h p.module)]
  | factory d => rfl

theorem closing_eq (hpath : r.path = (ns.map Node.identity).reverse) (hnodup : r.path.Nodup)
    (hn : n.identity ∈ r.path) :
    r.closing n.identity = cycle (ns.map Node.identity) n.identity := by
  rw [hpath, List.mem_reverse] at hn
  obtain ⟨m, hm, hidentity⟩ := List.mem_map.mp hn
  obtain ⟨inner, outer, rfl⟩ := List.append_of_mem hm
  rw [hpath, List.nodup_reverse] at hnodup
  rw [← hidentity, Catalog.cycle_eq hnodup]
  have hsplit : r.path = (outer.map Node.identity).reverse ++
      m.identity :: (inner.map Node.identity).reverse := by simp [hpath]
  have hfresh : m.identity ∉ (outer.map Node.identity).reverse := by
    rw [List.map_append, List.map_cons] at hnodup
    rw [List.mem_reverse]
    exact (List.nodup_cons.mp (List.nodup_append.mp hnodup).2.1).1
  have hposition : r.path.idxOf? m.identity = some outer.length := by
    have houter : ((outer.map Node.identity).reverse).findIdx? (· == m.identity) = none :=
      List.idxOf?_eq_none_iff.mpr hfresh
    rw [hsplit, List.idxOf?, List.findIdx?_append, houter]
    simp [List.findIdx?_cons]
  rw [closing, hposition, hsplit]
  simp

end Memory

section Steps

variable {c : Catalog} {s s' : Config} {e : Event} {es : List Event}

/-- A node that has not been resolved is not finished. -/
theorem Config.Valid.isFallible?_eq_none {n : Node} (h : s.Valid c)
    (hn : ∀ f, s.resolver.visit? n.identity ≠ some (.resolved f)) :
    s.resolver.plan.isFallible? n = none := by
  rw [isFallible?_eq_flag, h.coherent.entry?_eq_none hn]

/-- The callers know which nodes are in progress. -/
theorem Config.Valid.mem_building {i : Identity} (h : s.Valid c) :
    i ∈ s.control.building.map Node.identity ↔ s.resolver.visit? i = some .inProgress := by
  rw [h.coherent.inProgress, h.path, List.mem_reverse]

theorem supply_of_answer {q : Demand} {shape : Shape} {n : Node}
    (hshape : q.type.shape = some shape) (hn : c.answer shape = .node n) :
    c.supply q = .ok ⟨n, none⟩ := by
  simp [Catalog.supply, hshape, hn]

theorem supply_of_gap? {q : Demand} {g : Gap} (hg : c.gap? q = some g) :
    c.supply q = .error g := by
  unfold Catalog.gap? at hg
  unfold Catalog.supply
  cases hshape : q.type.shape with
  | none => simp_all
  | some shape => cases hanswer : c.answer shape <;> simp_all

theorem Step.outcome_eq (h : Step c s e s') (hs : s.Valid c) : s.outcome c = s'.outcome c := by
  cases h with
  | target => exact gather_cons
  | input =>
    simp only [Config.outcome, gather_cons, bind_assoc]
    rfl
  | @gap r q k g hg =>
    have hpath : r.path = (k.building.map Node.identity).reverse := hs.path
    simp only [Config.outcome, meet, wire_gap (supply_of_gap? hg), hpath]
    rfl
  | @reuse r q k shape n f hshape hn hv =>
    have hnode : c.HasNode n := ⟨shape, Catalog.answer_eq_node_iff.mp hn⟩
    have hf : r.plan.isFallible? n = some f := isFallible?_eq_flag _ n ▸ hs.entry? hnode hv
    have hsupply := Catalog.supply_eq_ok_iff.mp (supply_of_answer hshape hn)
    simp only [Config.outcome, meet, wire_finished hsupply hf]
    rfl
  | @cycle r q k shape n hshape hn hv =>
    have hf : r.plan.isFallible? n = none := hs.isFallible?_eq_none (by simp [hv])
    have hpath : n.identity ∈ k.building.map Node.identity := hs.mem_building.mpr hv
    have hclosing : r.closing n.identity = _ := closing_eq hs.path hs.coherent.nodup
      ((hs.coherent.inProgress _).mp hv)
    simp only [Config.outcome, meet, wire_cycle (supply_of_answer hshape hn) hf (.inl hpath),
      hclosing]
    rfl
  | @build r q k shape n hshape hn hv =>
    have hf : r.plan.isFallible? n = none := hs.isFallible?_eq_none (by simp [hv])
    have hpath : n.identity ∉ k.building.map Node.identity := by
      intro hmem
      cases hv.symm.trans (hs.mem_building.mp hmem)
    have hroom : k.building.length < c.nodeCount :=
      (hs.build ⟨shape, Catalog.answer_eq_node_iff.mp hn⟩ hv).length_building_le
    simp only [Config.outcome, meet_build (supply_of_answer hshape hn) hf hpath hroom,
      bind_map_left]
    rfl
  | @hop r q k shape b hshape hb =>
    have hplan : (r.note b).plan = _ := plan_note hs.binding (binding?_of_answer hb)
    simp only [Config.outcome, meet, wire_binding hshape hb, hplan, bind_map_left]
    rfl
  | @finish r n xs k =>
    have hplan : (r.finish c.registry n xs).plan = _ := plan_finish hs.used
    simp only [Config.outcome, gather_nil, hplan]
    rfl
  | toTargets => rfl
  | toNode => rfl
  | toBinding => rfl

theorem Run.outcome_eq (h : Run c s es s') (hs : s.Valid c) : s.outcome c = s'.outcome c := by
  induction h with
  | nil => rfl
  | cons hstep _ ih => exact (hstep.outcome_eq hs).trans (ih (hstep.valid hs))

theorem outcome_of_result? {y : Except Failure (List Source × Wired)} (h : s.result? = some y) :
    s.outcome c = y := by
  unfold Config.result? at h
  split at h <;> cases h
  · exact gather_nil
  · rfl

/-- Whatever steps the resolver has taken to its result, it is what `wirePlan` comes to. -/
theorem Run.wirePlan_eq {u : Universe} {d : Definition} {r : Registry}
    {y : Except Failure (List Source × Wired)} (h : Run ⟨u, r⟩ (.start d) es s)
    (hy : s.result? = some y) : wirePlan u d r = (fun z => z.2.plan d z.1) <$> y := by
  have hstart : (Config.start d).outcome ⟨u, r⟩ =
      wireAll (wire ⟨u, r⟩ (Catalog.nodeCount ⟨u, r⟩) []) (d.targets.map Target.demand) {} :=
    id_map _
  have hrun := h.outcome_eq (valid_start _ d)
  rw [outcome_of_result? hy, hstart] at hrun
  rw [wirePlan, hrun]
  cases y <;> rfl

end Steps

end Resolver

end Wiring
