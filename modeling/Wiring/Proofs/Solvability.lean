import Mathlib.Data.List.Perm.Subperm
import Wiring.Proofs.Fallibility

/-!
When wiring succeeds. The targets of a definition are solvable if every type that is asked for
is answered, no needed node depends on itself, and no target that cannot fail needs a provider
that can. `resolve_isOk_iff` says that a plan exists in exactly these cases. In particular the
room that the resolver starts with never runs out: the nodes being built are distinct.
-/
namespace Wiring

open Relation Resolution

/-- The targets of `d` can be wired. -/
structure Catalog.Solvable (c : Catalog) (d : Definition) : Prop where
  answered : ∀ t, c.Asked d.requests t → ∃ s, c.Answers t s
  acyclic : ∀ n, c.Reached d.requests n → ¬ TransGen c.Depends n n
  infallible : ∀ t ∈ d.targets, t.isFallible = false →
    ∀ s, c.Answers t.type s → ¬ c.MayFail s.node

namespace Catalog

variable {c : Catalog}

def nodeIdentities (c : Catalog) : List Identity :=
  c.registry.providers.keys ++ (c.types.decls.filter Decl.isInjectable).map Decl.identity

theorem length_nodeIdentities : c.nodeIdentities.length = c.nodeCount := by
  simp [nodeIdentities, nodeCount, Table.keys, Table.size]

theorem HasNode.mem_nodeIdentities {n : Node} (h : c.HasNode n) :
    n.identity ∈ c.nodeIdentities := by
  cases n with
  | provider p =>
    exact List.mem_append_left _ (Table.mem_keys_iff.mpr ⟨p, h.provider⟩)
  | factory d =>
    obtain ⟨-, hd, hinject⟩ := h.factory
    have hmem : d ∈ c.types.decls := Table.mem_of_find? hd
    exact List.mem_append_right _
      (List.mem_map_of_mem (List.mem_filter.mpr ⟨hmem, hinject⟩))

/-- The nodes of `path` are distinct, and each of them needs `t`. -/
structure Waiting (c : Catalog) (path : List Identity) (t : TypeRef) : Prop where
  nodup : path.Nodup
  needs : ∀ i ∈ path, ∃ n, c.HasNode n ∧ n.identity = i ∧
    ∃ m, ReflTransGen c.Depends n m ∧ t ∈ m.requests

variable {path : List Identity} {t : TypeRef} {s : Supply}

theorem waiting_nil : c.Waiting [] t where
  nodup := .nil
  needs _ hi := nomatch hi

/-- A node that needs itself would be on a cycle. -/
theorem Waiting.fresh (h : c.Waiting path t) (hs : c.Answers t s)
    (hacyclic : ¬ TransGen c.Depends s.node s.node) : s.node.identity ∉ path := by
  intro hi
  obtain ⟨n, hn, hid, m, hnm, ht⟩ := h.needs _ hi
  have heq : n = s.node := hn.eq_of_identity hs.hasNode hid
  subst heq
  exact hacyclic (TransGen.tail' hnm ⟨t, ht, s.binding, hs⟩)

theorem Waiting.push (h : c.Waiting path t) (hs : c.Answers t s)
    (hfresh : s.node.identity ∉ path) {t' : TypeRef} (ht' : t' ∈ s.node.requests) :
    c.Waiting (s.node.identity :: path) t' where
  nodup := List.nodup_cons.mpr ⟨hfresh, h.nodup⟩
  needs := by
    intro i hi
    rcases List.mem_cons.mp hi with rfl | hi
    · exact ⟨s.node, hs.hasNode, rfl, s.node, .refl, ht'⟩
    · obtain ⟨n, hn, hid, m, hnm, ht⟩ := h.needs i hi
      exact ⟨n, hn, hid, s.node, hnm.tail ⟨t, ht, s.binding, hs⟩, ht'⟩

/-- There are more nodes than those of the path. -/
theorem Waiting.length_lt (h : c.Waiting path t) (hs : c.Answers t s)
    (hfresh : s.node.identity ∉ path) : path.length < c.nodeCount := by
  have hsub : s.node.identity :: path ⊆ c.nodeIdentities := by
    intro i hi
    rcases List.mem_cons.mp hi with rfl | hi
    · exact hs.hasNode.mem_nodeIdentities
    · obtain ⟨n, hn, rfl, -⟩ := h.needs i hi
      exact hn.mem_nodeIdentities
  have hnodup : (s.node.identity :: path).Nodup := List.nodup_cons.mpr ⟨hfresh, h.nodup⟩
  have hle := (hnodup.subperm hsub).length_le
  rw [length_nodeIdentities, List.length_cons] at hle
  omega

end Catalog

namespace Resolution

theorem exists_wireAll {σ ε : Type} {wire : Demand → σ → Except ε (Source × σ)}
    {ds : List Demand} (h : ∀ d ∈ ds, ∀ w, ∃ y, wire d w = .ok y) (w : σ) :
    ∃ y, wireAll wire ds w = .ok y := by
  induction ds generalizing w with
  | nil => exact ⟨_, rfl⟩
  | cons d ds ih =>
    obtain ⟨⟨x, w'⟩, hx⟩ := h d List.mem_cons_self w
    obtain ⟨⟨xs, w''⟩, hxs⟩ := ih (fun d' hd' => h d' (List.mem_cons_of_mem d hd')) w'
    exact ⟨(x :: xs, w''), by simp [wireAll, hx, hxs]⟩

variable {c : Catalog} {roots : List TypeRef}

/-- Where all types are answered and no node needs itself, every demand is met. -/
theorem exists_wire (hanswered : ∀ t, c.Asked roots t → ∃ s, c.Answers t s)
    (hacyclic : ∀ n, c.Reached roots n → ¬ TransGen c.Depends n n)
    {room : Nat} {path : List Identity} {d : Demand} (hd : c.Asked roots d.type)
    (hpath : c.Waiting path d.type) (hroom : c.nodeCount ≤ room + path.length) (w : Wired) :
    ∃ y, wire c room path d w = .ok y := by
  induction room generalizing path d w with
  | zero =>
    obtain ⟨s, hs⟩ := hanswered d.type hd
    have hfresh := hpath.fresh hs (hacyclic s.node ⟨_, s.binding, hd, hs⟩)
    have hlt := hpath.length_lt hs hfresh
    omega
  | succ room ih =>
    obtain ⟨s, hs⟩ := hanswered d.type hd
    have hfresh := hpath.fresh hs (hacyclic s.node ⟨_, s.binding, hd, hs⟩)
    cases hf : w.isFallible? s.node with
    | some f => exact ⟨_, wire_finished hs hf⟩
    | none =>
      have hcalls : ∀ d' ∈ s.node.demands, ∀ w,
          ∃ y, wire c room (s.node.identity :: path) d' w = .ok y := by
        intro d' hd' w
        have ht' : d'.type ∈ s.node.requests := Node.type_mem_requests hd'
        have hroom' : c.nodeCount ≤ room + (s.node.identity :: path).length := by
          rw [List.length_cons]
          omega
        exact ih (.request hd hs ht') (hpath.push hs hfresh ht') hroom' w
      obtain ⟨⟨sources, w'⟩, hall⟩ := exists_wireAll hcalls (w.addBinding s.binding)
      exact ⟨_, wire_new hs hf hfresh hall⟩

end Resolution

/-- A plan without regard to what can fail exists if all types are answered and no needed
node depends on itself. -/
theorem exists_wirePlan {u : Universe} {d : Definition} {r : Registry}
    (hanswered : ∀ t, Catalog.Asked ⟨u, r⟩ d.requests t → ∃ s, Catalog.Answers ⟨u, r⟩ t s)
    (hacyclic : ∀ n, Catalog.Reached ⟨u, r⟩ d.requests n →
      ¬ TransGen (Catalog.Depends ⟨u, r⟩) n n) :
    ∃ p, wirePlan u d r = .ok p := by
  have hcalls : ∀ q ∈ d.targets.map Target.demand, ∀ w,
      ∃ y, wire ⟨u, r⟩ (Catalog.nodeCount ⟨u, r⟩) [] q w = .ok y := by
    intro q hq w
    obtain ⟨t, ht, rfl⟩ := List.mem_map.mp hq
    have hroot : Catalog.Asked ⟨u, r⟩ d.requests t.type := .root (List.mem_map_of_mem ht)
    exact exists_wire hanswered hacyclic hroot Catalog.waiting_nil (by simp) w
  obtain ⟨⟨xs, w⟩, hall⟩ := exists_wireAll hcalls {}
  exact ⟨w.plan d xs, by simp [wirePlan, hall]⟩

/-- The targets of a resolved definition are solvable. -/
theorem Catalog.Solvable.of_resolve {u : Universe} {d : Definition} {r : Registry} {p : Plan}
    (hp : resolve u d r = .ok p) : Catalog.Solvable ⟨u, r⟩ d := by
  obtain ⟨hwire, hchain⟩ := resolve_eq_ok_iff.mp hp
  obtain ⟨w, xs, rfl, hcomplete⟩ := wirePlan_complete hwire
  rw [hcomplete.fallibleChain?_eq_none_iff] at hchain
  refine ⟨fun t ht => ?_, fun n hn => ?_, fun t ht hinfallible s hs hfail => ?_⟩
  · obtain ⟨x, s, f, hs, -⟩ := hcomplete.asked_met ht
    exact ⟨s, hs⟩
  · obtain ⟨sources, hfin⟩ := hcomplete.reached_finished hn
    exact hfin.grounded.not_cyclic
  · obtain ⟨z, hz, rfl, hmet⟩ := exists_of_forall₂ hcomplete.targets ht
    have hflag := (hcomplete.sound.source_isFallible_iff hmet hs).mpr hfail
    rw [hchain z hz hinfallible] at hflag
    cases hflag

theorem Catalog.Solvable.exists_resolve {u : Universe} {d : Definition} {r : Registry}
    (h : Catalog.Solvable ⟨u, r⟩ d) : ∃ p, resolve u d r = .ok p := by
  obtain ⟨hanswered, hacyclic, hinfallible⟩ := h
  obtain ⟨p, hwire⟩ := exists_wirePlan hanswered hacyclic
  obtain ⟨w, xs, rfl, hcomplete⟩ := wirePlan_complete hwire
  refine ⟨_, resolve_eq_ok_iff.mpr ⟨hwire, ?_⟩⟩
  rw [hcomplete.fallibleChain?_eq_none_iff]
  intro z hz htarget
  obtain ⟨t, ht, rfl, hmet⟩ := exists_of_forall₂_right hcomplete.targets hz
  obtain ⟨s, -, hs, -⟩ := hcomplete.sound.meets hmet
  have hsource := hcomplete.sound.source_isFallible_iff hmet hs
  simpa using fun hflag => hinfallible _ ht htarget s hs (hsource.mp hflag)

/-- A definition is resolved exactly if its targets are solvable: every type that is asked for
is answered, no needed node depends on itself, and no target that cannot fail needs a provider
that can. -/
theorem resolve_isOk_iff (u : Universe) (d : Definition) (r : Registry) :
    (∃ p, resolve u d r = .ok p) ↔ Catalog.Solvable ⟨u, r⟩ d :=
  ⟨fun ⟨_, hp⟩ => .of_resolve hp, Catalog.Solvable.exists_resolve⟩

end Wiring
