import Mathlib.Data.List.Nodup
import Mathlib.Data.List.Perm.Subperm
import Wiring.Proofs.EmissionInputs

/-!
Wiring in a larger catalog. A catalog extends another one if it holds the same structs that can
be built, providers and bindings, among others. A run that has succeeded takes the same steps in
an extension, provided that none of the structs that it builds is registered there: a provider or
a binding would come before the factory. Whatever else an extension holds is not met by the run,
which only gets more room. The plan is therefore the same, with its modules in the same order.
-/
namespace Wiring

open Resolution

/-- What builds, provides or binds a type in `c` does so in `c'`. -/
structure Catalog.Extends (c c' : Catalog) : Prop where
  injectable : ∀ i d, c.types.lookup i = some d → d.isInjectable = true →
    c'.types.lookup i = some d
  provider : ∀ i p, c.registry.provider? i = some p → c'.registry.provider? i = some p
  binding : ∀ i b, c.registry.provider? i = none → c.registry.binding? i = some b →
    c'.registry.provider? i = none ∧ c'.registry.binding? i = some b
  module : ∀ i p, c.registry.provider? i = some p →
    c'.registry.valueModule? p.module = c.registry.valueModule? p.module

/-- No struct that has to be built for the types in `roots` is registered in `r`. -/
def Catalog.Unregistered (c : Catalog) (roots : List TypeRef) (r : Registry) : Prop :=
  ∀ d, c.Reached roots (.factory d) → r.siteOf? d.identity = none

/-- Nothing is registered for a struct that is built. -/
theorem Catalog.HasNode.unregistered {c : Catalog} {d : Decl} (h : c.HasNode (.factory d)) :
    c.registry.siteOf? d.identity = none := by
  obtain ⟨s, hs⟩ := h
  have hi : d.identity = s.identity := hs.identity_eq
  cases hs with
  | factory hp hb => exact Registry.siteOf?_eq_none_iff.mpr ⟨by rwa [hi], by rwa [hi]⟩

theorem Catalog.unregistered_self (c : Catalog) (roots : List TypeRef) :
    c.Unregistered roots c.registry :=
  fun _ hd => hd.hasNode.unregistered

namespace Catalog.Extends

variable {c c' : Catalog}

theorem direct (h : c.Extends c') {s : Shape} {n : Node} (hn : c.Direct s n)
    (hfree : ∀ d, n = .factory d → c'.registry.siteOf? d.identity = none) : c'.Direct s n := by
  cases hn with
  | provider hp href => exact .provider (h.provider _ _ hp) href
  | @factory d _ _ hd hinject href =>
    have hid : d.identity = s.identity := Universe.identity_of_lookup hd
    obtain ⟨hp, hb⟩ := Registry.siteOf?_eq_none_iff.mp (hid ▸ hfree d rfl)
    exact .factory hp hb (h.injectable _ _ hd hinject) hinject href

/-- A type is answered by the same node and through the same binding. -/
theorem answers (h : c.Extends c') {t : TypeRef} {s : Supply} (hs : c.Answers t s)
    (hfree : ∀ d, s.node = .factory d → c'.registry.siteOf? d.identity = none) :
    c'.Answers t s := by
  cases hs with
  | direct ht hn => exact .direct ht (h.direct hn hfree)
  | bound hp hb hn =>
    obtain ⟨hp', hb'⟩ := h.binding _ _ hp hb
    exact .bound hp' hb' (h.direct hn hfree)

/-- Finishing a node uses the same value module. -/
theorem finish (h : c.Extends c') {n : Node} (hn : c.HasNode n) (w : Wired)
    (sources : List Source) : w.finish c'.registry n sources = w.finish c.registry n sources := by
  cases n with
  | provider p => simp [Wired.finish, Wired.useModule, h.module _ _ hn.provider]
  | factory d => rfl

/-- There are no fewer nodes. -/
theorem nodeCount_le (h : c.Extends c') : c.nodeCount ≤ c'.nodeCount := by
  have hproviders : c.registry.providers.keys ⊆ c'.registry.providers.keys := by
    intro i hi
    obtain ⟨p, hp⟩ := Table.mem_keys_iff.mp hi
    exact Table.mem_keys_iff.mpr ⟨p, h.provider i p hp⟩
  have hinjectable : c.types.decls.filter Decl.isInjectable ⊆
      c'.types.decls.filter Decl.isInjectable := by
    intro d hd
    obtain ⟨hmem, hinject⟩ := List.mem_filter.mp hd
    have hlookup : c.types.lookup d.identity = some d := Table.find?_eq_some_iff.mpr ⟨hmem, rfl⟩
    have hmem' : d ∈ c'.types.decls :=
      Table.mem_of_find? (h.injectable d.identity d hlookup hinject)
    exact List.mem_filter.mpr ⟨hmem', hinject⟩
  have hnodup : (c.types.decls.filter Decl.isInjectable).Nodup :=
    (List.Nodup.of_map _ c.types.types.nodup_keys).filter _
  have hle := (c.registry.providers.nodup_keys.subperm hproviders).length_le
  simp only [Table.keys, List.length_map] at hle
  exact Nat.add_le_add hle (hnodup.subperm hinjectable).length_le

end Catalog.Extends

namespace Resolution

theorem wireAll_of_forall {σ ε : Type} {wire wire' : Demand → σ → Except ε (Source × σ)}
    {ds : List Demand} (h : ∀ d ∈ ds, ∀ w y, wire d w = .ok y → wire' d w = .ok y) {w : σ}
    {y : List Source × σ} (hy : wireAll wire ds w = .ok y) : wireAll wire' ds w = .ok y := by
  induction ds generalizing w y with
  | nil => exact hy
  | cons d ds ih =>
    unfold wireAll at hy
    split at hy
    · cases hy
    · next x w₁ hx =>
      split at hy
      · cases hy
      · next xs w₂ hxs =>
        have hx' := h d List.mem_cons_self w _ hx
        have hxs' := ih (fun d' hd' => h d' (List.mem_cons_of_mem d hd')) hxs
        simpa only [wireAll, hx', hxs'] using hy

variable {c c' : Catalog} {roots : List TypeRef}

/-- A demand that is met is met in the same way in an extension, with any room that is not
smaller. -/
theorem wire_of_extends (h : c.Extends c') (hfree : c.Unregistered roots c'.registry)
    {room room' : Nat} {path : List Identity} {d : Demand} {w w' : Wired} {x : Source}
    (hd : c.Asked roots d.type) (hroom : room ≤ room')
    (hw : wire c room path d w = .ok (x, w')) : wire c' room' path d w = .ok (x, w') := by
  induction room generalizing room' path d w w' x with
  | zero =>
    obtain ⟨s, hs, ⟨f, hf, rfl, rfl⟩ | ⟨_, _, _, hzero, _⟩⟩ := wire_cases hw
    · have hs' : c'.Answers d.type s :=
        h.answers hs fun e he => hfree e ⟨d.type, s.binding, hd, he ▸ hs⟩
      exact wire_finished hs' hf
    · cases hzero
  | succ room ih =>
    obtain ⟨s, hs, hcases⟩ := wire_cases hw
    have hs' : c'.Answers d.type s :=
      h.answers hs fun e he => hfree e ⟨d.type, s.binding, hd, he ▸ hs⟩
    obtain ⟨f, hf, rfl, rfl⟩ | ⟨_, sources, w₁, hsucc, hnew, hpath, hall, rfl, rfl⟩ := hcases
    · exact wire_finished hs' hf
    · cases hsucc
      obtain ⟨room', rfl⟩ := Nat.exists_eq_add_one.mpr (Nat.lt_of_lt_of_le room.succ_pos hroom)
      have hall' : wireAll (wire c' room' (s.node.identity :: path)) s.node.demands
          (w.addBinding s.binding) = .ok (sources, w₁) := by
        refine wireAll_of_forall (fun d' hd' w y hy => ?_) hall
        exact ih (.request hd hs (Node.type_mem_requests hd')) (Nat.le_of_succ_le_succ hroom) hy
      rw [← h.finish hs.hasNode]
      exact wire_new hs' hnew hpath hall'

end Resolution

section Plan

variable {u v : Universe} {d : Definition} {r r' : Registry} {p : Plan}

/-- A definition that is resolved has the same plan in an extension. -/
theorem resolve_of_extends (h : Catalog.Extends ⟨u, r⟩ ⟨v, r'⟩)
    (hfree : Catalog.Unregistered ⟨u, r⟩ d.requests r') (hp : resolve u d r = .ok p) :
    resolve v d r' = .ok p := by
  obtain ⟨hwire, hchain⟩ := resolve_eq_ok_iff.mp hp
  refine resolve_eq_ok_iff.mpr ⟨?_, hchain⟩
  unfold wirePlan at hwire ⊢
  dsimp only at hwire ⊢
  split at hwire
  · cases hwire
  · next sources w hall =>
    have hall' : wireAll (wire ⟨v, r'⟩ (Catalog.nodeCount ⟨v, r'⟩) [])
        (d.targets.map Target.demand) {} = .ok (sources, w) := by
      refine wireAll_of_forall (fun q hq w y hy => ?_) hall
      obtain ⟨t, ht, rfl⟩ := List.mem_map.mp hq
      have hroot : Catalog.Asked ⟨u, r⟩ d.requests t.type := .root (List.mem_map_of_mem ht)
      exact wire_of_extends h hfree hroot h.nodeCount_le hy
    rw [hall']
    exact hwire

end Plan

section Relisted

variable (p : Plan) (ms : List TypeRef)

theorem originWithin_relisted (room : Nat) :
    (p.relisted ms).originWithin room = p.originWithin room := by
  induction room with
  | zero => rfl
  | succ room ih =>
    funext s
    simp only [Plan.originWithin, ih]
    rfl

theorem fallibleChain?_relisted : (p.relisted ms).fallibleChain? = p.fallibleChain? := by
  have horigin : (p.relisted ms).fallibleOrigin = p.fallibleOrigin := by
    funext s
    exact congrFun (originWithin_relisted p ms _) s
  simp only [Plan.fallibleChain?, horigin]
  rfl

variable {p} {u : Universe} {d : Definition} {r : Registry}

/-- Once there is a registry, the modules that a definition lists do not matter. -/
theorem resolve_relisted (hp : resolve u d r = .ok p) :
    resolve u { d with modules := ms } r = .ok (p.relisted ms) := by
  obtain ⟨hwire, hchain⟩ := resolve_eq_ok_iff.mp hp
  refine resolve_eq_ok_iff.mpr ⟨?_, (fallibleChain?_relisted p ms).trans hchain⟩
  unfold wirePlan at hwire ⊢
  dsimp only at hwire ⊢
  split at hwire
  · cases hwire
  · cases hwire
    rfl

end Relisted

end Wiring
