import Wiring.Generation
import Wiring.Proofs.EmissionInputs
import Wiring.Proofs.PlanClosure
import Wiring.Proofs.Surface

/-!
Hidden members do not influence generation. A node of the dependency graph, and what answers a
demand, has a surface like the declaration that it stands for, and wiring treats it like the node
itself: what a factory asks for and assigns are the injected fields of its struct. Generated code
looks at a declaration only to box interfaces. Two universes with the same surface therefore have
the same outcome under all settings.
-/
namespace Wiring

open Resolution

def Node.surface : Node → Node
  | provider p => .provider p
  | factory d => .factory d.surface

def Answer.surface : Answer → Answer
  | node n => .node n.surface
  | binding b => .binding b
  | mismatch provided => .mismatch provided
  | nothing => .nothing

def Supply.surface (s : Supply) : Supply where
  node := s.node.surface
  binding := s.binding

def Catalog.surface (c : Catalog) : Catalog where
  types := c.types.surface
  registry := c.registry

section Node

variable (n : Node)

@[simp] theorem Node.surface_identity : n.surface.identity = n.identity := by
  cases n <;> rfl

@[simp] theorem Node.surface_kind : n.surface.kind = n.kind := by
  cases n <;> rfl

@[simp] theorem Node.surface_demands : n.surface.demands = n.demands := by
  cases n <;> simp [surface, demands]

@[simp] theorem Node.surface_isFallible (sources : List Source) :
    n.surface.isFallible sources = n.isFallible sources := by
  cases n <;> rfl

@[simp] theorem Supply.surface_node (s : Supply) : s.surface.node = s.node.surface := rfl

@[simp] theorem Supply.surface_binding (s : Supply) : s.surface.binding = s.binding := rfl

@[simp] theorem Supply.surface_source (s : Supply) (isFallible : Bool) :
    s.surface.source isFallible = s.source isFallible := by
  simp [source]

@[simp] theorem Factory.ofSources_surface (d : Decl) (sources : List Source) :
    ofSources d.surface sources = ofSources d sources := by
  simp [ofSources]

namespace Wired

variable (w : Wired)

@[simp] theorem isFallible?_surface : w.isFallible? n.surface = w.isFallible? n := by
  cases n <;> rfl

@[simp] theorem finish_surface (r : Registry) (sources : List Source) :
    w.finish r n.surface sources = w.finish r n sources := by
  cases n <;> simp [finish, Node.surface]

end Wired

end Node

namespace Catalog

variable (c : Catalog)

@[simp] theorem surface_types : c.surface.types = c.types.surface := rfl

@[simp] theorem surface_registry : c.surface.registry = c.registry := rfl

theorem answer_surface (s : Shape) : c.surface.answer s = (c.answer s).surface := by
  unfold answer
  simp only [surface_types, surface_registry, Universe.lookup_surface]
  cases c.registry.provider? s.identity with
  | some p => by_cases h : p.isReference = s.isReference <;> simp [h, Answer.surface, Node.surface]
  | none =>
    cases c.registry.binding? s.identity with
    | some b => cases s.isReference <;> rfl
    | none =>
      cases c.types.lookup s.identity with
      | none => rfl
      | some d =>
        cases hd : d.isInjectable <;> cases s.isReference <;>
          simp [hd, Answer.surface, Node.surface]

theorem supplyBound_surface (b : Binding) :
    c.surface.supplyBound b = (c.supplyBound b).map Supply.surface := by
  unfold supplyBound
  rw [answer_surface]
  cases c.answer ⟨b.implementation, true⟩ <;> rfl

theorem supply_surface (d : Demand) : c.surface.supply d = (c.supply d).map Supply.surface := by
  unfold supply
  cases d.type.shape with
  | none => rfl
  | some s =>
    dsimp only
    rw [answer_surface]
    cases c.answer s with
    | binding b => exact supplyBound_surface c b
    | _ => rfl

@[simp] theorem nodeCount_surface : c.surface.nodeCount = c.nodeCount := by
  simp [nodeCount, Universe.surface, Universe.decls, Table.mapEntries, List.filter_map,
    Function.comp_def]

end Catalog

namespace Resolution

/-- A demand is met in the same way in the catalog without hidden members, also if it cannot be
met. The demands of a node are met with less room. -/
@[simp] theorem wire_surface (c : Catalog) (room : Nat) (path : List Identity) (d : Demand)
    (w : Wired) : wire c.surface room path d w = wire c room path d w := by
  induction room generalizing path d w with
  | zero =>
    unfold wire
    rw [Catalog.supply_surface]
    cases c.supply d with
    | error gap => rfl
    | ok s => simp [Except.map]
  | succ room ih =>
    have hcalls : ∀ path, wire c.surface room path = wire c room path := by
      intro path
      funext d w
      exact ih path d w
    unfold wire
    rw [Catalog.supply_surface]
    cases c.supply d with
    | error gap => rfl
    | ok s => simp [Except.map, hcalls]

end Resolution

section Plan

variable (u : Universe) (d : Definition) (r : Registry)

@[simp] theorem wirePlan_surface : wirePlan u.surface d r = wirePlan u d r := by
  have hcatalog : (⟨u.surface, r⟩ : Catalog) = Catalog.surface ⟨u, r⟩ := rfl
  have hwire : ∀ room path, wire (Catalog.surface ⟨u, r⟩) room path = wire ⟨u, r⟩ room path := by
    intro room path
    funext d w
    exact wire_surface ⟨u, r⟩ room path d w
  simp [wirePlan, hcatalog, hwire]

@[simp] theorem resolve_surface : resolve u.surface d r = resolve u d r := by
  simp [resolve]

@[simp] theorem planInPhases_surface (package name : String) :
    planInPhases u.surface package name = planInPhases u package name := by
  simp [planInPhases]

end Plan

@[simp] theorem emit_surface (u : Universe) (component : String) (p : Plan) :
    emit u.surface component p = emit u component p :=
  emit_congr u.declaresInterface_surface component p

/-- A universe without its hidden members has the same outcome. -/
@[simp] theorem generate_surface (u : Universe) (s : Settings) :
    generate u.surface s = generate u s := by
  have hemit : ∀ p, emitPlan u.surface s p = emitPlan u s p := fun p => by
    simp [emitPlan]
  simp [generate, hemit]

/-- Universes that differ in hidden members only have the same outcome. -/
theorem generate_eq_of_sameSurface {u v : Universe} (h : u.SameSurface v) (s : Settings) :
    generate u s = generate v s := by
  have hsurface : u.surface = v.surface := Universe.surface_eq_iff.mpr h
  calc
    generate u s = generate u.surface s := (generate_surface u s).symm
    _ = generate v.surface s := by rw [hsurface]
    _ = generate v s := generate_surface v s

/-- The shop with members that nothing looks at among its other members. They would break its
rules if they were looked at. -/
def Shop.typesWithHidden : Universe where
  types := .ofList
    [(Decl.ofStruct service
        [{ name := "note", type := .builtin "u8", tag := .skip },
          { name := "store", type := .named store },
          { name := "owner", type := .slice .error, visibility := .private }]).withFlags .inject,
      .ofInterface store [{ name := "lock", visibility := .private }],
      .ofStruct disk [{ name := "sectors", type := .builtin "u8", visibility := .private }],
      ((Decl.ofStruct values []).withMethod { name := "modules", visibility := .private }).withMethod
        { name := "open_disk", results := [.pointer (.named disk), .error] },
      .ofInterface bindings
        [{ name := "store", params := [{ name := "disk", type := .pointer (.named disk) }],
           results := [.named store] },
          { name := "modules", visibility := .private, results := [.error] }],
      .ofInterface shop
        [{ name := "target", visibility := .private, results := [.named store] },
          { name := "modules", results := [.pointer (.named values), .named bindings] },
          { name := "service", results := [.pointer (.named service), .error] },
          { name := "new", visibility := .private }]]

theorem shop_hidden : Shop.types ≠ Shop.typesWithHidden ∧
    Shop.types.SameSurface Shop.typesWithHidden ∧
      generate Shop.types { package := "shop", definition := "Shop" } =
        generate Shop.typesWithHidden { package := "shop", definition := "Shop" } := by
  have hsurface : Shop.types.surface = Shop.typesWithHidden.surface := by decide +kernel
  have hsame := Universe.surface_eq_iff.mp hsurface
  exact ⟨by decide +kernel, hsame, generate_eq_of_sameSurface hsame _⟩

end Wiring
