import Wiring.Proofs.EmbeddedUniverse
import Wiring.Proofs.LargerCatalog

/-!
Further modules. What is discovered for a list of modules is discovered for a longer list too: the
same modules are reachable, among others, and no method registers what another one has registered.
A plan therefore changes only if a further module provides or binds a struct that the plan builds.
-/
namespace Wiring

open Discovery

variable {u : Universe} {roots roots' : List TypeRef} {r r' : Registry}

theorem Discovery.ReachableModule.mono {d : Decl} (h : ReachableModule u roots d)
    (hroots : ∀ t ∈ roots, t ∈ roots') : ReachableModule u roots' d := by
  obtain ⟨t, ht, hd⟩ := h
  exact ⟨t, ht.of_embeds (.refl u) hroots, hd⟩

/-- What is discovered for more modules extends what is discovered for some of them. -/
theorem Registry.Discovered.extends (hr : r.Discovered u roots) (hr' : r'.Discovered u roots')
    (hroots : ∀ t ∈ roots, t ∈ roots') : Catalog.Extends ⟨u, r⟩ ⟨u, r'⟩ where
  injectable := fun _ _ hd _ => hd
  provider := by
    intro i p hp
    obtain ⟨hi, d, k, hd, hk⟩ := (hr.provider i p).mp hp
    exact (hr'.provider i p).mpr ⟨hi, d, k, hd.mono hroots, hk⟩
  binding := by
    intro i b _ hb
    obtain ⟨hi, d, k, hd, hk⟩ := (hr.binding i b).mp hb
    have hb' : r'.binding? i = some b := (hr'.binding i b).mpr ⟨hi, d, k, hd.mono hroots, hk⟩
    refine ⟨?_, hb'⟩
    rw [Option.eq_none_iff_forall_ne_some]
    intro p hp
    exact hr'.disjoint i (Table.mem_keys_iff.mpr ⟨p, hp⟩) (Table.mem_keys_iff.mpr ⟨b, hb'⟩)
  module := by
    intro i p hp
    obtain ⟨x, hx⟩ := Table.mem_keys_iff.mp (hr.provider_module i p hp)
    have hx : r.valueModule? p.module = some x := hx
    obtain ⟨d, hd, hrest⟩ := (hr.valueModule _ x).mp hx
    exact ((hr'.valueModule _ x).mpr ⟨d, hd.mono hroots, hrest⟩).trans hx.symm

variable {d : Definition} {p : Plan}

/-- The structs that a plan builds are those that have to be built, so that nothing that is new in
`r'` stands for another one. -/
theorem unregistered_of_factory_keys (hp : resolve u d r = .ok p)
    (hkeep : ∀ i, r.siteOf? i = none → r'.siteOf? i ≠ none → i ∉ p.factories.keys) :
    Catalog.Unregistered ⟨u, r⟩ d.requests r' := by
  intro e he
  obtain ⟨hwire, -⟩ := resolve_eq_ok_iff.mp hp
  obtain ⟨w, xs, rfl, hcomplete⟩ := wirePlan_complete hwire
  have hkey : e.identity ∈ w.factories.keys :=
    (hcomplete.mem_factory_keys e.identity).mpr ⟨e, rfl, he⟩
  by_contra hsite
  exact hkeep e.identity he.hasNode.unregistered hsite hkey

/-- Further modules that register none of the structs that a plan builds leave the plan, and what
is written for it, as it is. -/
theorem resolve_of_further_modules {extra : List TypeRef}
    (hr : discover u d.modules = .ok r) (hr' : discover u (d.modules ++ extra) = .ok r')
    (hp : resolve u d r = .ok p)
    (hkeep : ∀ i, r.siteOf? i = none → r'.siteOf? i ≠ none → i ∉ p.factories.keys) :
    resolve u d r' = .ok p ∧
      resolve u { d with modules := d.modules ++ extra } r' =
        .ok (p.relisted (d.modules ++ extra)) ∧
      ∀ component, emit u component (p.relisted (d.modules ++ extra)) = emit u component p := by
  obtain ⟨ds, hw, hd⟩ := discover_walked hr
  obtain ⟨ds', hw', hd'⟩ := discover_walked hr'
  have hextends : Catalog.Extends ⟨u, r⟩ ⟨u, r'⟩ :=
    (hw.discovered hd).extends (hw'.discovered hd') fun t => List.mem_append_left extra
  have hresolve : resolve u d r' = .ok p :=
    resolve_of_extends hextends (unregistered_of_factory_keys hp hkeep) hp
  exact ⟨hresolve, resolve_relisted _ hresolve, fun component => emit_relisted u component p _⟩

namespace Shop

def extras : Identity := ⟨"shop", "Extras"⟩

/-- The shop with a further module, which provides references to `i`. -/
def typesWithExtras (i : Identity) : Universe where
  types := types.types.insert
    ((Decl.ofStruct extras []).withMethod { name := "extra", results := [.pointer (.named i)] })

/-- What the further module provides. -/
def extra (i : Identity) : Provider where
  provides := i
  module := extras
  method := "extra"
  params := []
  result := .pointer (.named i)
  isFallible := false

def registryWithExtras (i : Identity) : Registry :=
  { registry with
    providers := registry.providers.insert (extra i)
    valueModules := registry.valueModules.insert ⟨extras, false⟩ }

def receiptType : Identity := ⟨"shop", "Receipt"⟩

end Shop

theorem shop_further_modules :
    discover (Shop.typesWithExtras Shop.receiptType) Shop.definition.modules = .ok Shop.registry ∧
      discover (Shop.typesWithExtras Shop.receiptType)
        (Shop.definition.modules ++ [.pointer (.named Shop.extras)]) =
          .ok (Shop.registryWithExtras Shop.receiptType) ∧
      resolve (Shop.typesWithExtras Shop.receiptType) Shop.definition Shop.registry =
        .ok Shop.plan ∧
      resolve (Shop.typesWithExtras Shop.receiptType) Shop.definition
        (Shop.registryWithExtras Shop.receiptType) = .ok Shop.plan := by
  have hr : discover (Shop.typesWithExtras Shop.receiptType) Shop.definition.modules =
      .ok Shop.registry := by decide +kernel
  have hr' : discover (Shop.typesWithExtras Shop.receiptType)
      (Shop.definition.modules ++ [.pointer (.named Shop.extras)]) =
        .ok (Shop.registryWithExtras Shop.receiptType) := by decide +kernel
  have hp : resolve (Shop.typesWithExtras Shop.receiptType) Shop.definition Shop.registry =
      .ok Shop.plan := by decide +kernel
  have hkeep : ∀ i ∈ Shop.plan.factories.keys,
      (Shop.registryWithExtras Shop.receiptType).siteOf? i = none := by decide +kernel
  have hsame := resolve_of_further_modules hr hr' hp fun i _ hsite hkey => hsite (hkeep i hkey)
  exact ⟨hr, hr', hp, hsame.1⟩

/-- A further module that provides the service takes it over from the factory. -/
example : (resolve (Shop.typesWithExtras Shop.service) Shop.definition
    (Shop.registryWithExtras Shop.service)).map Plan.factories = .ok .empty := by
  decide +kernel

end Wiring
