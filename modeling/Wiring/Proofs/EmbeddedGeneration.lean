import Wiring.Proofs.EmbeddedUniverse
import Wiring.Proofs.LargerCatalog
import Wiring.Proofs.Outcomes

/-!
Generation in a larger universe. Resolution asks an embedding universe for structs only, and these
are the same there; writing asks it for interfaces only, and there are no further ones. What is
generated therefore stays as it is when a struct or a sealed type is added, and when the modules
of a definition are listed in another order or several times.
-/
namespace Wiring

variable {u v : Universe}

theorem Universe.Embeds.extends (h : u.Embeds v) (r : Registry) :
    Catalog.Extends ⟨u, r⟩ ⟨v, r⟩ where
  injectable := by
    intro i d hd hinject
    have hstruct : d.isStruct = true := (Bool.and_eq_true_iff.mp hinject).1
    exact h.lookup_struct hd hstruct
  provider := fun _ _ => id
  binding := fun _ _ => And.intro
  module := fun _ _ _ => rfl

/-- A component keeps its plan, but for the modules that its definition lists. -/
theorem planComponent_of_embeds (h : u.Embeds v) {package name : String} {p : Plan}
    (hp : planComponent u package name = .ok p) :
    ∃ ms, planComponent v package name = .ok (p.relisted ms) := by
  obtain ⟨d, r, hload, hdiscover, hresolve⟩ := planComponent_eq_ok_iff.mp hp
  obtain ⟨ms, hload', hmem⟩ := load_of_embeds h hload
  have hdiscover' : discover v ms = .ok r := discover_of_embeds h hmem hdiscover
  have hresolve' : resolve v d r = .ok p :=
    resolve_of_extends (h.extends r) (Catalog.unregistered_self _ _) hresolve
  exact ⟨ms, planComponent_eq_ok_iff.mpr
    ⟨_, r, hload', hdiscover', resolve_relisted ms hresolve'⟩⟩

/-- What has been generated is generated in a larger universe. -/
theorem generate_of_embeds (h : u.Embeds v) {s : Settings} {arts : Table Artifact}
    {t : PlanSummary} (hg : generate u s = .generated arts t) :
    generate v s = .generated arts t := by
  obtain ⟨hnames, p, hp, rfl, rfl⟩ := generate_eq_generated_iff.mp hg
  obtain ⟨ms, hp'⟩ := planComponent_of_embeds h hp
  refine generate_eq_generated_iff.mpr ⟨hnames, _, hp', ?_, rfl⟩
  rw [ofPlan_relisted, ofPlan_congr h.declaresInterface_eq]

theorem Outcome.success_iff {o : Outcome} :
    o.success = true ↔ ∃ arts t, o = .generated arts t := by
  cases o <;> simp [success]

/-- A struct or a sealed type that is added to the declared types does not change what is
generated. -/
theorem generate_insert {s : Settings} {d : Decl} (hnew : u.lookup d.identity = none)
    (hkind : d.isInterface = false) (hok : (generate u s).success = true) :
    ∃ v, u.insert d = .ok v ∧ generate v s = generate u s := by
  obtain ⟨arts, t, hg⟩ := Outcome.success_iff.mp hok
  refine ⟨_, Universe.insert_of_free hnew, ?_⟩
  rw [hg]
  exact generate_of_embeds (.of_insert hnew hkind) hg

namespace Shop

def settings : Settings where
  package := "shop"
  definition := "Shop"

/-- A struct that could be built for the shop, but is not asked for. -/
def receipt : Decl :=
  (Decl.ofStruct ⟨"shop", "Receipt"⟩
    [{ name := "service", type := .pointer (.named service) }]).withFlags .inject

end Shop

theorem shop_insert_receipt : Shop.types.lookup Shop.receipt.identity = none ∧
    Shop.receipt.isInterface = false ∧ (generate Shop.types Shop.settings).success = true ∧
      ∃ v, Shop.types.insert Shop.receipt = .ok v ∧
        generate v Shop.settings = generate Shop.types Shop.settings := by
  have hnew : Shop.types.lookup Shop.receipt.identity = none := by decide +kernel
  have hok : (generate Shop.types Shop.settings).success = true := by decide +kernel
  exact ⟨hnew, rfl, hok, generate_insert hnew rfl hok⟩

/-- The shop with values that also provide references to clocks, which are not declared. -/
def Shop.typesWithClock : Universe where
  types := Shop.types.types.insert
    (((Decl.ofStruct values []).withMethod
      { name := "open_disk", results := [.pointer (.named disk), .error] }).withMethod
      { name := "clock", results := [.pointer (.named ⟨"shop", "Clock"⟩)] })

/-- Declaring clocks as an interface would forbid the references to them. -/
example : (generate Shop.typesWithClock Shop.settings).phase? = none ∧
    (Shop.typesWithClock.insert (.ofInterface ⟨"shop", "Clock"⟩ [])).map
      (fun v => (generate v Shop.settings).phase?) = .ok (some .discovery) := by
  decide +kernel

/-- The same registry is discovered in whatever order the modules are listed, and however often.
Universes that differ only so in the modules that their interfaces list have the same artifacts,
or none. -/
theorem discover_and_generate_relisted (u : Universe) :
    (∀ ms ms' : List TypeRef, (∀ t, t ∈ ms ↔ t ∈ ms') →
      ∀ r, discover u ms = .ok r ↔ discover u ms' = .ok r) ∧
    ∀ v, u.Relisted v → ∀ s,
      (generate u s).success = true ∧ generate v s = generate u s ∨
        (generate u s).success = false ∧ (generate v s).success = false := by
  constructor
  · intro ms ms' hms r
    exact ⟨discover_of_embeds (.refl u) fun t => (hms t).symm, discover_of_embeds (.refl u) hms⟩
  · intro v h s
    cases hu : generate u s with
    | generated arts t => exact .inl ⟨rfl, generate_of_embeds h.embeds hu⟩
    | failed phase x summary =>
      refine .inr ⟨rfl, Bool.eq_false_iff.mpr fun hok => ?_⟩
      obtain ⟨arts, t, hv⟩ := Outcome.success_iff.mp hok
      rw [generate_of_embeds h.symm.embeds hv] at hu
      cases hu

namespace Shop

/-- A definition of the shop that lists the bindings first, and once more. -/
def relisted : Decl :=
  .ofInterface shop
    [{ name := "modules", results := [.named bindings, .pointer (.named values), .named bindings] },
      { name := "service", results := [.pointer (.named service), .error] }]

def typesRelisted : Universe where
  types := types.types.insert relisted

theorem types_relisted : types.Relisted typesRelisted := by
  have hlookup : types.lookup relisted.identity = some (.ofInterface shop
      [{ name := "modules", results := [.pointer (.named values), .named bindings] },
        { name := "service", results := [.pointer (.named service), .error] }]) := by
    decide +kernel
  refine .of_insert hlookup ⟨rfl, .inr ⟨rfl, rfl⟩, ?_⟩
  refine .cons ⟨rfl, rfl, fun hne => absurd rfl hne, fun t => ?_⟩ (.cons (.refl _) .nil)
  simp [Definition.moduleList]
  tauto

end Shop

theorem shop_relisted :
    (∀ r, discover Shop.types [.pointer (.named Shop.values), .named Shop.bindings] = .ok r ↔
      discover Shop.types
        [.named Shop.bindings, .pointer (.named Shop.values), .named Shop.bindings] = .ok r) ∧
    Shop.types.Relisted Shop.typesRelisted ∧ (generate Shop.types Shop.settings).success = true ∧
      generate Shop.typesRelisted Shop.settings = generate Shop.types Shop.settings := by
  obtain ⟨hdiscover, hgenerate⟩ := discover_and_generate_relisted Shop.types
  have hok : (generate Shop.types Shop.settings).success = true := by decide +kernel
  have hsame := (hgenerate _ Shop.types_relisted Shop.settings).resolve_right fun hfail => by
    simp [hok] at hfail
  refine ⟨hdiscover _ _ fun t => ?_, Shop.types_relisted, hsame⟩
  simp only [List.mem_cons, List.not_mem_nil, or_false]
  tauto

end Wiring
