import Wiring.Proofs.DiscoveredModules
import Wiring.Proofs.FinishedNodes
import Wiring.Proofs.Sequences

/-!
The value modules of a plan. Finishing a provider uses its module, and a module is used once:
whatever a run has wired, the modules in use are distinct, and they are the modules of the planned
providers. Discovery has registered the module of each provider, so that none is missing.
-/
namespace Wiring

namespace Wired

variable {c : Catalog} {path : List Identity} {asked : TypeRef → Prop} {w w' : Wired}

/-- The modules in use are those that the registry holds for the planned providers, once each. -/
structure Uses (r : Registry) (w : Wired) : Prop where
  distinct : w.modules.Nodup
  mem_iff : ∀ v, v ∈ w.modules ↔
    ∃ e ∈ w.providers.toList, r.valueModule? e.provider.module = some v

theorem Uses.nothing (r : Registry) : Uses r {} :=
  ⟨.nil, fun _ => ⟨nofun, nofun⟩⟩

@[simp] theorem addBinding_modules (b : Option Binding) :
    (w.addBinding b).modules = w.modules := by
  cases b <;> rfl

theorem mem_useModule {r : Registry} {i : Identity} {v : ValueModule} :
    v ∈ (w.useModule r i).modules ↔ v ∈ w.modules ∨ r.valueModule? i = some v := by
  unfold useModule
  split
  · next hnone => simp [hnone]
  · next v' hv' =>
    split
    · next hmem =>
      rw [hv', Option.some.injEq]
      exact ⟨.inl, fun h => h.elim id fun heq => heq ▸ hmem⟩
    · simp [hv', eq_comm]

theorem nodup_useModule {r : Registry} {i : Identity} (h : w.modules.Nodup) :
    (w.useModule r i).modules.Nodup := by
  unfold useModule
  split
  · exact h
  · split
    · exact h
    · next hnew =>
      refine List.nodup_append.mpr ⟨h, by simp, ?_⟩
      rintro v hv v' hlast rfl
      exact hnew (List.mem_singleton.mp hlast ▸ hv)

theorem Step.uses (h : Step c path asked w w') (hw : Uses c.registry w) : Uses c.registry w' := by
  cases h with
  | @bind t s _ _ => exact ⟨by simpa using hw.distinct, by simpa using hw.mem_iff⟩
  | @finish t s sources _ _ _ hnew _ =>
    generalize s.node = n at hnew ⊢
    cases n with
    | provider p =>
      have hfree : ∀ e ∈ w.providers.toList, e.provider.provides ≠ p.provides := by
        intro e he heq
        have hfind : w.providers.find? p.provides = some e :=
          Table.find?_eq_some_iff.mpr ⟨he, heq⟩
        simp [Wired.isFallible?, hfind] at hnew
      refine ⟨nodup_useModule hw.distinct, fun v => ?_⟩
      simp only [Wired.finish, mem_useModule, useModule_providers, Table.mem_insert_iff, hw.mem_iff]
      constructor
      · rintro (⟨e, he, hv⟩ | hv)
        · exact ⟨e, .inr ⟨he, hfree e he⟩, hv⟩
        · exact ⟨_, .inl rfl, hv⟩
      · rintro ⟨e, rfl | ⟨he, -⟩, hv⟩
        · exact .inr hv
        · exact .inl ⟨e, he, hv⟩
    | factory d => exact ⟨hw.distinct, hw.mem_iff⟩

theorem Run.uses (h : Run c path asked w w') (hw : Uses c.registry w) : Uses c.registry w' := by
  induction h with
  | refl => exact hw
  | tail _ hstep ih => exact hstep.uses ih

/-- The modules in use are distinct modules of the registry, and they include the module of
every provider that is planned. -/
structure Hosted (r : Registry) (w : Wired) : Prop where
  registered : ∀ v ∈ w.modules, r.valueModule? v.identity = some v
  distinct : w.modules.Nodup
  module : ∀ e ∈ w.providers.toList, ∃ v ∈ w.modules, v.identity = e.provider.module

/-- No module of a planned provider is missing if the registry holds the modules of all
providers. -/
theorem Uses.hosted (h : Uses c.registry w) (hw : Sound c asked w)
    (hr : ∀ i p, c.registry.provider? i = some p → p.module ∈ c.registry.valueModules.keys) :
    Hosted c.registry w where
  registered := by
    intro v hv
    obtain ⟨e, -, hmodule⟩ := (h.mem_iff v).mp hv
    have hidentity : v.identity = e.provider.module := Table.key_of_find? hmodule
    rwa [hidentity]
  distinct := h.distinct
  module := by
    intro e he
    have hprovider := (hw.of_mem_providers he).hasNode.provider
    obtain ⟨v, hv⟩ := Table.mem_keys_iff.mp (hr _ _ hprovider)
    exact ⟨v, (h.mem_iff v).mpr ⟨e, he, hv⟩, Table.key_of_find? hv⟩

theorem Hosted.nodup_identities {r : Registry} (h : Hosted r w) :
    (w.modules.map ValueModule.identity).Nodup := by
  refine List.pairwise_map.mpr (h.distinct.imp_of_mem fun {v v'} hv hv' hne heq => ?_)
  have hregistered := h.registered v hv
  rw [heq, h.registered v' hv'] at hregistered
  exact hne (Option.some.inj hregistered).symm

end Wired

/-- What a run has wired after discovery uses the modules of its providers. -/
theorem Wired.Run.hosted_of_discover {u : Universe} {roots : List TypeRef} {r : Registry}
    {asked : TypeRef → Prop} {w : Wired} (hr : discover u roots = .ok r)
    (h : Wired.Run ⟨u, r⟩ [] asked {} w) : w.Hosted r := by
  have hdiscovered := Discovery.discover_discovered hr
  exact (h.uses (.nothing r)).hosted (c := ⟨u, r⟩) (h.sound Wired.sound_nothing)
    hdiscovered.provider_module

end Wiring
