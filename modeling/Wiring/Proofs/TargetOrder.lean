import Mathlib.Data.List.Perm.Basic
import Wiring.Proofs.FurtherModules
import Wiring.Proofs.Linking
import Wiring.Proofs.Solvability

/-!
The order of the targets. A type is given the same source by every complete run, since the catalog
alone decides which node answers it, through which binding, and whether the node may fail. Complete
runs for the same targets therefore hold the same entries, whichever parent has come to a shared
node first. Only the targets and the modules keep the order in which they were met.
-/
namespace Wiring

open Naming Artifact

/-- The source that a type is given: the node that answers it, marked by whether it may fail. -/
def Catalog.Gives (c : Catalog) (t : TypeRef) (x : Source) : Prop :=
  ∃ s f, c.Answers t s ∧ x = s.source f ∧ (f = true ↔ c.MayFail s.node)

/-- The plans differ at most in the order of their targets and modules. -/
structure Plan.Reordered (p p' : Plan) : Prop where
  providers : p.providers = p'.providers
  factories : p.factories = p'.factories
  bindings : p.bindings = p'.bindings
  targets : p.targets.Perm p'.targets
  sources : ∀ z ∈ p.targets, ∀ z' ∈ p'.targets, z.target = z'.target → z.source = z'.source
  modules : p.modules.Perm p'.modules

/-- Either both plans are written, and only the artifact of the component may differ, or both are
refused for the same reason. -/
inductive Artifact.SameRest :
    Except EmissionError (Table Artifact) → Except EmissionError (Table Artifact) → Prop
  | written {arts arts' : Table Artifact}
      (h : ∀ name, name ≠ componentName → arts.find? name = arts'.find? name) :
      SameRest (.ok arts) (.ok arts')
  | refused (e : EmissionError) : SameRest (.error e) (.error e)

theorem Catalog.Gives.unique {c : Catalog} {t : TypeRef} {x x' : Source} (h : c.Gives t x)
    (h' : c.Gives t x') : x = x' := by
  obtain ⟨s, f, hs, rfl, hf⟩ := h
  obtain ⟨s', f', hs', rfl, hf'⟩ := h'
  cases hs.unique hs'
  rw [Bool.eq_iff_iff.mpr (hf.trans hf'.symm)]

theorem Catalog.gives_rightUnique (c : Catalog) : Relator.RightUnique c.Gives :=
  fun _ _ _ => Gives.unique

namespace Wired

variable {c : Catalog} {asked : TypeRef → Prop} {d d' : Definition} {w w' : Wired}
  {xs xs' : List Source}

theorem Sound.gives (hw : Sound c asked w) {t : TypeRef} {x : Source} (hx : w.Meets c t x) :
    c.Gives t x := by
  have hmeets := hx
  obtain ⟨s, f, hs, -, rfl, -⟩ := hmeets
  exact ⟨s, f, hs, rfl, hw.source_isFallible_iff hx hs⟩

namespace Complete

/-- A needed node has the sources that it has in another run. -/
theorem holds_of_finished (h : w.Complete c d xs) (hw' : Sound c asked w') {n : Node}
    {sources : List Source} (hn : Finished c asked w' n sources)
    (hreached : c.Reached d.requests n) : w.Holds n sources := by
  obtain ⟨sources', hfin⟩ := h.reached_finished hreached
  have hsources : sources' = sources :=
    List.right_unique_forall₂' c.gives_rightUnique (hfin.met.imp fun _ _ => h.sound.gives)
      (hn.met.imp fun _ _ => hw'.gives)
  exact hsources ▸ hfin.holds

section Subset

variable (h : w.Complete c d xs) (h' : w'.Complete c d' xs')
  (hd : ∀ t ∈ d.requests, t ∈ d'.requests) {i : Identity}

include h h' hd

theorem find?_providers_of_subset {e : PlannedProvider} (he : w.providers.find? i = some e) :
    w'.providers.find? i = some e := by
  obtain ⟨rfl, hfin⟩ := h.sound.provider he
  have hreached : c.Reached d'.requests (.provider e.provider) :=
    Catalog.Reached.mono hfin.reached hd
  have hentry := hfin.holds.symm.trans he
  exact (h'.holds_of_finished h.sound hfin hreached).trans hentry

theorem find?_factories_of_subset {f : Factory} (hf : w.factories.find? i = some f) :
    w'.factories.find? i = some f := by
  obtain ⟨e, sources, rfl, hfin⟩ := h.sound.factory hf
  have hreached : c.Reached d'.requests (.factory e) := Catalog.Reached.mono hfin.reached hd
  have hentry := hfin.holds.symm.trans hf
  exact (h'.holds_of_finished h.sound hfin hreached).trans hentry

/-- A binding leads to a node from a type that is asked for in both runs. -/
theorem find?_bindings_of_subset {b : Binding} (hb : w.bindings.find? i = some b) :
    w'.bindings.find? i = some b := by
  obtain ⟨rfl, t, n, ht, hs⟩ := h.sound.binding hb
  obtain ⟨x, s, f, hs', -, -, hnoted⟩ := h'.asked_met (ht.mono hd)
  cases hs.unique hs'
  obtain ⟨b', hb'⟩ := Option.isSome_iff_exists.mp (hnoted b rfl)
  obtain ⟨hi, t', n', -, hs''⟩ := h'.sound.binding hb'
  obtain ⟨-, hregistered, -⟩ := hs.of_binding
  obtain ⟨-, hregistered', -⟩ := hs''.of_binding
  rw [hi, hregistered] at hregistered'
  cases hregistered'
  exact hb'

end Subset

/-- Each target has the source that its type is given. -/
theorem targets_given (h : w.Complete c d xs) :
    List.Forall₂ (fun t z => z.target = t ∧ c.Gives t.type z.source) d.targets
      (w.plan d xs).targets :=
  h.targets.imp fun _ _ => And.imp_right h.sound.gives

/-- Complete runs for the same targets in another order. -/
theorem reordered (h : w.Complete c d xs) (h' : w'.Complete c d' xs')
    (huses : Uses c.registry w) (huses' : Uses c.registry w') (hd : d'.targets.Perm d.targets) :
    (w.plan d xs).Reordered (w'.plan d' xs') := by
  have hsub : ∀ t ∈ d.requests, t ∈ d'.requests := (hd.map Target.type).symm.subset
  have hsub' : ∀ t ∈ d'.requests, t ∈ d.requests := (hd.map Target.type).subset
  have hproviders : w.providers = w'.providers := Table.ext_find? fun i => Option.ext fun e =>
    ⟨h.find?_providers_of_subset h' hsub, h'.find?_providers_of_subset h hsub'⟩
  refine ⟨hproviders, ?_, ?_, ?_, ?_, ?_⟩
  · exact Table.ext_find? fun i => Option.ext fun f =>
      ⟨h.find?_factories_of_subset h' hsub, h'.find?_factories_of_subset h hsub'⟩
  · exact Table.ext_find? fun i => Option.ext fun b =>
      ⟨h.find?_bindings_of_subset h' hsub, h'.find?_bindings_of_subset h hsub'⟩
  · have hunique : Relator.RightUnique fun (t : Target) (z : WiredTarget) =>
        z.target = t ∧ c.Gives t.type z.source := by
      rintro t ⟨_, x⟩ ⟨_, x'⟩ ⟨rfl, hx⟩ ⟨heq, hx'⟩
      cases heq
      exact congrArg (WiredTarget.mk _) (hx.unique hx')
    exact List.rel_perm_imp hunique h.targets_given h'.targets_given hd.symm
  · intro z hz z' hz' htarget
    obtain ⟨t, -, rfl, hx⟩ := exists_of_forall₂_right h.targets_given hz
    obtain ⟨t', -, rfl, hx'⟩ := exists_of_forall₂_right h'.targets_given hz'
    exact hx.unique (htarget ▸ hx')
  · refine (List.perm_ext_iff_of_nodup huses.distinct huses'.distinct).mpr fun v => ?_
    rw [huses.mem_iff, huses'.mem_iff, hproviders]

end Complete

end Wired

/-- Whether targets are solvable does not depend on their order. -/
theorem Catalog.Solvable.of_perm {c : Catalog} {d d' : Definition} (h : c.Solvable d)
    (hd : d'.targets.Perm d.targets) : c.Solvable d' := by
  have hsub : ∀ t ∈ d'.requests, t ∈ d.requests := (hd.map Target.type).subset
  refine ⟨fun t ht => h.answered t (ht.mono hsub), fun n hn => h.acyclic n (hn.mono hsub), ?_⟩
  exact fun t ht => h.infallible t (hd.subset ht)

/-- The order of the targets of a definition decides neither whether it is resolved nor how: only
the targets and the modules of the plan follow it, and with them the artifact of the component. -/
theorem resolve_reordered (u : Universe) (d : Definition) (r : Registry) {ts : List Target}
    (hts : ts.Perm d.targets) :
    ((∃ p, resolve u d r = .ok p) ↔ ∃ p', resolve u { d with targets := ts } r = .ok p') ∧
    ∀ p p', resolve u d r = .ok p → resolve u { d with targets := ts } r = .ok p' →
      p.Reordered p' ∧ ∀ component, SameRest (emit u component p) (emit u component p') := by
  constructor
  · constructor
    · rintro ⟨p, hp⟩
      exact (Catalog.Solvable.of_perm (.of_resolve hp) hts).exists_resolve
    · rintro ⟨p', hp'⟩
      exact (Catalog.Solvable.of_perm (.of_resolve hp') hts.symm).exists_resolve
  · intro p p' hp hp'
    obtain ⟨w, xs, rfl, hrun, hmet⟩ := wirePlan_run (resolve_eq_ok_iff.mp hp).1
    obtain ⟨w', xs', rfl, hrun', hmet'⟩ := wirePlan_run (resolve_eq_ok_iff.mp hp').1
    have hcomplete : w.Complete ⟨u, r⟩ d xs := ⟨hrun.sound Wired.sound_nothing, hmet⟩
    have hcomplete' : w'.Complete ⟨u, r⟩ { d with targets := ts } xs' :=
      ⟨hrun'.sound Wired.sound_nothing, hmet'⟩
    have hsame := hcomplete.reordered hcomplete' (hrun.uses (.nothing r))
      (hrun'.uses (.nothing r)) hts
    refine ⟨hsame, fun component => ?_⟩
    cases hcomponent : isIdentifier component with
    | false =>
      simp only [emit, hcomponent]
      exact .refused _
    | true =>
      rw [emit_of_holds hcomponent fun x => hcomplete.holds,
        emit_of_holds hcomponent fun x => hcomplete'.holds]
      have hidentity : (w.plan d xs).definition.identity =
          (w'.plan { d with targets := ts } xs').definition.identity := rfl
      exact .written fun name hname =>
        find?_ofPlan_congr u component hidentity hsame.providers hsame.factories hname

namespace Shop

def receiptTarget : Target where
  method := "receipt"
  type := .pointer (.named receiptType)
  isFallible := false

/-- The shop with its service and its receipt as targets. -/
def withReceipt : Definition :=
  { definition with targets := [serviceTarget, receiptTarget] }

/-- A plan of the shop with its receipt, up to the order of its targets and modules. -/
def planInOrder (modules : List ValueModule) (targets : List WiredTarget) : Plan :=
  { plan with
    definition := { definition with targets := targets.map WiredTarget.target }
    modules := modules
    providers := .ofList [⟨openDisk, [], true⟩, ⟨extra receiptType, [], false⟩]
    targets := targets }

def wiredService : WiredTarget :=
  ⟨serviceTarget, ⟨.factory, service, none, true⟩⟩

def wiredReceipt : WiredTarget :=
  ⟨receiptTarget, ⟨.provider, receiptType, none, false⟩⟩

def serviceFirst : Plan :=
  planInOrder [⟨values, false⟩, ⟨extras, false⟩] [wiredService, wiredReceipt]

def receiptFirst : Plan :=
  planInOrder [⟨extras, false⟩, ⟨values, false⟩] [wiredReceipt, wiredService]

end Shop

theorem shop_reordered : [Shop.receiptTarget, Shop.serviceTarget].Perm Shop.withReceipt.targets ∧
    resolve (Shop.typesWithExtras Shop.receiptType) Shop.withReceipt
      (Shop.registryWithExtras Shop.receiptType) = .ok Shop.serviceFirst ∧
    resolve (Shop.typesWithExtras Shop.receiptType)
      { Shop.withReceipt with targets := [Shop.receiptTarget, Shop.serviceTarget] }
      (Shop.registryWithExtras Shop.receiptType) = .ok Shop.receiptFirst ∧
    Shop.serviceFirst.Reordered Shop.receiptFirst := by
  have hts : [Shop.receiptTarget, Shop.serviceTarget].Perm Shop.withReceipt.targets := .swap _ _ _
  have hp : resolve (Shop.typesWithExtras Shop.receiptType) Shop.withReceipt
      (Shop.registryWithExtras Shop.receiptType) = .ok Shop.serviceFirst := by decide +kernel
  have hp' : resolve (Shop.typesWithExtras Shop.receiptType)
      { Shop.withReceipt with targets := [Shop.receiptTarget, Shop.serviceTarget] }
      (Shop.registryWithExtras Shop.receiptType) = .ok Shop.receiptFirst := by decide +kernel
  exact ⟨hts, hp, hp', ((resolve_reordered _ _ _ hts).2 _ _ hp hp').1⟩

end Wiring
