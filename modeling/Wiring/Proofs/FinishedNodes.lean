import Wiring.Proofs.Sequences
import Wiring.Proofs.WiringRun

/-!
What has been wired at any moment of a run. Every entry belongs to a node that was asked for,
its sources meet the requests of the node one by one, and it records whether the node can fail
with them. A finished node depends on finished nodes only, and on none that was finished after
it, so that it is on no cycle. Every plan consists of the entries of such a run.
-/
namespace Wiring

open Relation Resolution

namespace Wired

variable {c : Catalog} {path : List Identity} {asked : TypeRef → Prop} {w w' : Wired}

/-- The entry of `w` for a node holds `sources` for what the node asks for. -/
def Holds (w : Wired) : Node → List Source → Prop
  | .provider p, sources =>
    w.providers.find? p.provides = some
      { provider := p, params := sources, isFallible := (Node.provider p).isFallible sources }
  | .factory d, sources => w.factories.find? d.identity = some (.ofSources d sources)

/-- The number of finished nodes. -/
def size (w : Wired) : Nat :=
  w.providers.size + w.factories.size

/-- A finished node is needed, its requests are met, and no path of dependencies from it is
longer than the number of finished nodes. -/
structure Finished (c : Catalog) (asked : TypeRef → Prop) (w : Wired) (n : Node)
    (sources : List Source) : Prop where
  reached : ∃ t b, asked t ∧ c.Answers t ⟨n, b⟩
  holds : w.Holds n sources
  met : List.Forall₂ (w.Meets c) n.requests sources
  grounded : c.Grounded w.size n

/-- Every entry is that of a finished node, and every binding led to a node. -/
structure Sound (c : Catalog) (asked : TypeRef → Prop) (w : Wired) : Prop where
  provider : ∀ {i e}, w.providers.find? i = some e →
    e.provider.provides = i ∧ Finished c asked w (.provider e.provider) e.params
  factory : ∀ {i f}, w.factories.find? i = some f →
    ∃ d sources, d.identity = i ∧ Finished c asked w (.factory d) sources
  binding : ∀ {i b}, w.bindings.find? i = some b →
    b.interface = i ∧ ∃ t n, asked t ∧ c.Answers t ⟨n, some b⟩

theorem Finished.hasNode {n : Node} {sources : List Source}
    (h : Finished c asked w n sources) : c.HasNode n := by
  obtain ⟨_, _, _, hn⟩ := h.reached
  exact hn.hasNode

theorem Holds.isFallible? {n : Node} {sources : List Source} (h : w.Holds n sources) :
    w.isFallible? n = some (n.isFallible sources) := by
  cases n with
  | provider p =>
    simp only [Holds] at h
    simp [Wired.isFallible?, h]
  | factory d =>
    simp only [Holds] at h
    simp [Wired.isFallible?, h, Factory.ofSources, Node.isFallible, Node.canFail]

/-- The flag of a node comes from its entry. -/
theorem Sound.finished {n : Node} {f : Bool} (hw : Sound c asked w) (hn : c.HasNode n)
    (hf : w.isFallible? n = some f) :
    ∃ sources, Finished c asked w n sources ∧ f = n.isFallible sources := by
  cases n with
  | provider p =>
    obtain ⟨e, he, -⟩ := Option.map_eq_some_iff.mp hf
    obtain ⟨hi, hfin⟩ := hw.provider he
    have hp : Node.provider e.provider = .provider p := hfin.hasNode.eq_of_identity hn hi
    rw [hp] at hfin
    rw [hfin.holds.isFallible?] at hf
    exact ⟨e.params, hfin, (Option.some.inj hf).symm⟩
  | factory d =>
    obtain ⟨e, he, -⟩ := Option.map_eq_some_iff.mp hf
    obtain ⟨d', sources, hi, hfin⟩ := hw.factory he
    have hd : Node.factory d' = .factory d := hfin.hasNode.eq_of_identity hn hi
    rw [hd] at hfin
    rw [hfin.holds.isFallible?] at hf
    exact ⟨sources, hfin, (Option.some.inj hf).symm⟩

/-- The node behind a source is finished with the flag that the source carries. -/
theorem Sound.meets {t : TypeRef} {x : Source} (hw : Sound c asked w) (hx : w.Meets c t x) :
    ∃ s sources, c.Answers t s ∧ Finished c asked w s.node sources ∧
      x = s.source (s.node.isFallible sources) := by
  obtain ⟨s, f, hs, hf, rfl, -⟩ := hx
  obtain ⟨sources, hfin, rfl⟩ := hw.finished hs.hasNode hf
  exact ⟨s, sources, hs, hfin, rfl⟩

theorem Sound.of_mem_providers {e : PlannedProvider} (hw : Sound c asked w)
    (he : e ∈ w.providers.toList) : Finished c asked w (.provider e.provider) e.params := by
  have hfind : w.providers.find? e.provider.provides = some e :=
    Table.find?_eq_some_iff.mpr ⟨he, rfl⟩
  exact (hw.provider hfind).2

theorem Sound.of_mem_factories {f : Factory} (hw : Sound c asked w)
    (hf : f ∈ w.factories.toList) :
    ∃ d sources, Finished c asked w (.factory d) sources ∧ f = .ofSources d sources := by
  have hfind : w.factories.find? f.identity = some f := Table.find?_eq_some_iff.mpr ⟨hf, rfl⟩
  obtain ⟨d, sources, hid, hfin⟩ := hw.factory hfind
  have hholds : w.factories.find? d.identity = some (.ofSources d sources) := hfin.holds
  rw [hid, hfind] at hholds
  exact ⟨d, sources, hfin, Option.some.inj hholds⟩

/-- A source meets each injected field of a struct. -/
theorem Finished.map_source {d : Decl} {sources : List Source}
    (h : Finished c asked w (.factory d) sources) :
    (Factory.ofSources d sources).fields.map Assignment.source = sources := by
  apply Factory.map_source_ofSources
  simpa [Node.requests] using h.met.length_eq

theorem Step.holds {n : Node} {sources : List Source} (h : Step c path asked w w')
    (hn : w.Holds n sources) : w'.Holds n sources := by
  cases h with
  | @bind t s _ _ => cases s.binding <;> cases n <;> exact hn
  | @finish t s sources' _ _ _ hnew _ =>
    have hne : ¬ (s.node.kind = n.kind ∧ s.node.identity = n.identity) := by
      intro hsame
      obtain ⟨hkind, hid⟩ := hsame
      rw [isFallible?_congr hkind hid, hn.isFallible?] at hnew
      cases hnew
    generalize s.node = m at hne ⊢
    cases m <;> cases n <;>
      simp_all [Holds, Wired.finish, Node.kind, Node.identity, key, Factory.ofSources]

theorem size_finish {r : Registry} {n : Node} {sources : List Source}
    (hnew : w.isFallible? n = none) : (w.finish r n sources).size = w.size + 1 := by
  cases n with
  | provider p =>
    have hfree : w.providers.find? p.provides = none := by
      simpa [Wired.isFallible?] using hnew
    have hsize := Table.size_insert_of_new (t := w.providers)
      (x := { provider := p, params := sources, isFallible := (Node.provider p).isFallible sources })
      hfree
    simp only [size, Wired.finish, useModule_providers, useModule_factories, hsize]
    omega
  | factory d =>
    have hfree : w.factories.find? d.identity = none := by
      simpa [Wired.isFallible?] using hnew
    have hsize := Table.size_insert_of_new (t := w.factories) (x := .ofSources d sources) hfree
    simp only [size, Wired.finish, hsize]
    omega

theorem Step.size_le (h : Step c path asked w w') : w.size ≤ w'.size := by
  cases h with
  | @bind t s _ _ => cases s.binding <;> exact Nat.le_refl _
  | finish _ _ _ hnew _ =>
    rw [size_finish hnew]
    omega

theorem Step.finished {n : Node} {sources : List Source} (h : Step c path asked w w')
    (hn : Finished c asked w n sources) : Finished c asked w' n sources where
  reached := hn.reached
  holds := h.holds hn.holds
  met := hn.met.imp fun _ _ => h.meets
  grounded := hn.grounded.mono h.size_le

theorem holds_finish (r : Registry) (n : Node) (sources : List Source) :
    (w.finish r n sources).Holds n sources := by
  cases n <;> simp [Holds, Wired.finish, key, Factory.ofSources]

/-- What a node depends on is finished when its requests are met. -/
theorem Sound.grounded_of_met {n : Node} {sources : List Source} (hw : Sound c asked w)
    (hmet : List.Forall₂ (w.Meets c) n.requests sources) : c.Grounded (w.size + 1) n := by
  intro m hdepends
  obtain ⟨t, ht, b, hm⟩ := hdepends
  obtain ⟨x, -, hx⟩ := exists_of_forall₂ hmet ht
  obtain ⟨s, sources', hs, hfin, -⟩ := hw.meets hx
  cases hs.unique hm
  exact hfin.grounded

theorem Sound.finished_finish {t : TypeRef} {s : Supply} {sources : List Source}
    (hw : Sound c asked w) (ht : asked t) (hs : c.Answers t s) (hpath : s.node.identity ∉ path)
    (hnew : w.isFallible? s.node = none)
    (hmet : List.Forall₂ (w.Meets c) s.node.requests sources) :
    Finished c asked (w.finish c.registry s.node sources) s.node sources where
  reached := ⟨t, s.binding, ht, hs⟩
  holds := holds_finish _ _ _
  met := hmet.imp fun _ _ => (Step.finish ht hs hpath hnew hmet).meets
  grounded := by
    rw [size_finish hnew]
    exact hw.grounded_of_met hmet

/-- A step adds at most one entry, and the others stay finished. -/
theorem Step.sound (h : Step c path asked w w') (hw : Sound c asked w) : Sound c asked w' := by
  have hstep := h
  cases h with
  | @bind t s ht hs =>
    refine ⟨fun he => ?_, fun hf => ?_, fun {i b} hb => ?_⟩
    · rw [addBinding_providers] at he
      exact ⟨(hw.provider he).1, hstep.finished (hw.provider he).2⟩
    · rw [addBinding_factories] at hf
      obtain ⟨d, sources, hi, hfin⟩ := hw.factory hf
      exact ⟨d, sources, hi, hstep.finished hfin⟩
    · obtain ⟨n, o⟩ := s
      cases o with
      | none => exact hw.binding hb
      | some b' =>
        simp only [addBinding, Table.find?_insert] at hb
        split at hb
        · next hi =>
          cases hb
          exact ⟨hi, t, n, ht, hs⟩
        · exact hw.binding hb
  | @finish t s sources ht hs hpath hnew hmet =>
    have hfin := hw.finished_finish ht hs hpath hnew hmet
    refine ⟨fun {i e} he => ?_, fun {i f} hf => ?_, fun hb => ?_⟩
    · obtain ⟨n, o⟩ := s
      cases n with
      | provider p =>
        simp only [Wired.finish, Table.find?_insert, useModule_providers] at he
        split at he
        · next hi =>
          cases he
          exact ⟨hi, hfin⟩
        · exact ⟨(hw.provider he).1, hstep.finished (hw.provider he).2⟩
      | factory d => exact ⟨(hw.provider he).1, hstep.finished (hw.provider he).2⟩
    · obtain ⟨n, o⟩ := s
      cases n with
      | provider p =>
        simp only [Wired.finish, useModule_factories] at hf
        obtain ⟨d, sources', hi, hfin'⟩ := hw.factory hf
        exact ⟨d, sources', hi, hstep.finished hfin'⟩
      | factory d =>
        simp only [Wired.finish, Table.find?_insert] at hf
        split at hf
        · next hi =>
          exact ⟨d, sources, hi, hfin⟩
        · obtain ⟨d', sources', hi, hfin'⟩ := hw.factory hf
          exact ⟨d', sources', hi, hstep.finished hfin'⟩
    · exact hw.binding (by simpa using hb)

theorem Run.sound (h : Run c path asked w w') (hw : Sound c asked w) : Sound c asked w' := by
  induction h with
  | refl => exact hw
  | tail _ hstep ih => exact hstep.sound ih

theorem sound_nothing : Sound c asked {} where
  provider h := nomatch h
  factory h := nomatch h
  binding h := nomatch h

end Wired

def Definition.requests (d : Definition) : List TypeRef :=
  d.targets.map Target.type

/-- Everything is wired that the targets of a definition ask for; `xs` are their sources. -/
structure Wired.Complete (c : Catalog) (d : Definition) (w : Wired) (xs : List Source) :
    Prop where
  sound : w.Sound c (c.Asked d.requests)
  met : List.Forall₂ (w.Meets c) d.requests xs

/-- A plan consists of what a run has wired for the targets. -/
theorem wirePlan_run {u : Universe} {d : Definition} {r : Registry} {p : Plan}
    (h : wirePlan u d r = .ok p) :
    ∃ w xs, p = Wired.plan w d xs ∧ Wired.Run ⟨u, r⟩ [] (Catalog.Asked ⟨u, r⟩ d.requests) {} w ∧
      List.Forall₂ (w.Meets ⟨u, r⟩) d.requests xs := by
  unfold wirePlan at h
  dsimp only at h
  split at h
  · cases h
  · next xs w hall =>
    cases h
    have htypes : (d.targets.map Target.demand).map Demand.type = d.requests := by
      simp [Definition.requests, Target.demand]
    have hcalls : ∀ q ∈ d.targets.map Target.demand, ∀ w x w',
        wire ⟨u, r⟩ (Catalog.nodeCount ⟨u, r⟩) [] q w = .ok (x, w') →
          Wired.Run ⟨u, r⟩ [] (Catalog.Asked ⟨u, r⟩ d.requests) w w' ∧
            w'.Meets ⟨u, r⟩ q.type x := by
      intro q hq w x w' hcall
      have hroot : q.type ∈ d.requests := htypes ▸ List.mem_map_of_mem hq
      exact wire_run (fun h hs ht => .request h hs ht) (.root hroot) hcall
    obtain ⟨hrun, hmet⟩ := wireAll_run hcalls hall
    rw [htypes] at hmet
    exact ⟨w, xs, rfl, hrun, hmet⟩

/-- What a run has wired for the targets is complete. -/
theorem wirePlan_complete {u : Universe} {d : Definition} {r : Registry} {p : Plan}
    (h : wirePlan u d r = .ok p) :
    ∃ w xs, p = Wired.plan w d xs ∧ Wired.Complete ⟨u, r⟩ d w xs := by
  obtain ⟨w, xs, hp, hrun, hmet⟩ := wirePlan_run h
  exact ⟨w, xs, hp, hrun.sound Wired.sound_nothing, hmet⟩

namespace Wired.Complete

variable {c : Catalog} {d : Definition} {w : Wired} {xs : List Source}

theorem asked_met (h : w.Complete c d xs) {t : TypeRef} (ht : c.Asked d.requests t) :
    ∃ x, w.Meets c t x := by
  induction ht with
  | root ht =>
    obtain ⟨x, -, hx⟩ := exists_of_forall₂ h.met ht
    exact ⟨x, hx⟩
  | request _ hs ht ih =>
    obtain ⟨x, hx⟩ := ih
    obtain ⟨s', sources, hs', hfin, -⟩ := h.sound.meets hx
    cases hs.unique hs'
    obtain ⟨y, -, hy⟩ := exists_of_forall₂ hfin.met ht
    exact ⟨y, hy⟩

/-- Every needed node is finished. -/
theorem reached_finished (h : w.Complete c d xs) {n : Node} (hn : c.Reached d.requests n) :
    ∃ sources, Finished c (c.Asked d.requests) w n sources := by
  obtain ⟨t, b, ht, hn⟩ := hn
  obtain ⟨x, hx⟩ := h.asked_met ht
  obtain ⟨s, sources, hs, hfin, -⟩ := h.sound.meets hx
  cases hs.unique hn
  exact ⟨sources, hfin⟩

end Wired.Complete

end Wiring
