import Mathlib.Data.List.Forall2
import Wiring.Proofs.DependencyGraph

/-!
Wiring as a run of steps. Each step notes the binding that a request is passed through, or
finishes a node whose requests are met by finished nodes. A successful call of `wire` is a
run of such steps and meets its demand (`wire_run`); what every step preserves therefore
holds of whatever the resolver has wired.
-/
namespace Wiring

open Relation Resolution

namespace Wired

variable {c : Catalog} {w w' : Wired}

/-- `x` is a source for `t` whose node is finished in `w`, together with the binding that
leads to it. -/
def Meets (w : Wired) (c : Catalog) (t : TypeRef) (x : Source) : Prop :=
  ∃ s f, c.Answers t s ∧ w.isFallible? s.node = some f ∧ x = s.source f ∧
    ∀ b, s.binding = some b → w.bindings.contains b.interface = true

theorem isFallible?_congr {n m : Node} (hkind : n.kind = m.kind)
    (hid : n.identity = m.identity) : w.isFallible? n = w.isFallible? m := by
  cases n <;> cases m <;> simp_all [Node.kind, Node.identity, isFallible?]

@[simp] theorem addBinding_providers (b : Option Binding) :
    (w.addBinding b).providers = w.providers := by
  cases b <;> rfl

@[simp] theorem addBinding_factories (b : Option Binding) :
    (w.addBinding b).factories = w.factories := by
  cases b <;> rfl

@[simp] theorem isFallible?_addBinding (b : Option Binding) (n : Node) :
    (w.addBinding b).isFallible? n = w.isFallible? n := by
  cases b <;> cases n <;> rfl

@[simp] theorem useModule_providers (r : Registry) (i : Identity) :
    (w.useModule r i).providers = w.providers := by
  unfold useModule
  split
  · rfl
  · split <;> rfl

@[simp] theorem useModule_factories (r : Registry) (i : Identity) :
    (w.useModule r i).factories = w.factories := by
  unfold useModule
  split
  · rfl
  · split <;> rfl

@[simp] theorem useModule_bindings (r : Registry) (i : Identity) :
    (w.useModule r i).bindings = w.bindings := by
  unfold useModule
  split
  · rfl
  · split <;> rfl

@[simp] theorem finish_bindings (r : Registry) (n : Node) (sources : List Source) :
    (w.finish r n sources).bindings = w.bindings := by
  cases n <;> simp [finish]

/-- Finishing a node records whether it can fail and leaves all others as they are. -/
theorem isFallible?_finish (r : Registry) (m n : Node) (sources : List Source) :
    (w.finish r m sources).isFallible? n =
      if m.kind = n.kind ∧ m.identity = n.identity then some (m.isFallible sources)
      else w.isFallible? n := by
  cases m with
  | provider p =>
    cases n with
    | provider q =>
      by_cases h : p.provides = q.provides <;>
        simp [finish, isFallible?, Node.kind, Node.identity, key, h]
    | factory d => simp [finish, isFallible?, Node.kind]
  | factory e =>
    cases n with
    | provider q => simp [finish, isFallible?, Node.kind]
    | factory d =>
      by_cases h : e.identity = d.identity <;>
        simp [finish, isFallible?, Node.kind, Node.identity, key, Factory.ofSources, h,
          Node.isFallible, Node.canFail]

theorem contains_addBinding {o : Option Binding} {b : Binding} (ho : o = some b) :
    (w.addBinding o).bindings.contains b.interface = true := by
  simp [ho, addBinding, Table.contains, key]

/-- A finished node meets the requests that it answers, once the binding is noted. -/
theorem meets_of_isFallible? {t : TypeRef} {s : Supply} {f : Bool} (hs : c.Answers t s)
    (hf : w.isFallible? s.node = some f) :
    (w.addBinding s.binding).Meets c t (s.source f) :=
  ⟨s, f, hs, by simpa using hf, rfl, fun _ hb => contains_addBinding hb⟩

/-- A step of wiring in which no node of `path` is finished; only types that are `asked`
for give rise to steps. -/
inductive Step (c : Catalog) (path : List Identity) (asked : TypeRef → Prop) :
    Wired → Wired → Prop
  | bind {w : Wired} {t : TypeRef} {s : Supply} (ht : asked t) (hs : c.Answers t s) :
      Step c path asked w (w.addBinding s.binding)
  | finish {w : Wired} {t : TypeRef} {s : Supply} {sources : List Source}
      (ht : asked t) (hs : c.Answers t s) (hpath : s.node.identity ∉ path)
      (hnew : w.isFallible? s.node = none)
      (hsources : List.Forall₂ (w.Meets c) s.node.requests sources) :
      Step c path asked w (w.finish c.registry s.node sources)

abbrev Run (c : Catalog) (path : List Identity) (asked : TypeRef → Prop) :
    Wired → Wired → Prop :=
  ReflTransGen (Step c path asked)

variable {path : List Identity} {asked : TypeRef → Prop}

theorem Step.weaken {i : Identity} (h : Step c (i :: path) asked w w') :
    Step c path asked w w' := by
  cases h with
  | bind ht hs => exact .bind ht hs
  | finish ht hs hpath hnew hsources =>
    exact .finish ht hs (fun hi => hpath (List.mem_cons_of_mem _ hi)) hnew hsources

/-- A finished node is never finished again. -/
theorem Step.isFallible? {n : Node} {f : Bool} (h : Step c path asked w w')
    (hn : w.isFallible? n = some f) : w'.isFallible? n = some f := by
  cases h with
  | bind _ _ => simpa using hn
  | @finish t s sources _ _ _ hnew _ =>
    rw [isFallible?_finish, if_neg]
    · exact hn
    · intro hsame
      obtain ⟨hkind, hid⟩ := hsame
      rw [isFallible?_congr hkind hid, hn] at hnew
      cases hnew

theorem Step.unfinished {n : Node} (h : Step c path asked w w') (hpath : n.identity ∈ path)
    (hn : w.isFallible? n = none) : w'.isFallible? n = none := by
  cases h with
  | bind _ _ => simpa using hn
  | finish _ _ hfree _ _ =>
    rw [isFallible?_finish, if_neg]
    · exact hn
    · intro hsame
      obtain ⟨-, hid⟩ := hsame
      exact hfree (hid ▸ hpath)

theorem Step.binding {i : Identity} (h : Step c path asked w w')
    (hi : w.bindings.contains i = true) : w'.bindings.contains i = true := by
  cases h with
  | @bind t s _ _ =>
    cases s.binding with
    | none => exact hi
    | some b =>
      by_cases hb : key b = i <;> simp_all [addBinding, Table.contains]
  | finish _ _ _ _ _ => simpa using hi

theorem Step.meets {t : TypeRef} {x : Source} (h : Step c path asked w w')
    (hx : w.Meets c t x) : w'.Meets c t x := by
  obtain ⟨s, f, hs, hf, rfl, hb⟩ := hx
  exact ⟨s, f, hs, h.isFallible? hf, rfl, fun b hsb => h.binding (hb b hsb)⟩

theorem Run.weaken {i : Identity} (h : Run c (i :: path) asked w w') :
    Run c path asked w w' :=
  ReflTransGen.mono (fun _ _ => Step.weaken) _ _ h

theorem Run.unfinished {n : Node} (h : Run c path asked w w') (hpath : n.identity ∈ path)
    (hn : w.isFallible? n = none) : w'.isFallible? n = none := by
  induction h with
  | refl => exact hn
  | tail _ hstep ih => exact hstep.unfinished hpath ih

theorem Run.binding {i : Identity} (h : Run c path asked w w')
    (hi : w.bindings.contains i = true) : w'.bindings.contains i = true := by
  induction h with
  | refl => exact hi
  | tail _ hstep ih => exact hstep.binding ih

theorem Run.meets {t : TypeRef} {x : Source} (h : Run c path asked w w')
    (hx : w.Meets c t x) : w'.Meets c t x := by
  induction h with
  | refl => exact hx
  | tail _ hstep ih => exact hstep.meets ih

end Wired

namespace Resolution

variable {c : Catalog} {path : List Identity}

/-- What a successful call of `wire` does: it reuses a finished node, or it meets the demands
of a new one, which it then finishes. -/
theorem wire_cases {room : Nat} {d : Demand} {w w' : Wired} {x : Source}
    (h : wire c room path d w = .ok (x, w')) :
    ∃ s, c.Answers d.type s ∧
      ((∃ f, w.isFallible? s.node = some f ∧ x = s.source f ∧ w' = w.addBinding s.binding) ∨
        ∃ room' sources w'', room = room' + 1 ∧ w.isFallible? s.node = none ∧
          s.node.identity ∉ path ∧
          wireAll (wire c room' (s.node.identity :: path)) s.node.demands
            (w.addBinding s.binding) = .ok (sources, w'') ∧
          x = s.source (s.node.isFallible sources) ∧
          w' = w''.finish c.registry s.node sources) := by
  unfold wire at h
  split at h
  · cases h
  · next s hs =>
    refine ⟨s, Catalog.supply_eq_ok_iff.mp hs, ?_⟩
    simp only [Wired.isFallible?_addBinding] at h
    split at h
    · next f hf =>
      cases h
      exact .inl ⟨f, hf, rfl, rfl⟩
    · next hnew =>
      split at h
      · cases h
      · next hpath =>
        split at h
        · cases h
        · next room' =>
          split at h
          · cases h
          · next sources w'' hall =>
            cases h
            exact .inr ⟨room', sources, w'', rfl, hnew, hpath, hall, rfl, rfl⟩

/-- A demand that a finished node answers is met at once. -/
theorem wire_finished {room : Nat} {d : Demand} {w : Wired} {s : Supply} {f : Bool}
    (hs : c.Answers d.type s) (hf : w.isFallible? s.node = some f) :
    wire c room path d w = .ok (s.source f, w.addBinding s.binding) := by
  have hsupply : c.supply d = .ok s := Catalog.supply_eq_ok_iff.mpr hs
  rw [wire, hsupply]
  simp only [Wired.isFallible?_addBinding, hf]

/-- A demand that a new node answers is met by building the node. -/
theorem wire_new {room : Nat} {d : Demand} {w w' : Wired} {s : Supply} {sources : List Source}
    (hs : c.Answers d.type s) (hnew : w.isFallible? s.node = none)
    (hpath : s.node.identity ∉ path)
    (hall : wireAll (wire c room (s.node.identity :: path)) s.node.demands
      (w.addBinding s.binding) = .ok (sources, w')) :
    wire c (room + 1) path d w =
      .ok (s.source (s.node.isFallible sources), w'.finish c.registry s.node sources) := by
  have hsupply : c.supply d = .ok s := Catalog.supply_eq_ok_iff.mpr hs
  rw [wire, hsupply]
  simp only [Wired.isFallible?_addBinding, hnew, if_neg hpath, hall]

variable {asked : TypeRef → Prop}

/-- If every call of `wire` is a run that meets its demand, so is meeting all demands. -/
theorem wireAll_run {wire : Demand → Wired → Except Failure (Source × Wired)}
    {ds : List Demand}
    (hwire : ∀ d ∈ ds, ∀ w x w', wire d w = .ok (x, w') →
      Wired.Run c path asked w w' ∧ w'.Meets c d.type x)
    {w w' : Wired} {xs : List Source} (h : wireAll wire ds w = .ok (xs, w')) :
    Wired.Run c path asked w w' ∧ List.Forall₂ (w'.Meets c) (ds.map Demand.type) xs := by
  induction ds generalizing w xs with
  | nil =>
    cases h
    exact ⟨.refl, .nil⟩
  | cons d ds ih =>
    unfold wireAll at h
    split at h
    · cases h
    · next x w₁ hx =>
      split at h
      · cases h
      · next xs' w₂ hxs =>
        cases h
        obtain ⟨hrun, hmeets⟩ := hwire d List.mem_cons_self w x w₁ hx
        obtain ⟨hrun', hmeets'⟩ :=
          ih (fun d' hd' => hwire d' (List.mem_cons_of_mem d hd')) hxs
        exact ⟨hrun.trans hrun', .cons (hrun'.meets hmeets) hmeets'⟩

/-- A successful call of `wire` is a run that meets its demand, for every set of types that
contains the demanded one and whatever its members ask for in turn. -/
theorem wire_run
    (hasked : ∀ {t t' : TypeRef} {s : Supply},
      asked t → c.Answers t s → t' ∈ s.node.requests → asked t')
    {room : Nat} {d : Demand} {w w' : Wired} {x : Source} (hd : asked d.type)
    (h : wire c room path d w = .ok (x, w')) :
    Wired.Run c path asked w w' ∧ w'.Meets c d.type x := by
  induction room generalizing path d w w' x with
  | zero =>
    obtain ⟨s, hs, ⟨f, hf, rfl, rfl⟩ | ⟨room', _, _, hroom, _⟩⟩ := wire_cases h
    · exact ⟨.single (.bind hd hs), Wired.meets_of_isFallible? hs hf⟩
    · cases hroom
  | succ room ih =>
    obtain ⟨s, hs, ⟨f, hf, rfl, rfl⟩ |
      ⟨room', sources, w₁, hroom, hnew, hpath, hall, rfl, rfl⟩⟩ := wire_cases h
    · exact ⟨.single (.bind hd hs), Wired.meets_of_isFallible? hs hf⟩
    · cases hroom
      have hcalls : ∀ d' ∈ s.node.demands, ∀ w x w',
          wire c room (s.node.identity :: path) d' w = .ok (x, w') →
            Wired.Run c (s.node.identity :: path) asked w w' ∧ w'.Meets c d'.type x := by
        intro d' hd' w x w' hcall
        have hmem : d'.type ∈ s.node.requests := Node.type_mem_requests hd'
        exact ih (hasked hd hs hmem) hcall
      obtain ⟨hrun, hsources⟩ := wireAll_run hcalls hall
      rw [Node.map_type_demands] at hsources
      have hnew' : w₁.isFallible? s.node = none :=
        hrun.unfinished List.mem_cons_self (by simpa using hnew)
      have hfinish : Wired.Step c path asked w₁ (w₁.finish c.registry s.node sources) :=
        .finish hd hs hpath hnew' hsources
      refine ⟨(ReflTransGen.head (.bind hd hs) hrun.weaken).tail hfinish, ?_⟩
      refine ⟨s, s.node.isFallible sources, hs, ?_, rfl, fun b hb => ?_⟩
      · simp [Wired.isFallible?_finish]
      · simpa using hrun.binding (Wired.contains_addBinding hb)

end Resolution

end Wiring
