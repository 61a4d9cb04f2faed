import Mathlib.Algebra.Ring.Nat
import Wiring.Discovery

/-!
The worklist ends on every graph of modules. A pop can make the worklist longer, but only when
it takes a module that has not been seen, and what this module lists is then used up. The
references on the worklist and those that unseen modules can still add are therefore fewer after
each pop, whatever becomes of the reference.
-/
namespace Wiring.Discovery

open Definition (modulesMethod)

/-- What the worklist loop holds between two pops. Once the result is an error, the loop has
returned it. -/
structure Loop where
  worklist : List TypeRef
  seen : List Identity
  result : Except Failure Registry

namespace Loop

def start (modules : List TypeRef) : Loop :=
  ⟨modules, [], .ok .empty⟩

/-- There is nothing left to pop, or the loop has returned an error. -/
def Halted (s : Loop) : Prop :=
  s.worklist = [] ∨ ∃ e, s.result = .error e

/-- What comes out of the loop from here on. -/
def outcome (u : Universe) (s : Loop) : Except Failure Registry :=
  s.result.bind (walk u s.worklist s.seen)

/-- How many references can still be popped. -/
def room (u : Universe) (s : Loop) : Nat :=
  s.worklist.length + pending s.seen u.decls

end Loop

/-- A pop of the reference at the front, and the module whose methods it registers. A module is
seen from then on, also when one of its methods cannot be registered. -/
inductive Pop (u : Universe) : Loop → Option Decl → Loop → Prop
  | refused {t : TypeRef} {rest : List TypeRef} {seen : List Identity} {r : Registry}
      {e : Failure} (hmodule : moduleOf u t = .error e) :
      Pop u ⟨t :: rest, seen, .ok r⟩ none ⟨rest, seen, .error e⟩
  | again {t : TypeRef} {rest : List TypeRef} {seen : List Identity} {r : Registry} {d : Decl}
      (hmodule : moduleOf u t = .ok d) (hseen : d.identity ∈ seen) :
      Pop u ⟨t :: rest, seen, .ok r⟩ none ⟨rest, seen, .ok r⟩
  | unregistered {t : TypeRef} {rest : List TypeRef} {seen : List Identity} {r : Registry}
      {d : Decl} {e : Failure} (hmodule : moduleOf u t = .ok d) (hnew : d.identity ∉ seen)
      (hregister : register u d r = .error e) :
      Pop u ⟨t :: rest, seen, .ok r⟩ (some d) ⟨rest, d.identity :: seen, .error e⟩
  | registered {t : TypeRef} {rest : List TypeRef} {seen : List Identity} {r r' : Registry}
      {d : Decl} (hmodule : moduleOf u t = .ok d) (hnew : d.identity ∉ seen)
      (hregister : register u d r = .ok r') :
      Pop u ⟨t :: rest, seen, .ok r⟩ (some d) ⟨nested d ++ rest, d.identity :: seen, .ok r'⟩

/-- A number of pops one after another, and the modules whose methods they register, in order. -/
inductive Pops (u : Universe) : Nat → List Decl → Loop → Loop → Prop
  | nil (s : Loop) : Pops u 0 [] s s
  | cons {n : Nat} {m : Option Decl} {ds : List Decl} {s s' s'' : Loop} :
      Pop u s m s' → Pops u n ds s' s'' → Pops u (n + 1) (m.toList ++ ds) s s''

variable {u : Universe} {n : Nat} {m : Option Decl} {ds : List Decl} {s s' : Loop}

theorem exists_pop (h : ¬ s.Halted) : ∃ m s', Pop u s m s' := by
  obtain ⟨worklist, seen, result⟩ := s
  cases worklist with
  | nil => exact absurd (.inl rfl) h
  | cons t rest =>
    cases result with
    | error e => exact absurd (.inr ⟨e, rfl⟩) h
    | ok r =>
      cases hmodule : moduleOf u t with
      | error e => exact ⟨_, _, .refused hmodule⟩
      | ok d =>
        by_cases hseen : d.identity ∈ seen
        · exact ⟨_, _, .again hmodule hseen⟩
        · cases hregister : register u d r with
          | error e => exact ⟨_, _, .unregistered hmodule hseen hregister⟩
          | ok r' => exact ⟨_, _, .registered hmodule hseen hregister⟩

theorem Loop.Halted.outcome_eq (h : s.Halted) : s.outcome u = s.result := by
  obtain ⟨worklist, seen, result⟩ := s
  rcases h with rfl | ⟨e, rfl⟩
  · cases result <;> simp [outcome, Except.bind]
  · rfl

theorem Pop.outcome_eq (h : Pop u s m s') : s.outcome u = s'.outcome u := by
  cases h with
  | refused hmodule => simp [Loop.outcome, walk_cons, hmodule, Except.bind]
  | again hmodule hseen => simp [Loop.outcome, walk_cons, hmodule, hseen, Except.bind]
  | unregistered hmodule hnew hregister =>
    simp [Loop.outcome, walk_cons, hmodule, hnew, hregister, Except.bind]
  | registered hmodule hnew hregister =>
    simp [Loop.outcome, walk_cons, hmodule, hnew, hregister, Except.bind]

theorem Pop.room_lt (h : Pop u s m s') : s'.room u < s.room u := by
  cases h with
  | refused hmodule => simp [Loop.room]
  | again hmodule hseen => simp [Loop.room]
  | @unregistered t rest seen r d e hmodule hnew hregister =>
    have hle := pending_cons_le d.identity seen u.decls
    simp only [Loop.room, List.length_cons]
    omega
  | registered hmodule hnew hregister =>
    have hused := pending_cons_add_le (mem_decls_of_moduleOf hmodule) hnew
    simp only [Loop.room, List.length_append, List.length_cons]
    omega

/-- A module is registered when it has not been seen, and has been seen afterwards. -/
theorem Pop.seen_eq (h : Pop u s m s') :
    s'.seen = (m.map Decl.identity).toList ++ s.seen ∧
      ∀ d, m = some d → d.identity ∉ s.seen := by
  cases h <;> simp_all

theorem Pops.outcome_eq (h : Pops u n ds s s') : s.outcome u = s'.outcome u := by
  induction h with
  | nil s => rfl
  | cons hpop _ ih => exact hpop.outcome_eq.trans ih

theorem Pops.room_add_le (h : Pops u n ds s s') : s'.room u + n ≤ s.room u := by
  induction h with
  | nil s => exact Nat.le_refl _
  | cons hpop _ ih =>
    have hlt := hpop.room_lt
    omega

/-- What is registered later has not been seen then, and is therefore another module. -/
theorem Pops.nodup_registered (h : Pops u n ds s s') :
    (ds.map Decl.identity).Nodup ∧ ∀ d ∈ ds, d.identity ∉ s.seen := by
  induction h with
  | nil s => simp
  | @cons n m ds s s₁ s₂ hpop _ ih =>
    obtain ⟨hseen, hnew⟩ := hpop.seen_eq
    obtain ⟨hnodup, hunseen⟩ := ih
    rw [hseen] at hunseen
    cases m with
    | none => exact ⟨hnodup, hunseen⟩
    | some d =>
      have hother : d.identity ∉ ds.map Decl.identity := by
        rintro hmem
        obtain ⟨d', hd', heq⟩ := List.mem_map.mp hmem
        exact hunseen d' hd' (heq ▸ List.mem_cons_self)
      refine ⟨List.nodup_cons.mpr ⟨hother, hnodup⟩, fun d' hd' => ?_⟩
      rcases List.mem_cons.mp hd' with rfl | hd'
      · exact hnew _ rfl
      · exact fun hmem => hunseen d' hd' (List.mem_cons_of_mem _ hmem)

theorem exists_pops_halted (u : Universe) (s : Loop) :
    ∃ n ds s', Pops u n ds s s' ∧ s'.Halted := by
  induction hroom : s.room u using Nat.strongRecOn generalizing s with
  | ind k ih =>
    by_cases hs : s.Halted
    · exact ⟨0, [], s, .nil s, hs⟩
    · obtain ⟨m, s₁, hpop⟩ := exists_pop (u := u) hs
      obtain ⟨n, ds, s', hpops, hhalted⟩ := ih (s₁.room u) (hroom ▸ hpop.room_lt) s₁ rfl
      exact ⟨n + 1, _, s', .cons hpop hpops, hhalted⟩

theorem nested_eq_nil {d : Decl} (h : d.isInterface = false) : nested d = [] := by
  simp [nested, h]

theorem pending_nil_eq_sum (ds : List Decl) :
    pending [] ds = ((ds.filter Decl.isInterface).map fun d => (nested d).length).sum := by
  induction ds with
  | nil => rfl
  | cons d ds ih =>
    cases hd : d.isInterface with
    | true => simp [pending, pendingOf, hd, ih]
    | false => simp [pending, pendingOf, hd, ih, nested_eq_nil hd]

/-- Discovery ends on every graph of modules. It pops no more than the references that it is
asked for and those that the declared interfaces list, and registers no identity twice. -/
theorem worklist_ends (u : Universe) (modules : List TypeRef) :
    (∃ n ds s, Pops u n ds (.start modules) s ∧ s.Halted) ∧
      ∀ n ds s, Pops u n ds (.start modules) s →
        n ≤ modules.length +
          ((u.decls.filter Decl.isInterface).map fun d => (nested d).length).sum ∧
        (ds.map Decl.identity).Nodup ∧ (s.Halted → s.result = discover u modules) := by
  refine ⟨exists_pops_halted u (.start modules), fun n ds s h => ⟨?_, ?_, fun hs => ?_⟩⟩
  · have hroom := h.room_add_le
    have hstart : (Loop.start modules).room u = modules.length + pending [] u.decls := rfl
    rw [← pending_nil_eq_sum]
    omega
  · exact h.nodup_registered.1
  · calc s.result = s.outcome u := hs.outcome_eq.symm
      _ = (Loop.start modules).outcome u := h.outcome_eq.symm
      _ = discover u modules := rfl

/-- An interface that lists one module. -/
private def listing (name module : String) : Decl :=
  .ofInterface ⟨"app", name⟩ [{ name := modulesMethod, results := [.named ⟨"app", module⟩] }]

/-- Two interfaces that list each other: three pops, as many as there can be. -/
example :
    Pops { types := .ofList [listing "A" "B", listing "B" "A"] } 3
      [listing "A" "B", listing "B" "A"] (.start [.named ⟨"app", "A"⟩])
      ⟨[], [⟨"app", "B"⟩, ⟨"app", "A"⟩], .ok .empty⟩ :=
  .cons (.registered rfl (by decide) rfl) <| .cons (.registered rfl (by decide) rfl) <|
    .cons (.again rfl (by decide)) (.nil _)

end Wiring.Discovery
