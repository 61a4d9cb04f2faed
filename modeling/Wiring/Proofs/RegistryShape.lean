import Wiring.Discovery

/-!
What discovery has checked of everything it registers. A provider returns the type that it
provides or a reference to it, and no reference to an interface; a binding binds a declared
interface to a declared struct. Each registration keeps this, hence so does the worklist.
-/
namespace Wiring

/-- The result of a provider has the shape of what it provides. -/
structure Provider.Shaped (u : Universe) (p : Provider) : Prop where
  shape : p.result.shape = some ⟨p.provides, p.isReference⟩
  interface : p.isReference = true → u.declaresInterface p.provides = false

structure Binding.Shaped (u : Universe) (b : Binding) : Prop where
  interface : u.declaresInterface b.interface = true
  implementation : u.declaresStruct b.implementation = true

structure Registry.Shaped (u : Universe) (r : Registry) : Prop where
  provider : ∀ p ∈ r.providers.toList, p.Shaped u
  binding : ∀ b ∈ r.bindings.toList, b.Shaped u

theorem TypeRef.isPointer_of_shape {t : TypeRef} {s : Shape} (h : t.shape = some s) :
    t.isPointer = s.isReference := by
  rw [shape_eq_some_iff] at h
  subst h
  cases s.isReference <;> rfl

namespace Discovery

variable {u : Universe} {r r' : Registry}

theorem checkProvider_shaped {module : Identity} {m : Method} {p : Provider}
    (h : checkProvider u module m = .ok p) : p.Shaped u := by
  unfold checkProvider at h
  split at h
  · cases h
  · next result isFallible _ =>
    split at h
    · cases h
    · next s hs =>
      split at h
      · cases h
      · next hinterface =>
        cases h
        have hreference : result.isPointer = s.isReference := TypeRef.isPointer_of_shape hs
        refine ⟨?_, fun href => ?_⟩
        · simpa [Provider.isReference, hreference] using hs
        · have hpointer : s.isReference = true := hreference.symm.trans href
          simpa [hpointer] using hinterface

theorem boundInterface_eq_ok {t : TypeRef} {i : Identity} (h : boundInterface u t = .ok i) :
    u.declaresInterface i = true := by
  unfold boundInterface at h
  split at h
  · split at h
    · next hdeclared =>
      cases h
      exact hdeclared
    · cases h
  · cases h

theorem implementation_eq_ok {t : TypeRef} {i : Identity} (h : implementation u t = .ok i) :
    u.declaresStruct i = true := by
  unfold implementation at h
  split at h
  · split at h
    · next hdeclared =>
      cases h
      exact hdeclared
    · cases h
  · cases h

theorem checkBinding_shaped {module : Identity} {m : Method} {b : Binding}
    (h : checkBinding u module m = .ok b) : b.Shaped u := by
  unfold checkBinding at h
  split at h
  · split at h
    · cases h
    · next hinterface =>
      split at h
      · cases h
      · next himplementation =>
        cases h
        exact ⟨boundInterface_eq_ok hinterface, implementation_eq_ok himplementation⟩
  · cases h

theorem addProvider_shaped {p : Provider} (hr : r.Shaped u) (hp : p.Shaped u)
    (h : r.addProvider p = .ok r') : r'.Shaped u := by
  unfold Registry.addProvider at h
  split at h
  · cases h
  · cases h
    refine ⟨fun q hq => ?_, hr.binding⟩
    rcases Table.mem_insertSorted hq with rfl | hq
    · exact hp
    · exact hr.provider q hq

theorem addBinding_shaped {b : Binding} (hr : r.Shaped u) (hb : b.Shaped u)
    (h : r.addBinding b = .ok r') : r'.Shaped u := by
  unfold Registry.addBinding at h
  split at h
  · cases h
  · cases h
    refine ⟨hr.provider, fun q hq => ?_⟩
    rcases Table.mem_insertSorted hq with rfl | hq
    · exact hb
    · exact hr.binding q hq

theorem registerProvider_shaped {module : Identity} {m : Method} (hr : r.Shaped u)
    (h : registerProvider u module r m = .ok r') : r'.Shaped u := by
  unfold registerProvider providerOf at h
  cases hcheck : checkProvider u module m with
  | error flaw =>
    rw [hcheck] at h
    cases h
  | ok p =>
    rw [hcheck] at h
    exact addProvider_shaped hr (checkProvider_shaped hcheck) h

theorem registerBinding_shaped {module : Identity} {m : Method} (hr : r.Shaped u)
    (h : registerBinding u module r m = .ok r') : r'.Shaped u := by
  unfold registerBinding bindingOf at h
  split at h
  · split at h
    · cases h
      exact hr
    · cases h
  · cases hcheck : checkBinding u module m with
    | error flaw =>
      rw [hcheck] at h
      cases h
    | ok b =>
      rw [hcheck] at h
      exact addBinding_shaped hr (checkBinding_shaped hcheck) h

theorem register_shaped {d : Decl} (hr : r.Shaped u) (h : register u d r = .ok r') :
    r'.Shaped u := by
  unfold register at h
  split at h
  · exact foldlM_keeps (fun _ _ _ => registerBinding_shaped) hr h
  · unfold registerValueModule at h
    split at h
    · cases h
    · cases hfold : d.publicMethods.foldlM (registerProvider u d.identity) r with
      | error e =>
        rw [hfold] at h
        cases h
      | ok r₁ =>
        rw [hfold] at h
        cases h
        have hshaped : r₁.Shaped u :=
          foldlM_keeps (fun _ _ _ => registerProvider_shaped) hr hfold
        exact ⟨hshaped.provider, hshaped.binding⟩

/-- What registering a module keeps, the worklist keeps. -/
theorem walk_keeps {P : Registry → Prop}
    (hregister : ∀ d r r', P r → register u d r = .ok r' → P r')
    {worklist : List TypeRef} {seen : List Identity} (hr : P r)
    (h : walk u worklist seen r = .ok r') : P r' := by
  induction worklist, seen, r using walk.induct u with
  | case1 seen r =>
    rw [walk_nil] at h
    cases h
    exact hr
  | case2 seen r t rest e hmodule =>
    rw [walk_cons, hmodule] at h
    cases h
  | case3 seen r t rest d hmodule hseen ih =>
    rw [walk_cons, hmodule] at h
    simp only [Except.bind, if_pos hseen] at h
    exact ih hr h
  | case4 seen r t rest d hmodule hseen e hregistered =>
    rw [walk_cons, hmodule] at h
    simp only [Except.bind, if_neg hseen, hregistered] at h
    cases h
  | case5 seen r t rest d hmodule hseen r₁ hregistered ih =>
    rw [walk_cons, hmodule] at h
    simp only [Except.bind, if_neg hseen, hregistered] at h
    exact ih (hregister d r r₁ hr hregistered) h

end Discovery

theorem discover_shaped {u : Universe} {modules : List TypeRef} {r : Registry}
    (h : discover u modules = .ok r) : r.Shaped u :=
  have hempty : Registry.Shaped u .empty := ⟨nofun, nofun⟩
  Discovery.walk_keeps (fun _ _ _ => Discovery.register_shaped) hempty h

end Wiring
