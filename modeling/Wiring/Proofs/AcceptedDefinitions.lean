import Wiring.Proofs.ExposedTypes
import Wiring.Proofs.Sequences

/-!
Which interfaces are definitions. A definition has a first method for modules without parameters,
and targets that stand on it or on the interface that its first target method returns; every target
is a method without parameters for a declared type or a reference to one, perhaps with an error.
These rules are stated on the methods of the declarations, apart from the steps of loading, and
what is loaded is read off the same methods (`load_documented`).
-/
namespace Wiring

/-- The first public method of a declaration with this name. Private methods do not count. -/
structure Decl.First (d : Decl) (name : String) (m : Method) : Prop where
  isPublic : m.visibility = .public
  name_eq : m.name = name
  first : ∃ before after, d.methods = before ++ m :: after ∧
    ∀ m' ∈ before, m'.visibility = .public → m'.name ≠ name

/-- The public methods whose names give them no role of their own. -/
def Decl.plainMethods (d : Decl) : List Method :=
  d.methods.filter fun m => m.visibility = .public ∧ m.name ≠ "modules" ∧ m.name ≠ "target"

/-- A method of a target: it returns a declared type or a reference to one, and nothing but an
error may follow. -/
structure Method.Gives (m : Method) (t : Target) : Prop where
  name_eq : t.method = m.name
  params : m.params = []
  type : ∃ i, t.type = .named i ∨ t.type = .pointer (.named i)
  results : m.results = if t.isFallible then [t.type, .error] else [t.type]

namespace Definition

/-- No method that is made up for components has this name. -/
def Free (name : String) : Prop :=
  name ≠ "new" ∧ ¬ "provides_".toList <+: name.toList

/-- The methods from which `e` takes its targets: its own if no method names an interface, and those
of the interface otherwise. Only the former have to be free. -/
inductive Offers (u : Universe) (e : Decl) : List Method → Option Identity → Prop
  | own (hnone : ∀ m, ¬ e.First "target" m) (hfree : ∀ m ∈ e.plainMethods, Free m.name) :
      Offers u e e.plainMethods none
  | interface {m : Method} {i : Identity} {e' : Decl} (hfirst : e.First "target" m)
      (hparams : m.params = []) (hresults : m.results = [.named i])
      (he' : u.lookup i = some e') (hinterface : e'.isInterface = true) :
      Offers u e e'.plainMethods (some i)

/-- A result list as a list of modules. A tuple that stands alone lists its items. -/
inductive Lists : List TypeRef → List TypeRef → Prop
  | tuple (items : List TypeRef) : Lists [.tuple items] items
  | plain {ts : List TypeRef} (h : ∀ items, ts ≠ [.tuple items]) : Lists ts ts

/-- The declaration `e` is a definition. Its modules are the results of `modules`, and its targets
are `methods`, which stand on `interface` if there is one. -/
structure Documented (u : Universe) (i : Identity) (e : Decl) (modules : Method)
    (methods : List Method) (interface : Option Identity) : Prop where
  declared : u.lookup i = some e
  isInterface : e.isInterface = true
  modules_first : e.First "modules" modules
  modules_params : modules.params = []
  offers : Offers u e methods interface
  nonempty : methods ≠ []
  gives : ∀ m ∈ methods, ∃ t, m.Gives t

/-- What is loaded from these methods. -/
structure LoadedFrom (i : Identity) (modules : Method) (methods : List Method)
    (interface : Option Identity) (d : Definition) : Prop where
  identity : d.identity = i
  modules : Lists modules.results d.modules
  targets : List.Forall₂ Method.Gives methods d.targets
  componentInterface : d.componentInterface = interface

end Definition

section Methods

variable {d : Decl} {m : Method} {name : String}

theorem Decl.method?_eq_find? (d : Decl) (name : String) :
    d.method? name = d.methods.find? fun m => m.isPublic && decide (m.name = name) := by
  simp [Decl.method?, Decl.publicMethods, List.find?_filter]

theorem Decl.method?_eq_some_iff : d.method? name = some m ↔ d.First name m := by
  rw [Decl.method?_eq_find?, List.find?_eq_some_iff_append]
  constructor
  · rintro ⟨hm, before, after, hmethods, hbefore⟩
    simp only [Method.isPublic, Bool.and_eq_true, decide_eq_true_eq] at hm
    refine ⟨hm.1, hm.2, before, after, hmethods, fun m' hm' hpublic => ?_⟩
    simpa [Method.isPublic, hpublic] using hbefore m' hm'
  · rintro ⟨hpublic, hname, before, after, hmethods, hbefore⟩
    refine ⟨by simp [Method.isPublic, hpublic, hname], before, after, hmethods, fun m' hm' => ?_⟩
    simpa [Method.isPublic, imp_iff_not_or] using hbefore m' hm'

theorem Decl.method?_eq_none_iff : d.method? name = none ↔ ∀ m, ¬ d.First name m := by
  simp only [Option.eq_none_iff_forall_ne_some, ne_eq, Decl.method?_eq_some_iff]

theorem targetMethods_eq_plainMethods (d : Decl) :
    Definition.targetMethods d = d.plainMethods := by
  rw [Definition.targetMethods, Decl.publicMethods, List.filter_filter, Decl.plainMethods]
  refine List.filter_congr fun m _ => ?_
  rw [Method.isPublic, Bool.and_comm, ← Bool.decide_and]
  rfl

end Methods

namespace Definition

theorem lists_iff {ts ms : List TypeRef} : Lists ts ms ↔ moduleList ts = ms := by
  constructor
  · rintro (⟨items⟩ | ⟨h⟩)
    · rfl
    · unfold moduleList
      split
      · next items => exact absurd rfl (h items)
      · rfl
  · rintro rfl
    unfold moduleList
    split
    · exact .tuple _
    · next h => exact .plain h

theorem exists_identity_iff {t : TypeRef} :
    (∃ i, t = .named i ∨ t = .pointer (.named i)) ↔ ∃ s, t.shape = some s := by
  constructor
  · rintro ⟨i, rfl | rfl⟩
    · exact ⟨_, rfl⟩
    · exact ⟨_, rfl⟩
  · rintro ⟨⟨i, isReference⟩, hshape⟩
    have htype := TypeRef.shape_eq_some_iff.mp hshape
    cases isReference with
    | false => exact ⟨i, .inl htype⟩
    | true => exact ⟨i, .inr htype⟩

/-- A method is taken as a target exactly if it is the method of one. -/
theorem targetOf_eq_ok_iff_gives {m : Method} {t : Target} : targetOf m = .ok t ↔ m.Gives t := by
  rw [targetOf_eq_ok_iff, targetResult?_eq_some_iff, ← exists_identity_iff]
  constructor
  · rintro ⟨hparams, ⟨-, hresults⟩, htype, hname⟩
    exact ⟨hname, hparams, htype, hresults⟩
  · rintro ⟨hname, hparams, htype, hresults⟩
    have herror : t.type.isError = false := by
      obtain ⟨i, htype | htype⟩ := htype <;> rw [htype] <;> rfl
    exact ⟨hparams, ⟨herror, hresults⟩, htype, hname⟩

theorem targetsOf_eq_ok_iff {e : Decl} {targets : List Target} :
    targetsOf e = .ok targets ↔ List.Forall₂ Method.Gives e.plainMethods targets := by
  simp only [targetsOf, mapM_eq_ok_iff, targetMethods_eq_plainMethods, targetOf_eq_ok_iff_gives]

theorem isReserved_eq_false_iff {name : String} : isReserved name = false ↔ Free name := by
  rw [Free, isReserved, Bool.or_eq_false_iff, decide_eq_false_iff_not,
    ← List.isPrefixOf_iff_prefix, Bool.not_eq_true]

/-- Targets are called like their methods, so that the names of either may be checked. -/
theorem free_of_forall₂ {ms : List Method} {targets : List Target}
    (h : List.Forall₂ Method.Gives ms targets) :
    (∀ t ∈ targets, isReserved t.method = false) ↔ ∀ m ∈ ms, Free m.name := by
  induction h with
  | nil => simp
  | cons hm _ ih => rw [List.forall_mem_cons, List.forall_mem_cons, ih, isReserved_eq_false_iff,
      hm.name_eq]

/-- The targets are those of the methods that a declaration offers. -/
theorem wantedTargets_eq_ok_iff_offers {u : Universe} {e : Decl} {targets : List Target}
    {interface : Option Identity} : wantedTargets u e = .ok (targets, interface) ↔
      ∃ ms, Offers u e ms interface ∧ List.Forall₂ Method.Gives ms targets := by
  simp only [wantedTargets_eq_ok_iff, ownTargets_eq_ok_iff, interfaceTargets_eq_ok_iff,
    targetsOf_eq_ok_iff]
  constructor
  · rintro (⟨hnone, rfl, hgives, hfree⟩ |
      ⟨m, i, hm, rfl, hparams, hresults, e', he', hkind, hgives⟩)
    · have hfirst := Decl.method?_eq_none_iff.mp hnone
      exact ⟨_, .own hfirst ((free_of_forall₂ hgives).mp hfree), hgives⟩
    · exact ⟨_, .interface (Decl.method?_eq_some_iff.mp hm) hparams hresults he' hkind, hgives⟩
  · rintro ⟨ms, hoffers, hgives⟩
    cases hoffers with
    | own hnone hfree =>
      exact .inl ⟨Decl.method?_eq_none_iff.mpr hnone, rfl, hgives,
        (free_of_forall₂ hgives).mpr hfree⟩
    | interface hfirst hparams hresults he' hkind =>
      exact .inr ⟨_, _, Decl.method?_eq_some_iff.mpr hfirst, rfl, hparams, hresults, _, he', hkind,
        hgives⟩

theorem modulesOf_eq_ok_iff {e : Decl} {ts : List TypeRef} : modulesOf e = .ok ts ↔
    ∃ m, e.First "modules" m ∧ m.params = [] ∧ Lists m.results ts := by
  simp only [← Decl.method?_eq_some_iff, lists_iff]
  unfold modulesOf
  split
  · next m hm =>
    have hfirst : e.method? "modules" = some m := hm
    split
    · next hparams => simp [hfirst, hparams]
    · next hparams => simp [hfirst, hparams]
  · next hm =>
    have hnone : e.method? "modules" = none := hm
    simp [hnone]

/-- What is loaded is read off the methods of a declaration that is documented as a definition. -/
theorem load_eq_ok_iff_documented {u : Universe} {package name : String} {d : Definition} :
    load u package name = .ok d ↔ ∃ e modules methods interface,
      Documented u ⟨package, name⟩ e modules methods interface ∧
        LoadedFrom ⟨package, name⟩ modules methods interface d := by
  rw [load_eq_ok_iff]
  simp only [modulesOf_eq_ok_iff, wantedTargets_eq_ok_iff_offers]
  constructor
  · rintro ⟨e, he, hkind, ⟨m, hfirst, hparams, hlists⟩, ⟨ms, hoffers, hgives⟩, hne, hidentity⟩
    have hmethods : ms ≠ [] := by
      rintro rfl
      exact hne (List.forall₂_nil_left_iff.mp hgives)
    have hall : ∀ m ∈ ms, ∃ t, m.Gives t := exists_forall₂_iff.mp ⟨_, hgives⟩
    exact ⟨e, m, ms, _, ⟨he, hkind, hfirst, hparams, hoffers, hmethods, hall⟩,
      ⟨hidentity.trans (Universe.identity_of_lookup he), hlists, hgives, rfl⟩⟩
  · rintro ⟨e, m, ms, _, h, hidentity, hlists, hgives, rfl⟩
    refine ⟨e, h.declared, h.isInterface, ⟨m, h.modules_first, h.modules_params, hlists⟩,
      ⟨ms, h.offers, hgives⟩, fun hnil => ?_,
      hidentity.trans (Universe.identity_of_lookup h.declared).symm⟩
    rw [hnil] at hgives
    exact h.nonempty (List.forall₂_nil_right_iff.mp hgives)

/-- A definition is loaded exactly from a declaration that is documented as one, and it holds what
the methods of this declaration say. -/
theorem load_documented (u : Universe) (package name : String) :
    ((∃ d, load u package name = .ok d) ↔ ∃ e modules methods interface,
      Documented u ⟨package, name⟩ e modules methods interface) ∧
    ∀ d, load u package name = .ok d ↔ ∃ e modules methods interface,
      Documented u ⟨package, name⟩ e modules methods interface ∧
        LoadedFrom ⟨package, name⟩ modules methods interface d := by
  refine ⟨⟨?_, ?_⟩, fun d => load_eq_ok_iff_documented⟩
  · rintro ⟨d, hd⟩
    obtain ⟨e, m, ms, interface, h, -⟩ := load_eq_ok_iff_documented.mp hd
    exact ⟨e, m, ms, interface, h⟩
  · rintro ⟨e, m, ms, interface, h⟩
    obtain ⟨targets, htargets⟩ := exists_forall₂_iff.mpr h.gives
    exact ⟨⟨⟨package, name⟩, moduleList m.results, targets, interface⟩,
      load_eq_ok_iff_documented.mpr
        ⟨e, m, ms, interface, h, rfl, lists_iff.mpr rfl, htargets, rfl⟩⟩

/-- A later method for modules does not make up for the parameters of the first one. -/
example :
    let e := Decl.ofInterface ⟨"shop", "Shop"⟩
      [{ name := "modules", params := [⟨"size", .builtin "u64"⟩] }, { name := "modules" },
        { name := "service", results := [.named ⟨"shop", "Service"⟩] }]
    load { types := .ofList [e] } "shop" "Shop" = .error (.missingModulesMethod e.identity) := by
  decide +kernel

end Definition

end Wiring
