import Wiring.Discovery

/-!
What the methods of a module declare, and how it gets into a registry. A public method of a
struct has the shape of a provider; one of an interface has the shape of a binding, unless it
lists further modules. Registering a module either fails or adds what its methods declare, one
entry for each: no two entries, new or old, share an identity.
-/
namespace Wiring

open Definition (modulesMethod)

/-- A method builds values of a declared type, or references to them unless the type is an
interface. It may return an error instead. -/
structure Provider.DeclaredBy (u : Universe) (module : Identity) (m : Method) (p : Provider) :
    Prop where
  results : m.results = if p.isFallible then [p.result, .error] else [p.result]
  shape : p.result = .named p.provides ∨
    p.result = .pointer (.named p.provides) ∧ u.declaresInterface p.provides = false
  module : p.module = module
  method : p.method = m.name
  params : p.params = m.params

/-- A method takes a reference to a declared struct and returns a declared interface. -/
structure Binding.DeclaredBy (u : Universe) (module : Identity) (m : Method) (b : Binding) :
    Prop where
  params : ∃ name, m.params = [⟨name, .pointer (.named b.implementation)⟩]
  results : m.results = [.named b.interface]
  interface : u.declaresInterface b.interface = true
  implementation : u.declaresStruct b.implementation = true
  module : b.module = module
  method : b.method = m.name

/-- What a method adds to a registry. -/
inductive Entry where
  | provider (p : Provider)
  | binding (b : Binding)
deriving DecidableEq, Repr

/-- The type that is provided or bound. -/
def Entry.identity : Entry → Identity
  | provider p => p.provides
  | binding b => b.interface

namespace Discovery

/-- A public method of `d` declares an entry. -/
inductive Declares (u : Universe) (d : Decl) (m : Method) : Entry → Prop
  | provider {p : Provider} (hstruct : d.isStruct = true) (hp : p.DeclaredBy u d.identity m) :
    Declares u d m (.provider p)
  | binding {b : Binding} (hinterface : d.isInterface = true) (hname : m.name ≠ modulesMethod)
      (hb : b.DeclaredBy u d.identity m) : Declares u d m (.binding b)

/-- What is asked of the public methods of a module: only an interface lists further modules,
by methods without parameters, and all other methods declare entries. -/
structure Accepted (u : Universe) (d : Decl) : Prop where
  struct : d.isStruct = true → ∀ m ∈ d.publicMethods, m.name ≠ modulesMethod
  interface : d.isInterface = true → ∀ m ∈ d.publicMethods, m.name = modulesMethod → m.params = []
  declares : ∀ m ∈ d.publicMethods, m.name ≠ modulesMethod → ∃ e, Declares u d m e

section Shapes

variable {u : Universe} {module : Identity} {m : Method}

theorem providerResult_eq_ok_iff {results : List TypeRef} {t : TypeRef} {isFallible : Bool} :
    providerResult results = .ok (t, isFallible) ↔
      results = if isFallible then [t, .error] else [t] := by
  unfold providerResult
  split <;> cases isFallible <;> simp_all

theorem checkProvider_eq_ok_iff {p : Provider} :
    checkProvider u module m = .ok p ↔ p.DeclaredBy u module m := by
  constructor
  · intro h
    unfold checkProvider at h
    split at h
    · cases h
    · next result isFallible hresult =>
      have hresults := providerResult_eq_ok_iff.mp hresult
      split at h
      · cases h
      · next s hs =>
        split at h
        · cases h
        · next hinterface =>
          cases h
          refine ⟨hresults, ?_, rfl, rfl, rfl⟩
          obtain ⟨i, isReference⟩ := s
          have htype := TypeRef.shape_eq_some_iff.mp hs
          cases isReference with
          | false => exact .inl (by simpa using htype)
          | true => exact .inr ⟨by simpa using htype, by simpa using hinterface⟩
  · intro h
    obtain ⟨provides, module, method, params, result, isFallible⟩ := p
    have hresult : providerResult m.results = .ok (result, isFallible) :=
      providerResult_eq_ok_iff.mpr h.results
    have hshape : result = .named provides ∨
      result = .pointer (.named provides) ∧ u.declaresInterface provides = false := h.shape
    obtain ⟨-, -, rfl, rfl, rfl⟩ := h
    rcases hshape with rfl | ⟨rfl, hinterface⟩
    · simp [checkProvider, hresult, TypeRef.shape]
    · simp [checkProvider, hresult, TypeRef.shape, hinterface]

theorem boundInterface_eq_ok_iff {t : TypeRef} {i : Identity} :
    boundInterface u t = .ok i ↔ t = .named i ∧ u.declaresInterface i = true := by
  cases t with
  | named j =>
    simp only [boundInterface]
    split <;> grind
  | _ => simp [boundInterface]

theorem implementation_eq_ok_iff {t : TypeRef} {i : Identity} :
    implementation u t = .ok i ↔ t = .pointer (.named i) ∧ u.declaresStruct i = true := by
  unfold implementation
  split
  · next j hshape =>
    obtain rfl : t = .pointer (.named j) := by simpa using TypeRef.shape_eq_some_iff.mp hshape
    split <;> grind
  · next hshape =>
    constructor
    · intro h
      cases h
    · rintro ⟨rfl, -⟩
      exact absurd rfl (hshape i)

theorem checkBinding_eq_ok_iff {b : Binding} :
    checkBinding u module m = .ok b ↔ b.DeclaredBy u module m := by
  constructor
  · intro h
    unfold checkBinding at h
    split at h
    · next p result hparams hresults =>
      split at h
      · cases h
      · next i hi =>
        split at h
        · cases h
        · next j hj =>
          cases h
          obtain ⟨rfl, hinterface⟩ := boundInterface_eq_ok_iff.mp hi
          obtain ⟨htype, hstruct⟩ := implementation_eq_ok_iff.mp hj
          exact ⟨⟨p.name, by rw [hparams, ← htype]⟩, hresults, hinterface, hstruct, rfl, rfl⟩
    · cases h
  · intro h
    obtain ⟨interface, implementation, module, method⟩ := b
    obtain ⟨⟨name, hparams⟩, hresults, hinterface, hstruct, rfl, rfl⟩ := h
    have hi := boundInterface_eq_ok_iff.mpr ⟨rfl, hinterface⟩
    have hj := implementation_eq_ok_iff.mpr ⟨rfl, hstruct⟩
    simp only [checkBinding, hparams, hresults, hi, hj]

end Shapes

/-- The entry that a public method of `d` declares, if any. -/
def declared? (u : Universe) (d : Decl) (m : Method) : Option Entry :=
  match d.kind with
  | .struct _ _ => (checkProvider u d.identity m).toOption.map .provider
  | .interface _ =>
    if m.name = modulesMethod then none
    else (checkBinding u d.identity m).toOption.map .binding
  | .sealed _ => none

/-- The entries that a module declares, in the order of its methods. -/
def entries (u : Universe) (d : Decl) : List Entry :=
  d.publicMethods.filterMap (declared? u d)

theorem declared?_eq_some_iff {u : Universe} {d : Decl} {m : Method} {e : Entry} :
    declared? u d m = some e ↔ Declares u d m e := by
  constructor
  · intro h
    unfold declared? at h
    split at h
    · next hkind =>
      obtain ⟨p, hp, rfl⟩ := Option.map_eq_some_iff.mp h
      have hstruct : d.isStruct = true := by simp [Decl.isStruct, hkind]
      exact .provider hstruct (checkProvider_eq_ok_iff.mp (toOption_eq_some_iff.mp hp))
    · next hkind =>
      split at h
      · cases h
      · next hname =>
        obtain ⟨b, hb, rfl⟩ := Option.map_eq_some_iff.mp h
        have hinterface : d.isInterface = true := by simp [Decl.isInterface, hkind]
        exact .binding hinterface hname (checkBinding_eq_ok_iff.mp (toOption_eq_some_iff.mp hb))
    · cases h
  · intro h
    cases h with
    | provider hstruct hp =>
      have hcheck := toOption_eq_some_iff.mpr (checkProvider_eq_ok_iff.mpr hp)
      unfold declared?
      cases hkind : d.kind <;> simp_all [Decl.isStruct]
    | binding hinterface hname hb =>
      have hcheck := toOption_eq_some_iff.mpr (checkBinding_eq_ok_iff.mpr hb)
      unfold declared?
      cases hkind : d.kind <;> simp_all [Decl.isInterface]

theorem mem_entries_iff {u : Universe} {d : Decl} {e : Entry} :
    e ∈ entries u d ↔ ∃ m ∈ d.publicMethods, Declares u d m e := by
  simp [entries, declared?_eq_some_iff]

end Discovery

namespace Registry

def Holds (r : Registry) : Entry → Prop
  | .provider p => p ∈ r.providers.toList
  | .binding b => b ∈ r.bindings.toList

def add (r : Registry) : Entry → Except Failure Registry
  | .provider p => r.addProvider p
  | .binding b => r.addBinding b

/-- No entry has the identity. -/
def Free (r : Registry) (i : Identity) : Prop :=
  ∀ e, r.Holds e → e.identity ≠ i

/-- `r'` is `r` with further entries, whose identities are distinct and were free. -/
structure Extends (r r' : Registry) (es : List Entry) : Prop where
  distinct : (es.map Entry.identity).Nodup
  free : ∀ e ∈ es, r.Free e.identity
  holds : ∀ e, r'.Holds e ↔ r.Holds e ∨ e ∈ es
  valueModules : r'.valueModules = r.valueModules

variable {r r' r₁ : Registry} {e : Entry}

theorem siteOf?_eq_none_iff_free {i : Identity} : r.siteOf? i = none ↔ r.Free i := by
  rw [siteOf?_eq_none_iff]
  constructor
  · rintro ⟨hprovider, hbinding⟩ (p | b) he rfl
    · exact absurd (hprovider.symm.trans (Table.find?_eq_some_iff.mpr ⟨he, rfl⟩)) (by simp)
    · exact absurd (hbinding.symm.trans (Table.find?_eq_some_iff.mpr ⟨he, rfl⟩)) (by simp)
  · intro h
    constructor
    · rw [Option.eq_none_iff_forall_ne_some]
      intro p hp
      exact h (.provider p) (Table.mem_of_find? hp) (Table.key_of_find? hp)
    · rw [Option.eq_none_iff_forall_ne_some]
      intro b hb
      exact h (.binding b) (Table.mem_of_find? hb) (Table.key_of_find? hb)

theorem addProvider_eq_ok_iff {p : Provider} : r.addProvider p = .ok r' ↔
    r.Free p.provides ∧ r' = { r with providers := r.providers.insert p } := by
  rw [← siteOf?_eq_none_iff_free, addProvider]
  cases r.siteOf? p.provides <;> simp [eq_comm]

theorem addBinding_eq_ok_iff {b : Binding} : r.addBinding b = .ok r' ↔
    r.Free b.interface ∧ r' = { r with bindings := r.bindings.insert b } := by
  rw [← siteOf?_eq_none_iff_free, addBinding]
  cases r.siteOf? b.interface <;> simp [eq_comm]

theorem add_isOk_iff : (∃ r', r.add e = .ok r') ↔ r.Free e.identity := by
  cases e with
  | provider p => simp [add, addProvider_eq_ok_iff, Entry.identity]
  | binding b => simp [add, addBinding_eq_ok_iff, Entry.identity]

theorem holds_of_add (h : r.add e = .ok r') (x : Entry) : r'.Holds x ↔ r.Holds x ∨ x = e := by
  cases e with
  | provider p =>
    obtain ⟨hfree, rfl⟩ := addProvider_eq_ok_iff.mp h
    cases x with
    | provider q =>
      have hne : q ∈ r.providers.toList → key q ≠ key p := hfree (.provider q)
      simp only [Holds, Table.mem_insert_iff, Entry.provider.injEq]
      grind
    | binding b => simp [Holds]
  | binding b =>
    obtain ⟨hfree, rfl⟩ := addBinding_eq_ok_iff.mp h
    cases x with
    | provider p => simp [Holds]
    | binding q =>
      have hne : q ∈ r.bindings.toList → key q ≠ key b := hfree (.binding q)
      simp only [Holds, Table.mem_insert_iff, Entry.binding.injEq]
      grind

theorem valueModules_of_add (h : r.add e = .ok r') : r'.valueModules = r.valueModules := by
  cases e with
  | provider p =>
    obtain ⟨-, rfl⟩ := addProvider_eq_ok_iff.mp h
    rfl
  | binding b =>
    obtain ⟨-, rfl⟩ := addBinding_eq_ok_iff.mp h
    rfl

theorem Extends.refl (r : Registry) : r.Extends r [] :=
  ⟨.nil, nofun, by simp, rfl⟩

theorem Extends.cons {es : List Entry} (h : r.add e = .ok r₁) (hes : r₁.Extends r' es) :
    r.Extends r' (e :: es) where
  distinct := by
    have he : r₁.Holds e := (holds_of_add h e).mpr (.inr rfl)
    refine List.nodup_cons.mpr ⟨fun hmem => ?_, hes.distinct⟩
    obtain ⟨x, hx, heq⟩ := List.mem_map.mp hmem
    exact hes.free x hx e he heq.symm
  free := by
    intro x hx y hy
    rcases List.mem_cons.mp hx with rfl | hx
    · exact add_isOk_iff.mp ⟨r₁, h⟩ y hy
    · exact hes.free x hx y ((holds_of_add h y).mpr (.inl hy))
  holds := by
    intro x
    rw [hes.holds, holds_of_add h, or_assoc, List.mem_cons]
  valueModules := hes.valueModules.trans (valueModules_of_add h)

end Registry

namespace Discovery

variable {u : Universe} {d : Decl} {m : Method} {ms : List Method} {r r' : Registry}

theorem registerProvider_eq_ok_iff {module : Identity} : registerProvider u module r m = .ok r' ↔
    ∃ p : Provider, p.DeclaredBy u module m ∧ r.addProvider p = .ok r' := by
  simp only [registerProvider, providerOf, ← checkProvider_eq_ok_iff]
  cases checkProvider u module m <;> simp

theorem registerBinding_eq_ok_iff {module : Identity} : registerBinding u module r m = .ok r' ↔
    m.name = modulesMethod ∧ m.params = [] ∧ r' = r ∨
      m.name ≠ modulesMethod ∧ ∃ b : Binding, b.DeclaredBy u module m ∧ r.addBinding b = .ok r' := by
  simp only [registerBinding, bindingOf, ← checkBinding_eq_ok_iff]
  by_cases hname : m.name = modulesMethod
  · by_cases hparams : m.params = [] <;> simp [hname, hparams, eq_comm]
  · cases checkBinding u module m <;> simp [hname]

/-- Register a public method of a module. -/
def registerMethod (u : Universe) (d : Decl) : Registry → Method → Except Failure Registry :=
  if d.isInterface then registerBinding u d.identity else registerProvider u d.identity

/-- A method that lists modules, where that is allowed. -/
def ListsModules (d : Decl) (m : Method) : Prop :=
  d.isInterface = true ∧ m.name = modulesMethod ∧ m.params = []

/-- The declaration can be a module. -/
def IsModule (d : Decl) : Prop :=
  d.isStruct = true ∨ d.isInterface = true

theorem isInterface_of_isStruct (h : d.isStruct = true) : d.isInterface = false := by
  unfold Decl.isStruct at h
  cases hkind : d.kind <;> simp_all [Decl.isInterface]

theorem registerMethod_eq_ok_iff (hd : IsModule d) : registerMethod u d r m = .ok r' ↔
    ListsModules d m ∧ r' = r ∨ ∃ e, Declares u d m e ∧ r.add e = .ok r' := by
  rcases hd with hstruct | hinterface
  · have hkind := isInterface_of_isStruct hstruct
    simp only [registerMethod, hkind, Bool.false_eq_true, if_false, registerProvider_eq_ok_iff]
    constructor
    · rintro ⟨p, hp, hadd⟩
      exact .inr ⟨.provider p, .provider hstruct hp, hadd⟩
    · rintro (⟨⟨hinterface, -⟩, -⟩ | ⟨e, he, hadd⟩)
      · simp [hkind] at hinterface
      · cases he with
        | provider _ hp => exact ⟨_, hp, hadd⟩
        | binding hinterface => simp [hkind] at hinterface
  · simp only [registerMethod, hinterface, if_true, registerBinding_eq_ok_iff]
    constructor
    · rintro (⟨hname, hparams, rfl⟩ | ⟨hname, b, hb, hadd⟩)
      · exact .inl ⟨⟨hinterface, hname, hparams⟩, rfl⟩
      · exact .inr ⟨.binding b, .binding hinterface hname hb, hadd⟩
    · rintro (⟨⟨-, hname, hparams⟩, rfl⟩ | ⟨e, he, hadd⟩)
      · exact .inl ⟨hname, hparams, rfl⟩
      · cases he with
        | provider hstruct => simp [isInterface_of_isStruct hstruct] at hinterface
        | binding _ hname hb => exact .inr ⟨hname, _, hb, hadd⟩

theorem declared?_of_listsModules (h : ListsModules d m) : declared? u d m = none := by
  obtain ⟨hinterface, hname, -⟩ := h
  unfold declared?
  cases hkind : d.kind <;> simp_all [Decl.isInterface]

/-- Methods that are registered one after another add the entries that they declare. -/
theorem foldlM_registerMethod (hd : IsModule d)
    (h : ms.foldlM (registerMethod u d) r = .ok r') :
    (∀ m ∈ ms, ListsModules d m ∨ ∃ e, Declares u d m e) ∧
      r.Extends r' (ms.filterMap (declared? u d)) := by
  induction ms generalizing r with
  | nil =>
    cases h
    exact ⟨nofun, .refl _⟩
  | cons m ms ih =>
    rw [List.foldlM_cons] at h
    cases hm : registerMethod u d r m with
    | error e =>
      rw [hm] at h
      cases h
    | ok r₁ =>
      rw [hm] at h
      obtain ⟨hms, hextends⟩ := ih h
      rcases (registerMethod_eq_ok_iff hd).mp hm with ⟨hlists, rfl⟩ | ⟨e, he, hadd⟩
      · refine ⟨List.forall_mem_cons.mpr ⟨.inl hlists, hms⟩, ?_⟩
        rwa [List.filterMap_cons_none (declared?_of_listsModules hlists)]
      · refine ⟨List.forall_mem_cons.mpr ⟨.inr ⟨e, he⟩, hms⟩, ?_⟩
        rw [List.filterMap_cons_some (declared?_eq_some_iff.mpr he)]
        exact .cons hadd hextends

/-- Nothing but a taken identity can stop the registration of methods that are accepted. -/
theorem foldlM_registerMethod_isOk (hd : IsModule d)
    (hms : ∀ m ∈ ms, ListsModules d m ∨ ∃ e, Declares u d m e)
    (hdistinct : ((ms.filterMap (declared? u d)).map Entry.identity).Nodup)
    (hfree : ∀ e ∈ ms.filterMap (declared? u d), r.Free e.identity) :
    ∃ r', ms.foldlM (registerMethod u d) r = .ok r' := by
  induction ms generalizing r with
  | nil => exact ⟨r, rfl⟩
  | cons m ms ih =>
    obtain ⟨hm, hms⟩ := List.forall_mem_cons.mp hms
    rw [List.foldlM_cons]
    rcases hm with hlists | ⟨e, he⟩
    · have hentry := declared?_of_listsModules (u := u) hlists
      rw [List.filterMap_cons_none hentry] at hdistinct hfree
      rw [(registerMethod_eq_ok_iff hd).mpr (.inl ⟨hlists, rfl⟩)]
      exact ih hms hdistinct hfree
    · rw [List.filterMap_cons_some (declared?_eq_some_iff.mpr he)] at hdistinct hfree
      obtain ⟨hnew, hdistinct⟩ := List.nodup_cons.mp hdistinct
      obtain ⟨hfirst, hrest⟩ := List.forall_mem_cons.mp hfree
      obtain ⟨r₁, hadd⟩ := Registry.add_isOk_iff.mpr hfirst
      rw [(registerMethod_eq_ok_iff hd).mpr (.inr ⟨e, he, hadd⟩)]
      refine ih hms hdistinct fun x hx y hy => ?_
      rcases (Registry.holds_of_add hadd y).mp hy with hy | rfl
      · exact hrest x hx y hy
      · exact fun heq => hnew (heq ▸ List.mem_map_of_mem hx)

/-- Add `d` to the value modules if it is one. -/
def addModule (d : Decl) (r : Registry) : Registry :=
  if d.isInterface then r else r.addValueModule ⟨d.identity, d.isProvidedModule⟩

theorem holds_addModule {e : Entry} : (addModule d r).Holds e ↔ r.Holds e := by
  unfold addModule
  cases e <;> split <;> rfl

theorem method?_modules_eq_none_iff :
    (d.method? modulesMethod).isSome = false ↔ ∀ m ∈ d.publicMethods, m.name ≠ modulesMethod := by
  simp [Decl.method?]

theorem register_eq_ok_iff (hd : IsModule d) : register u d r = .ok r' ↔
    (d.isStruct = true → ∀ m ∈ d.publicMethods, m.name ≠ modulesMethod) ∧
      ∃ r₁, d.publicMethods.foldlM (registerMethod u d) r = .ok r₁ ∧ r' = addModule d r₁ := by
  rcases hd with hstruct | hinterface
  · have hkind := isInterface_of_isStruct hstruct
    simp only [register, registerValueModule, registerMethod, addModule, hkind, hstruct,
      Bool.false_eq_true, if_false, ← method?_modules_eq_none_iff]
    cases (d.method? modulesMethod).isSome
    · cases hfold : d.publicMethods.foldlM (registerProvider u d.identity) r <;>
        simp [Except.map, eq_comm]
    · simp
  · have hkind : d.isStruct = false :=
      Bool.eq_false_iff.mpr fun h => by simp [isInterface_of_isStruct h] at hinterface
    simp [register, registerBindingModule, registerMethod, addModule, hinterface, hkind]

/-- Registering a module adds the entries that it declares. -/
theorem register_extends (hd : IsModule d) (h : register u d r = .ok r') :
    Accepted u d ∧ ∃ r₁, r.Extends r₁ (entries u d) ∧ r' = addModule d r₁ := by
  obtain ⟨hstruct, r₁, hfold, rfl⟩ := (register_eq_ok_iff hd).mp h
  obtain ⟨hms, hextends⟩ := foldlM_registerMethod hd hfold
  refine ⟨⟨hstruct, ?_, ?_⟩, r₁, hextends, rfl⟩
  · intro hinterface m hm hname
    rcases hms m hm with ⟨-, -, hparams⟩ | ⟨e, he⟩
    · exact hparams
    · cases he with
      | provider hstruct => simp [isInterface_of_isStruct hstruct] at hinterface
      | binding _ hne => exact absurd hname hne
  · intro m hm hname
    rcases hms m hm with ⟨-, hlists, -⟩ | hdeclares
    · exact absurd hlists hname
    · exact hdeclares

theorem register_isOk (hd : IsModule d) (haccepted : Accepted u d)
    (hdistinct : ((entries u d).map Entry.identity).Nodup)
    (hfree : ∀ e ∈ entries u d, r.Free e.identity) : ∃ r', register u d r = .ok r' := by
  have hms : ∀ m ∈ d.publicMethods, ListsModules d m ∨ ∃ e, Declares u d m e := by
    intro m hm
    by_cases hname : m.name = modulesMethod
    · rcases hd with hstruct | hinterface
      · exact absurd hname (haccepted.struct hstruct m hm)
      · exact .inl ⟨hinterface, hname, haccepted.interface hinterface m hm hname⟩
    · exact .inr (haccepted.declares m hm hname)
  obtain ⟨r₁, hfold⟩ := foldlM_registerMethod_isOk hd hms hdistinct hfree
  exact ⟨addModule d r₁, (register_eq_ok_iff hd).mpr ⟨haccepted.struct, r₁, hfold, rfl⟩⟩

end Discovery

end Wiring
