import Wiring.Discovery

/-!
What wiring sees of a declaration. The surface of a declaration has its identity, kind and flags,
its public methods and the fields that a factory assigns, and no other members. The surface of a
universe is loaded, and its modules are discovered, like the universe itself: whatever reads a
declaration leaves hidden members out before it looks at what is left.
-/
namespace Wiring

/-- Change the entries of a table, but not their keys. -/
def Table.mapEntries {α κ : Type} [Keyed α κ] [LT κ] (t : Table α) (f : α → α)
    (h : ∀ x, key (f x) = key x) : Table α where
  toList := t.toList.map f
  increasing := List.pairwise_map.mpr (by simpa only [h] using t.increasing)

theorem Table.find?_mapEntries {α κ : Type} [Keyed α κ] [LT κ] [DecidableEq κ] (t : Table α)
    (f : α → α) (h : ∀ x, key (f x) = key x) (k : κ) :
    (t.mapEntries f h).find? k = (t.find? k).map f := by
  have hkeys : (fun x => decide (key x = k)) ∘ f = fun x => decide (key x = k) := by
    funext x
    simp [h]
  rw [find?, mapEntries, List.find?_map, hkeys, find?]

/-- A kind without the members that are not looked at. -/
def Kind.surface : Kind → Kind
  | struct fields methods =>
    .struct (fields.filter Field.isInjected) (methods.filter Method.isPublic)
  | interface methods => .interface (methods.filter Method.isPublic)
  | sealed methods => .sealed (methods.filter Method.isPublic)

namespace Decl

/-- The declaration without its hidden members, and without regard to who may see it. -/
def surface (d : Decl) : Decl where
  identity := d.identity
  kind := d.kind.surface
  flags := d.flags

variable (d : Decl)

@[simp] theorem surface_identity : d.surface.identity = d.identity := rfl

@[simp] theorem surface_flags : d.surface.flags = d.flags := rfl

@[simp] theorem surface_isStruct : d.surface.isStruct = d.isStruct := by
  cases hkind : d.kind <;> simp [surface, Kind.surface, isStruct, hkind]

@[simp] theorem surface_isInterface : d.surface.isInterface = d.isInterface := by
  cases hkind : d.kind <;> simp [surface, Kind.surface, isInterface, hkind]

@[simp] theorem surface_publicMethods : d.surface.publicMethods = d.publicMethods := by
  cases hkind : d.kind <;> simp [surface, Kind.surface, publicMethods, methods, hkind]

@[simp] theorem surface_injectedFields : d.surface.injectedFields = d.injectedFields := by
  cases hkind : d.kind <;> simp [surface, Kind.surface, injectedFields, fields, hkind]

@[simp] theorem surface_method? (name : String) : d.surface.method? name = d.method? name := by
  simp [method?]

@[simp] theorem surface_isInjectable : d.surface.isInjectable = d.isInjectable := by
  simp [isInjectable]

@[simp] theorem surface_isProvidedModule : d.surface.isProvidedModule = d.isProvidedModule := by
  simp [isProvidedModule]

/-- The declarations are of one kind and have the same flags, public methods and injected
fields. -/
structure SameSurface (d e : Decl) : Prop where
  isStruct : d.isStruct = e.isStruct
  isInterface : d.isInterface = e.isInterface
  flags : d.flags = e.flags
  publicMethods : d.publicMethods = e.publicMethods
  injectedFields : d.injectedFields = e.injectedFields

theorem surface_eq_iff {d e : Decl} :
    d.surface = e.surface ↔ d.identity = e.identity ∧ d.SameSurface e := by
  constructor
  · intro h
    refine ⟨?_, ?_, ?_, ?_, ?_, ?_⟩
    · simpa using congrArg identity h
    · simpa using congrArg isStruct h
    · simpa using congrArg isInterface h
    · simpa using congrArg flags h
    · simpa using congrArg publicMethods h
    · simpa using congrArg injectedFields h
  · rintro ⟨hid, hstruct, hinterface, hflags, hmethods, hfields⟩
    have hkind : d.kind.surface = e.kind.surface := by
      cases hd : d.kind <;> cases he : e.kind <;>
        simp_all [Decl.isStruct, Decl.isInterface, Decl.publicMethods, Decl.injectedFields,
          Decl.methods, Decl.fields, Kind.surface]
    simp [surface, hid, hkind, hflags]

end Decl

namespace Universe

/-- The universe without hidden members. -/
def surface (u : Universe) : Universe where
  types := u.types.mapEntries Decl.surface fun _ => rfl

/-- The same types are declared, and their declarations have the same surface. -/
def SameSurface (u v : Universe) : Prop :=
  ∀ i, Option.Rel Decl.SameSurface (u.lookup i) (v.lookup i)

variable (u : Universe)

@[simp] theorem lookup_surface (i : Identity) : u.surface.lookup i = (u.lookup i).map Decl.surface :=
  Table.find?_mapEntries u.types Decl.surface (fun _ => rfl) i

@[simp] theorem find_surface (package name : String) :
    u.surface.find package name = (u.find package name).map Decl.surface :=
  u.lookup_surface _

@[simp] theorem declaresInterface_surface (i : Identity) :
    u.surface.declaresInterface i = u.declaresInterface i := by
  unfold declaresInterface
  rw [lookup_surface]
  cases u.lookup i <;> simp

@[simp] theorem declaresStruct_surface (i : Identity) :
    u.surface.declaresStruct i = u.declaresStruct i := by
  unfold declaresStruct
  rw [lookup_surface]
  cases u.lookup i <;> simp

theorem rel_lookup_iff {u v : Universe} {i : Identity} :
    Option.Rel Decl.SameSurface (u.lookup i) (v.lookup i) ↔
      u.surface.lookup i = v.surface.lookup i := by
  rw [lookup_surface, lookup_surface]
  cases hu : u.lookup i with
  | none => cases hv : v.lookup i <;> simp
  | some d =>
    cases hv : v.lookup i with
    | none => simp
    | some e =>
      have hid : d.identity = e.identity :=
        (identity_of_lookup hu).trans (identity_of_lookup hv).symm
      simp [Decl.surface_eq_iff, hid]

theorem surface_eq_iff {u v : Universe} : u.surface = v.surface ↔ u.SameSurface v := by
  constructor
  · intro h i
    rw [rel_lookup_iff, h]
  · intro h
    have htypes : u.surface.types = v.surface.types :=
      Table.ext_find? fun i => rel_lookup_iff.mp (h i)
    exact congrArg (Universe.mk none) htypes

end Universe

section Loading

variable (u : Universe) (d : Decl)

open Definition

@[simp] theorem targetMethods_surface : targetMethods d.surface = targetMethods d := by
  simp [targetMethods]

@[simp] theorem targetsOf_surface : targetsOf d.surface = targetsOf d := by
  simp [targetsOf]

@[simp] theorem modulesOf_surface : modulesOf d.surface = modulesOf d := by
  simp [modulesOf]

@[simp] theorem interfaceOf_surface (m : Method) : interfaceOf u.surface m = interfaceOf u m := by
  simp [interfaceOf]

@[simp] theorem interfaceTargets_surface (m : Method) :
    interfaceTargets u.surface m = interfaceTargets u m := by
  unfold interfaceTargets
  rw [interfaceOf_surface]
  cases interfaceOf u m with
  | error e => rfl
  | ok i =>
    dsimp only
    rw [Universe.lookup_surface]
    cases u.lookup i <;> simp

@[simp] theorem wantedTargets_surface : wantedTargets u.surface d.surface = wantedTargets u d := by
  simp [wantedTargets, ownTargets]

@[simp] theorem ofDecl_surface : ofDecl u.surface d.surface = ofDecl u d := by
  simp [ofDecl]

@[simp] theorem load_surface (package name : String) :
    load u.surface package name = load u package name := by
  unfold load
  rw [Universe.find_surface]
  cases u.find package name <;> simp

end Loading

section Discovery

variable (u : Universe) (d : Decl) (i : Identity) (r : Registry) (m : Method)

open Discovery

@[simp] theorem registerProvider_surface :
    registerProvider u.surface i r m = registerProvider u i r m := by
  simp [registerProvider, providerOf, checkProvider]

@[simp] theorem bindingOf_surface : bindingOf u.surface i m = bindingOf u i m := by
  have hinterface : ∀ t, boundInterface u.surface t = boundInterface u t := fun t => by
    cases t <;> simp [boundInterface]
  have himplementation : ∀ t, implementation u.surface t = implementation u t := fun t => by
    simp [implementation]
  simp [bindingOf, checkBinding, hinterface, himplementation]

@[simp] theorem registerBinding_surface :
    registerBinding u.surface i r m = registerBinding u i r m := by
  simp [registerBinding]

/-- A module offers what its public methods offer. -/
@[simp] theorem register_surface : register u.surface d.surface r = register u d r := by
  have hprovider : registerProvider u.surface d.identity = registerProvider u d.identity := by
    funext r m
    exact registerProvider_surface u d.identity r m
  have hbinding : registerBinding u.surface d.identity = registerBinding u d.identity := by
    funext r m
    exact registerBinding_surface u d.identity r m
  simp [register, registerBindingModule, registerValueModule, hprovider, hbinding]

@[simp] theorem nested_surface : nested d.surface = nested d := by
  simp [nested]

@[simp] theorem isGivenAs_surface (isReference : Bool) :
    isGivenAs isReference d.surface = isGivenAs isReference d := by
  simp [isGivenAs]

theorem moduleOf_surface (t : TypeRef) :
    moduleOf u.surface t = (moduleOf u t).map Decl.surface := by
  unfold moduleOf
  cases t.shape with
  | none => rfl
  | some s =>
    dsimp only
    rw [Universe.lookup_surface]
    cases u.lookup s.identity with
    | none => rfl
    | some d => cases hgiven : isGivenAs s.isReference d <;> simp [hgiven, Except.map]

/-- The worklist is the same at every step, since a module includes what its public methods
list. -/
theorem walk_surface (worklist : List TypeRef) (seen : List Identity) :
    walk u.surface worklist seen r = walk u worklist seen r := by
  induction worklist, seen, r using walk.induct u with
  | case1 seen r => rw [walk_nil, walk_nil]
  | case2 seen r t rest e hmodule =>
    rw [walk_cons, walk_cons, moduleOf_surface, hmodule]
    rfl
  | case3 seen r t rest d hmodule hseen ih =>
    rw [walk_cons, walk_cons, moduleOf_surface, hmodule]
    simpa [Except.bind, Except.map, hseen] using ih
  | case4 seen r t rest d hmodule hseen e hregistered =>
    rw [walk_cons, walk_cons, moduleOf_surface, hmodule]
    simp [Except.bind, Except.map, hseen, hregistered]
  | case5 seen r t rest d hmodule hseen r₁ hregistered ih =>
    rw [walk_cons, walk_cons, moduleOf_surface, hmodule]
    simpa [Except.bind, Except.map, hseen, hregistered] using ih

@[simp] theorem discover_surface (modules : List TypeRef) :
    discover u.surface modules = discover u modules :=
  walk_surface u .empty modules []

end Discovery

end Wiring
