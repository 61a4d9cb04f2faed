import Wiring.ErrorOr
import Wiring.Failure
import Wiring.Universe

/-!
Component definitions. A definition is an interface whose `modules` method lists the
modules to draw from. Its targets, the values that the component gives out, are its
other methods, or the methods of the interface that its `target` method returns.
-/
namespace Wiring

/-- An accessor of the component and what it returns. -/
structure Target where
  method : String
  type : TypeRef
  isFallible : Bool
deriving DecidableEq, Repr

structure Definition where
  identity : Identity
  modules : List TypeRef
  targets : List Target
  /-- The interface that the component implements, if the targets are declared there. -/
  componentInterface : Option Identity
deriving DecidableEq, Repr

namespace Definition

/-- The method that lists modules. -/
def modulesMethod : String := "modules"

/-- The method that names the interface of the component. -/
def targetMethod : String := "target"

/-- The references in a result list; a single tuple lists its items. -/
def moduleList : List TypeRef → List TypeRef
  | [.tuple items] => items
  | results => results

/-- The value that a target returns, and whether an error may come in its place. -/
def targetResult? : List TypeRef → Option (TypeRef × Bool)
  | [t] => if t.isError then none else some (t, false)
  | [t, .error] => if t.isError then none else some (t, true)
  | _ => none

theorem targetResult?_eq_some_iff {ts : List TypeRef} {t : TypeRef} {isFallible : Bool} :
    targetResult? ts = some (t, isFallible) ↔
      t.isError = false ∧ ts = if isFallible then [t, .error] else [t] := by
  unfold targetResult?
  split <;> cases isFallible <;> grind

def targetOf (m : Method) : Except Failure Target :=
  if m.params ≠ [] then .error (.targetHasParameters m.name m.params.length)
  else
    match targetResult? m.results with
    | none => .error (.invalidTargetResults m.name)
    | some (type, isFallible) =>
      match type.shape with
      | none => .error (.unsupportedTargetType m.name type)
      | some _ => .ok { method := m.name, type, isFallible }

theorem targetOf_eq_ok_iff {m : Method} {t : Target} : targetOf m = .ok t ↔
    m.params = [] ∧ targetResult? m.results = some (t.type, t.isFallible) ∧
      (∃ s, t.type.shape = some s) ∧ t.method = m.name := by
  constructor
  · intro h
    unfold targetOf at h
    split at h
    · cases h
    · next hparams =>
      split at h
      · cases h
      · next hresult =>
        split at h
        · cases h
        · next hshape =>
          cases h
          exact ⟨Decidable.not_not.mp hparams, hresult, ⟨_, hshape⟩, rfl⟩
  · rintro ⟨hparams, hresult, ⟨s, hshape⟩, hmethod⟩
    simp [targetOf, hparams, hresult, hshape, ← hmethod]

/-- The methods of a declaration that are targets: the public ones without a role of
their own. -/
def targetMethods (d : Decl) : List Method :=
  d.publicMethods.filter fun m => m.name ≠ modulesMethod ∧ m.name ≠ targetMethod

def targetsOf (d : Decl) : Except Failure (List Target) :=
  (targetMethods d).mapM targetOf

/-- The component has a method of this name, whatever its targets are. -/
def isReserved (name : String) : Bool :=
  name = "new" || "provides_".toList.isPrefixOf name.toList

/-- The interface that the `target` method of a definition returns. -/
def interfaceOf (u : Universe) (m : Method) : Except Failure Identity :=
  if m.params ≠ [] then .error (.targetHasParameters m.name m.params.length)
  else
    match m.results with
    | [.named i] =>
      if u.declaresInterface i then .ok i else .error (.unsupportedTargetType m.name (.named i))
    | [t] => .error (.unsupportedTargetType m.name t)
    | _ => .error (.invalidTargetResults m.name)

theorem interfaceOf_eq_ok_iff {u : Universe} {m : Method} {i : Identity} :
    interfaceOf u m = .ok i ↔
      m.params = [] ∧ m.results = [.named i] ∧ u.declaresInterface i = true := by
  constructor
  · intro h
    unfold interfaceOf at h
    split at h
    · cases h
    · next hparams =>
      split at h
      · next j hresults =>
        split at h
        · next hdeclared =>
          cases h
          exact ⟨Decidable.not_not.mp hparams, hresults, hdeclared⟩
        · cases h
      · cases h
      · cases h
  · rintro ⟨hparams, hresults, hdeclared⟩
    simp [interfaceOf, hparams, hresults, hdeclared]

/-- The module list of a definition, whose `modules` method takes no parameters. -/
def modulesOf (d : Decl) : Except Failure (List TypeRef) :=
  match d.method? modulesMethod with
  | some m =>
    if m.params = [] then .ok (moduleList m.results)
    else .error (.missingModulesMethod d.identity)
  | none => .error (.missingModulesMethod d.identity)

/-- Targets that stand on the definition itself become methods of the component and may
not take the place of its other methods. -/
def ownTargets (d : Decl) : Except Failure (List Target) :=
  match targetsOf d with
  | .error e => .error e
  | .ok targets =>
    match targets.find? fun t => isReserved t.method with
    | some t => .error (.reservedTargetName t.method)
    | none => .ok targets

theorem ownTargets_eq_ok_iff {d : Decl} {targets : List Target} : ownTargets d = .ok targets ↔
    targetsOf d = .ok targets ∧ ∀ t ∈ targets, isReserved t.method = false := by
  constructor
  · intro h
    unfold ownTargets at h
    split at h
    · cases h
    · next htargets =>
      split at h
      · cases h
      · next hnone =>
        cases h
        exact ⟨htargets, by simpa using hnone⟩
  · rintro ⟨htargets, hfree⟩
    have hnone : (targets.find? fun t => isReserved t.method) = none := by
      simpa using hfree
    simp [ownTargets, htargets, hnone]

/-- The targets of the interface that `m` returns, and that interface. -/
def interfaceTargets (u : Universe) (m : Method) : Except Failure (List Target × Identity) :=
  match interfaceOf u m with
  | .error e => .error e
  | .ok i =>
    match u.lookup i with
    | none => .error (.definitionNotFound i)
    | some d => (targetsOf d).map fun targets => (targets, i)

theorem interfaceTargets_eq_ok_iff {u : Universe} {m : Method} {targets : List Target}
    {i : Identity} : interfaceTargets u m = .ok (targets, i) ↔
      m.params = [] ∧ m.results = [.named i] ∧
        ∃ e, u.lookup i = some e ∧ e.isInterface = true ∧ targetsOf e = .ok targets := by
  constructor
  · intro h
    unfold interfaceTargets at h
    split at h
    · cases h
    · next hinterface =>
      obtain ⟨hparams, hresults, hdeclared⟩ := interfaceOf_eq_ok_iff.mp hinterface
      obtain ⟨e, he, hkind⟩ := Universe.declaresInterface_iff.mp hdeclared
      rw [he] at h
      obtain ⟨ts, htargets, heq⟩ := map_eq_ok_iff.mp h
      cases heq
      exact ⟨hparams, hresults, e, he, hkind, htargets⟩
  · rintro ⟨hparams, hresults, e, he, hkind, htargets⟩
    have hinterface : interfaceOf u m = .ok i :=
      interfaceOf_eq_ok_iff.mpr
        ⟨hparams, hresults, Universe.declaresInterface_iff.mpr ⟨e, he, hkind⟩⟩
    simp [interfaceTargets, hinterface, he, htargets, Except.map]

/-- The targets of a definition and the interface that declares them, if it is another. -/
def wantedTargets (u : Universe) (d : Decl) :
    Except Failure (List Target × Option Identity) :=
  match d.method? targetMethod with
  | some m => (interfaceTargets u m).map fun (targets, i) => (targets, some i)
  | none => (ownTargets d).map fun targets => (targets, none)

theorem wantedTargets_eq_ok_iff {u : Universe} {d : Decl} {targets : List Target}
    {interface : Option Identity} : wantedTargets u d = .ok (targets, interface) ↔
      (d.method? targetMethod = none ∧ interface = none ∧ ownTargets d = .ok targets) ∨
        ∃ m i, d.method? targetMethod = some m ∧ interface = some i ∧
          interfaceTargets u m = .ok (targets, i) := by
  unfold wantedTargets
  cases d.method? targetMethod with
  | none =>
    rw [map_eq_ok_iff]
    constructor
    · rintro ⟨ts, hown, heq⟩
      cases heq
      exact .inl ⟨rfl, rfl, hown⟩
    · rintro (⟨-, rfl, hown⟩ | ⟨_, _, hm, -⟩)
      · exact ⟨targets, hown, rfl⟩
      · cases hm
  | some m =>
    rw [map_eq_ok_iff]
    constructor
    · rintro ⟨⟨ts, i⟩, hfound, heq⟩
      cases heq
      exact .inr ⟨m, i, rfl, rfl, hfound⟩
    · rintro (⟨hm, -⟩ | ⟨_, i, hm, rfl, hfound⟩)
      · cases hm
      · cases hm
        exact ⟨(targets, i), hfound, rfl⟩

/-- The definition that an interface declares. -/
def ofDecl (u : Universe) (d : Decl) : Except Failure Definition :=
  match modulesOf d with
  | .error e => .error e
  | .ok modules =>
    match wantedTargets u d with
    | .error e => .error e
    | .ok (targets, componentInterface) =>
      if targets = [] then .error (.noTargets d.identity)
      else .ok { identity := d.identity, modules, targets, componentInterface }

/-- The definition called `name` in a package. -/
def load (u : Universe) (package name : String) : Except Failure Definition :=
  match u.find package name with
  | none => .error (.definitionNotFound ⟨package, name⟩)
  | some d =>
    if d.isInterface then ofDecl u d else .error (.definitionNotInterface d.identity)

/-- A definition is loaded from an interface that lists its modules and has targets. -/
theorem load_eq_ok_iff {u : Universe} {package name : String} {d : Definition} :
    load u package name = .ok d ↔ ∃ e, u.find package name = some e ∧ e.isInterface = true ∧
      modulesOf e = .ok d.modules ∧ wantedTargets u e = .ok (d.targets, d.componentInterface) ∧
        d.targets ≠ [] ∧ d.identity = e.identity := by
  constructor
  · intro h
    unfold load at h
    split at h
    · cases h
    · next e he =>
      split at h
      · next hinterface =>
        unfold ofDecl at h
        split at h
        · cases h
        · next ms hms =>
          split at h
          · cases h
          · next hwanted =>
            split at h
            · cases h
            · next htargets =>
              cases h
              exact ⟨e, he, hinterface, hms, hwanted, htargets, rfl⟩
      · cases h
  · rintro ⟨e, he, hinterface, hms, hwanted, htargets, hidentity⟩
    simp [load, he, hinterface, ofDecl, hms, hwanted, htargets, ← hidentity]

end Definition

end Wiring
