import Wiring.Definition
import Wiring.Registry

/-!
Discovery of modules. A reference to a struct is a value module, whose public methods
are providers. An interface is a binding module: its public methods are bindings, and a
`modules` method among them includes further modules. Modules are taken from the front
of a worklist, and what a module includes goes to the front, so a module's own modules
come before those that stand after it. Every module is taken once.
-/
namespace Wiring.Discovery

open Definition (modulesMethod moduleList)

/-- The value in a result list, and whether an error may come in its place. -/
def providerResult : List TypeRef → Except ProviderFlaw (TypeRef × Bool)
  | [t] => .ok (t, false)
  | [t, .error] => .ok (t, true)
  | [] => .error .nothing
  | _ => .error .results

def checkProvider (u : Universe) (module : Identity) (m : Method) :
    Except ProviderFlaw Provider :=
  match providerResult m.results with
  | .error e => .error e
  | .ok (result, isFallible) =>
    match result.shape with
    | none => .error .unnamed
    | some s =>
      if s.isReference && u.declaresInterface s.identity then .error .interfaceByReference
      else .ok { provides := s.identity, module, method := m.name, params := m.params, result,
                 isFallible }

def providerOf (u : Universe) (module : Identity) (m : Method) : Except Failure Provider :=
  match checkProvider u module m with
  | .ok p => .ok p
  | .error flaw => .error (.invalidProvider ⟨module, m.name⟩ flaw.reason)

/-- The interface that a binding method returns. -/
def boundInterface (u : Universe) : TypeRef → Except BindingFlaw Identity
  | .named i => if u.declaresInterface i then .ok i else .error .notInterface
  | _ => .error .result

/-- The struct that a binding method takes. -/
def implementation (u : Universe) (t : TypeRef) : Except BindingFlaw Identity :=
  match t.shape with
  | some ⟨i, true⟩ => if u.declaresStruct i then .ok i else .error .notStruct
  | _ => .error .implementationByValue

def checkBinding (u : Universe) (module : Identity) (m : Method) :
    Except BindingFlaw Binding :=
  match m.params, m.results with
  | [p], [result] =>
    match boundInterface u result with
    | .error e => .error e
    | .ok interface =>
      match implementation u p.type with
      | .error e => .error e
      | .ok implementation => .ok { interface, implementation, module, method := m.name }
  | _, _ => .error .signature

def bindingOf (u : Universe) (module : Identity) (m : Method) : Except Failure Binding :=
  match checkBinding u module m with
  | .ok b => .ok b
  | .error flaw => .error (.invalidBinding ⟨module, m.name⟩ flaw.reason)

def registerProvider (u : Universe) (module : Identity) (r : Registry) (m : Method) :
    Except Failure Registry :=
  match providerOf u module m with
  | .error e => .error e
  | .ok p => r.addProvider p

def registerBinding (u : Universe) (module : Identity) (r : Registry) (m : Method) :
    Except Failure Registry :=
  if m.name = modulesMethod then
    if m.params = [] then .ok r
    else .error (.invalidBinding ⟨module, m.name⟩ BindingFlaw.modulesWithParameters.reason)
  else
    match bindingOf u module m with
    | .error e => .error e
    | .ok b => r.addBinding b

def registerValueModule (u : Universe) (d : Decl) (r : Registry) : Except Failure Registry :=
  if (d.method? modulesMethod).isSome then .error (.valueModuleDeclaresModules d.identity)
  else
    (d.publicMethods.foldlM (registerProvider u d.identity) r).map
      (·.addValueModule ⟨d.identity, d.isProvidedModule⟩)

def registerBindingModule (u : Universe) (d : Decl) (r : Registry) : Except Failure Registry :=
  d.publicMethods.foldlM (registerBinding u d.identity) r

/-- Register the methods of a module in the order of declaration. -/
def register (u : Universe) (d : Decl) (r : Registry) : Except Failure Registry :=
  if d.isInterface then registerBindingModule u d r else registerValueModule u d r

/-- The modules that a binding module includes, by the last of its `modules` methods. -/
def nested (d : Decl) : List TypeRef :=
  if d.isInterface then
    match (d.publicMethods.filter fun m => m.name = modulesMethod).getLast? with
    | some m => moduleList m.results
    | none => []
  else []

/-- A value module is given by reference, a binding module by value. -/
def isGivenAs (isReference : Bool) (d : Decl) : Bool :=
  if isReference then d.isStruct else d.isInterface

/-- The declaration of a referenced module. -/
def moduleOf (u : Universe) (t : TypeRef) : Except Failure Decl :=
  match t.shape with
  | none => .error (.unsupportedModule t)
  | some ⟨i, isReference⟩ =>
    match u.lookup i with
    | none => .error (.moduleNotFound i)
    | some d =>
      if isGivenAs isReference d then .ok d
      else .error (.unsupportedModule t)

/-- How many references a module adds to the worklist when it is taken. -/
def pendingOf (seen : List Identity) (d : Decl) : Nat :=
  if d.identity ∈ seen then 0 else (nested d).length

/-- How many references modules can still add to the worklist. -/
def pending (seen : List Identity) : List Decl → Nat
  | [] => 0
  | d :: ds => pendingOf seen d + pending seen ds

theorem pendingOf_cons_le (i : Identity) (seen : List Identity) (d : Decl) :
    pendingOf (i :: seen) d ≤ pendingOf seen d := by
  unfold pendingOf
  by_cases hd : d.identity ∈ seen
  · simp [hd]
  · by_cases hi : d.identity = i <;> simp [hd, hi]

theorem pending_cons_le (i : Identity) (seen : List Identity) (ds : List Decl) :
    pending (i :: seen) ds ≤ pending seen ds := by
  induction ds with
  | nil => exact Nat.le_refl _
  | cons d ds ih => exact Nat.add_le_add (pendingOf_cons_le i seen d) ih

/-- Taking a module uses up what it can add. -/
theorem pending_cons_add_le {seen : List Identity} {ds : List Decl} {d : Decl}
    (hd : d ∈ ds) (hseen : d.identity ∉ seen) :
    pending (d.identity :: seen) ds + (nested d).length ≤ pending seen ds := by
  induction ds with
  | nil => cases hd
  | cons e es ih =>
    simp only [pending]
    rcases List.mem_cons.mp hd with rfl | hd
    · have hrest := pending_cons_le d.identity seen es
      have hdone : pendingOf (d.identity :: seen) d = 0 := by simp [pendingOf]
      have hnew : pendingOf seen d = (nested d).length := by simp [pendingOf, hseen]
      omega
    · have hrest := ih hd
      have hle := pendingOf_cons_le d.identity seen e
      omega

theorem mem_decls_of_moduleOf {u : Universe} {t : TypeRef} {d : Decl}
    (h : moduleOf u t = .ok d) : d ∈ u.decls := by
  unfold moduleOf at h
  split at h
  · cases h
  · split at h
    · cases h
    · next hl =>
      split at h
      · exact Except.ok.inj h ▸ Table.mem_of_find? hl
      · cases h

/-- Take the modules of a worklist one after another. -/
def walk (u : Universe) (worklist : List TypeRef) (seen : List Identity) (r : Registry) :
    Except Failure Registry :=
  match worklist with
  | [] => .ok r
  | t :: rest =>
    match _hmodule : moduleOf u t with
    | .error e => .error e
    | .ok d =>
      if _hseen : d.identity ∈ seen then walk u rest seen r
      else
        match register u d r with
        | .error e => .error e
        | .ok r => walk u (nested d ++ rest) (d.identity :: seen) r
termination_by worklist.length + pending seen u.decls
decreasing_by
  · simp
  · have := pending_cons_add_le (mem_decls_of_moduleOf _hmodule) _hseen
    simp
    omega

@[simp] theorem walk_nil (u : Universe) (seen : List Identity) (r : Registry) :
    walk u [] seen r = .ok r := by
  rw [walk]

theorem walk_cons (u : Universe) (t : TypeRef) (rest : List TypeRef) (seen : List Identity)
    (r : Registry) :
    walk u (t :: rest) seen r = (moduleOf u t).bind fun d =>
      if d.identity ∈ seen then walk u rest seen r
      else (register u d r).bind fun r => walk u (nested d ++ rest) (d.identity :: seen) r := by
  rw [walk]
  cases moduleOf u t with
  | error e => rfl
  | ok d =>
    by_cases hd : d.identity ∈ seen
    · simp [hd, Except.bind]
    · cases hr : register u d r <;> simp [hd, hr, Except.bind]

end Discovery

/-- The registry of everything that the modules offer, and those that they include. -/
def discover (u : Universe) (modules : List TypeRef) : Except Failure Registry :=
  Discovery.walk u modules [] .empty

end Wiring
