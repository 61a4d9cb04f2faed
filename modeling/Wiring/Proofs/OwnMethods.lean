import Wiring.Proofs.CodeBlocks

/-!
The methods of a component itself. They stand in blocks under its name, one in its own artifact and
one in the artifact of each wrapper. The names of wrappers start with a word that is reserved when
a definition is loaded, and a name that is escaped as a keyword starts with another one, so that
targets, wrappers and the constructor are called differently (`generate_ownMethods`).
-/
namespace Wiring

open Naming Artifact

/-- The name of a function in the first text of the line where it begins. A method without further
parameters is followed by its result, and the constructor by its parameters. -/
def functionName? (s : String) : Option String :=
  (between? "pub fn " "(&self) -> " s).or
    ((between? "pub(super) fn " "(&self) -> " s).or (between? "pub fn " "(" s))

/-- The name of a function in an item, on the line where it begins. -/
def Line.function? : Line → Option String
  | ⟨1, .text s :: _⟩ => functionName? s
  | _ => none

/-- The methods that lines of code give to the component itself. -/
def ownMethods (component : String) (ls : List Line) : List String :=
  (block (ownHeading component) ls).filterMap Line.function?

namespace Plan

/-- The name of the accessor of a target. -/
def accessorNames (p : Plan) : List String :=
  p.targets.map fun z => identifier z.target.method

def wrapperNames (p : Plan) : List String :=
  p.providers.toList.map fun e => providerMethod e.provider.provides

/-- An artifact of the plan gives the component a method of its own. -/
def HasMethod (u : Universe) (component : String) (p : Plan) (name : String) : Prop :=
  ∃ a preamble ls, p.Code u component a preamble ls ∧ name ∈ ownMethods component ls

/-- The methods of the component itself are the constructor, the wrappers and, if they are not
behind an interface, the accessors. No two of these kinds share a name. -/
structure OwnMethods (u : Universe) (component : String) (p : Plan) : Prop where
  shown : ownMethods component (componentLines u component p) =
    "new" :: if p.definition.componentInterface = none then p.accessorNames else []
  wrapper : ∀ e ∈ p.providers.toList, ownMethods component (wrapperLines u component e) =
    [providerMethod e.provider.provides]
  factory : ∀ f ∈ p.factories.toList, ownMethods component (factoryLines component f) = []
  behind : p.definition.componentInterface ≠ none → ∀ name, p.HasMethod u component name ↔
    name = "new" ∨ name ∈ p.wrapperNames
  accessor : p.definition.componentInterface = none → ∀ name ∈ p.accessorNames,
    name ≠ "new" ∧ name ∉ p.wrapperNames
  distinct : p.wrapperNames.Nodup

end Plan

section Names

theorem function?_accessor (u : Universe) (z : WiredTarget) :
    (⟨1, (Routine.accessor u "pub " z).header⟩ : Line).function? =
      some (identifier z.target.method) := by
  have htext : "pub " ++ "fn " ++ identifier z.target.method ++ "(" ++ "&self" ++ ") -> " =
      "pub fn " ++ identifier z.target.method ++ "(&self) -> " := by
    simp [← String.toList_inj]
  simp only [Line.function?, Routine.header, Routine.accessor, htext, functionName?,
    between?_append, Option.some_or, List.cons_append]

theorem function?_wrapper (u : Universe) (e : PlannedProvider) :
    (⟨1, (Routine.wrapper u e).header⟩ : Line).function? =
      some (providerMethod e.provider.provides) := by
  have htext : "pub(super) " ++ "fn " ++ providerMethod e.provider.provides ++ "(" ++ "&self" ++
      ") -> " = "pub(super) fn " ++ providerMethod e.provider.provides ++ "(&self) -> " := by
    simp [← String.toList_inj]
  have hpublic : between? "pub fn " "(&self) -> "
      ("pub(super) fn " ++ providerMethod e.provider.provides ++ "(&self) -> ") = none := by
    rw [Option.eq_none_iff_forall_ne_some]
    intro n hn
    have hfourth := congrArg (fun s => s.toList[3]?) (between?_eq_some_iff.mp hn)
    simp at hfourth
  simp only [Line.function?, Routine.header, Routine.wrapper, htext, functionName?, hpublic,
    between?_append, Option.none_or, Option.some_or, List.cons_append]

theorem function?_constructor (ms : List ValueModule) :
    (constructorHeading ms).function? = some "new" := by
  have hname : functionName? "pub fn new(" = some "new" := by decide
  simpa [Line.function?, constructorHeading] using hname

theorem readsItems_function? : ReadsItems Line.function? where
  other l h := by
    unfold Line.function?
    split
    · exact absurd rfl h
    · rfl
  close := by
    have hname : functionName? "\x7d" = none := by decide
    simpa [Line.function?, plain] using hname

end Names

section Code

variable {u : Universe} {component : String} {p : Plan}

theorem ownMethods_componentLines : ownMethods component (componentLines u component p) =
    "new" :: if p.definition.componentInterface = none then p.accessorNames else [] := by
  have haccessors : ((accessors u "pub " p).filterMap fun r =>
      (⟨1, r.header⟩ : Line).function?) = p.accessorNames := by
    rw [accessors, List.filterMap_map, Plan.accessorNames, ← List.filterMap_eq_map]
    exact List.filterMap_congr fun z _ => function?_accessor u z
  rw [ownMethods, block_own, readsItems_function?.filterMap_ownLines,
    function?_constructor, haccessors]
  rfl

theorem ownMethods_wrapperLines (e : PlannedProvider) :
    ownMethods component (wrapperLines u component e) = [providerMethod e.provider.provides] := by
  have hclose : plain "\x7d" 0 ∉ (Routine.wrapper u e).lines 1 :=
    not_mem_of_deeper (depth_lines _ 1)
  have hblock : block (ownHeading component) (wrapperLines u component e) =
      (Routine.wrapper u e).lines 1 :=
    block_eq [] rfl List.not_mem_nil hclose
  rw [ownMethods, hblock, readsItems_function?.filterMap_lines, function?_wrapper]
  rfl

/-- A factory is a function outside of the component. -/
theorem ownMethods_factoryLines (f : Factory) :
    ownMethods component (factoryLines component f) = [] := by
  have hopen : ownHeading component ∉ factoryLines component f := by
    have hclose : ownHeading component ≠ ⟨0, [.text "\x7d"]⟩ := ownHeading_ne_close 0
    simp only [factoryLines, Routine.lines, List.cons_append, List.mem_cons, List.mem_append,
      List.mem_map, List.not_mem_nil, or_false, hclose, not_or]
    simp [ownHeading, plain, Routine.header]
  rw [ownMethods, block_eq_nil hopen]
  rfl

end Code

theorem identifier_ne_new {name : String} (h : Definition.isReserved name = false) :
    identifier name ≠ "new" := by
  intro heq
  unfold identifier at heq
  split at heq
  · have hfirst := congrArg (fun s => s.toList.head?) heq
    simp at hfirst
  · simp [Definition.isReserved, heq] at h

theorem hasMethod_iff {u : Universe} {component : String} {p : Plan} {name : String} :
    p.HasMethod u component name ↔ name = "new" ∨
      (p.definition.componentInterface = none ∧ name ∈ p.accessorNames) ∨
        name ∈ p.wrapperNames := by
  constructor
  · rintro ⟨a, preamble, ls, hcode, hname⟩
    cases hcode with
    | component =>
      rw [ownMethods_componentLines, List.mem_cons] at hname
      refine hname.imp_right fun hname => .inl ?_
      split at hname
      · next hnone => exact ⟨hnone, hname⟩
      · cases hname
    | factory _ =>
      rw [ownMethods_factoryLines] at hname
      cases hname
    | wrapper he =>
      rw [ownMethods_wrapperLines, List.mem_singleton] at hname
      exact .inr (.inr (List.mem_map.mpr ⟨_, he, hname.symm⟩))
  · rintro (rfl | ⟨hnone, hname⟩ | hname)
    · exact ⟨_, _, _, .component, by simp [ownMethods_componentLines]⟩
    · exact ⟨_, _, _, .component, by simp [ownMethods_componentLines, hnone, hname]⟩
    · obtain ⟨e, he, rfl⟩ := List.mem_map.mp hname
      exact ⟨_, _, _, .wrapper he, by simp [ownMethods_wrapperLines]⟩

theorem planned_ownMethods {u : Universe} {component : String} {p : Plan} (h : p.Unreserved) :
    p.OwnMethods u component where
  shown := ownMethods_componentLines
  wrapper e _ := ownMethods_wrapperLines e
  factory f _ := ownMethods_factoryLines f
  behind hinterface name := by
    rw [hasMethod_iff]
    simp [hinterface]
  accessor hnone name hname := by
    obtain ⟨z, hz, rfl⟩ := List.mem_map.mp hname
    have hfree := h hnone z hz
    refine ⟨identifier_ne_new hfree, fun hwrapper => ?_⟩
    obtain ⟨e, -, he⟩ := List.mem_map.mp hwrapper
    exact identifier_ne_providerMethod hfree e.provider.provides he.symm
  distinct := List.pairwise_map.mpr ((List.pairwise_map.mp p.providers.nodup_keys).imp
    fun hne heq => hne (providerMethod_inj.mp heq))

/-- A definition without a method that names an interface has targets of its own. -/
theorem Definition.componentInterface_eq_none_iff {u : Universe} {package name : String}
    {d : Definition} {e : Decl} (h : load u package name = .ok d)
    (he : u.find package name = some e) :
    d.componentInterface = none ↔ e.method? targetMethod = none := by
  cases hmethod : e.method? targetMethod with
  | none =>
    obtain ⟨e', he', -, -, hwanted, -, -⟩ := load_eq_ok_iff.mp h
    obtain rfl := Option.some.inj (he.symm.trans he')
    rcases wantedTargets_eq_ok_iff.mp hwanted with ⟨-, hnone, -⟩ | ⟨m, _, hm, -⟩
    · simp [hnone]
    · cases hmethod.symm.trans hm
  | some m =>
    obtain ⟨i, hi, -⟩ := load_interface h he hmethod
    simp [hi]

end Wiring
