import Wiring.Proofs.CodeBlocks
import Wiring.Proofs.CompletionOrder

/-!
The fields of a component. They are read off its lines in three places: where the struct declares
them, where the constructor gives them their first values, and, for modules from outside, where
the constructor takes its parameters. All three list the modules of the plan in one order, which is
that of first use (`planComponent_houses`).
-/
namespace Wiring

open Naming Artifact

/-- A declaration of a field: its name and its type. -/
def Line.field? : Line → Option (String × Identity)
  | ⟨1, [.text s, .typeName i, .text ","]⟩ =>
    (between? "pub(super) " ": " s).map fun name => (name, i)
  | _ => none

/-- The first value of a field, which is either the variable of its name or the default of a
type. -/
def Line.initial? : Line → Option (String × Option Identity)
  | ⟨3, [.text s]⟩ => (between? "" "," s).map fun name => (name, none)
  | ⟨3, [.text s, .typeName i, .text "::default(),"]⟩ =>
    (between? "" ": " s).map fun name => (name, some i)
  | _ => none

/-- The parameters in a list of pieces. -/
def parameters : List Piece → List (String × Identity)
  | .text s :: .typeName i :: ps =>
    ((between? "" ": " s).map fun name => (name, i)).toList ++ parameters ps
  | _ :: ps => parameters ps
  | [] => []

/-- The parameters of the constructor, on the line where it begins. -/
def Line.constructor? : Line → Option (List (String × Identity))
  | ⟨1, .text "pub fn new(" :: ps⟩ => some (parameters ps)
  | _ => none

/-- The lines of a component give a place to each module of the plan. -/
structure Plan.Houses (u : Universe) (component : String) (p : Plan) (ls : List Line) : Prop where
  fields : (block (structHeading component) ls).map Line.field? =
    p.modules.map fun m => some (moduleField m.identity, m.identity)
  distinct : (p.modules.map fun m => moduleField m.identity).Nodup
  initials : (block (initialHeading component) ls).map Line.initial? =
    p.modules.map fun m => some (moduleField m.identity,
      if m.isProvided then none else some m.identity)
  parameters : (block (ownHeading component) ls).filterMap Line.constructor? =
    [(p.modules.filter ValueModule.isProvided).map fun m => (moduleField m.identity, m.identity)]
  /-- The flag of a struct tells whether it is from outside. -/
  supplied : ∀ m ∈ p.modules, ∃ e, u.lookup m.identity = some e ∧ e.isStruct = true ∧
    m.isProvided = e.flags.contains .providedModule

section Lines

variable {u : Universe} {component : String} {p : Plan}

theorem field?_fieldLine (m : ValueModule) :
    (fieldLine m).field? = some (moduleField m.identity, m.identity) := by
  simp [fieldLine, Line.field?]

theorem initial?_initialLine (m : ValueModule) : (initialLine m).initial? =
    some (moduleField m.identity, if m.isProvided then none else some m.identity) := by
  unfold initialLine
  cases m.isProvided with
  | false =>
    have hname := between?_append "" (moduleField m.identity) ": "
    simpa [Line.initial?] using hname
  | true =>
    have hname := between?_append "" (moduleField m.identity) ","
    simpa [Line.initial?, plain] using hname

/-- The comma between two parameters is followed by the name of the second, and not by a type. -/
theorem parameters_constructorParams (ms : List ValueModule) (after : String) :
    parameters (constructorParams ms ++ [.text after]) =
      ms.map fun m => (moduleField m.identity, m.identity) := by
  have hname : ∀ i, between? "" ": " (moduleField i ++ ": ") = some (moduleField i) := by
    intro i
    simpa using between?_append "" (moduleField i) ": "
  induction ms using constructorParams.induct with
  | case1 => simp [constructorParams, parameters]
  | case2 m => simp [constructorParams, parameters, hname]
  | case3 m ms hms ih =>
    rw [constructorParams.eq_3 _ _ hms]
    obtain ⟨m', ms', rfl⟩ := List.exists_cons_of_ne_nil hms
    cases ms' <;> simp_all [constructorParams, parameters]

theorem constructor?_constructorHeading (ms : List ValueModule) :
    (constructorHeading ms).constructor? =
      some ((ms.filter ValueModule.isProvided).map
        fun m => (moduleField m.identity, m.identity)) := by
  simp [constructorHeading, Line.constructor?, parameters_constructorParams]

theorem readsItems_constructor? : ReadsItems Line.constructor? where
  other l h := by
    unfold Line.constructor?
    split
    · exact absurd rfl h
    · rfl
  close := rfl

/-- A routine is not the constructor: the text before its result ends with a blank, and that before
parameters with a parenthesis. -/
theorem constructor?_header (r : Routine) : (⟨1, r.header⟩ : Line).constructor? = none := by
  have hlast : r.visibility ++ "fn " ++ r.name ++ "(" ++ r.params ++ ") -> " ≠ "pub fn new(" :=
    append_ne_of_getLast (by decide) (by decide)
  simp [Line.constructor?, Routine.header, hlast]

/-- There is one constructor, and it takes the modules from outside. -/
theorem filterMap_constructor?_ownLines :
    (ownLines u component p).filterMap Line.constructor? =
      [(p.modules.filter ValueModule.isProvided).map
        fun m => (moduleField m.identity, m.identity)] := by
  rw [readsItems_constructor?.filterMap_ownLines, constructor?_constructorHeading]
  simp [constructor?_header]

end Lines

end Wiring
