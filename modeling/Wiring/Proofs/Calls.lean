import Wiring.Code

/-!
Calls in generated code. A call enters a routine of the plan or a method of a value module, and
a question mark after it hands the error of the callee on. No type is spelled like a result, so
that the header of a routine tells whether the routine is fallible.
-/
namespace Wiring

/-- What the expression for a source calls. -/
def Source.callee (x : Source) : Callee :=
  match x.kind with
  | .provider => .wrapper x.identity
  | .factory => .factory x.identity

/-- The routine of a plan that a call enters, unless it calls a method. -/
def Plan.routine? (u : Universe) (component : String) (p : Plan) : Callee → Option Routine
  | .wrapper i => (p.providers.find? i).map (Routine.wrapper u)
  | .factory i => (p.factories.find? i).map (Routine.factory component)
  | .method _ _ _ => none

def Step.value : Step → Expr
  | bind _ value => value
  | bindMutable _ value => value
  | assign _ value => value

namespace Expr

def callee? : Expr → Option Callee
  | call callee _ _ _ => some callee
  | defaultOf _ => none
  | var _ => none

/-- The expression is a call that a question mark follows. -/
inductive Propagates : Expr → Prop
  | call {callee : Callee} {component : String} {propagates : Bool} {cast : Option Identity}
      (h : (call callee component propagates cast).pieces.head? =
        some (.text (calleeText component callee ++ "?"))) :
      Propagates (.call callee component propagates cast)

theorem propagates_call_iff {callee : Callee} {component : String} {propagates : Bool}
    {cast : Option Identity} :
    (call callee component propagates cast).Propagates ↔ propagates = true := by
  constructor
  · intro hprop
    obtain ⟨h⟩ := hprop
    cases propagates with
    | true => rfl
    | false =>
      simp only [pieces, List.head?_cons, Option.some.injEq, Piece.text.injEq] at h
      have hlength := congrArg String.length h
      simp at hlength
  · rintro rfl
    exact ⟨rfl⟩

theorem ofSource_eq (component : String) (x : Source) :
    ofSource component x = .call x.callee component x.isFallible x.cast :=
  rfl

end Expr

namespace TypeRef

/-- A result is spelled by a text of its own, which is the first piece of at least four. -/
theorem pieces_ne_result (u : Universe) (t : TypeRef) (type : List Piece) :
    t.pieces u ≠ resultPieces type true := by
  cases t with
  | named i => by_cases hi : u.declaresInterface i = true <;> simp [pieces, resultPieces, hi]
  | builtin n => simp [pieces, resultPieces]
  | error => simp [pieces, resultPieces]
  | pointer t => simp [pieces, resultPieces]
  | slice t => simp [pieces, resultPieces]
  | map k v => simp [pieces, resultPieces]
  | tuple ts => simp [pieces, resultPieces]

end TypeRef

namespace Routine

variable {u : Universe} {r : Routine}

/-- The expressions of a routine in the order of evaluation. -/
def exprs (r : Routine) : List Expr :=
  r.steps.map Step.value ++ [r.value]

/-- The header declares that the routine may return an error instead of a value. -/
def ReturnsResult (r : Routine) : Prop :=
  ∃ type, r.header = .text (r.visibility ++ "fn " ++ r.name ++ "(" ++ r.params ++ ") -> ") ::
    resultPieces type true ++ [.text " \x7b"]

theorem returnsResult_iff (h : ∀ type, r.result ≠ resultPieces type true) :
    r.ReturnsResult ↔ r.isFallible = true := by
  constructor
  · intro hresult
    obtain ⟨type, hheader⟩ := hresult
    cases hfail : r.isFallible with
    | true => rfl
    | false =>
      rw [header, hfail, List.cons_append, List.cons_append] at hheader
      have hresult : r.result = resultPieces type true :=
        List.append_cancel_right (List.cons.inj hheader).2
      exact absurd hresult (h type)
  · intro hfail
    exact ⟨r.result, by rw [header, hfail]⟩

theorem accessor_returnsResult_iff (visibility : String) (z : WiredTarget) :
    (accessor u visibility z).ReturnsResult ↔ z.target.isFallible = true :=
  returnsResult_iff (TypeRef.pieces_ne_result u z.target.type)

theorem wrapper_returnsResult_iff (e : PlannedProvider) :
    (wrapper u e).ReturnsResult ↔ e.isFallible = true :=
  returnsResult_iff (TypeRef.pieces_ne_result u e.provider.result)

theorem factory_result (component : String) (f : Factory) :
    (factory component f).result = [.text "Box<", .typeName f.identity, .text ">"] := by
  unfold factory
  dsimp only
  split <;> rfl

theorem factory_isFallible (component : String) (f : Factory) :
    (factory component f).isFallible = f.isFallible := by
  unfold factory
  dsimp only
  split <;> rfl

theorem factory_returnsResult_iff (component : String) (f : Factory) :
    (factory component f).ReturnsResult ↔ f.isFallible = true := by
  rw [returnsResult_iff, factory_isFallible]
  intro type
  simp [factory_result, resultPieces]

theorem exprs_accessor (visibility : String) (z : WiredTarget) :
    (accessor u visibility z).exprs = [.ofSource "self" z.source] :=
  rfl

theorem exprs_wrapper (e : PlannedProvider) :
    (wrapper u e).exprs = e.params.map (.ofSource "self") ++
      [.call (.method e.provider.module e.provider.method
        ((List.range e.params.length).map paramName)) "self" e.provider.isFallible none] := by
  have hsteps : (e.params.mapIdx fun n x => Step.bind (paramName n) (.ofSource "self" x)).map
      Step.value = e.params.map (.ofSource "self") := by
    apply List.ext_getElem
    · simp
    · simp [Step.value]
  simp [exprs, wrapper, hsteps]

/-- A factory calls for the sources of its fields only. -/
theorem mem_exprs_factory {component : String} {f : Factory} {e : Expr} {callee : Callee}
    (he : e ∈ (factory component f).exprs) (hcallee : e.callee? = some callee) :
    ∃ a ∈ f.fields, e = .ofSource "component" a.source := by
  unfold factory at he
  dsimp only at he
  split at he
  · obtain rfl : e = .defaultOf f.identity := by simpa [exprs] using he
    cases hcallee
  · simp only [exprs, List.map_cons, List.map_map, List.mem_append, List.mem_cons,
      List.mem_map, List.not_mem_nil, or_false] at he
    rcases he with (rfl | ⟨a, ha, rfl⟩) | rfl
    · cases hcallee
    · exact ⟨a, ha, rfl⟩
    · cases hcallee

/-- The value is wrapped as a success exactly in a routine that is fallible. -/
theorem last_eq_success_iff :
    r.last = .text "Ok(" :: r.value.pieces ++ [.text ")"] ↔ r.isFallible = true := by
  constructor
  · intro hlast
    cases hfail : r.isFallible with
    | true => rfl
    | false =>
      have hlength := congrArg List.length hlast
      simp only [last, hfail, Bool.false_eq_true, if_false, List.cons_append, List.length_cons,
        List.length_append] at hlength
      omega
  · intro hfail
    rw [last, hfail]
    rfl

theorem last_eq_value_iff : r.last = r.value.pieces ↔ r.isFallible = false := by
  constructor
  · intro hlast
    cases hfail : r.isFallible with
    | true =>
      have hlength := congrArg List.length hlast
      simp only [last, hfail, if_true, List.cons_append, List.length_cons,
        List.length_append] at hlength
      omega
    | false => rfl
  · intro hfail
    simp [last, hfail]

end Routine

end Wiring
