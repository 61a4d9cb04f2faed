import Wiring.Artifact
import Wiring.Proofs.Identifiers

/-!
What artifacts are made of. The lines of an artifact are the lines of its routines in order,
and lines around them in which no question mark is written. An artifact of a plan is the root,
or it holds the accessors, or one factory, or one wrapper.
-/
namespace Wiring

open Naming Artifact

/-- Nothing that is written in the line propagates an error. -/
def Line.Quiet (l : Line) : Prop :=
  ∀ s, .text s ∈ l.pieces → '?' ∉ s.toList

/-- The lines `ls` are those of the routines `rs` in order, with quiet lines around them. -/
inductive LaidOut : List Line → List Routine → Prop
  | nil : LaidOut [] []
  | line {l : Line} {ls : List Line} {rs : List Routine} (hl : l.Quiet) (h : LaidOut ls rs) :
      LaidOut (l :: ls) rs
  | routine {r : Routine} {ls : List Line} {rs : List Routine} (depth : Nat)
      (h : LaidOut ls rs) : LaidOut (r.lines depth ++ ls) (r :: rs)

namespace LaidOut

variable {ls ls' : List Line} {rs rs' : List Routine}

theorem append (h : LaidOut ls rs) (h' : LaidOut ls' rs') :
    LaidOut (ls ++ ls') (rs ++ rs') := by
  induction h with
  | nil => exact h'
  | line hl _ ih => exact .line hl ih
  | routine depth _ ih =>
    rw [List.append_assoc]
    exact .routine depth ih

theorem quiet (h : ∀ l ∈ ls, l.Quiet) : LaidOut ls [] := by
  induction ls with
  | nil => exact .nil
  | cons l ls ih =>
    exact .line (h l List.mem_cons_self) (ih fun l' hl' => h l' (List.mem_cons_of_mem l hl'))

theorem lines (r : Routine) (depth : Nat) : LaidOut (r.lines depth) [r] := by
  have h := routine (r := r) depth nil
  rwa [List.append_nil] at h

/-- Routines between quiet lines. -/
theorem framed {before after : List Line} (hbefore : ∀ l ∈ before, l.Quiet)
    (h : LaidOut ls rs) (hafter : ∀ l ∈ after, l.Quiet) :
    LaidOut (before ++ ls ++ after) rs := by
  have happend := ((quiet hbefore).append h).append (quiet hafter)
  rwa [List.nil_append, List.append_nil] at happend

end LaidOut

namespace Artifact

theorem quiet_plain {s : String} (h : '?' ∉ s.toList) (depth : Nat) : (plain s depth).Quiet := by
  intro t ht
  have hts : t = s := by simpa [plain] using ht
  rwa [hts]

theorem quiet_blank : Line.blank.Quiet :=
  fun _ h => nomatch h

theorem quiet_close : ∀ l ∈ [plain "\x7d" 0], l.Quiet := by
  intro l hl
  obtain rfl := List.mem_singleton.mp hl
  exact quiet_plain (by decide) 0

theorem question_not_mem_moduleField (i : Identity) : '?' ∉ (moduleField i).toList :=
  fun h => not_isWordChar_question (isWordChar_of_mem_sanitize h)

variable {u : Universe} {component : String} {p : Plan}

theorem quiet_structLines (h : '?' ∉ component.toList) :
    ∀ l ∈ structLines component p, l.Quiet := by
  intro l hl
  simp only [structLines, List.cons_append, List.mem_cons, List.mem_append, List.mem_map,
    List.not_mem_nil, or_false] at hl
  rcases hl with rfl | ⟨m, -, rfl⟩ | rfl
  · exact quiet_plain (by simp [h]) 0
  · simp [Line.Quiet, fieldLine, question_not_mem_moduleField]
  · exact quiet_plain (by decide) 0

theorem quiet_constructorParams (ms : List ValueModule) :
    ∀ s, .text s ∈ constructorParams ms → '?' ∉ s.toList := by
  induction ms using constructorParams.induct with
  | case1 => simp [constructorParams]
  | case2 m => simp [constructorParams, question_not_mem_moduleField]
  | case3 m ms hms ih =>
    rw [constructorParams.eq_3 _ _ hms]
    simpa [question_not_mem_moduleField] using ih

theorem quiet_initialLine (m : ValueModule) : (initialLine m).Quiet := by
  unfold initialLine
  split
  · exact quiet_plain (by simp [question_not_mem_moduleField]) 3
  · simp [Line.Quiet, question_not_mem_moduleField]

theorem quiet_constructorLines (h : '?' ∉ component.toList) :
    ∀ l ∈ constructorLines component p, l.Quiet := by
  intro l hl
  simp only [constructorLines, List.cons_append, List.mem_cons, List.mem_append, List.mem_map,
    List.not_mem_nil, or_false] at hl
  rcases hl with rfl | rfl | ⟨m, -, rfl⟩ | rfl | rfl
  · intro s hs
    simp only [List.mem_cons, List.mem_append, Piece.text.injEq, List.not_mem_nil,
      or_false] at hs
    rcases hs with rfl | hs | rfl
    · decide
    · exact quiet_constructorParams _ s hs
    · decide
  · exact quiet_plain (by simp [h]) 2
  · exact quiet_initialLine m
  · exact quiet_plain (by decide) 2
  · exact quiet_plain (by decide) 1

theorem laidOut_routineLines (rs : List Routine) : LaidOut (routineLines rs) rs := by
  induction rs using routineLines.induct with
  | case1 => exact .nil
  | case2 r => exact .lines r 1
  | case3 r rs hrs ih =>
    rw [routineLines.eq_3 _ _ hrs]
    exact .routine 1 (.line quiet_blank ih)

theorem laidOut_flatMap (rs : List Routine) :
    LaidOut (rs.flatMap fun r => .blank :: r.lines 1) rs := by
  induction rs with
  | nil => exact .nil
  | cons r rs ih => exact .line quiet_blank (.routine 1 ih)

/-- The accessors as they stand in the component. -/
def placedAccessors (u : Universe) (p : Plan) : List Routine :=
  match p.definition.componentInterface with
  | none => accessors u "pub " p
  | some _ => accessors u "" p

theorem laidOut_componentLines (h : '?' ∉ component.toList) :
    LaidOut (componentLines u component p) (placedAccessors u p) := by
  have hopen : ∀ l ∈ structLines component p ++ .blank ::
      plain ("impl " ++ component ++ " \x7b") 0 :: constructorLines component p, l.Quiet := by
    intro l hl
    simp only [List.mem_append, List.mem_cons] at hl
    rcases hl with hl | rfl | rfl | hl
    · exact quiet_structLines h l hl
    · exact quiet_blank
    · exact quiet_plain (by simp [h]) 0
    · exact quiet_constructorLines h l hl
  unfold componentLines placedAccessors
  cases p.definition.componentInterface with
  | none =>
    have hlaid := LaidOut.framed hopen (laidOut_flatMap (accessors u "pub " p)) quiet_close
    simpa using hlaid
  | some i =>
    have hmiddle : ∀ l ∈ [plain "\x7d" 0, .blank,
        ⟨0, [.text "impl ", .typeName i, .text (" for " ++ component ++ " \x7b")]⟩],
        l.Quiet := by
      simp only [List.forall_mem_cons]
      refine ⟨quiet_plain (by decide) 0, quiet_blank, ?_, fun l hl => nomatch hl⟩
      simp [Line.Quiet, h]
    have hlaid := LaidOut.framed (List.forall_mem_append.mpr ⟨hopen, hmiddle⟩)
      (laidOut_routineLines (accessors u "" p)) quiet_close
    simpa using hlaid

theorem laidOut_factoryLines (f : Factory) :
    LaidOut (factoryLines component f) [.factory component f] :=
  .lines _ 0

theorem laidOut_wrapperLines (h : '?' ∉ component.toList) (e : PlannedProvider) :
    LaidOut (wrapperLines u component e) [.wrapper u e] := by
  have hopen : ∀ l ∈ [plain ("impl " ++ component ++ " \x7b") 0], l.Quiet := by
    intro l hl
    obtain rfl := List.mem_singleton.mp hl
    exact quiet_plain (by simp [h]) 0
  exact .framed hopen (.lines _ 1) quiet_close

end Artifact

/-- An artifact of a plan other than the root, and the routines that it is to hold. -/
inductive Plan.Part (u : Universe) (component : String) (p : Plan) :
    Artifact → List Routine → Prop
  | component : Part u component p (ofComponent u component p) (placedAccessors u p)
  | factory {f : Factory} (hf : f ∈ p.factories.toList) :
      Part u component p (ofFactory component f) [.factory component f]
  | wrapper {e : PlannedProvider} (he : e ∈ p.providers.toList) :
      Part u component p (ofProvider u component e) [.wrapper u e]

variable {u : Universe} {component : String} {p : Plan} {a : Artifact}

/-- The routines of an artifact are written in it, and no question mark outside of them. -/
theorem Plan.Part.laidOut {rs : List Routine} (h : p.Part u component a rs)
    (hc : isIdentifier component = true) :
    ∃ ls uses, a.text = (Sheet.ofLines ls).finish uses ∧ LaidOut ls rs := by
  have hquestion : '?' ∉ component.toList := fun hmem =>
    not_isWordChar_question (isWordChar_of_mem_identifier hc hmem)
  cases h with
  | component => exact ⟨_, _, rfl, laidOut_componentLines hquestion⟩
  | factory _ => exact ⟨_, _, rfl, laidOut_factoryLines _⟩
  | wrapper _ => exact ⟨_, _, rfl, laidOut_wrapperLines hquestion _⟩

theorem emit_eq_ok {arts : Table Artifact} (h : emit u component p = .ok arts) :
    isIdentifier component = true ∧ (∀ x ∈ p.sources, p.holds x = true) ∧
      arts = ofPlan u component p := by
  unfold emit at h
  split at h
  · cases h
  · next hc =>
    split at h
    · cases h
    · next hall =>
      cases h
      refine ⟨by simpa using hc, ?_, rfl⟩
      simpa using hall

/-- Every artifact is the root or a part of the plan. -/
theorem emit_part {arts : Table Artifact} (h : emit u component p = .ok arts)
    (ha : a ∈ arts.toList) :
    (∃ names, a = ⟨rootName, rootText names component p.definition.identity⟩) ∨
      ∃ rs, p.Part u component a rs := by
  obtain ⟨-, -, rfl⟩ := emit_eq_ok h
  rcases Table.mem_insertSorted ha with rfl | ha
  · exact .inl ⟨_, rfl⟩
  · have hitem := Table.mem_of_mem_ofList ha
    simp only [List.cons_append, List.mem_cons, List.mem_append, List.mem_map] at hitem
    rcases hitem with rfl | ⟨f, hf, rfl⟩ | ⟨e, he, rfl⟩
    · exact .inr ⟨_, .component⟩
    · exact .inr ⟨_, .factory hf⟩
    · exact .inr ⟨_, .wrapper he⟩

end Wiring
