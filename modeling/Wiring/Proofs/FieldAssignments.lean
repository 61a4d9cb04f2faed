import Wiring.Proofs.CodeBlocks
import Wiring.Proofs.TargetOrder

/-!
How factories fill the fields of a struct. The assignments in the lines of a factory are those to
the injected fields in the order of declaration, each from the wrapper or the factory that its type
resolves to. Nothing but the value of an assignment can fail, so that where a factory returns early,
the fields before the failing one have been assigned, and those after it have not
(`generate_assigns`).
-/
namespace Wiring

open Naming Artifact

/-- An assignment to a field: the name of the field, and the value. -/
def Line.assignment? : Line → Option (String × List Piece)
  | ⟨1, .text s :: ps⟩ =>
    if ps.getLast? = some (.text ";") then
      (between? "target." " = " s).map fun name => (name, ps.dropLast)
    else none
  | _ => none

def assignments (ls : List Line) : List (String × List Piece) :=
  ls.filterMap Line.assignment?

/-- The line holds a step that hands an error on, after which a function returns. -/
def Line.MayReturn (l : Line) : Prop :=
  ∃ s, .text s ∈ l.pieces ∧ s.toList.getLast? = some '?'

/-- The struct with its default value. -/
def defaultPieces (i : Identity) : List Piece :=
  [.text "Box::new(", .typeName i, .text "::default())"]

/-- The last line of a function that has filled its target. -/
def targetPieces (isFallible : Bool) : List Piece :=
  if isFallible then [.text "Ok(", .text "target", .text ")"] else [.text "target"]

/-- A field is assigned what its type resolves to: a call, with a mark if it may fail, and with a
cast if the type is an interface that is bound. -/
structure Catalog.Assigns (c : Catalog) (g : Field) (a : String × List Piece) : Prop where
  name : a.1 = identifier g.name
  value : ∃ x cast, c.Gives g.type x ∧
    a.2 = .text (x.symbol.callText "component" ++ if x.isFallible then "?" else "") :: cast ∧
      ((∃ i b, g.type = .named i ∧ c.registry.binding? i = some b ∧
          cast = .text " as " :: boxedInterface i) ∨
        ((∀ i, g.type = .named i → c.registry.binding? i = none) ∧ cast = []))

/-- The lines of a factory fill these fields. -/
structure Factory.Fills (c : Catalog) (component : String) (f : Factory) (fields : List Field)
    (ls : List Line) : Prop where
  assigned : List.Forall₂ c.Assigns fields (assignments ls)
  /-- The default is returned as it is if there is nothing to fill. -/
  unassigned : block ⟨0, (Routine.factory component f).header⟩ ls =
    [⟨1, defaultPieces f.identity⟩] ↔ fields = []
  filled : fields ≠ [] → ∃ inside,
    block ⟨0, (Routine.factory component f).header⟩ ls =
      ⟨1, .text "let mut target = " :: defaultPieces f.identity ++ [.text ";"]⟩ ::
        (inside ++ [⟨1, targetPieces f.isFallible⟩]) ∧
      inside.map Line.assignment? = (assignments ls).map some
  /-- A step that may return is the value of a field, with the fields before it assigned. -/
  inOrder : ∀ before l after, ls = before ++ l :: after → l.MayReturn →
    ∃ gs g gs' a, fields = gs ++ g :: gs' ∧ l.assignment? = some a ∧ c.Assigns g a ∧
      List.Forall₂ c.Assigns gs (assignments before) ∧
      List.Forall₂ c.Assigns gs' (assignments after)

/-- The line that assigns a field. -/
def Assignment.line (a : Assignment) : Line :=
  ⟨1, (Step.assign a.field (.ofSource "component" a.source)).pieces⟩

namespace Factory

/-- The line that makes the struct which the other lines fill. -/
def openingLine (f : Factory) : Line :=
  ⟨1, .text "let mut target = " :: defaultPieces f.identity ++ [.text ";"]⟩

/-- The last line of a factory. -/
def returnPieces (f : Factory) : List Piece :=
  if f.fields = [] then
    if f.isFallible then .text "Ok(" :: defaultPieces f.identity ++ [.text ")"]
    else defaultPieces f.identity
  else targetPieces f.isFallible

/-- The lines before the last. -/
def fillingLines (f : Factory) : List Line :=
  if f.fields = [] then [] else f.openingLine :: f.fields.map Assignment.line

end Factory

section Lines

variable {component : String} {f : Factory}

theorem factoryLines_eq : factoryLines component f =
    ⟨0, (Routine.factory component f).header⟩ ::
      ((f.fillingLines ++ [⟨1, f.returnPieces⟩]) ++ plain "\x7d" 0 :: []) := by
  unfold Factory.fillingLines Factory.returnPieces
  cases hfields : f.fields with
  | nil =>
    simp [factoryLines, Routine.lines, Routine.factory, hfields, Routine.last, Expr.pieces,
      defaultPieces, plain]
  | cons a as =>
    simp [factoryLines, Routine.lines, Routine.factory, hfields, Routine.last, Expr.pieces,
      defaultPieces, targetPieces, Factory.openingLine, Step.pieces, Assignment.line, plain]

theorem block_factoryLines : block ⟨0, (Routine.factory component f).header⟩
    (factoryLines component f) = f.fillingLines ++ [⟨1, f.returnPieces⟩] := by
  have hinside : plain "\x7d" 0 ∉ f.fillingLines ++ [⟨1, f.returnPieces⟩] := by
    apply not_mem_of_deeper
    simp only [List.forall_mem_append, List.forall_mem_singleton]
    refine ⟨?_, Nat.one_pos⟩
    unfold Factory.fillingLines
    split
    · exact List.forall_mem_nil _
    · simp only [List.forall_mem_cons, List.forall_mem_map]
      exact ⟨Nat.one_pos, fun _ _ => Nat.one_pos⟩
  rw [factoryLines_eq]
  exact block_eq [] rfl List.not_mem_nil hinside

theorem assignment?_line (a : Assignment) : a.line.assignment? =
    some (identifier a.field, (Expr.ofSource "component" a.source).pieces) := by
  simp [Assignment.line, Step.pieces, Line.assignment?]

theorem assignment?_openingLine (f : Factory) : f.openingLine.assignment? = none := by
  have hname : between? "target." " = " "let mut target = " = none := by decide
  simp [Factory.openingLine, Line.assignment?, defaultPieces, hname]

theorem assignment?_returnPieces (f : Factory) :
    (⟨1, f.returnPieces⟩ : Line).assignment? = none := by
  unfold Factory.returnPieces
  split
  · cases f.isFallible <;> simp [Line.assignment?, defaultPieces]
  · cases f.isFallible <;> simp [Line.assignment?, targetPieces]

theorem assignments_factoryLines : assignments (factoryLines component f) =
    f.fields.map fun a => (identifier a.field, (Expr.ofSource "component" a.source).pieces) := by
  have hfields : (f.fields.map Assignment.line).filterMap Line.assignment? =
      f.fields.map fun a =>
        (identifier a.field, (Expr.ofSource "component" a.source).pieces) := by
    rw [List.filterMap_map, ← List.filterMap_eq_map]
    exact List.filterMap_congr fun a _ => assignment?_line a
  have hfilling : f.fillingLines.filterMap Line.assignment? =
      (f.fields.map Assignment.line).filterMap Line.assignment? := by
    unfold Factory.fillingLines
    split
    · next hnil => simp [hnil]
    · rw [List.filterMap_cons_none (assignment?_openingLine f)]
  have hheader : (⟨0, (Routine.factory component f).header⟩ : Line).assignment? = none := rfl
  have hclose : (plain "\x7d" 0).assignment? = none := rfl
  rw [assignments, factoryLines_eq, List.filterMap_cons_none hheader, List.filterMap_append,
    List.filterMap_append, List.filterMap_cons_none (assignment?_returnPieces f),
    List.filterMap_cons_none hclose, hfilling, hfields]
  simp

theorem not_mayReturn_header (component : String) (f : Factory) (depth : Nat) :
    ¬ (⟨depth, (Routine.factory component f).header⟩ : Line).MayReturn := by
  have hfirst : ∀ start : String, (start ++ ") -> ").toList.getLast? ≠ some '?' := by
    intro start
    rw [getLast?_append_text start (by decide)]
    decide
  simp only [Line.MayReturn, Routine.header, Routine.factory_result]
  generalize hstart : _ ++ ") -> " = start
  have hlast : start.toList.getLast? ≠ some '?' := hstart ▸ hfirst _
  cases (Routine.factory component f).isFallible <;> simp [resultPieces, hlast]

/-- Only the value of an assignment may return. -/
theorem exists_line_of_mayReturn {l : Line} (hl : l ∈ factoryLines component f)
    (h : l.MayReturn) : ∃ a ∈ f.fields, l = a.line := by
  have hopening : ¬ f.openingLine.MayReturn := by
    simp [Line.MayReturn, Factory.openingLine, defaultPieces]
  have hreturn : ¬ (⟨1, f.returnPieces⟩ : Line).MayReturn := by
    unfold Factory.returnPieces
    split
    · cases f.isFallible <;> simp [Line.MayReturn, defaultPieces]
    · cases f.isFallible <;> simp [Line.MayReturn, targetPieces]
  have hclose : ¬ (plain "\x7d" 0).MayReturn := by
    simp [Line.MayReturn, plain]
  rw [factoryLines_eq] at hl
  simp only [List.mem_cons, List.mem_append, List.not_mem_nil, or_false] at hl
  rcases hl with rfl | (hl | rfl) | rfl
  · exact absurd h (not_mayReturn_header component f 0)
  · unfold Factory.fillingLines at hl
    split at hl
    · cases hl
    · rcases List.mem_cons.mp hl with rfl | hl
      · exact absurd h hopening
      · obtain ⟨a, ha, rfl⟩ := List.mem_map.mp hl
        exact ⟨a, ha, rfl⟩
  · exact absurd h hreturn
  · exact absurd h hclose

/-- The lines of a factory whose assignments are those of the given fields. -/
theorem Factory.fills_factoryLines {c : Catalog} {fields : List Field}
    (hassigned : List.Forall₂ c.Assigns fields (assignments (factoryLines component f)))
    (hfallible : f.fields = [] → f.isFallible = false) :
    f.Fills c component fields (factoryLines component f) := by
  have hempty : f.fields = [] ↔ fields = [] := by
    have hlength := hassigned.length_eq
    rw [assignments_factoryLines, List.length_map] at hlength
    rw [← List.length_eq_zero_iff, ← List.length_eq_zero_iff, hlength]
  refine ⟨hassigned, ?_, fun hfields => ?_, fun before l after hls hreturn => ?_⟩
  · rw [block_factoryLines, ← hempty]
    unfold Factory.fillingLines Factory.returnPieces
    constructor
    · intro h
      by_contra hfields
      simp [hfields] at h
    · intro hfields
      simp [hfields, hfallible hfields]
  · have hnonempty : f.fields ≠ [] := mt hempty.mp hfields
    refine ⟨f.fields.map Assignment.line, ?_, ?_⟩
    · simp [block_factoryLines, Factory.fillingLines, Factory.returnPieces, hnonempty,
        Factory.openingLine]
    · simp [assignments_factoryLines, assignment?_line]
  · have hl : l ∈ factoryLines component f := hls ▸ List.mem_append_right _ List.mem_cons_self
    obtain ⟨a, -, rfl⟩ := exists_line_of_mayReturn hl hreturn
    rw [hls, assignments, List.filterMap_append, List.filterMap_cons_some (assignment?_line a)]
      at hassigned
    have hbefore := List.forall₂_take_append _ _ _ hassigned
    have hrest := List.forall₂_drop_append _ _ _ hassigned
    obtain ⟨g, gs', hg, hafter, hfields⟩ := List.forall₂_cons_right_iff.mp hrest
    refine ⟨_, g, gs', _, ?_, assignment?_line a, hg, hbefore, hafter⟩
    rw [← hfields, List.take_append_drop]

end Lines

/-- A type is not both provided and bound. -/
theorem Registry.Discovered.binding?_eq_none {u : Universe} {roots : List TypeRef} {r : Registry}
    (h : r.Discovered u roots) {i : Identity} {p : Provider} (hp : r.provider? i = some p) :
    r.binding? i = none := by
  rw [Option.eq_none_iff_forall_ne_some]
  intro b hb
  exact h.disjoint i (Table.mem_keys_iff.mpr ⟨p, hp⟩) (Table.mem_keys_iff.mpr ⟨b, hb⟩)

section Resolved

variable {u : Universe} {roots : List TypeRef} {r : Registry} {t : TypeRef} {x : Source}

/-- A value is cast just if its type is an interface that is bound. -/
theorem Catalog.Gives.cast_eq (hr : r.Discovered u roots) (h : Catalog.Gives ⟨u, r⟩ t x) :
    (∃ i b, t = .named i ∧ r.binding? i = some b ∧ x.cast = some i) ∨
      ((∀ i, t = .named i → r.binding? i = none) ∧ x.cast = none) := by
  obtain ⟨s, f, hs, rfl, -⟩ := h
  cases hs with
  | @bound i b n _ hb _ =>
    have hi : b.interface = i := Table.key_of_find? hb
    exact .inl ⟨i, b, rfl, hb, congrArg some hi⟩
  | @direct t shape n ht hn =>
    refine .inr ⟨?_, rfl⟩
    rintro i rfl
    obtain rfl : ⟨i, false⟩ = shape := Option.some.inj ht
    cases hn with
    | provider hp _ => exact hr.binding?_eq_none hp
    | factory _ _ _ _ href => cases href

theorem Catalog.Gives.assigns (hr : r.Discovered u roots) {g : Field} {a : Assignment}
    (hname : a.field = g.name) (h : Catalog.Gives ⟨u, r⟩ g.type a.source) :
    Catalog.Assigns ⟨u, r⟩ g
      (identifier a.field, (Expr.ofSource "component" a.source).pieces) where
  name := congrArg identifier hname
  value := by
    refine ⟨a.source, Expr.castPieces a.source.cast, h, ?_, ?_⟩
    · rw [← calleeText_eq a.source.symbol?_callee]
      rfl
    · rcases h.cast_eq hr with ⟨i, b, ht, hb, hcast⟩ | ⟨hfree, hcast⟩
      · rw [hcast]
        exact .inl ⟨i, b, ht, hb, rfl⟩
      · rw [hcast]
        exact .inr ⟨hfree, rfl⟩

end Resolved

/-- A factory is fallible just if the value of a field is. -/
theorem Wired.Sound.factory_isFallible {c : Catalog} {asked : TypeRef → Prop} {w : Wired}
    {f : Factory} (hw : Sound c asked w) (hf : f ∈ w.factories.toList) :
    f.isFallible = (f.fields.map Assignment.source).any Source.isFallible := by
  obtain ⟨d, sources, hfin, rfl⟩ := hw.of_mem_factories hf
  rw [hfin.map_source]
  rfl

end Wiring
