import Wiring.Proofs.Outcomes
import Wiring.Proofs.Sequences

/-!
The interface that a component implements. The headings of a file are the lines that open its
items and the functions in them. Those of a component with an interface are the struct, the
methods of its own, which are the constructor alone, and the methods of the interface: one for
each target, in order, with the signature of the method that declares it. Public methods of the
interface named like the two methods of definitions are not taken as targets, so that the
implementation is complete exactly if the interface has none.
-/
namespace Wiring

open Naming Artifact

/-- The line ends with an opening brace. -/
def Line.opens (l : Line) : Bool :=
  match l.pieces.getLast? with
  | some (.text s) => s.toList.getLast? = some '\x7b'
  | _ => false

/-- The lines that open an item of a file, or a function in an item. -/
def headings (ls : List Line) : List Line :=
  ls.filter fun l => l.depth ≤ 1 && l.opens

/-- What a method with these results returns. -/
def Method.resultPieces (u : Universe) : List TypeRef → List Piece
  | [t] => t.pieces u
  | [t, _] => .text "Result<" :: t.pieces u ++ [.text ", ", .errorType, .text ">"]
  | _ => []

/-- The first line of a method of an interface where it is implemented. -/
def Method.heading (u : Universe) (m : Method) : Line :=
  ⟨1, .text ("fn " ++ identifier m.name ++ "(&self) -> ") :: resultPieces u m.results ++
    [.text " \x7b"]⟩

def structHeading (component : String) : Line :=
  plain ("pub struct " ++ component ++ " \x7b") 0

/-- The heading of the methods of the component itself. -/
def ownHeading (component : String) : Line :=
  plain ("impl " ++ component ++ " \x7b") 0

/-- The constructor takes the modules that are provided from outside. -/
def constructorHeading (modules : List ValueModule) : Line :=
  ⟨1, .text "pub fn new(" :: constructorParams (modules.filter ValueModule.isProvided) ++
    [.text ") -> Self \x7b"]⟩

def interfaceHeading (i : Identity) (component : String) : Line :=
  ⟨0, [.text "impl ", .typeName i, .text (" for " ++ component ++ " \x7b")]⟩

/-- The items of a component are its struct, its own methods, of which there is the constructor
only, and the given methods of the interface. -/
def Implements (u : Universe) (component : String) (modules : List ValueModule) (i : Identity)
    (methods : List Method) (ls : List Line) : Prop :=
  headings ls = [structHeading component, ownHeading component, constructorHeading modules,
    interfaceHeading i component] ++ methods.map (Method.heading u)

section Headings

variable {u : Universe} {component : String} {p : Plan}

@[simp] theorem headings_append (ls ls' : List Line) :
    headings (ls ++ ls') = headings ls ++ headings ls' :=
  List.filter_append ls ls'

@[simp] theorem headings_blank_cons (ls : List Line) : headings (.blank :: ls) = headings ls :=
  rfl

theorem Line.opens_of_getLast {depth : Nat} {ps : List Piece} {s : String}
    (h : s.toList.getLast? = some '\x7b') : (⟨depth, ps ++ [.text s]⟩ : Line).opens = true := by
  simp [opens, h]

theorem Line.opens_of_brace (depth : Nat) (ps : List Piece) (s : String) :
    (⟨depth, ps ++ [.text (s ++ " \x7b")]⟩ : Line).opens = true :=
  opens_of_getLast (by rw [String.toList_append, List.getLast?_append]; rfl)

/-- Lines inside of functions are no headings. -/
theorem headings_of_deep {ls : List Line} (h : ∀ l ∈ ls, 1 < l.depth) : headings ls = [] := by
  rw [headings, List.filter_eq_nil_iff]
  intro l hl
  have hdeep := h l hl
  simp [Nat.not_le.mpr hdeep]

theorem headings_cons_of_opens {l : Line} (ls : List Line) (hdepth : l.depth ≤ 1)
    (h : l.opens = true) : headings (l :: ls) = l :: headings ls := by
  simp [headings, hdepth, h]

theorem headings_close (depth : Nat) : headings [plain "\x7d" depth] = [] := by
  have hopens : (plain "\x7d" depth).opens = false := rfl
  simp [headings, hopens]

theorem headings_lines (r : Routine) : headings (r.lines 1) = [⟨1, r.header⟩] := by
  have hheader : (⟨1, r.header⟩ : Line).opens = true := Line.opens_of_getLast rfl
  have hbody : headings (r.steps.map fun s => (⟨2, s.pieces⟩ : Line)) = [] := by
    apply headings_of_deep
    intro l hl
    obtain ⟨s, -, rfl⟩ := List.mem_map.mp hl
    exact Nat.lt_succ_self 1
  have hend : headings [⟨2, r.last⟩, ⟨1, [.text "\x7d"]⟩] = [] := rfl
  rw [Routine.lines, List.cons_append, headings_cons_of_opens _ (Nat.le_refl 1) hheader,
    headings_append, hbody, hend]
  rfl

theorem headings_routineLines (rs : List Routine) :
    headings (routineLines rs) = rs.map fun r => ⟨1, r.header⟩ := by
  induction rs using routineLines.induct with
  | case1 => rfl
  | case2 r => exact headings_lines r
  | case3 r rs hrs ih =>
    rw [routineLines.eq_3 _ _ hrs, headings_append, headings_blank_cons, headings_lines, ih]
    rfl

theorem headings_structLines : headings (structLines component p) = [structHeading component] := by
  have hopens : (structHeading component).opens = true := Line.opens_of_brace 0 [] _
  have hfields : headings (p.modules.map fieldLine) = [] := by
    rw [headings, List.filter_eq_nil_iff]
    intro l hl
    obtain ⟨m, -, rfl⟩ := List.mem_map.mp hl
    simp [fieldLine, Line.opens]
  have hlines : structLines component p =
      structHeading component :: (p.modules.map fieldLine ++ [plain "\x7d" 0]) := rfl
  rw [hlines, headings_cons_of_opens _ (Nat.zero_le 1) hopens, headings_append, hfields,
    headings_close]
  rfl

theorem headings_constructorLines :
    headings (constructorLines component p) = [constructorHeading p.modules] := by
  have hopens : (constructorHeading p.modules).opens = true := Line.opens_of_getLast rfl
  have hinside : headings (plain (component ++ " \x7b") 2 :: p.modules.map initialLine ++
      [plain "\x7d" 2]) = [] := by
    apply headings_of_deep
    simp only [List.cons_append, List.forall_mem_cons, List.forall_mem_append, List.forall_mem_map,
      initialLine]
    have hdepth : 1 < 3 := by decide
    refine ⟨Nat.lt_succ_self 1, fun m _ => ?_, Nat.lt_succ_self 1, fun l hl => nomatch hl⟩
    split <;> exact hdepth
  have hlines : constructorLines component p = constructorHeading p.modules ::
      ((plain (component ++ " \x7b") 2 :: p.modules.map initialLine ++ [plain "\x7d" 2]) ++
        [plain "\x7d" 1]) := by
    simp [constructorLines, constructorHeading, Plan.providedModules]
  rw [hlines, headings_cons_of_opens _ (Nat.le_refl 1) hopens, headings_append, hinside,
    headings_close]
  rfl

/-- A component implements the methods whose headings its accessors have. -/
theorem implements_iff {i : Identity} {methods : List Method}
    (h : p.definition.componentInterface = some i) :
    Implements u component p.modules i methods (componentLines u component p) ↔
      (p.targets.map fun z => (⟨1, (Routine.accessor u "" z).header⟩ : Line)) =
        methods.map (Method.heading u) := by
  have hown : (ownHeading component).opens = true := Line.opens_of_brace 0 [] _
  have hinterface : (interfaceHeading i component).opens = true :=
    Line.opens_of_brace 0 [.text "impl ", .typeName i] _
  have hlines : componentLines u component p = structLines component p ++
      .blank :: ownHeading component :: (constructorLines component p ++ ([plain "\x7d" 0] ++
        .blank :: interfaceHeading i component ::
          (routineLines (accessors u "" p) ++ [plain "\x7d" 0]))) := by
    simp [componentLines, h, ownHeading, interfaceHeading]
  rw [Implements, hlines, headings_append, headings_structLines, headings_blank_cons,
    headings_cons_of_opens _ (Nat.zero_le 1) hown, headings_append, headings_constructorLines,
    headings_append, headings_close, headings_blank_cons,
    headings_cons_of_opens _ (Nat.zero_le 1) hinterface, headings_append, headings_routineLines,
    headings_close]
  simp [accessors, Function.comp_def]

end Headings

section Targets

variable {u : Universe} {p : Plan}

open Definition

theorem Method.resultPieces_of_targetResult? {ts : List TypeRef} {t : TypeRef} {b : Bool}
    (h : targetResult? ts = some (t, b)) :
    Method.resultPieces u ts = Wiring.resultPieces (t.pieces u) b := by
  obtain ⟨-, rfl⟩ := targetResult?_eq_some_iff.mp h
  cases b <;> rfl

/-- The accessor of a target begins like the method that declares the target. -/
theorem heading_of_targetOf {m : Method} {z : WiredTarget} (h : targetOf m = .ok z.target) :
    (⟨1, (Routine.accessor u "" z).header⟩ : Line) = m.heading u := by
  obtain ⟨-, hresult, -, hmethod⟩ := targetOf_eq_ok_iff.mp h
  simp [Routine.header, Routine.accessor, Method.heading, hmethod,
    Method.resultPieces_of_targetResult? hresult, String.append_assoc]

/-- A definition with a target method has the targets of the interface that it returns. -/
theorem load_interface {package name : String} {e : Decl} {m : Method} {d : Definition}
    (h : load u package name = .ok d) (he : u.find package name = some e)
    (hm : e.method? targetMethod = some m) : ∃ i, d.componentInterface = some i ∧
      interfaceTargets u m = .ok (d.targets, i) := by
  obtain ⟨e', he', -, -, hwanted, -, -⟩ := load_eq_ok_iff.mp h
  obtain rfl := Option.some.inj (he.symm.trans he')
  rcases wantedTargets_eq_ok_iff.mp hwanted with ⟨hnone, -⟩ | ⟨m', i, hm', hi, hfound⟩
  · cases hnone.symm.trans hm
  · obtain rfl := Option.some.inj (hm'.symm.trans hm)
    exact ⟨i, hi, hfound⟩

theorem planComponent_targets {package name : String} (h : planComponent u package name = .ok p) :
    load u package name = .ok p.definition ∧
      p.targets.map WiredTarget.target = p.definition.targets := by
  obtain ⟨d, r, hload, -, hresolve⟩ := planComponent_eq_ok_iff.mp h
  obtain ⟨hwire, -⟩ := resolve_eq_ok_iff.mp hresolve
  obtain ⟨w, xs, rfl, hcomplete⟩ := wirePlan_complete hwire
  have htargets : List.Forall₂ Eq d.targets ((w.plan d xs).targets.map WiredTarget.target) :=
    List.forall₂_map_right_iff.mpr (hcomplete.targets.imp fun _ _ h => h.1.symm)
  rw [List.forall₂_eq_eq_eq] at htargets
  exact ⟨hload, htargets.symm⟩

/-- The accessors of a plan begin like the methods that declare its targets. -/
theorem map_accessor_heading {e : Decl}
    (h : targetsOf e = .ok (p.targets.map WiredTarget.target)) :
    (p.targets.map fun z => (⟨1, (Routine.accessor u "" z).header⟩ : Line)) =
      (targetMethods e).map (Method.heading u) := by
  have hmethods := List.forall₂_map_right_iff.mp (mapM_eq_ok_iff.mp h)
  have hheadings : List.Forall₂ Eq ((targetMethods e).map (Method.heading u))
      (p.targets.map fun z => (⟨1, (Routine.accessor u "" z).header⟩ : Line)) := by
    rw [List.forall₂_map_left_iff, List.forall₂_map_right_iff]
    exact hmethods.imp fun _ _ hz => (heading_of_targetOf hz).symm
  rw [List.forall₂_eq_eq_eq] at hheadings
  exact hheadings.symm

theorem implements_targetMethods (component : String) {package name : String} {d : Decl}
    {m : Method} (h : planComponent u package name = .ok p) (hd : u.find package name = some d)
    (hm : d.method? targetMethod = some m) : ∃ i e, m.results = [.named i] ∧
      u.lookup i = some e ∧ e.isInterface = true ∧
        ∀ methods, Implements u component p.modules i methods (componentLines u component p) ↔
          (targetMethods e).map (Method.heading u) = methods.map (Method.heading u) := by
  obtain ⟨hload, htargets⟩ := planComponent_targets h
  obtain ⟨i, hi, hinterface⟩ := load_interface hload hd hm
  obtain ⟨-, hresults, e, he, hkind, htargetsOf⟩ := interfaceTargets_eq_ok_iff.mp hinterface
  rw [← htargets] at htargetsOf
  refine ⟨i, e, hresults, he, hkind, fun methods => ?_⟩
  rw [implements_iff hi, map_accessor_heading htargetsOf]

end Targets

/-- The targets of an interface are all its public methods if none has the name of a method of
definitions. -/
theorem map_targetMethods_iff {β : Type} (e : Decl) (f : Method → β) :
    (Definition.targetMethods e).map f = e.publicMethods.map f ↔
      ∀ m ∈ e.publicMethods, m.name ≠ Definition.modulesMethod ∧
        m.name ≠ Definition.targetMethod := by
  constructor
  · intro h m hm
    have hlength : (Definition.targetMethods e).length = e.publicMethods.length := by
      simpa using congrArg List.length h
    simpa using List.length_filter_eq_length_iff.mp hlength m hm
  · intro h
    have hall : Definition.targetMethods e = e.publicMethods :=
      List.filter_eq_self.mpr (by simpa using h)
    rw [hall]

/-- The artifacts have a component that implements the interface returned by `m`: the public
methods in order, other than those named like a method of definitions, and nothing on its own but
the constructor. The implementation lacks nothing exactly if no method has such a name. -/
def Settings.Implemented (u : Universe) (s : Settings) (arts : Table Artifact) (m : Method) :
    Prop :=
  ∃ i e p, m.results = [.named i] ∧ u.lookup i = some e ∧ e.isInterface = true ∧
    planComponent u s.package s.definition = .ok p ∧
    arts.find? componentName =
      some ⟨componentName, (Sheet.ofLines (componentLines u s.componentType p)).finish []⟩ ∧
    Implements u s.componentType p.modules i
      (e.publicMethods.filter fun m => m.name ≠ "modules" ∧ m.name ≠ "target")
      (componentLines u s.componentType p) ∧
    (Implements u s.componentType p.modules i e.publicMethods
        (componentLines u s.componentType p) ↔
      ∀ m ∈ e.publicMethods, m.name ≠ "modules" ∧ m.name ≠ "target")

/-- A component whose definition names an interface implements it. -/
theorem generate_implements {u : Universe} {s : Settings} {arts : Table Artifact}
    {t : PlanSummary} {d : Decl} {m : Method} (h : generate u s = .generated arts t)
    (hd : u.find s.package s.definition = some d)
    (hm : d.method? Definition.targetMethod = some m) : s.Implemented u arts m := by
  obtain ⟨-, p, hp, rfl, -⟩ := generate_eq_generated_iff.mp h
  obtain ⟨i, e, hresults, he, hkind, himplements⟩ :=
    implements_targetMethods s.componentType hp hd hm
  have hcomponent : ofComponent u s.componentType p ∈ items u s.componentType p :=
    mem_items_iff.mpr (.inl rfl)
  refine ⟨i, e, p, hresults, he, hkind, hp, find?_ofPlan_of_mem hcomponent,
    (himplements _).mpr rfl, ?_⟩
  rw [himplements, map_targetMethods_iff]
  rfl

/-! The shop with its service behind a window, which is an interface of its own. -/

namespace Shop

def front : Identity := ⟨"shop", "Front"⟩

def window : Identity := ⟨"shop", "Window"⟩

def windowMethod : Method where
  name := "target"
  results := [.named window]

def frontDecl : Decl :=
  .ofInterface front
    [{ name := "modules", results := [.pointer (.named values), .named bindings] }, windowMethod]

/-- A method of the window that gives out the service. -/
def served (name : String) : Method where
  name := name
  results := [.pointer (.named service), .error]

def windowDecl (names : List String) : Decl :=
  .ofInterface window (names.map served)

/-- The shop and a window with methods of the given names. -/
def typesBehind (names : List String) : Universe where
  types := (types.types.insert frontDecl).insert (windowDecl names)

def servedTarget (name : String) : Target where
  method := name
  type := .pointer (.named service)
  isFallible := true

/-- The plan of the shop with targets of the given names on the window. -/
def planBehind (names : List String) : Plan :=
  { plan with
    definition :=
      { definition with
        identity := front, targets := names.map servedTarget, componentInterface := some window }
    targets := names.map fun name => ⟨servedTarget name, ⟨.factory, service, none, true⟩⟩ }

def behindWindow : Settings where
  package := "shop"
  definition := "Front"

theorem generate_behindWindow {names targets : List String}
    (h : planComponent (typesBehind names) "shop" "Front" = .ok (planBehind targets)) :
    generate (typesBehind names) behindWindow =
      .generated (ofPlan (typesBehind names) "GeneratedComponent" (planBehind targets))
        (planBehind targets).summary :=
  generate_eq_generated_iff.mpr ⟨by decide +kernel, _, h, rfl, rfl⟩

end Shop

theorem window_implemented : ∃ arts t,
    generate (Shop.typesBehind ["service", "again"]) Shop.behindWindow = .generated arts t ∧
      (Shop.typesBehind ["service", "again"]).find "shop" "Front" = some Shop.frontDecl ∧
      Shop.frontDecl.method? Definition.targetMethod = some Shop.windowMethod ∧
      Shop.behindWindow.Implemented (Shop.typesBehind ["service", "again"]) arts
        Shop.windowMethod := by
  have hplan : planComponent (Shop.typesBehind ["service", "again"]) "shop" "Front" =
      .ok (Shop.planBehind ["service", "again"]) := by decide +kernel
  have hgenerate := Shop.generate_behindWindow hplan
  have hfront : (Shop.typesBehind ["service", "again"]).find "shop" "Front" =
      some Shop.frontDecl := by decide +kernel
  have htarget : Shop.frontDecl.method? Definition.targetMethod = some Shop.windowMethod := by
    decide +kernel
  exact ⟨_, _, hgenerate, hfront, htarget, generate_implements hgenerate hfront htarget⟩

/-- A window may have a method called `modules`, and no function of the component begins like
this method. -/
theorem window_lacks_method : ∃ arts t p,
    generate (Shop.typesBehind ["service", "modules"]) Shop.behindWindow = .generated arts t ∧
      planComponent (Shop.typesBehind ["service", "modules"]) "shop" "Front" = .ok p ∧
      p.definition.componentInterface = some Shop.window ∧
      (Shop.typesBehind ["service", "modules"]).lookup Shop.window =
        some (Shop.windowDecl ["service", "modules"]) ∧
      Shop.served "modules" ∈ (Shop.windowDecl ["service", "modules"]).publicMethods ∧
      arts.find? componentName =
        some (ofComponent (Shop.typesBehind ["service", "modules"]) "GeneratedComponent" p) ∧
      (Shop.served "modules").heading (Shop.typesBehind ["service", "modules"]) ∉
        headings (componentLines (Shop.typesBehind ["service", "modules"])
          "GeneratedComponent" p) := by
  have hplan : planComponent (Shop.typesBehind ["service", "modules"]) "shop" "Front" =
      .ok (Shop.planBehind ["service"]) := by decide +kernel
  exact ⟨_, _, _, Shop.generate_behindWindow hplan, hplan, rfl, by decide +kernel,
    by decide +kernel, find?_ofPlan_of_mem (mem_items_iff.mpr (.inl rfl)), by decide +kernel⟩

end Wiring
