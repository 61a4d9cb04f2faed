import Wiring.Proofs.ImplementedInterface
import Wiring.Proofs.Sequences

/-!
Reading generated code back. The lines inside of an item, a function or an expression stand
between the line that opens it and the brace that closes it (`block`), and a name is what stands
between two given texts (`between?`). The text of every artifact but the root is made from lines
(`Plan.Code`), so that such readings are statements about what is written.
-/
namespace Wiring

open Naming Artifact

/-- What stands between two texts. -/
def between? (before after text : String) : Option String :=
  ((text.toList.dropPrefix? before.toList).bind (·.dropSuffix? after.toList)).map String.ofList

theorem between?_eq_some_iff {before after text name : String} :
    between? before after text = some name ↔ text = before ++ name ++ after := by
  have htoList : text = before ++ name ++ after ↔
      text.toList = before.toList ++ (name.toList ++ after.toList) := by
    rw [← String.toList_inj]
    simp
  rw [htoList]
  constructor
  · intro h
    obtain ⟨cs, hcs, rfl⟩ := Option.map_eq_some_iff.mp h
    obtain ⟨ds, hds, hsuffix⟩ := Option.bind_eq_some_iff.mp hcs
    obtain ⟨before', htext, hbefore⟩ := List.dropPrefix?_eq_some_iff.mp hds
    obtain ⟨after', hafter, hsame⟩ := List.dropSuffix?_eq_some_iff.mp hsuffix
    rw [htext, hafter, String.toList_ofList, eq_of_beq hbefore, eq_of_beq hsame]
  · intro h
    have hprefix : text.toList.dropPrefix? before.toList = some (name.toList ++ after.toList) :=
      List.dropPrefix?_eq_some_iff.mpr ⟨before.toList, h, BEq.rfl⟩
    have hsuffix : (name.toList ++ after.toList).dropSuffix? after.toList = some name.toList :=
      List.dropSuffix?_eq_some_iff.mpr ⟨after.toList, rfl, BEq.rfl⟩
    rw [between?, hprefix, Option.bind_some, hsuffix, Option.map_some, String.ofList_toList]

@[simp] theorem between?_append (before name after : String) :
    between? before after (before ++ name ++ after) = some name :=
  between?_eq_some_iff.mpr rfl

/-- The lines inside of the block that a line opens. -/
def block (opening : Line) (ls : List Line) : List Line :=
  ((ls.dropWhile (· ≠ opening)).drop 1).takeWhile (· ≠ plain "\x7d" opening.depth)

variable {opening : Line} {ls inside after : List Line} {depth : Nat}

theorem block_eq (before : List Line) (hdepth : opening.depth = depth) (hbefore : opening ∉ before)
    (hinside : plain "\x7d" depth ∉ inside) :
    block opening (before ++ opening :: (inside ++ plain "\x7d" depth :: after)) = inside := by
  subst hdepth
  have hother : ∀ l ∈ before, l ≠ opening := fun l hl heq => hbefore (heq ▸ hl)
  have hopen : ∀ l ∈ inside, l ≠ plain "\x7d" opening.depth := fun l hl heq => hinside (heq ▸ hl)
  have hdrop : (before ++ opening :: (inside ++ plain "\x7d" opening.depth :: after)).dropWhile
      (· ≠ opening) = opening :: (inside ++ plain "\x7d" opening.depth :: after) := by
    rw [List.dropWhile_append_of_pos (by simpa using hother)]
    simp
  have htake : (inside ++ plain "\x7d" opening.depth :: after).takeWhile
      (· ≠ plain "\x7d" opening.depth) = inside := by
    rw [List.takeWhile_append_of_pos (by simpa using hopen)]
    simp
  rw [block, hdrop, List.drop_one, List.tail_cons, htake]

/-- A block that is not opened is empty. -/
theorem block_eq_nil (h : opening ∉ ls) : block opening ls = [] := by
  have hother : ∀ l ∈ ls, l ≠ opening := fun l hl heq => h (heq ▸ hl)
  have hdrop : ls.dropWhile (· ≠ opening) = [] :=
    List.dropWhile_eq_nil_iff.mpr (by simpa using hother)
  rw [block, hdrop, List.drop_nil, List.takeWhile_nil]

/-- Lines that stand deeper are not the opening of a block, nor its end. -/
theorem not_mem_of_deeper {l : Line} {ls : List Line} (h : ∀ l' ∈ ls, l.depth < l'.depth) :
    l ∉ ls :=
  fun hl => Nat.lt_irrefl _ (h l hl)

section Component

variable {u : Universe} {component : String} {p : Plan}

/-- The line after which the constructor lists the fields. -/
def initialHeading (component : String) : Line :=
  plain (component ++ " \x7b") 2

/-- The lines of a component after those of its constructor. -/
def accessorLines (u : Universe) (component : String) (p : Plan) : List Line :=
  match p.definition.componentInterface with
  | none => (accessors u "pub " p).flatMap (fun r => .blank :: r.lines 1) ++ [plain "\x7d" 0]
  | some i => [plain "\x7d" 0, .blank, interfaceHeading i component] ++
      routineLines (accessors u "" p) ++ [plain "\x7d" 0]

/-- The methods of the component itself, as far as they are in its own artifact. -/
def ownLines (u : Universe) (component : String) (p : Plan) : List Line :=
  constructorLines component p ++
    match p.definition.componentInterface with
    | none => (accessors u "pub " p).flatMap fun r => .blank :: r.lines 1
    | some _ => []

theorem constructorLines_eq : constructorLines component p = constructorHeading p.modules ::
    initialHeading component ::
      (p.modules.map initialLine ++ [plain "\x7d" 2, plain "\x7d" 1]) := by
  simp [constructorLines, constructorHeading, initialHeading, Plan.providedModules]

theorem componentLines_eq : componentLines u component p = structHeading component ::
    (p.modules.map fieldLine ++ plain "\x7d" 0 :: .blank :: ownHeading component ::
      (constructorLines component p ++ accessorLines u component p)) := by
  unfold componentLines accessorLines
  cases p.definition.componentInterface with
  | none => simp [structLines, structHeading, ownHeading]
  | some i => simp [structLines, structHeading, ownHeading, interfaceHeading]

theorem ownHeading_ne_close (depth : Nat) : ownHeading component ≠ plain "\x7d" depth := by
  have hlast : "impl " ++ component ++ " \x7b" ≠ "\x7d" :=
    append_ne_of_getLast (by decide) (by decide)
  simp [ownHeading, plain, hlast]

theorem ownHeading_not_mem_struct (component : String) (p : Plan) : ownHeading component ∉
    structHeading component :: (p.modules.map fieldLine ++ [plain "\x7d" 0, .blank]) := by
  have hstruct : ownHeading component ≠ structHeading component := by
    intro h
    simp only [ownHeading, structHeading, plain, Line.mk.injEq, List.cons.injEq,
      Piece.text.injEq, true_and, and_true] at h
    have hfirst := congrArg (fun s => s.toList.head?) h
    simp at hfirst
  have hfields : ownHeading component ∉ p.modules.map fieldLine := by
    simp [ownHeading, plain, fieldLine]
  have hblank : ownHeading component ≠ .blank := by
    simp [ownHeading, plain, Line.blank]
  simp [hstruct, ownHeading_ne_close, hfields, hblank]

theorem depth_constructorLines : ∀ l ∈ constructorLines component p, 0 < l.depth := by
  intro l hl
  simp only [constructorLines_eq, List.mem_cons, List.mem_append, List.mem_map,
    List.not_mem_nil, or_false] at hl
  rcases hl with rfl | rfl | ⟨m, -, rfl⟩ | rfl | rfl
  · exact Nat.one_pos
  · exact Nat.two_pos
  · unfold initialLine
    split <;> exact Nat.succ_pos 2
  · exact Nat.two_pos
  · exact Nat.one_pos

theorem depth_lines (r : Routine) (depth : Nat) : ∀ l ∈ r.lines depth, depth ≤ l.depth := by
  intro l hl
  simp only [Routine.lines, List.cons_append, List.mem_cons, List.mem_append, List.mem_map,
    List.not_mem_nil, or_false] at hl
  rcases hl with rfl | ⟨x, -, rfl⟩ | rfl | rfl
  · exact Nat.le_refl depth
  · exact Nat.le_succ depth
  · exact Nat.le_succ depth
  · exact Nat.le_refl depth

/-- The struct has the modules as its fields. -/
theorem block_struct : block (structHeading component) (componentLines u component p) =
    p.modules.map fieldLine := by
  have hclose : plain "\x7d" 0 ∉ p.modules.map fieldLine := by
    simp [plain, fieldLine]
  rw [componentLines_eq]
  exact block_eq [] rfl List.not_mem_nil hclose

theorem block_own :
    block (ownHeading component) (componentLines u component p) = ownLines u component p := by
  have hconstructor : plain "\x7d" 0 ∉ constructorLines component p :=
    not_mem_of_deeper depth_constructorLines
  have hbefore := ownHeading_not_mem_struct component p
  have hopen : componentLines u component p =
      (structHeading component :: (p.modules.map fieldLine ++ [plain "\x7d" 0, .blank])) ++
        ownHeading component ::
          (constructorLines component p ++ accessorLines u component p) := by
    simp [componentLines_eq]
  rw [hopen, accessorLines, ownLines]
  cases p.definition.componentInterface with
  | none =>
    have haccessors : plain "\x7d" 0 ∉ (accessors u "pub " p).flatMap
        fun r => .blank :: r.lines 1 := by
      simp only [List.mem_flatMap, List.mem_cons, not_exists, not_and, not_or]
      exact fun r _ => ⟨by simp [plain, Line.blank], not_mem_of_deeper (depth_lines r 1)⟩
    have hinside := List.not_mem_append hconstructor haccessors
    rw [← List.append_assoc]
    exact block_eq _ rfl hbefore hinside
  | some i =>
    rw [List.append_nil]
    exact block_eq _ rfl hbefore hconstructor

/-- The constructor lists the modules. -/
theorem block_initial : block (initialHeading component) (componentLines u component p) =
    p.modules.map initialLine := by
  have hbefore : initialHeading component ∉
      structHeading component :: (p.modules.map fieldLine ++ [plain "\x7d" 0, .blank,
        ownHeading component, constructorHeading p.modules]) := by
    simp [initialHeading, structHeading, ownHeading, constructorHeading, plain, fieldLine,
      Line.blank]
  have hinside : plain "\x7d" 2 ∉ p.modules.map initialLine := by
    simp only [List.mem_map, not_exists, not_and]
    intro m _
    unfold initialLine
    split <;> simp [plain]
  have hlines : componentLines u component p =
      (structHeading component :: (p.modules.map fieldLine ++ [plain "\x7d" 0, .blank,
        ownHeading component, constructorHeading p.modules])) ++ initialHeading component ::
          (p.modules.map initialLine ++ plain "\x7d" 2 :: plain "\x7d" 1 ::
            accessorLines u component p) := by
    simp [componentLines_eq, constructorLines_eq]
  rw [hlines]
  exact block_eq _ rfl hbefore hinside

end Component

/-- A reader of lines that looks at nothing but the first line of an item in a block. -/
structure ReadsItems {α : Type} (read : Line → Option α) : Prop where
  other : ∀ l, l.depth ≠ 1 → read l = none
  close : read (plain "\x7d" 1) = none

namespace ReadsItems

variable {α : Type} {read : Line → Option α}

/-- An item has a first line, deeper ones, and a brace at the end. -/
theorem filterMap_item (h : ReadsItems read) (first : Line) {inside : List Line}
    (hinside : ∀ l ∈ inside, l.depth ≠ 1) :
    (first :: (inside ++ [plain "\x7d" 1])).filterMap read = (read first).toList := by
  have hnone : inside.filterMap read = [] :=
    List.filterMap_eq_nil_iff.mpr fun l hl => h.other l (hinside l hl)
  have hrest : (inside ++ [plain "\x7d" 1]).filterMap read = [] := by
    rw [List.filterMap_append, hnone, List.filterMap_cons_none h.close]
    rfl
  cases hfirst : read first with
  | none => rw [List.filterMap_cons_none hfirst, hrest, Option.toList_none]
  | some a => rw [List.filterMap_cons_some hfirst, hrest, Option.toList_some]

theorem filterMap_lines (h : ReadsItems read) (r : Routine) :
    (r.lines 1).filterMap read = (read ⟨1, r.header⟩).toList := by
  have hinside : ∀ l ∈ (r.steps.map fun s => (⟨2, s.pieces⟩ : Line)) ++ [(⟨2, r.last⟩ : Line)],
      l.depth ≠ 1 := by
    simp only [List.forall_mem_append, List.forall_mem_map, List.forall_mem_singleton]
    exact ⟨fun _ _ => Nat.succ_ne_self 1, Nat.succ_ne_self 1⟩
  have hlines : r.lines 1 = ⟨1, r.header⟩ ::
      (((r.steps.map fun s => (⟨2, s.pieces⟩ : Line)) ++ [(⟨2, r.last⟩ : Line)]) ++
        [plain "\x7d" 1]) := by
    simp [Routine.lines, plain]
  rw [hlines, h.filterMap_item _ hinside]

theorem filterMap_constructorLines (h : ReadsItems read) (component : String) (p : Plan) :
    (constructorLines component p).filterMap read =
      (read (constructorHeading p.modules)).toList := by
  have hinside : ∀ l ∈ initialHeading component :: (p.modules.map initialLine ++
      [plain "\x7d" 2]), l.depth ≠ 1 := by
    simp only [List.forall_mem_cons, List.forall_mem_append, List.forall_mem_map, initialLine]
    have hdepth : 3 ≠ 1 := by decide
    refine ⟨Nat.succ_ne_self 1, fun m _ => ?_, Nat.succ_ne_self 1, List.forall_mem_nil _⟩
    split <;> exact hdepth
  have hlines : constructorLines component p = constructorHeading p.modules ::
      ((initialHeading component :: (p.modules.map initialLine ++ [plain "\x7d" 2])) ++
        [plain "\x7d" 1]) := by
    simp [constructorLines_eq]
  rw [hlines, h.filterMap_item _ hinside]

/-- The own methods begin with the constructor. The accessors come after it, unless the component
has an interface. -/
theorem filterMap_ownLines (h : ReadsItems read) (u : Universe) (component : String) (p : Plan) :
    (ownLines u component p).filterMap read = (read (constructorHeading p.modules)).toList ++
      if p.definition.componentInterface = none then
        (accessors u "pub " p).filterMap fun r => read ⟨1, r.header⟩
      else [] := by
  rw [ownLines, List.filterMap_append, h.filterMap_constructorLines]
  cases p.definition.componentInterface with
  | none =>
    have hblank : read .blank = none := h.other .blank Nat.zero_ne_one
    have hitem : ∀ r : Routine, (.blank :: r.lines 1).filterMap read =
        (read ⟨1, r.header⟩).toList := by
      intro r
      rw [List.filterMap_cons_none hblank, h.filterMap_lines]
    rw [if_pos rfl, List.filterMap_flatMap, List.filterMap_eq_flatMap_toList _ (accessors u _ p)]
    simp only [hitem]
  | some i => rfl

end ReadsItems

/-- An artifact of a plan other than the root, what stands above its imports, and the lines of its
code. -/
inductive Plan.Code (u : Universe) (component : String) (p : Plan) :
    Artifact → List String → List Line → Prop
  | component : Code u component p (ofComponent u component p) [] (componentLines u component p)
  | factory {f : Factory} (hf : f ∈ p.factories.toList) :
      Code u component p (ofFactory component f) [componentUse component]
        (factoryLines component f)
  | wrapper {e : PlannedProvider} (he : e ∈ p.providers.toList) :
      Code u component p (ofProvider u component e) [componentUse component]
        (wrapperLines u component e)

section Code

variable {u : Universe} {component : String} {p : Plan} {a : Artifact} {preamble : List String}
  {ls : List Line}

theorem Plan.Code.text_eq (h : p.Code u component a preamble ls) :
    a.text = (Sheet.ofLines ls).finish preamble := by
  cases h <;> rfl

/-- The artifacts other than the root are made from the lines of their items. -/
theorem Artifact.exists_code (h : a ∈ (ofPlan u component p).toList) :
    a = root u component p ∨ ∃ preamble ls, p.Code u component a preamble ls := by
  refine (mem_ofPlan_iff.mp h).imp_right fun h => ?_
  rcases mem_items_iff.mp h with rfl | ⟨f, hf, rfl⟩ | ⟨e, he, rfl⟩
  · exact ⟨_, _, .component⟩
  · exact ⟨_, _, .factory hf⟩
  · exact ⟨_, _, .wrapper he⟩

end Code

end Wiring
