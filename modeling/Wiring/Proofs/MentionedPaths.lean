import Wiring.Proofs.CodeBlocks
import Wiring.Proofs.SpelledLines

/-!
What an artifact imports. The types that its lines name are those of an item of the plan: the
modules, the interface and the targets of the component, what a factory builds, what a wrapper
returns, and the interfaces that values are cast to. Their paths are imported, each once and in the
order in which they are met, and the error type is imported where a result may be an error
(`planComponent_imports`).
-/
namespace Wiring

open ImportTable Naming Artifact

/-- The declared type that is requested. -/
def TypeRef.identity? (t : TypeRef) : Option Identity :=
  t.shape.map Shape.identity

/-- The types that an expression names. -/
def Expr.mentions : Expr → List Identity
  | call _ _ _ cast => cast.toList
  | defaultOf i => [i]
  | var _ => []

/-- The types that an accessor names. -/
def WiredTarget.mentions (z : WiredTarget) : List Identity :=
  z.target.type.identity?.toList ++ z.source.cast.toList

namespace Plan

/-- An artifact of a plan other than the root, what stands above its imports, the lines of its code,
the types that these mention, and whether a result of theirs may be an error. -/
inductive Mentions (u : Universe) (component : String) (p : Plan) :
    Artifact → List String → List Line → List Identity → Bool → Prop
  | component : Mentions u component p (ofComponent u component p) [] (componentLines u component p)
      (p.modules.map ValueModule.identity ++ p.definition.componentInterface.toList ++
        p.targets.flatMap WiredTarget.mentions)
      (p.targets.any fun z => z.target.isFallible)
  | factory {f : Factory} (hf : f ∈ p.factories.toList) :
      Mentions u component p (ofFactory component f) [componentUse component]
        (factoryLines component f)
        (f.identity :: f.fields.filterMap fun a => a.source.cast) f.isFallible
  | wrapper {e : PlannedProvider} (he : e ∈ p.providers.toList) :
      Mentions u component p (ofProvider u component e) [componentUse component]
        (wrapperLines u component e)
        (e.provider.result.identity?.toList ++ e.params.filterMap Source.cast) e.isFallible

/-- Targets and providers have types that can be injected. -/
structure Shaped (p : Plan) : Prop where
  target : ∀ z ∈ p.targets, ∃ s, z.target.type.shape = some s
  provider : ∀ e ∈ p.providers.toList, ∃ s, e.provider.result.shape = some s

end Plan

/-- An artifact is written with imports for what it mentions. -/
structure Artifact.Imports (component : String) (a : Artifact) (preamble : List String)
    (ls : List Line) (is : List Identity) (usesError : Bool) : Prop where
  written : WrittenIn a.text (writtenLines preamble usesError (firstPaths is) ls)
  distinct : (firstPaths is).Nodup
  /-- The imports are those of the types named in the code, in the order in which it names them. -/
  order : firstPaths (named ls) = firstPaths is
  /-- A name is qualified by the alias of its own path. -/
  qualified : ∀ i ∈ named ls, i.path ≠ "" → ∃ k, (firstPaths is)[k]? = some i.path ∧
    aliasLine i.path (k + 1) ∈ importLines preamble usesError (firstPaths is) ∧
      i.spelled (firstPaths is) = aliasName (k + 1) ++ "::" ++ i.name
  /-- The component itself is imported in the same way, where it is imported. -/
  error : errorUse ∈ writtenLines preamble usesError (firstPaths is) ls ↔
    usesError = true ∨ preamble ≠ [] ∧ component = errorTypeName

section Pieces

variable {u : Universe} {t : TypeRef} {s : Shape}

theorem TypeRef.identities_pieces (h : t.shape = some s) :
    identities (t.pieces u) = t.identity?.toList := by
  have hshape := shape_eq_some_iff.mp h
  rw [identity?, h]
  subst hshape
  cases s.isReference <;> by_cases hi : u.declaresInterface s.identity = true <;>
    simp [pieces, hi]

theorem TypeRef.errorType_not_mem_pieces (h : t.shape = some s) :
    .errorType ∉ t.pieces u := by
  rw [shape_eq_some_iff.mp h]
  cases s.isReference <;> by_cases hi : u.declaresInterface s.identity = true <;>
    simp [pieces, hi]

theorem identities_resultPieces (type : List Piece) (isFallible : Bool) :
    identities (resultPieces type isFallible) = identities type := by
  cases isFallible <;> simp [resultPieces]

theorem errorType_mem_resultPieces {type : List Piece} {isFallible : Bool} :
    .errorType ∈ resultPieces type isFallible ↔ isFallible = true ∨ .errorType ∈ type := by
  cases isFallible <;> simp [resultPieces]

theorem Expr.identities_pieces (e : Expr) : identities e.pieces = e.mentions := by
  cases e with
  | call callee component propagates cast =>
    cases cast <;> simp [pieces, castPieces, boxedInterface, mentions]
  | defaultOf i => simp [pieces, mentions]
  | var name => simp [pieces, mentions]

theorem Expr.errorType_not_mem_pieces (e : Expr) : .errorType ∉ e.pieces := by
  cases e with
  | call callee component propagates cast =>
    cases cast <;> simp [pieces, castPieces, boxedInterface]
  | defaultOf i => simp [pieces]
  | var name => simp [pieces]

theorem Step.identities_pieces (s : Step) : identities s.pieces = s.value.mentions := by
  cases s <;> simp [pieces, value, Expr.identities_pieces]

theorem Step.errorType_not_mem_pieces (s : Step) : .errorType ∉ s.pieces := by
  cases s <;> simp [pieces, Expr.errorType_not_mem_pieces]

/-- A routine names its result and what its expressions mention. -/
theorem named_lines (r : Routine) (depth : Nat) :
    named (r.lines depth) = identities r.result ++ r.exprs.flatMap Expr.mentions := by
  have hsteps : named (r.steps.map fun s => (⟨depth + 1, s.pieces⟩ : Line)) =
      (r.steps.map Step.value).flatMap Expr.mentions := by
    simp [named, List.flatMap_map, Step.identities_pieces]
  have hlast : identities r.last = r.value.mentions := by
    cases hfail : r.isFallible <;> simp [Routine.last, hfail, Expr.identities_pieces]
  simp [Routine.lines, Routine.header, Routine.exprs, hsteps, hlast, identities_resultPieces]

theorem namesError_lines {r : Routine} {depth : Nat} (h : .errorType ∉ r.result) :
    NamesError (r.lines depth) ↔ r.isFallible = true := by
  have hsteps : ¬ NamesError (r.steps.map fun s => (⟨depth + 1, s.pieces⟩ : Line)) := by
    rintro ⟨l, hl, herror⟩
    obtain ⟨s, -, rfl⟩ := List.mem_map.mp hl
    exact s.errorType_not_mem_pieces herror
  have hlast : .errorType ∉ r.last := by
    cases hfail : r.isFallible <;> simp [Routine.last, hfail, Expr.errorType_not_mem_pieces]
  simp [Routine.lines, Routine.header, hsteps, hlast, errorType_mem_resultPieces, h,
    namesError_nil]

end Pieces

section Items

variable {u : Universe} {component : String} {p : Plan}

@[simp] theorem Expr.mentions_call (callee : Callee) (receiver : String) (propagates : Bool)
    (cast : Option Identity) : (call callee receiver propagates cast).mentions = cast.toList :=
  rfl

@[simp] theorem Expr.mentions_ofSource (receiver : String) (x : Source) :
    (ofSource receiver x).mentions = x.cast.toList :=
  rfl

@[simp] theorem Expr.mentions_defaultOf (i : Identity) : (defaultOf i).mentions = [i] := rfl

@[simp] theorem Expr.mentions_var (name : String) : (var name).mentions = [] := rfl

@[simp] theorem identities_plain (text : String) (depth : Nat) :
    identities (plain text depth).pieces = [] :=
  rfl

@[simp] theorem errorType_not_mem_plain (text : String) (depth : Nat) :
    .errorType ∉ (plain text depth).pieces := by
  simp [plain]

@[simp] theorem pieces_blank : Line.blank.pieces = [] := rfl

theorem named_factoryLines (f : Factory) : firstPaths (named (factoryLines component f)) =
    firstPaths (f.identity :: f.fields.filterMap fun a => a.source.cast) := by
  have hexprs : (Routine.factory component f).exprs.flatMap Expr.mentions =
      [f.identity] ++ f.fields.filterMap fun a => a.source.cast := by
    rw [List.filterMap_eq_flatMap_toList]
    unfold Routine.factory
    dsimp only
    split
    · next hempty => simp [Routine.exprs, List.isEmpty_iff.mp hempty]
    · simp [Routine.exprs, Step.value, List.flatMap_map]
  have hnamed : named (factoryLines component f) =
      [f.identity] ++ [f.identity] ++ f.fields.filterMap fun a => a.source.cast := by
    rw [factoryLines, named_lines, hexprs, Routine.factory_result]
    simp
  rw [hnamed, firstPaths_absorb (fun _ => id)]
  rfl

theorem namesError_factoryLines (f : Factory) :
    NamesError (factoryLines component f) ↔ f.isFallible = true := by
  rw [factoryLines, namesError_lines (by simp [Routine.factory_result]),
    Routine.factory_isFallible]

theorem named_wrapperLines {e : PlannedProvider} {s : Shape}
    (h : e.provider.result.shape = some s) : named (wrapperLines u component e) =
      e.provider.result.identity?.toList ++ e.params.filterMap Source.cast := by
  have hexprs : (Routine.wrapper u e).exprs.flatMap Expr.mentions =
      e.params.filterMap Source.cast := by
    rw [Routine.exprs_wrapper, List.filterMap_eq_flatMap_toList]
    simp [List.flatMap_map]
  have hresult : identities (Routine.wrapper u e).result = e.provider.result.identity?.toList :=
    TypeRef.identities_pieces h
  simp [wrapperLines, named_lines, hexprs, hresult]

theorem namesError_wrapperLines {e : PlannedProvider} {s : Shape}
    (h : e.provider.result.shape = some s) :
    NamesError (wrapperLines u component e) ↔ e.isFallible = true := by
  have hresult : .errorType ∉ (Routine.wrapper u e).result := TypeRef.errorType_not_mem_pieces h
  have hroutine : NamesError ((Routine.wrapper u e).lines 1) ↔ e.isFallible = true :=
    namesError_lines hresult
  simp [wrapperLines, hroutine, namesError_nil]

theorem identities_constructorParams (ms : List ValueModule) :
    identities (constructorParams ms) = ms.map ValueModule.identity := by
  induction ms using constructorParams.induct with
  | case1 => rfl
  | case2 m => rfl
  | case3 m ms hms ih =>
    rw [constructorParams.eq_3 _ _ hms]
    simp [ih]

theorem errorType_not_mem_constructorParams (ms : List ValueModule) :
    .errorType ∉ constructorParams ms := by
  induction ms using constructorParams.induct with
  | case1 => simp [constructorParams]
  | case2 m => simp [constructorParams]
  | case3 m ms hms ih =>
    rw [constructorParams.eq_3 _ _ hms]
    simp [ih]

/-- The constructor names types of fields only. -/
theorem mem_modules_of_mem_named {i : Identity} (h : i ∈ named (constructorLines component p)) :
    i ∈ p.modules.map ValueModule.identity := by
  have hinitial : ∀ m, ∀ j ∈ identities (initialLine m).pieces, j = m.identity := by
    intro m j hj
    unfold initialLine at hj
    split at hj <;> simp_all
  simp only [constructorLines, named_cons, named_append, identities_text, identities_append,
    identities_constructorParams, identities_plain, identities_nil, named_nil, List.cons_append,
    List.append_nil, List.nil_append, List.mem_append] at h
  rcases h with h | h
  · obtain ⟨m, hm, rfl⟩ := List.mem_map.mp h
    exact List.mem_map_of_mem (List.mem_filter.mp hm).1
  · obtain ⟨l, hl, hi⟩ := List.mem_flatMap.mp h
    obtain ⟨m, hm, rfl⟩ := List.mem_map.mp hl
    exact List.mem_map.mpr ⟨m, hm, (hinitial m i hi).symm⟩

theorem namesError_constructorLines : ¬ NamesError (constructorLines component p) := by
  have hinitial : ¬ NamesError (p.modules.map initialLine) := by
    rintro ⟨l, hl, herror⟩
    obtain ⟨m, -, rfl⟩ := List.mem_map.mp hl
    unfold initialLine at herror
    split at herror <;> simp_all
  simp [constructorLines, hinitial, errorType_not_mem_constructorParams, namesError_nil]

/-- The routines of targets one after another. -/
theorem named_accessors (visibility : String) {zs : List WiredTarget}
    (h : ∀ z ∈ zs, ∃ s, z.target.type.shape = some s) :
    (zs.map (Routine.accessor u visibility)).flatMap (fun r => named (r.lines 1)) =
      zs.flatMap WiredTarget.mentions := by
  rw [List.flatMap_map]
  refine List.flatMap_congr fun z hz => ?_
  obtain ⟨s, hs⟩ := h z hz
  have hresult : identities (Routine.accessor u visibility z).result =
      z.target.type.identity?.toList := TypeRef.identities_pieces hs
  rw [named_lines, hresult, Routine.exprs_accessor]
  simp [WiredTarget.mentions]

theorem namesError_accessors (visibility : String) {zs : List WiredTarget}
    (h : ∀ z ∈ zs, ∃ s, z.target.type.shape = some s) :
    (∃ r ∈ zs.map (Routine.accessor u visibility), NamesError (r.lines 1)) ↔
      (zs.any fun z => z.target.isFallible) = true := by
  have hone : ∀ z ∈ zs, NamesError ((Routine.accessor u visibility z).lines 1) ↔
      z.target.isFallible = true := by
    intro z hz
    obtain ⟨s, hs⟩ := h z hz
    have hresult : .errorType ∉ (Routine.accessor u visibility z).result :=
      TypeRef.errorType_not_mem_pieces hs
    exact namesError_lines hresult
  rw [List.any_eq_true]
  constructor
  · rintro ⟨r, hr, herror⟩
    obtain ⟨z, hz, rfl⟩ := List.mem_map.mp hr
    exact ⟨z, hz, (hone z hz).mp herror⟩
  · rintro ⟨z, hz, hfail⟩
    exact ⟨_, List.mem_map_of_mem hz, (hone z hz).mpr hfail⟩

theorem named_flatMap_lines (rs : List Routine) :
    named (rs.flatMap fun r => .blank :: r.lines 1) = rs.flatMap fun r => named (r.lines 1) := by
  induction rs with
  | nil => rfl
  | cons r rs ih => simp [ih]

theorem named_routineLines (rs : List Routine) :
    named (routineLines rs) = rs.flatMap fun r => named (r.lines 1) := by
  induction rs using routineLines.induct with
  | case1 => rfl
  | case2 r => simp [routineLines]
  | case3 r rs hrs ih =>
    rw [routineLines.eq_3 _ _ hrs]
    simp [ih]

theorem namesError_flatMap_lines (rs : List Routine) :
    NamesError (rs.flatMap fun r => .blank :: r.lines 1) ↔ ∃ r ∈ rs, NamesError (r.lines 1) := by
  induction rs with
  | nil => simp [namesError_nil]
  | cons r rs ih => simp [ih]

theorem namesError_routineLines (rs : List Routine) :
    NamesError (routineLines rs) ↔ ∃ r ∈ rs, NamesError (r.lines 1) := by
  induction rs using routineLines.induct with
  | case1 => simp [routineLines, namesError_nil]
  | case2 r => simp [routineLines]
  | case3 r rs hrs ih =>
    rw [routineLines.eq_3 _ _ hrs]
    simp [ih]

theorem named_accessorLines (h : p.Shaped) : named (accessorLines u component p) =
    p.definition.componentInterface.toList ++ p.targets.flatMap WiredTarget.mentions := by
  unfold accessorLines accessors
  cases p.definition.componentInterface with
  | none => simp [named_flatMap_lines, named_accessors _ h.target]
  | some i => simp [named_routineLines, named_accessors _ h.target, interfaceHeading]

theorem namesError_accessorLines (h : p.Shaped) : NamesError (accessorLines u component p) ↔
    (p.targets.any fun z => z.target.isFallible) = true := by
  unfold accessorLines accessors
  cases p.definition.componentInterface with
  | none =>
    rw [namesError_append, namesError_flatMap_lines, namesError_accessors _ h.target]
    simp [namesError_nil]
  | some i =>
    rw [namesError_append, namesError_append, namesError_routineLines,
      namesError_accessors _ h.target]
    simp [namesError_nil, interfaceHeading]

theorem named_componentLines (h : p.Shaped) :
    firstPaths (named (componentLines u component p)) =
      firstPaths (p.modules.map ValueModule.identity ++
        p.definition.componentInterface.toList ++ p.targets.flatMap WiredTarget.mentions) := by
  have hfields : named (p.modules.map fieldLine) = p.modules.map ValueModule.identity := by
    rw [named, List.flatMap_map, List.map_eq_flatMap]
    rfl
  have hnamed : named (componentLines u component p) = p.modules.map ValueModule.identity ++
      named (constructorLines component p) ++ (p.definition.componentInterface.toList ++
        p.targets.flatMap WiredTarget.mentions) := by
    simp [componentLines_eq, structHeading, ownHeading, hfields, named_accessorLines h]
  rw [hnamed, firstPaths_absorb fun _ => mem_modules_of_mem_named, ← List.append_assoc]

theorem namesError_componentLines (h : p.Shaped) : NamesError (componentLines u component p) ↔
    (p.targets.any fun z => z.target.isFallible) = true := by
  have hfields : ¬ NamesError (p.modules.map fieldLine) := by
    simp [NamesError, fieldLine]
  rw [componentLines_eq, namesError_cons, namesError_append, namesError_cons, namesError_cons,
    namesError_cons, namesError_append, namesError_accessorLines h]
  simp [structHeading, ownHeading, hfields, namesError_constructorLines]

end Items

/-- However its types are spelled, the line is no import. -/
def Line.Inside (l : Line) : Prop :=
  ∀ paths, (l.spelled paths).toList.head? ≠ some 'u'

section Inside

variable {u : Universe} {component : String} {p : Plan}

theorem Line.inside_of_deep {l : Line} (h : l.depth ≠ 0) : l.Inside := by
  intro paths
  obtain ⟨depth, hdepth⟩ := Nat.exists_eq_succ_of_ne_zero h
  rw [spelled, Sheet.indented]
  split
  · simp
  · simp [hdepth, List.replicate_succ, String.join_cons]

theorem Line.inside_of_text {start : String} {c : Char} (h : start.toList.head? = some c)
    (hc : c ≠ 'u') (ps : List Piece) : (⟨0, .text start :: ps⟩ : Line).Inside := by
  intro paths
  rw [spelled, Sheet.indented]
  split
  · simp
  · simp [String.join_cons, Piece.spelled, List.head?_append, h, hc]

theorem Line.inside_blank : Line.blank.Inside :=
  fun _ => by simp [spelled, Sheet.indented, Line.blank]

theorem holdsInItems_inside : Line.HoldsInItems Line.Inside where
  deep := Line.inside_of_deep
  blank := Line.inside_blank
  close := Line.inside_of_text (c := '\x7d') (by decide) (by decide) []
  methods rest ps htext := Line.inside_of_text (c := 'i') (by simp [htext]) (by decide) ps
  function rest ps htext := Line.inside_of_text (c := 'p') (by simp [htext]) (by decide) ps

theorem inside_componentLines : ∀ l ∈ componentLines u component p, l.Inside := by
  have hstruct : (structHeading component).Inside :=
    Line.inside_of_text (c := 'p') (by simp) (by decide) []
  obtain ⟨ls, hlines, hrest⟩ := exists_componentLines holdsInItems_inside
  rw [hlines]
  exact List.forall_mem_cons.mpr ⟨hstruct, hrest⟩

end Inside

section Imports

variable {u : Universe} {component : String} {p : Plan} {a : Artifact} {preamble : List String}
  {ls : List Line} {is : List Identity} {usesError : Bool}

theorem aliasLine_ne_errorUse (path : String) (n : Nat) : aliasLine path n ≠ errorUse := by
  intro h
  have hbound := congrArg boundName? h
  have herror : boundName? errorUse = some errorTypeName := by decide
  rw [Sheet.boundName?_aliasLine, herror, Option.some.injEq] at hbound
  exact ne_errorTypeName (by simp [toList_aliasName]) hbound

/-- The error type is imported if the lines name it, or as what is above the imports. -/
theorem errorUse_mem_writtenLines {paths : List String} (h : ∀ l ∈ ls, l.Inside) :
    errorUse ∈ writtenLines preamble usesError paths ls ↔
      usesError = true ∨ errorUse ∈ preamble.map String.toList := by
  have hheader : errorUse ≠ headerLine := by decide
  have hempty : errorUse ≠ [] := by decide
  have hgap : errorUse ∉ if importLines preamble usesError paths = [] then [] else [[]] := by
    split <;> simp [hempty]
  have haliases : errorUse ∉ (paths.zipIdx 1).map fun x => aliasLine x.1 x.2 := by
    intro hmem
    obtain ⟨x, -, hx⟩ := List.mem_map.mp hmem
    exact aliasLine_ne_errorUse x.1 x.2 hx
  have hcode : errorUse ∉ ls.map fun l => (l.spelled paths).toList := by
    intro hmem
    obtain ⟨l, hl, hline⟩ := List.mem_map.mp hmem
    have hfirst : errorUse.head? = some 'u' := by decide
    exact h l hl paths (hline ▸ hfirst)
  have herror : errorUse ∈ (if usesError then [errorUse] else []) ↔ usesError = true := by
    cases usesError <;> simp
  rw [writtenLines, List.mem_cons, List.mem_cons, List.mem_append, List.mem_append]
  simp only [hheader, hempty, hgap, hcode, false_or, or_false]
  rw [importLines, List.mem_append, List.mem_append, herror, or_comm (a := errorUse ∈ _)]
  exact or_iff_left haliases

theorem componentUse_eq_errorUse : errorUse = (componentUse component).toList ↔
    component = errorTypeName := by
  have herror : errorUse = (componentUse errorTypeName).toList := rfl
  rw [herror, String.toList_inj, componentUse, componentUse, String.append_left_inj,
    String.append_right_inj, eq_comm]

namespace Plan.Mentions

theorem text_eq (h : p.Mentions u component a preamble ls is usesError) :
    a.text = (Sheet.ofLines ls).finish preamble := by
  cases h <;> rfl

/-- The types that are mentioned are met in the order in which the lines name them. -/
theorem order (hp : p.Shaped) (h : p.Mentions u component a preamble ls is usesError) :
    firstPaths (named ls) = firstPaths is := by
  cases h with
  | component => exact named_componentLines hp
  | factory _ => exact named_factoryLines _
  | wrapper he =>
    obtain ⟨s, hs⟩ := hp.provider _ he
    rw [named_wrapperLines hs]

theorem namesError (hp : p.Shaped) (h : p.Mentions u component a preamble ls is usesError) :
    usesError = true ↔ NamesError ls := by
  cases h with
  | component => exact (namesError_componentLines hp).symm
  | factory _ => exact (namesError_factoryLines _).symm
  | wrapper he =>
    obtain ⟨s, hs⟩ := hp.provider _ he
    exact (namesError_wrapperLines hs).symm

theorem inside (h : p.Mentions u component a preamble ls is usesError) : ∀ l ∈ ls, l.Inside := by
  cases h with
  | component => exact inside_componentLines
  | factory _ => exact forall_factoryLines holdsInItems_inside _
  | wrapper _ => exact forall_wrapperLines holdsInItems_inside _

theorem errorUse_mem_preamble (h : p.Mentions u component a preamble ls is usesError) :
    errorUse ∈ preamble.map String.toList ↔ preamble ≠ [] ∧ component = errorTypeName := by
  cases h with
  | component => simp
  | factory _ => simp [componentUse_eq_errorUse]
  | wrapper _ => simp [componentUse_eq_errorUse]

theorem imports (hp : p.Shaped) (h : p.Mentions u component a preamble ls is usesError) :
    a.Imports component preamble ls is usesError where
  written := by
    rw [h.text_eq, ← h.order hp, ← Sheet.written_ofLines preamble (h.namesError hp)]
    exact Sheet.written_finish _ _
  distinct := nodup_eraseDups _
  order := h.order hp
  qualified i hi hpath := by
    have hmem : i.path ∈ firstPaths is := by
      rw [← h.order hp]
      exact mem_firstPaths.mpr ⟨hpath, i, hi, rfl⟩
    obtain ⟨k, hk, hspelled⟩ := Identity.spelled_eq hmem hpath
    exact ⟨k, hk, aliasLine_mem_importLines preamble usesError hk, hspelled⟩
  error := by
    rw [errorUse_mem_writtenLines h.inside, h.errorUse_mem_preamble]

end Plan.Mentions

/-- Every artifact but the root is one of an item. -/
theorem Artifact.exists_mentions (h : a ∈ (ofPlan u component p).toList)
    (hname : a.name ≠ rootName) :
    ∃ preamble ls is usesError, p.Mentions u component a preamble ls is usesError := by
  rcases mem_ofPlan_iff.mp h with rfl | h
  · exact absurd rfl hname
  · rcases mem_items_iff.mp h with rfl | ⟨f, hf, rfl⟩ | ⟨e, he, rfl⟩
    · exact ⟨_, _, _, _, .component⟩
    · exact ⟨_, _, _, _, .factory hf⟩
    · exact ⟨_, _, _, _, .wrapper he⟩

theorem planComponent_shaped {package name : String} (h : planComponent u package name = .ok p) :
    p.Shaped := by
  obtain ⟨d, r, -, hdiscover, hresolve⟩ := planComponent_eq_ok_iff.mp h
  obtain ⟨hwire, -⟩ := resolve_eq_ok_iff.mp hresolve
  obtain ⟨w, xs, rfl, hcomplete⟩ := wirePlan_complete hwire
  refine ⟨fun z hz => ?_, fun e he => ?_⟩
  · obtain ⟨t, -, rfl, hmet⟩ := exists_of_forall₂_right hcomplete.targets hz
    obtain ⟨s, sources, hs, -⟩ := hcomplete.sound.meets hmet
    exact hs.exists_shape
  · have hnode := (hcomplete.sound.of_mem_providers he).hasNode
    have hprovider := (discover_shaped hdiscover).provider _ (Table.mem_of_find? hnode.provider)
    exact ⟨_, hprovider.shape⟩

/-- Every artifact of a plan but the root imports what it mentions. -/
theorem planComponent_imports {package name : String} {arts : Table Artifact}
    (h : planComponent u package name = .ok p) (hemit : emit u component p = .ok arts) :
    ∀ a ∈ arts.toList, a.name ≠ rootName → ∃ preamble ls is usesError,
      p.Mentions u component a preamble ls is usesError ∧
        a.Imports component preamble ls is usesError := by
  obtain ⟨-, -, rfl⟩ := emit_eq_ok hemit
  intro a ha hname
  obtain ⟨preamble, ls, is, usesError, hmentions⟩ := exists_mentions ha hname
  exact ⟨preamble, ls, is, usesError, hmentions, hmentions.imports (planComponent_shaped h)⟩

end Imports

theorem shop_imports : planComponent Shop.stockedTypes "shop" "Shop" = .ok Shop.stockedPlan ∧
    ∃ arts, emit Shop.stockedTypes "Shop" Shop.stockedPlan = .ok arts ∧
      ∀ a ∈ arts.toList, a.name ≠ rootName → ∃ preamble ls is usesError,
        Shop.stockedPlan.Mentions Shop.stockedTypes "Shop" a preamble ls is usesError ∧
          a.Imports "Shop" preamble ls is usesError := by
  have hplan : planComponent Shop.stockedTypes "shop" "Shop" = .ok Shop.stockedPlan := by
    decide +kernel
  have hemit : emit Shop.stockedTypes "Shop" Shop.stockedPlan =
      .ok (ofPlan Shop.stockedTypes "Shop" Shop.stockedPlan) :=
    emit_of_holds (by decide) (planComponent_holds hplan)
  exact ⟨hplan, _, hemit, planComponent_imports hplan hemit⟩

namespace Shop

/-- The shop, where a disk can always be opened. -/
def safeTypes : Universe where
  types := types.types.insert ((Decl.ofStruct values []).withMethod
    { name := "open_disk", results := [.pointer (.named disk)] })

/-- How the service is built if it cannot fail. -/
def safeService : Factory where
  identity := service
  fields := [⟨"store", { storeSource with isFallible := false }⟩]
  isFallible := false

def safePlan : Plan :=
  { plan with
    providers := .ofList [⟨{ openDisk with isFallible := false }, [], false⟩]
    factories := .ofList [safeService]
    targets := [⟨serviceTarget, ⟨.factory, service, none, false⟩⟩] }

end Shop

/-- Where the component is called like the error type, a factory that cannot fail has the import of
the error type. -/
theorem error_component_imported : ∃ arts preamble ls is,
    planComponent Shop.safeTypes "shop" "Shop" = .ok Shop.safePlan ∧
      emit Shop.safeTypes "DiError" Shop.safePlan = .ok arts ∧
      ofFactory "DiError" Shop.safeService ∈ arts.toList ∧
      Shop.safePlan.Mentions Shop.safeTypes "DiError" (ofFactory "DiError" Shop.safeService)
        preamble ls is false ∧
      WrittenIn (ofFactory "DiError" Shop.safeService).text
        (writtenLines preamble false (firstPaths is) ls) ∧
      errorUse ∈ writtenLines preamble false (firstPaths is) ls := by
  have hplan : planComponent Shop.safeTypes "shop" "Shop" = .ok Shop.safePlan := by decide +kernel
  have hemit : emit Shop.safeTypes "DiError" Shop.safePlan =
      .ok (ofPlan Shop.safeTypes "DiError" Shop.safePlan) :=
    emit_of_holds (by decide) (planComponent_holds hplan)
  have hfactory : Shop.safeService ∈ Shop.safePlan.factories.toList := by decide +kernel
  have hmem : ofFactory "DiError" Shop.safeService ∈
      (ofPlan Shop.safeTypes "DiError" Shop.safePlan).toList :=
    mem_ofPlan_iff.mpr (.inr (mem_items_iff.mpr (.inr (.inl ⟨_, hfactory, rfl⟩))))
  have hmentions : Shop.safePlan.Mentions Shop.safeTypes "DiError"
      (ofFactory "DiError" Shop.safeService) _ _ _ false := .factory hfactory
  have himports := hmentions.imports (planComponent_shaped hplan)
  have hpreamble : [componentUse "DiError"] ≠ [] := List.cons_ne_nil _ _
  exact ⟨_, _, _, _, hplan, hemit, hmem, hmentions, himports.written,
    himports.error.mpr (.inr ⟨hpreamble, rfl⟩)⟩

end Wiring
