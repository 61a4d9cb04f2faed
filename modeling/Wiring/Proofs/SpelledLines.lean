import Mathlib.Data.List.Basic
import Wiring.Proofs.BoundNames

/-!
How the lines of an artifact are spelled. A sheet gives a path its alias when the path is first met,
and keeps it: the paths of a sheet are those of the types named so far (`firstPaths`), to which
later lines only add at the end, so that all lines are spelled with the paths of the finished sheet
(`Sheet.spells_ofLines`). A finished sheet is therefore a function of its lines (`writtenLines`).
-/
namespace Wiring

open ImportTable

/-- The declared type that a piece names. -/
def Piece.identity? : Piece → Option Identity
  | typeName i => some i
  | _ => none

def identities (ps : List Piece) : List Identity :=
  ps.filterMap Piece.identity?

/-- The types that lines of code name. -/
def named (ls : List Line) : List Identity :=
  ls.flatMap fun l => identities l.pieces

/-- The lines name the error type. -/
def NamesError (ls : List Line) : Prop :=
  ∃ l ∈ ls, .errorType ∈ l.pieces

/-- The paths of types. A type without a path needs no import. -/
def pathsOf (is : List Identity) : List String :=
  (is.map Identity.path).filter (· ≠ "")

/-- The paths of types, each where it comes first. -/
def firstPaths (is : List Identity) : List String :=
  (pathsOf is).eraseDups

/-- The name of a type where these paths are imported. -/
def Identity.spelled (paths : List String) (i : Identity) : String :=
  if i.path = "" then i.name else aliasName (paths.idxOf i.path + 1) ++ "::" ++ i.name

def Piece.spelled (paths : List String) : Piece → String
  | text s => s
  | typeName i => i.spelled paths
  | errorType => errorTypeName

def Line.spelled (paths : List String) (l : Line) : String :=
  Sheet.indented l.depth (String.join (l.pieces.map (Piece.spelled paths)))

/-- The import of the error type. -/
def errorUse : List Char :=
  ("use super::" ++ errorTypeName ++ ";").toList

/-- The imports of an artifact, after the lines that are given. -/
def importLines (preamble : List String) (usesError : Bool) (paths : List String) :
    List (List Char) :=
  preamble.map String.toList ++ (if usesError then [errorUse] else []) ++
    (paths.zipIdx 1).map fun (path, n) => aliasLine path n

/-- The lines of an artifact: the header, the imports, and the code. -/
def writtenLines (preamble : List String) (usesError : Bool) (paths : List String)
    (ls : List Line) : List (List Char) :=
  headerLine :: [] :: (importLines preamble usesError paths ++
    (if importLines preamble usesError paths = [] then [] else [[]]) ++
      ls.map fun l => (l.spelled paths).toList)

section Identities

variable {ps : List Piece}

@[simp] theorem identities_nil : identities [] = [] := rfl

@[simp] theorem identities_append (ps qs : List Piece) :
    identities (ps ++ qs) = identities ps ++ identities qs :=
  List.filterMap_append

@[simp] theorem identities_text (s : String) : identities (.text s :: ps) = identities ps := rfl

@[simp] theorem identities_typeName (i : Identity) :
    identities (.typeName i :: ps) = i :: identities ps := rfl

@[simp] theorem identities_errorType : identities (.errorType :: ps) = identities ps := rfl

@[simp] theorem named_nil : named [] = [] := rfl

@[simp] theorem named_cons (l : Line) (ls : List Line) :
    named (l :: ls) = identities l.pieces ++ named ls :=
  List.flatMap_cons

@[simp] theorem named_append (ls ls' : List Line) : named (ls ++ ls') = named ls ++ named ls' :=
  List.flatMap_append

theorem namesError_nil : ¬ NamesError [] := by
  simp [NamesError]

@[simp] theorem namesError_cons {l : Line} {ls : List Line} :
    NamesError (l :: ls) ↔ .errorType ∈ l.pieces ∨ NamesError ls := by
  simp [NamesError]

@[simp] theorem namesError_append {ls ls' : List Line} :
    NamesError (ls ++ ls') ↔ NamesError ls ∨ NamesError ls' := by
  simp [NamesError, or_and_right, exists_or]

end Identities

section Paths

variable {is js : List Identity} {i : Identity} {paths : List String}

theorem mem_pathsOf {path : String} : path ∈ pathsOf is ↔ path ≠ "" ∧ ∃ i ∈ is, i.path = path := by
  simp [pathsOf, and_comm]

theorem mem_firstPaths {path : String} :
    path ∈ firstPaths is ↔ path ≠ "" ∧ ∃ i ∈ is, i.path = path := by
  rw [firstPaths, List.mem_eraseDups, mem_pathsOf]

theorem firstPaths_append (is js : List Identity) : firstPaths (is ++ js) =
    firstPaths is ++ ((pathsOf js).removeAll (pathsOf is)).eraseDups := by
  rw [firstPaths, pathsOf, List.map_append, List.filter_append, List.eraseDups_append]
  rfl

/-- Naming further types adds paths at the end. -/
theorem prefix_firstPaths_append (is js : List Identity) :
    firstPaths is <+: firstPaths (is ++ js) := by
  rw [firstPaths_append]
  exact List.prefix_append _ _

theorem firstPaths_concat (is : List Identity) (hpath : i.path ≠ "") : firstPaths (is ++ [i]) =
    firstPaths is ++ if i.path ∈ firstPaths is then [] else [i.path] := by
  have hpaths : pathsOf (is ++ [i]) = pathsOf is ++ [i.path] := by
    simp [pathsOf, hpath]
  rw [firstPaths, hpaths, eraseDups_concat]
  simp [firstPaths]

/-- Types that have been named before add no paths. -/
theorem firstPaths_absorb (h : ∀ j ∈ js, j ∈ is) (ks : List Identity) :
    firstPaths (is ++ js ++ ks) = firstPaths (is ++ ks) := by
  have hknown : ∀ path, path ∈ pathsOf (is ++ js) ↔ path ∈ pathsOf is := by
    intro path
    rw [mem_pathsOf, mem_pathsOf]
    refine and_congr_right fun _ => ⟨?_, ?_⟩
    · rintro ⟨j, hj, rfl⟩
      exact ⟨j, (List.mem_append.mp hj).elim id (h j), rfl⟩
    · rintro ⟨i, hi, rfl⟩
      exact ⟨i, List.mem_append_left js hi, rfl⟩
  have hnone : (pathsOf js).removeAll (pathsOf is) = [] := by
    rw [List.removeAll, List.filter_eq_nil_iff]
    intro path hpath
    have hmem : path ∈ pathsOf (is ++ js) := by
      rw [pathsOf, List.map_append, List.filter_append]
      exact List.mem_append_right _ hpath
    simpa using (hknown path).mp hmem
  have hrest : (pathsOf ks).removeAll (pathsOf (is ++ js)) =
      (pathsOf ks).removeAll (pathsOf is) := by
    refine List.filter_congr fun path _ => ?_
    simp [hknown path]
  rw [firstPaths_append (is ++ js), firstPaths_append is js, hnone, hrest, firstPaths_append is ks]
  simp

/-- A path is imported under the alias by which its types are named. -/
theorem Identity.spelled_eq (h : i.path ∈ paths) (hpath : i.path ≠ "") :
    ∃ k, paths[k]? = some i.path ∧ i.spelled paths = aliasName (k + 1) ++ "::" ++ i.name :=
  ⟨paths.idxOf i.path, List.getElem?_idxOf h, if_neg hpath⟩

theorem aliasLine_mem_importLines (preamble : List String) (usesError : Bool) {k : Nat}
    {path : String} (h : paths[k]? = some path) :
    aliasLine path (k + 1) ∈ importLines preamble usesError paths := by
  have hzip : (path, k + 1) ∈ paths.zipIdx 1 :=
    List.mk_mem_zipIdx_iff_le_and_getElem?_sub.mpr ⟨Nat.le_add_left 1 k, h⟩
  exact List.mem_append_right _ (List.mem_map.mpr ⟨_, hzip, rfl⟩)

/-- Further paths leave names as they are. -/
theorem Identity.spelled_of_further {paths' : List String} (h : paths <+: paths')
    (hi : i.path ≠ "" → i.path ∈ paths) : i.spelled paths' = i.spelled paths := by
  unfold spelled
  split
  · rfl
  · next hne => rw [h.idxOf_eq_of_mem (hi hne)]

end Paths

namespace Sheet

variable {s : Sheet} {is : List Identity} {ls : List Line} {paths : List String}

theorem paths_qualify {t : ImportTable} (h : t.paths = firstPaths is) (i : Identity) :
    (t.qualify i).2.paths = firstPaths (is ++ [i]) := by
  unfold ImportTable.qualify
  split
  · next hpath =>
    have hpaths : pathsOf (is ++ [i]) = pathsOf is := by
      simp [pathsOf, hpath]
    rw [h, firstPaths, firstPaths, hpaths]
  · next hpath =>
    rw [firstPaths_concat is hpath, ← h]
    unfold ImportTable.meet
    split <;> simp_all

theorem paths_spell (h : s.imports.paths = firstPaths is) (p : Piece) :
    (s.spell p).2.imports.paths = firstPaths (is ++ identities [p]) := by
  cases p with
  | text t =>
    rw [identities_text, identities_nil, List.append_nil]
    exact h
  | typeName i => exact paths_qualify h i
  | errorType =>
    rw [identities_errorType, identities_nil, List.append_nil]
    exact h

/-- A name is spelled as with all paths that are met later. -/
theorem text_spell (h : s.imports.paths = firstPaths is) (p : Piece)
    (hpaths : firstPaths (is ++ identities [p]) <+: paths) : (s.spell p).1 = p.spelled paths := by
  cases p with
  | text t => rfl
  | typeName i =>
    have hmet : i.path ≠ "" → i.path ∈ (s.imports.meet i.path).paths :=
      fun _ => ImportTable.mem_meet s.imports i.path
    have hqualify : (s.imports.qualify i).1 = i.spelled (s.imports.qualify i).2.paths := by
      unfold ImportTable.qualify Identity.spelled
      split <;> rfl
    have hi : i.path ≠ "" → i.path ∈ (s.imports.qualify i).2.paths := by
      intro hpath
      simpa [ImportTable.qualify, hpath] using hmet hpath
    rw [paths_qualify h i] at hqualify hi
    exact hqualify.trans (Identity.spelled_of_further hpaths hi).symm
  | errorType => rfl

theorem paths_spellAll (h : s.imports.paths = firstPaths is) (ps : List Piece) :
    (s.spellAll ps).2.imports.paths = firstPaths (is ++ identities ps) := by
  induction ps generalizing s is with
  | nil =>
    rw [identities_nil, List.append_nil]
    exact h
  | cons p ps ih =>
    have hrest := ih (paths_spell h p)
    rwa [List.append_assoc, ← identities_append, List.singleton_append] at hrest

theorem text_spellAll (h : s.imports.paths = firstPaths is) (ps : List Piece)
    (hpaths : firstPaths (is ++ identities ps) <+: paths) :
    (s.spellAll ps).1 = String.join (ps.map (Piece.spelled paths)) := by
  induction ps generalizing s is with
  | nil => rfl
  | cons p ps ih =>
    have happend : is ++ identities (p :: ps) = is ++ identities [p] ++ identities ps := by
      rw [List.append_assoc, ← identities_append, List.singleton_append]
    rw [happend] at hpaths
    have hfirst := text_spell h p ((prefix_firstPaths_append _ _).trans hpaths)
    have hrest := ih (paths_spell h p) hpaths
    have hspell : (s.spellAll (p :: ps)).1 = (s.spell p).1 ++ ((s.spell p).2.spellAll ps).1 := rfl
    rw [hspell, hfirst, hrest, List.map_cons, String.join_cons]

theorem usesError_spellAll (s : Sheet) (ps : List Piece) :
    (s.spellAll ps).2.usesError = true ↔ s.usesError = true ∨ .errorType ∈ ps := by
  induction ps generalizing s with
  | nil => simp [spellAll]
  | cons p ps ih =>
    rw [spellAll, ih, List.mem_cons]
    cases p <;> simp [spell]

/-- `s` is the sheet on which `ls` has been written. -/
structure Spells (s : Sheet) (ls : List Line) : Prop where
  paths : s.imports.paths = firstPaths (named ls)
  usesError : s.usesError = true ↔ NamesError ls
  /-- Paths that are met later do not change what is written. -/
  lines : ∀ paths, firstPaths (named ls) <+: paths → s.lines = ls.map (Line.spelled paths)

theorem spells_empty : empty.Spells [] where
  paths := rfl
  usesError := by simp [empty, namesError_nil]
  lines _ _ := rfl

theorem Spells.addLine (h : s.Spells ls) (l : Line) : (s.addLine l).Spells (ls ++ [l]) := by
  have hnamed : named (ls ++ [l]) = named ls ++ identities l.pieces := by
    simp [named]
  refine ⟨?_, ?_, fun paths hpaths => ?_⟩
  · rw [hnamed]
    exact paths_spellAll h.paths l.pieces
  · have hflag : (s.addLine l).usesError = (s.spellAll l.pieces).2.usesError := rfl
    rw [hflag, usesError_spellAll, h.usesError]
    simp [namesError_nil]
  · rw [hnamed] at hpaths
    rw [lines_addLine, h.lines paths ((prefix_firstPaths_append _ _).trans hpaths),
      text_spellAll h.paths l.pieces hpaths, List.map_append]
    rfl

/-- A sheet is written from the front, so that its last line is the last step. -/
theorem spells_ofLines (ls : List Line) : (ofLines ls).Spells ls := by
  induction ls using List.reverseRecOn with
  | nil => exact spells_empty
  | append_singleton ls l ih =>
    rw [ofLines, List.foldl_append]
    exact ih.addLine l

/-- The lines of a finished sheet, read off the lines that were written on it. -/
theorem written_ofLines {usesError : Bool} (preamble : List String)
    (h : usesError = true ↔ NamesError ls) :
    (ofLines ls).written preamble =
      writtenLines preamble usesError (firstPaths (named ls)) ls := by
  have hspells := spells_ofLines ls
  have herror : (ofLines ls).usesError = usesError :=
    Bool.eq_iff_iff.mpr (hspells.usesError.trans h.symm)
  have himports : preamble.map String.toList ++ (ofLines ls).errorUses ++ (ofLines ls).aliasUses =
      importLines preamble usesError (firstPaths (named ls)) := by
    rw [errorUses, aliasUses, herror, hspells.paths]
    rfl
  have hgap : (ofLines ls).gap preamble =
      if importLines preamble usesError (firstPaths (named ls)) = [] then [] else [[]] := by
    rw [gap, herror, ImportTable.isEmpty, hspells.paths]
    refine if_congr ?_ rfl rfl
    cases usesError <;> simp [importLines]
  have hbody : (ofLines ls).lines.map String.toList =
      ls.map fun l => (l.spelled (firstPaths (named ls))).toList := by
    rw [hspells.lines _ List.prefix_rfl, List.map_map]
    rfl
  rw [written, himports, hgap, hbody]
  rfl

end Sheet

end Wiring
