import Wiring.Proofs.Outcomes
import Wiring.Proofs.Sequences

/-!
The names that a generated file binds at its top: modules, imports and the types that it
declares. A file binds the component and names that are not chosen by the user, which are those of
artifacts, the error type and the aliases of paths. The latter are distinct, so that a file binds
no name twice exactly if the component is not called like one of them (`generate_boundNames`).
The component only has to be an identifier, and it may be called like the error type.
-/
namespace Wiring

open Naming Artifact

/-- The word that a text starts with. -/
def leadingWord (cs : List Char) : String :=
  .ofList (cs.takeWhile (IsWordChar ·))

/-- The word before the last character. -/
def closingWord (cs : List Char) : String :=
  .ofList (cs.dropLast.reverse.takeWhile (IsWordChar ·)).reverse

/-- The name that a line at the top of a file binds. A module and an import are named at the end
of the line, and a type right after its keyword. -/
def boundName? (line : List Char) : Option String :=
  if ["mod ", "use ", "pub use "].any fun k => k.toList.isPrefixOf line then
    some (closingWord line)
  else
    ((line.dropPrefix? "pub struct ".toList).or (line.dropPrefix? "pub type ".toList)).map
      leadingWord

def boundNames (ls : List (List Char)) : List String :=
  ls.filterMap boundName?

@[simp] theorem boundNames_append (ls ls' : List (List Char)) :
    boundNames (ls ++ ls') = boundNames ls ++ boundNames ls' :=
  List.filterMap_append

theorem boundNames_cons_of_none {l : List Char} (h : boundName? l = none)
    (ls : List (List Char)) : boundNames (l :: ls) = boundNames ls :=
  List.filterMap_cons_none h

theorem boundNames_map {α : Type} {f : α → List Char} {g : α → String} {xs : List α}
    (h : ∀ x ∈ xs, boundName? (f x) = some (g x)) : boundNames (xs.map f) = xs.map g := by
  induction xs with
  | nil => rfl
  | cons x xs ih =>
    rw [List.map_cons, boundNames, List.filterMap_cons_some (h x List.mem_cons_self)]
    exact congrArg (g x :: ·) (ih fun y hy => h y (List.mem_cons_of_mem x hy))

theorem boundNames_cons_of_some {l : List Char} {name : String} (h : boundName? l = some name)
    (ls : List (List Char)) : boundNames (l :: ls) = name :: boundNames ls :=
  List.filterMap_cons_some h

section Words

variable {name : String} {sep : Char}

theorem leadingWord_append (hname : ∀ c ∈ name.toList, IsWordChar c) (hsep : ¬ IsWordChar sep)
    (rest : List Char) : leadingWord (name.toList ++ sep :: rest) = name := by
  have htake : (name.toList ++ sep :: rest).takeWhile (IsWordChar ·) = name.toList := by
    rw [List.takeWhile_append_of_pos (by simpa using hname)]
    simp [hsep]
  rw [leadingWord, htake, String.ofList_toList]

theorem closingWord_append (hname : ∀ c ∈ name.toList, IsWordChar c) (hsep : ¬ IsWordChar sep)
    (before : List Char) (last : Char) :
    closingWord (before ++ sep :: (name.toList ++ [last])) = name := by
  have hreverse : (before ++ sep :: (name.toList ++ [last])).dropLast.reverse =
      name.toList.reverse ++ sep :: before.reverse := by
    rw [← List.cons_append, ← List.append_assoc, List.dropLast_concat]
    simp
  have htake : (name.toList.reverse ++ sep :: before.reverse).takeWhile (IsWordChar ·) =
      name.toList.reverse := by
    rw [List.takeWhile_append_of_pos (by simpa using hname)]
    simp [hsep]
  rw [closingWord, hreverse, htake, List.reverse_reverse, String.ofList_toList]

/-- A line that starts with one of these keywords binds the word before its last character. -/
theorem boundName?_of_keyword {line : List Char}
    (h : (["mod ", "use ", "pub use "].any fun k => k.toList.isPrefixOf line) = true) :
    boundName? line = some (closingWord line) :=
  if_pos h

theorem boundName?_mod (hname : ∀ c ∈ name.toList, IsWordChar c) :
    boundName? (moduleLine name) = some name := by
  have hline : moduleLine name = "mod".toList ++ ' ' :: (name.toList ++ [';']) := by
    simp [moduleLine]
  rw [boundName?_of_keyword (by simp [moduleLine]), hline, closingWord_append hname (by decide)]

theorem boundName?_use (hname : ∀ c ∈ name.toList, IsWordChar c) (hsep : ¬ IsWordChar sep)
    (path : List Char) :
    boundName? ("use ".toList ++ path ++ sep :: (name.toList ++ [';'])) = some name := by
  rw [boundName?_of_keyword (by simp), closingWord_append hname hsep]

theorem boundName?_publicUse (hname : ∀ c ∈ name.toList, IsWordChar c) (hsep : ¬ IsWordChar sep)
    (path : List Char) :
    boundName? ("pub use ".toList ++ path ++ sep :: (name.toList ++ [';'])) = some name := by
  rw [boundName?_of_keyword (by simp), closingWord_append hname hsep]

theorem boundName?_struct (hname : ∀ c ∈ name.toList, IsWordChar c) (hsep : ¬ IsWordChar sep)
    (rest : List Char) :
    boundName? ("pub struct ".toList ++ (name.toList ++ sep :: rest)) = some name := by
  have hword : leadingWord (name.toList ++ sep :: rest) = name := leadingWord_append hname hsep rest
  simp [boundName?, List.dropPrefix?, hword]

end Words

/-- The names that are made up of several words are not that of the error type. -/
theorem ne_errorTypeName {name : String} (h : '_' ∈ name.toList) : name ≠ errorTypeName := by
  rintro rfl
  exact absurd h (by decide)

section Aliases

open ImportTable

theorem ImportTable.toList_aliasName (n : Nat) :
    (aliasName n).toList = "di_import_".toList ++ Nat.toDigits 10 n := by
  simp [aliasName, Nat.repr]

/-- The numbers of aliases are read back from their digits. -/
theorem ImportTable.aliasName_inj {n m : Nat} : aliasName n = aliasName m ↔ n = m := by
  constructor
  · intro h
    have hlist := congrArg String.toList h
    rw [toList_aliasName, toList_aliasName] at hlist
    have hdigits := List.append_cancel_left hlist
    rw [← Nat.ofDigitChars_toDigits (n := n) (by decide) (Nat.le_refl 10), hdigits,
      Nat.ofDigitChars_toDigits (by decide) (Nat.le_refl 10)]
  · exact congrArg aliasName

theorem ImportTable.isWordChar_of_mem_aliasName {n : Nat} {c : Char}
    (h : c ∈ (aliasName n).toList) : IsWordChar c := by
  rw [toList_aliasName, List.mem_append] at h
  rcases h with h | h
  · have hprefix : ∀ c ∈ "di_import_".toList, IsWordChar c := isWordChar_of_all (by decide)
    exact hprefix c h
  · have hdigit := Nat.isDigit_of_mem_toDigits (by decide) (Nat.le_refl 10) h
    exact .inl (by simp [Char.isAlphanum, hdigit])

end Aliases

/-- The names that are made up for generated code. -/
inductive Naming.MadeUp : String → Prop
  | component : MadeUp componentName
  | factory (i : Identity) : MadeUp (factoryArtifact i)
  | wrapper (i : Identity) : MadeUp (providerArtifact i)
  | errorType : MadeUp errorTypeName
  | alias (n : Nat) : MadeUp (ImportTable.aliasName n)

/-! The lines of a file, as they are written one after another. A path may hold line breaks, and
then a line of the file is not a line of its text. -/

/-- What is written in the lines of `ls`. -/
def WrittenIn (text : String) (ls : List (List Char)) : Prop :=
  text.toList = ls.flatMap (· ++ ['\n'])

def headerLine : List Char :=
  "// Code generated by dihc. DO NOT EDIT.".toList

def aliasLine (path : String) (n : Nat) : List Char :=
  ("use " ++ path ++ " as " ++ ImportTable.aliasName n ++ ";").toList

namespace Sheet

def errorUses (s : Sheet) : List (List Char) :=
  if s.usesError then [("use super::" ++ errorTypeName ++ ";").toList] else []

def aliasUses (s : Sheet) : List (List Char) :=
  (s.imports.paths.zipIdx 1).map fun (path, n) => aliasLine path n

def gap (s : Sheet) (preamble : List String) : List (List Char) :=
  if preamble.isEmpty && !s.usesError && s.imports.isEmpty then [] else [[]]

/-- The lines of a finished sheet. -/
def written (s : Sheet) (preamble : List String) : List (List Char) :=
  headerLine :: [] :: (preamble.map String.toList ++ s.errorUses ++ s.aliasUses ++
    s.gap preamble ++ s.lines.map String.toList)

/-- The names in a finished sheet that are neither in its preamble nor in its body. -/
def ownNames (s : Sheet) : List String :=
  (if s.usesError then [errorTypeName] else []) ++
    (List.range' 1 s.imports.paths.length).map ImportTable.aliasName

theorem toList_render (t : ImportTable) : t.render.toList =
    ((t.paths.zipIdx 1).map fun (path, n) => aliasLine path n).flatMap (· ++ ['\n']) := by
  rw [ImportTable.render, String.toList_join, List.flatMap_map, List.flatMap_map]
  simp [ImportTable.useLine, aliasLine]

theorem written_finish (s : Sheet) (preamble : List String) :
    WrittenIn (s.finish preamble) (s.written preamble) := by
  have hheader : (generatedHeader ++ "\n").toList = headerLine ++ '\n' :: '\n' :: [] := by decide
  have herror : (if s.usesError then "use super::" ++ errorTypeName ++ ";\n" else "").toList =
      s.errorUses.flatMap (· ++ ['\n']) := by
    unfold errorUses
    split <;> decide
  have hgap : (if preamble.isEmpty && !s.usesError && s.imports.isEmpty then ""
      else "\n").toList = (s.gap preamble).flatMap (· ++ ['\n']) := by
    unfold gap
    split <;> rfl
  simp only [WrittenIn, finish, uses, body, written, String.toList_append, hheader, herror, hgap,
    toList_join_lines, toList_render, aliasUses, List.flatMap_cons, List.flatMap_append,
    List.append_assoc, List.cons_append, List.nil_append]

theorem boundName?_aliasLine (path : String) (n : Nat) :
    boundName? (aliasLine path n) = some (ImportTable.aliasName n) := by
  have hword : ∀ c ∈ (ImportTable.aliasName n).toList, IsWordChar c :=
    fun _ => ImportTable.isWordChar_of_mem_aliasName
  have hblank : ¬ IsWordChar ' ' := by decide
  rw [← boundName?_use hword hblank (path.toList ++ " as".toList)]
  simp [aliasLine]

theorem boundNames_errorUses (s : Sheet) :
    boundNames s.errorUses = if s.usesError then [errorTypeName] else [] := by
  unfold errorUses
  split <;> decide

theorem boundNames_aliasUses (s : Sheet) : boundNames s.aliasUses =
    (List.range' 1 s.imports.paths.length).map ImportTable.aliasName := by
  have hbound : ∀ x ∈ s.imports.paths.zipIdx 1,
      boundName? (aliasLine x.1 x.2) = some (ImportTable.aliasName x.2) :=
    fun x _ => boundName?_aliasLine x.1 x.2
  have hnames := boundNames_map hbound
  rw [aliasUses, hnames, ← List.zipIdx_map_snd 1, List.map_map]
  rfl

theorem boundNames_written (s : Sheet) (preamble : List String) :
    boundNames (s.written preamble) = boundNames (preamble.map String.toList) ++ s.ownNames ++
      boundNames (s.lines.map String.toList) := by
  have hheader : boundName? headerLine = none := by decide
  have hempty : boundName? [] = none := by decide
  have hgap : boundNames (s.gap preamble) = [] := by
    unfold gap
    split <;> decide
  simp only [written, boundNames_cons_of_none hheader, boundNames_cons_of_none hempty,
    boundNames_append, boundNames_errorUses, boundNames_aliasUses, hgap, ownNames,
    List.nil_append, List.append_assoc]

theorem nodup_ownNames (s : Sheet) : s.ownNames.Nodup := by
  have haliases : ((List.range' 1 s.imports.paths.length).map ImportTable.aliasName).Nodup :=
    List.pairwise_map.mpr ((List.nodup_range' ..).imp
      fun hne heq => hne (ImportTable.aliasName_inj.mp heq))
  have herror : ∀ n, ImportTable.aliasName n ≠ errorTypeName :=
    fun n => ne_errorTypeName (by simp [ImportTable.toList_aliasName])
  unfold ownNames
  split
  · simp [haliases, herror]
  · simpa using haliases

theorem madeUp_of_mem_ownNames (s : Sheet) : ∀ n ∈ s.ownNames, MadeUp n := by
  intro n hn
  rcases List.mem_append.mp hn with hn | hn
  · split at hn
    · rw [List.mem_singleton.mp hn]
      exact .errorType
    · cases hn
  · obtain ⟨k, -, rfl⟩ := List.mem_map.mp hn
    exact .alias k

/-! The body of a sheet. -/

@[simp] theorem lines_spellAll (s : Sheet) (ps : List Piece) :
    (s.spellAll ps).2.lines = s.lines := by
  induction ps generalizing s with
  | nil => rfl
  | cons p ps ih =>
    rw [spellAll, ih]
    cases p <;> rfl

theorem lines_addLine (s : Sheet) (l : Line) :
    (s.addLine l).lines = s.lines ++ [indented l.depth (s.spellAll l.pieces).1] := by
  simp [addLine, writeAt]

end Sheet

/-- However its types are spelled, the line binds no name. -/
def Line.Mute (l : Line) : Prop :=
  ∀ s : Sheet, boundName? (Sheet.indented l.depth (s.spellAll l.pieces).1).toList = none

theorem Line.mute_of_deep {l : Line} (h : l.depth ≠ 0) : l.Mute := by
  intro s
  obtain ⟨d, hd⟩ := Nat.exists_eq_succ_of_ne_zero h
  rw [Sheet.indented]
  split
  · decide
  · simp [hd, List.replicate_succ, String.join_cons, boundName?, List.dropPrefix?]

/-- A line that starts with this text binds no name, whatever follows. -/
def BindsNothing (start : String) : Prop :=
  ∀ rest, boundName? (start.toList ++ rest) = none

theorem BindsNothing.append {start : String} (h : BindsNothing start) (after : String) :
    BindsNothing (start ++ after) := by
  intro rest
  rw [String.toList_append, List.append_assoc, h]

theorem Line.mute_of_text {start : String} (h : BindsNothing start) (ps : List Piece) :
    (⟨0, .text start :: ps⟩ : Line).Mute := by
  intro s
  have hempty : boundName? [] = none := by decide
  rw [Sheet.indented]
  split
  · exact hempty
  · simpa [Sheet.spellAll, Sheet.spell] using h _

theorem Line.mute_blank : Line.blank.Mute :=
  fun _ => rfl

theorem Sheet.boundNames_foldl {ls : List Line} (h : ∀ l ∈ ls, l.Mute) (s : Sheet) :
    boundNames ((ls.foldl addLine s).lines.map String.toList) =
      boundNames (s.lines.map String.toList) := by
  induction ls generalizing s with
  | nil => rfl
  | cons l ls ih =>
    have hl := boundNames_cons_of_none (h l List.mem_cons_self s) []
    rw [List.foldl_cons, ih fun l' hl' => h l' (List.mem_cons_of_mem l hl'), lines_addLine,
      List.map_append, boundNames_append, List.map_singleton, hl]
    exact List.append_nil _

/-! The items of a plan. -/

/-- What holds of every line of an item, except of the one that declares a struct. -/
structure Line.HoldsInItems (P : Line → Prop) : Prop where
  deep : ∀ {l}, l.depth ≠ 0 → P l
  blank : P .blank
  close : P (plain "\x7d" 0)
  methods : ∀ {text} rest ps, text = "impl " ++ rest → P ⟨0, .text text :: ps⟩
  function : ∀ {text} rest ps, text = "pub(super) " ++ rest → P ⟨0, .text text :: ps⟩

namespace Artifact

variable {u : Universe} {component : String} {p : Plan}

section Walk

variable {P : Line → Prop}

open Line

theorem forall_lines (h : HoldsInItems P) {r : Routine} {depth : Nat} (hdepth : depth ≠ 0) :
    ∀ l ∈ r.lines depth, P l := by
  intro l hl
  simp only [Routine.lines, List.cons_append, List.mem_cons, List.mem_append, List.mem_map,
    List.not_mem_nil, or_false] at hl
  rcases hl with rfl | ⟨x, -, rfl⟩ | rfl | rfl
  · exact h.deep hdepth
  · exact h.deep (Nat.succ_ne_zero depth)
  · exact h.deep (Nat.succ_ne_zero depth)
  · exact h.deep hdepth

theorem forall_factoryLines (h : HoldsInItems P) (f : Factory) :
    ∀ l ∈ factoryLines component f, P l := by
  have hvisibility : (Routine.factory component f).visibility = "pub(super) " := by
    unfold Routine.factory
    split <;> rfl
  have hheader : P ⟨0, (Routine.factory component f).header⟩ := by
    apply h.function
    rw [hvisibility]
    simp only [String.append_assoc]
    rfl
  intro l hl
  simp only [factoryLines, Routine.lines, List.cons_append, List.mem_cons, List.mem_append,
    List.mem_map, List.not_mem_nil, or_false] at hl
  rcases hl with rfl | ⟨x, -, rfl⟩ | rfl | rfl
  · exact hheader
  · exact h.deep (Nat.succ_ne_zero 0)
  · exact h.deep (Nat.succ_ne_zero 0)
  · exact h.close

theorem forall_wrapperLines (h : HoldsInItems P) (e : PlannedProvider) :
    ∀ l ∈ wrapperLines u component e, P l := by
  intro l hl
  simp only [wrapperLines, List.cons_append, List.mem_cons, List.mem_append, List.not_mem_nil,
    or_false] at hl
  rcases hl with rfl | hl | rfl
  · exact h.methods _ [] (String.append_assoc ..)
  · exact forall_lines h (Nat.succ_ne_zero 0) l hl
  · exact h.close

theorem forall_constructorLines (h : HoldsInItems P) :
    ∀ l ∈ constructorLines component p, P l := by
  intro l hl
  apply h.deep
  simp only [constructorLines, List.cons_append, List.mem_cons, List.mem_append, List.mem_map,
    List.not_mem_nil, or_false] at hl
  rcases hl with rfl | rfl | ⟨m, -, rfl⟩ | rfl | rfl
  · exact Nat.succ_ne_zero 0
  · exact Nat.succ_ne_zero 1
  · unfold initialLine
    split <;> exact Nat.succ_ne_zero 2
  · exact Nat.succ_ne_zero 1
  · exact Nat.succ_ne_zero 0

theorem forall_routineLines (h : HoldsInItems P) (rs : List Routine) :
    ∀ l ∈ routineLines rs, P l := by
  induction rs using routineLines.induct with
  | case1 => exact List.forall_mem_nil _
  | case2 r => exact forall_lines h (Nat.succ_ne_zero 0)
  | case3 r rs hrs ih =>
    rw [routineLines.eq_3 _ _ hrs]
    exact List.forall_mem_append.mpr ⟨forall_lines h (Nat.succ_ne_zero 0),
      List.forall_mem_cons.mpr ⟨h.blank, ih⟩⟩

/-- The struct of a component is its first line. -/
theorem exists_componentLines (h : HoldsInItems P) : ∃ ls, componentLines u component p =
    plain ("pub struct " ++ component ++ " \x7b") 0 :: ls ∧ ∀ l ∈ ls, P l := by
  have hown : P (plain ("impl " ++ component ++ " \x7b") 0) :=
    h.methods _ [] (String.append_assoc ..)
  have hopen : ∀ l ∈ p.modules.map fieldLine ++ plain "\x7d" 0 :: .blank ::
      plain ("impl " ++ component ++ " \x7b") 0 :: constructorLines component p, P l := by
    simp only [List.forall_mem_append, List.forall_mem_map, List.forall_mem_cons]
    exact ⟨fun m _ => h.deep (Nat.succ_ne_zero 0), h.close, h.blank, hown,
      forall_constructorLines h⟩
  unfold componentLines
  cases p.definition.componentInterface with
  | none =>
    have hmethods : ∀ l ∈ ((accessors u "pub " p).flatMap fun r => .blank :: r.lines 1) ++
        [plain "\x7d" 0], P l := by
      simp only [List.forall_mem_append, List.forall_mem_flatMap, List.forall_mem_cons]
      exact ⟨fun r _ => ⟨h.blank, forall_lines h (Nat.succ_ne_zero 0)⟩, h.close,
        List.forall_mem_nil _⟩
    exact ⟨_, by simp [structLines], List.forall_mem_append.mpr ⟨hopen, hmethods⟩⟩
  | some i =>
    have hmethods : ∀ l ∈ [plain "\x7d" 0, .blank,
        ⟨0, [.text "impl ", .typeName i, .text (" for " ++ component ++ " \x7b")]⟩] ++
        routineLines (accessors u "" p) ++ [plain "\x7d" 0], P l := by
      simp only [List.forall_mem_append, List.forall_mem_cons]
      exact ⟨⟨⟨h.close, h.blank, h.methods "" _ rfl, List.forall_mem_nil _⟩,
        forall_routineLines h _⟩, h.close, List.forall_mem_nil _⟩
    exact ⟨_, by simp [structLines], List.forall_mem_append.mpr ⟨hopen, hmethods⟩⟩

end Walk

theorem holdsInItems_mute : Line.HoldsInItems Line.Mute where
  deep := Line.mute_of_deep
  blank := Line.mute_blank
  close := Line.mute_of_text (fun rest => by simp [boundName?, List.dropPrefix?]) []
  methods rest ps htext := by
    have hstart : BindsNothing "impl " := fun rest => by simp [boundName?, List.dropPrefix?]
    exact Line.mute_of_text (htext ▸ hstart.append rest) ps
  function rest ps htext := by
    have hstart : BindsNothing "pub(super) " := fun rest => by simp [boundName?, List.dropPrefix?]
    exact Line.mute_of_text (htext ▸ hstart.append rest) ps

/-- The struct is the first line of a sheet. -/
theorem boundNames_structLine (hcomponent : ∀ c ∈ component.toList, IsWordChar c) :
    boundNames ((Sheet.empty.addLine (plain ("pub struct " ++ component ++ " \x7b") 0)).lines.map
      String.toList) = [component] := by
  have hblank : ¬ IsWordChar ' ' := by decide
  have hbound := boundName?_struct hcomponent hblank ['\x7b']
  have hline : ((Sheet.empty.addLine (plain ("pub struct " ++ component ++ " \x7b") 0)).lines.map
      String.toList) = ["pub struct ".toList ++ (component.toList ++ ' ' :: ['\x7b'])] := by
    simp [Sheet.lines_addLine, Sheet.empty, Sheet.indented, Sheet.spellAll, Sheet.spell, plain]
  rw [hline]
  exact boundNames_cons_of_some hbound []

/-- The lines of the root. -/
def rootWritten (names : List String) (component : String) (definition : Identity) :
    List (List Char) :=
  headerLine :: ("// Component: " ++ definition.display).toList :: rootLines names component

theorem written_rootText (names : List String) (component : String) (definition : Identity) :
    WrittenIn (rootText names component definition) (rootWritten names component definition) := by
  have hheader : generatedHeader.toList = headerLine ++ ['\n'] := by decide
  rw [WrittenIn, toList_rootText, rootWritten, List.flatMap_cons, List.flatMap_cons,
    String.toList_append, String.toList_append, hheader]
  simp

theorem boundNames_rootWritten {names : List String} (definition : Identity)
    (hnames : ∀ n ∈ names, ∀ c ∈ n.toList, IsWordChar c)
    (hcomponent : ∀ c ∈ component.toList, IsWordChar c) :
    boundNames (rootWritten names component definition) =
      names ++ [component, errorTypeName] := by
  have hshown : boundName? ("// Component: " ++ definition.display).toList = none := by
    simp [boundName?, List.dropPrefix?]
  have hopen : boundNames [[], "#![allow(non_snake_case, dead_code)]".toList, []] = [] := by decide
  have hmodules : boundNames (names.map moduleLine) = names := by
    exact (boundNames_map fun n hn => boundName?_mod (hnames n hn)).trans (List.map_id names)
  have huse : boundName? ("pub use " ++ componentName ++ "::" ++ component ++ ";").toList =
      some component := by
    have hcolon : ¬ IsWordChar ':' := by decide
    rw [← boundName?_publicUse hcomponent hcolon (componentName.toList ++ [':'])]
    simp
  have hclose : boundNames [[], "/// Error returned by fallible providers and accessors.".toList,
      ("pub type " ++ errorTypeName ++ " = Box<dyn std::error::Error + Send + Sync>;").toList] =
      [errorTypeName] := by decide
  have hheader : boundName? headerLine = none := by decide
  have hempty : boundName? [] = none := by decide
  rw [rootWritten, boundNames_cons_of_none hheader, boundNames_cons_of_none hshown, rootLines,
    boundNames_append, boundNames_append, hopen, hmodules, boundNames_cons_of_none hempty,
    boundNames_cons_of_some huse, hclose]
  rfl

end Artifact

/-- The files of a plan with the lines in which they are written, and with the names that they
bind apart from the component. -/
inductive Plan.File (u : Universe) (component : String) (p : Plan) :
    Artifact → List (List Char) → List String → Prop
  | root : File u component p (root u component p)
      (rootWritten (ofItems u component p).keys component p.definition.identity)
      ((ofItems u component p).keys ++ [errorTypeName])
  | component : File u component p (ofComponent u component p)
      ((Sheet.ofLines (componentLines u component p)).written [])
      (Sheet.ofLines (componentLines u component p)).ownNames
  | factory {f : Factory} (hf : f ∈ p.factories.toList) :
      File u component p (ofFactory component f)
        ((Sheet.ofLines (factoryLines component f)).written [componentUse component])
        (Sheet.ofLines (factoryLines component f)).ownNames
  | wrapper {e : PlannedProvider} (he : e ∈ p.providers.toList) :
      File u component p (ofProvider u component e)
        ((Sheet.ofLines (wrapperLines u component e)).written [componentUse component])
        (Sheet.ofLines (wrapperLines u component e)).ownNames

/-- A file binds the component and `own`, which are distinct names, and it binds no name twice
exactly if the component is called otherwise. -/
structure Artifact.Binds (component : String) (ls : List (List Char)) (own : List String) :
    Prop where
  perm : (boundNames ls).Perm (component :: own)
  nodup : own.Nodup
  madeUp : ∀ n ∈ own, MadeUp n
  distinct : (boundNames ls).Nodup ↔ component ∉ own

namespace Plan.File

variable {u : Universe} {component : String} {p : Plan} {a : Artifact} {ls : List (List Char)}
  {own : List String}

theorem written (h : p.File u component a ls own) : WrittenIn a.text ls := by
  cases h with
  | root => exact written_rootText _ _ _
  | component => exact Sheet.written_finish _ _
  | factory _ => exact Sheet.written_finish _ _
  | wrapper _ => exact Sheet.written_finish _ _

/-- The names of a file are the component and those that are not chosen by the user. -/
theorem perm_boundNames (h : p.File u component a ls own)
    (hcomponent : ∀ c ∈ component.toList, IsWordChar c) :
    (boundNames ls).Perm (component :: own) := by
  have huse : boundNames [(componentUse component).toList] = [component] := by
    have hcolon : ¬ IsWordChar ':' := by decide
    have hbound := boundName?_use hcomponent hcolon "super:".toList
    have hline : (componentUse component).toList =
        "use ".toList ++ "super:".toList ++ ':' :: (component.toList ++ [';']) := by
      simp [componentUse]
    rw [hline]
    exact boundNames_cons_of_some hbound []
  cases h with
  | root =>
    have hnames : ∀ n ∈ (ofItems u component p).keys, ∀ c ∈ n.toList, IsWordChar c := by
      intro n hn
      obtain ⟨b, hb, rfl⟩ := List.mem_map.mp hn
      exact isWordChar_of_mem_name (mem_ofItems_iff.mp hb)
    rw [boundNames_rootWritten _ hnames hcomponent]
    exact List.perm_middle
  | component =>
    obtain ⟨rest, hlines, hmute⟩ : ∃ ls, componentLines u component p =
        plain ("pub struct " ++ component ++ " \x7b") 0 :: ls ∧ ∀ l ∈ ls, l.Mute :=
      exists_componentLines holdsInItems_mute
    have hstruct := boundNames_structLine hcomponent
    have hbody : boundNames ((Sheet.ofLines (componentLines u component p)).lines.map
        String.toList) = [component] := by
      rw [hlines, Sheet.ofLines, List.foldl_cons, Sheet.boundNames_foldl hmute, hstruct]
    rw [Sheet.boundNames_written, hbody]
    exact List.perm_append_singleton component _
  | @factory f hf =>
    have hbody : boundNames ((Sheet.ofLines (factoryLines component f)).lines.map
        String.toList) = [] :=
      Sheet.boundNames_foldl (forall_factoryLines holdsInItems_mute f) .empty
    rw [Sheet.boundNames_written, hbody, List.map_singleton, huse, List.append_nil]
    rfl
  | @wrapper e he =>
    have hbody : boundNames ((Sheet.ofLines (wrapperLines u component e)).lines.map
        String.toList) = [] :=
      Sheet.boundNames_foldl (forall_wrapperLines holdsInItems_mute e) .empty
    rw [Sheet.boundNames_written, hbody, List.map_singleton, huse, List.append_nil]
    rfl

theorem madeUp_of_mem_key {name : String} (h : name ∈ (ofItems u component p).keys) :
    MadeUp name := by
  obtain ⟨b, hb, rfl⟩ := List.mem_map.mp h
  rcases mem_items_iff.mp (mem_ofItems_iff.mp hb) with rfl | ⟨f, -, rfl⟩ | ⟨e, -, rfl⟩
  · exact .component
  · exact .factory f.identity
  · exact .wrapper e.provider.provides

theorem errorTypeName_not_mem_keys : errorTypeName ∉ (ofItems u component p).keys := by
  intro hmem
  obtain ⟨b, hb, hname⟩ := List.mem_map.mp hmem
  rcases mem_items_iff.mp (mem_ofItems_iff.mp hb) with rfl | ⟨f, -, rfl⟩ | ⟨e, -, rfl⟩
  · have hne : componentName ≠ errorTypeName := by decide
    exact hne hname
  · exact ne_errorTypeName (by simp [key, ofFactory, factoryArtifact]) hname
  · exact ne_errorTypeName (by simp [key, ofProvider, providerArtifact]) hname

theorem nodup_own (h : p.File u component a ls own) : own.Nodup := by
  cases h with
  | root =>
    refine List.nodup_append.mpr
      ⟨(ofItems u component p).nodup_keys, List.pairwise_singleton _ _, ?_⟩
    rintro n hn m hm rfl
    exact errorTypeName_not_mem_keys (List.mem_singleton.mp hm ▸ hn)
  | component => exact Sheet.nodup_ownNames _
  | factory _ => exact Sheet.nodup_ownNames _
  | wrapper _ => exact Sheet.nodup_ownNames _

theorem madeUp_of_mem_own (h : p.File u component a ls own) : ∀ n ∈ own, MadeUp n := by
  cases h with
  | root =>
    intro n hn
    rcases List.mem_append.mp hn with hn | hn
    · exact madeUp_of_mem_key hn
    · rw [List.mem_singleton.mp hn]
      exact .errorType
  | component => exact Sheet.madeUp_of_mem_ownNames _
  | factory _ => exact Sheet.madeUp_of_mem_ownNames _
  | wrapper _ => exact Sheet.madeUp_of_mem_ownNames _

theorem binds (h : p.File u component a ls own)
    (hcomponent : ∀ c ∈ component.toList, IsWordChar c) : Binds component ls own where
  perm := h.perm_boundNames hcomponent
  nodup := h.nodup_own
  madeUp := h.madeUp_of_mem_own
  distinct := by
    rw [(h.perm_boundNames hcomponent).nodup_iff, List.nodup_cons]
    exact and_iff_left h.nodup_own

end Plan.File

theorem Artifact.exists_file {u : Universe} {component : String} {p : Plan} {a : Artifact}
    (h : a ∈ (ofPlan u component p).toList) : ∃ ls own, p.File u component a ls own := by
  rcases mem_ofPlan_iff.mp h with rfl | h
  · exact ⟨_, _, .root⟩
  · rcases mem_items_iff.mp h with rfl | ⟨f, hf, rfl⟩ | ⟨e, he, rfl⟩
    · exact ⟨_, _, .component⟩
    · exact ⟨_, _, .factory hf⟩
    · exact ⟨_, _, .wrapper he⟩

/-- A generated file binds no name twice, unless the component is called like another name of the
file. -/
theorem generate_boundNames {u : Universe} {s : Settings} {arts : Table Artifact}
    {t : PlanSummary} (h : generate u s = .generated arts t) :
    ∃ p, planComponent u s.package s.definition = .ok p ∧
      ∀ a ∈ arts.toList, ∃ ls own, p.File u s.componentType a ls own ∧
        WrittenIn a.text ls ∧ Binds s.componentType ls own := by
  obtain ⟨⟨-, hidentifier⟩, p, hp, rfl, -⟩ := generate_eq_generated_iff.mp h
  refine ⟨p, hp, fun a ha => ?_⟩
  obtain ⟨ls, own, hfile⟩ := exists_file ha
  exact ⟨ls, own, hfile, hfile.written,
    hfile.binds fun _ => isWordChar_of_mem_identifier hidentifier⟩

theorem shop_boundNames : ∃ arts t,
    generate Shop.types (Shop.called "Shop") = .generated arts t ∧
      ∃ p, planComponent Shop.types "shop" "Shop" = .ok p ∧
        ∀ a ∈ arts.toList, ∃ ls own, p.File Shop.types "Shop" a ls own ∧
          WrittenIn a.text ls ∧ Binds "Shop" ls own := by
  have hidentifier : isIdentifier "Shop" = true := by decide
  have hgenerate := Shop.generate_called hidentifier
  exact ⟨_, _, hgenerate, generate_boundNames hgenerate⟩

/-- A component may be called like the error type, and then the root binds its name twice. -/
theorem error_component_bound_twice : ∃ arts t a ls own,
    generate Shop.types (Shop.called "DiError") = .generated arts t ∧
      arts.find? rootName = some a ∧ Shop.plan.File Shop.types "DiError" a ls own ∧
      WrittenIn a.text ls ∧ (boundNames ls).count "DiError" = 2 := by
  have hidentifier : isIdentifier "DiError" = true := by decide
  have hfile : Shop.plan.File Shop.types "DiError" (root Shop.types "DiError" Shop.plan) _ _ :=
    .root
  refine ⟨_, _, _, _, _, Shop.generate_called hidentifier, find?_rootName, hfile, hfile.written, ?_⟩
  have hperm := hfile.perm_boundNames fun _ => isWordChar_of_mem_identifier hidentifier
  rw [hperm.count_eq]
  decide +kernel

end Wiring
