import Wiring.Proofs.SpelledLines

/-!
The names that are configured. Generation asks of the output module and of the component type that
they are written like identifiers, and of nothing else: a keyword is written like an identifier,
too. Every artifact names the component as it is configured, without an escape, so that the names
can stand where they do exactly if they are no keywords (`generate_configured`).
-/
namespace Wiring

open Naming Artifact

namespace Naming

/-- A name of letters, digits and underscores that does not start with a digit and is not a lone
underscore. -/
structure Lexical (name : String) : Prop where
  first : ∃ c cs, name.toList = c :: cs ∧ (c.isAlpha = true ∨ c = '_')
  word : ∀ c ∈ name.toList, IsWordChar c
  ne_underscore : name ≠ "_"

/-- The keywords that stand for parts of paths. They cannot be written as raw identifiers. -/
def pathKeywords : List String := ["self", "Self", "super", "crate"]

def keywords : List String := rawKeywords ++ pathKeywords

/-- A name that can be given to an item as it is. -/
structure Usable (name : String) : Prop where
  lexical : Lexical name
  unescaped : identifier name = name
  ne_path : name ∉ pathKeywords

end Naming

/-- The artifacts of a plan and the lines in which they name the component. The root passes it on,
its own artifact declares it, and the others import it. -/
inductive Plan.NameLines (u : Universe) (component : String) (p : Plan) :
    Artifact → List String → Prop
  | root : NameLines u component p (root u component p)
      ["pub use " ++ componentName ++ "::" ++ component ++ ";"]
  | component : NameLines u component p (ofComponent u component p)
      ["pub struct " ++ component ++ " \x7b", "impl " ++ component ++ " \x7b"]
  | factory {f : Factory} (hf : f ∈ p.factories.toList) :
      NameLines u component p (ofFactory component f) [componentUse component]
  | wrapper {e : PlannedProvider} (he : e ∈ p.providers.toList) :
      NameLines u component p (ofProvider u component e)
        [componentUse component, "impl " ++ component ++ " \x7b"]

/-- The artifact is written with these lines. -/
def Artifact.Shows (a : Artifact) (names : List String) : Prop :=
  ∃ ls, WrittenIn a.text ls ∧ ∀ l ∈ names, l.toList ∈ ls

section Names

variable {name : String}

theorem isIdentifier_iff_lexical : isIdentifier name = true ↔ Lexical name := by
  constructor
  · intro h
    have hword : ∀ c ∈ name.toList, IsWordChar c := fun _ => isWordChar_of_mem_identifier h
    unfold isIdentifier at h
    split at h
    · cases h
    · next c cs hname =>
      simp only [Bool.and_eq_true, Bool.or_eq_true, decide_eq_true_eq] at h
      exact ⟨⟨c, cs, hname, h.1.1⟩, hword, h.2⟩
  · rintro ⟨⟨c, cs, hname, hfirst⟩, hword, hne⟩
    have hrest : ∀ d ∈ cs, IsWordChar d := by
      intro d hd
      exact hword d (hname ▸ List.mem_cons_of_mem c hd)
    simp only [isIdentifier, hname, Bool.and_eq_true, Bool.or_eq_true, decide_eq_true_eq,
      List.all_eq_true]
    exact ⟨⟨hfirst, hrest⟩, hne⟩

/-- Only keywords are escaped. -/
theorem identifier_eq_self_iff : identifier name = name ↔ name ∉ rawKeywords := by
  unfold identifier
  split
  · next hraw =>
    have hne : "r#" ++ name ≠ name := by
      intro heq
      have hlength := congrArg String.length heq
      rw [String.length_append] at hlength
      have htwo : "r#".length = 2 := rfl
      omega
    simp [hne, hraw]
  · next hraw => simp [hraw]

theorem Naming.Lexical.usable_iff (h : Lexical name) : Usable name ↔ name ∉ keywords := by
  rw [keywords, List.mem_append, not_or, ← identifier_eq_self_iff]
  exact ⟨fun hname => ⟨hname.unescaped, hname.ne_path⟩, fun hname => ⟨h, hname.1, hname.2⟩⟩

end Names

section Lines

variable {u : Universe} {component : String} {p : Plan}

/-- A line without types is written as it is. -/
theorem Sheet.mem_written_of_plain {s : String} {ls : List Line} (preamble : List String)
    (h : plain s 0 ∈ ls) (hs : s ≠ "") : s.toList ∈ (ofLines ls).written preamble := by
  have hlines := (spells_ofLines ls).lines _ List.prefix_rfl
  have hspelled : (plain s 0).spelled (firstPaths (named ls)) = s := by
    simp [Line.spelled, plain, Piece.spelled, Sheet.indented, hs]
  have hmem : s ∈ (ofLines ls).lines := by
    rw [hlines]
    exact List.mem_map.mpr ⟨_, h, hspelled⟩
  simp only [written, List.mem_cons, List.mem_append]
  exact .inr (.inr (.inr (List.mem_map_of_mem hmem)))

theorem Sheet.mem_written_of_preamble {s : String} {preamble : List String} (h : s ∈ preamble)
    (t : Sheet) : s.toList ∈ t.written preamble := by
  simp only [written, List.mem_cons, List.mem_append]
  exact .inr (.inr (.inl (.inl (.inl (.inl (List.mem_map_of_mem h))))))

theorem Plan.NameLines.shows {a : Artifact} {names : List String}
    (h : p.NameLines u component a names) : a.Shows names := by
  cases h with
  | root =>
    refine ⟨_, written_rootText _ _ _, List.forall_mem_singleton.mpr ?_⟩
    simp [rootWritten, rootLines]
  | component =>
    have hstruct : plain ("pub struct " ++ component ++ " \x7b") 0 ∈
        componentLines u component p := by
      simp [componentLines, structLines]
    have hown : plain ("impl " ++ component ++ " \x7b") 0 ∈ componentLines u component p := by
      simp [componentLines]
    refine ⟨_, Sheet.written_finish _ _, List.forall_mem_cons.mpr
      ⟨Sheet.mem_written_of_plain _ hstruct ?_, List.forall_mem_singleton.mpr
        (Sheet.mem_written_of_plain _ hown ?_)⟩⟩
    · simp
    · simp
  | factory _ =>
    exact ⟨_, Sheet.written_finish _ _, List.forall_mem_singleton.mpr
      (Sheet.mem_written_of_preamble List.mem_cons_self _)⟩
  | @wrapper e _ =>
    have hown : plain ("impl " ++ component ++ " \x7b") 0 ∈ wrapperLines u component e := by
      simp [wrapperLines]
    refine ⟨_, Sheet.written_finish _ _, List.forall_mem_cons.mpr
      ⟨Sheet.mem_written_of_preamble List.mem_cons_self _, List.forall_mem_singleton.mpr
        (Sheet.mem_written_of_plain _ hown ?_)⟩⟩
    simp

theorem exists_nameLines {a : Artifact} (h : a ∈ (ofPlan u component p).toList) :
    ∃ names, p.NameLines u component a names := by
  rcases mem_ofPlan_iff.mp h with rfl | h
  · exact ⟨_, .root⟩
  · rcases mem_items_iff.mp h with rfl | ⟨f, hf, rfl⟩ | ⟨e, he, rfl⟩
    · exact ⟨_, .component⟩
    · exact ⟨_, .factory hf⟩
    · exact ⟨_, .wrapper he⟩

end Lines

/-- The names of a run that succeeds are written like identifiers. A run that has a plan succeeds
with all such names, and they can be used as they are exactly if they are no keywords. -/
theorem generate_configured (u : Universe) (s : Settings) :
    ((∃ arts t, generate u s = .generated arts t) ↔
      (∃ p, planComponent u s.package s.definition = .ok p) ∧ Lexical s.outputModule ∧
        Lexical s.componentType) ∧
    ∀ arts t, generate u s = .generated arts t →
      (Usable s.outputModule ↔ s.outputModule ∉ keywords) ∧
      (Usable s.componentType ↔ s.componentType ∉ keywords) ∧
      ∃ p, planComponent u s.package s.definition = .ok p ∧ ∀ a ∈ arts.toList,
        ∃ names, p.NameLines u s.componentType a names ∧ a.Shows names := by
  simp only [generate_eq_generated_iff, isIdentifier_iff_lexical]
  constructor
  · constructor
    · rintro ⟨arts, t, hnames, p, hp, -, -⟩
      exact ⟨⟨p, hp⟩, hnames⟩
    · rintro ⟨⟨p, hp⟩, hnames⟩
      exact ⟨_, _, hnames, p, hp, rfl, rfl⟩
  · rintro arts t ⟨⟨hmodule, hcomponent⟩, p, hp, rfl, -⟩
    refine ⟨hmodule.usable_iff, hcomponent.usable_iff, p, hp, fun a ha => ?_⟩
    obtain ⟨names, hnames⟩ := exists_nameLines ha
    exact ⟨names, hnames, hnames.shows⟩

/-- A component may be called like a keyword, and then it is declared by this keyword. -/
theorem keyword_component_declared : ∃ arts t a ls,
    generate Shop.types (Shop.called "struct") = .generated arts t ∧ ¬ Usable "struct" ∧
      arts.find? componentName = some a ∧ WrittenIn a.text ls ∧
      "pub struct struct \x7b".toList ∈ ls := by
  have hidentifier : isIdentifier "struct" = true := by decide
  have hkeyword : "struct" ∈ keywords := by decide
  have hcomponent : Shop.plan.NameLines Shop.types "struct"
      (ofComponent Shop.types "struct" Shop.plan) _ := .component
  obtain ⟨ls, hwritten, hlines⟩ := hcomponent.shows
  refine ⟨_, _, _, ls, Shop.generate_called hidentifier, fun h => ?_,
    find?_ofPlan_of_mem (mem_items_iff.mpr (.inl rfl)), hwritten, hlines _ List.mem_cons_self⟩
  exact (isIdentifier_iff_lexical.mp hidentifier).usable_iff.mp h hkeyword

end Wiring
