import Wiring.Proofs.Identifiers
import Wiring.Proofs.Layout
import Wiring.Proofs.PlanClosure
import Wiring.Proofs.Splitting

/-!
The artifacts of a plan. No two of its items have artifacts of one name, so that every item
keeps the artifact that is written for it, and the root declares each of the others on a line
of its own. The root shows the identity of the definition as it is: where the identity holds a
line break, the lines that show it may look like declarations.
-/
namespace Wiring

open Naming Artifact

theorem Naming.line_break_not_mem {s : String} (h : ∀ c ∈ s.toList, IsWordChar c) :
    '\n' ∉ s.toList := by
  intro hmem
  rcases h '\n' hmem with hc | hc
  · exact absurd hc (by decide)
  · exact absurd hc (by decide)

namespace Artifact

/-- The line that declares an artifact as a module. -/
def moduleLine (name : String) : List Char :=
  ("mod " ++ name ++ ";").toList

def declaresModule (line : List Char) : Bool :=
  "mod ".toList.isPrefixOf line

/-- The first lines of the root, which show the definition. -/
def shownLines (definition : Identity) : List (List Char) :=
  Text.lines (generatedHeader ++ "// Component: " ++ definition.display)

/-- The lines of the root after those that show the definition. -/
def rootLines (names : List String) (component : String) : List (List Char) :=
  [[], "#![allow(non_snake_case, dead_code)]".toList, []] ++ names.map moduleLine ++
    [[], ("pub use " ++ componentName ++ "::" ++ component ++ ";").toList, [],
      "/// Error returned by fallible providers and accessors.".toList,
      ("pub type " ++ errorTypeName ++ " = Box<dyn std::error::Error + Send + Sync>;").toList]

theorem toList_modules (names : List String) : (String.join (names.map modLine)).toList =
    (names.map moduleLine).flatMap (· ++ ['\n']) := by
  induction names with
  | nil => simp
  | cons n ns ih => simp [modLine, moduleLine, String.join_cons, ih]

theorem toList_rootText (names : List String) (component : String) (definition : Identity) :
    (rootText names component definition).toList =
      (generatedHeader ++ "// Component: " ++ definition.display).toList ++
        '\n' :: (rootLines names component).flatMap (· ++ ['\n']) := by
  have hallow : "#![allow(non_snake_case, dead_code)]\n\n" =
      "#![allow(non_snake_case, dead_code)]" ++ "\n\n" := by decide
  have herror : "/// Error returned by fallible providers and accessors.\n" =
      "/// Error returned by fallible providers and accessors." ++ "\n" := by decide
  have htype : " = Box<dyn std::error::Error + Send + Sync>;\n" =
      " = Box<dyn std::error::Error + Send + Sync>;" ++ "\n" := by decide
  have huse : ";\n\n".toList = ";".toList ++ ['\n', '\n'] := by decide
  have hbreak : "\n".toList = ['\n'] := by decide
  have hbreaks : "\n\n".toList = ['\n', '\n'] := by decide
  delta rootText
  rw [hallow, herror, htype]
  simp only [rootLines, String.toList_append, toList_modules, huse, hbreak, hbreaks,
    List.flatMap_append, List.flatMap_cons, List.flatMap_nil, List.append_assoc,
    List.cons_append, List.nil_append, List.append_nil]

theorem lines_rootText {names : List String} {component : String} (definition : Identity)
    (hnames : ∀ n ∈ names, '\n' ∉ n.toList) (hcomponent : '\n' ∉ component.toList) :
    Text.lines (rootText names component definition) =
      shownLines definition ++ (rootLines names component ++ [[]]) := by
  have hlines : ∀ l ∈ rootLines names component, '\n' ∉ l := by
    intro l hl
    simp only [rootLines, List.mem_append, List.mem_cons, List.mem_map, List.not_mem_nil,
      or_false] at hl
    rcases hl with ((rfl | rfl | rfl) | ⟨n, hn, rfl⟩) | rfl | rfl | rfl | rfl | rfl
    · simp
    · decide
    · simp
    · simp [moduleLine, hnames n hn]
    · simp
    · simp [componentName, hcomponent]
    · simp
    · decide
    · decide
  rw [Text.lines, toList_rootText, Text.splitAt_append, Text.splitAt_flatMap hlines]
  rfl

theorem filter_rootLines (names : List String) (component : String) :
    (rootLines names component ++ [[]]).filter declaresModule = names.map moduleLine := by
  have hbefore : [[], "#![allow(non_snake_case, dead_code)]".toList, []].filter
      declaresModule = [] := by decide
  have hmodules : ∀ l ∈ names.map moduleLine, declaresModule l = true := by
    intro l hl
    obtain ⟨n, -, rfl⟩ := List.mem_map.mp hl
    simp [declaresModule, moduleLine]
  rw [rootLines, List.filter_append, List.filter_append, List.filter_append, hbefore,
    List.filter_eq_self.mpr hmodules]
  simp [declaresModule, List.isPrefixOf]

/-- Without a line break, the definition is shown on a single line. -/
theorem filter_shownLines {definition : Identity} (h : '\n' ∉ definition.display.toList) :
    (shownLines definition).filter declaresModule = [] := by
  have hheader : generatedHeader.toList =
      "// Code generated by dihc. DO NOT EDIT.".toList ++ '\n' :: [] := by decide
  have hcomment : '\n' ∉ "// Component: ".toList ++ definition.display.toList := by
    simpa using h
  have hshown : shownLines definition = ["// Code generated by dihc. DO NOT EDIT.".toList,
      "// Component: ".toList ++ definition.display.toList] := by
    rw [shownLines, Text.lines, String.toList_append, String.toList_append, hheader]
    rw [List.append_assoc, List.append_assoc, List.cons_append, List.nil_append,
      Text.splitAt_line (by decide), Text.splitAt_of_not_mem hcomment]
  simp [hshown, declaresModule, List.isPrefixOf]

variable {u : Universe} {component : String} {p : Plan}

/-- The artifacts of a plan but the root, in the order in which they are written. -/
def items (u : Universe) (component : String) (p : Plan) : List Artifact :=
  ofComponent u component p :: p.factories.toList.map (ofFactory component) ++
    p.providers.toList.map (ofProvider u component)

theorem mem_items_iff {a : Artifact} : a ∈ items u component p ↔
    a = ofComponent u component p ∨ (∃ f ∈ p.factories.toList, a = ofFactory component f) ∨
      ∃ e ∈ p.providers.toList, a = ofProvider u component e := by
  simp [items, eq_comm]

theorem componentName_ne_factoryArtifact (i : Identity) : componentName ≠ factoryArtifact i := by
  intro h
  have hlast := congrArg (fun s => s.toList.getLast?) h
  simp [componentName, factoryArtifact] at hlast

theorem componentName_ne_providerArtifact (i : Identity) :
    componentName ≠ providerArtifact i := by
  intro h
  have hlast := congrArg (fun s => s.toList.getLast?) h
  simp [componentName, providerArtifact] at hlast

/-- No two items of a plan have artifacts of one name. -/
theorem nodup_names_items : ((items u component p).map key).Nodup := by
  have hfactories : (p.factories.toList.map fun f => factoryArtifact f.identity).Nodup :=
    List.pairwise_map.mpr ((List.pairwise_map.mp p.factories.nodup_keys).imp
      fun hne heq => hne (factoryArtifact_inj.mp heq))
  have hproviders : (p.providers.toList.map fun e => providerArtifact e.provider.provides).Nodup :=
    List.pairwise_map.mpr ((List.pairwise_map.mp p.providers.nodup_keys).imp
      fun hne heq => hne (providerArtifact_inj.mp heq))
  have hnames : (items u component p).map key = componentName ::
      (p.factories.toList.map (fun f => factoryArtifact f.identity) ++
        p.providers.toList.map fun e => providerArtifact e.provider.provides) := by
    simp [items, key, ofComponent, ofFactory, ofProvider, Function.comp_def]
  rw [hnames, List.nodup_cons]
  refine ⟨fun hmem => ?_, List.nodup_append.mpr ⟨hfactories, hproviders, ?_⟩⟩
  · rcases List.mem_append.mp hmem with hmem | hmem
    · obtain ⟨f, -, hf⟩ := List.mem_map.mp hmem
      exact componentName_ne_factoryArtifact f.identity hf.symm
    · obtain ⟨e, -, he⟩ := List.mem_map.mp hmem
      exact componentName_ne_providerArtifact e.provider.provides he.symm
  · intro n hn m hm heq
    obtain ⟨f, -, rfl⟩ := List.mem_map.mp hn
    obtain ⟨e, -, rfl⟩ := List.mem_map.mp hm
    exact factoryArtifact_ne_providerArtifact _ _ heq

theorem rootName_ne_factoryArtifact (i : Identity) : rootName ≠ factoryArtifact i := by
  intro h
  have hlast := congrArg (fun s => s.toList.getLast?) h
  simp [rootName, factoryArtifact] at hlast

theorem rootName_ne_providerArtifact (i : Identity) : rootName ≠ providerArtifact i := by
  intro h
  have hlast := congrArg (fun s => s.toList.getLast?) h
  simp [rootName, providerArtifact] at hlast

theorem name_ne_rootName {a : Artifact} (h : a ∈ items u component p) : a.name ≠ rootName := by
  rcases mem_items_iff.mp h with rfl | ⟨f, -, rfl⟩ | ⟨e, -, rfl⟩
  · have hne : componentName ≠ rootName := by decide
    exact hne
  · exact (rootName_ne_factoryArtifact f.identity).symm
  · exact (rootName_ne_providerArtifact e.provider.provides).symm

theorem isWordChar_of_mem_name {a : Artifact} (h : a ∈ items u component p) :
    ∀ c ∈ a.name.toList, IsWordChar c := by
  rcases mem_items_iff.mp h with rfl | ⟨f, -, rfl⟩ | ⟨e, -, rfl⟩
  · exact isWordChar_of_all (s := componentName) (by decide)
  · have hending : ∀ c ∈ "_Factory".toList, IsWordChar c := isWordChar_of_all (by decide)
    simp only [ofFactory, factoryArtifact, String.toList_append, List.forall_mem_append]
    exact ⟨fun _ => isWordChar_of_mem_sanitize, hending⟩
  · have hending : ∀ c ∈ "_Provider".toList, IsWordChar c := isWordChar_of_all (by decide)
    simp only [ofProvider, providerArtifact, String.toList_append, List.forall_mem_append]
    exact ⟨fun _ => isWordChar_of_mem_sanitize, hending⟩

theorem line_break_not_mem_name {a : Artifact} (h : a ∈ items u component p) :
    '\n' ∉ a.name.toList :=
  line_break_not_mem (isWordChar_of_mem_name h)

theorem mem_ofItems_iff {a : Artifact} :
    a ∈ (ofItems u component p).toList ↔ a ∈ items u component p :=
  Table.mem_ofList_iff nodup_names_items

/-- The root of a plan, which declares its items. -/
def root (u : Universe) (component : String) (p : Plan) : Artifact :=
  ⟨rootName, rootText (ofItems u component p).keys component p.definition.identity⟩

theorem mem_ofPlan_iff {a : Artifact} : a ∈ (ofPlan u component p).toList ↔
    a = root u component p ∨ a ∈ items u component p := by
  have hinsert : a ∈ (ofPlan u component p).toList ↔ a = root u component p ∨
      a ∈ (ofItems u component p).toList ∧ a.name ≠ rootName := Table.mem_insert_iff
  rw [hinsert, mem_ofItems_iff]
  refine or_congr_right ⟨And.left, fun h => ⟨h, name_ne_rootName h⟩⟩

theorem find?_ofPlan_of_mem {a : Artifact} (h : a ∈ items u component p) :
    (ofPlan u component p).find? a.name = some a :=
  Table.find?_eq_some_iff.mpr ⟨mem_ofPlan_iff.mpr (.inr h), rfl⟩

theorem find?_rootName : (ofPlan u component p).find? rootName = some (root u component p) :=
  Table.find?_eq_some_iff.mpr ⟨mem_ofPlan_iff.mpr (.inl rfl), rfl⟩

theorem find?_ofItems_rootName : (ofItems u component p).find? rootName = none := by
  rw [Option.eq_none_iff_forall_not_mem]
  intro a ha
  obtain ⟨hmem, hname⟩ := Table.find?_eq_some_iff.mp ha
  exact name_ne_rootName (mem_ofItems_iff.mp hmem) hname

theorem size_ofPlan :
    (ofPlan u component p).size = 2 + p.providers.size + p.factories.size := by
  have hinsert : (ofPlan u component p).size = (ofItems u component p).size + 1 :=
    Table.size_insert_of_new find?_ofItems_rootName
  have hitems : (ofItems u component p).size = (items u component p).length :=
    Table.size_ofList nodup_names_items
  rw [hinsert, hitems]
  simp [items, Table.size]
  omega

/-- The root declares all other artifacts of its plan. -/
theorem filter_keys_ofPlan :
    (ofPlan u component p).keys.filter (· ≠ rootName) = (ofItems u component p).keys := by
  have hinsert : ((ofPlan u component p).toList.filter fun a => key a ≠ rootName) =
      (ofItems u component p).toList.filter fun a => key a ≠ rootName :=
    Table.filter_insert (ofItems u component p) (root u component p)
  have hitems : ((ofItems u component p).toList.filter fun a => key a ≠ rootName) =
      (ofItems u component p).toList := by
    refine List.filter_eq_self.mpr fun a ha => ?_
    exact decide_eq_true (name_ne_rootName (mem_ofItems_iff.mp ha))
  rw [Table.keys, List.filter_map]
  simp only [Function.comp_def]
  rw [hinsert, hitems]
  rfl

end Artifact

/-- `arts` holds exactly the artifacts of a plan, each under the name of its item. -/
structure Plan.Written (u : Universe) (component : String) (p : Plan) (arts : Table Artifact) :
    Prop where
  size : arts.size = 2 + p.providers.size + p.factories.size
  keys : ∀ name, name ∈ arts.keys ↔ name = componentName ∨ name = rootName ∨
    (∃ i ∈ p.factories.keys, name = factoryArtifact i) ∨
      ∃ i ∈ p.providers.keys, name = providerArtifact i
  component_eq : arts.find? componentName = some (ofComponent u component p)
  factory_eq : ∀ i f, p.factories.find? i = some f →
    arts.find? (factoryArtifact i) = some (ofFactory component f)
  provider_eq : ∀ i e, p.providers.find? i = some e →
    arts.find? (providerArtifact i) = some (ofProvider u component e)
  /-- After the lines that show the definition, there is one declaration for each of the other
  artifacts, in the order of their names. -/
  root : ∃ a rest, arts.find? rootName = some a ∧
    Text.lines a.text = shownLines p.definition.identity ++ rest ∧
      rest.filter declaresModule = (arts.keys.filter (· ≠ rootName)).map moduleLine
  /-- A definition without a line break is not taken for a declaration. -/
  declared : '\n' ∉ p.definition.identity.display.toList →
    ∀ a, arts.find? rootName = some a → (Text.lines a.text).filter declaresModule =
      (arts.keys.filter (· ≠ rootName)).map moduleLine

section Emit

variable {u : Universe} {component : String} {p : Plan} {arts : Table Artifact}

theorem mem_keys_ofPlan_iff {name : String} : name ∈ (ofPlan u component p).keys ↔
    name = componentName ∨ name = rootName ∨
      (∃ i ∈ p.factories.keys, name = factoryArtifact i) ∨
        ∃ i ∈ p.providers.keys, name = providerArtifact i := by
  constructor
  · intro hkey
    obtain ⟨a, ha, rfl⟩ := List.mem_map.mp hkey
    rcases mem_ofPlan_iff.mp ha with rfl | ha
    · exact .inr (.inl rfl)
    · rcases mem_items_iff.mp ha with rfl | ⟨f, hf, rfl⟩ | ⟨e, he, rfl⟩
      · exact .inl rfl
      · exact .inr (.inr (.inl ⟨f.identity, List.mem_map_of_mem hf, rfl⟩))
      · exact .inr (.inr (.inr ⟨e.provider.provides, List.mem_map_of_mem he, rfl⟩))
  · rintro (rfl | rfl | ⟨i, hi, rfl⟩ | ⟨i, hi, rfl⟩)
    · exact List.mem_map_of_mem (mem_ofPlan_iff.mpr (.inr (mem_items_iff.mpr (.inl rfl))))
    · exact List.mem_map_of_mem (mem_ofPlan_iff.mpr (.inl rfl))
    · obtain ⟨f, hf, rfl⟩ := List.mem_map.mp hi
      have hitem : ofFactory component f ∈ items u component p :=
        mem_items_iff.mpr (.inr (.inl ⟨f, hf, rfl⟩))
      exact List.mem_map_of_mem (mem_ofPlan_iff.mpr (.inr hitem))
    · obtain ⟨e, he, rfl⟩ := List.mem_map.mp hi
      have hitem : ofProvider u component e ∈ items u component p :=
        mem_items_iff.mpr (.inr (.inr ⟨e, he, rfl⟩))
      exact List.mem_map_of_mem (mem_ofPlan_iff.mpr (.inr hitem))

/-- A plan that holds what its sources name is emitted. -/
theorem emit_of_holds (hcomponent : isIdentifier component = true)
    (hsources : ∀ x ∈ p.sources, p.holds x = true) :
    emit u component p = .ok (ofPlan u component p) := by
  have hnone : (p.sources.find? fun x => !p.holds x) = none := by
    simpa using hsources
  simp [emit, hcomponent, hnone]

/-- The lines of the root: those that show the definition, and the declarations. -/
theorem lines_root (hcomponent : isIdentifier component = true) :
    Text.lines (root u component p).text = shownLines p.definition.identity ++
      (rootLines (ofItems u component p).keys component ++ [[]]) := by
  have hnames : ∀ n ∈ (ofItems u component p).keys, '\n' ∉ n.toList := by
    intro n hn
    obtain ⟨a, ha, rfl⟩ := List.mem_map.mp hn
    exact line_break_not_mem_name (mem_ofItems_iff.mp ha)
  have hbreak : '\n' ∉ component.toList :=
    line_break_not_mem fun _ => isWordChar_of_mem_identifier hcomponent
  exact lines_rootText p.definition.identity hnames hbreak

theorem filter_lines_root (hcomponent : isIdentifier component = true) :
    (Text.lines (root u component p).text).filter declaresModule =
      (shownLines p.definition.identity).filter declaresModule ++
        (ofItems u component p).keys.map moduleLine := by
  rw [lines_root hcomponent, List.filter_append, filter_rootLines]

/-- No artifact of a plan is lost or written over. -/
theorem emit_written (h : emit u component p = .ok arts) : p.Written u component arts := by
  obtain ⟨hcomponent, -, rfl⟩ := emit_eq_ok h
  have hitem : ∀ {a}, a ∈ items u component p → (ofPlan u component p).find? a.name = some a :=
    find?_ofPlan_of_mem
  refine ⟨size_ofPlan, fun _ => mem_keys_ofPlan_iff, hitem (mem_items_iff.mpr (.inl rfl)),
    ?_, ?_, ?_, ?_⟩
  · intro i f hf
    obtain ⟨hmem, rfl⟩ := Table.find?_eq_some_iff.mp hf
    exact hitem (mem_items_iff.mpr (.inr (.inl ⟨f, hmem, rfl⟩)))
  · intro i e he
    obtain ⟨hmem, rfl⟩ := Table.find?_eq_some_iff.mp he
    exact hitem (mem_items_iff.mpr (.inr (.inr ⟨e, hmem, rfl⟩)))
  · refine ⟨root u component p, _, find?_rootName, lines_root hcomponent, ?_⟩
    rw [filter_rootLines, filter_keys_ofPlan]
  · intro hshown a ha
    obtain rfl : root u component p = a := Option.some.inj (find?_rootName.symm.trans ha)
    rw [filter_lines_root hcomponent, filter_shownLines hshown, filter_keys_ofPlan]
    rfl

end Emit

theorem shop_written :
    emit Shop.types "Shop" Shop.plan = .ok (ofPlan Shop.types "Shop" Shop.plan) ∧
      '\n' ∉ Shop.shop.display.toList ∧
        Shop.plan.Written Shop.types "Shop" (ofPlan Shop.types "Shop" Shop.plan) := by
  have hemit : emit Shop.types "Shop" Shop.plan = .ok (ofPlan Shop.types "Shop" Shop.plan) :=
    emit_of_holds (by decide) (by decide +kernel)
  exact ⟨hemit, by decide +kernel, emit_written hemit⟩

/-- The plan of a definition whose name goes on in a second line. -/
def Shop.misnamed : Plan where
  definition :=
    { identity := ⟨"shop", "Shop\nmod component;"⟩, modules := [], targets := [],
      componentInterface := none }
  modules := []
  providers := .empty
  bindings := .empty
  factories := .empty
  targets := []

/-- The second line of a name that is shown counts as a declaration of the component, which the
root declares already. -/
theorem misnamed_declared_twice : ∃ arts a, emit .empty "Shop" Shop.misnamed = .ok arts ∧
    arts.find? rootName = some a ∧ componentName ∈ arts.keys ∧ componentName ≠ rootName ∧
      (Text.lines a.text).count (moduleLine componentName) = 2 := by
  have hcomponent : isIdentifier "Shop" = true := by decide
  have hdeclares : declaresModule (moduleLine componentName) = true := by decide
  have hlines : (Text.lines (root .empty "Shop" Shop.misnamed).text).filter declaresModule =
      [moduleLine componentName, moduleLine componentName] := by
    have hshown : (shownLines Shop.misnamed.definition.identity).filter declaresModule =
        [moduleLine componentName] := by decide +kernel
    rw [filter_lines_root hcomponent, hshown]
    rfl
  refine ⟨ofPlan .empty "Shop" Shop.misnamed, root .empty "Shop" Shop.misnamed,
    emit_of_holds hcomponent (by decide), find?_rootName, ?_, by decide, ?_⟩
  · exact mem_keys_ofPlan_iff.mpr (.inl rfl)
  · rw [← List.count_filter hdeclares, hlines]
    simp

end Wiring
