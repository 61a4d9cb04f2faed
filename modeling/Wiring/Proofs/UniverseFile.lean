import Wiring.Proofs.DeclEncoding
import Wiring.Proofs.DeclNesting
import Wiring.Proofs.FlagsText

/-!
The text of a universe file is read back. A declaration is read back if the members that tell its
kind have room in a file; those of a declaration that has been read from a file do, however it was
written there. So a universe that has been read is written as a text that is read as the same
universe.
-/
namespace Wiring

open Json (Plain Settled Quoted Draft)

theorem Json.memberDrafts_append (ms ns : List (String × Json)) :
    memberDrafts (ms ++ ns) = memberDrafts ms ++ memberDrafts ns := by
  induction ms with
  | nil => rfl
  | cons m ms ih => rw [List.cons_append, memberDrafts, memberDrafts, ih, List.cons_append]

namespace Decl

/-- The members that tell the kind of a declaration have room in a file. -/
def Fits (d : Decl) : Prop :=
  ∀ m ∈ kindMembers d.kind, Plain (Json.maxDepth - memberDepth) m.2

section Reading

theorem settled_of_readMembers {p p' : Pending} {ms : List (Quoted × Draft)}
    (h : readMembers p ms = .ok p')
    (hp : ∀ m ∈ p.others, Settled (Json.maxDepth - memberDepth) m.2) :
    ∀ m ∈ p'.others, Settled (Json.maxDepth - memberDepth) m.2 := by
  induction ms generalizing p with
  | nil =>
    cases h
    exact hp
  | cons m ms ih =>
    obtain ⟨q, v⟩ := m
    unfold readMembers at h
    obtain ⟨name, -, h⟩ := bind_eq_ok_iff.mp h
    split at h
    · split at h
      · cases h
      · obtain ⟨visibility, -, h⟩ := bind_eq_ok_iff.mp h
        exact ih h hp
    · split at h
      · split at h
        · cases h
        · obtain ⟨flags, -, h⟩ := bind_eq_ok_iff.mp h
          exact ih h hp
      · obtain ⟨value, hvalue, h⟩ := bind_eq_ok_iff.mp h
        refine ih h fun m hm => ?_
        rcases List.mem_append.mp hm with hm | hm
        · exact hp m hm
        · obtain rfl := List.mem_singleton.mp hm
          exact ⟨v, hvalue⟩

theorem exists_kindOf?_of_ofMembers? {members : List (String × Json)}
    {visibility : Option Visibility} {flags : Option Flags} {d : Decl}
    (h : ofMembers? members visibility flags = some d) :
    ∃ name, kindOf? name members = some d.kind := by
  unfold ofMembers? at h
  split at h
  · obtain ⟨name, -, h⟩ := Option.bind_eq_some_iff.mp h
    obtain ⟨kind, hkind, h⟩ := Option.bind_eq_some_iff.mp h
    cases h
    exact ⟨name, hkind⟩
  · cases h

theorem fits_of_ofDraft {draft : Draft} {d : Decl} (h : ofDraft draft = .ok d) : d.Fits := by
  unfold ofDraft at h
  split at h
  · obtain ⟨p, hp, h⟩ := bind_eq_ok_iff.mp h
    obtain ⟨_, -, h⟩ := bind_eq_ok_iff.mp h
    split at h
    · next hd =>
      cases h
      obtain ⟨name, hkind⟩ := exists_kindOf?_of_ofMembers? hd
      exact plain_kindMembers hkind (settled_of_readMembers hp nofun)
    · cases h
  · cases h

theorem fits_of_listOfDraft {draft : Draft} {ds : List Decl} (h : listOfDraft draft = .ok ds) :
    ∀ d ∈ ds, d.Fits := by
  intro d hd
  unfold listOfDraft at h
  split at h
  · obtain ⟨ds', hds, h⟩ := bind_eq_ok_iff.mp h
    obtain ⟨_, -, h⟩ := bind_eq_ok_iff.mp h
    cases h
    obtain ⟨item, -, hitem⟩ := exists_of_forall₂_right (mapM_eq_ok_iff.mp hds) hd
    exact fits_of_ofDraft hitem
  · cases h

end Reading

section ReadBack

/-- The members of a declaration apart from its visibility and flags. -/
def ownMembers (d : Decl) : List (String × Json) :=
  [("path", .string d.identity.path), ("name", .string d.identity.name)] ++ kindMembers d.kind

theorem toJson_eq (d : Decl) : d.toJson = .object (d.ownMembers ++
    [("visibility", .string d.visibility.name), ("flags", .string d.flags.text)]) :=
  rfl

theorem ofMembers?_ownMembers (d : Decl) :
    ofMembers? d.ownMembers (some d.visibility) (some d.flags) = some d := by
  have hfields : ∀ fs : List Field,
      (fs.map Field.toJson).mapM (Field.ofJson? true) = some fs :=
    fun fs => mapM_map_eq_some fun f _ => Field.ofJson?_toJson true f
  have hmethods : ∀ ms : List Method,
      (ms.map Method.toJson).mapM (Method.ofJson? true) = some ms :=
    fun ms => mapM_map_eq_some fun m _ => Method.ofJson?_toJson true m
  obtain ⟨identity, kind, visibility, flags⟩ := d
  cases kind <;>
    simp [-List.mapM_map, ofMembers?, ownMembers, kindMembers, Json.fields?, Json.valuesOf,
      KindName.ofJson?, kindOf?, Json.list?, hfields, hmethods]

theorem name_of_mem_ownMembers {d : Decl} {m : String × Json} (h : m ∈ d.ownMembers) :
    m.1 ≠ "visibility" ∧ m.1 ≠ "flags" := by
  have hnames : ∀ m ∈ d.ownMembers, m.1 ≠ "visibility" ∧ m.1 ≠ "flags" := by
    unfold ownMembers kindMembers
    split <;> simp
  exact hnames m h

theorem plain_of_mem_ownMembers {d : Decl} (hd : d.Fits) {m : String × Json}
    (h : m ∈ d.ownMembers) : Plain (Json.maxDepth - memberDepth) m.2 := by
  rcases List.mem_append.mp h with h | h
  · simp only [List.mem_cons, List.not_mem_nil, or_false] at h
    rcases h with rfl | rfl <;> exact .string _
  · exact hd m h

/-- Members that are neither visibility nor flags are kept. -/
theorem readMembers_others {ms : List (String × Json)}
    (hnames : ∀ m ∈ ms, m.1 ≠ "visibility" ∧ m.1 ≠ "flags")
    (hplain : ∀ m ∈ ms, Plain (Json.maxDepth - memberDepth) m.2) (p : Pending)
    (rest : List (Quoted × Draft)) :
    readMembers p (Json.memberDrafts ms ++ rest) =
      readMembers { p with others := p.others ++ ms } rest := by
  induction ms generalizing p with
  | nil => simp [Json.memberDrafts]
  | cons m ms ih =>
    obtain ⟨name, v⟩ := m
    obtain ⟨⟨hvisibility, hflags⟩, hnames⟩ := List.forall_mem_cons.mp hnames
    obtain ⟨hv, hplain⟩ := List.forall_mem_cons.mp hplain
    have hstep : readMembers p (Json.memberDrafts ((name, v) :: ms) ++ rest) =
        readMembers { p with others := p.others ++ [(name, v)] }
          (Json.memberDrafts ms ++ rest) := by
      rw [Json.memberDrafts, List.cons_append, readMembers]
      simp [Draft.quoted, hvisibility, hflags, hv.settle_draft, bind, Except.bind]
    rw [hstep, ih hnames hplain]
    simp

theorem visibilityOfDraft_name (v : Visibility) :
    visibilityOfDraft (.string ⟨v.name, true⟩) = .ok v := by
  cases v <;> rfl

theorem flagsOfDraft_text (f : Flags) : flagsOfDraft (.string ⟨f.text, true⟩) = .ok f := by
  simp [flagsOfDraft, Draft.quoted, Flags.ofText?_text, bind, Except.bind, pure, Except.pure]

/-- What is written for a declaration that fits is read back as the declaration. -/
theorem ofDraft_draft {d : Decl} (h : d.Fits) : ofDraft d.toJson.draft = .ok d := by
  have hmembers : readMembers {} (Json.memberDrafts (d.ownMembers ++
      [("visibility", .string d.visibility.name), ("flags", .string d.flags.text)])) =
        .ok ⟨some d.visibility, some d.flags, d.ownMembers⟩ := by
    rw [Json.memberDrafts_append, readMembers_others (fun _ => name_of_mem_ownMembers)
      (fun _ => plain_of_mem_ownMembers h)]
    simp [Json.memberDrafts, Json.draft, readMembers, Draft.quoted, visibilityOfDraft_name,
      flagsOfDraft_text, bind, Except.bind]
  rw [toJson_eq, Json.draft, ofDraft, hmembers]
  simp [Draft.close, ofMembers?_ownMembers, bind, Except.bind, pure, Except.pure]

theorem listOfDraft_draft {ds : List Decl} (h : ∀ d ∈ ds, d.Fits) :
    listOfDraft (Json.array (ds.map toJson)).draft = .ok ds := by
  have hitems : (Json.itemDrafts (ds.map toJson)).mapM ofDraft = .ok ds := by
    induction ds with
    | nil => rfl
    | cons d ds ih =>
      obtain ⟨hd, hrest⟩ := List.forall_mem_cons.mp h
      rw [List.map_cons, Json.itemDrafts, List.mapM_cons, ofDraft_draft hd, ih hrest]
      rfl
  rw [Json.draft, listOfDraft, hitems]
  rfl

theorem plain_toJson {d : Decl} (h : d.Fits) :
    Plain (Json.maxDepth - memberDepth + 1) d.toJson := by
  rw [toJson_eq]
  refine .object fun m hm => ?_
  rcases List.mem_append.mp hm with hm | hm
  · exact plain_of_mem_ownMembers h hm
  · simp only [List.mem_cons, List.not_mem_nil, or_false] at hm
    rcases hm with rfl | rfl <;> exact .string _

end ReadBack

end Decl

namespace Universe

namespace File

theorem fits_of_readMembers {p p' : Pending} {ms : List (Quoted × Draft)}
    (h : readMembers p ms = .ok p') (hp : ∀ d ∈ p.file.types, d.Fits) :
    ∀ d ∈ p'.file.types, d.Fits := by
  induction ms generalizing p with
  | nil =>
    cases h
    exact hp
  | cons m ms ih =>
    obtain ⟨q, v⟩ := m
    unfold readMembers at h
    obtain ⟨name, -, h⟩ := bind_eq_ok_iff.mp h
    split at h
    · split at h
      · cases h
      · obtain ⟨root, -, h⟩ := bind_eq_ok_iff.mp h
        exact ih h hp
    · split at h
      · split at h
        · cases h
        · obtain ⟨types, htypes, h⟩ := bind_eq_ok_iff.mp h
          exact ih h (Decl.fits_of_listOfDraft htypes)
      · obtain ⟨_, -, h⟩ := bind_eq_ok_iff.mp h
        exact ih h hp

theorem fits_of_ofDraft {draft : Draft} {file : File} (h : ofDraft draft = .ok file) :
    ∀ d ∈ file.types, d.Fits := by
  unfold ofDraft at h
  split at h
  · obtain ⟨p, hp, h⟩ := bind_eq_ok_iff.mp h
    obtain ⟨_, -, h⟩ := bind_eq_ok_iff.mp h
    cases h
    exact fits_of_readMembers hp nofun
  · obtain ⟨_, -, h⟩ := bind_eq_ok_iff.mp h
    cases h
    nofun
  · obtain ⟨root, -, h⟩ := bind_eq_ok_iff.mp h
    obtain ⟨_, -, h⟩ := bind_eq_ok_iff.mp h
    cases h
    nofun
  · obtain ⟨root, -, h⟩ := bind_eq_ok_iff.mp h
    obtain ⟨types, htypes, h⟩ := bind_eq_ok_iff.mp h
    split at h
    · cases h
    · obtain ⟨_, -, h⟩ := bind_eq_ok_iff.mp h
      cases h
      exact Decl.fits_of_listOfDraft htypes
  · cases h

theorem ofDraft_draft {u : Universe} (h : ∀ d ∈ u.decls, d.Fits) :
    ofDraft u.toJson.draft = .ok ⟨u.rootPackage, u.decls⟩ := by
  have htypes := Decl.listOfDraft_draft h
  have hmember : ∀ root, readMembers { rootPackage := root }
      (Json.memberDrafts [("types", .array (u.decls.map Decl.toJson))]) =
        .ok { rootPackage := root, types := some u.decls } := by
    intro root
    simp [Json.memberDrafts, readMembers, Draft.quoted, htypes, bind, Except.bind]
  cases hroot : u.rootPackage with
  | none =>
    simp [toJson, hroot, Json.draft, ofDraft, hmember, Draft.close, Pending.file, bind,
      Except.bind, pure, Except.pure]
  | some package =>
    have hfile : readMembers {} (Json.memberDrafts [("root_package", .string package),
        ("types", .array (u.decls.map Decl.toJson))]) =
          .ok { rootPackage := some (some package), types := some u.decls } := by
      rw [Json.memberDrafts, Json.draft, readMembers, ← hmember]
      rfl
    simp [toJson, hroot, Json.draft, ofDraft, hfile, Draft.close, Pending.file, bind,
      Except.bind, pure, Except.pure]

end File

/-- A universe whose declarations fit is nested no deeper than a value that is kept. -/
theorem plain_toJson {u : Universe} (h : ∀ d ∈ u.decls, d.Fits) :
    Plain Json.maxDepth u.toJson := by
  have htypes : Plain (Json.maxDepth - 1) (.array (u.decls.map Decl.toJson)) := by
    refine .array fun v hv => ?_
    obtain ⟨d, hd, rfl⟩ := List.mem_map.mp hv
    exact Decl.plain_toJson (h d hd)
  refine .object fun m hm => ?_
  rcases List.mem_append.mp hm with hm | hm
  · split at hm
    · obtain rfl := List.mem_singleton.mp hm
      exact .string _
    · cases hm
  · obtain rfl := List.mem_singleton.mp hm
    exact htypes

/-- Every declaration of a universe that has been read fits. -/
theorem fits_of_ofText {s : String} {u : Universe} (h : ofText s = .ok u) :
    ∀ d ∈ u.decls, d.Fits := by
  unfold ofText at h
  generalize Draft.ofChars s.toList = read at h
  obtain ⟨draft, trailing⟩ := read
  obtain ⟨file, hfile, h⟩ := bind_eq_ok_iff.mp h
  obtain ⟨u', hu, h⟩ := bind_eq_ok_iff.mp h
  have hdecls : ofDecls file.rootPackage file.types = .ok u' := mapError_eq_ok_iff.mp hu
  have heq : u' = u := by
    cases trailing with
    | false => exact Except.ok.inj h
    | true => cases h
  obtain ⟨-, hmem⟩ := of_insertAll_eq_ok hdecls
  intro d hd
  have htypes : d ∈ file.types := (hmem d (heq ▸ hd)).resolve_right List.not_mem_nil
  exact File.fits_of_ofDraft (mapError_eq_ok_iff.mp hfile) d htypes

/-- The text of a universe whose declarations fit is read back as the universe. -/
theorem ofText_text {u : Universe} (h : ∀ d ∈ u.decls, d.Fits) : ofText u.text = .ok u := by
  have hchars : u.text.toList = u.toJson.chars := String.toList_ofList
  rw [ofText, hchars, (plain_toJson h).ofChars]
  simp [File.ofDraft_draft h, Except.mapError, ofDecls_decls, bind, Except.bind, pure,
    Except.pure]

/-- However the file of a universe was written, the text that is written for the universe is read
as the same universe, for which the same text is written again. -/
theorem text_of_ofText {s : String} {u : Universe} (h : ofText s = .ok u) :
    ofText u.text = .ok u ∧ ∀ u', ofText u.text = .ok u' → u' = u ∧ u'.text = u.text := by
  have hread : ofText u.text = .ok u := ofText_text (fits_of_ofText h)
  refine ⟨hread, fun u' hu' => ?_⟩
  have heq : u' = u := Except.ok.inj (hu'.symm.trans hread)
  exact ⟨heq, congrArg text heq⟩

/-- A file with a member that is passed over, markers in another order and as a numeral, a constant
that is written as an object, and a method that is written as an array. -/
def Sample.source : String :=
  "\x7b\"v\":1,\"types\":[\x7b\"name\":\"Clock\",\"kind\":\"opaque\",\"path\":\"app\"," ++
    "\"flags\":\"0x40 | INJECT\",\"visibility\":\x7b\"private\":null\x7d," ++
    "\"methods\":[[\"now\",\"private\"]]\x7d],\"root_package\":\"app\"\x7d"

def Sample.universe : Universe where
  rootPackage := some "app"
  types := .ofList [{
    identity := ⟨"app", "Clock"⟩
    kind := .sealed [{ name := "now", visibility := .private }]
    visibility := .private
    flags := ⟨0x41⟩ }]

theorem sample_text : ofText Sample.source = .ok Sample.universe ∧
    ofText Sample.universe.text = .ok Sample.universe ∧
      ∀ u', ofText Sample.universe.text = .ok u' →
        u' = Sample.universe ∧ u'.text = Sample.universe.text := by
  have hread : ofText Sample.source = .ok Sample.universe := by decide +kernel
  exact ⟨hread, text_of_ofText hread⟩

end Universe

end Wiring
