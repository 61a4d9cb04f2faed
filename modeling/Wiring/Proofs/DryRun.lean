import Wiring.Proofs.ArgumentSwitches
import Wiring.Proofs.Outcomes
import Wiring.Proofs.UniverseFile
import Wiring.Proofs.WrittenFiles

/-!
A dry run tells what a run would write. Both have the same to do up to the last step: a run that
cannot generate artifacts ends in the same way with and without the switch, before anything is
made. If there are artifacts, their files have places of their own in the output directory; a dry
run prints the paths, and a run writes each of them once.
-/
namespace Wiring

open Naming FilePath FileTree Command

/-- The universe can be read and loaded, there are settings, and generation succeeds. -/
def Arguments.Generates (a : Arguments) (t : FileTree) (arts : Table Artifact) : Prop :=
  ∃ path text u s summary, a.universe? = some path ∧ t.read path = .ok text ∧
    Universe.ofText text = .ok u ∧ a.settings u = .ok s ∧ generate u s = .generated arts summary

/-- If there are files to write, the directory can be made, and they can be written into it. -/
inductive Job.Possible (t : FileTree) : Job → Prop
  | done {report : Report} : Possible t (.done report)
  | write {directory : String} {files : List (String × String)} {t₁ t₂ : FileTree}
      (hcreate : t.createAll directory = .ok t₁) (hwrites : Writes t₁ files t₂) :
      Possible t (.write directory files)

/-- The command with arguments that have not been read yet. -/
def Command.runWith (args : List String) (t : FileTree) :
    Except ArgumentStop (Report × FileTree) :=
  (Arguments.parse args).map fun a => run a t

/-- The paths of artifacts, in the order of their names. -/
def Command.artifactPaths (output : String) (arts : Table Artifact) : List String :=
  arts.toList.map fun x => artifactPath output x.name

/-- The paths of artifacts, each on a line of its own. -/
def Command.pathLines (output : String) (arts : Table Artifact) : String :=
  String.join ((artifactPaths output arts).map (· ++ "\n"))

/-- What is left when artifacts have been written of which a dry run has printed `stdout`: each
artifact has been written once, to a file of its own, and nothing else has happened but that
directories have been made. -/
structure Arguments.Written (a : Arguments) (t : FileTree) (arts : Table Artifact)
    (stdout : String) (left : Report × FileTree) : Prop where
  exitCode : left.1.exitCode = 0
  printed : stdout = pathLines a.output arts
  ordered : arts.keys.Pairwise (· < ·)
  job : prepare { a with dryRun := false } t.read = .write a.output (files a.output arts)
  paths : (files a.output arts).map Prod.fst = artifactPaths a.output arts
  distinct : (artifactPaths a.output arts).Nodup
  places : ((artifactPaths a.output arts).map left.2.locate).Nodup
  read : ∀ x ∈ arts.toList, left.2.read (artifactPath a.output x.name) = .ok x.text
  others : ∀ p, (∀ path ∈ artifactPaths a.output arts, left.2.locate path ≠ .ok p) →
    FileTree.entry? left.2 p = t.entry? p ∨
      t.entry? p = none ∧ FileTree.entry? left.2 p = some .directory

/-- `dry` is what a dry run leaves, and it tells what a run leaves, which is `wet`. -/
structure Arguments.Predicts (a : Arguments) (t : FileTree) (dry wet : Report × FileTree) :
    Prop where
  exitCode : dry.1.exitCode = wet.1.exitCode
  untouched : dry.2 = t
  written : ∀ arts, a.Generates t arts → a.Written t arts dry.1.stdout wet
  failed : (∀ arts, ¬ a.Generates t arts) → wet = dry ∧ wet.1.exitCode = 1

section Jobs

variable {a : Arguments} {t : FileTree} {arts : Table Artifact}

theorem prepare_of_generates (hexplain : a.explain? = none) (h : a.Generates t arts) :
    prepare a t.read =
      if a.dryRun then .done { exitCode := 0, stdout := pathLines a.output arts }
      else .write a.output (files a.output arts) := by
  obtain ⟨path, text, u, s, summary, hpath, hread, htext, hsettings, hgenerate⟩ := h
  simp only [prepare, hexplain, hpath, hread, htext, prepareWith, hsettings, hgenerate, jobOf,
    files, pathLines, artifactPaths, List.map_map, Function.comp_def]

/-- Without artifacts, there is the same report with and without the switch. -/
theorem prepare_cases (hexplain : a.explain? = none) : (∃ arts, a.Generates t arts) ∨
    ∃ r : Report, r.exitCode = 1 ∧ ∀ b, prepare { a with dryRun := b } t.read = .done r := by
  rcases Option.eq_none_or_eq_some a.universe? with hpath | ⟨path, hpath⟩
  · refine .inr ⟨(CommandError.missingArgument "universe").report, rfl, fun b => ?_⟩
    simp only [prepare, hexplain, hpath]
  cases hread : t.read path with
  | error e =>
    refine .inr ⟨(CommandError.read path e).report, rfl, fun b => ?_⟩
    simp only [prepare, hexplain, hpath, hread]
  | ok text =>
    cases htext : Universe.ofText text with
    | error e =>
      refine .inr ⟨(CommandError.load path e).report, rfl, fun b => ?_⟩
      simp only [prepare, hexplain, hpath, hread, htext]
    | ok u =>
      have hprepare : ∀ b, prepare { a with dryRun := b } t.read =
          prepareWith { a with dryRun := b } u := fun b => by
        simp only [prepare, hexplain, hpath, hread, htext]
      have hsame : ∀ b, { a with dryRun := b }.settings u = a.settings u := fun _ => rfl
      cases hsettings : a.settings u with
      | error e =>
        refine .inr ⟨e.report, rfl, fun b => ?_⟩
        rw [hprepare, prepareWith, hsame, hsettings]
      | ok s =>
        cases hgenerate : generate u s with
        | failed phase d summary =>
          refine .inr ⟨{ exitCode := 1, stderr := Diagnostic.report [d] }, rfl, fun b => ?_⟩
          rw [hprepare, prepareWith, hsame, hsettings]
          simp only [hgenerate, jobOf]
        | generated arts summary =>
          exact .inl ⟨arts, path, text, u, s, summary, hpath, hread, htext, hsettings, hgenerate⟩

theorem writeFiles_of_writes {files : List (String × String)} {t' : FileTree}
    (h : Writes t files t') : writeFiles t files = ({ exitCode := 0 }, t') := by
  induction h with
  | nil => rfl
  | cons hwrite _ ih => simp [writeFiles, hwrite, ih]

theorem run_dry (hexplain : a.explain? = none) (h : a.Generates t arts) :
    run { a with dryRun := true } t =
      ({ exitCode := 0, stdout := pathLines a.output arts }, t) := by
  rw [run, prepare_of_generates (a := { a with dryRun := true }) hexplain h]
  rfl

/-- A run that can do its job makes the directory and writes the files. -/
theorem exists_run_wet (hexplain : a.explain? = none) (h : a.Generates t arts)
    (hpossible : (prepare { a with dryRun := false } t.read).Possible t) :
    ∃ t₁ t₂, t.createAll a.output = .ok t₁ ∧ Writes t₁ (files a.output arts) t₂ ∧
      run { a with dryRun := false } t = ({ exitCode := 0 }, t₂) := by
  have hjob : prepare { a with dryRun := false } t.read = .write a.output (files a.output arts) :=
    prepare_of_generates (a := { a with dryRun := false }) hexplain h
  rw [hjob] at hpossible
  cases hpossible with
  | write hcreate hwrites =>
    refine ⟨_, _, hcreate, hwrites, ?_⟩
    simp only [run, hjob, perform, hcreate, writeFiles_of_writes hwrites]

end Jobs

section Generated

variable {a : Arguments} {t t₁ t₂ : FileTree} {arts : Table Artifact}

theorem Arguments.Generates.isWordChar (h : a.Generates t arts) :
    ∀ x ∈ arts.toList, ∀ c ∈ x.name.toList, IsWordChar c := by
  obtain ⟨_, _, u, s, _, _, _, _, _, hgenerate⟩ := h
  obtain ⟨-, p, -, rfl, -⟩ := generate_eq_generated_iff.mp hgenerate
  intro x hx
  rcases Artifact.mem_ofPlan_iff.mp hx with rfl | hx
  · exact isWordChar_of_all (s := Artifact.rootName) (by decide)
  · exact Artifact.isWordChar_of_mem_name hx

theorem Arguments.Generates.ne_nil (h : a.Generates t arts) : arts.toList ≠ [] := by
  obtain ⟨_, _, u, s, _, _, _, _, _, hgenerate⟩ := h
  obtain ⟨-, p, -, rfl, -⟩ := generate_eq_generated_iff.mp hgenerate
  exact toList_ofPlan_ne_nil u s.componentType p

/-- There is only one table of artifacts. -/
theorem Arguments.Generates.unique {arts' : Table Artifact} (h : a.Generates t arts)
    (h' : a.Generates t arts') : arts = arts' := by
  obtain ⟨_, _, _, _, _, hpath, hread, htext, hsettings, hgenerate⟩ := h
  obtain ⟨_, _, _, _, _, hpath', hread', htext', hsettings', hgenerate'⟩ := h'
  cases hpath.symm.trans hpath'
  cases hread.symm.trans hread'
  cases htext.symm.trans htext'
  cases hsettings.symm.trans hsettings'
  cases hgenerate.symm.trans hgenerate'
  rfl

/-- What has been written when the directory has been made and all files have been written. -/
theorem Arguments.Generates.written (h : a.Generates t arts) (hexplain : a.explain? = none)
    (hcreate : t.createAll a.output = .ok t₁) (hwrites : Writes t₁ (files a.output arts) t₂) :
    a.Written t arts (pathLines a.output arts) ({ exitCode := 0 }, t₂) := by
  have hchars := h.isWordChar
  have hnodup : (arts.toList.map Artifact.name).Nodup := arts.nodup_keys
  obtain ⟨q, hq⟩ : ∃ q, t₁.follow (start a.output) (steps a.output) = .ok q := by
    obtain ⟨x, xs, hxs⟩ := List.exists_cons_of_ne_nil h.ne_nil
    rw [files, hxs] at hwrites
    exact hwrites.exists_follow (hchars x (hxs ▸ List.mem_cons_self))
  obtain ⟨hkeeps, -, hothers⟩ := hwrites.entry? hchars hnodup hq
  have hlocate : ∀ x ∈ arts.toList,
      t₂.locate (artifactPath a.output x.name) = .ok (q ++ [fileName x.name]) := by
    intro x hx
    rw [locate_artifactPath (hchars x hx), hkeeps.follow hq]
    rfl
  have hplaces : ((artifactPaths a.output arts).map t₂.locate).Nodup := by
    have hmap : (artifactPaths a.output arts).map t₂.locate =
        (arts.toList.map Artifact.name).map fun name => .ok (q ++ [fileName name]) := by
      rw [artifactPaths, List.map_map, List.map_map]
      refine List.map_congr_left fun x hx => ?_
      rw [Function.comp_apply, Function.comp_apply, hlocate x hx]
    rw [hmap]
    exact List.pairwise_map.mpr
      (hnodup.imp fun hne heq => hne (place_inj.mp (Except.ok.inj heq)))
  exact {
    exitCode := rfl
    printed := rfl
    ordered := List.pairwise_map.mpr arts.increasing
    job := prepare_of_generates (a := { a with dryRun := false }) hexplain h
    paths := by simp [files, artifactPaths]
    distinct := List.Pairwise.of_map t₂.locate
      (fun _ _ hne heq => hne (congrArg t₂.locate heq)) hplaces
    places := hplaces
    read := fun x hx => hwrites.read hchars hnodup hq hx
    others := by
      intro p hp
      have hnot : ∀ x ∈ arts.toList, p ≠ q ++ [fileName x.name] := by
        rintro x hx rfl
        exact hp _ (List.mem_map_of_mem hx) (hlocate x hx)
      rw [hothers p hnot]
      exact grown_createAll hcreate p }

end Generated

section Runs

variable {args : List String} {a : Arguments} {t : FileTree}

theorem Arguments.Generates.predicts {arts : Table Artifact} (h : a.Generates t arts)
    (hexplain : a.explain? = none)
    (hpossible : (prepare { a with dryRun := false } t.read).Possible t) :
    a.Predicts t (run { a with dryRun := true } t) (run { a with dryRun := false } t) := by
  obtain ⟨t₁, t₂, hcreate, hwrites, hwet⟩ := exists_run_wet hexplain h hpossible
  rw [run_dry hexplain h, hwet]
  refine ⟨rfl, rfl, fun arts' h' => ?_, fun hnone => absurd h (hnone arts)⟩
  rw [h'.unique h]
  exact h.written hexplain hcreate hwrites

/-- With the same report either way there are no artifacts, and nothing is done. -/
theorem Arguments.predicts_of_done {r : Report} (hexplain : a.explain? = none)
    (hcode : r.exitCode = 1) (hdone : ∀ b, prepare { a with dryRun := b } t.read = .done r) :
    a.Predicts t (run { a with dryRun := true } t) (run { a with dryRun := false } t) := by
  have hleaves : ∀ b, run { a with dryRun := b } t = (r, t) := by
    intro b
    rw [run, hdone]
    rfl
  have hnone : ∀ arts, ¬ a.Generates t arts := by
    intro arts h
    have hreport := congrArg (·.1.exitCode) ((run_dry hexplain h).symm.trans (hleaves true))
    simp [hcode] at hreport
  rw [hleaves, hleaves]
  exact ⟨rfl, rfl, fun arts h => absurd h (hnone arts), fun _ => ⟨rfl, hcode⟩⟩

end Runs

theorem Shop.fits : ∀ d ∈ types.decls, d.Fits := by
  intro d hd
  have hmem := Table.mem_of_mem_ofList hd
  simp only [List.mem_cons, List.not_mem_nil, or_false] at hmem
  rcases hmem with rfl | rfl | rfl | rfl | rfl | rfl
  all_goals
    simp [Decl.Fits, Decl.memberDepth, Decl.kindMembers, Decl.ofStruct, Decl.ofInterface,
      Decl.withFlags, Decl.withMethod, Method.toJson, Field.toJson, Param.toJson, TypeRef.toJson,
      Identity.toJson, Json.maxDepth, Json.plain_string_iff, Json.plain_array_iff,
      Json.plain_object_iff]

/-- A folder with the shop in it. -/
def Shop.folder : FileTree where
  entries := [(["shop.json"], .file types.text)]

def Shop.request : List String :=
  ["--dry-run", "-u", "shop.json", "--definition=Shop", "-p", "shop", "--component-type", "Shop"]

def Shop.requested : Arguments where
  universe? := some "shop.json"
  definition? := some "Shop"
  package? := some "shop"
  componentType := "Shop"
  dryRun := true

/-- The artifacts of the shop can be written. -/
theorem Shop.requested_possible :
    (prepare { requested with dryRun := false } folder.read).Possible folder := by
  have hgenerates : requested.Generates folder (Artifact.ofPlan types "Shop" plan) :=
    ⟨"shop.json", types.text, types, called "Shop", plan.summary, rfl, rfl,
      Universe.ofText_text fits, rfl, generate_called (by decide)⟩
  have hfollow : (folder.put ["digen"] .directory).follow (start "digen") (steps "digen") =
      .ok ["digen"] := rfl
  have hfree : ∀ x ∈ (Artifact.ofPlan types "Shop" plan).toList,
      FileTree.entry? (folder.put ["digen"] .directory) (["digen"] ++ [fileName x.name]) ≠
        some .directory := by
    intro x _ hx
    cases hx
  have hfiles : ∃ t', Writes (folder.put ["digen"] .directory)
      (files "digen" (Artifact.ofPlan types "Shop" plan)) t' :=
    exists_writes hgenerates.isWordChar hfollow hfree
  obtain ⟨t, hwrites⟩ := hfiles
  rw [prepare_of_generates (a := { requested with dryRun := false }) rfl hgenerates]
  exact .write rfl hwrites

end Wiring
