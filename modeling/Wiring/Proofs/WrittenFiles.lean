import Wiring.CommandLine.Command
import Wiring.Proofs.Identifiers
import Wiring.Proofs.Splitting

/-!
Files that are written into a directory. The path of a file has the steps of the directory and one
more, so that files of different names have different places. Making directories adds directories
where nothing was, and writing a file changes its place only: directories stay, and the steps of a
path lead to where they led before. Afterwards every file that was written can be read back.
-/
namespace Wiring

open Naming

namespace FilePath

/-- The name of the file of an artifact. -/
def fileName (artifact : String) : String :=
  artifact ++ ".rs"

theorem steps_append (before after : List Char) :
    steps (.ofList (before ++ '/' :: after)) = steps (.ofList before) ++ steps (.ofList after) := by
  simp [steps, Text.splitAt_append]

section ArtifactPath

variable {artifact : String}

theorem slash_not_mem_fileName (h : ∀ c ∈ artifact.toList, IsWordChar c) :
    '/' ∉ (fileName artifact).toList := by
  intro hmem
  rw [fileName, String.toList_append, List.mem_append] at hmem
  rcases hmem with hmem | hmem
  · exact absurd (h _ hmem) (by decide)
  · exact absurd hmem (by decide)

theorem fileName_inj {a b : String} : fileName a = fileName b ↔ a = b := by
  simp [fileName]

/-- Only texts with the same last letter can be names of files. -/
theorem toList_fileName_ne {cs : List Char} (h : cs.getLast? ≠ some 's') :
    (fileName artifact).toList ≠ cs := by
  rintro rfl
  exact h (by simp [fileName])

theorem fileName_ne {s : String} (h : s.toList.getLast? ≠ some 's') : fileName artifact ≠ s :=
  fun heq => toList_fileName_ne h (congrArg String.toList heq)

theorem steps_fileName (h : ∀ c ∈ artifact.toList, IsWordChar c) :
    steps (fileName artifact) = [fileName artifact] := by
  have hempty : fileName artifact ≠ "" := fileName_ne (by decide)
  have hdot : fileName artifact ≠ "." := fileName_ne (by decide)
  simp [steps, Text.splitAt_of_not_mem (slash_not_mem_fileName h), hempty, hdot]

theorem isAbsolute_fileName (h : ∀ c ∈ artifact.toList, IsWordChar c) :
    isAbsolute (fileName artifact) = false := by
  have hslash := slash_not_mem_fileName h
  unfold isAbsolute
  rw [decide_eq_false_iff_not]
  intro hhead
  exact hslash (List.mem_of_head? hhead)

/-- Without a directory the path is the name of the file; otherwise it is what stands after the
last slash. -/
theorem artifactPath_cases (output : String) (h : ∀ c ∈ artifact.toList, IsWordChar c) :
    (output = "" ∧ artifactPath output artifact = fileName artifact) ∨
      ∃ directory, (artifactPath output artifact).toList =
          directory ++ '/' :: (fileName artifact).toList ∧
        steps (.ofList directory) = steps output ∧
        isAbsolute (artifactPath output artifact) = isAbsolute output := by
  have habsolute := isAbsolute_fileName h
  by_cases hempty : output = ""
  · subst hempty
    exact .inl ⟨rfl, by simp [artifactPath, join, fileName]⟩
  · right
    obtain ⟨c, cs, hcs⟩ := List.exists_cons_of_ne_nil (l := output.toList) (by simpa using hempty)
    have hhead : ∀ rest, (output.toList ++ rest).head? = output.toList.head? := by
      intro rest
      rw [hcs]
      rfl
    by_cases hslash : output.toList.getLast? = some '/'
    · have hpath : artifactPath output artifact = output ++ fileName artifact := by
        unfold fileName at habsolute
        simp [artifactPath, join, fileName, habsolute, hempty, hslash]
      obtain ⟨directory, hdirectory⟩ := List.getLast?_eq_some_iff.mp hslash
      refine ⟨directory, ?_, ?_, ?_⟩
      · simp [hpath, hdirectory]
      · have houtput : output = .ofList (directory ++ ['/']) := by simp [← hdirectory]
        rw [houtput, steps_append]
        simp [steps, Text.splitAt]
      · simp [isAbsolute, hpath, hhead]
    · have hpath : artifactPath output artifact = output ++ "/" ++ fileName artifact := by
        unfold fileName at habsolute
        simp [artifactPath, join, fileName, habsolute, hempty, hslash]
      refine ⟨output.toList, by simp [hpath], by simp, ?_⟩
      simp [isAbsolute, hpath, hhead]

theorem steps_artifactPath (output : String) (h : ∀ c ∈ artifact.toList, IsWordChar c) :
    steps (artifactPath output artifact) = steps output ++ [fileName artifact] := by
  rcases artifactPath_cases output h with ⟨rfl, hpath⟩ | ⟨directory, hpath, hsteps, -⟩
  · rw [hpath, steps_fileName h]
    rfl
  · have hlist : artifactPath output artifact =
        .ofList (directory ++ '/' :: (fileName artifact).toList) := by
      rw [← hpath, String.ofList_toList]
    rw [hlist, steps_append, hsteps, String.ofList_toList, steps_fileName h]

theorem namesDirectory_artifactPath (output : String) (h : ∀ c ∈ artifact.toList, IsWordChar c) :
    namesDirectory (artifactPath output artifact) = false := by
  have hname := Text.splitAt_of_not_mem (slash_not_mem_fileName h)
  have hlast : (Text.splitAt '/' (artifactPath output artifact).toList).getLast? =
      some (fileName artifact).toList := by
    rcases artifactPath_cases output h with ⟨-, hpath⟩ | ⟨directory, hpath, -, -⟩
    · rw [hpath, hname]
      rfl
    · rw [hpath, Text.splitAt_append, hname, List.getLast?_concat]
  have hempty : (fileName artifact).toList ≠ [] := toList_fileName_ne (by decide)
  have hdot : (fileName artifact).toList ≠ ['.'] := toList_fileName_ne (by decide)
  simp only [namesDirectory, hlast, hempty, hdot, decide_false, Bool.or_self]

theorem start_artifactPath (output : String) (h : ∀ c ∈ artifact.toList, IsWordChar c) :
    FileTree.start (artifactPath output artifact) = FileTree.start output := by
  unfold FileTree.start
  rcases artifactPath_cases output h with ⟨rfl, hpath⟩ | ⟨-, -, -, habsolute⟩
  · rw [hpath, isAbsolute_fileName h]
    rfl
  · rw [habsolute]

end ArtifactPath

end FilePath

namespace FileTree

open FilePath

variable {t t' : FileTree} {p q : Place}

/-- The working directory, those above it and the root are there from the start. -/
def Given (p : Place) : Prop :=
  p = [rootStep] ∨ ∀ s ∈ p, s = ".."

theorem entry?_of_given (h : Given p) (t : FileTree) : t.entry? p = some .directory := by
  have hgiven : (p = [rootStep] || p.all (· = "..")) = true := by simpa [Given] using h
  unfold FileTree.entry?
  rw [if_pos hgiven]

theorem entry?_of_not_given (h : ¬ Given p) (t : FileTree) :
    t.entry? p = t.entries.lookup p := by
  have hgiven : ¬ (p = [rootStep] || p.all (· = "..")) = true := by simpa [Given] using h
  unfold FileTree.entry?
  rw [if_neg hgiven]

theorem lookup_entry (x : Place × FileEntry) (xs : List (Place × FileEntry)) (q : Place) :
    (x :: xs).lookup q = if q = x.1 then some x.2 else xs.lookup q := by
  obtain ⟨k, e⟩ := x
  rw [List.lookup_cons]
  by_cases hq : q = k
  · rw [if_pos hq, beq_iff_eq.mpr hq]
  · rw [if_neg hq, beq_false_of_ne hq]

theorem lookup_replace (xs : List (Place × FileEntry)) (p q : Place) (e : FileEntry) :
    (xs.filter (fun x => x.1 ≠ p) ++ [(p, e)]).lookup q =
      if q = p then some e else xs.lookup q := by
  induction xs with
  | nil => exact lookup_entry (p, e) [] q
  | cons x xs ih =>
    rw [lookup_entry]
    by_cases hx : x.1 = p
    · rw [List.filter_cons_of_neg (by simpa using hx), ih, hx]
      split <;> rfl
    · rw [List.filter_cons_of_pos (by simpa using hx), List.cons_append, lookup_entry, ih]
      by_cases hq : q = x.1
      · rw [if_pos hq, if_pos hq, if_neg (hq ▸ hx)]
      · rw [if_neg hq, if_neg hq]

theorem entry?_put_self (h : ¬ Given p) (t : FileTree) (e : FileEntry) :
    FileTree.entry? (t.put p e) p = some e := by
  rw [entry?_of_not_given h, put, lookup_replace, if_pos rfl]

theorem entry?_put_of_ne (h : q ≠ p) (t : FileTree) (e : FileEntry) :
    FileTree.entry? (t.put p e) q = t.entry? q := by
  by_cases hq : Given q
  · rw [entry?_of_given hq, entry?_of_given hq]
  · rw [entry?_of_not_given hq, entry?_of_not_given hq, put, lookup_replace, if_neg h]

/-- What is a directory in the first tree is one in the second. -/
def KeepsDirectories (t t' : FileTree) : Prop :=
  ∀ p, t.entry? p = some .directory → t'.entry? p = some .directory

theorem KeepsDirectories.put (h : t.entry? p ≠ some .directory) (e : FileEntry) :
    KeepsDirectories t (t.put p e) := by
  intro q hq
  have hne : q ≠ p := by
    rintro rfl
    exact h hq
  rw [entry?_put_of_ne hne, hq]

theorem KeepsDirectories.follow {steps : List String} (h : KeepsDirectories t t')
    (hfollow : t.follow p steps = .ok q) : t'.follow p steps = .ok q := by
  induction steps generalizing p with
  | nil => exact hfollow
  | cons s rest ih =>
    unfold FileTree.follow at hfollow ⊢
    split at hfollow
    · next hup =>
      rw [if_pos hup]
      exact ih hfollow
    · next hdown =>
      rw [if_neg hdown]
      split at hfollow
      · cases hfollow
      · cases hfollow
      · next hentry =>
        rw [h _ hentry]
        exact ih hfollow

theorem write_eq_ok {path content : String} (h : t.write path content = .ok t') :
    ∃ p, t.locate path = .ok p ∧ t.entry? p ≠ some .directory ∧ t' = t.put p (.file content) := by
  unfold write at h
  split at h
  · cases h
  · next p hp =>
    split at h
    · cases h
    · next hfree =>
      cases h
      exact ⟨p, hp, by simpa [isDirectory] using hfree, rfl⟩

/-- The files can be written one after another. -/
inductive Writes : FileTree → List (String × String) → FileTree → Prop
  | nil {t : FileTree} : Writes t [] t
  | cons {t t' t'' : FileTree} {path content : String} {rest : List (String × String)}
      (h : t.write path content = .ok t') (hrest : Writes t' rest t'') :
      Writes t ((path, content) :: rest) t''

section Artifacts

variable {output : String} {as : List Artifact}

theorem locate_artifactPath {artifact : String} (h : ∀ c ∈ artifact.toList, IsWordChar c)
    (t : FileTree) : t.locate (artifactPath output artifact) =
      (t.follow (start output) (steps output)).map (· ++ [fileName artifact]) := by
  have hup : fileName artifact ≠ ".." := fileName_ne (by decide)
  unfold locate
  simp only [steps_artifactPath output h, List.getLast?_concat, List.dropLast_concat,
    start_artifactPath output h, if_neg hup]
  cases t.follow (start output) (steps output) <;> rfl

/-- The directory is there if a file can be written into it. -/
theorem Writes.exists_follow {a : Artifact} (hname : ∀ c ∈ a.name.toList, IsWordChar c)
    (h : Writes t ((a :: as).map fun a => (artifactPath output a.name, a.text)) t') :
    ∃ q, t.follow (start output) (steps output) = .ok q := by
  cases h with
  | cons hwrite _ =>
    obtain ⟨p, hp, -, -⟩ := write_eq_ok hwrite
    rw [locate_artifactPath hname] at hp
    cases hq : t.follow (start output) (steps output) with
    | error e => simp [hq, Except.map] at hp
    | ok q => exact ⟨q, rfl⟩

theorem place_inj {q : Place} {a b : String} :
    q ++ [fileName a] = q ++ [fileName b] ↔ a = b := by
  simp [fileName_inj]

/-- Files of artifacts are written to places of their own in one directory, and nothing happens
elsewhere. -/
theorem Writes.entry? (has : ∀ a ∈ as, ∀ c ∈ a.name.toList, IsWordChar c)
    (hnodup : (as.map Artifact.name).Nodup) (hq : t.follow (start output) (steps output) = .ok q)
    (h : Writes t (as.map fun a => (artifactPath output a.name, a.text)) t') :
    KeepsDirectories t t' ∧
      (∀ a ∈ as, t'.entry? (q ++ [fileName a.name]) = some (.file a.text)) ∧
        ∀ p, (∀ a ∈ as, p ≠ q ++ [fileName a.name]) → t'.entry? p = t.entry? p := by
  induction as generalizing t with
  | nil =>
    cases h
    exact ⟨fun _ hp => hp, List.forall_mem_nil _, fun _ _ => rfl⟩
  | cons a as ih =>
    obtain ⟨hname, hnames⟩ := List.forall_mem_cons.mp has
    obtain ⟨hnew, hnodup⟩ := List.nodup_cons.mp hnodup
    cases h with
    | @cons _ t₁ _ _ _ _ hwrite hrest =>
      obtain ⟨p, hp, hfree, rfl⟩ := write_eq_ok hwrite
      rw [locate_artifactPath hname, hq] at hp
      cases hp
      have hkeeps : KeepsDirectories t (t.put (q ++ [fileName a.name]) (.file a.text)) :=
        .put hfree _
      obtain ⟨hkeeps', hread, hrest⟩ := ih hnames hnodup (hkeeps.follow hq) hrest
      have hplace : ∀ b ∈ as, q ++ [fileName a.name] ≠ q ++ [fileName b.name] := by
        intro b hb heq
        refine hnew ?_
        rw [place_inj.mp heq]
        exact List.mem_map_of_mem hb
      refine ⟨fun p hp => hkeeps' p (hkeeps p hp), List.forall_mem_cons.mpr ⟨?_, hread⟩, ?_⟩
      · rw [hrest _ hplace, entry?_put_self fun hgiven => hfree (entry?_of_given hgiven t)]
      · intro p hp
        obtain ⟨hne, hothers⟩ := List.forall_mem_cons.mp hp
        rw [hrest p hothers, entry?_put_of_ne hne]

/-- The places of the files are not changed again, so that they can be read back. -/
theorem Writes.read (has : ∀ a ∈ as, ∀ c ∈ a.name.toList, IsWordChar c)
    (hnodup : (as.map Artifact.name).Nodup) (hq : t.follow (start output) (steps output) = .ok q)
    (h : Writes t (as.map fun a => (artifactPath output a.name, a.text)) t') {a : Artifact}
    (ha : a ∈ as) : t'.read (artifactPath output a.name) = .ok a.text := by
  obtain ⟨hkeeps, hread, -⟩ := h.entry? has hnodup hq
  have hlocate : t'.locate (artifactPath output a.name) = .ok (q ++ [fileName a.name]) := by
    rw [locate_artifactPath (has a ha), hkeeps.follow hq]
    rfl
  simp [FileTree.read, hlocate, hread a ha, namesDirectory_artifactPath output (has a ha)]

/-- Files can be written into a directory unless there are directories in their places. -/
theorem exists_writes (has : ∀ a ∈ as, ∀ c ∈ a.name.toList, IsWordChar c)
    (hq : t.follow (start output) (steps output) = .ok q)
    (hfree : ∀ a ∈ as, t.entry? (q ++ [fileName a.name]) ≠ some .directory) :
    ∃ t', Writes t (as.map fun a => (artifactPath output a.name, a.text)) t' := by
  induction as generalizing t with
  | nil => exact ⟨t, .nil⟩
  | cons a as ih =>
    obtain ⟨hname, hnames⟩ := List.forall_mem_cons.mp has
    obtain ⟨hfirst, hrest⟩ := List.forall_mem_cons.mp hfree
    have hlocate : t.locate (artifactPath output a.name) = .ok (q ++ [fileName a.name]) := by
      rw [locate_artifactPath hname, hq]
      rfl
    have hwrite : t.write (artifactPath output a.name) a.text =
        .ok (t.put (q ++ [fileName a.name]) (.file a.text)) := by
      simp [FileTree.write, hlocate, isDirectory, hfirst]
    have hkeeps : KeepsDirectories t (t.put (q ++ [fileName a.name]) (.file a.text)) :=
      .put hfirst _
    have hfree' : ∀ b ∈ as, FileTree.entry? (t.put (q ++ [fileName a.name]) (.file a.text))
        (q ++ [fileName b.name]) ≠ some .directory := by
      intro b hb
      by_cases heq : q ++ [fileName b.name] = q ++ [fileName a.name]
      · rw [heq, entry?_put_self fun hgiven => hfirst (entry?_of_given hgiven t)]
        simp
      · rw [entry?_put_of_ne heq]
        exact hrest b hb
    obtain ⟨t', ht'⟩ := ih hnames (hkeeps.follow hq) hfree'
    exact ⟨t', .cons hwrite ht'⟩

end Artifacts

/-! Directories. -/

/-- The second tree has the entries of the first, and more directories. -/
def Grown (t t' : FileTree) : Prop :=
  ∀ p, t'.entry? p = t.entry? p ∨ t.entry? p = none ∧ t'.entry? p = some .directory

theorem Grown.refl (t : FileTree) : Grown t t :=
  fun _ => .inl rfl

theorem Grown.trans {t'' : FileTree} (h : Grown t t') (h' : Grown t' t'') : Grown t t'' := by
  intro p
  rcases h' p with hp | ⟨hnone, hp⟩
  · rw [hp]
    exact h p
  · rcases h p with hsame | ⟨hfree, -⟩
    · exact .inr ⟨hsame ▸ hnone, hp⟩
    · exact .inr ⟨hfree, hp⟩

theorem grown_makeDirectory {base : Place} {steps : List String}
    (h : t.makeDirectory base steps = .ok t') : Grown t t' := by
  unfold makeDirectory at h
  split at h
  · cases h
  · next last before =>
    split at h
    · cases h
    · next p _ =>
      split at h
      · cases h
      · next hnew =>
        cases h
        obtain ⟨-, hfree⟩ : last ≠ ".." ∧ t.entry? (p ++ [last]) = none := by simpa using hnew
        have hgiven : ¬ Given (p ++ [last]) := by
          intro hgiven
          rw [entry?_of_given hgiven] at hfree
          cases hfree
        intro q
        by_cases hq : q = p ++ [last]
        · rw [hq]
          exact .inr ⟨hfree, entry?_put_self hgiven t _⟩
        · exact .inl (entry?_put_of_ne hq t _)

theorem grown_makeUnlessThere {base : Place} {steps : List String}
    (h : t.makeUnlessThere base steps = .ok t') : Grown t t' := by
  unfold makeUnlessThere at h
  split at h
  · next hmade =>
    cases h
    exact grown_makeDirectory hmade
  · split at h
    · cases h
      exact .refl t
    · cases h

theorem grown_makeDirectories {base : Place} {steps : List String}
    (h : t.makeDirectories base steps = .ok t') : Grown t t' := by
  induction steps generalizing t t' with
  | nil =>
    cases h
    exact .refl t
  | cons last before ih =>
    unfold makeDirectories at h
    split at h
    · next hmade =>
      cases h
      exact grown_makeUnlessThere hmade
    · split at h
      · cases h
      · next habove => exact (ih habove).trans (grown_makeUnlessThere h)
    · cases h

theorem grown_createAll {path : String} (h : t.createAll path = .ok t') : Grown t t' := by
  unfold createAll at h
  dsimp only at h
  split at h
  · split at h
    · cases h
      exact .refl t
    · unfold makeAbove at h
      split at h
      · cases h
      · next t₁ habove =>
        cases hfollow : t₁.follow (start path) (steps path) with
        | error e => simp [hfollow, Except.map] at h
        | ok p =>
          simp only [hfollow, Except.map, Except.ok.injEq] at h
          exact h ▸ grown_makeDirectories habove
    · cases h
  · exact grown_makeDirectories h

end FileTree

end Wiring
