import Wiring.CommandLine.Arguments

/-!
The switch for dry runs among the arguments. It can only be given as an argument of its own, so
that the same arguments can be read with it and without it. Reading an argument of any other kind
leaves two states alike that differ in this switch alone, and at the end everything else that has
been given is the same.
-/
namespace Wiring

def dryRunSwitch : String := "--dry-run"

/-- The arguments without the switch for dry runs. -/
def wetArguments (args : List String) : List String :=
  args.filter (· ≠ dryRunSwitch)

/-- The arguments with the switch for dry runs, which is put in front. -/
def dryArguments (args : List String) : List String :=
  dryRunSwitch :: wetArguments args

theorem ArgumentName.ofLong?_dryRun {s : String} (h : ofLong? s = some (.switch .dryRun)) :
    s = "dry-run" := by
  unfold ofLong? at h
  split at h <;> simp_all

theorem ArgumentName.ofShort?_ne_dryRun (c : Char) : ofShort? c ≠ some (.switch .dryRun) := by
  unfold ofShort?
  split <;> simp

namespace GivenArguments

/-- The states differ at most in the switch for dry runs, which has been given in the first if
`d` holds, and in the second if `d'` holds. -/
structure Apart (d d' : Prop) (g g' : GivenArguments) : Prop where
  values : g.values = g'.values
  awaiting : g.awaiting = g'.awaiting
  verbose : .verbose ∈ g.switches ↔ .verbose ∈ g'.switches
  first : .dryRun ∈ g.switches ↔ d
  second : .dryRun ∈ g'.switches ↔ d'

variable {d d' : Prop} {g g' h : GivenArguments}

theorem Apart.give {o : CommandOption} {value : String} (hg : Apart d d' g g')
    (hgive : g.give o value = .ok h) : ∃ h', g'.give o value = .ok h' ∧ Apart d d' h h' := by
  have hvalue : g'.value? o = g.value? o := by simp [value?, hg.values]
  unfold GivenArguments.give at hgive ⊢
  rw [hvalue]
  split at hgive
  · cases hgive
  · next hfree =>
    cases hgive
    exact ⟨_, if_neg hfree, by simp [hg.values], rfl, hg.verbose, hg.first, hg.second⟩

theorem Apart.await (hg : Apart d d' g g') (o : CommandOption) :
    Apart d d' { g with awaiting := some o } { g' with awaiting := some o } :=
  ⟨hg.values, rfl, hg.verbose, hg.first, hg.second⟩

theorem Apart.name {n : ArgumentName} (hn : n ≠ .switch .dryRun) (hg : Apart d d' g g')
    (hname : g.name n = .ok h) : ∃ h', g'.name n = .ok h' ∧ Apart d d' h h' := by
  match n with
  | .option o =>
    cases hname
    exact ⟨_, rfl, hg.await o⟩
  | .switch .dryRun => exact absurd rfl hn
  | .switch .verbose =>
    simp only [GivenArguments.name, turnOn] at hname ⊢
    split at hname
    · cases hname
    · next hnew =>
      cases hname
      refine ⟨_, if_neg fun hmem => hnew (hg.verbose.mpr hmem), hg.values, hg.awaiting, ?_, ?_, ?_⟩
      · simp
      · simpa using hg.first
      · simpa using hg.second
  | .help => cases hname
  | .version => cases hname

/-- Only the whole name stands for the switch. -/
theorem Apart.long {cs : List Char} (hcs : cs ≠ "dry-run".toList) (hg : Apart d d' g g')
    (hlong : g.long cs = .ok h) : ∃ h', g'.long cs = .ok h' ∧ Apart d d' h h' := by
  unfold GivenArguments.long at hlong ⊢
  dsimp only at hlong ⊢
  generalize hkey : cs.takeWhile (fun x => decide (x ≠ '=')) = key at hlong ⊢
  split at hlong
  · next n hn hrest =>
    refine hg.name ?_ hlong
    rintro rfl
    have hprefix : key <+: cs := hkey ▸ List.takeWhile_prefix _
    have hwhole : key = cs := hprefix.eq_of_length_le (List.drop_eq_nil_iff.mp hrest)
    have hlist := congrArg String.toList (ArgumentName.ofLong?_dryRun hn)
    rw [String.toList_ofList, hwhole] at hlist
    exact hcs hlist
  · exact hg.give hlong
  · cases hlong

theorem Apart.short {cs : List Char} (hg : Apart d d' g g') (hshort : g.short cs = .ok h) :
    ∃ h', g'.short cs = .ok h' ∧ Apart d d' h h' := by
  induction cs generalizing g g' with
  | nil =>
    cases hshort
    exact ⟨g', rfl, hg⟩
  | cons c cs ih =>
    unfold GivenArguments.short at hshort ⊢
    cases hc : ArgumentName.ofShort? c with
    | none => simp [hc] at hshort
    | some n =>
      have hn : n ≠ .switch .dryRun := by
        rintro rfl
        exact ArgumentName.ofShort?_ne_dryRun c hc
      rw [hc] at hshort
      match n with
      | .option o =>
        dsimp only at hshort ⊢
        split at hshort
        · cases hshort
          exact ⟨_, rfl, hg.await o⟩
        · exact hg.give hshort
        · exact hg.give hshort
      | .switch x =>
        dsimp only at hshort ⊢
        cases hnext : g.name (.switch x) with
        | error stop => simp [hnext] at hshort
        | ok k =>
          obtain ⟨k', hk', hapart⟩ := hg.name hn hnext
          rw [hnext] at hshort
          rw [hk']
          exact ih hapart hshort
      | .help => cases hshort
      | .version => cases hshort

theorem Apart.take {arg : String} (harg : arg ≠ dryRunSwitch) (hg : Apart d d' g g')
    (htake : g.take arg = .ok h) : ∃ h', g'.take arg = .ok h' ∧ Apart d d' h h' := by
  unfold GivenArguments.take at htake ⊢
  rw [← hg.awaiting]
  split at htake
  · split at htake
    · next hvalue =>
      rw [if_pos hvalue]
      exact hg.give htake
    · cases htake
  · split at htake
    · next cs hcs =>
      refine hg.long ?_ htake
      rintro rfl
      exact harg (String.toList_inj.mp hcs)
    · exact hg.short htake
    · cases htake

/-- The switch turns a dry run on, if no value is awaited; it is not a value itself. -/
theorem take_dryRunSwitch (g : GivenArguments) : g.take dryRunSwitch =
    if g.awaiting = none then g.turnOn .dryRun else .error .invalid := by
  have hlist : dryRunSwitch.toList = '-' :: '-' :: "dry-run".toList := by decide
  have hname : ArgumentName.ofLong? "dry-run" = some (.switch .dryRun) := by decide
  have hlong : g.long "dry-run".toList = g.turnOn .dryRun := by
    simp [GivenArguments.long, hname, name]
  have hvalue : isValue dryRunSwitch = false := by decide
  unfold GivenArguments.take
  cases g.awaiting with
  | some o => simp [hvalue]
  | none => simpa [hlist] using hlong

theorem Apart.take_dryRun (hg : Apart d d' g g') (htake : g.take dryRunSwitch = .ok h) :
    Apart True d' h g' := by
  rw [take_dryRunSwitch] at htake
  split at htake
  · unfold turnOn at htake
    split at htake
    · cases htake
    · cases htake
      exact ⟨hg.values, hg.awaiting, by simpa using hg.verbose, by simp, hg.second⟩
  · cases htake

theorem Apart.takeAll {args : List String} (hg : Apart d d' g g')
    (htake : g.takeAll args = .ok h) : ∃ h', g'.takeAll (wetArguments args) = .ok h' ∧
      Apart (d ∨ dryRunSwitch ∈ args) d' h h' := by
  induction args generalizing d g g' with
  | nil =>
    cases htake
    exact ⟨g', rfl, by simpa using hg⟩
  | cons arg rest ih =>
    unfold GivenArguments.takeAll at htake
    split at htake
    · next hend =>
      obtain ⟨rfl, hnone⟩ := hend
      split at htake
      · next hempty =>
        cases htake
        rw [List.isEmpty_iff.mp hempty]
        have hkept : wetArguments ["--"] = ["--"] := by decide
        have hread : g'.takeAll ["--"] = .ok g' := by
          simp [GivenArguments.takeAll, ← hg.awaiting, hnone]
        have hnot : dryRunSwitch ∉ ["--"] := by decide
        exact ⟨g', hkept ▸ hread, by simpa [hnot] using hg⟩
      · cases htake
    · next hend =>
      cases hnext : g.take arg with
      | error stop => simp [hnext] at htake
      | ok k =>
        rw [hnext] at htake
        by_cases harg : arg = dryRunSwitch
        · subst harg
          obtain ⟨h', hh', hapart⟩ := ih (hg.take_dryRun hnext) htake
          refine ⟨h', by simpa [wetArguments] using hh', ?_⟩
          simpa using hapart
        · obtain ⟨k', hk', hkk⟩ := hg.take harg hnext
          obtain ⟨h', hh', hapart⟩ := ih hkk htake
          have hkept : wetArguments (arg :: rest) = arg :: wetArguments rest := by
            simp [wetArguments, harg]
          have hread : g'.takeAll (arg :: wetArguments rest) = .ok h' := by
            rw [hg.awaiting] at hend
            rw [GivenArguments.takeAll, if_neg hend, hk']
            exact hh'
          refine ⟨h', hkept ▸ hread, ?_⟩
          simpa [Ne.symm harg] using hapart

end GivenArguments

section Parse

variable {args : List String} {a : Arguments}

open GivenArguments

theorem GivenArguments.Apart.arguments {d d' : Prop} {g g' : GivenArguments}
    (hg : Apart d d' g g') {b : Bool} (hb : b = true ↔ d') :
    g'.isComplete = g.isComplete ∧ g'.arguments = { g.arguments with dryRun := b } := by
  have hvalue : ∀ o, g'.value? o = g.value? o := fun o => by simp [value?, hg.values]
  have hverbose : g'.switches.contains .verbose = g.switches.contains .verbose := by
    rw [Bool.eq_iff_iff, List.contains_iff_mem, List.contains_iff_mem, hg.verbose]
  have hdryRun : g'.switches.contains .dryRun = b := by
    rw [Bool.eq_iff_iff, List.contains_iff_mem, hg.second, hb]
  constructor
  · simp [isComplete, hvalue, hg.awaiting]
  · simp only [GivenArguments.arguments, hvalue, hverbose, hdryRun]

/-- Accepted arguments are accepted with and without the switch, and nothing else changes. -/
theorem Arguments.parse_switched (h : parse args = .ok a) :
    parse (wetArguments args) = .ok { a with dryRun := false } ∧
      parse (dryArguments args) = .ok { a with dryRun := true } ∧
      (a.dryRun = true ↔ dryRunSwitch ∈ args) := by
  unfold parse at h
  split at h
  · cases h
  · next g hg =>
    split at h
    · next hcomplete =>
      cases h
      have hstart : Apart False False {} {} := ⟨rfl, rfl, Iff.rfl, by simp, by simp⟩
      have hstarted : Apart False True {} { switches := [.dryRun] } :=
        ⟨rfl, rfl, by simp, by simp, by simp⟩
      obtain ⟨wet, hwet, hapart⟩ := hstart.takeAll hg
      obtain ⟨dry, hdry, hapart'⟩ := hstarted.takeAll hg
      have hfirst : takeAll {} (dryArguments args) = .ok dry := by
        have hend : ¬ (dryRunSwitch = "--" ∧ (none : Option CommandOption) = none) := by decide
        have hturned : take {} dryRunSwitch = .ok { switches := [.dryRun] } := take_dryRunSwitch {}
        rw [dryArguments, takeAll, if_neg hend, hturned]
        exact hdry
      obtain ⟨hcompleteWet, hargumentsWet⟩ := hapart.arguments (b := false) (by simp)
      obtain ⟨hcompleteDry, hargumentsDry⟩ := hapart'.arguments (b := true) (by simp)
      refine ⟨?_, ?_, ?_⟩
      · simp [parse, hwet, hcompleteWet, hcomplete, hargumentsWet]
      · simp [parse, hfirst, hcompleteDry, hcomplete, hargumentsDry]
      · simpa [GivenArguments.arguments] using hapart.first
    · cases h

end Parse

end Wiring
