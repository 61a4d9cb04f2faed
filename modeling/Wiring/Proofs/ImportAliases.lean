import Wiring.Proofs.SpelledLines

/-!
The aliases of a table of imports, over calls of any kind in any order. A call meets at most one
path, and a path that is new comes last, so that the calls answer with places among the paths that
were met first (`calls_eq`); these places never change. The table may therefore as well be held as a
map of numbers beside the paths in order, which stay in step (`InStep.call`).
-/
namespace Wiring

namespace ImportTable

/-- What a table is asked for: the alias of a path, or the name of a type. -/
inductive Call where
  | aliased (path : String)
  | qualified (i : Identity)
deriving DecidableEq, Repr

/-- The path that a call meets. A type without a path meets none. -/
def Call.path? : Call → Option String
  | aliased path => some path
  | qualified i => if i.path = "" then none else some i.path

/-- The answer to a call where these paths have been met. -/
def Call.answer (paths : List String) : Call → String
  | aliased path => aliasName (paths.idxOf path + 1)
  | qualified i => i.spelled paths

/-- The answer to a call, and the table after it. -/
def call (t : ImportTable) : Call → String × ImportTable
  | .aliased path => t.aliasFor path
  | .qualified i => t.qualify i

/-- One call after another: all answers, and what is left in the end. -/
def inTurn {σ : Type} (call : σ → Call → String × σ) : σ → List Call → List String × σ
  | t, [] => ([], t)
  | t, q :: qs => ((call t q).1 :: (inTurn call (call t q).2 qs).1, (inTurn call (call t q).2 qs).2)

/-- The answers to calls on a new table. -/
def answers (qs : List Call) : List String :=
  (inTurn call empty qs).1

/-- The table after calls on a new one. -/
def after (qs : List Call) : ImportTable :=
  (inTurn call empty qs).2

/-- The paths that calls meet, each where it comes first. -/
def encountered (qs : List Call) : List String :=
  (qs.filterMap Call.path?).eraseDups

/-- The number that a path has been given. -/
structure Numbered where
  path : String
  number : Nat
deriving DecidableEq, Repr

instance : Keyed Numbered String where
  key := Numbered.path

/-- A table held as the numbers of paths, to look them up, and the paths in order. -/
structure Indexed where
  numbers : Table Numbered := .empty
  order : List String := []

namespace Indexed

/-- The next number is worked out beforehand, and given to a path that has none. -/
def aliasFor (x : Indexed) (path : String) : String × Indexed :=
  let next := x.order.length + 1
  match x.numbers.find? path with
  | some e => (aliasName e.number, x)
  | none =>
    (aliasName next,
      { numbers := x.numbers.insert ⟨path, next⟩, order := x.order ++ [path] })

def call (x : Indexed) : Call → String × Indexed
  | .aliased path => x.aliasFor path
  | .qualified i =>
    if i.path = "" then (i.name, x)
    else ((x.aliasFor i.path).1 ++ "::" ++ i.name, (x.aliasFor i.path).2)

def render (x : Indexed) : String :=
  String.join ((x.order.zipIdx 1).map fun (path, n) => useLine n path)

end Indexed

/-- The map and the list hold the paths of `t`, numbered by their places. -/
structure InStep (x : Indexed) (t : ImportTable) : Prop where
  order : x.order = t.paths
  numbers : ∀ path, x.numbers.find? path =
    if path ∈ t.paths then some ⟨path, t.paths.idxOf path + 1⟩ else none

/-- What calls on a new table have answered, and the table that they leave. -/
structure Aliased (qs : List Call) (answers : List String) (t : ImportTable) : Prop where
  length : answers.length = qs.length
  nodup : (encountered qs).Nodup
  mem_encountered : ∀ path, path ∈ encountered qs ↔
    Call.aliased path ∈ qs ∨ path ≠ "" ∧ ∃ i, Call.qualified i ∈ qs ∧ i.path = path
  /-- A path is numbered by its place among the paths that are met. -/
  aliased : ∀ (k : Nat) path, qs[k]? = some (.aliased path) → path ∈ encountered qs ∧
    answers[k]? = some ("di_import_" ++ toString ((encountered qs).idxOf path + 1))
  qualified : ∀ (k : Nat) i, qs[k]? = some (.qualified i) → i.path ≠ "" → i.path ∈ encountered qs ∧
    answers[k]? =
      some ("di_import_" ++ toString ((encountered qs).idxOf i.path + 1) ++ "::" ++ i.name)
  pathless : ∀ (k : Nat) i, qs[k]? = some (.qualified i) → i.path = "" →
    answers[k]? = some i.name ∧ after (qs.take (k + 1)) = after (qs.take k)
  /-- Paths are told apart by their aliases. -/
  distinct : ∀ path ∈ encountered qs, ∀ other ∈ encountered qs,
    (t.aliasFor path).1 = (t.aliasFor other).1 ↔ path = other
  /-- Further calls leave the aliases as they are. -/
  stable : ∀ qs' path, path ∈ encountered qs →
    ((after (qs ++ qs')).aliasFor path).1 = (t.aliasFor path).1
  /-- A line binds the alias that the table gives to its path. -/
  render : ∃ lines : List String, t.render = String.join lines ∧
    lines.length = (encountered qs).length ∧ ∀ k path, (encountered qs)[k]? = some path →
      lines[k]? = some ("use " ++ path ++ " as " ++ (t.aliasFor path).1 ++ ";\n") ∧
        t.aliasFor path = ("di_import_" ++ toString (k + 1), t)
  indexed : ∃ x, inTurn Indexed.call {} qs = (answers, x) ∧ InStep x t ∧ x.render = t.render

section Calls

variable {t : ImportTable} {x : Indexed} {qs : List Call} {q : Call} {path : String}

theorem inTurn_append {σ : Type} (call : σ → Call → String × σ) (s : σ) (qs qs' : List Call) :
    inTurn call s (qs ++ qs') =
      ((inTurn call s qs).1 ++ (inTurn call (inTurn call s qs).2 qs').1,
        (inTurn call (inTurn call s qs).2 qs').2) := by
  induction qs generalizing s with
  | nil => rfl
  | cons q qs ih => simp [inTurn, ih]

theorem nodup_encountered (qs : List Call) : (encountered qs).Nodup :=
  nodup_eraseDups _

theorem prefix_encountered_append (qs qs' : List Call) :
    encountered qs <+: encountered (qs ++ qs') := by
  rw [encountered, encountered, List.filterMap_append, List.eraseDups_append]
  exact List.prefix_append _ _

theorem mem_encountered_iff : path ∈ encountered qs ↔ ∃ q ∈ qs, q.path? = some path := by
  rw [encountered, List.mem_eraseDups, List.mem_filterMap]

theorem Call.path?_eq_some_iff : q.path? = some path ↔
    q = .aliased path ∨ path ≠ "" ∧ ∃ i, q = .qualified i ∧ i.path = path := by
  cases q with
  | aliased p => simp [path?]
  | qualified i =>
    by_cases hi : i.path = ""
    · simp only [path?, hi, if_true, reduceCtorEq, false_or, false_iff, not_and]
      rintro hpath ⟨j, hj, rfl⟩
      cases hj
      exact hpath hi
    · simp only [path?, hi, if_false, Option.some.injEq, reduceCtorEq, false_or]
      constructor
      · rintro rfl
        exact ⟨hi, i, rfl, rfl⟩
      · rintro ⟨-, j, hj, rfl⟩
        cases hj
        rfl

/-- A path that is new comes last. -/
theorem paths_meet (h : t.paths = encountered qs) (hq : q.path? = some path) :
    (t.meet path).paths = encountered (qs ++ [q]) := by
  have hsnoc : encountered (qs ++ [q]) =
      encountered qs ++ if path ∈ encountered qs then [] else [path] := by
    simp [encountered, hq, eraseDups_concat]
  rw [hsnoc, ← h]
  unfold meet
  split <;> simp_all

theorem paths_call (h : t.paths = encountered qs) (q : Call) :
    (t.call q).2.paths = encountered (qs ++ [q]) := by
  cases q with
  | aliased path => exact paths_meet h rfl
  | qualified i =>
    by_cases hi : i.path = ""
    · simp [call, ImportTable.qualify, encountered, Call.path?, hi, h]
    · have hpath : (Call.qualified i).path? = some i.path := if_neg hi
      simpa [call, ImportTable.qualify, hi] using paths_meet h hpath

/-- A call answers with the paths that have been met by then. -/
theorem answer_call (t : ImportTable) (q : Call) :
    (t.call q).1 = q.answer (t.call q).2.paths := by
  cases q with
  | aliased path => rfl
  | qualified i =>
    change (t.qualify i).1 = i.spelled (t.qualify i).2.paths
    unfold ImportTable.qualify Identity.spelled
    split <;> rfl

/-- Further paths leave an answer as it is. -/
theorem Call.answer_of_prefix {paths paths' : List String} (h : paths <+: paths')
    (hq : ∀ path, q.path? = some path → path ∈ paths) : q.answer paths' = q.answer paths := by
  cases q with
  | aliased path => exact congrArg (fun n => aliasName (n + 1)) (h.idxOf_eq_of_mem (hq path rfl)).symm
  | qualified i => exact Identity.spelled_of_further h fun hi => hq i.path (if_neg hi)

/-- Calls answer with the places among all paths that are met, before or after. -/
theorem inTurn_call {before : List Call} (h : t.paths = encountered before) (qs : List Call) :
    (inTurn call t qs).2.paths = encountered (before ++ qs) ∧
      (inTurn call t qs).1 = qs.map (Call.answer (encountered (before ++ qs))) := by
  induction qs generalizing t before with
  | nil => simpa [inTurn] using h
  | cons q qs ih =>
    have hstep := paths_call h q
    obtain ⟨hpaths, hanswers⟩ := ih hstep
    rw [List.append_assoc, List.singleton_append] at hpaths hanswers
    have hfirst : (t.call q).1 = q.answer (encountered (before ++ q :: qs)) := by
      rw [answer_call, hstep]
      have hprefix := prefix_encountered_append (before ++ [q]) qs
      rw [List.append_assoc, List.singleton_append] at hprefix
      refine (Call.answer_of_prefix hprefix fun path hq => ?_).symm
      exact mem_encountered_iff.mpr ⟨q, by simp, hq⟩
    exact ⟨hpaths, by rw [inTurn, List.map_cons, hfirst, hanswers]⟩

theorem paths_empty_eq_encountered : empty.paths = encountered [] := rfl

theorem paths_after (qs : List Call) : (after qs).paths = encountered qs :=
  (inTurn_call paths_empty_eq_encountered qs).1

theorem calls_eq (qs : List Call) : answers qs = qs.map (Call.answer (encountered qs)) :=
  (inTurn_call paths_empty_eq_encountered qs).2

theorem aliasFor_of_mem (h : path ∈ t.paths) :
    t.aliasFor path = (aliasName (t.paths.idxOf path + 1), t) := by
  simp [aliasFor, meet, h, aliasOf]

/-- A call without a path leaves the table as it is. -/
theorem after_of_pathless {k : Nat} {i : Identity} (h : qs[k]? = some (Call.qualified i))
    (hi : i.path = "") : after (qs.take (k + 1)) = after (qs.take k) := by
  rw [List.take_add_one, h, Option.toList_some, after, inTurn_append]
  simp [inTurn, call, ImportTable.qualify, hi, after]

end Calls

section Indexed

variable {t : ImportTable} {x : Indexed}

theorem inStep_empty : InStep {} empty where
  order := rfl
  numbers _ := rfl

theorem InStep.aliasFor (h : InStep x t) (path : String) :
    (x.aliasFor path).1 = (t.aliasFor path).1 ∧
      InStep (x.aliasFor path).2 (t.aliasFor path).2 := by
  by_cases hpath : path ∈ t.paths
  · have hfind : x.numbers.find? path = some ⟨path, t.paths.idxOf path + 1⟩ := by
      rw [h.numbers, if_pos hpath]
    have hknown : x.aliasFor path = (aliasName (t.paths.idxOf path + 1), x) := by
      simp [Indexed.aliasFor, hfind]
    rw [aliasFor_of_mem hpath, hknown]
    exact ⟨rfl, h⟩
  · have hfind : x.numbers.find? path = none := by rw [h.numbers, if_neg hpath]
    have hlast : (t.paths ++ [path]).idxOf path = t.paths.length := by
      simp [List.idxOf_append, hpath]
    have hnew : t.aliasFor path =
        (aliasName (t.paths.length + 1), { paths := t.paths ++ [path] }) := by
      simp [ImportTable.aliasFor, meet, aliasOf, hpath, hlast]
    have hentry : x.aliasFor path = (aliasName (t.paths.length + 1),
        { numbers := x.numbers.insert ⟨path, t.paths.length + 1⟩, order := t.paths ++ [path] }) := by
      simp [Indexed.aliasFor, hfind, h.order]
    rw [hnew, hentry]
    refine ⟨rfl, rfl, fun other => ?_⟩
    rw [Table.find?_insert]
    by_cases hother : path = other
    · subst hother
      simp [key, hlast]
    · have hold : (t.paths ++ [path]).idxOf other =
          if other ∈ t.paths then t.paths.idxOf other else [path].idxOf other + t.paths.length :=
        List.idxOf_append
      by_cases hmem : other ∈ t.paths
      · simp [key, hother, h.numbers, hmem, hold]
      · simp [key, hother, Ne.symm hother, h.numbers, hmem]

theorem InStep.call (h : InStep x t) (q : Call) :
    (x.call q).1 = (t.call q).1 ∧ InStep (x.call q).2 (t.call q).2 := by
  cases q with
  | aliased path => exact h.aliasFor path
  | qualified i =>
    by_cases hi : i.path = ""
    · simpa [Indexed.call, ImportTable.call, qualify, hi] using h
    · obtain ⟨hanswer, hstep⟩ := h.aliasFor i.path
      simp only [Indexed.call, ImportTable.call, qualify, if_neg hi, hanswer]
      exact ⟨rfl, hstep⟩

theorem InStep.inTurn (h : InStep x t) (qs : List Call) :
    (ImportTable.inTurn Indexed.call x qs).1 = (ImportTable.inTurn ImportTable.call t qs).1 ∧
      InStep (ImportTable.inTurn Indexed.call x qs).2
        (ImportTable.inTurn ImportTable.call t qs).2 := by
  induction qs generalizing x t with
  | nil => exact ⟨rfl, h⟩
  | cons q qs ih =>
    obtain ⟨hanswer, hstep⟩ := h.call q
    obtain ⟨hanswers, hrest⟩ := ih hstep
    exact ⟨congrArg₂ List.cons hanswer hanswers, hrest⟩

theorem InStep.render (h : InStep x t) : x.render = t.render := by
  rw [Indexed.render, h.order, ImportTable.render]

end Indexed

/-- Aliases are numbered in the order in which paths are first met, whatever is called and in
whatever order. -/
theorem calls_aliased (qs : List Call) : Aliased qs (answers qs) (after qs) where
  length := by rw [calls_eq, List.length_map]
  nodup := nodup_encountered qs
  mem_encountered path := by
    simp only [mem_encountered_iff, Call.path?_eq_some_iff]
    constructor
    · rintro ⟨q, hq, rfl | ⟨hpath, i, rfl, hi⟩⟩
      · exact .inl hq
      · exact .inr ⟨hpath, i, hq, hi⟩
    · rintro (hq | ⟨hpath, i, hq, hi⟩)
      · exact ⟨_, hq, .inl rfl⟩
      · exact ⟨_, hq, .inr ⟨hpath, i, rfl, hi⟩⟩
  aliased k path h := by
    have hmem : Call.aliased path ∈ qs := List.mem_of_getElem? h
    refine ⟨mem_encountered_iff.mpr ⟨_, hmem, rfl⟩, ?_⟩
    rw [calls_eq, List.getElem?_map, h]
    rfl
  qualified k i h hi := by
    have hmem : Call.qualified i ∈ qs := List.mem_of_getElem? h
    refine ⟨mem_encountered_iff.mpr ⟨_, hmem, if_neg hi⟩, ?_⟩
    rw [calls_eq, List.getElem?_map, h]
    simp [Call.answer, Identity.spelled, hi, aliasName]
  pathless k i h hi := by
    refine ⟨?_, after_of_pathless h hi⟩
    rw [calls_eq, List.getElem?_map, h]
    simp [Call.answer, Identity.spelled, hi]
  distinct path hpath other hother := by
    rw [← paths_after] at hpath hother
    rw [aliasFor_of_mem hpath, aliasFor_of_mem hother, aliasName_inj, Nat.succ_inj]
    exact List.idxOf_inj hpath
  stable qs' path hpath := by
    have hprefix := prefix_encountered_append qs qs'
    have hlater : path ∈ (after (qs ++ qs')).paths := paths_after _ ▸ hprefix.subset hpath
    rw [aliasFor_of_mem hlater, aliasFor_of_mem (paths_after qs ▸ hpath), paths_after, paths_after,
      hprefix.idxOf_eq_of_mem hpath]
  render := by
    refine ⟨_, rfl, by simp [paths_after], fun k path hk => ?_⟩
    have hpath : path ∈ (after qs).paths := paths_after qs ▸ List.mem_of_getElem? hk
    have hplace : (encountered qs).idxOf path = k := by
      obtain ⟨hlt, rfl⟩ := List.getElem?_eq_some_iff.mp hk
      exact (nodup_encountered qs).idxOf_getElem k hlt
    rw [aliasFor_of_mem hpath, paths_after, hplace]
    simp [hk, useLine, aliasName, Nat.add_comm]
  indexed := by
    obtain ⟨hanswers, hstep⟩ := inStep_empty.inTurn qs
    exact ⟨_, Prod.ext hanswers rfl, hstep, hstep.render⟩

example : answers [.aliased "crate::db", .qualified ⟨"", "String"⟩, .qualified ⟨"crate::app", "App"⟩,
    .qualified ⟨"crate::db", "Store"⟩] =
      ["di_import_1", "String", "di_import_2::App", "di_import_1::Store"] := by
  decide

end ImportTable

end Wiring
