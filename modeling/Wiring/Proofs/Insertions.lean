import Mathlib.Data.List.Induction
import Wiring.Universe.Decoding
import Wiring.Universe.Encoding

/-!
Insertions into a universe, in any number and in any order of success and failure. One insertion
either adds a declaration or leaves everything as it is, and from this step follows what a whole
sequence leaves: under every identity the declaration that came first (`insertions_faithful`).
Loading a list of declarations stops at the first insertion that fails, which is that of the first
identity that comes again, so that the order of the list does not matter for what is loaded.
-/
namespace Wiring

namespace Universe

open Json (Draft)

/-- Insertion in place. Nothing is changed before it is known that the identity is free. -/
def insertInPlace (d : Decl) : ExceptT DuplicateType (StateM Universe) Unit := do
  if ((← get).lookup d.identity).isSome then throw ⟨d.identity⟩
  modify fun u => { u with types := u.types.insert d }

/-- What an insertion answers, and the universe after it. -/
def attempt (u : Universe) (d : Decl) : Except DuplicateType Unit × Universe :=
  (insertInPlace d).run.run u

/-- One insertion after another, whatever the earlier ones have answered. -/
def attempts (u : Universe) : List Decl → List (Except DuplicateType Unit) × Universe
  | [] => ([], u)
  | d :: ds =>
    let (answer, v) := u.attempt d
    let (answers, w) := v.attempts ds
    (answer :: answers, w)

/-- The universe after a sequence of insertions. -/
def after (u : Universe) (ds : List Decl) : Universe :=
  (u.attempts ds).2

/-- What a sequence of insertions into `u` answers, and the universe `v` that it leaves. -/
structure Inserted (u : Universe) (ds : List Decl) (answers : List (Except DuplicateType Unit))
    (v : Universe) : Prop where
  length : answers.length = ds.length
  /-- An insertion fails exactly on an identity that is there already. -/
  answer : ∀ k d, ds[k]? = some d → answers[k]? =
    some (if ((u.after (ds.take k)).lookup d.identity).isSome then .error ⟨d.identity⟩ else .ok ())
  unchanged : ∀ k e, answers[k]? = some (.error e) → u.after (ds.take (k + 1)) = u.after (ds.take k)
  rootPackage : v.rootPackage = u.rootPackage
  lookup : ∀ i, v.lookup i = (u.lookup i).or (ds.find? fun d => d.identity = i)
  size : v.size = u.size + answers.countP Except.isOk
  decls : ∀ d, d ∈ v.decls ↔ v.lookup d.identity = some d
  increasing : v.decls.Pairwise fun d e => d.identity.path < e.identity.path ∨
    d.identity.path = e.identity.path ∧ d.identity.name < e.identity.name

/-- The first declaration in a list whose identity an earlier one has. -/
def FirstRepeat (ds : List Decl) (d : Decl) : Prop :=
  ∃ before after, ds = before ++ d :: after ∧ (before.map Decl.identity).Nodup ∧
    d.identity ∈ before.map Decl.identity

/-- Loading `ds` fails at the first identity that comes again, and otherwise it is the insertion of
one declaration after another. The order of the list does not matter for what is loaded. -/
structure Loads (root : Option String) (ds : List Decl) : Prop where
  fails : (∃ e, ofDecls root ds = .error e) ↔ ¬ (ds.map Decl.identity).Nodup
  first : ∀ e, ofDecls root ds = .error e ↔ ∃ d, FirstRepeat ds d ∧ e = ⟨d.identity⟩
  holds : ∀ v, ofDecls root ds = .ok v → v = ({ rootPackage := root } : Universe).after ds
  perm : ∀ ds', ds.Perm ds' →
    (∃ e e', ofDecls root ds = .error e ∧ ofDecls root ds' = .error e') ∨
      ∃ v v', ofDecls root ds = .ok v ∧ ofDecls root ds' = .ok v' ∧ v = v' ∧ v.text = v'.text
  /-- The text of a file that holds `ds` is refused for the same reason. -/
  file : ∀ s draft trailing, Draft.ofChars s.toList = (draft, trailing) →
    File.ofDraft draft = .ok ⟨root, ds⟩ →
      ∀ e, ofText s = .error (.duplicate e) ↔ ofDecls root ds = .error e

section Attempts

variable {u v : Universe} {d : Decl} {ds : List Decl}

theorem attempt_eq (u : Universe) (d : Decl) : u.attempt d =
    if (u.lookup d.identity).isSome then (.error ⟨d.identity⟩, u)
    else (.ok (), { u with types := u.types.insert d }) := by
  have hread : u.attempt d =
      ((if (u.lookup d.identity).isSome then throw ⟨d.identity⟩
        else modify fun u => { u with types := u.types.insert d } :
          ExceptT DuplicateType (StateM Universe) Unit).run.run u) := rfl
  rw [hread]
  split <;> rfl

/-- Insertion in place does what insertion does, and keeps the universe if that fails. -/
theorem attempt_eq_insert (u : Universe) (d : Decl) : u.attempt d =
    match u.insert d with
    | .ok v => (.ok (), v)
    | .error e => (.error e, u) := by
  rw [attempt_eq]
  split
  · next h => rw [insert_eq_error_iff.mpr ⟨h, rfl⟩]
  · next h =>
    have hfree : u.lookup d.identity = none := by simpa using h
    rw [insert_of_free hfree]

theorem lookup_attempt (u : Universe) (d : Decl) (i : Identity) :
    (u.attempt d).2.lookup i = (u.lookup i).or (if d.identity = i then some d else none) := by
  rw [attempt_eq]
  by_cases hi : d.identity = i
  · subst hi
    cases h : u.lookup d.identity with
    | none => simp [lookup_insert]
    | some e => simp [h]
  · cases h : u.lookup d.identity with
    | none => simp [lookup_insert, hi]
    | some e => simp [hi]

theorem rootPackage_attempt (u : Universe) (d : Decl) :
    (u.attempt d).2.rootPackage = u.rootPackage := by
  rw [attempt_eq]
  split <;> rfl

theorem size_attempt (u : Universe) (d : Decl) :
    (u.attempt d).2.size = u.size + if (u.attempt d).1.isOk then 1 else 0 := by
  rw [attempt_eq]
  split
  · rfl
  · next h =>
    have hfree : u.lookup d.identity = none := by simpa using h
    exact Table.size_insert_of_new hfree

@[simp] theorem after_nil (u : Universe) : u.after [] = u := rfl

@[simp] theorem after_cons (u : Universe) (d : Decl) (ds : List Decl) :
    u.after (d :: ds) = (u.attempt d).2.after ds := rfl

theorem after_append (u : Universe) (ds es : List Decl) :
    u.after (ds ++ es) = (u.after ds).after es := by
  induction ds generalizing u with
  | nil => rfl
  | cons d ds ih => exact ih _

theorem answers_cons (u : Universe) (d : Decl) (ds : List Decl) :
    (u.attempts (d :: ds)).1 = (u.attempt d).1 :: ((u.attempt d).2.attempts ds).1 := rfl

theorem rootPackage_after (u : Universe) (ds : List Decl) :
    (u.after ds).rootPackage = u.rootPackage := by
  induction ds generalizing u with
  | nil => rfl
  | cons d ds ih => rw [after_cons, ih, rootPackage_attempt]

/-- What is found under an identity is what came first. -/
theorem lookup_after (u : Universe) (ds : List Decl) (i : Identity) :
    (u.after ds).lookup i = (u.lookup i).or (ds.find? fun d => d.identity = i) := by
  induction ds generalizing u with
  | nil => simp
  | cons d ds ih =>
    rw [after_cons, ih, lookup_attempt, Option.or_assoc]
    by_cases hi : d.identity = i <;> simp [hi]

theorem length_answers (u : Universe) (ds : List Decl) :
    (u.attempts ds).1.length = ds.length := by
  induction ds generalizing u with
  | nil => rfl
  | cons d ds ih => rw [answers_cons, List.length_cons, ih, List.length_cons]

/-- An insertion answers as it does on the universe that the earlier ones leave. -/
theorem answers_getElem? (u : Universe) (ds : List Decl) (k : Nat) :
    (u.attempts ds).1[k]? = ds[k]?.map fun d => ((u.after (ds.take k)).attempt d).1 := by
  induction ds generalizing u k with
  | nil => rfl
  | cons d ds ih =>
    rw [answers_cons]
    cases k with
    | zero => rfl
    | succ k => simpa using ih (u.attempt d).2 k

theorem size_after (u : Universe) (ds : List Decl) :
    (u.after ds).size = u.size + (u.attempts ds).1.countP Except.isOk := by
  induction ds generalizing u with
  | nil => rfl
  | cons d ds ih =>
    rw [after_cons, ih, size_attempt, answers_cons, List.countP_cons]
    omega

theorem mem_decls_iff : d ∈ v.decls ↔ v.lookup d.identity = some d :=
  (Table.find?_eq_some_iff.trans (and_iff_left rfl)).symm

theorem inserted (u : Universe) (ds : List Decl) :
    u.Inserted ds (u.attempts ds).1 (u.after ds) where
  length := length_answers u ds
  answer k d hd := by
    rw [answers_getElem?, hd, Option.map_some, attempt_eq]
    split <;> rfl
  unchanged k e he := by
    rw [answers_getElem?, Option.map_eq_some_iff] at he
    obtain ⟨d, hd, hfail⟩ := he
    rw [List.take_add_one, hd, Option.toList_some, after_append, after_cons, after_nil]
    rw [attempt_eq] at hfail ⊢
    split at hfail
    · next h => rw [if_pos h]
    · cases hfail
  rootPackage := rootPackage_after u ds
  lookup := lookup_after u ds
  size := size_after u ds
  decls _ := mem_decls_iff
  increasing := (u.after ds).types.increasing

end Attempts

section Loading

variable {u v : Universe} {root : Option String} {ds ds' : List Decl} {e : DuplicateType}

theorem insertAll_append (u : Universe) (ds ds' : List Decl) :
    u.insertAll (ds ++ ds') = (u.insertAll ds).bind fun v => v.insertAll ds' := by
  induction ds generalizing u with
  | nil => rfl
  | cons d ds ih =>
    rw [List.cons_append, insertAll, insertAll]
    cases u.insert d with
    | error e => rfl
    | ok v => exact ih v

/-- If no insertion of a list fails, then all are made. -/
theorem eq_after_of_insertAll (h : u.insertAll ds = .ok v) : v = u.after ds := by
  induction ds generalizing u with
  | nil =>
    cases h
    rfl
  | cons d ds ih =>
    rw [insertAll] at h
    rw [after_cons, attempt_eq_insert]
    cases hd : u.insert d with
    | error e => simp [hd] at h
    | ok w =>
      rw [hd] at h
      exact ih h

theorem insertAll_of_new (hfree : ∀ d ∈ ds, u.lookup d.identity = none)
    (hds : (ds.map Decl.identity).Nodup) : u.insertAll ds = .ok (u.after ds) := by
  have hok := insertAll_of_free hds hfree
  rw [hok, ← eq_after_of_insertAll hok]

/-- The insertion of a list fails at the first declaration whose identity is taken, by the universe
or by an earlier declaration. -/
theorem insertAll_eq_error_iff : u.insertAll ds = .error e ↔ ∃ before d after,
    ds = before ++ d :: after ∧ (∀ b ∈ before, u.lookup b.identity = none) ∧
      (before.map Decl.identity).Nodup ∧
      ((u.lookup d.identity).isSome ∨ d.identity ∈ before.map Decl.identity) ∧
      e = ⟨d.identity⟩ := by
  constructor
  · intro h
    induction ds generalizing u with
    | nil => cases h
    | cons d ds ih =>
      rw [insertAll] at h
      cases hd : u.lookup d.identity with
      | some x =>
        rw [insert_eq_error_iff.mpr ⟨by simp [hd], rfl⟩] at h
        cases h
        exact ⟨[], d, ds, rfl, List.forall_mem_nil _, .nil, .inl (by simp [hd]), rfl⟩
      | none =>
        rw [insert_of_free hd] at h
        obtain ⟨before, x, after, rfl, hfree, hnodup, hx, rfl⟩ := ih h
        simp only [lookup_insert] at hfree hx
        have hne : ∀ b ∈ before, d.identity ≠ b.identity := by
          intro b hb heq
          simpa [heq] using hfree b hb
        refine ⟨d :: before, x, after, rfl, List.forall_mem_cons.mpr ⟨hd, fun b hb => ?_⟩,
          List.nodup_cons.mpr ⟨fun hmem => ?_, hnodup⟩, ?_, rfl⟩
        · simpa [hne b hb] using hfree b hb
        · obtain ⟨b, hb, heq⟩ := List.mem_map.mp hmem
          exact hne b hb heq.symm
        · rw [List.map_cons, List.mem_cons]
          by_cases hdx : d.identity = x.identity
          · exact .inr (.inl hdx.symm)
          · rw [if_neg hdx] at hx
            exact hx.imp_right .inr
  · rintro ⟨before, d, after, rfl, hfree, hnodup, hd, rfl⟩
    have htaken : ((u.after before).lookup d.identity).isSome = true := by
      rw [lookup_after, Option.isSome_or, Bool.or_eq_true, List.find?_isSome]
      refine hd.imp_right fun hmem => ?_
      obtain ⟨b, hb, heq⟩ := List.mem_map.mp hmem
      exact ⟨b, hb, decide_eq_true heq⟩
    have hfail := insert_eq_error_iff.mpr ⟨htaken, rfl⟩
    rw [insertAll_append, insertAll_of_new hfree hnodup, Except.bind, insertAll, hfail]

theorem ofDecls_eq_error_iff : ofDecls root ds = .error e ↔
    ∃ d, FirstRepeat ds d ∧ e = ⟨d.identity⟩ := by
  rw [ofDecls, insertAll_eq_error_iff]
  constructor
  · rintro ⟨before, d, after, rfl, -, hnodup, hd, rfl⟩
    exact ⟨d, ⟨before, after, rfl, hnodup, hd.resolve_left Bool.false_ne_true⟩, rfl⟩
  · rintro ⟨d, ⟨before, after, rfl, hnodup, hd⟩, rfl⟩
    exact ⟨before, d, after, rfl, fun _ _ => rfl, hnodup, .inr hd, rfl⟩

theorem ofDecls_of_nodup (root : Option String) (h : (ds.map Decl.identity).Nodup) :
    ofDecls root ds = .ok ⟨root, .ofList ds⟩ :=
  insertAll_of_free h fun _ _ => rfl

/-- If an identity comes twice in a list, then there is a first declaration that repeats one. -/
theorem exists_firstRepeat_iff : (∃ d, FirstRepeat ds d) ↔ ¬ (ds.map Decl.identity).Nodup := by
  constructor
  · rintro ⟨d, before, after, rfl, -, hd⟩ hnodup
    rw [List.map_append, List.nodup_append] at hnodup
    exact hnodup.2.2 _ hd _ (by simp) rfl
  · intro hrepeat
    induction ds using List.reverseRecOn with
    | nil => exact absurd List.nodup_nil hrepeat
    | append_singleton ds d ih =>
      by_cases hnodup : (ds.map Decl.identity).Nodup
      · have hd : d.identity ∈ ds.map Decl.identity := by
          by_contra hnew
          refine hrepeat ?_
          rw [List.map_append, List.map_singleton, List.nodup_append]
          refine ⟨hnodup, List.pairwise_singleton _ _, fun i hi j hj heq => hnew ?_⟩
          rwa [← List.mem_singleton.mp hj, ← heq]
        exact ⟨d, ds, [], rfl, hnodup, hd⟩
      · obtain ⟨x, before, after, rfl, hbefore, hx⟩ := ih hnodup
        exact ⟨x, before, after ++ [d], by simp, hbefore, hx⟩

/-- A list is loaded like any other list of its declarations, or neither is loaded. -/
theorem ofDecls_perm (root : Option String) (h : ds.Perm ds') :
    (∃ e e', ofDecls root ds = .error e ∧ ofDecls root ds' = .error e') ∨
      ∃ v, ofDecls root ds = .ok v ∧ ofDecls root ds' = .ok v := by
  have hidentities : (ds.map Decl.identity).Perm (ds'.map Decl.identity) := h.map _
  by_cases hnodup : (ds.map Decl.identity).Nodup
  · have hnodup' : (ds'.map Decl.identity).Nodup := hidentities.nodup_iff.mp hnodup
    have htypes : (Table.ofList ds : Table Decl) = .ofList ds' := by
      refine Table.ext_find? fun i => Option.ext fun d => ?_
      rw [Table.find?_eq_some_iff, Table.find?_eq_some_iff, Table.mem_ofList_iff hnodup,
        Table.mem_ofList_iff hnodup', h.mem_iff]
    refine .inr ⟨_, ofDecls_of_nodup root hnodup, ?_⟩
    rw [ofDecls_of_nodup root hnodup', htypes]
  · have hnodup' : ¬ (ds'.map Decl.identity).Nodup := mt hidentities.nodup_iff.mpr hnodup
    obtain ⟨d, hd⟩ := exists_firstRepeat_iff.mpr hnodup
    obtain ⟨d', hd'⟩ := exists_firstRepeat_iff.mpr hnodup'
    exact .inl ⟨_, _, ofDecls_eq_error_iff.mpr ⟨d, hd, rfl⟩,
      ofDecls_eq_error_iff.mpr ⟨d', hd', rfl⟩⟩

/-- A file is refused as repeating an identity if its list of declarations cannot be loaded. -/
theorem ofText_eq_duplicate_iff {s : String} {draft : Draft} {trailing : Bool} {file : File}
    (hread : Draft.ofChars s.toList = (draft, trailing)) (hfile : File.ofDraft draft = .ok file) :
    ofText s = .error (.duplicate e) ↔ ofDecls file.rootPackage file.types = .error e := by
  cases h : ofDecls file.rootPackage file.types with
  | error e' => simp [ofText, hread, hfile, h, Except.mapError, bind, Except.bind]
  | ok v =>
    cases trailing <;> simp [ofText, hread, hfile, h, Except.mapError, bind, Except.bind, pure,
      Except.pure, throw, throwThe, MonadExceptOf.throw]

theorem loads (root : Option String) (ds : List Decl) : Loads root ds where
  fails := by
    rw [← exists_firstRepeat_iff]
    simp only [ofDecls_eq_error_iff]
    exact ⟨fun ⟨_, d, hd, _⟩ => ⟨d, hd⟩, fun ⟨d, hd⟩ => ⟨_, d, hd, rfl⟩⟩
  first _ := ofDecls_eq_error_iff
  holds _ := eq_after_of_insertAll
  perm _ h := (ofDecls_perm root h).imp_right fun ⟨v, hv, hv'⟩ => ⟨v, v, hv, hv', rfl, rfl⟩
  file _ _ _ hread hfile _ := ofText_eq_duplicate_iff hread hfile

end Loading

/-- A universe holds, under every identity, the declaration that was inserted first, and loading
inserts the declarations of a list. -/
theorem insertions_faithful (u : Universe) (root : Option String) (ds : List Decl) :
    (∀ d, u.attempt d = match u.insert d with
      | .ok v => (.ok (), v)
      | .error e => (.error e, u)) ∧
    u.Inserted ds (u.attempts ds).1 (u.after ds) ∧ Loads root ds :=
  ⟨attempt_eq_insert u, inserted u ds, loads root ds⟩

end Universe

end Wiring
