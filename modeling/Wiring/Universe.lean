import Wiring.Decl

/-!
A universe holds the declarations that wiring may refer to, at most one for each
identity, and may name a root package.
-/
namespace Wiring

structure Universe where
  rootPackage : Option String := none
  types : Table Decl := .empty
deriving DecidableEq, Inhabited

/-- An identity for which a second declaration was given. -/
structure DuplicateType where
  identity : Identity
deriving DecidableEq, Repr

def DuplicateType.message (e : DuplicateType) : String :=
  "type '" ++ e.identity.display ++ "' is declared more than once"

namespace Universe

def empty : Universe := {}

def withRootPackage (u : Universe) (package : String) : Universe :=
  { u with rootPackage := some package }

/-- Add a declaration whose identity is still free. -/
def insert (u : Universe) (d : Decl) : Except DuplicateType Universe :=
  match u.types.insertNew? d with
  | some types => .ok { u with types }
  | none => .error ⟨d.identity⟩

/-- Add declarations in order, up to the first whose identity is taken. -/
def insertAll (u : Universe) : List Decl → Except DuplicateType Universe
  | [] => .ok u
  | d :: ds =>
    match u.insert d with
    | .ok u => u.insertAll ds
    | .error e => .error e

def ofDecls (rootPackage : Option String) (decls : List Decl) : Except DuplicateType Universe :=
  insertAll { rootPackage } decls

def lookup (u : Universe) (i : Identity) : Option Decl :=
  u.types.find? i

def find (u : Universe) (package name : String) : Option Decl :=
  u.lookup ⟨package, name⟩

def size (u : Universe) : Nat :=
  u.types.size

/-- The declarations in the order of their identities. -/
def decls (u : Universe) : List Decl :=
  u.types.toList

def declaresInterface (u : Universe) (i : Identity) : Bool :=
  match u.lookup i with
  | some d => d.isInterface
  | none => false

def declaresStruct (u : Universe) (i : Identity) : Bool :=
  match u.lookup i with
  | some d => d.isStruct
  | none => false

theorem identity_of_lookup {u : Universe} {i : Identity} {d : Decl} (h : u.lookup i = some d) :
    d.identity = i :=
  Table.key_of_find? h

theorem declaresInterface_iff {u : Universe} {i : Identity} :
    u.declaresInterface i = true ↔ ∃ d, u.lookup i = some d ∧ d.isInterface = true := by
  unfold declaresInterface
  cases u.lookup i <;> simp

theorem declaresStruct_iff {u : Universe} {i : Identity} :
    u.declaresStruct i = true ↔ ∃ d, u.lookup i = some d ∧ d.isStruct = true := by
  unfold declaresStruct
  cases u.lookup i <;> simp

/-- Insertion fails exactly on an identity that is declared already. -/
theorem insert_eq_error_iff {u : Universe} {d : Decl} {e : DuplicateType} :
    u.insert d = .error e ↔ (u.lookup d.identity).isSome ∧ e = ⟨d.identity⟩ := by
  unfold insert
  split
  · next types h =>
    have hfree : (u.lookup d.identity).isSome = false := (Table.insertNew?_eq_some_iff.mp h).1
    simp [hfree]
  · next h =>
    have htaken : (u.lookup d.identity).isSome = true := Table.insertNew?_eq_none_iff.mp h
    simp [htaken, @eq_comm _ e]

/-- A declaration of an identity that is free is inserted. -/
theorem insert_of_free {u : Universe} {d : Decl} (h : u.lookup d.identity = none) :
    u.insert d = .ok { u with types := u.types.insert d } := by
  have hfree : u.types.find? (Keyed.key d) = none := h
  have hnew : u.types.insertNew? d = some (u.types.insert d) :=
    Table.insertNew?_eq_some_iff.mpr ⟨by simp [Table.contains, hfree], rfl⟩
  rw [insert, hnew]

theorem lookup_insert (u : Universe) (d : Decl) (i : Identity) :
    { u with types := u.types.insert d }.lookup i =
      if d.identity = i then some d else u.lookup i :=
  Table.find?_insert ..

/-- Nothing is declared but what was declared already and what is inserted. -/
theorem of_insertAll_eq_ok {u u' : Universe} {ds : List Decl} (h : u.insertAll ds = .ok u') :
    u'.rootPackage = u.rootPackage ∧ ∀ d ∈ u'.decls, d ∈ ds ∨ d ∈ u.decls := by
  induction ds generalizing u with
  | nil =>
    cases h
    exact ⟨rfl, fun d hd => .inr hd⟩
  | cons d ds ih =>
    rw [insertAll] at h
    split at h
    · next v hv =>
      unfold insert at hv
      split at hv
      · next types htypes =>
        cases hv
        obtain ⟨-, rfl⟩ := Table.insertNew?_eq_some_iff.mp htypes
        obtain ⟨hroot, hmem⟩ := ih h
        refine ⟨hroot, fun e he => ?_⟩
        rcases hmem e he with he | he
        · exact .inl (List.mem_cons_of_mem d he)
        · rcases Table.mem_insertSorted he with rfl | he
          · exact .inl List.mem_cons_self
          · exact .inr he
      · cases hv
    · cases h

/-- Declarations of distinct identities that are all free are inserted one by one. -/
theorem insertAll_of_free {u : Universe} {ds : List Decl} (hds : (ds.map Decl.identity).Nodup)
    (hfree : ∀ d ∈ ds, u.lookup d.identity = none) :
    u.insertAll ds = .ok { u with types := ds.foldl Table.insert u.types } := by
  induction ds generalizing u with
  | nil => rfl
  | cons d ds ih =>
    obtain ⟨hd, hds⟩ := List.nodup_cons.mp hds
    obtain ⟨hfind, hrest⟩ := List.forall_mem_cons.mp hfree
    rw [insertAll, insert_of_free hfind]
    refine ih hds fun e he => ?_
    have hne : d.identity ≠ e.identity := fun heq =>
      hd (List.mem_map.mpr ⟨e, he, heq.symm⟩)
    rw [lookup_insert, if_neg hne]
    exact hrest e he

/-- A universe can be built again from its declarations. -/
theorem ofDecls_decls (u : Universe) : ofDecls u.rootPackage u.decls = .ok u := by
  have hnodup : (u.decls.map Decl.identity).Nodup := u.types.nodup_keys
  have htypes : Table.ofList u.decls = u.types := by
    refine Table.ext_find? fun k => Option.ext fun d => ?_
    rw [Table.find?_eq_some_iff, Table.find?_eq_some_iff, Table.mem_ofList_iff hnodup]
    rfl
  have hfold : u.decls.foldl Table.insert .empty = u.types := htypes
  rw [ofDecls, insertAll_of_free hnodup fun _ _ => rfl, hfold]

end Universe

end Wiring
