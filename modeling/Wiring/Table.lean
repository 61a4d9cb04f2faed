/-!
Finite tables of entries in strictly increasing order of a key that every entry
carries itself. A table therefore never holds two entries with one key, and it is
determined by its look-ups: `ext_find?` turns equal answers into equal tables.
-/
namespace Wiring

/-- Entries of type `α` are told apart by a key of type `κ`. -/
class Keyed (α : Type) (κ : outParam Type) where
  key : α → κ

export Keyed (key)

/-- The order of keys is strict and total. -/
class KeyOrder (κ : Type) [LT κ] : Prop where
  irrefl : ∀ a : κ, ¬ a < a
  trans : ∀ {a b c : κ}, a < b → b < c → a < c
  connected : ∀ {a b : κ}, ¬ a < b → ¬ b < a → a = b

instance : KeyOrder String where
  irrefl := String.lt_irrefl
  trans := String.lt_trans
  connected h h' := String.le_antisymm (String.not_lt.mp h') (String.not_lt.mp h)

structure Table (α : Type) {κ : Type} [Keyed α κ] [LT κ] where
  toList : List α
  increasing : toList.Pairwise fun x y => key x < key y

namespace Table

variable {α κ : Type} [Keyed α κ] [LT κ]

def empty : Table α where
  toList := []
  increasing := .nil

instance : EmptyCollection (Table α) where
  emptyCollection := empty

instance : Inhabited (Table α) where
  default := empty

instance [DecidableEq α] : DecidableEq (Table α) := fun t t' =>
  decidable_of_iff (t.toList = t'.toList) <| by
    cases t
    cases t'
    simp

def size (t : Table α) : Nat :=
  t.toList.length

/-- The keys in increasing order. -/
def keys (t : Table α) : List κ :=
  t.toList.map key

def find? [DecidableEq κ] (t : Table α) (k : κ) : Option α :=
  t.toList.find? fun x => key x = k

def contains [DecidableEq κ] (t : Table α) (k : κ) : Bool :=
  (t.find? k).isSome

section Insert

variable [DecidableLT κ] [DecidableEq κ]

/-- Put `x` in its place among `xs`, in place of an entry with the same key. -/
def insertSorted (x : α) : List α → List α
  | [] => [x]
  | y :: ys =>
    if key x < key y then x :: y :: ys
    else if key x = key y then x :: ys
    else y :: insertSorted x ys

theorem mem_insertSorted {x z : α} {ys : List α} (h : z ∈ insertSorted x ys) :
    z = x ∨ z ∈ ys := by
  induction ys with
  | nil => simpa [insertSorted] using h
  | cons y ys ih =>
    simp only [insertSorted] at h
    split at h
    · simpa using h
    · split at h
      · rcases List.mem_cons.mp h with h | h
        · exact .inl h
        · exact .inr (List.mem_cons_of_mem y h)
      · rcases List.mem_cons.mp h with h | h
        · exact .inr (h ▸ List.mem_cons_self)
        · exact (ih h).imp_right (List.mem_cons_of_mem y)

theorem increasing_insertSorted [KeyOrder κ] (x : α) {ys : List α}
    (h : ys.Pairwise fun a b => key a < key b) :
    (insertSorted x ys).Pairwise fun a b => key a < key b := by
  induction ys with
  | nil => simp [insertSorted]
  | cons y ys ih =>
    obtain ⟨hy, hys⟩ := List.pairwise_cons.mp h
    simp only [insertSorted]
    split
    · next hlt =>
      refine List.pairwise_cons.mpr ⟨fun z hz => ?_, h⟩
      rcases List.mem_cons.mp hz with rfl | hz
      · exact hlt
      · exact KeyOrder.trans hlt (hy z hz)
    · next hlt =>
      split
      · next heq => exact List.pairwise_cons.mpr ⟨fun z hz => heq ▸ hy z hz, hys⟩
      · next hne =>
        refine List.pairwise_cons.mpr ⟨fun z hz => ?_, ih hys⟩
        rcases mem_insertSorted hz with rfl | hz
        · exact Decidable.byContradiction fun h' => hne (KeyOrder.connected hlt h')
        · exact hy z hz

/-- Add `x`, in place of the entry with the same key if there is one. -/
def insert [KeyOrder κ] (t : Table α) (x : α) : Table α where
  toList := insertSorted x t.toList
  increasing := increasing_insertSorted x t.increasing

/-- Add `x` only if its key is free. -/
def insertNew? [KeyOrder κ] (t : Table α) (x : α) : Option (Table α) :=
  if t.contains (key x) then none else some (t.insert x)

/-- The table of `xs`; a later entry takes the place of an earlier one with its key. -/
def ofList [KeyOrder κ] (xs : List α) : Table α :=
  xs.foldl insert empty

theorem find?_insertSorted (x : α) (ys : List α) (k : κ) :
    (insertSorted x ys).find? (fun y => key y = k) =
      if key x = k then some x else ys.find? (fun y => key y = k) := by
  induction ys with
  | nil => by_cases h : key x = k <;> simp [insertSorted, h]
  | cons y ys ih =>
    simp only [insertSorted]
    split
    · by_cases h : key x = k <;> simp [h]
    · split
      · next heq => by_cases h : key x = k <;> simp [h, ← heq]
      · next hne =>
        by_cases h : key y = k
        · have hx : key x ≠ k := fun hx => hne (hx.trans h.symm)
          simp [h, hx]
        · simpa [h] using ih

end Insert

@[simp] theorem toList_empty : (empty : Table α).toList = [] := rfl

@[simp] theorem find?_empty [DecidableEq κ] (k : κ) : (empty : Table α).find? k = none := rfl

@[simp] theorem find?_insert [DecidableLT κ] [DecidableEq κ] [KeyOrder κ]
    (t : Table α) (x : α) (k : κ) :
    (t.insert x).find? k = if key x = k then some x else t.find? k :=
  find?_insertSorted x t.toList k

theorem mem_of_mem_ofList [DecidableLT κ] [DecidableEq κ] [KeyOrder κ] {xs : List α} {x : α}
    (h : x ∈ (ofList xs).toList) : x ∈ xs := by
  have hfold : ∀ (ys : List α) (t : Table α), x ∈ (ys.foldl insert t).toList →
      x ∈ ys ∨ x ∈ t.toList := by
    intro ys
    induction ys with
    | nil => exact fun t ht => .inr ht
    | cons y ys ih =>
      intro t ht
      rcases ih (t.insert y) ht with hx | hx
      · exact .inl (List.mem_cons_of_mem y hx)
      · rcases mem_insertSorted hx with rfl | hx
        · exact .inl List.mem_cons_self
        · exact .inr hx
  exact (hfold xs empty h).resolve_right List.not_mem_nil

private theorem length_insertSorted [DecidableLT κ] [DecidableEq κ] {x : α} {ys : List α}
    (h : ∀ y ∈ ys, key y ≠ key x) : (insertSorted x ys).length = ys.length + 1 := by
  induction ys with
  | nil => rfl
  | cons y ys ih =>
    have hy : ¬ key x = key y := fun h' => h y List.mem_cons_self h'.symm
    simp only [insertSorted]
    split
    · rfl
    · simpa [hy] using ih fun z hz => h z (List.mem_cons_of_mem y hz)

theorem size_insert_of_new [DecidableLT κ] [DecidableEq κ] [KeyOrder κ] {t : Table α} {x : α}
    (h : t.find? (key x) = none) : (t.insert x).size = t.size + 1 :=
  length_insertSorted (by simpa [find?] using h)

theorem insertNew?_eq_none_iff [DecidableLT κ] [DecidableEq κ] [KeyOrder κ]
    {t : Table α} {x : α} : t.insertNew? x = none ↔ t.contains (key x) := by
  unfold insertNew?
  split <;> simp_all

theorem insertNew?_eq_some_iff [DecidableLT κ] [DecidableEq κ] [KeyOrder κ]
    {t t' : Table α} {x : α} :
    t.insertNew? x = some t' ↔ t.contains (key x) = false ∧ t' = t.insert x := by
  unfold insertNew?
  split
  · next h => simp [h]
  · next h => simp [h, @eq_comm _ t']

theorem key_of_find? [DecidableEq κ] {t : Table α} {k : κ} {x : α} (h : t.find? k = some x) :
    key x = k := by
  simpa using List.find?_some h

theorem mem_of_find? [DecidableEq κ] {t : Table α} {k : κ} {x : α} (h : t.find? k = some x) :
    x ∈ t.toList :=
  List.mem_of_find?_eq_some h

omit [LT κ] in
private theorem find?_of_mem_distinct [DecidableEq κ] {xs : List α} {x : α}
    (hxs : xs.Pairwise fun a b => key a ≠ key b) (hx : x ∈ xs) :
    xs.find? (fun y => key y = key x) = some x := by
  induction xs with
  | nil => cases hx
  | cons y ys ih =>
    obtain ⟨hy, hys⟩ := List.pairwise_cons.mp hxs
    rcases List.mem_cons.mp hx with rfl | hx
    · simp
    · have hne : key y ≠ key x := hy x hx
      simpa [hne] using ih hys hx

private theorem distinct_of_increasing [KeyOrder κ] {xs : List α}
    (hxs : xs.Pairwise fun a b => key a < key b) : xs.Pairwise fun a b => key a ≠ key b :=
  hxs.imp fun {a b} (hlt : key a < key b) (heq : key a = key b) =>
    KeyOrder.irrefl (key b) (heq ▸ hlt)

/-- Looking up a key finds exactly the entry of the table that carries it. -/
theorem find?_eq_some_iff [DecidableEq κ] [KeyOrder κ] {t : Table α} {k : κ} {x : α} :
    t.find? k = some x ↔ x ∈ t.toList ∧ key x = k := by
  constructor
  · exact fun h => ⟨mem_of_find? h, key_of_find? h⟩
  · rintro ⟨hx, rfl⟩
    exact find?_of_mem_distinct (distinct_of_increasing t.increasing) hx

theorem mem_keys_iff [DecidableEq κ] [KeyOrder κ] {t : Table α} {k : κ} :
    k ∈ t.keys ↔ ∃ x, t.find? k = some x := by
  simp [keys, find?_eq_some_iff]

private theorem eq_of_mem_iff [KeyOrder κ] {xs ys : List α}
    (hxs : xs.Pairwise fun a b => key a < key b) (hys : ys.Pairwise fun a b => key a < key b)
    (h : ∀ x, x ∈ xs ↔ x ∈ ys) : xs = ys := by
  induction xs generalizing ys with
  | nil =>
    cases ys with
    | nil => rfl
    | cons y ys => exact absurd ((h y).mpr List.mem_cons_self) List.not_mem_nil
  | cons x xs ih =>
    cases ys with
    | nil => exact absurd ((h x).mp List.mem_cons_self) List.not_mem_nil
    | cons y ys =>
      obtain ⟨hx, hxs'⟩ := List.pairwise_cons.mp hxs
      obtain ⟨hy, hys'⟩ := List.pairwise_cons.mp hys
      have hirr : ∀ a : α, ¬ key a < key a := fun a => KeyOrder.irrefl (key a)
      have hxy : x = y := by
        rcases List.mem_cons.mp ((h x).mp List.mem_cons_self) with hxy | hxy
        · exact hxy
        · rcases List.mem_cons.mp ((h y).mpr List.mem_cons_self) with hyx | hyx
          · exact hyx.symm
          · exact absurd (KeyOrder.trans (hx y hyx) (hy x hxy)) (hirr x)
      subst hxy
      congr 1
      refine ih hxs' hys' fun z => ⟨fun hz => ?_, fun hz => ?_⟩
      · rcases List.mem_cons.mp ((h z).mp (List.mem_cons_of_mem x hz)) with rfl | hz'
        · exact absurd (hx z hz) (hirr z)
        · exact hz'
      · rcases List.mem_cons.mp ((h z).mpr (List.mem_cons_of_mem x hz)) with rfl | hz'
        · exact absurd (hy z hz) (hirr z)
        · exact hz'

/-- Tables with the same look-ups are equal. -/
theorem ext_find? [DecidableEq κ] [KeyOrder κ] {t t' : Table α}
    (h : ∀ k, t.find? k = t'.find? k) : t = t' := by
  have hlist : t.toList = t'.toList := by
    refine eq_of_mem_iff t.increasing t'.increasing fun x => ?_
    have hx := h (key x)
    constructor
    · intro hm
      exact mem_of_find? (hx ▸ find?_eq_some_iff.mpr ⟨hm, rfl⟩)
    · intro hm
      exact mem_of_find? (hx ▸ find?_eq_some_iff.mpr ⟨hm, rfl⟩)
  cases t
  cases t'
  cases hlist
  rfl

theorem nodup_keys [KeyOrder κ] (t : Table α) : t.keys.Nodup :=
  List.pairwise_map.mpr (distinct_of_increasing t.increasing)

/-- Tables with the same keys list them in the same order. -/
theorem keys_ext [KeyOrder κ] {t t' : Table α} (h : ∀ k, k ∈ t.keys ↔ k ∈ t'.keys) :
    t.keys = t'.keys := by
  have hperm : t.keys.Perm t'.keys :=
    (List.perm_ext_iff_of_nodup t.nodup_keys t'.nodup_keys).mpr h
  have hsorted : ∀ t : Table α, t.keys.Pairwise (· < ·) := fun t =>
    List.pairwise_map.mpr t.increasing
  refine hperm.eq_of_pairwise (fun a b _ _ hab hba => ?_) (hsorted t) (hsorted t')
  exact absurd (KeyOrder.trans hab hba) (KeyOrder.irrefl a)

section OfList

variable [DecidableLT κ] [DecidableEq κ] [KeyOrder κ]

/-- Of the entries that are inserted, the last one with a key is found by it. -/
theorem find?_foldl_insert (xs : List α) (t : Table α) (k : κ) :
    (xs.foldl insert t).find? k = (xs.reverse.find? fun x => key x = k).or (t.find? k) := by
  induction xs generalizing t with
  | nil => rfl
  | cons x xs ih =>
    rw [List.foldl_cons, ih, find?_insert, List.reverse_cons, List.find?_append, Option.or_assoc]
    by_cases hx : key x = k <;> simp [hx]

/-- The table of entries with distinct keys holds all of them. -/
theorem mem_ofList_iff {xs : List α} (h : (xs.map key).Nodup) {x : α} :
    x ∈ (ofList xs).toList ↔ x ∈ xs := by
  refine ⟨mem_of_mem_ofList, fun hx => ?_⟩
  have hdistinct : xs.Pairwise fun a b => key a ≠ key b := List.pairwise_map.mp h
  have hreverse : xs.reverse.Pairwise fun a b => key a ≠ key b :=
    List.pairwise_reverse.mpr (hdistinct.imp Ne.symm)
  have hfind := find?_of_mem_distinct hreverse (List.mem_reverse.mpr hx)
  apply mem_of_find? (k := key x)
  rw [ofList, find?_foldl_insert, hfind, Option.some_or]

theorem size_ofList {xs : List α} (h : (xs.map key).Nodup) : (ofList xs).size = xs.length := by
  have hfold : ∀ (ys : List α) (t : Table α), (ys.map key).Nodup →
      (∀ y ∈ ys, t.find? (key y) = none) → (ys.foldl insert t).size = t.size + ys.length := by
    intro ys
    induction ys with
    | nil => exact fun t _ _ => rfl
    | cons y ys ih =>
      intro t hys hfree
      obtain ⟨hy, hys⟩ := List.nodup_cons.mp hys
      have hfree' : ∀ z ∈ ys, (t.insert y).find? (key z) = none := by
        intro z hz
        have hne : key y ≠ key z := fun heq => hy (heq ▸ List.mem_map_of_mem hz)
        simpa [hne] using hfree z (List.mem_cons_of_mem y hz)
      have hsize := size_insert_of_new (hfree y List.mem_cons_self)
      rw [List.foldl_cons, ih (t.insert y) hys hfree', hsize, List.length_cons]
      omega
  have hsize := hfold xs empty h fun _ _ => rfl
  rw [ofList, hsize]
  exact Nat.zero_add _

theorem mem_insert_iff {t : Table α} {x y : α} :
    y ∈ (t.insert x).toList ↔ y = x ∨ y ∈ t.toList ∧ key y ≠ key x := by
  have hy : (t.insert x).find? (key y) = some y ↔ y ∈ (t.insert x).toList := by
    rw [find?_eq_some_iff, and_iff_left rfl]
  rw [← hy, find?_insert]
  split
  · next h =>
    constructor
    · exact fun heq => .inl (Option.some.inj heq).symm
    · rintro (rfl | ⟨-, hne⟩)
      · rfl
      · exact absurd h.symm hne
  · next h =>
    rw [find?_eq_some_iff]
    constructor
    · exact fun hmem => .inr ⟨hmem.1, fun heq => h heq.symm⟩
    · rintro (rfl | ⟨hmem, -⟩)
      · exact absurd rfl h
      · exact ⟨hmem, rfl⟩

/-- Inserting an entry leaves those with other keys as they are. -/
theorem filter_insert (t : Table α) (x : α) :
    ((t.insert x).toList.filter fun y => key y ≠ key x) =
      t.toList.filter fun y => key y ≠ key x := by
  have hsorted : ∀ ys : List α, ((insertSorted x ys).filter fun y => key y ≠ key x) =
      ys.filter fun y => key y ≠ key x := by
    intro ys
    induction ys with
    | nil => simp [insertSorted]
    | cons y ys ih =>
      simp only [insertSorted]
      split
      · simp
      · split
        · next heq => simp [heq]
        · rw [List.filter_cons, List.filter_cons, ih]
  exact hsorted t.toList

end OfList

end Table

end Wiring
