import Mathlib.Data.List.Forall2
import Mathlib.Data.List.Induction
import Wiring.ErrorOr

/-!
Lists side by side, lists without repetitions, and texts that are put together. A map over a list
that may fail gives a list that stands in a relation to it, member by member; what is known of a
single member is read off this relation.
-/
namespace Wiring

section Related

variable {α β γ δ : Type} {r : α → β → Prop} {xs : List α} {ys : List β}

theorem exists_of_forall₂ (h : List.Forall₂ r xs ys) {x : α} (hx : x ∈ xs) : ∃ y ∈ ys, r x y := by
  induction h with
  | nil => cases hx
  | @cons a b as bs hab _ ih =>
    rcases List.mem_cons.mp hx with rfl | hx
    · exact ⟨b, List.mem_cons_self, hab⟩
    · obtain ⟨y, hy, hxy⟩ := ih hx
      exact ⟨y, List.mem_cons_of_mem b hy, hxy⟩

theorem exists_of_forall₂_right (h : List.Forall₂ r xs ys) {y : β} (hy : y ∈ ys) :
    ∃ x ∈ xs, r x y :=
  exists_of_forall₂ (r := fun y x => r x y) h.flip hy

theorem exists_forall₂_iff : (∃ ys, List.Forall₂ r xs ys) ↔ ∀ x ∈ xs, ∃ y, r x y := by
  induction xs with
  | nil => exact ⟨fun _ => List.forall_mem_nil _, fun _ => ⟨[], .nil⟩⟩
  | cons x xs ih =>
    rw [List.forall_mem_cons, ← ih]
    constructor
    · rintro ⟨ys, h⟩
      obtain ⟨y, ys', hy, hys, -⟩ := List.forall₂_cons_left_iff.mp h
      exact ⟨⟨y, hy⟩, ys', hys⟩
    · rintro ⟨⟨y, hy⟩, ys, hys⟩
      exact ⟨y :: ys, .cons hy hys⟩

theorem rel_getElem? (h : List.Forall₂ r xs ys) (k : Nat) : Option.Rel r xs[k]? ys[k]? := by
  induction h generalizing k with
  | nil => exact .none
  | cons hxy _ ih =>
    cases k with
    | zero => exact .some hxy
    | succ k => exact ih k

theorem getElem?_of_forall₂ (h : List.Forall₂ r xs ys) {k : Nat} {x : α} {y : β}
    (hx : xs[k]? = some x) (hy : ys[k]? = some y) : r x y := by
  have hrel := rel_getElem? h k
  rw [hx, hy] at hrel
  cases hrel with
  | some hxy => exact hxy

theorem forall₂_zipWith {r : β → γ → Prop} {g : α → β} (f : α → γ → δ) {ys : List γ}
    (h : List.Forall₂ r (xs.map g) ys) :
    List.Forall₂ (fun x z => ∃ y, z = f x y ∧ r (g x) y) xs (List.zipWith f xs ys) := by
  induction xs generalizing ys with
  | nil =>
    cases h
    exact .nil
  | cons x xs ih =>
    cases h with
    | cons hxy h => exact .cons ⟨_, rfl, hxy⟩ (ih h)

end Related

section Maps

variable {ε α β : Type} {xs : List α} {ys : List β}

theorem mapM_eq_some_iff {f : α → Option β} :
    xs.mapM f = some ys ↔ List.Forall₂ (fun x y => f x = some y) xs ys := by
  induction xs generalizing ys with
  | nil => simp [eq_comm]
  | cons x xs ih =>
    rw [List.mapM_cons, List.forall₂_cons_left_iff]
    simp only [Option.bind_eq_bind, Option.bind_eq_some_iff, Option.pure_def, Option.some.injEq, ih]
    constructor
    · rintro ⟨y, hy, ys', hys, rfl⟩
      exact ⟨y, ys', hy, hys, rfl⟩
    · rintro ⟨y, ys', hy, hys, rfl⟩
      exact ⟨y, hy, ys', hys, rfl⟩

theorem mapM_eq_ok_iff {f : α → Except ε β} :
    xs.mapM f = .ok ys ↔ List.Forall₂ (fun x y => f x = .ok y) xs ys := by
  induction xs generalizing ys with
  | nil => simp [pure, Except.pure, eq_comm]
  | cons x xs ih =>
    rw [List.mapM_cons, List.forall₂_cons_left_iff]
    simp only [bind_eq_ok_iff, ih]
    constructor
    · rintro ⟨y, hy, ys', hys, h⟩
      cases h
      exact ⟨y, ys', hy, hys, rfl⟩
    · rintro ⟨y, ys', hy, hys, rfl⟩
      exact ⟨y, hy, ys', hys, rfl⟩

theorem mapM_map_eq_some {f : α → β} {g : β → Option α} (h : ∀ x ∈ xs, g (f x) = some x) :
    (xs.map f).mapM g = some xs := by
  rw [mapM_eq_some_iff, List.forall₂_map_left_iff, List.forall₂_same]
  exact h

theorem findSome?_congr {f g : α → Option β} (h : ∀ x ∈ xs, f x = g x) :
    xs.findSome? f = xs.findSome? g := by
  induction xs with
  | nil => rfl
  | cons x xs ih =>
    obtain ⟨hx, hxs⟩ := List.forall_mem_cons.mp h
    rw [List.findSome?_cons, List.findSome?_cons, hx, ih hxs]

end Maps

section Repetitions

variable {α : Type} [BEq α] [LawfulBEq α]

/-- Of the repetitions in a list the first stays. -/
theorem eraseDups_concat (xs : List α) (x : α) :
    (xs ++ [x]).eraseDups = xs.eraseDups ++ if x ∈ xs then [] else [x] := by
  rw [List.eraseDups_append]
  by_cases h : x ∈ xs
  · simp [List.removeAll, h]
  · simp [List.removeAll, h, List.eraseDups_cons]

theorem nodup_eraseDups (xs : List α) : xs.eraseDups.Nodup := by
  induction xs using List.reverseRecOn with
  | nil => exact .nil
  | append_singleton xs x ih =>
    rw [eraseDups_concat]
    split
    · rwa [List.append_nil]
    · next hnew =>
      refine List.nodup_append.mpr ⟨ih, List.pairwise_singleton _ _, ?_⟩
      rintro y hy z hz rfl
      rw [List.mem_singleton.mp hz, List.mem_eraseDups] at hy
      exact hnew hy

end Repetitions

section Texts

theorem getLast?_append_text (before : String) {after : String} (h : after ≠ "") :
    (before ++ after).toList.getLast? = after.toList.getLast? := by
  have hne : after.toList ≠ [] := by simpa using h
  rw [String.toList_append, List.getLast?_append_of_ne_nil _ hne]

/-- Texts with different ends are different. -/
theorem append_ne_of_getLast {before after text : String} (hafter : after ≠ "")
    (h : after.toList.getLast? ≠ text.toList.getLast?) : before ++ after ≠ text := by
  rintro rfl
  exact h (getLast?_append_text before hafter).symm

theorem toList_join_lines (ls : List String) :
    (String.join (ls.map (· ++ "\n"))).toList =
      (ls.map String.toList).flatMap (· ++ ['\n']) := by
  rw [String.toList_join, List.flatMap_map, List.flatMap_map]
  simp

theorem exists_intercalate_eq (sep s : String) (ss : List String) :
    ∃ rest, (sep.intercalate (s :: ss)).toList = s.toList ++ rest := by
  cases ss with
  | nil => exact ⟨[], by simp [String.intercalate_singleton]⟩
  | cons s' ss =>
    exact ⟨sep.toList ++ (sep.intercalate (s' :: ss)).toList, by
      simp [String.intercalate_cons_cons]⟩

end Texts

end Wiring
