import Mathlib.Data.List.TakeWhile
import Wiring.Text.Blank

/-!
Texts in parts. A text that is put together from parts with a separator between them, or after
each of them, is split into these parts, if the separator is in none of them; and blanks around
a part are trimmed off.
-/
namespace Wiring

namespace Text

/-- The lines of a text, with the part after the last line break. -/
def lines (s : String) : List (List Char) :=
  splitAt '\n' s.toList

theorem splitAt_ne_nil (sep : Char) (cs : List Char) : splitAt sep cs ≠ [] := by
  cases cs with
  | nil => simp [splitAt]
  | cons c cs =>
    simp only [splitAt]
    split
    · simp
    · split <;> simp

theorem splitAt_append (sep : Char) (cs ds : List Char) :
    splitAt sep (cs ++ sep :: ds) = splitAt sep cs ++ splitAt sep ds := by
  induction cs with
  | nil => simp [splitAt]
  | cons c cs ih =>
    by_cases hc : c = sep
    · simp [splitAt, hc, ih]
    · cases hparts : splitAt sep cs with
      | nil => exact absurd hparts (splitAt_ne_nil sep cs)
      | cons part parts => simp [splitAt, hc, ih, hparts]

theorem splitAt_of_not_mem {sep : Char} {cs : List Char} (h : sep ∉ cs) :
    splitAt sep cs = [cs] := by
  induction cs with
  | nil => rfl
  | cons c cs ih =>
    have hc : c ≠ sep := fun heq => h (heq ▸ List.mem_cons_self)
    have hcs : sep ∉ cs := fun hmem => h (List.mem_cons_of_mem c hmem)
    simp [splitAt, hc, ih hcs]

/-- A line and what stands after it. -/
theorem splitAt_line {sep : Char} {cs : List Char} (h : sep ∉ cs) (ds : List Char) :
    splitAt sep (cs ++ sep :: ds) = cs :: splitAt sep ds := by
  rw [splitAt_append, splitAt_of_not_mem h]
  rfl

theorem splitAt_flatMap {sep : Char} {ls : List (List Char)} (h : ∀ l ∈ ls, sep ∉ l) :
    splitAt sep (ls.flatMap (· ++ [sep])) = ls ++ [[]] := by
  induction ls with
  | nil => rfl
  | cons l ls ih =>
    have hls := ih fun l' hl' => h l' (List.mem_cons_of_mem l hl')
    rw [List.flatMap_cons, List.append_assoc, List.singleton_append,
      splitAt_line (h l List.mem_cons_self), hls, List.cons_append]

/-- A text without blanks, which is not empty. -/
def Word (w : List Char) : Prop :=
  w ≠ [] ∧ ∀ c ∈ w, isBlank c = false

instance (w : List Char) : Decidable (Word w) :=
  decidable_of_iff (w ≠ [] ∧ (w.all fun c => !isBlank c) = true) (by simp [Word])

theorem dropBlanks_append {lead w : List Char} (hlead : ∀ c ∈ lead, isBlank c = true) (hw : Word w)
    (rest : List Char) : dropBlanks (lead ++ (w ++ rest)) = w ++ rest := by
  obtain ⟨hne, hblank⟩ := hw
  rw [dropBlanks, List.dropWhile_append_of_pos hlead]
  cases w with
  | nil => exact absurd rfl hne
  | cons c cs => simp [hblank c List.mem_cons_self]

theorem Word.reverse {w : List Char} (h : Word w) : Word w.reverse :=
  ⟨by simpa using h.1, by simpa using h.2⟩

/-- Trimming takes away the blanks around a word. -/
theorem trim_word {lead w trail : List Char} (hlead : ∀ c ∈ lead, isBlank c = true) (hw : Word w)
    (htrail : ∀ c ∈ trail, isBlank c = true) : trim (lead ++ (w ++ trail)) = w := by
  have hback : ∀ c ∈ trail.reverse, isBlank c = true := by simpa using htrail
  have hdrop := dropBlanks_append hback hw.reverse []
  rw [List.append_nil] at hdrop
  rw [trim, dropBlanks_append hlead hw, List.reverse_append, hdrop, List.reverse_reverse]

/-- A text that starts with a word is not blank. -/
theorem trim_ne_nil {w : List Char} (hw : Word w) (rest : List Char) : trim (w ++ rest) ≠ [] := by
  intro h
  have hlead : dropBlanks ([] ++ (w ++ rest)) = w ++ rest :=
    dropBlanks_append (by simp) hw rest
  rw [trim, ← List.nil_append (w ++ rest), hlead, List.reverse_eq_nil_iff, dropBlanks,
    List.dropWhile_eq_nil_iff] at h
  obtain ⟨c, hc⟩ := List.exists_mem_of_ne_nil w hw.1
  have hblank := h c (List.mem_reverse.mpr (List.mem_append_left rest hc))
  rw [hw.2 c hc] at hblank
  cases hblank

end Text

end Wiring
