import Wiring.Flags
import Wiring.Proofs.Numerals
import Wiring.Proofs.Sequences
import Wiring.Proofs.Splitting

/-!
The text of a set of markers is read back as the set. Its segments are words without a bar, so
that splitting and trimming find them again, and each segment stands for the bits that it was
written for: those of a named flag, or the bits without a name as a numeral.
-/
namespace Wiring.Flags

open Text

/-- A segment as it is written: a word without a bar. -/
def Segment (s : String) : Prop :=
  Word s.toList ∧ '|' ∉ s.toList

instance (s : String) : Decidable (Segment s) :=
  inferInstanceAs (Decidable (Word s.toList ∧ '|' ∉ s.toList))

/-- The parts of a text between bars are its segments with blanks around them. -/
theorem map_trim_splitAt {ss : List String} (hne : ss ≠ []) (hss : ∀ s ∈ ss, Segment s)
    {lead : List Char} (hlead : ∀ c ∈ lead, isBlank c = true) (hbar : '|' ∉ lead) :
    (splitAt '|' (lead ++ (" | ".intercalate ss).toList)).map trim = ss.map String.toList := by
  induction ss generalizing lead with
  | nil => exact absurd rfl hne
  | cons s ss ih =>
    obtain ⟨⟨hword, hs⟩, hrest⟩ := List.forall_mem_cons.mp hss
    cases ss with
    | nil =>
      have hpart : '|' ∉ lead ++ s.toList := by simp [hbar, hs]
      have htrim : trim (lead ++ (s.toList ++ [])) = s.toList :=
        trim_word hlead hword (by simp)
      rw [List.append_nil] at htrim
      simp [String.intercalate_singleton, splitAt_of_not_mem hpart, htrim]
    | cons s' ss =>
      have hblank : ∀ c ∈ [' '], isBlank c = true := List.forall_mem_singleton.mpr (by decide)
      have hpart : '|' ∉ lead ++ (s.toList ++ [' ']) := by simp [hbar, hs]
      have htext : lead ++ (" | ".intercalate (s :: s' :: ss)).toList =
          (lead ++ (s.toList ++ [' '])) ++
            '|' :: ([' '] ++ (" | ".intercalate (s' :: ss)).toList) := by
        simp [String.intercalate_cons_cons]
      rw [htext, splitAt_line hpart, List.map_cons, trim_word hlead hword hblank,
        ih (by simp) hrest hblank (by decide)]
      rfl

/-- The bits without a name as they are written. -/
def numeral (bits : UInt8) : String :=
  "0x" ++ String.ofList (Hex.digits bits.toNat)

/-- The segments of a set, with what each of them stands for. -/
def parts (f : Flags) : List (String × Flags) :=
  (named.filter fun entry => f.contains entry.2) ++
    if f.unnamedBits = 0 then [] else [(numeral f.unnamedBits, ⟨f.unnamedBits⟩)]

theorem map_fst_parts (f : Flags) : f.parts.map Prod.fst = f.segments := by
  rw [parts, segments, List.map_append]
  split <;> rfl

/-- The parts of a set make it up. -/
theorem union_parts (f : Flags) : (f.parts.map Prod.snd).foldr union empty = f := by
  have hall : ∀ n < 256, ((parts ⟨UInt8.ofNat n⟩).map Prod.snd).foldr union empty =
      ⟨UInt8.ofNat n⟩ := by decide +kernel
  have hf := hall f.bits.toNat f.bits.toNat_lt
  rwa [UInt8.ofNat_toNat] at hf

theorem digit_class {bits : UInt8} {c : Char} (hc : c ∈ Hex.digits bits.toNat) :
    isBlank c = false ∧ c ≠ '|' ∧ c ≠ '+' := by
  have hall : ∀ n < 256, ((Hex.digits n).all fun c => !isBlank c && c ≠ '|' && c ≠ '+') = true := by
    decide +kernel
  have hclass := List.all_eq_true.mp (hall bits.toNat bits.toNat_lt) c hc
  simpa [and_assoc] using hclass

theorem byte?_digits (bits : UInt8) : byte? (Hex.digits bits.toNat) = some bits := by
  have hsign : ∀ rest, Hex.digits bits.toNat ≠ '+' :: rest := by
    intro rest heq
    have hmem : '+' ∈ Hex.digits bits.toNat := heq ▸ List.mem_cons_self
    exact (digit_class hmem).2.2 rfl
  have hlt : bits.toNat < 256 := bits.toNat_lt
  unfold byte?
  split
  · next rest hplus => exact absurd hplus (hsign rest)
  · simp [Hex.value?_digits, hlt]

theorem segment?_numeral (bits : UInt8) : segment? (numeral bits).toList = some ⟨bits⟩ := by
  have htext : (numeral bits).toList = '0' :: 'x' :: Hex.digits bits.toNat := by
    simp [numeral]
  simp [htext, segment?, byte?_digits]

theorem segment_numeral (bits : UInt8) : Segment (numeral bits) := by
  have htext : (numeral bits).toList = '0' :: 'x' :: Hex.digits bits.toNat := by
    simp [numeral]
  have hzero : isBlank '0' = false := by decide
  have hx : isBlank 'x' = false := by decide
  rw [Segment, Word, htext]
  refine ⟨⟨by simp, ?_⟩, ?_⟩
  · simp only [List.forall_mem_cons]
    exact ⟨hzero, hx, fun c hc => (digit_class hc).1⟩
  · intro hbar
    have hmem : '|' ∈ Hex.digits bits.toNat := by simpa using hbar
    exact (digit_class hmem).2.1 rfl

/-- A part is written as a segment, and the segment is read as the part. -/
theorem segment_of_mem_parts {f : Flags} {part : String × Flags} (h : part ∈ f.parts) :
    Segment part.1 ∧ segment? part.1.toList = some part.2 := by
  have hnamed : ∀ entry ∈ named, Segment entry.1 ∧ segment? entry.1.toList = some entry.2 := by
    decide
  rcases List.mem_append.mp h with hmem | hmem
  · exact hnamed part (List.mem_filter.mp hmem).1
  · split at hmem
    · cases hmem
    · obtain rfl := List.mem_singleton.mp hmem
      exact ⟨segment_numeral f.unnamedBits, segment?_numeral f.unnamedBits⟩

/-- Parts that are segments after trimming stand for what these segments stand for. -/
theorem ofSegments?_eq {xs : List (List Char)} {ps : List (String × Flags)}
    (hxs : xs.map trim = ps.map fun part => part.1.toList)
    (hps : ∀ part ∈ ps, segment? part.1.toList = some part.2) :
    ofSegments? xs = some ((ps.map Prod.snd).foldr union empty) := by
  induction ps generalizing xs with
  | nil =>
    obtain rfl : xs = [] := by simpa using hxs
    rfl
  | cons part ps ih =>
    obtain ⟨hpart, hrest⟩ := List.forall_mem_cons.mp hps
    cases xs with
    | nil => cases hxs
    | cons cs xs =>
      rw [List.map_cons, List.map_cons, List.cons.injEq] at hxs
      obtain ⟨hcs, hxs⟩ := hxs
      simp [ofSegments?, hcs, hpart, ih hxs hrest]

/-- The written form of a set is read back as the set. -/
theorem ofText?_text (f : Flags) : ofText? f.text = some f := by
  have hparts : ∀ part ∈ f.parts, Segment part.1 ∧ segment? part.1.toList = some part.2 :=
    fun _ => segment_of_mem_parts
  have hunion := union_parts f
  have hsegments := map_fst_parts f
  cases hcons : f.parts with
  | nil =>
    have htext : f.text = "" := by simp [text, ← hsegments, hcons]
    have hempty : ofText? "" = some empty := by decide
    rw [hcons] at hunion
    rw [htext, hempty]
    exact congrArg some hunion
  | cons part ps =>
    rw [hcons] at hparts hunion hsegments
    have hwords : ∀ s ∈ f.segments, Segment s := by
      rw [← hsegments, List.forall_mem_map]
      exact fun q hq => (hparts q hq).1
    have hsplit : (splitAt '|' ([] ++ f.text.toList)).map trim = f.segments.map String.toList :=
      map_trim_splitAt (by simp [← hsegments]) hwords (by simp) (by simp)
    have hxs : (splitAt '|' f.text.toList).map trim =
        (part :: ps).map fun q => q.1.toList := by
      rw [← List.nil_append f.text.toList, hsplit, ← hsegments, List.map_map]
      rfl
    obtain ⟨rest, hrest⟩ := exists_intercalate_eq " | " part.1 (ps.map Prod.fst)
    have htext : f.text.toList = part.1.toList ++ rest := by
      rw [text, ← hsegments, List.map_cons, hrest]
    have hfirst := (hparts part List.mem_cons_self).1
    have hblank : trim f.text.toList ≠ [] := htext ▸ trim_ne_nil hfirst.1 rest
    have hread := ofSegments?_eq hxs fun q hq => (hparts q hq).2
    rw [hunion] at hread
    simp [ofText?, hblank, hread]

end Wiring.Flags
