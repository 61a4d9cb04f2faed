import Wiring.Naming
import Wiring.Proofs.Numerals

/-!
Names that are made from identities can be taken apart again. Every escape starts with an
underscore, and the character after it tells what it stands for; only a separator puts two
underscores side by side, so that the last separator parts the name from the path. Names that
are made from different identities are therefore different (`sanitize_inj`), and so are the
names of artifacts and functions, which add fixed words to them. An escape is made of letters,
digits and underscores, and nothing else stands in these names.
-/
namespace Wiring

open Naming

/-- The characters that names made from identities consist of. -/
def Naming.IsWordChar (c : Char) : Prop :=
  c.isAlphanum = true ∨ c = '_'

instance : DecidablePred IsWordChar :=
  fun c => inferInstanceAs (Decidable (c.isAlphanum = true ∨ c = '_'))

namespace Text.Hex

theorem isWordChar_of_mem_digits {n : Nat} {c : Char} (h : c ∈ digits n) : IsWordChar c := by
  unfold digits at h
  induction n using Nat.strongRecOn with
  | ind n ih =>
    by_cases hn : n < 16
    · rw [Nat.toDigits_of_lt_base hn, List.mem_singleton] at h
      subst h
      have hdigits : ∀ k < 16, (Nat.digitChar k).isAlphanum = true := by decide
      exact .inl (hdigits n hn)
    · have hle : 16 ≤ n := by omega
      rw [Nat.toDigits_of_base_le (by decide) hle, List.mem_append, List.mem_singleton] at h
      rcases h with h | rfl
      · exact ih (n / 16) (by omega) h
      · have hdigits : ∀ k < 16, (Nat.digitChar k).isAlphanum = true := by decide
        exact .inl (hdigits (n % 16) (by omega))

theorem isWordChar_of_mem_padded {width n : Nat} {c : Char} (h : c ∈ padded width n) :
    IsWordChar c := by
  simp only [padded, List.leftpad, List.mem_append, List.mem_replicate] at h
  rcases h with ⟨-, rfl⟩ | h
  · exact .inl (by decide)
  · exact isWordChar_of_mem_digits h

end Text.Hex

namespace Naming

open Text

/-- What an escaped text stands for: characters, and `none` for a separator. -/
def unescape : List Char → List (Option Char)
  | '_' :: '_' :: cs => none :: unescape cs
  | '_' :: 'u' :: cs => some '_' :: unescape cs
  | '_' :: 'x' :: a :: b :: c :: d :: e :: f :: cs =>
    (Hex.value? [a, b, c, d, e, f]).map Char.ofNat :: unescape cs
  | c :: cs => some c :: unescape cs
  | [] => []

/-- In a path a separator is a double colon. -/
def spelled : Option Char → List Char
  | some c => [c]
  | none => [':', ':']

/-- The identity that a sanitized name was made from. -/
def unsanitize (s : String) : Identity :=
  let parts := (unescape s.toList).reverse
  let name := parts.takeWhile Option.isSome
  let path := (parts.dropWhile Option.isSome).drop 1
  ⟨String.ofList (path.reverse.flatMap spelled), String.ofList (name.reverse.flatMap spelled)⟩

theorem unescape_cons {c : Char} (h : c ≠ '_') (cs : List Char) :
    unescape (c :: cs) = some c :: unescape cs := by
  rw [unescape.eq_def]
  split <;> simp_all

theorem unescape_separator (cs : List Char) :
    unescape ('_' :: '_' :: cs) = none :: unescape cs := by
  simp [unescape]

theorem unescape_numeral {ds : List Char} {n : Nat} (hlength : ds.length = 6)
    (hvalue : Hex.value? ds = some n) (cs : List Char) :
    unescape ('_' :: 'x' :: ds ++ cs) = some (Char.ofNat n) :: unescape cs := by
  obtain ⟨a, ds, rfl⟩ := List.exists_cons_of_length_eq_add_one hlength
  obtain ⟨b, ds, rfl⟩ := List.exists_cons_of_length_eq_add_one (by simpa using hlength)
  obtain ⟨c, ds, rfl⟩ := List.exists_cons_of_length_eq_add_one (by simpa using hlength)
  obtain ⟨d, ds, rfl⟩ := List.exists_cons_of_length_eq_add_one (by simpa using hlength)
  obtain ⟨e, ds, rfl⟩ := List.exists_cons_of_length_eq_add_one (by simpa using hlength)
  obtain ⟨f, ds, rfl⟩ := List.exists_cons_of_length_eq_add_one (by simpa using hlength)
  obtain rfl : ds = [] := by simpa using hlength
  simp [unescape, hvalue]

theorem unescape_escapeChar (c : Char) (cs : List Char) :
    unescape (escapeChar c ++ cs) = some c :: unescape cs := by
  unfold escapeChar
  split
  · next h => simp [h, unescape]
  · next h =>
    split
    · exact unescape_cons h cs
    · have hsize : c.toNat < Nat.pow 16 6 := by
        have hvalid := c.valid
        simp only [UInt32.isValidChar, Nat.isValidChar] at hvalid
        have hbound : Nat.pow 16 6 = 16777216 := rfl
        simp only [Char.toNat]
        omega
      rw [unescape_numeral (Hex.length_padded hsize (by decide)) (Hex.value?_padded 6 c.toNat),
        Char.ofNat_toNat]

theorem unescape_escapeName (cs ds : List Char) :
    unescape (escapeName cs ++ ds) = cs.map some ++ unescape ds := by
  induction cs with
  | nil => rfl
  | cons c cs ih =>
    rw [escapeName, List.flatMap_cons, List.append_assoc, unescape_escapeChar]
    exact congrArg (some c :: ·) ih

/-- A path is spelled by what its escaped text stands for. -/
theorem unescape_escapePath (cs ds : List Char) :
    ∃ parts, unescape (escapePath cs ++ ds) = parts ++ unescape ds ∧
      parts.flatMap spelled = cs := by
  induction cs using escapePath.induct with
  | case1 cs ih =>
    obtain ⟨parts, hparts, hcs⟩ := ih
    refine ⟨none :: parts, ?_, ?_⟩
    · simp [escapePath, unescape_separator, hparts]
    · simp [spelled, hcs]
  | case2 c cs hc ih =>
    obtain ⟨parts, hparts, hcs⟩ := ih
    refine ⟨some c :: parts, ?_, ?_⟩
    · rw [escapePath.eq_2 _ _ hc, List.append_assoc, unescape_escapeChar, hparts,
        List.cons_append]
    · simp [spelled, hcs]
  | case3 => exact ⟨[], rfl, rfl⟩

theorem flatMap_spelled_some (cs : List Char) : (cs.map some).flatMap spelled = cs := by
  induction cs with
  | nil => rfl
  | cons c cs ih => simpa [spelled] using ih

theorem unsanitize_sanitize (i : Identity) : unsanitize (sanitize i) = i := by
  have hname : unescape (escapeName i.name.toList) = i.name.toList.map some := by
    simpa [unescape] using unescape_escapeName i.name.toList []
  have hsome : ∀ p ∈ (i.name.toList.map some).reverse, Option.isSome p = true := by
    intro p hp
    obtain ⟨c, -, rfl⟩ := List.mem_map.mp (List.mem_reverse.mp hp)
    rfl
  by_cases hpath : i.path = ""
  · have hparts : unescape (sanitize i).toList = i.name.toList.map some := by
      simp [sanitize, sanitizeChars, hpath, hname]
    have htake : ((i.name.toList.map some).reverse ++ []).takeWhile Option.isSome =
        (i.name.toList.map some).reverse ++ [] := List.takeWhile_append_of_pos hsome
    have hdrop : ((i.name.toList.map some).reverse ++ []).dropWhile Option.isSome = [] :=
      List.dropWhile_append_of_pos hsome
    rw [List.append_nil] at htake hdrop
    simp only [unsanitize, hparts, htake, hdrop, List.reverse_reverse, flatMap_spelled_some]
    simp [← hpath]
  · obtain ⟨path, hread, hspelled⟩ :=
      unescape_escapePath i.path.toList ('_' :: '_' :: escapeName i.name.toList)
    have hparts : unescape (sanitize i).toList = path ++ none :: i.name.toList.map some := by
      simp [sanitize, sanitizeChars, hpath, hread, unescape_separator, hname]
    have hreverse : (path ++ none :: i.name.toList.map some).reverse =
        (i.name.toList.map some).reverse ++ none :: path.reverse := by
      simp
    have htake : ((i.name.toList.map some).reverse ++ none :: path.reverse).takeWhile
        Option.isSome = (i.name.toList.map some).reverse ++ [] :=
      List.takeWhile_append_of_pos hsome
    have hdrop : ((i.name.toList.map some).reverse ++ none :: path.reverse).dropWhile
        Option.isSome = none :: path.reverse := List.dropWhile_append_of_pos hsome
    simp only [unsanitize, hparts, hreverse, htake, hdrop]
    simp [flatMap_spelled_some, hspelled]

theorem sanitize_inj {i j : Identity} : sanitize i = sanitize j ↔ i = j := by
  constructor
  · intro h
    rw [← unsanitize_sanitize i, h, unsanitize_sanitize]
  · exact congrArg sanitize

theorem factoryFunction_inj {i j : Identity} : factoryFunction i = factoryFunction j ↔ i = j := by
  simp [factoryFunction, sanitize_inj]

theorem providerMethod_inj {i j : Identity} : providerMethod i = providerMethod j ↔ i = j := by
  simp [providerMethod, sanitize_inj]

theorem factoryArtifact_inj {i j : Identity} : factoryArtifact i = factoryArtifact j ↔ i = j := by
  simp [factoryArtifact, sanitize_inj]

theorem providerArtifact_inj {i j : Identity} :
    providerArtifact i = providerArtifact j ↔ i = j := by
  simp [providerArtifact, sanitize_inj]

theorem factoryArtifact_ne_providerArtifact (i j : Identity) :
    factoryArtifact i ≠ providerArtifact j := by
  intro h
  have hlast := congrArg (fun s => s.toList.getLast?) h
  simp [factoryArtifact, providerArtifact] at hlast

theorem isWordChar_of_all {s : String} (h : (s.toList.all fun c => IsWordChar c) = true) :
    ∀ c ∈ s.toList, IsWordChar c := by
  simpa using h

theorem isWordChar_underscore : IsWordChar '_' :=
  .inr rfl

theorem not_isWordChar_question : ¬ IsWordChar '?' := by
  simp [IsWordChar]

theorem isWordChar_of_mem_escapeChar {c d : Char} (h : c ∈ escapeChar d) : IsWordChar c := by
  unfold escapeChar at h
  split at h
  · simp only [List.mem_cons, List.not_mem_nil, or_false] at h
    rcases h with rfl | rfl
    · exact isWordChar_underscore
    · exact .inl (by decide)
  · split at h
    · next hd =>
      rw [List.mem_singleton] at h
      subst h
      exact .inl hd
    · simp only [List.mem_cons] at h
      rcases h with rfl | rfl | h
      · exact isWordChar_underscore
      · exact .inl (by decide)
      · exact Text.Hex.isWordChar_of_mem_padded h

theorem isWordChar_of_mem_escapeName {c : Char} {cs : List Char} (h : c ∈ escapeName cs) :
    IsWordChar c := by
  obtain ⟨d, -, hd⟩ := List.mem_flatMap.mp h
  exact isWordChar_of_mem_escapeChar hd

theorem isWordChar_of_mem_escapePath {c : Char} {cs : List Char} (h : c ∈ escapePath cs) :
    IsWordChar c := by
  induction cs using escapePath.induct with
  | case1 cs ih =>
    simp only [escapePath, List.mem_cons] at h
    rcases h with rfl | rfl | h
    · exact isWordChar_underscore
    · exact isWordChar_underscore
    · exact ih h
  | case2 d cs hd ih =>
    rw [escapePath.eq_2 _ _ hd, List.mem_append] at h
    rcases h with h | h
    · exact isWordChar_of_mem_escapeChar h
    · exact ih h
  | case3 => cases h

theorem isWordChar_of_mem_sanitize {c : Char} {i : Identity} (h : c ∈ (sanitize i).toList) :
    IsWordChar c := by
  simp only [sanitize, String.toList_ofList, sanitizeChars] at h
  split at h
  · exact isWordChar_of_mem_escapeName h
  · simp only [List.mem_append, List.mem_cons] at h
    rcases h with h | rfl | rfl | h
    · exact isWordChar_of_mem_escapePath h
    · exact isWordChar_underscore
    · exact isWordChar_underscore
    · exact isWordChar_of_mem_escapeName h

theorem isWordChar_of_mem_identifier {c : Char} {name : String} (h : isIdentifier name = true)
    (hc : c ∈ name.toList) : IsWordChar c := by
  unfold isIdentifier at h
  split at h
  · cases h
  · next d ds hname =>
    simp only [Bool.and_eq_true, Bool.or_eq_true, decide_eq_true_eq, List.all_eq_true] at h
    obtain ⟨⟨hd, hds⟩, -⟩ := h
    rw [hname, List.mem_cons] at hc
    rcases hc with rfl | hc
    · refine hd.imp_left fun halpha => ?_
      simp [Char.isAlphanum, halpha]
    · exact hds c hc

/-- A name can be decoded, whatever the path and the name of its identity hold, and it can stand
in an identifier. -/
theorem sanitize_decodable :
    (∀ i, unsanitize (sanitize i) = i) ∧ Function.Injective sanitize ∧
      ∀ i, ∀ c ∈ (sanitize i).toList, c.isAlphanum = true ∨ c = '_' :=
  ⟨unsanitize_sanitize, fun _ _ => sanitize_inj.mp, fun _ _ => isWordChar_of_mem_sanitize⟩

end Naming

end Wiring
