import Wiring.Text.Hex

/-!
Hexadecimal numerals are read back as the numbers that they were written for, with or without
leading zeros. A numeral has as many digits as its number needs, and zeros fill it up to the
width that is asked for.
-/
namespace Wiring.Text.Hex

theorem digit?_digitChar {d : Nat} (h : d < 16) : digit? (Nat.digitChar d) = some d := by
  have hall : ∀ d < 16, digit? (Nat.digitChar d) = some d := by decide
  exact hall d h

theorem extend?_append (n : Nat) (cs ds : List Char) :
    extend? n (cs ++ ds) = (extend? n cs).bind fun m => extend? m ds := by
  induction cs generalizing n with
  | nil => rfl
  | cons c cs ih =>
    cases hc : digit? c with
    | none => simp [extend?, hc]
    | some d => simp [extend?, hc, ih]

theorem digits_of_lt {n : Nat} (h : n < 16) : digits n = [Nat.digitChar n] :=
  Nat.toDigits_of_lt_base h

theorem digits_of_le {n : Nat} (h : 16 ≤ n) :
    digits n = digits (n / 16) ++ [Nat.digitChar (n % 16)] :=
  Nat.toDigits_of_base_le (by decide) h

theorem extend?_digits (n : Nat) : extend? 0 (digits n) = some n := by
  induction n using Nat.strongRecOn with
  | ind n ih =>
    by_cases hn : n < 16
    · simp [digits_of_lt hn, extend?, digit?_digitChar hn]
    · have hle : 16 ≤ n := by omega
      have hrest : n % 16 < 16 := by omega
      have hwhole : 16 * (n / 16) + n % 16 = n := by omega
      rw [digits_of_le hle, extend?_append, ih (n / 16) (by omega)]
      simp [extend?, digit?_digitChar hrest, hwhole]

theorem extend?_zeros (k : Nat) (cs : List Char) :
    extend? 0 (List.replicate k '0' ++ cs) = extend? 0 cs := by
  have hzero : digit? '0' = some 0 := by decide
  induction k with
  | zero => rfl
  | succ k ih => simpa [List.replicate_succ, extend?, hzero] using ih

theorem digits_ne_nil (n : Nat) : digits n ≠ [] := by
  by_cases hn : n < 16
  · simp [digits_of_lt hn]
  · simp [digits_of_le (n := n) (by omega)]

theorem value?_digits (n : Nat) : value? (digits n) = some n := by
  simp [value?, digits_ne_nil, extend?_digits]

theorem value?_padded (width n : Nat) : value? (padded width n) = some n := by
  simp [value?, padded, List.leftpad, digits_ne_nil, extend?_zeros, extend?_digits]

theorem length_digits_le {n width : Nat} (h : n < Nat.pow 16 width) (hwidth : 0 < width) :
    (digits n).length ≤ width := by
  induction width generalizing n with
  | zero => omega
  | succ width ih =>
    by_cases hn : n < 16
    · simp [digits_of_lt hn]
    · have hle : 16 ≤ n := by omega
      have hquotient : n / 16 < Nat.pow 16 width := (Nat.div_lt_iff_lt_mul (by decide)).mpr h
      have hpos : 0 < width := by
        rcases Nat.eq_zero_or_pos width with rfl | hpos
        · have hone : n < 1 * 16 := h
          omega
        · exact hpos
      have hlength := ih hquotient hpos
      simp [digits_of_le hle]
      omega

theorem length_padded {n width : Nat} (h : n < Nat.pow 16 width) (hwidth : 0 < width) :
    (padded width n).length = width := by
  have hle := length_digits_le h hwidth
  simp [padded, List.leftpad]
  omega

end Wiring.Text.Hex
