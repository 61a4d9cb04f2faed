/-!
Hexadecimal numerals: both letter cases are read, lower case is written.
-/
namespace Wiring.Text.Hex

def digit? (c : Char) : Option Nat :=
  if '0' ≤ c ∧ c ≤ '9' then some (c.toNat - '0'.toNat)
  else if 'a' ≤ c ∧ c ≤ 'f' then some (c.toNat - 'a'.toNat + 10)
  else if 'A' ≤ c ∧ c ≤ 'F' then some (c.toNat - 'A'.toNat + 10)
  else none

/-- The number that the digits `cs` continue from `n`, if all of them are digits. -/
def extend? (n : Nat) : List Char → Option Nat
  | [] => some n
  | c :: cs => (digit? c).bind fun d => extend? (16 * n + d) cs

/-- A numeral has at least one digit. -/
def value? (cs : List Char) : Option Nat :=
  if cs.isEmpty then none else extend? 0 cs

/-- The digits of `n` without leading zeros. -/
def digits (n : Nat) : List Char :=
  Nat.toDigits 16 n

/-- The digits of `n`, filled up with zeros to `width` places. -/
def padded (width n : Nat) : List Char :=
  (digits n).leftpad width '0'

end Wiring.Text.Hex
