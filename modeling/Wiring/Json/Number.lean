/-!
The size of number literals. A literal is valued in double precision in two roundings:
its leading digits, as many as make a number of 64 bits, are rounded to a double, and
so is the power of ten that scales them. A literal is too large if the product of the
two doubles is not finite. All numbers here are naturals, so the rule is exact.
-/
namespace Wiring.Json.Number

/-- The least number that does not fit 64 bits. -/
def capacity : Nat :=
  Nat.pow 2 64

/-- The least product that rounds to infinity: the largest double is `2^1024 - 2^971`. -/
def bound : Nat :=
  Nat.pow 2 1024 - Nat.pow 2 970

/-- The exponent of the largest power of ten that is a finite double. -/
def maxScale : Nat := 308

/-- The nearest number with at most 53 significant bits; a tie goes to the even one. -/
def nearest (n : Nat) : Nat :=
  if n < Nat.pow 2 53 then n
  else
    let unit := Nat.pow 2 (n.log2 - 52)
    let whole := n / unit
    let rest := 2 * (n % unit)
    if unit < rest || (rest = unit && whole % 2 = 1) then (whole + 1) * unit else whole * unit

def digit (c : Char) : Nat :=
  c.toNat - '0'.toNat

def decimal (digits : List Char) : Nat :=
  digits.foldl (fun n c => 10 * n + digit c) 0

/-- The number that the digits continue from `n` as long as it fits, and how many digits
are left over. -/
def fill (n : Nat) : List Char → Nat × Nat
  | [] => (n, 0)
  | c :: cs =>
    if 10 * n + digit c < capacity then fill (10 * n + digit c) cs else (n, cs.length + 1)

/-- A literal without its sign: an integer that is scaled by a power of ten. -/
structure Parts where
  significand : Nat
  scale : Int
deriving DecidableEq, Repr

def exponentOf : List Char → Int
  | '-' :: digits => -(decimal digits : Int)
  | '+' :: digits => decimal digits
  | digits => decimal digits

/-- A digit that is left over before the point scales the others up, and one that is
taken after the point scales them down. -/
def Parts.ofDigits (integer fraction : List Char) (exponent : Int) : Parts :=
  let (whole, before) := fill 0 integer
  let (significand, after) := fill whole fraction
  { significand, scale := exponent + before - (fraction.length - after : Nat) }

def Parts.ofLiteral (literal : String) : Parts :=
  let unsigned := literal.toList.dropWhile (· = '-')
  let integer := unsigned.takeWhile Char.isDigit
  let rest := unsigned.dropWhile Char.isDigit
  let (fraction, rest) := match rest with
    | '.' :: cs => (cs.takeWhile Char.isDigit, cs.dropWhile Char.isDigit)
    | cs => ([], cs)
  let exponent := match rest with
    | _ :: cs => exponentOf cs
    | [] => 0
  .ofDigits integer fraction exponent

def Parts.isTooLarge (p : Parts) : Bool :=
  if p.significand = 0 then false
  else
    match p.scale with
    | .ofNat n =>
      if maxScale < n then true else bound ≤ nearest p.significand * nearest (Nat.pow 10 n)
    | .negSucc _ => false

def isTooLarge (literal : String) : Bool :=
  (Parts.ofLiteral literal).isTooLarge

end Wiring.Json.Number
