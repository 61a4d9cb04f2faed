import Wiring.Text.Blank
import Wiring.Text.Hex

/-!
Markers of a declaration. A set of markers is eight bits, two of which have a name; the
others are kept as they are. The text of a set lists the names, then the bits without
one in hexadecimal. Reading is more generous: names and numerals in any order.
-/
namespace Wiring

structure Flags where
  bits : UInt8
deriving DecidableEq, Repr, Inhabited

namespace Flags

def empty : Flags := ⟨0⟩

/-- The struct can be built field by field, without a provider. -/
def inject : Flags := ⟨1⟩

/-- The module is passed to the component instead of being built by it. -/
def providedModule : Flags := ⟨2⟩

def union (f g : Flags) : Flags :=
  ⟨f.bits ||| g.bits⟩

def contains (f g : Flags) : Bool :=
  f.bits &&& g.bits == g.bits

/-- The flags that have a name, in the order in which they are written. -/
def named : List (String × Flags) :=
  [("INJECT", inject), ("PROVIDED_MODULE", providedModule)]

/-- The bits that belong to no named flag. -/
def unnamedBits (f : Flags) : UInt8 :=
  f.bits &&& 0xfc

def segments (f : Flags) : List String :=
  (named.filter fun entry => f.contains entry.2).map Prod.fst ++
    if f.unnamedBits = 0 then []
    else ["0x" ++ String.ofList (Text.Hex.digits f.unnamedBits.toNat)]

/-- The written form. -/
def text (f : Flags) : String :=
  " | ".intercalate f.segments

/-- A numeral of one byte, which may carry a plus sign. -/
def byte? (cs : List Char) : Option UInt8 :=
  let digits := match cs with
    | '+' :: rest => rest
    | _ => cs
  match Text.Hex.value? digits with
  | some n => if n < 256 then some (UInt8.ofNat n) else none
  | none => none

/-- One trimmed segment: the exact name of a flag, or a numeral after `0x`. -/
def segment? (cs : List Char) : Option Flags :=
  match cs with
  | '0' :: 'x' :: rest => (byte? rest).map Flags.mk
  | _ => (named.find? fun entry => entry.1.toList = cs).map Prod.snd

def ofSegments? : List (List Char) → Option Flags
  | [] => some empty
  | cs :: rest =>
    match segment? (Text.trim cs), ofSegments? rest with
    | some f, some g => some (f.union g)
    | _, _ => none

/-- The set that a text stands for: a blank text is the empty set, and otherwise every
part between bars has to be a segment. -/
def ofText? (s : String) : Option Flags :=
  if (Text.trim s.toList).isEmpty then some empty
  else ofSegments? (Text.splitAt '|' s.toList)

end Flags

end Wiring
