import Wiring.Json.Value
import Wiring.Json.Token
import Wiring.Json.Number

/-!
JSON text as the tree of values that it holds as far as it is well formed. A tree may be
cut: what stands after the cut is not read. Readers walk through a tree in the order of
the text, so the first fault that they meet is the first fault of the text.
-/
namespace Wiring.Json

/-- Why a text is not taken. -/
inductive TextFault where
  /-- The text ended too early. -/
  | incomplete
  /-- The text is not JSON. -/
  | malformed
  /-- The text is JSON for something else. -/
  | shape
deriving DecidableEq, Repr

/-- Where a tree is cut, and what is found there; nothing is found where the text ends. -/
inductive Cut where
  /-- A value or a name has to start here. -/
  | atStart (found : Option Token)
  /-- A comma, a colon or a closing bracket has to stand here. -/
  | between (ended : Bool)
deriving DecidableEq, Repr

inductive Draft where
  | null
  | bool (value : Bool)
  | number (literal : String)
  | string (quoted : Quoted)
  | array (items : List Draft) (cut : Option Cut)
  | object (members : List (Quoted × Draft)) (cut : Option Cut)
  | cut (place : Cut)
deriving Repr, Inhabited

/-- A value that is still open, and what has been read of it, latest first. In an object
the key is the name of the member whose value comes next. -/
inductive Frame where
  | array (items : List Draft)
  | object (members : List (Quoted × Draft)) (key : Quoted)
deriving Repr

/-- What has to come next. Innermost frames come first. -/
inductive Expectation where
  | value (frames : List Frame)
  | itemOrEnd (frames : List Frame)
  | nameOrEnd (frames : List Frame)
  | name (members : List (Quoted × Draft)) (frames : List Frame)
  | colon (members : List (Quoted × Draft)) (key : Quoted) (frames : List Frame)
  | afterItem (items : List Draft) (frames : List Frame)
  | afterMember (members : List (Quoted × Draft)) (frames : List Frame)
  | nothing (root : Draft) (trailing : Bool)
deriving Repr

/-- The whole tree, when `v` stands in the innermost frame and nothing is read after it. -/
def closeFrames (v : Draft) : List Frame → Draft
  | [] => v
  | .array items :: frames => closeFrames (.array (v :: items).reverse none) frames
  | .object members key :: frames =>
    closeFrames (.object ((key, v) :: members).reverse none) frames

namespace Expectation

/-- Go on after the value `v`. -/
def afterValue (v : Draft) : List Frame → Expectation
  | [] => nothing v false
  | .array items :: frames => afterItem (v :: items) frames
  | .object members key :: frames => afterMember ((key, v) :: members) frames

/-- Nothing is read after the value `v`. -/
def cutAt (v : Draft) (frames : List Frame) : Expectation :=
  nothing (closeFrames v frames) false

def takeValue (frames : List Frame) : Token → Expectation
  | .null => afterValue .null frames
  | .bool b => afterValue (.bool b) frames
  | .number literal => afterValue (.number literal) frames
  | .string quoted => afterValue (.string quoted) frames
  | .openArray => itemOrEnd frames
  | .openObject => nameOrEnd frames
  | t => cutAt (.cut (.atStart (some t))) frames

def takeName (members : List (Quoted × Draft)) (frames : List Frame) : Token → Expectation
  | .string quoted => colon members quoted frames
  | t => cutAt (.object members.reverse (some (.atStart (some t)))) frames

/-- Take one more token. -/
def take : Expectation → Token → Expectation
  | value frames, t => takeValue frames t
  | itemOrEnd frames, .closeArray => afterValue (.array [] none) frames
  | itemOrEnd frames, t => takeValue (.array [] :: frames) t
  | nameOrEnd frames, .closeObject => afterValue (.object [] none) frames
  | nameOrEnd frames, t => takeName [] frames t
  | name members frames, t => takeName members frames t
  | colon members key frames, .colon => value (.object members key :: frames)
  | colon members key frames, _ => cutAt (.cut (.between false)) (.object members key :: frames)
  | afterItem items frames, .comma => value (.array items :: frames)
  | afterItem items frames, .closeArray => afterValue (.array items.reverse none) frames
  | afterItem items frames, _ => cutAt (.array items.reverse (some (.between false))) frames
  | afterMember members frames, .comma => name members frames
  | afterMember members frames, .closeObject => afterValue (.object members.reverse none) frames
  | afterMember members frames, _ => cutAt (.object members.reverse (some (.between false))) frames
  | nothing root _, _ => nothing root true

/-- The tree when the tokens end here, and whether something follows it. -/
def finish : Expectation → Draft × Bool
  | value frames => (closeFrames (.cut (.atStart none)) frames, false)
  | itemOrEnd frames => (closeFrames (.array [] (some (.between true))) frames, false)
  | nameOrEnd frames => (closeFrames (.object [] (some (.atStart none))) frames, false)
  | name members frames =>
    (closeFrames (.object members.reverse (some (.atStart none))) frames, false)
  | colon members key frames =>
    (closeFrames (.cut (.between true)) (.object members key :: frames), false)
  | afterItem items frames =>
    (closeFrames (.array items.reverse (some (.between true))) frames, false)
  | afterMember members frames =>
    (closeFrames (.object members.reverse (some (.between true))) frames, false)
  | nothing root trailing => (root, trailing)

end Expectation

namespace Draft

/-- The tree of a text, and whether something stands after it. -/
def ofChars (cs : List Char) : Draft × Bool :=
  ((tokens cs).foldl Expectation.take (.value [])).finish

end Draft

/-- The fault of a token where another kind of token is needed. A scalar is read to its
end first. -/
def Token.mismatch : Token → TextFault
  | null | bool _ | openArray | openObject => .shape
  | number literal => if Number.isTooLarge literal then .malformed else .shape
  | string quoted => if quoted.sound then .shape else .malformed
  | broken (.string sound) => if sound then .incomplete else .malformed
  | broken .word | broken .number => .incomplete
  | closeArray | closeObject | comma | colon | stray => .malformed

namespace Cut

/-- The fault of a cut where something stands or is missing between two parts. -/
def betweenFault (ended : Bool) : TextFault :=
  if ended then .incomplete else .malformed

/-- The fault of a value that is cut. -/
def fault : Cut → TextFault
  | atStart none => .incomplete
  | atStart (some t) => t.mismatch
  | between ended => betweenFault ended

/-- The fault of an array or object that is cut. Only quoted text is a name. -/
def closeFault : Cut → TextFault
  | atStart none => .incomplete
  | atStart (some (.broken (.string sound))) => (Token.broken (.string sound)).mismatch
  | atStart (some _) => .malformed
  | between ended => betweenFault ended

/-- The fault of a cut inside a value that is passed over: surrogates are not paired up,
and a number has to be complete. -/
def skippedFault : Cut → TextFault
  | atStart none | atStart (some (.broken (.string _))) | atStart (some (.broken .word)) =>
    .incomplete
  | atStart (some _) => .malformed
  | between ended => betweenFault ended

/-- The fault of an array or object that is passed over and cut. -/
def closeSkippedFault : Cut → TextFault
  | atStart none | atStart (some (.broken (.string _))) => .incomplete
  | atStart (some _) => .malformed
  | between ended => betweenFault ended

end Cut

namespace Draft

/-- The fault of a value where another kind of value is needed. The inside of an array or
object is not looked at. -/
def mismatch : Draft → TextFault
  | number literal => (Token.number literal).mismatch
  | string quoted => (Token.string quoted).mismatch
  | cut c => c.fault
  | null | bool _ | array _ _ | object _ _ => .shape

/-- Nothing more stands in an array or object, or it is cut. -/
def close : Option Cut → Except TextFault Unit
  | none => .ok ()
  | some c => .error c.closeFault

def quoted (q : Quoted) : Except TextFault String :=
  if q.sound then .ok q.text else .error .malformed

mutual

/-- The value of a tree that is nowhere cut, in which no number is too large, and in
which at most `depth` arrays and objects are open at once. -/
def settle (depth : Nat) : Draft → Except TextFault Json
  | null => .ok .null
  | bool b => .ok (.bool b)
  | number literal => if Number.isTooLarge literal then .error .malformed else .ok (.number literal)
  | string q => (quoted q).map .string
  | array items c =>
    match depth with
    | 0 => .error .malformed
    | depth + 1 => do
      let values ← settleItems depth items
      close c
      return .array values
  | object members c =>
    match depth with
    | 0 => .error .malformed
    | depth + 1 => do
      let values ← settleMembers depth members
      close c
      return .object values
  | cut c => .error c.fault

def settleItems (depth : Nat) : List Draft → Except TextFault (List Json)
  | [] => .ok []
  | d :: ds => do
    let v ← settle depth d
    let vs ← settleItems depth ds
    return v :: vs

def settleMembers (depth : Nat) : List (Quoted × Draft) → Except TextFault (List (String × Json))
  | [] => .ok []
  | (q, d) :: ms => do
    let name ← quoted q
    let v ← settle depth d
    let vs ← settleMembers depth ms
    return (name, v) :: vs

end

def closeSkipped : Option Cut → Except TextFault Unit
  | none => .ok ()
  | some c => .error c.closeSkippedFault

mutual

/-- Pass over a value of any size, whatever its numbers and surrogates. -/
def skip : Draft → Except TextFault Unit
  | array items c => do
    skipItems items
    closeSkipped c
  | object members c => do
    skipMembers members
    closeSkipped c
  | cut c => .error c.skippedFault
  | null | bool _ | number _ | string _ => .ok ()

def skipItems : List Draft → Except TextFault Unit
  | [] => .ok ()
  | d :: ds => do
    skip d
    skipItems ds

def skipMembers : List (Quoted × Draft) → Except TextFault Unit
  | [] => .ok ()
  | (_, d) :: ms => do
    skip d
    skipMembers ms

end

end Draft

/-- At most this many arrays and objects may be open at once in a value that is kept. -/
def maxDepth : Nat := 127

/-- The value in a text. -/
def ofText (s : String) : Except TextFault Json := do
  let (draft, trailing) := Draft.ofChars s.toList
  let v ← draft.settle maxDepth
  if trailing then throw .malformed
  return v

end Wiring.Json
