import Wiring.Text.Hex

/-!
JSON text as a sequence of tokens. The lexer takes one character at a time, so that a
text is read by one pass from left to right. A text that ends inside a token leaves a
broken token behind, and a character that no token can start with or go on with leaves
a stray one; nothing is read after a stray token.
-/
namespace Wiring.Json

/-- Quoted text. It is sound if every escaped surrogate belongs to a pair; where it is
not, the text leaves the surrogates out. -/
structure Quoted where
  text : String
  sound : Bool
deriving DecidableEq, Repr

/-- What was being read when the text ended. -/
inductive Broken where
  | word
  | number
  | string (sound : Bool)
deriving DecidableEq, Repr

inductive Token where
  | openArray
  | closeArray
  | openObject
  | closeObject
  | comma
  | colon
  | null
  | bool (value : Bool)
  | number (literal : String)
  | string (quoted : Quoted)
  | broken (inside : Broken)
  | stray
deriving DecidableEq, Repr

/-- How far a number has been read. -/
inductive NumberPart where
  | sign
  | zero
  | integer
  | point
  | fraction
  | exponentMark
  | exponentSign
  | exponent
deriving DecidableEq, Repr

namespace NumberPart

/-- The part that `c` leads to, if a number can go on with it. -/
def next? (p : NumberPart) (c : Char) : Option NumberPart :=
  match p with
  | sign => if c = '0' then some zero else if c.isDigit then some integer else none
  | zero => afterInteger c
  | integer => if c.isDigit then some integer else afterInteger c
  | point => if c.isDigit then some fraction else none
  | fraction => if c.isDigit then some fraction else afterFraction c
  | exponentMark =>
    if c = '+' ∨ c = '-' then some exponentSign
    else if c.isDigit then some exponent else none
  | exponentSign => if c.isDigit then some exponent else none
  | exponent => if c.isDigit then some exponent else none
where
  afterFraction (c : Char) : Option NumberPart :=
    if c = 'e' ∨ c = 'E' then some exponentMark else none
  afterInteger (c : Char) : Option NumberPart :=
    if c = '.' then some point else afterFraction c

/-- Whether a number is complete when nothing more of it follows. -/
def isComplete : NumberPart → Bool
  | zero | integer | fraction | exponent => true
  | sign | point | exponentMark | exponentSign => false

/-- A digit after a leading zero is neither part of the number nor a new token. -/
def refuses (p : NumberPart) (c : Char) : Bool :=
  p = zero && c.isDigit

end NumberPart

/-- Quoted text up to some point: its characters, latest first, whether it is sound, and
the leading half of a surrogate pair that still waits for the other half. -/
structure Partial where
  chars : List Char := []
  sound : Bool := true
  leading : Option Nat := none
deriving DecidableEq, Repr

namespace Partial

/-- Something other than the second half of a pair follows. -/
def settle (p : Partial) : Partial :=
  { p with sound := p.sound && p.leading.isNone, leading := none }

def push (p : Partial) (c : Char) : Partial :=
  { p.settle with chars := c :: p.chars }

/-- An escaped code unit follows. -/
def pushUnit (p : Partial) (n : Nat) : Partial :=
  if 0xdc00 ≤ n ∧ n ≤ 0xdfff then
    match p.leading with
    | some high =>
      let c := Char.ofNat ((high - 0xd800) * 0x400 + (n - 0xdc00) + 0x10000)
      { p with chars := c :: p.chars, leading := none }
    | none => { p with sound := false }
  else if 0xd800 ≤ n ∧ n ≤ 0xdbff then { p.settle with leading := some n }
  else p.push (Char.ofNat n)

def finish (p : Partial) : Quoted :=
  ⟨String.ofList p.chars.reverse, p.settle.sound⟩

end Partial

/-- What the lexer is in the middle of. -/
inductive Mode where
  | idle
  | word (rest : List Char) (token : Token)
  | number (part : NumberPart) (read : List Char)
  | string (read : Partial)
  | escape (read : Partial)
  | unit (read : Partial) (digits : List Char)
  | stopped
deriving DecidableEq, Repr

/-- The tokens read so far, latest first, and what comes next. -/
structure Lexer where
  mode : Mode := .idle
  tokens : List Token := []
deriving DecidableEq, Repr

namespace Lexer

def emit (l : Lexer) (t : Token) : Lexer :=
  { mode := .idle, tokens := t :: l.tokens }

def stop (l : Lexer) : Lexer :=
  { mode := .stopped, tokens := .stray :: l.tokens }

/-- Take a character between two tokens. -/
def start (l : Lexer) (c : Char) : Lexer :=
  match c with
  | ' ' | '\n' | '\t' | '\r' => l
  | '[' => l.emit .openArray
  | ']' => l.emit .closeArray
  | '\x7b' => l.emit .openObject
  | '\x7d' => l.emit .closeObject
  | ',' => l.emit .comma
  | ':' => l.emit .colon
  | '"' => { l with mode := .string {} }
  | 'n' => { l with mode := .word ['u', 'l', 'l'] .null }
  | 't' => { l with mode := .word ['r', 'u', 'e'] (.bool true) }
  | 'f' => { l with mode := .word ['a', 'l', 's', 'e'] (.bool false) }
  | '-' => { l with mode := .number .sign ['-'] }
  | '0' => { l with mode := .number .zero ['0'] }
  | _ => if c.isDigit then { l with mode := .number .integer [c] } else l.stop

def feedString (l : Lexer) (p : Partial) (c : Char) : Lexer :=
  if c = '"' then l.emit (.string p.finish)
  else if c = '\\' then { l with mode := .escape p }
  else if c < ' ' then l.stop
  else { l with mode := .string (p.push c) }

/-- The character that a letter stands for after a backslash. -/
def escaped? : Char → Option Char
  | '"' => some '"'
  | '\\' => some '\\'
  | '/' => some '/'
  | 'b' => some '\x08'
  | 'f' => some '\x0c'
  | 'n' => some '\n'
  | 'r' => some '\r'
  | 't' => some '\t'
  | _ => none

def feedEscape (l : Lexer) (p : Partial) (c : Char) : Lexer :=
  if c = 'u' then { l with mode := .unit p [] }
  else
    match escaped? c with
    | some c => { l with mode := .string (p.push c) }
    | none => l.stop

/-- Four bytes are taken as the digits of a code unit before they are looked at. -/
def feedUnit (l : Lexer) (p : Partial) (digits : List Char) (c : Char) : Lexer :=
  let digits := c :: digits
  if (String.ofList digits).utf8ByteSize < 4 then { l with mode := .unit p digits }
  else
    match Text.Hex.value? digits.reverse with
    | some n => { l with mode := .string (p.pushUnit n) }
    | none => l.stop

def feedNumber (l : Lexer) (part : NumberPart) (read : List Char) (c : Char) : Lexer :=
  match part.next? c with
  | some part => { l with mode := .number part (c :: read) }
  | none =>
    if part.isComplete && !part.refuses c then
      (l.emit (.number (String.ofList read.reverse))).start c
    else l.stop

def feedWord (l : Lexer) (rest : List Char) (token : Token) (c : Char) : Lexer :=
  match rest with
  | [] => l.stop
  | [d] => if c = d then l.emit token else l.stop
  | d :: rest => if c = d then { l with mode := .word rest token } else l.stop

/-- Take one more character of the text. -/
def feed (l : Lexer) (c : Char) : Lexer :=
  match l.mode with
  | .idle => l.start c
  | .word rest token => l.feedWord rest token c
  | .number part read => l.feedNumber part read c
  | .string p => l.feedString p c
  | .escape p => l.feedEscape p c
  | .unit p digits => l.feedUnit p digits c
  | .stopped => l

/-- The tokens in order, when the text ends here. -/
def finish (l : Lexer) : List Token :=
  match l.mode with
  | .idle | .stopped => l.tokens.reverse
  | .word _ _ => (Token.broken .word :: l.tokens).reverse
  | .number part read =>
    let token := if part.isComplete then Token.number (String.ofList read.reverse)
      else .broken .number
    (token :: l.tokens).reverse
  | .string p | .escape p | .unit p _ => (Token.broken (.string p.sound) :: l.tokens).reverse

end Lexer

def tokens (cs : List Char) : List Token :=
  (cs.foldl Lexer.feed {}).finish

end Wiring.Json
