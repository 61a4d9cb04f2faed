import Wiring.Import

/-!
The text of one artifact while it is written. A line is made of pieces, and a declared
type is spelled through the alias of its path at the moment when its piece is written;
the imports are put before the lines when the sheet is finished.
-/
namespace Wiring

/-- The name of the error type in generated code. -/
def errorTypeName : String := "DiError"

/-- The first line of every artifact. -/
def generatedHeader : String := "// Code generated by dihc. DO NOT EDIT.\n"

inductive Piece where
  | text (s : String)
  | typeName (i : Identity)
  | errorType
deriving DecidableEq, Repr

/-- A line of code and how many blocks it stands in. -/
structure Line where
  depth : Nat
  pieces : List Piece
deriving DecidableEq, Repr

def Line.blank : Line :=
  ⟨0, []⟩

structure Sheet where
  imports : ImportTable := .empty
  /-- Whether the error type has been named. -/
  usesError : Bool := false
  depth : Nat := 0
  lines : List String := []
deriving DecidableEq, Repr

namespace Sheet

def empty : Sheet := {}

def spell (s : Sheet) : Piece → String × Sheet
  | .text t => (t, s)
  | .typeName i =>
    let (name, imports) := s.imports.qualify i
    (name, { s with imports })
  | .errorType => (errorTypeName, { s with usesError := true })

def spellAll (s : Sheet) : List Piece → String × Sheet
  | [] => ("", s)
  | p :: ps =>
    let (t, s) := s.spell p
    let (ts, s) := s.spellAll ps
    (t ++ ts, s)

/-- Four blanks for each block around a line; an empty line stays empty. -/
def indented (depth : Nat) (text : String) : String :=
  if text = "" then "" else String.join (List.replicate depth "    ") ++ text

def writeAt (s : Sheet) (depth : Nat) (text : String) : Sheet :=
  { s with lines := s.lines ++ [indented depth text] }

/-- Write a line inside the blocks that are open. -/
def write (s : Sheet) (text : String) : Sheet :=
  s.writeAt s.depth text

def newline (s : Sheet) : Sheet :=
  s.writeAt 0 ""

def indent (s : Sheet) : Sheet :=
  { s with depth := s.depth + 1 }

def dedent (s : Sheet) : Sheet :=
  { s with depth := s.depth - 1 }

def addLine (s : Sheet) (l : Line) : Sheet :=
  let (text, s) := s.spellAll l.pieces
  s.writeAt l.depth text

def ofLines (ls : List Line) : Sheet :=
  ls.foldl addLine empty

/-- The lines that stand before the body: those given, the import of the error type, and
the imports of the paths. -/
def uses (s : Sheet) (preamble : List String) : String :=
  String.join (preamble.map (· ++ "\n")) ++
    (if s.usesError then "use super::" ++ errorTypeName ++ ";\n" else "") ++ s.imports.render

def body (s : Sheet) : String :=
  String.join (s.lines.map (· ++ "\n"))

/-- The whole artifact. A blank line parts the uses, if there are any, from the body. -/
def finish (s : Sheet) (preamble : List String) : String :=
  generatedHeader ++ "\n" ++ s.uses preamble ++
    (if preamble.isEmpty && !s.usesError && s.imports.isEmpty then "" else "\n") ++ s.body

end Sheet

end Wiring
