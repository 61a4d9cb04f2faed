import Wiring.ErrorCode

/-!
Diagnostics: a coded message with notes and suggestions, and the report that lists them
one block after another.
-/
namespace Wiring

inductive Severity where
  | error
  | warning
  | note
deriving DecidableEq, Repr

def Severity.text : Severity → String
  | error => "error"
  | warning => "warning"
  | note => "note"

structure Diagnostic where
  code : ErrorCode
  severity : Severity
  message : String := ""
  notes : List String := []
  suggestions : List String := []
deriving DecidableEq, Repr

namespace Diagnostic

def ofError (code : ErrorCode) (message : String) : Diagnostic :=
  { code, severity := .error, message }

def withMessage (d : Diagnostic) (message : String) : Diagnostic :=
  { d with message }

def withNote (d : Diagnostic) (note : String) : Diagnostic :=
  { d with notes := d.notes ++ [note] }

def withSuggestion (d : Diagnostic) (suggestion : String) : Diagnostic :=
  { d with suggestions := d.suggestions ++ [suggestion] }

def isError (d : Diagnostic) : Bool :=
  d.severity = .error

/-- The headline, followed by one line for each note and each suggestion. -/
def display (d : Diagnostic) : String :=
  d.severity.text ++ " [" ++ d.code.text ++ "]: " ++ d.message ++
    String.join (d.notes.map ("\n  = note: " ++ ·)) ++
    String.join (d.suggestions.map ("\n  = help: " ++ ·))

/-- The line that counts the errors, if there are any. -/
def countLine : Nat → String
  | 0 => ""
  | 1 => "error: aborting due to 1 previous error\n"
  | n => "error: aborting due to " ++ toString n ++ " previous errors\n"

def report (ds : List Diagnostic) : String :=
  String.join (ds.map fun d => d.display ++ "\n\n") ++ countLine (ds.filter isError).length

end Diagnostic

end Wiring
