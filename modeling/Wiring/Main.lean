import Wiring.CommandLine.Command

/-!
The program: arguments, files and streams of the system around `Command.prepare`.
-/
namespace Wiring.Program

def usage : String :=
  "Usage: dihc --universe <UNIVERSE> --definition <DEFINITION> [--package <PACKAGE>] " ++
    "[--output <OUTPUT>] [--component-type <NAME>] [--dry-run] [--verbose] [--explain <CODE>]\n"

def version : String :=
  "dihc 0.3.0\n"

def fileError (e : IO.Error) : FileError :=
  match e with
  | .alreadyExists _ _ _ => .exists
  | .inappropriateType _ _ _ => .notDirectory
  | .illegalOperation _ _ => .isDirectory
  | _ => .notFound

/-- Run an operation on files. -/
def attempt {α : Type} (action : IO α) : IO (Except FileError α) := do
  try
    let x ← action
    return .ok x
  catch e => return .error (fileError e)

def readSource (a : Arguments) : IO (String → Except FileError String) := do
  match a.universe? with
  | none => return fun _ => .error .notFound
  | some path =>
    let content ← attempt (IO.FS.readFile path)
    return fun _ => content

def writeAll : List (String × String) → IO Report
  | [] => return { exitCode := 0 }
  | (path, content) :: rest => do
    match ← attempt (IO.FS.writeFile path content) with
    | .ok () => writeAll rest
    | .error e => return (CommandError.write path e).report

def perform : Job → IO Report
  | .done report => return report
  | .write directory files => do
    match ← attempt (IO.FS.createDirAll directory) with
    | .ok () => writeAll files
    | .error e => return (CommandError.write directory e).report

def run (a : Arguments) : IO UInt32 := do
  let read ← if a.explain?.isSome then pure fun _ => .error .notFound else readSource a
  let report ← perform (Command.prepare a read)
  IO.print report.stdout
  IO.eprint report.stderr
  return UInt32.ofNat report.exitCode

end Wiring.Program

open Wiring in
def main (args : List String) : IO UInt32 := do
  match Arguments.parse args with
  | .ok a => Program.run a
  | .error .help =>
    IO.print Program.usage
    return 0
  | .error .version =>
    IO.print Program.version
    return 0
  | .error .invalid =>
    IO.eprint ("error: the arguments cannot be read\n\n" ++ Program.usage)
    return 2
