import Wiring.CommandLine.Arguments
import Wiring.CommandLine.FileTree
import Wiring.Generation
import Wiring.Universe.Decoding

/-!
The command: explain an error code, or read a universe, generate a component and write
its artifacts into a directory. What is to be written is settled before anything is, so
a run that fails in reading, in its settings or in generation writes nothing.
-/
namespace Wiring

inductive CommandError where
  | missingArgument (name : String)
  | read (path : String) (error : FileError)
  | load (path : String) (error : Universe.LoadError)
  | noPackage (path : String)
  | noModuleName (path : String)
  | write (path : String) (error : FileError)
deriving DecidableEq, Repr

def Json.TextFault.text : Json.TextFault → String
  | incomplete => "the text ends too early"
  | malformed => "the text is not JSON"
  | shape => "a value has the wrong form"

def Universe.LoadError.message : Universe.LoadError → String
  | .unreadable fault => fault.text
  | .duplicate e => e.message

namespace CommandError

def message : CommandError → String
  | missingArgument name => "missing required argument `--" ++ name ++ "`"
  | read path e => "cannot read `" ++ path ++ "`: " ++ e.text
  | load path e => "invalid universe file `" ++ path ++ "`: " ++ e.message
  | noPackage path => "no `--package` given and `" ++ path ++ "` declares no root package"
  | noModuleName path =>
    "cannot derive a module name from output directory `" ++ path ++ "`"
  | write path e => "cannot write `" ++ path ++ "`: " ++ e.text

end CommandError

/-- What a finished run leaves behind. -/
structure Report where
  exitCode : Nat
  stdout : String := ""
  stderr : String := ""
deriving DecidableEq, Repr

def CommandError.report (e : CommandError) : Report where
  exitCode := 1
  stderr := "error: " ++ e.message ++ "\n"

/-- What a run still has to do. -/
inductive Job where
  | done (report : Report)
  /-- Make a directory and write files, each given by its path and its content. -/
  | write (directory : String) (files : List (String × String))
deriving DecidableEq, Repr

namespace Arguments

/-- The settings of a run. A universe may stand in for the package. -/
def settings (a : Arguments) (u : Universe) : Except CommandError Settings :=
  match a.universe?, a.definition? with
  | none, _ => .error (.missingArgument "universe")
  | some _, none => .error (.missingArgument "definition")
  | some path, some definition =>
    match a.package?.or u.rootPackage with
    | none => .error (.noPackage path)
    | some package =>
      match FilePath.moduleName? a.output with
      | none => .error (.noModuleName a.output)
      | some outputModule =>
        .ok { package, definition, outputModule, componentType := a.componentType }

end Arguments

namespace Command

def explain (text : String) : Report :=
  match ErrorCode.ofText? text with
  | some code => { exitCode := 0, stdout := code.text ++ ": " ++ code.description ++ "\n" }
  | none =>
    { exitCode := 1,
      stderr := "Unknown error code: " ++ text ++
        "\n\nCodes have the format EXXXX where X is a digit, e.g. E1001, E3001.\n" }

/-- The files of the artifacts, in the order of their names. -/
def files (output : String) (artifacts : Table Artifact) : List (String × String) :=
  artifacts.toList.map fun a => (FilePath.artifactPath output a.name, a.text)

def jobOf (a : Arguments) (o : Outcome) : Job :=
  match o with
  | .failed _ d _ => .done { exitCode := 1, stderr := Diagnostic.report [d] }
  | .generated artifacts _ =>
    let files := files a.output artifacts
    if a.dryRun then
      .done { exitCode := 0, stdout := String.join (files.map fun f => f.1 ++ "\n") }
    else .write a.output files

/-- What there is to do for a universe that has been read. -/
def prepareWith (a : Arguments) (u : Universe) : Job :=
  match a.settings u with
  | .error e => .done e.report
  | .ok s => jobOf a (generate u s)

/-- What there is to do, given what reading the file at a path comes to. -/
def prepare (a : Arguments) (read : String → Except FileError String) : Job :=
  match a.explain? with
  | some code => .done (explain code)
  | none =>
    match a.universe? with
    | none => .done (CommandError.missingArgument "universe").report
    | some path =>
      match read path with
      | .error e => .done (CommandError.read path e).report
      | .ok text =>
        match Universe.ofText text with
        | .error e => .done (CommandError.load path e).report
        | .ok u => prepareWith a u

/-- Write files in order, up to the first that cannot be written. -/
def writeFiles (t : FileTree) : List (String × String) → Report × FileTree
  | [] => ({ exitCode := 0 }, t)
  | (path, content) :: rest =>
    match t.write path content with
    | .error e => ((CommandError.write path e).report, t)
    | .ok t => writeFiles t rest

/-- Do a job in a tree of files. -/
def perform (t : FileTree) : Job → Report × FileTree
  | .done report => (report, t)
  | .write directory files =>
    match t.createAll directory with
    | .error e => ((CommandError.write directory e).report, t)
    | .ok t => writeFiles t files

/-- Run the command in a tree of files. -/
def run (a : Arguments) (t : FileTree) : Report × FileTree :=
  perform t (prepare a t.read)

end Command

end Wiring
