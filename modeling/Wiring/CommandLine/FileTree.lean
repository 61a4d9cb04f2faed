import Wiring.CommandLine.FilePath

/-!
A tree of files around a working directory. A place in the tree is a list of steps from
the working directory; steps upwards, or one to the root, come first. Only the places
below the working directory are known at the start.
-/
namespace Wiring

/-- Why an operation on files is refused. -/
inductive FileError where
  | notFound
  | exists
  | notDirectory
  | isDirectory
deriving DecidableEq, Repr

def FileError.text : FileError → String
  | notFound => "No such file or directory (os error 2)"
  | .exists => "File exists (os error 17)"
  | notDirectory => "Not a directory (os error 20)"
  | isDirectory => "Is a directory (os error 21)"

inductive FileEntry where
  | file (content : String)
  | directory
deriving DecidableEq, Repr

structure FileTree where
  entries : List (List String × FileEntry) := []
deriving DecidableEq, Repr

namespace FileTree

abbrev Place := List String

/-- The step from the root. -/
def rootStep : String := "/"

def start (path : String) : Place :=
  if FilePath.isAbsolute path then [rootStep] else []

def up (p : Place) : Place :=
  if p = [rootStep] then p
  else if p.all (· = "..") then p ++ [".."]
  else p.dropLast

/-- What stands at a place. The working directory and those above it are directories. -/
def entry? (t : FileTree) (p : Place) : Option FileEntry :=
  if p = [rootStep] || p.all (· = "..") then some .directory else t.entries.lookup p

def isDirectory (t : FileTree) (p : Place) : Bool :=
  t.entry? p = some .directory

def put (t : FileTree) (p : Place) (e : FileEntry) : FileTree :=
  { entries := t.entries.filter (fun x => x.1 ≠ p) ++ [(p, e)] }

/-- Follow steps, each of which has to lead to a directory. -/
def follow (t : FileTree) (p : Place) : List String → Except FileError Place
  | [] => .ok p
  | s :: rest =>
    if s = ".." then t.follow (up p) rest
    else
      match t.entry? (p ++ [s]) with
      | none => .error .notFound
      | some (.file _) => .error .notDirectory
      | some .directory => t.follow (p ++ [s]) rest

/-- The place that a path names, which need not be taken. -/
def locate (t : FileTree) (path : String) : Except FileError Place :=
  let steps := FilePath.steps path
  match steps.getLast? with
  | none => .ok (start path)
  | some last =>
    match t.follow (start path) steps.dropLast with
    | .error e => .error e
    | .ok p => .ok (if last = ".." then up p else p ++ [last])

def read (t : FileTree) (path : String) : Except FileError String :=
  match t.locate path with
  | .error e => .error e
  | .ok p =>
    match t.entry? p with
    | none => .error .notFound
    | some .directory => .error .isDirectory
    | some (.file content) =>
      if FilePath.namesDirectory path then .error .notDirectory else .ok content

def write (t : FileTree) (path content : String) : Except FileError FileTree :=
  match t.locate path with
  | .error e => .error e
  | .ok p => if t.isDirectory p then .error .isDirectory else .ok (t.put p (.file content))

/-- Make one directory, given by the steps to it, the last one first. -/
def makeDirectory (t : FileTree) (base : Place) : List String → Except FileError FileTree
  | [] => .error .exists
  | last :: before =>
    match t.follow base before.reverse with
    | .error e => .error e
    | .ok p =>
      if last = ".." || (t.entry? (p ++ [last])).isSome then .error .exists
      else .ok (t.put (p ++ [last]) .directory)

/-- Whether steps, the last one first, lead to a directory. -/
def leadsToDirectory (t : FileTree) (base : Place) (steps : List String) : Bool :=
  match t.follow base steps.reverse with
  | .ok _ => true
  | .error _ => false

def makeUnlessThere (t : FileTree) (base : Place) (steps : List String) :
    Except FileError FileTree :=
  match t.makeDirectory base steps with
  | .ok t => .ok t
  | .error e => if t.leadsToDirectory base steps then .ok t else .error e

/-- Make a directory and those above it that are missing; the steps to it are given the
last one first. -/
def makeDirectories (t : FileTree) (base : Place) : List String → Except FileError FileTree
  | [] => .ok t
  | last :: before =>
    match t.makeUnlessThere base (last :: before) with
    | .ok t => .ok t
    | .error .notFound =>
      match t.makeDirectories base before with
      | .error e => .error e
      | .ok t => t.makeUnlessThere base (last :: before)
    | .error e => .error e

/-- Make the directories above a place; the place itself has to be there then. -/
def makeAbove (t : FileTree) (base : Place) (steps : List String) : Except FileError FileTree :=
  match t.makeDirectories base steps.dropLast.reverse with
  | .error e => .error e
  | .ok t => (t.follow base steps).map fun _ => t

/-- Make the directory that a path names and those above it. A path that ends in a dot
names the inside of a directory, which cannot be made before the directory is there. -/
def createAll (t : FileTree) (path : String) : Except FileError FileTree :=
  let base := start path
  let steps := FilePath.steps path
  if FilePath.endsInDot path then
    match t.follow base steps with
    | .ok _ => .ok t
    | .error .notFound => t.makeAbove base steps
    | .error e => .error e
  else t.makeDirectories base steps.reverse

/-- Add a file below the working directory together with its directories. -/
def addFile (t : FileTree) (path content : String) : FileTree :=
  let steps := FilePath.steps path
  match t.createAll ("/".intercalate steps.dropLast) with
  | .ok t => t.put steps (.file content)
  | .error _ => t

def ofFiles (files : List (String × String)) : FileTree :=
  files.foldl (fun t f => t.addFile f.1 f.2) {}

/-- The files below the working directory that `t` has and `old` has not, or not so. -/
def changesSince (t old : FileTree) : List (String × String) :=
  t.entries.filterMap fun
    | (p, .file content) =>
      if p.head? = some ".." || p.head? = some rootStep || old.entry? p = some (.file content) then
        none
      else some ("/".intercalate p, content)
    | (_, .directory) => none

end FileTree

end Wiring
