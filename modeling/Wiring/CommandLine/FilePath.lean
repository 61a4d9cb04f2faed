import Wiring.Text.Blank

/-!
Names of files and directories. The steps of a path are the parts between slashes; empty
parts and single dots do not count.
-/
namespace Wiring.FilePath

def steps (path : String) : List String :=
  ((Text.splitAt '/' path.toList).map String.ofList).filter fun s => s ≠ "" ∧ s ≠ "."

/-- Whether a path ends in such a way that only a directory can be meant. -/
def namesDirectory (path : String) : Bool :=
  match (Text.splitAt '/' path.toList).getLast? with
  | some part => part = [] || part = ['.']
  | none => true

/-- Whether a dot stands after the last step, so that the path names what is inside. -/
def endsInDot (path : String) : Bool :=
  let parts := (Text.splitAt '/' path.toList).filter (· ≠ [])
  parts.getLast? = some ['.']

def isAbsolute (path : String) : Bool :=
  path.toList.head? = some '/'

/-- The last step of a path, unless it leads upwards. -/
def lastName? (path : String) : Option String :=
  match (steps path).getLast? with
  | some name => if name = ".." then none else some name
  | none => none

/-- The path of something inside a directory; an absolute path stays as it is. -/
def join (directory path : String) : String :=
  if isAbsolute path || directory = "" then path
  else if directory.toList.getLast? = some '/' then directory ++ path
  else directory ++ "/" ++ path

/-- The module that an output directory stands for. -/
def moduleName? (output : String) : Option String :=
  lastName? output

/-- The file of an artifact in an output directory. -/
def artifactPath (output artifact : String) : String :=
  join output (artifact ++ ".rs")

end Wiring.FilePath
