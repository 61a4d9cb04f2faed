/-!
Arguments of the command. An option takes a value, which stands in the same argument or
in the next one; a switch takes none. Each may be given once. Arguments are read from
left to right, and the first that cannot be read, or that asks for help or the version,
ends the reading.
-/
namespace Wiring

inductive CommandOption where
  | universe
  | definition
  | package
  | output
  | componentType
  | explain
deriving DecidableEq, Repr

inductive Switch where
  | dryRun
  | verbose
deriving DecidableEq, Repr

/-- What an option name stands for. -/
inductive ArgumentName where
  | option (o : CommandOption)
  | switch (s : Switch)
  | help
  | version
deriving DecidableEq, Repr

/-- Why no command is run. -/
inductive ArgumentStop where
  | invalid
  | help
  | version
deriving DecidableEq, Repr

def ArgumentStop.exitCode : ArgumentStop → Nat
  | invalid => 2
  | help | version => 0

def ArgumentName.ofLong? : String → Option ArgumentName
  | "universe" => some (.option .universe)
  | "definition" => some (.option .definition)
  | "package" => some (.option .package)
  | "output" => some (.option .output)
  | "component-type" => some (.option .componentType)
  | "explain" => some (.option .explain)
  | "dry-run" => some (.switch .dryRun)
  | "verbose" => some (.switch .verbose)
  | "help" => some .help
  | "version" => some .version
  | _ => none

def ArgumentName.ofShort? : Char → Option ArgumentName
  | 'u' => some (.option .universe)
  | 'd' => some (.option .definition)
  | 'p' => some (.option .package)
  | 'o' => some (.option .output)
  | 'v' => some (.switch .verbose)
  | 'h' => some .help
  | 'V' => some .version
  | _ => none

/-- The command that the arguments ask for. -/
structure Arguments where
  universe? : Option String := none
  definition? : Option String := none
  package? : Option String := none
  output : String := "digen"
  componentType : String := "GeneratedComponent"
  dryRun : Bool := false
  verbose : Bool := false
  explain? : Option String := none
deriving DecidableEq, Repr

/-- What has been given so far, and the option whose value comes next. -/
structure GivenArguments where
  values : List (CommandOption × String) := []
  switches : List Switch := []
  awaiting : Option CommandOption := none
deriving DecidableEq, Repr

namespace GivenArguments

/-- Whether an option names a file or directory, which has to have a name. -/
def isPath : CommandOption → Bool
  | .universe | .output => true
  | .definition | .package | .componentType | .explain => false

def value? (g : GivenArguments) (o : CommandOption) : Option String :=
  g.values.lookup o

def give (g : GivenArguments) (o : CommandOption) (value : String) :
    Except ArgumentStop GivenArguments :=
  if (g.value? o).isSome || (isPath o && value = "") then .error .invalid
  else .ok { g with values := g.values ++ [(o, value)], awaiting := none }

def turnOn (g : GivenArguments) (s : Switch) : Except ArgumentStop GivenArguments :=
  if s ∈ g.switches then .error .invalid
  else .ok { g with switches := g.switches ++ [s] }

/-- A name without a value in the same argument. -/
def name (g : GivenArguments) : ArgumentName → Except ArgumentStop GivenArguments
  | .option o => .ok { g with awaiting := some o }
  | .switch s => g.turnOn s
  | .help => .error .help
  | .version => .error .version

/-- An argument after two dashes: a name, or an option and its value. -/
def long (g : GivenArguments) (cs : List Char) : Except ArgumentStop GivenArguments :=
  let key := cs.takeWhile (· ≠ '=')
  match ArgumentName.ofLong? (String.ofList key), cs.drop key.length with
  | some n, [] => g.name n
  | some (.option o), _ :: value => g.give o (String.ofList value)
  | _, _ => .error .invalid

/-- An argument after one dash: switches, and perhaps an option, whose value may follow
directly or after an equals sign. -/
def short (g : GivenArguments) : List Char → Except ArgumentStop GivenArguments
  | [] => .ok g
  | c :: cs =>
    match ArgumentName.ofShort? c with
    | none => .error .invalid
    | some (.option o) =>
      match cs with
      | [] => .ok { g with awaiting := some o }
      | '=' :: value => g.give o (String.ofList value)
      | value => g.give o (String.ofList value)
    | some n =>
      match g.name n with
      | .ok g => short g cs
      | .error stop => .error stop

/-- Whether an argument can be the value of the option before it. -/
def isValue (arg : String) : Bool :=
  match arg.toList with
  | '-' :: _ :: _ => false
  | _ => true

def take (g : GivenArguments) (arg : String) : Except ArgumentStop GivenArguments :=
  match g.awaiting with
  | some o => if isValue arg then g.give o arg else .error .invalid
  | none =>
    match arg.toList with
    | '-' :: '-' :: cs => g.long cs
    | '-' :: c :: cs => g.short (c :: cs)
    | _ => .error .invalid

/-- Read arguments; nothing may follow two lone dashes. -/
def takeAll (g : GivenArguments) : List String → Except ArgumentStop GivenArguments
  | [] => .ok g
  | arg :: rest =>
    if arg = "--" ∧ g.awaiting = none then
      if rest.isEmpty then .ok g else .error .invalid
    else
      match g.take arg with
      | .ok g => takeAll g rest
      | .error stop => .error stop

def arguments (g : GivenArguments) : Arguments where
  universe? := g.value? .universe
  definition? := g.value? .definition
  package? := g.value? .package
  output := (g.value? .output).getD "digen"
  componentType := (g.value? .componentType).getD "GeneratedComponent"
  dryRun := g.switches.contains .dryRun
  verbose := g.switches.contains .verbose
  explain? := g.value? .explain

/-- Whether nothing is missing: no value, and neither the universe nor the definition
unless a code is to be explained. -/
def isComplete (g : GivenArguments) : Bool :=
  g.awaiting.isNone &&
    ((g.value? .explain).isSome ||
      (g.value? .universe).isSome && (g.value? .definition).isSome)

end GivenArguments

def Arguments.parse (args : List String) : Except ArgumentStop Arguments :=
  match GivenArguments.takeAll {} args with
  | .error stop => .error stop
  | .ok g => if g.isComplete then .ok g.arguments else .error .invalid

end Wiring
