/-!
Codes of diagnostics. The first digit tells which step of generation reports a code:
1 the definition, 2 the discovery of modules, 3 the resolution of dependencies, and 9
the configuration or an inconsistency.
-/
namespace Wiring

inductive ErrorCode where
  | e1001 | e1002 | e1003 | e1004 | e1005 | e1006 | e1007 | e1008
  | e2001 | e2002 | e2003 | e2004 | e2005 | e2006
  | e3001 | e3002 | e3003 | e3004
  | e9001 | e9002
deriving DecidableEq, Repr, Inhabited

namespace ErrorCode

/-- All codes in numeric order. -/
def all : List ErrorCode :=
  [e1001, e1002, e1003, e1004, e1005, e1006, e1007, e1008,
    e2001, e2002, e2003, e2004, e2005, e2006,
    e3001, e3002, e3003, e3004,
    e9001, e9002]

def text : ErrorCode → String
  | e1001 => "E1001"
  | e1002 => "E1002"
  | e1003 => "E1003"
  | e1004 => "E1004"
  | e1005 => "E1005"
  | e1006 => "E1006"
  | e1007 => "E1007"
  | e1008 => "E1008"
  | e2001 => "E2001"
  | e2002 => "E2002"
  | e2003 => "E2003"
  | e2004 => "E2004"
  | e2005 => "E2005"
  | e2006 => "E2006"
  | e3001 => "E3001"
  | e3002 => "E3002"
  | e3003 => "E3003"
  | e3004 => "E3004"
  | e9001 => "E9001"
  | e9002 => "E9002"

/-- One paragraph of explanation. -/
def description : ErrorCode → String
  | e1001 => "The definition interface named on the command line does not exist in the " ++
      "given package, or is not an interface."
  | e1002 => "Target accessors take no parameters: every value they return is built " ++
      "from the component's modules."
  | e1003 => "A target returns exactly one value, optionally followed by the canonical " ++
      "error type."
  | e1004 => "A target must return a named type or a reference to a named type."
  | e1005 => "The target's dependency chain contains a fallible provider, but the target " ++
      "does not return an error. Declare the error result on the target."
  | e1006 => "The definition must declare a zero-argument `modules` method returning the " ++
      "modules to include."
  | e1007 => "A definition must declare at least one target accessor besides `modules`."
  | e1008 => "Targets declared directly on the definition become inherent methods of the " ++
      "component, which already has `new` and one `provides_*` method per provider. " ++
      "Rename the target or declare it on a component interface returned by `target`."
  | e2001 => "A module is either a reference to a struct (value module) or an interface " ++
      "(binding module)."
  | e2002 => "Provider methods return one named value (or a reference to one), optionally " ++
      "followed by the canonical error type."
  | e2003 => "Binding methods take one reference to a struct implementation and return " ++
      "the interface it is bound to."
  | e2004 => "Only binding modules may include further modules through `modules`."
  | e2005 => "Every type may be provided or bound by exactly one module method across " ++
      "all reachable modules."
  | e2006 => "A module listed by `modules` has no declaration."
  | e3001 => "A required type has no provider, no binding, and is not an injectable " ++
      "struct reference."
  | e3002 => "Constructing the type requires constructing itself. Break the cycle with a " ++
      "provider that builds one side explicitly."
  | e3003 => "Only named types and references to named types can be injected; slices, " ++
      "maps, tuples, and primitives cannot."
  | e3004 => "The dependency is requested by value but provided by reference, or the " ++
      "other way round."
  | e9001 => "The generator reached an inconsistent state."
  | e9002 => "The generator configuration is invalid, for example a component type or " ++
      "output module name that is not a Rust identifier."

/-- The step of generation that reports a code. -/
inductive Stage where
  | definition
  | discovery
  | resolution
  | generator
deriving DecidableEq, Repr

def stage : ErrorCode → Stage
  | e1001 | e1002 | e1003 | e1004 | e1005 | e1006 | e1007 | e1008 => .definition
  | e2001 | e2002 | e2003 | e2004 | e2005 | e2006 => .discovery
  | e3001 | e3002 | e3003 | e3004 => .resolution
  | e9001 | e9002 => .generator

def isDefinitionError (c : ErrorCode) : Bool :=
  c.stage = .definition

def isDiscoveryError (c : ErrorCode) : Bool :=
  c.stage = .discovery

def isResolutionError (c : ErrorCode) : Bool :=
  c.stage = .resolution

/-- The code that a text names in either letter case. Only ASCII letters have another
case that occurs in a code. -/
def ofText? (s : String) : Option ErrorCode :=
  all.find? fun c => c.text.toList = s.toList.map Char.toUpper

end ErrorCode

end Wiring
