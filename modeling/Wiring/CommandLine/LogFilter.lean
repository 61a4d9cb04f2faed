import Wiring.Text.Blank

/-!
The directives that select log records: those of the environment, or warnings only, and
with verbose output the debug records of the generator as well.
-/
namespace Wiring.LogFilter

def verboseTargets : List String :=
  ["dih_resolve", "dih_codegen", "dih_compiler", "dihc"]

def base (env : Option String) : String :=
  let given := String.ofList (Text.trim (env.getD "").toList)
  if given = "" then "warn" else given

def directives (env : Option String) (verbose : Bool) : String :=
  base env ++
    if verbose then String.join (verboseTargets.map fun t => "," ++ t ++ "=debug") else ""

end Wiring.LogFilter
