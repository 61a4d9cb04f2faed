import Wiring.Identity
import Wiring.Text.Hex

/-!
Names in generated code. A name that belongs to a type is made from its identity, in
which every character that an identifier cannot hold is escaped. The path and the name
are escaped separately and joined by a double underscore, which no escape contains, so
an identity can be read off its name.
-/
namespace Wiring.Naming

/-- A letter or digit stands for itself, an underscore becomes `_u`, and any other
character becomes `_x` with the six hexadecimal digits of its code point. -/
def escapeChar (c : Char) : List Char :=
  if c = '_' then ['_', 'u']
  else if c.isAlphanum then [c]
  else '_' :: 'x' :: Text.Hex.padded 6 c.toNat

def escapeName (cs : List Char) : List Char :=
  cs.flatMap escapeChar

/-- In a path a double colon becomes a double underscore. -/
def escapePath : List Char → List Char
  | ':' :: ':' :: cs => '_' :: '_' :: escapePath cs
  | c :: cs => escapeChar c ++ escapePath cs
  | [] => []

def sanitizeChars (i : Identity) : List Char :=
  if i.path = "" then escapeName i.name.toList
  else escapePath i.path.toList ++ '_' :: '_' :: escapeName i.name.toList

/-- The part of an identifier that stands for a type. -/
def sanitize (i : Identity) : String :=
  String.ofList (sanitizeChars i)

/-- The keywords that can be written as raw identifiers. -/
def rawKeywords : List String :=
  ["abstract", "as", "async", "await", "become", "box", "break", "const", "continue", "do",
    "dyn", "else", "enum", "extern", "false", "final", "fn", "for", "gen", "if", "impl", "in",
    "let", "loop", "macro", "match", "mod", "move", "mut", "override", "priv", "pub", "ref",
    "return", "static", "struct", "trait", "true", "try", "type", "typeof", "unsafe", "unsized",
    "use", "virtual", "where", "while", "yield"]

/-- A declared name as an identifier; a keyword becomes a raw identifier. -/
def identifier (name : String) : String :=
  if name ∈ rawKeywords then "r#" ++ name else name

/-- Whether a name consists of ASCII letters, digits and underscores, does not start with
a digit, and is not a lone underscore. -/
def isIdentifier (name : String) : Bool :=
  match name.toList with
  | [] => false
  | c :: cs =>
    (c.isAlpha || c = '_') && cs.all (fun d => d.isAlphanum || d = '_') && name ≠ "_"

/-- The function that builds a struct. -/
def factoryFunction (i : Identity) : String :=
  "factory_" ++ sanitize i

/-- The method of the component that calls the provider of a type. -/
def providerMethod (i : Identity) : String :=
  "provides_" ++ sanitize i

/-- The artifact that holds the factory of a struct. -/
def factoryArtifact (i : Identity) : String :=
  sanitize i ++ "_Factory"

/-- The artifact that holds the wrapper of a provider. -/
def providerArtifact (i : Identity) : String :=
  sanitize i ++ "_Provider"

/-- The field of the component that holds a value module. -/
def moduleField (i : Identity) : String :=
  sanitize i

end Wiring.Naming
