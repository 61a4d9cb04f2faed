import Wiring.Json.Value
import Wiring.Universe

/-!
Declarations and universes as JSON values. Every field is written, in a fixed order, and
a universe lists its declarations in the order of their identities.
-/
namespace Wiring

def Identity.toJson (i : Identity) : Json :=
  .object [("path", .string i.path), ("name", .string i.name)]

namespace TypeRef

mutual

def toJson : TypeRef → Json
  | named i => .object [("named", i.toJson)]
  | pointer t => .object [("pointer", toJson t)]
  | slice t => .object [("slice", toJson t)]
  | map k v => .object [("map", .array [toJson k, toJson v])]
  | tuple ts => .object [("tuple", .array (allToJson ts))]
  | builtin n => .object [("builtin", .string n)]
  | error => .string "error"

def allToJson : List TypeRef → List Json
  | [] => []
  | t :: ts => toJson t :: allToJson ts

end

end TypeRef

def Visibility.name : Visibility → String
  | .public => "public"
  | .private => "private"

def FieldTag.name : FieldTag → String
  | .assign => "none"
  | .skip => "skip"

def Param.toJson (p : Param) : Json :=
  .object [("name", .string p.name), ("type", p.type.toJson)]

def Field.toJson (f : Field) : Json :=
  .object [("name", .string f.name), ("type", f.type.toJson),
    ("visibility", .string f.visibility.name), ("tag", .string f.tag.name)]

def Method.toJson (m : Method) : Json :=
  .object [("name", .string m.name), ("visibility", .string m.visibility.name),
    ("params", .array (m.params.map Param.toJson)),
    ("results", .array (m.results.map TypeRef.toJson))]

namespace Decl

/-- The members that tell what kind of type is declared. -/
def kindMembers : Kind → List (String × Json)
  | .struct fields methods =>
    [("kind", .string "struct"), ("fields", .array (fields.map Field.toJson)),
      ("methods", .array (methods.map Method.toJson))]
  | .interface methods =>
    [("kind", .string "interface"), ("methods", .array (methods.map Method.toJson))]
  | .sealed methods =>
    [("kind", .string "opaque"), ("methods", .array (methods.map Method.toJson))]

def toJson (d : Decl) : Json :=
  .object ([("path", .string d.identity.path), ("name", .string d.identity.name)] ++
    kindMembers d.kind ++
    [("visibility", .string d.visibility.name), ("flags", .string d.flags.text)])

end Decl

namespace Universe

def toJson (u : Universe) : Json :=
  let root := match u.rootPackage with
    | some package => [("root_package", Json.string package)]
    | none => []
  .object (root ++ [("types", .array (u.decls.map Decl.toJson))])

/-- The text of a universe file. -/
def text (u : Universe) : String :=
  u.toJson.text

end Universe

end Wiring
