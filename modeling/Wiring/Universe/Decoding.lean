import Wiring.Json.Draft
import Wiring.Universe

/-!
Reading declarations and universes from JSON.

A value is decoded into the thing it stands for or not at all. The text of a universe
file is decoded while it is read, and the first fault in it counts: `Universe.ofText`
takes the outer objects apart piece by piece, while what stands inside a declaration is
read to its end before it is decoded.
-/
namespace Wiring

open Json (Draft TextFault Quoted)

namespace Json

/-- Whether `v` can stand for the missing content of a constant that is written as an
object with one member. Inside a declaration an empty object does as well as null. -/
def isVacant (nested : Bool) : Json → Bool
  | null => true
  | object [] => nested
  | _ => false

/-- The name of a constant, written as a string or as an object with one vacant member. -/
def constant? (nested : Bool) : Json → Option String
  | string s => some s
  | object [(name, v)] => if v.isVacant nested then some name else none
  | _ => none

end Json

namespace Identity

def ofJson? (v : Json) : Option Identity :=
  match v.fields? ["path", "name"] with
  | some [some (.string path), some (.string name)] => some ⟨path, name⟩
  | _ => none

end Identity

namespace TypeRef

mutual

/-- The type that a value stands for; `nested` tells whether it stands in a declaration. -/
def ofJson? (nested : Bool) : Json → Option TypeRef
  | .string "error" => some error
  | .object [(form, v)] => ofForm? nested form v
  | _ => none

def ofForm? (nested : Bool) (form : String) (v : Json) : Option TypeRef :=
  match form with
  | "named" => (Identity.ofJson? v).map named
  | "pointer" => (ofJson? nested v).map pointer
  | "slice" => (ofJson? nested v).map slice
  | "map" =>
    match v with
    | .array [k, w] =>
      match ofJson? nested k, ofJson? nested w with
      | some k, some w => some (map k w)
      | _, _ => none
    | _ => none
  | "tuple" =>
    match v with
    | .array vs => (allOfJson? nested vs).map tuple
    | _ => none
  | "builtin" => v.string?.map builtin
  | "error" => if v.isVacant nested then some error else none
  | _ => none

def allOfJson? (nested : Bool) : List Json → Option (List TypeRef)
  | [] => some []
  | v :: vs =>
    match ofJson? nested v, allOfJson? nested vs with
    | some t, some ts => some (t :: ts)
    | _, _ => none

end

end TypeRef

def Visibility.ofName? : String → Option Visibility
  | "public" => some .public
  | "private" => some .private
  | _ => none

def FieldTag.ofName? : String → Option FieldTag
  | "none" => some .assign
  | "skip" => some .skip
  | _ => none

namespace Json

/-- A constant found by its name, or the fallback if the field is left out. -/
def constantOr? {α : Type} (nested : Bool) (ofName? : String → Option α) (fallback : α) :
    Option Json → Option α
  | none => some fallback
  | some v => (v.constant? nested).bind ofName?

end Json

def Visibility.ofField? (nested : Bool) : Option Json → Option Visibility :=
  Json.constantOr? nested Visibility.ofName? .public

def Param.ofJson? (nested : Bool) (v : Json) : Option Param :=
  match v.fields? ["name", "type"] with
  | some [some (.string name), some type] => do
    let type ← TypeRef.ofJson? nested type
    return { name, type }
  | _ => none

def Field.ofJson? (nested : Bool) (v : Json) : Option Field :=
  match v.fields? ["name", "type", "visibility", "tag"] with
  | some [some (.string name), some type, visibility, tag] => do
    let type ← TypeRef.ofJson? nested type
    let visibility ← Visibility.ofField? nested visibility
    let tag ← Json.constantOr? nested FieldTag.ofName? .assign tag
    return { name, type, visibility, tag }
  | _ => none

def Method.ofJson? (nested : Bool) (v : Json) : Option Method :=
  match v.fields? ["name", "visibility", "params", "results"] with
  | some [some (.string name), visibility, params, results] => do
    let visibility ← Visibility.ofField? nested visibility
    let params ← Json.list? (Param.ofJson? nested) params
    let results ← Json.list? (TypeRef.ofJson? nested) results
    return { name, visibility, params, results }
  | _ => none

namespace Decl

inductive KindName where
  | struct
  | interface
  | sealed
deriving DecidableEq, Repr

/-- The kind of a declaration is given by its name or by its number. -/
def KindName.ofJson? : Json → Option KindName
  | .string "struct" | .number "0" => some .struct
  | .string "interface" | .number "1" => some .interface
  | .string "opaque" | .number "2" => some .sealed
  | _ => none

/-- The fields of a struct are read; in other declarations they are ignored. -/
def kindOf? (name : KindName) (members : List (String × Json)) : Option Kind :=
  let methods (v : Option Json) := Json.list? (Method.ofJson? true) v
  match name with
  | .struct =>
    match (Json.object members).fields? ["fields", "methods"] with
    | some [fs, ms] => do
      let fs ← Json.list? (Field.ofJson? true) fs
      let ms ← methods ms
      return .struct fs ms
    | _ => none
  | .interface =>
    match (Json.object members).fields? ["methods"] with
    | some [ms] => (methods ms).map .interface
    | _ => none
  | .sealed =>
    match (Json.object members).fields? ["methods"] with
    | some [ms] => (methods ms).map .sealed
    | _ => none

/-- A declaration from its visibility and flags, which are public and empty if they are
left out, and its other members. -/
def ofMembers? (members : List (String × Json)) (visibility : Option Visibility)
    (flags : Option Flags) : Option Decl :=
  match (Json.object members).fields? ["path", "name", "kind"] with
  | some [some (.string path), some (.string name), some kind] => do
    let kindName ← KindName.ofJson? kind
    let kind ← kindOf? kindName members
    return { identity := ⟨path, name⟩, kind, visibility := visibility.getD .public,
             flags := flags.getD .empty }
  | _ => none

def flagsOfField? : Option Json → Option (Option Flags)
  | none => some none
  | some v => v.string?.bind fun s => (Flags.ofText? s).map some

def ofJson? (v : Json) : Option Decl :=
  match v with
  | .object members =>
    match v.fields? ["visibility", "flags"] with
    | some [visibility, flags] => do
      let visibility ← Visibility.ofField? false visibility
      let flags ← flagsOfField? flags
      ofMembers? members (some visibility) flags
    | _ => none
  | _ => none

/-- Arrays and objects that are open where a member of a declaration stands. -/
def memberDepth : Nat := 3

def visibilityOfName (q : Quoted) : Except TextFault Visibility := do
  match Visibility.ofName? (← Draft.quoted q) with
  | some v => return v
  | none => throw .shape

/-- The fault of an object with no name in the place of its only name. -/
def unnamedFault : Option Json.Cut → TextFault
  | none => .malformed
  | some c => c.closeFault

/-- The end of an object right after its only member, where not even a comma can stand. -/
def closeSingle (rest : List (Quoted × Draft)) (c : Option Json.Cut) : Except TextFault Unit :=
  match rest, c with
  | [], none => .ok ()
  | [], some (.between ended) => .error (Json.Cut.betweenFault ended)
  | _, _ => .error .malformed

/-- A visibility is a name, or an object with that name and null. -/
def visibilityOfDraft : Draft → Except TextFault Visibility
  | .string q => visibilityOfName q
  | .object [] c => throw (unnamedFault c)
  | .object ((q, .null) :: rest) c => do
    let visibility ← visibilityOfName q
    closeSingle rest c
    return visibility
  | .object ((q, v) :: _) _ => do
    let _ ← visibilityOfName q
    throw v.mismatch
  | .cut (.atStart (some (.broken (.string sound)))) =>
    throw (Json.Token.broken (.string sound)).mismatch
  | .cut (.atStart none) | .cut (.between true) => throw .incomplete
  | _ => throw .malformed

def flagsOfDraft : Draft → Except TextFault Flags
  | .string q => do
    let text ← Draft.quoted q
    match Flags.ofText? text with
    | some f => return f
    | none => throw .shape
  | v => throw v.mismatch

/-- What has been read of a declaration. -/
structure Pending where
  visibility : Option Visibility := none
  flags : Option Flags := none
  others : List (String × Json) := []

/-- Read the members in order. -/
def readMembers (p : Pending) : List (Quoted × Draft) → Except TextFault Pending
  | [] => .ok p
  | (q, v) :: rest => do
    let name ← Draft.quoted q
    if name = "visibility" then
      if p.visibility.isSome then throw .shape
      let visibility ← visibilityOfDraft v
      readMembers { p with visibility := some visibility } rest
    else if name = "flags" then
      if p.flags.isSome then throw .shape
      let flags ← flagsOfDraft v
      readMembers { p with flags := some flags } rest
    else
      let value ← v.settle (Json.maxDepth - memberDepth)
      readMembers { p with others := p.others ++ [(name, value)] } rest

def ofDraft : Draft → Except TextFault Decl
  | .object members c => do
    let p ← readMembers {} members
    Draft.close c
    match ofMembers? p.others p.visibility p.flags with
    | some d => return d
    | none => throw .shape
  | v => throw v.mismatch

def listOfDraft : Draft → Except TextFault (List Decl)
  | .array items c => do
    let ds ← items.mapM ofDraft
    Draft.close c
    return ds
  | v => throw v.mismatch

end Decl

namespace Universe

/-- What a universe file holds: declarations in any order, perhaps with repetitions. -/
structure File where
  rootPackage : Option String := none
  types : List Decl := []

def rootOfDraft : Draft → Except TextFault (Option String)
  | .null => return none
  | .string q => return some (← Draft.quoted q)
  | v => throw v.mismatch

namespace File

/-- What has been read of a file. -/
structure Pending where
  rootPackage : Option (Option String) := none
  types : Option (List Decl) := none

def Pending.file (p : Pending) : File where
  rootPackage := p.rootPackage.getD none
  types := p.types.getD []

/-- Read the members in order; those with another name are passed over. -/
def readMembers (p : Pending) : List (Quoted × Draft) → Except TextFault Pending
  | [] => .ok p
  | (q, v) :: rest => do
    let name ← Draft.quoted q
    if name = "root_package" then
      if p.rootPackage.isSome then throw .shape
      let root ← rootOfDraft v
      readMembers { p with rootPackage := some root } rest
    else if name = "types" then
      if p.types.isSome then throw .shape
      let types ← Decl.listOfDraft v
      readMembers { p with types := some types } rest
    else
      v.skip
      readMembers p rest

def ofDraft : Draft → Except TextFault File
  | .object members c => do
    let p ← readMembers {} members
    Draft.close c
    return p.file
  | .array [] c => do
    Draft.close c
    return {}
  | .array [root] c => do
    let rootPackage ← rootOfDraft root
    Draft.close c
    return { rootPackage }
  | .array (root :: types :: rest) c => do
    let rootPackage ← rootOfDraft root
    let types ← Decl.listOfDraft types
    if !rest.isEmpty then throw .malformed
    Draft.close c
    return { rootPackage, types }
  | v => throw v.mismatch

end File

/-- Why a universe file is not taken. -/
inductive LoadError where
  | unreadable (fault : TextFault)
  | duplicate (error : DuplicateType)
deriving DecidableEq, Repr

/-- The universe in the text of a file. A repeated declaration is reported before
anything that follows the universe. -/
def ofText (s : String) : Except LoadError Universe := do
  let (draft, trailing) := Draft.ofChars s.toList
  let file ← (File.ofDraft draft).mapError .unreadable
  let u ← (ofDecls file.rootPackage file.types).mapError .duplicate
  if trailing then throw (.unreadable .malformed)
  return u

end Universe

end Wiring
