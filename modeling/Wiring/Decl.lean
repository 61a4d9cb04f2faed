import Wiring.TypeRef
import Wiring.Flags

/-!
Declarations of types, as far as wiring looks at them: the fields of a struct, the
signatures of methods, who may see them, and the markers of the declaration.
-/
namespace Wiring

inductive Visibility where
  | «public»
  | «private»
deriving DecidableEq, Repr, Inhabited

/-- What a factory does with a field. -/
inductive FieldTag where
  | assign
  | skip
deriving DecidableEq, Repr, Inhabited

structure Field where
  name : String
  type : TypeRef
  visibility : Visibility := .public
  tag : FieldTag := .assign
deriving DecidableEq, Repr

/-- A factory assigns the public fields that are not skipped. -/
def Field.isInjected (f : Field) : Bool :=
  f.visibility = .public && f.tag ≠ .skip

structure Param where
  name : String
  type : TypeRef
deriving DecidableEq, Repr

structure Method where
  name : String
  visibility : Visibility := .public
  params : List Param := []
  results : List TypeRef := []
deriving DecidableEq, Repr

def Method.isPublic (m : Method) : Bool :=
  m.visibility = .public

/-- A declared type is a struct, an interface, or a type whose inside is not looked at. -/
inductive Kind where
  | struct (fields : List Field) (methods : List Method)
  | interface (methods : List Method)
  | sealed (methods : List Method)
deriving DecidableEq, Repr

structure Decl where
  identity : Identity
  kind : Kind
  visibility : Visibility := .public
  flags : Flags := .empty
deriving DecidableEq, Repr

instance : Keyed Decl Identity where
  key := Decl.identity

namespace Decl

def ofStruct (identity : Identity) (fields : List Field) : Decl :=
  { identity, kind := .struct fields [] }

def ofInterface (identity : Identity) (methods : List Method) : Decl :=
  { identity, kind := .interface methods }

def ofSealed (identity : Identity) : Decl :=
  { identity, kind := .sealed [] }

def withFlags (d : Decl) (flags : Flags) : Decl :=
  { d with flags := d.flags.union flags }

def withMethod (d : Decl) (m : Method) : Decl :=
  match d.kind with
  | .struct fields methods => { d with kind := .struct fields (methods ++ [m]) }
  | .interface methods => { d with kind := .interface (methods ++ [m]) }
  | .sealed methods => { d with kind := .sealed (methods ++ [m]) }

def methods (d : Decl) : List Method :=
  match d.kind with
  | .struct _ methods | .interface methods | .sealed methods => methods

/-- The fields of a struct in the order of declaration; other types have none. -/
def fields (d : Decl) : List Field :=
  match d.kind with
  | .struct fields _ => fields
  | .interface _ | .sealed _ => []

def publicMethods (d : Decl) : List Method :=
  d.methods.filter Method.isPublic

/-- The first public method called `name`. -/
def method? (d : Decl) (name : String) : Option Method :=
  d.publicMethods.find? fun m => m.name = name

def injectedFields (d : Decl) : List Field :=
  d.fields.filter Field.isInjected

def isStruct (d : Decl) : Bool :=
  match d.kind with
  | .struct _ _ => true
  | .interface _ | .sealed _ => false

def isInterface (d : Decl) : Bool :=
  match d.kind with
  | .interface _ => true
  | .struct _ _ | .sealed _ => false

def isInjectable (d : Decl) : Bool :=
  d.isStruct && d.flags.contains .inject

def isProvidedModule (d : Decl) : Bool :=
  d.flags.contains .providedModule

@[simp] theorem methods_withMethod (d : Decl) (m : Method) :
    (d.withMethod m).methods = d.methods ++ [m] := by
  unfold withMethod methods
  cases d.kind <;> rfl

@[simp] theorem fields_withMethod (d : Decl) (m : Method) :
    (d.withMethod m).fields = d.fields := by
  unfold withMethod fields
  cases d.kind <;> rfl

end Decl

end Wiring
