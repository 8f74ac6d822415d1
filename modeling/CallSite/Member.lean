import CallSite.Ty

/-!
# Members

What a class declares: fields, methods, properties, and the static accessors through which other
classes may read its private fields.
-/

namespace CallSite

/-- Who may name a member: everyone, the subclasses, the package, or its own class alone. -/
inductive Visibility where
  | world | family | package | owner
deriving DecidableEq, Repr

def Visibility.name : Visibility → String
  | world => "public"
  | family => "protected"
  | package => "package"
  | owner => "private"

def Visibility.all : List Visibility := [world, family, package, owner]

def Visibility.ofName? (name : String) : Option Visibility :=
  all.find? fun v => v.name == name

structure Field where
  name : String
  owner : ClassId
  type : Ty
  isStatic : Bool := false
  visibility : Visibility := .world
deriving Repr, DecidableEq

structure Method where
  name : String
  owner : ClassId
  params : List Ty
  returns : Ty
  isStatic : Bool := false
  visibility : Visibility := .world
  /-- Not written by the programmer: a getter made for a property, or a bridge accessor. -/
  synthetic : Bool := false
deriving Repr, DecidableEq

/-- A declared property; its getter need not exist yet. -/
structure Property where
  name : String
  type : Ty
  isStatic : Bool := false
deriving Repr, DecidableEq

/-- The static accessor made for a private field. -/
structure Bridge where
  field : String
  accessor : Method
deriving Repr, DecidableEq

end CallSite
