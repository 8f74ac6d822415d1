import CallSite.ClassTable.Basic
import CallSite.Span

/-!
# Expressions

The typed expression trees that access sites are made of, and the sites themselves.
-/

namespace CallSite

inductive Constant where
  | null
  | int (value : Int32)
  | long (value : Int64)
  | double (value : Float)
  | bool (value : Bool)
  | string (value : String)
deriving Repr, BEq

/-- What the type checker recorded about a node. -/
structure Note where
  /-- The declared type. -/
  type : Ty
  /-- The type that flow analysis found; it wins over the declared one. -/
  inferred : Option Ty := none
  /-- The element type of a list. -/
  component : Option Ty := none
  span : Span := .none
  text : String := ""
deriving Repr, DecidableEq

/-- The member that a property access names. -/
structure Access where
  member : String
  /-- A null receiver gives null. -/
  safe : Bool := false
  span : Span
deriving Repr, DecidableEq

inductive Expr where
  | this (note : Note)
  | localVar (slot : UInt16) (note : Note)
  /-- A type used as a value. -/
  | classLiteral (type : Ty) (note : Note)
  | constant (value : Constant) (note : Note)
  | property (receiver : Expr) (access : Access) (note : Note)
  /-- An operator as the method it stands for, such as `plus` or `getAt`. -/
  | operator (receiver : Expr) (op : String) (argument : Expr) (note : Note)
deriving Repr

/-- One property access: a receiver and the member read from it. -/
structure Site extends Access where
  receiver : Expr
deriving Repr

namespace Constant

/-- The type a constant has by itself. -/
def type : Constant → Ty
  | null => .ofClass .object
  | int _ => .int
  | long _ => .long
  | double _ => .double
  | bool _ => .boolean
  | string _ => .ofClass .string

end Constant

namespace Expr

def note : Expr → Note
  | this note => note
  | localVar _ note => note
  | classLiteral _ note => note
  | constant _ note => note
  | property _ _ note => note
  | operator _ _ _ note => note

/-- The expression with its note changed. -/
def annotate (change : Note → Note) : Expr → Expr
  | this note => this (change note)
  | localVar slot note => localVar slot (change note)
  | classLiteral ty note => classLiteral ty (change note)
  | constant value note => constant value (change note)
  | property receiver access note => property receiver access (change note)
  | operator receiver op argument note => operator receiver op argument (change note)

def isThis : Expr → Bool
  | this _ => true
  | _ => false

/-- The type that a class literal names. -/
def literalType? : Expr → Option Ty
  | classLiteral ty _ => some ty
  | _ => none

end Expr

end CallSite
