import CallSite.ClassTable.Overload
import CallSite.Expr

/-!
# Queries

What the selection rules look at for one property access.
-/

namespace CallSite

/-- The static type of an expression in code of `enclosing`: the type flow analysis found, if
any. -/
def Expr.typeIn (enclosing : ClassId) (e : Expr) : Ty :=
  e.note.inferred.getD <|
    match e with
    | .this _ => .ofClass enclosing
    | .classLiteral ty _ => .object .cls [ty]
    | _ => e.note.type

/-- The first of the type arguments, unless it is a type variable. -/
def concreteArg? : List Ty → Option Ty
  | [] => none
  | arg :: _ => if arg.isVar then none else some arg

structure Query where
  /-- The member to find. -/
  member : String
  /-- The type of the receiver, `Class<T>` taken as `T`. -/
  receiver : Ty
  /-- The receiver was a `Class<T>` of a known `T`. -/
  classReceiver : Bool
  /-- The type that the receiver names, if it is a class literal. -/
  literal : Option Ty
  /-- The element type recorded for the receiver. -/
  component : Option Ty
  enclosing : ClassId
deriving Repr, DecidableEq

namespace Query

/-- The query of a property access in code of `enclosing`. -/
def ofSite (site : Site) (enclosing : ClassId) : Query :=
  let ty := site.receiver.typeIn enclosing
  let unwrapped :=
    match ty with
    | .object c args => if c = ClassId.cls then concreteArg? args else none
    | _ => none
  { member := site.member
    receiver := unwrapped.getD ty
    classReceiver := unwrapped.isSome
    literal := site.receiver.literalType?
    component := site.receiver.note.component
    enclosing }

/-- The query of an access on a receiver that can be asked for properties at run time. Outside a
closure `this` is the enclosing class; in the body of a `with` closure `owner` means the
delegate. -/
def ofDynamicSite (t : ClassTable) (site : Site) (enclosing : ClassId) (inClosure : Bool) : Query :=
  { member :=
      if (t.info enclosing).withClosure && site.member == "owner" then "delegate" else site.member
    receiver :=
      if site.receiver.isThis && !inClosure then .ofClass enclosing
      else site.receiver.typeIn enclosing
    classReceiver := false
    literal := site.receiver.literalType?
    component := site.receiver.note.component
    enclosing }

def isCollection (t : ClassTable) (q : Query) : Bool := t.hasCapability q.receiver .collection

def isMap (t : ClassTable) (q : Query) : Bool := t.hasCapability q.receiver .map

def isList (t : ClassTable) (q : Query) : Bool := t.hasCapability q.receiver .list

def isInterface (t : ClassTable) (q : Query) : Bool :=
  q.receiver.class?.any fun c => (t.info c).isInterface

def isEnum (t : ClassTable) (q : Query) : Bool :=
  q.receiver.class?.any fun c => (t.info c).isEnum

/-- The type that an access without a binding is reported on. -/
def reportedType (q : Query) : Ty := q.literal.getD q.receiver

/-- The element type of a list receiver: the recorded one, else its type argument. -/
def elementType (q : Query) : Ty :=
  q.component.getD <|
    match q.receiver with
    | .object _ args => (concreteArg? args).getD (.ofClass .object)
    | _ => .ofClass .object

end Query

end CallSite
