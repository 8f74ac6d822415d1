import CallSite.Member
import CallSite.Text.Word

/-!
# Class tables

All classes of a compilation, numbered in order of declaration, with their superclass, interface
and nesting links.
-/

namespace CallSite

inductive ClassKind where
  | cls | interface | enum
deriving DecidableEq, Repr

def ClassKind.name : ClassKind → String
  | cls => "class"
  | interface => "interface"
  | enum => "enum"

def ClassKind.ofName? (name : String) : Option ClassKind :=
  [cls, interface, enum].find? fun k => k.name == name

structure ClassInfo where
  name : String
  kind : ClassKind
  superclass : Option ClassId := none
  interfaces : List ClassId := []
  outer : Option ClassId := none
  fields : List Field := []
  methods : List Method := []
  properties : List Property := []
  bridges : List Bridge := []
  /-- The source unit that declares the class. -/
  unit : Nat := 0
  /-- The class is the body of a closure that `with` runs. -/
  withClosure : Bool := false
deriving Repr, DecidableEq

namespace ClassInfo

/-- The characters before the last `sep`. -/
def beforeLast? (sep : Char) : List Char → Option (List Char)
  | [] => none
  | c :: cs =>
    match beforeLast? sep cs with
    | some lead => some (c :: lead)
    | none => if c = sep then some [] else none

def package? (info : ClassInfo) : Option String :=
  (beforeLast? '.' info.name.toList).map String.ofList

def isInterface (info : ClassInfo) : Bool := info.kind == .interface

def isEnum (info : ClassInfo) : Bool := info.kind == .enum

end ClassInfo

/-- `text` with every `old` written as `new`. -/
def replaceChar (old new : Char) (text : String) : String :=
  String.ofList (text.toList.map fun c => if c = old then new else c)

/-- The name of a class inside instructions: `/` where its qualified name has `.`. -/
def internalOf (name : String) : String := replaceChar '.' '/' name

/-- The qualified name for a name inside instructions. -/
def qualifiedOf (internal : String) : String := replaceChar '/' '.' internal

structure ClassTable where
  classes : List ClassInfo
  extensions : List Method
  /-- Pairs of classes that may call each other's bridge accessors. -/
  bridgePairs : List (ClassId × ClassId)
deriving Repr, DecidableEq

/-- The classes met by following `next` from `c`, in at most `limit` places. -/
def chain (next : ClassId → Option ClassId) : Nat → ClassId → List ClassId
  | 0, _ => []
  | limit + 1, c =>
    c :: match next c with
      | some d => chain next limit d
      | none => []

namespace ClassTable

def size (t : ClassTable) : Nat := t.classes.length

/-- The class numbered `c`; a number outside the table stands for an empty class. -/
def info (t : ClassTable) (c : ClassId) : ClassInfo :=
  (t.classes[c.index]?).getD ⟨"", .cls, none, [], none, [], [], [], [], 0, false⟩

def name (t : ClassTable) (c : ClassId) : String := (t.info c).name

def internalName (t : ClassTable) (c : ClassId) : String := internalOf (t.name c)

/-- The class of a qualified name. -/
def lookup (t : ClassTable) (name : String) : Option ClassId :=
  (t.classes.findIdx? fun info => info.name == name).map ClassId.mk

def superclass? (t : ClassTable) (c : ClassId) : Option ClassId := (t.info c).superclass

def outer? (t : ClassTable) (c : ClassId) : Option ClassId := (t.info c).outer

/-- `c` and its superclasses, nearest first. -/
def superclasses (t : ClassTable) (c : ClassId) : List ClassId := chain t.superclass? t.size c

/-- `c` and the classes it is nested in, innermost first. -/
def outers (t : ClassTable) (c : ClassId) : List ClassId := chain t.outer? t.size c

def derivesFrom (t : ClassTable) (c ancestor : ClassId) : Bool :=
  (t.superclasses c).contains ancestor

def field? (t : ClassTable) (c : ClassId) (name : String) : Option Field :=
  (t.info c).fields.find? fun f => f.name == name

def property? (t : ClassTable) (c : ClassId) (name : String) : Option Property :=
  (t.info c).properties.find? fun p => p.name == name

/-- The method of `c` with this name and exactly these parameters. -/
def declared? (t : ClassTable) (c : ClassId) (name : String) (params : List Ty) : Option Method :=
  (t.info c).methods.find? fun m => m.name == name && m.params == params

def bridge? (t : ClassTable) (c : ClassId) (field : String) : Option Method :=
  ((t.info c).bridges.find? fun b => b.field == field).map Bridge.accessor

/-- `m` can be called as the getter `name`: no parameters and a value, which for an `is` getter is
a primitive boolean. -/
def isGetter (name : String) (m : Method) : Bool :=
  m.name == name && m.params.isEmpty && m.returns != .void &&
    ((Text.dropLead? ['i', 's'] name.toList).isNone || m.returns == .boolean)

/-- The getter of this name on `c` or the nearest superclass that has it. -/
def getter? (t : ClassTable) (c : ClassId) (name : String) : Option Method :=
  (t.superclasses c).findSome? fun k => (t.info k).methods.find? (isGetter name)

/-- The nesting chains of a receiver and a caller meet. The receiver's chain is climbed only while
the caller has an enclosing class left. -/
def chainsMeet : List ClassId → List ClassId → Bool
  | r :: rs, c :: d :: cs =>
    r == c || chainsMeet (r :: rs) (d :: cs) || chainsMeet rs (c :: d :: cs)
  | r :: _, [c] => r == c
  | _, _ => false
termination_by rs cs => rs.length + cs.length

/-- Code in `caller` may call the bridge accessors of `receiver`. -/
def bridgeAllowed (t : ClassTable) (receiver caller : ClassId) : Bool :=
  t.bridgePairs.contains (receiver, caller) || t.bridgePairs.contains (caller, receiver) ||
    chainsMeet (t.outers receiver) (t.outers caller)

def samePackage (t : ClassTable) (c d : ClassId) : Bool :=
  (t.info c).package? == (t.info d).package?

mutual

/-- The characters of a type as a source text writes it. -/
def typeChars (t : ClassTable) : Ty → List Char
  | .void => ['v', 'o', 'i', 'd']
  | .prim p => p.name.toList
  | .object c [] => (t.name c).toList
  | .object c (arg :: args) =>
    (t.name c).toList ++ '<' :: (typeChars t arg ++ moreTypeChars t args) ++ ['>']
  | .array component => typeChars t component ++ ['[', ']']
  | .var name => name.toList

/-- The type arguments after the first. -/
def moreTypeChars (t : ClassTable) : List Ty → List Char
  | [] => []
  | arg :: args => ',' :: ' ' :: (typeChars t arg ++ moreTypeChars t args)

end

/-- The type as a source text writes it. -/
def describe (t : ClassTable) (ty : Ty) : String := String.ofList (t.typeChars ty)

end ClassTable

end CallSite
