import CallSite.ClassTable.Overload
import CallSite.Options

/-!
# Operators

What a call `receiver.op(argument)` of a single-argument operator is bound to.
-/

namespace CallSite

/-- The operators that have a helper on two numbers. -/
inductive Arithmetic where
  | plus | minus | multiply | div
deriving DecidableEq, Repr

namespace Arithmetic

def name : Arithmetic → String
  | plus => "plus"
  | minus => "minus"
  | multiply => "multiply"
  | div => "div"

def ofName? (name : String) : Option Arithmetic :=
  [plus, minus, multiply, div].find? fun op => op.name == name

/-- The class that holds the helper. -/
def helper : Arithmetic → String
  | plus => "NumberNumberPlus"
  | minus => "NumberNumberMinus"
  | multiply => "NumberNumberMultiply"
  | div => "NumberNumberDiv"

end Arithmetic

/-- The `power` helpers, by the classes of base and exponent. -/
inductive PowerHelper where
  | bigDecimalInteger | bigIntegerInteger | longInteger | integerInteger | numberNumber
deriving DecidableEq, Repr

/-- The descriptor of the helpers on two numbers. -/
def numberPairDescriptor : String := "(Ljava/lang/Number;Ljava/lang/Number;)Ljava/lang/Number;"

namespace PowerHelper

def descriptor : PowerHelper → String
  | bigDecimalInteger => "(Ljava/math/BigDecimal;Ljava/lang/Integer;)Ljava/lang/Number;"
  | bigIntegerInteger => "(Ljava/math/BigInteger;Ljava/lang/Integer;)Ljava/lang/Number;"
  | longInteger => "(Ljava/lang/Long;Ljava/lang/Integer;)Ljava/lang/Number;"
  | integerInteger => "(Ljava/lang/Integer;Ljava/lang/Integer;)Ljava/lang/Number;"
  | numberNumber => numberPairDescriptor

/-- The helper for exactly these operand types; primitives count as their wrappers. -/
def choose (receiver argument : Ty) : PowerHelper :=
  if argument.wrapped.class? ≠ some .integer then numberNumber
  else if receiver.class? = some .bigDecimal then bigDecimalInteger
  else if receiver.class? = some .bigInteger then bigIntegerInteger
  else if receiver.wrapped.class? = some .long then longInteger
  else if receiver.wrapped.class? = some .integer then integerInteger
  else numberNumber

end PowerHelper

inductive OperatorBinding where
  | arithmetic (op : Arithmetic)
  | power (helper : PowerHelper)
  | concat
  /-- An array element. -/
  | element (component : Ty)
  /-- A `getAt` that the receiver's class declares. -/
  | subscript (method : Method)
  | extension (method : Method)
  | mapEntry
deriving DecidableEq, Repr

namespace OperatorBinding

def title : OperatorBinding → String
  | arithmetic _ => "NumberNumber"
  | power _ => "Power"
  | concat => "StringPlus"
  | element _ => "ArrayGet"
  | subscript _ => "GetAtMethod"
  | extension _ => "ExtensionCall"
  | mapEntry => "MapGet"

/-- The method that the operator calls. -/
def method? : OperatorBinding → Option Method
  | subscript m | extension m => some m
  | _ => none

def target? (t : ClassTable) (b : OperatorBinding) : Option String :=
  b.method?.map fun m => t.name m.owner ++ "." ++ m.name

end OperatorBinding

namespace ClassTable

def isNumeric (t : ClassTable) (ty : Ty) : Bool :=
  ty.wrapped.class?.any fun c => t.derivesFrom c .number

/-- The operators on numbers, strings and arrays, which need no method of the receiver. -/
def primitiveOperator? (t : ClassTable) (options : Options) (receiver argument : Ty) (op : String) :
    Option OperatorBinding :=
  if t.isNumeric receiver && t.isNumeric argument then
    match Arithmetic.ofName? op with
    | some op => some (.arithmetic op)
    | none =>
      if op = "power" then
        some (.power (if options.powerFastPaths then .choose receiver argument else .numberNumber))
      else none
  else if receiver.class? = some .string ∧ op = "plus" then some .concat
  else if op = "getAt" then receiver.component?.map .element
  else none

/-- The nearest `getAt` with one parameter that the argument fits. -/
def declaredSubscript? (t : ClassTable) (receiver argument : Ty) : Option Method :=
  receiver.class?.bind fun c => (t.superclasses c).findSome? fun k =>
    (t.info k).methods.find? fun m =>
      m.name == "getAt" &&
        match m.params with
        | [param] => t.assignable argument param
        | _ => false

/-- The best extension method. Maps and lists take the first of several, since all their
subscripts do the same. -/
def extensionOperator? (t : ClassTable) (receiver argument : Ty) (op : String) : Option Method :=
  match t.bestOverloads receiver (t.extensionsFor receiver op [argument]) [argument] with
  | [] => none
  | [m] => some m
  | m :: _ :: _ =>
    if t.hasCapability receiver .map || t.hasCapability receiver .list then some m else none

/-- What `receiver.op(argument)` is bound to. A declared subscript answers every operator that is
left, and a map every operator that nothing else answers. -/
def selectOperator (t : ClassTable) (options : Options) (receiver argument : Ty) (op : String) :
    Option OperatorBinding :=
  t.primitiveOperator? options receiver argument op <|>
    (t.declaredSubscript? receiver argument).map .subscript <|>
    (t.extensionOperator? receiver argument op).map .extension <|>
    if t.hasCapability receiver .map then some .mapEntry else none

end ClassTable

end CallSite
