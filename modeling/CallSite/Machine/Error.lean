import CallSite.Primitive

/-!
# Errors of a run

Why the machine stopped before the end of its code.
-/

namespace CallSite

/-- An operand of the wrong kind. -/
inductive OperandFault where
  | dangling (place : Nat)
  | notAnObject (context kind : String)
  | lengthOfNonArray
  | indexOfKind (kind : String)
  | loadFromNonArray
  | noConversion (kind : String) (target : Primitive)
  | argumentNotNumber (position : Nat)
  | notTwoNumbers (op : String)
  | notTwoArguments (op : String)
  | concatOnKind (kind : String)
  | concatWithoutArguments
  | propertyNameNotString
  /-- What a function of the host says. -/
  | host (message : String)
deriving DecidableEq, Repr

def OperandFault.message : OperandFault → String
  | dangling place => "dangling reference #" ++ toString place
  | notAnObject context kind => context ++ ": expected an object, got " ++ kind
  | lengthOfNonArray => "arraylength on a non-array"
  | indexOfKind kind => "array index must be an int, got " ++ kind
  | loadFromNonArray => "array load on a non-array"
  | noConversion kind target => "cannot convert " ++ kind ++ " to " ++ target.name
  | argumentNotNumber position => "argument " ++ toString position ++ " must be a number"
  | notTwoNumbers op => op ++ " expects two numbers"
  | notTwoArguments op => op ++ " expects two arguments"
  | concatOnKind kind => "String.plus on " ++ kind
  | concatWithoutArguments => "String.plus expects two arguments"
  | propertyNameNotString => "getProperty expects a String name"
  | host message => message

inductive ArithmeticFault where
  | overflow (op : String)
  | divisionByZero
deriving DecidableEq, Repr

def ArithmeticFault.message : ArithmeticFault → String
  | overflow op => op ++ " overflow"
  | divisionByZero => "division by zero"

inductive MachineError where
  | nullPointer (context : String)
  | classCast (value target : String)
  | noSuchField (field : String)
  | noSuchMethod (method : String)
  | stackUnderflow (position : Nat)
  | unknownLabel (label : Nat)
  | operand (fault : OperandFault)
  | arithmetic (fault : ArithmeticFault)
  | outOfBounds (index : Int) (size : Nat)
  | stepLimit (limit : Nat)
  | unsetLocal (slot : UInt16)
deriving DecidableEq, Repr

namespace MachineError

def message : MachineError → String
  | nullPointer context => "null pointer dereference in " ++ context
  | classCast value target => "cannot cast " ++ value ++ " to " ++ target
  | noSuchField field => "no such field: " ++ field
  | noSuchMethod method => "no such method: " ++ method
  | stackUnderflow position => "operand stack underflow at instruction " ++ toString position
  | unknownLabel label => "unknown label L" ++ toString label
  | operand fault => "type error: " ++ fault.message
  | arithmetic fault => "arithmetic error: " ++ fault.message
  | outOfBounds index size =>
    "index " ++ toString index ++ " out of bounds for length " ++ toString size
  | stepLimit limit => "step limit of " ++ toString limit ++ " instructions exceeded"
  | unsetLocal slot => "local " ++ toString slot.toNat ++ " read before it was stored"

def kind : MachineError → String
  | nullPointer _ => "NullPointer"
  | classCast _ _ => "ClassCast"
  | noSuchField _ => "NoSuchField"
  | noSuchMethod _ => "NoSuchMethod"
  | stackUnderflow _ => "StackUnderflow"
  | unknownLabel _ => "UnknownLabel"
  | operand _ => "Type"
  | arithmetic _ => "Arithmetic"
  | outOfBounds _ _ => "IndexOutOfBounds"
  | stepLimit _ => "StepLimit"
  | unsetLocal _ => "UnsetLocal"

end MachineError

end CallSite
