import CallSite.ClassTable.Build

/-!
# Descriptors

The text forms of types inside instructions: `I`, `Ljava/lang/String;`, `[I` for values and
`(I)V` for methods. Type arguments are dropped and a type variable stands for the root class.
-/

namespace CallSite

namespace ClassTable

def descriptorChars (t : ClassTable) : Ty → List Char
  | .void => ['V']
  | .prim p => [p.descriptor]
  | .object c _ => 'L' :: (t.internalName c).toList ++ [';']
  | .array component => '[' :: descriptorChars t component
  | .var _ => 'L' :: (t.internalName .object).toList ++ [';']

def descriptor (t : ClassTable) (ty : Ty) : String := String.ofList (t.descriptorChars ty)

def methodDescriptorChars (t : ClassTable) (params : List Ty) (returns : Ty) : List Char :=
  '(' :: params.flatMap t.descriptorChars ++ ')' :: t.descriptorChars returns

def methodDescriptor (t : ClassTable) (params : List Ty) (returns : Ty) : String :=
  String.ofList (t.methodDescriptorChars params returns)

/-- The name that `new` and `checkcast` use: that of the class, or the descriptor of an array. -/
def internalTypeName (t : ClassTable) : Ty → String
  | .object c _ => t.internalName c
  | .var _ => t.internalName .object
  | ty => t.descriptor ty

end ClassTable

namespace Descriptor

/-- The characters between the opening parenthesis and the first closing one. -/
def params? : List Char → Option (List Char)
  | '(' :: rest => if rest.contains ')' then some (rest.takeWhile (· ≠ ')')) else none
  | _ => none

/-- How many types the characters hold. Inside a class name, up to its semicolon, nothing counts. -/
def countTypes : (inName : Bool) → List Char → Nat
  | _, [] => 0
  | true, c :: cs => countTypes (c != ';') cs
  | false, c :: cs =>
    if c = '[' then countTypes false cs
    else if c = 'L' then countTypes true cs + 1
    else countTypes false cs + 1

/-- The number of arguments of a method with this descriptor; none for any other text. -/
def argCount (descriptor : String) : Nat :=
  match params? descriptor.toList with
  | some params => countTypes false params
  | none => 0

def returnsVoid (descriptor : String) : Bool :=
  [')', 'V'].isSuffixOf descriptor.toList

end Descriptor

end CallSite
