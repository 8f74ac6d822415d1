import CallSite.Decimal.DoubleText

/-!
# Values and the heap

The values on the machine's stack and the objects they may refer to.
-/

namespace CallSite

/-- A boxed number or truth value. Floats are held as doubles, and the big numbers with the
precision of the small ones. -/
inductive Boxed where
  | integer (value : Int32)
  | long (value : Int64)
  | double (value : Float)
  | boolean (value : Bool)
  | bigInteger (value : Int64)
  | bigDecimal (value : Float)
deriving Repr, BEq

namespace Boxed

/-- The internal name of the wrapper class. -/
def className : Boxed → String
  | integer _ => "java/lang/Integer"
  | long _ => "java/lang/Long"
  | double _ => "java/lang/Double"
  | boolean _ => "java/lang/Boolean"
  | bigInteger _ => "java/math/BigInteger"
  | bigDecimal _ => "java/math/BigDecimal"

def isNumber : Boxed → Bool
  | boolean _ => false
  | _ => true

def isIntegral : Boxed → Bool
  | integer _ | long _ | bigInteger _ => true
  | _ => false

/-- The value as an integer of 64 bits. Fractions are cut off, what lies outside is moved to the
nearest bound, and no number counts as zero. -/
def toInt64 : Boxed → Int64
  | integer v => v.toInt64
  | long v | bigInteger v => v
  | double v | bigDecimal v => v.toInt64
  | boolean b => if b then 1 else 0

def toDouble : Boxed → Float
  | integer v => v.toInt64.toFloat
  | long v | bigInteger v => v.toFloat
  | double v | bigDecimal v => v
  | boolean b => if b then 1.0 else 0.0

def text : Boxed → String
  | integer v => toString v.toInt
  | long v | bigInteger v => toString v.toInt
  | double v | bigDecimal v => Decimal.doubleText v
  | boolean b => if b then "true" else "false"

end Boxed

inductive Value where
  | null
  /-- Also every smaller integer and every truth value. -/
  | int (value : Int32)
  | long (value : Int64)
  | double (value : Float)
  | string (value : String)
  | boxed (value : Boxed)
  /-- A class, by its internal name. -/
  | cls (name : String)
  /-- The object at this place of the heap. -/
  | ref (place : Nat)
deriving Repr, BEq, Inhabited

namespace Value

def isNull : Value → Bool
  | null => true
  | _ => false

def kind : Value → String
  | null => "null"
  | int _ => "int"
  | long _ => "long"
  | double _ => "double"
  | string _ => "String"
  | boxed _ => "boxed"
  | cls _ => "Class"
  | ref _ => "reference"

/-- The number a value stands for, boxed or not. -/
def number? : Value → Option Boxed
  | int v => some (.integer v)
  | long v => some (.long v)
  | double v => some (.double v)
  | boxed b => if b.isNumber then some b else none
  | _ => none

/-- A truth value on the stack. -/
def ofBool (b : Bool) : Value := int (if b then 1 else 0)

/-- A count on the stack. -/
def ofSize (n : Nat) : Value := int (Int32.ofNat n)

end Value

inductive HeapObject where
  | instance (cls : String) (fields : List (String × Value))
  | list (items : List Value)
  /-- A map in the order of insertion. -/
  | map (entries : List (Value × Value))
  | iterator (items : List Value) (position : Nat)
  | array (items : List Value)
deriving Repr, BEq

namespace HeapObject

/-- The internal name of the object's class. -/
def className : HeapObject → String
  | .instance cls _ => cls
  | list _ => "java/util/ArrayList"
  | map _ => "java/util/LinkedHashMap"
  | iterator _ _ => "java/util/Iterator"
  | array _ => "java/lang/Object"

def field? (name : String) : HeapObject → Option Value
  | .instance _ fields => fields.lookup name
  | _ => none

end HeapObject

abbrev Heap := Array HeapObject

namespace Heap

/-- Put a new object after all others. -/
def alloc (heap : Heap) (object : HeapObject) : Heap × Value :=
  (heap.push object, .ref heap.size)

end Heap

/-- The value of the first entry whose key equals `key`. -/
def entryOf (entries : List (Value × Value)) (key : Value) : Value :=
  match entries.find? fun (k, _) => k == key with
  | some (_, value) => value
  | none => .null

end CallSite
