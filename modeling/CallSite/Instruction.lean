import CallSite.Ty
import CallSite.Text.Word
import CallSite.Decimal.DoubleText

/-!
# Instructions

The stack-machine instructions that access sites are compiled to, and their listing.
-/

namespace CallSite

/-- The kind of value a local slot is loaded or stored as. -/
inductive SlotKind where
  | int | long | float | double | reference
deriving DecidableEq, Repr

namespace SlotKind

def ofType : Ty → SlotKind
  | .prim .long => long
  | .prim .float => float
  | .prim .double => double
  | .prim _ => int
  | _ => reference

def letter : SlotKind → Char
  | int => 'i'
  | long => 'l'
  | float => 'f'
  | double => 'd'
  | reference => 'a'

end SlotKind

/-- How a call finds its method. -/
inductive Dispatch where
  | dynamic | interface | static | special
deriving DecidableEq, Repr

def Dispatch.mnemonic : Dispatch → String
  | dynamic => "invokevirtual"
  | interface => "invokeinterface"
  | static => "invokestatic"
  | special => "invokespecial"

/-- A member as instructions name it: internal class name, member name and descriptor. -/
structure MemberRef where
  owner : String
  name : String
  descriptor : String
deriving DecidableEq, Repr

/-- A constant that can be loaded. -/
inductive Literal where
  | int (value : Int32)
  | long (value : Int64)
  | double (value : Float)
  | string (value : String)
  /-- A class, by its descriptor. -/
  | cls (descriptor : String)
deriving Repr, BEq

inductive Instruction where
  | pushNull
  | push (value : Literal)
  | load (kind : SlotKind) (slot : UInt16)
  | store (kind : SlotKind) (slot : UInt16)
  | new (owner : String)
  | dup
  | pop
  | checkCast (target : String)
  | getField (member : MemberRef)
  | getStatic (member : MemberRef)
  | invoke (dispatch : Dispatch) (member : MemberRef)
  | arrayLength
  /-- Load an array element; without a primitive type, a reference. -/
  | arrayLoad (element : Option Primitive)
  | convert (source target : Primitive)
  | jumpIfZero (label : Nat)
  | jumpIfNull (label : Nat)
  | jump (label : Nat)
  | label (label : Nat)
deriving Repr, BEq

def Literal.text : Literal → String
  | int v => toString v.toInt
  | long v => toString v.toInt ++ "L"
  | double v => Decimal.doubleText v ++ "D"
  | string s => Text.quote s
  | cls descriptor => descriptor ++ ".class"

def MemberRef.text (m : MemberRef) : String :=
  m.owner ++ "." ++ m.name ++ " " ++ m.descriptor

/-- The letter of an array load, which tells the element widths below `int` apart. -/
def arrayLetter : Option Primitive → Char
  | none => 'a'
  | some .boolean => 'b'
  | some .byte => 'b'
  | some .char => 'c'
  | some .short => 's'
  | some p => p.letter

namespace Instruction

/-- One line of a listing. -/
def text : Instruction → String
  | pushNull => "aconst_null"
  | push value => "ldc " ++ value.text
  | load kind slot => kind.letter.toString ++ "load " ++ toString slot.toNat
  | store kind slot => kind.letter.toString ++ "store " ++ toString slot.toNat
  | new owner => "new " ++ owner
  | dup => "dup"
  | pop => "pop"
  | checkCast target => "checkcast " ++ target
  | getField m => "getfield " ++ m.text
  | getStatic m => "getstatic " ++ m.text
  | invoke dispatch m => dispatch.mnemonic ++ " " ++ m.text
  | arrayLength => "arraylength"
  | arrayLoad element => (arrayLetter element).toString ++ "aload"
  | convert source target => source.letter.toString ++ "2" ++ target.letter.toString
  | jumpIfZero l => "ifeq L" ++ toString l
  | jumpIfNull l => "ifnull L" ++ toString l
  | jump l => "goto L" ++ toString l
  | label l => "L" ++ toString l ++ ":"

/-- One instruction a line. -/
def listing (code : List Instruction) : String :=
  String.intercalate "\n" (code.map text)

end Instruction

end CallSite
