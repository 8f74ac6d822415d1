/-!
# Primitive types

The eight primitive types, their names and their one-letter descriptors.
-/

namespace CallSite

inductive Primitive where
  | boolean | byte | char | short | int | long | float | double
deriving DecidableEq, Repr

namespace Primitive

def all : List Primitive := [boolean, byte, char, short, int, long, float, double]

def name : Primitive → String
  | boolean => "boolean"
  | byte => "byte"
  | char => "char"
  | short => "short"
  | int => "int"
  | long => "long"
  | float => "float"
  | double => "double"

def descriptor : Primitive → Char
  | boolean => 'Z'
  | byte => 'B'
  | char => 'C'
  | short => 'S'
  | int => 'I'
  | long => 'J'
  | float => 'F'
  | double => 'D'

def ofName? (name : String) : Option Primitive :=
  all.find? fun p => p.name == name

def ofDescriptor? (letter : Char) : Option Primitive :=
  all.find? fun p => p.descriptor == letter

/-- How the primitive is held on the operand stack: everything below `int` is held as `int`. -/
def stackKind : Primitive → Primitive
  | long => long
  | float => float
  | double => double
  | _ => int

/-- The letter that starts the typed instructions of the primitive's stack kind. -/
def letter : Primitive → Char
  | long => 'l'
  | float => 'f'
  | double => 'd'
  | _ => 'i'

/-- Operand and local slots a value takes. -/
def width : Primitive → Nat
  | long => 2
  | double => 2
  | _ => 1

theorem mem_all (p : Primitive) : p ∈ all := by cases p <;> decide

theorem ofName?_name (p : Primitive) : ofName? p.name = some p := by cases p <;> decide

theorem ofDescriptor?_descriptor (p : Primitive) : ofDescriptor? p.descriptor = some p := by
  cases p <;> decide

end Primitive

end CallSite
