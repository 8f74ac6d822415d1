import CallSite.Primitive

/-!
# Types

The static types that code is selected and emitted for. Classes are named by their number in a
class table.
-/

namespace CallSite

/-- The number of a class in its table. -/
structure ClassId where
  index : Nat
deriving DecidableEq, Repr, Inhabited

namespace ClassId

/-! The classes every table starts with. -/

def object : ClassId := ⟨0⟩
def cls : ClassId := ⟨1⟩
def string : ClassId := ⟨2⟩
def number : ClassId := ⟨3⟩
def integer : ClassId := ⟨4⟩
def long : ClassId := ⟨5⟩
def short : ClassId := ⟨6⟩
def byte : ClassId := ⟨7⟩
def float : ClassId := ⟨8⟩
def double : ClassId := ⟨9⟩
def character : ClassId := ⟨10⟩
def boolean : ClassId := ⟨11⟩
def bigInteger : ClassId := ⟨12⟩
def bigDecimal : ClassId := ⟨13⟩
def iterable : ClassId := ⟨14⟩
def collection : ClassId := ⟨15⟩
def list : ClassId := ⟨16⟩
def arrayList : ClassId := ⟨17⟩
def map : ClassId := ⟨18⟩
def linkedHashMap : ClassId := ⟨19⟩
def iterator : ClassId := ⟨20⟩
def groovyObject : ClassId := ⟨21⟩
def enum : ClassId := ⟨22⟩
/-- The holder of the extension methods. -/
def extensions : ClassId := ⟨23⟩

end ClassId

inductive Ty where
  | void
  | prim (p : Primitive)
  /-- A class or interface with the type arguments that are known. -/
  | object (cls : ClassId) (args : List Ty)
  | array (component : Ty)
  /-- A placeholder such as `T` that stands for no known class. -/
  | var (name : String)
deriving Repr, Inhabited

namespace Ty

mutual

/-- Equality of types as a Boolean test. -/
def beq : Ty → Ty → Bool
  | void, void => true
  | prim p, prim q => p == q
  | object c as, object d bs => c == d && beqAll as bs
  | array s, array t => beq s t
  | var m, var n => m == n
  | _, _ => false

def beqAll : List Ty → List Ty → Bool
  | [], [] => true
  | s :: ss, t :: ts => beq s t && beqAll ss ts
  | _, _ => false

end

mutual

theorem beq_iff : ∀ s t : Ty, beq s t = true ↔ s = t
  | void, t => by cases t <;> simp [beq]
  | prim p, t => by cases t <;> simp [beq]
  | object c as, t => by
    cases t <;> simp [beq]
    intro _
    exact beqAll_iff as _
  | array s, t => by
    cases t <;> simp [beq]
    exact beq_iff s _
  | var m, t => by cases t <;> simp [beq]

theorem beqAll_iff : ∀ ss ts : List Ty, beqAll ss ts = true ↔ ss = ts
  | [], ts => by cases ts <;> simp [beqAll]
  | s :: ss, ts => by
    cases ts <;> simp [beqAll]
    rw [beq_iff s, beqAll_iff ss]

end

instance : DecidableEq Ty := fun s t => decidable_of_iff _ (beq_iff s t)

/-- A class without type arguments. -/
abbrev ofClass (c : ClassId) : Ty := object c []

abbrev int : Ty := prim .int
abbrev long : Ty := prim .long
abbrev double : Ty := prim .double
abbrev boolean : Ty := prim .boolean

def class? : Ty → Option ClassId
  | object c _ => some c
  | _ => none

/-- The element type of an array. -/
def component? : Ty → Option Ty
  | array t => some t
  | _ => none

def isArray : Ty → Bool
  | array _ => true
  | _ => false

def isVar : Ty → Bool
  | var _ => true
  | _ => false

def isReference : Ty → Bool
  | object _ _ | array _ | var _ => true
  | _ => false

/-- Slots a value of the type takes as a local variable. -/
def width : Ty → Nat
  | prim p => p.width
  | _ => 1

/-- Two types of the same class, whatever their type arguments; equal types otherwise. -/
def sameClass : Ty → Ty → Bool
  | object c _, object d _ => c == d
  | s, t => s == t

/-- The type without type arguments. -/
def erasure : Ty → Ty
  | object c _ => ofClass c
  | array t => array t.erasure
  | t => t

mutual

/-- How deeply type arguments and arrays are nested. -/
def nesting : Ty → Nat
  | object _ args => nestingAll args + 1
  | array t => t.nesting + 1
  | _ => 0

def nestingAll : List Ty → Nat
  | [] => 0
  | t :: ts => max t.nesting (nestingAll ts)

end

end Ty

end CallSite
