import CallSite.ClassTable.Interfaces

/-!
# Conversion cost

A value may be used where another type is expected at a cost: two for each superclass step, one
for each interface link, one for boxing. `java.lang.Object` costs more than every interface.
-/

namespace CallSite

namespace Primitive

/-- The class whose instances hold values of the primitive type. -/
def wrapper : Primitive → ClassId
  | boolean => .boolean
  | byte => .byte
  | char => .character
  | short => .short
  | int => .integer
  | long => .long
  | float => .float
  | double => .double

/-- The primitive type that instances of a wrapper class hold. -/
def ofWrapper? (c : ClassId) : Option Primitive :=
  all.find? fun p => p.wrapper == c

theorem ofWrapper?_wrapper (p : Primitive) : ofWrapper? p.wrapper = some p := by
  cases p <;> decide

end Primitive

/-- The type with a primitive replaced by its wrapper class. -/
def Ty.wrapped : Ty → Ty
  | .prim p => .ofClass p.wrapper
  | ty => ty

namespace ClassTable

/-- The fewest interface links, at least one and at most `limit`, from a class in `frontier` to
`target`. -/
def linksTo? (t : ClassTable) (target : ClassId) : Nat → List ClassId → Option Nat
  | 0, _ => none
  | limit + 1, frontier =>
    let next := (frontier.flatMap fun c => (t.info c).interfaces).eraseDups
    if next.contains target then some 1
    else if next.isEmpty then none
    else (linksTo? t target limit next).map (· + 1)

/-- The cost to reach `target` by interface links from `c`, none for `c` itself. -/
def linkCost? (t : ClassTable) (target c : ClassId) : Option Nat :=
  if c = target then some 0 else t.linksTo? target t.size [c]

/-- The cost of converting one class to another: the least over the superclasses of `source`. -/
def classDistance (t : ClassTable) (source target : ClassId) : Option Nat :=
  if target = .object ∧ source ≠ .object then
    ((t.superclasses source).idxOf? .object).map fun steps =>
      2 * steps + (t.allInterfaces source).length + 1
  else
    ((t.superclasses source).zipIdx.filterMap fun (c, steps) =>
      (t.linkCost? target c).map (2 * steps + ·)).min?

/-- The cost of converting one type to another; none when that is impossible. -/
def distance (t : ClassTable) : Ty → Ty → Option Nat
  | .void, .void => some 0
  | .prim p, .prim q => if p = q then some 0 else none
  | .prim p, .object d _ => (t.classDistance p.wrapper d).map (· + 1)
  | .prim p, .var _ => (t.classDistance p.wrapper .object).map (· + 1)
  | .object c _, .prim p => if c = p.wrapper then some 1 else none
  | .object c _, .object d _ => t.classDistance c d
  | .object c _, .var _ => t.classDistance c .object
  | .array _, .object d _ => if d = .object then some 2 else none
  | .array a, .array b =>
    if a = b then some 0
    else if a.isReference && b.isReference then distance t a b
    else none
  | .array _, .var _ => some 2
  | .var _, .var _ => some 0
  | .var _, .object d _ => if d = .object then some 0 else none
  | _, _ => none

def assignable (t : ClassTable) (source target : Ty) : Bool := (t.distance source target).isSome

end ClassTable

end CallSite
