import CallSite.ClassTable.Conversion
import CallSite.Descriptor
import CallSite.Emission.Draft

/-!
# Conversions of the topmost operand

Boxing, unboxing, widening, narrowing and casting. A cast is left out where the tracked type is
assignable.
-/

namespace CallSite

/-- The method that takes a primitive out of its holder, and the holder for values of no exactly
known wrapper. -/
def Primitive.unboxing : Primitive → ClassId × String
  | .boolean => (.boolean, "booleanValue")
  | .char => (.character, "charValue")
  | .byte => (.number, "byteValue")
  | .short => (.number, "shortValue")
  | .int => (.number, "intValue")
  | .long => (.number, "longValue")
  | .float => (.number, "floatValue")
  | .double => (.number, "doubleValue")

namespace Emit

/-- Make sure the topmost operand can be used as `target`. -/
def castTo (s : Setting) (target : Ty) : Emit Unit := do
  let top ← top?
  if top.any fun ty => s.table.assignable ty target then return
  emit (.checkCast (s.table.internalTypeName target))
  replace 1 target

/-- Box the topmost operand if it is primitive. -/
def boxTop (s : Setting) : Emit Unit := do
  match ← top? with
  | some (.prim p) =>
    let owner := s.table.internalName p.wrapper
    let descriptor := "(" ++ p.descriptor.toString ++ ")L" ++ owner ++ ";"
    emit (.invoke .static ⟨owner, "valueOf", descriptor⟩)
    replace 1 (.ofClass p.wrapper)
  | _ => return

/-- Take a primitive out of the topmost operand. A wrapper of another primitive is read as a
number. -/
def unboxTop (s : Setting) (p : Primitive) : Emit Unit := do
  let (holder, method) := p.unboxing
  let exact := ((← top?).bind Ty.class?).bind Primitive.ofWrapper? == some p
  let holder := if exact then p.wrapper else holder
  castTo s (.ofClass holder)
  emit (.invoke .dynamic
    ⟨s.table.internalName holder, method, "()" ++ p.descriptor.toString⟩)
  replace 1 (.prim p)

/-- Convert the topmost operand between primitive types. -/
def convertTop (source target : Primitive) : Emit Unit := do
  if source.stackKind ≠ target.stackKind then
    emit (.convert source.stackKind target.stackKind)
  if source ≠ target then replace 1 (.prim target)

/-- Convert the topmost operand to `target`. Nothing is done on an empty stack or for `void`. -/
def coerce (s : Setting) (target : Ty) : Emit Unit := do
  match ← top?, target with
  | none, _ => return
  | some (.prim p), .prim q => convertTop p q
  | some (.prim _), .void => return
  | some (.prim _), _ => do
    boxTop s
    castTo s target
  | some .void, _ => return
  | some _, .prim p => unboxTop s p
  | some _, .void => return
  | some _, _ => castTo s target

end Emit

end CallSite
