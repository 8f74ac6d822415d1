import CallSite.Emission.Access
import CallSite.Selection.Operator

/-!
# Writing expressions

Expressions are written by recursion on the tree; every expression leaves one operand.
-/

namespace CallSite

namespace Emit

/-- The types of the operands of a string concatenation helper. -/
def concatDescriptor : String := "(Ljava/lang/String;Ljava/lang/Object;)Ljava/lang/String;"

/-- Call a helper that takes the operands above `start` and leaves a `result`. -/
def helperCall (start : Nat) (owner name descriptor : String) (result : Ty) : Emit Ty := do
  emit (.invoke .static ⟨owner, name, descriptor⟩)
  replace ((← depth) - start) result
  return result

/-- The primitive type of the elements of an array. -/
def elementPrimitive : Ty → Option Primitive
  | .prim p => some p
  | _ => none

/-- Write an operator that is bound to `binding`. -/
def boundOperator (s : Setting) (binding : OperatorBinding) (receiver argument : Emit Ty) :
    Emit Ty := do
  let start ← depth
  match binding with
  | .arithmetic op =>
    discard receiver
    coerce s (.ofClass .number)
    discard argument
    coerce s (.ofClass .number)
    helperCall start (s.options.numberHelperPackage ++ "/" ++ op.helper) op.name
      numberPairDescriptor (.ofClass .number)
  | .power helper =>
    discard receiver
    boxTop s
    discard argument
    boxTop s
    helperCall start s.options.extensionOwner "power" helper.descriptor (.ofClass .number)
  | .concat =>
    discard receiver
    discard argument
    boxTop s
    helperCall start s.options.extensionOwner "plus" concatDescriptor (.ofClass .string)
  | .element component =>
    discard receiver
    discard argument
    coerce s .int
    emit (.arrayLoad (elementPrimitive component))
    replace ((← depth) - start) component
    return component
  | .subscript method => call s receiver method [discard argument] false
  | .extension method => call s receiver method [discard argument] false
  | .mapEntry => call s receiver mapGetMethod [discard argument] false

/-- Write `receiver.op(argument)`. That something applies is the type checker's promise. -/
def operator (s : Setting) (left : Expr) (op : String) (right : Expr)
    (receiver argument : Emit Ty) : Emit Ty :=
  let found := s.table.selectOperator s.options (left.typeIn s.enclosing)
    (right.typeIn s.enclosing) op
  match found with
  | some binding => boundOperator s binding receiver argument
  | none =>
    let span := left.note.span
    throw (.internal
      (.noOperator span.line.toNat span.column.toNat left.note.text op right.note.text) span)

/-- The instruction that loads a constant. -/
def constantCode : Constant → Instruction
  | .null => .pushNull
  | .int v => .push (.int v)
  | .long v => .push (.long v)
  | .double v => .push (.double v)
  | .bool b => .push (.int (if b then 1 else 0))
  | .string s => .push (.string s)

/-- Write an expression, which leaves its value as the one new operand. -/
def expr (s : Setting) : Expr → Emit Ty
  | .this note => do
    let ty := (Expr.this note).typeIn s.enclosing
    emit (.load .reference 0)
    push ty
    return ty
  | .localVar slot note => loadLocal s slot note
  | .classLiteral ty _ => do
    emit (.push (.cls (s.table.descriptor ty)))
    push (.object .cls [ty])
    return .object .cls [ty]
  | .constant value _ => do
    emit (constantCode value)
    push value.type
    return value.type
  | .property receiver accessed _ =>
    property s { accessed with receiver } (expr s receiver)
  | .operator receiver op argument _ =>
    operator s receiver op argument (expr s receiver) (expr s argument)

/-! ## Sites -/

/-- Write a property site: `receiver.member` or `receiver?.member`. -/
def propertySite (s : Setting) (site : Site) : Emit Ty :=
  property s site (expr s site.receiver)

/-- Write a property site on a receiver that can be asked for properties at run time. -/
def dynamicSite (s : Setting) (site : Site) : Emit Ty := do
  let before ← depth
  let query := Query.ofDynamicSite s.table site s.enclosing s.inClosure
  let receiver := expr s site.receiver
  let ty ← bound s (query.selectDynamic s.table).2 site query.member receiver
    (collectProperty s site query.member receiver)
  expectDepth (before + 1) "GroovyObject property access" site.span
  return ty

/-- Write an operator site. -/
def operatorSite (s : Setting) (receiver : Expr) (op : String) (argument : Expr) : Emit Ty := do
  let before ← depth
  let ty ← operator s receiver op argument (expr s receiver) (expr s argument)
  expectDepth (before + 1) "single argument call" receiver.note.span
  return ty

/-- Write the loop for `list.member` itself, whatever the rules would select. -/
def listSite (s : Setting) (site : Site) (component : Ty) : Emit Ty :=
  collectProperty s site site.member (expr s site.receiver) component

end Emit

end CallSite
