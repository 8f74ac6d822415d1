import CallSite.Emission.Conversion

/-!
# Calls and field reads

How methods are called and fields read once they are chosen. Receivers and arguments are given as
the steps that write them.
-/

namespace CallSite

namespace Emit

/-- After a call on a receiver that may be null: jump over the code that makes a null result. -/
def nullBranch (onNull : Nat) : Emit Unit := do
  let done ← freshLabel
  emit (.jump done)
  emit (.label onNull)
  emit .pop
  emit .pushNull
  emit (.label done)

/-- Write the arguments, each converted to its parameter's type. -/
def arguments (s : Setting) : List (Emit Unit) → List Ty → Emit Unit
  | [], _ => return
  | argument :: rest, params => do
    argument
    match params with
    | param :: _ => coerce s param
    | [] => pure ()
    arguments s rest params.tail

def pushString (text : String) : Emit Unit := do
  emit (.push (.string text))
  push (.ofClass .string)

def pushNull : Emit Unit := do
  emit .pushNull
  push (.ofClass .object)

/-- Extension methods take the receiver as their first argument. -/
def isExtension (method : Method) : Bool := method.owner == ClassId.extensions

/-- The type a receiver is converted to. -/
def selfType (method : Method) : Ty :=
  match method.params with
  | first :: _ => if isExtension method then first else .ofClass method.owner
  | [] => .ofClass method.owner

/-- The parameters that are not the receiver. -/
def argumentTypes (method : Method) : List Ty :=
  if isExtension method then method.params.drop 1 else method.params

/-- The call instruction of a method. -/
def invocation (s : Setting) (method : Method) : Instruction :=
  let owner :=
    if isExtension method then s.options.extensionOwner else s.table.internalName method.owner
  let dispatch :=
    if method.isStatic then Dispatch.static
    else if (s.table.info method.owner).isInterface then .interface
    else .dynamic
  .invoke dispatch ⟨owner, method.name, s.table.methodDescriptor method.params method.returns⟩

/-- Write the receiver of a call. For a safe call, the result is the label to go to on null. -/
def receiverOf (s : Setting) (receiver : Emit Ty) (method : Method) (safe : Bool) :
    Emit (Option Nat) := do
  discard receiver
  let guard ← if safe then
      let onNull ← freshLabel
      emit .dup
      emit (.jumpIfNull onNull)
      pure (some onNull)
    else pure none
  coerce s (selfType method)
  return guard

/-- Call `method`. Static methods do not evaluate the receiver. In a safe call a null receiver
gives null, and a primitive result is boxed. -/
def call (s : Setting) (receiver : Emit Ty) (method : Method) (args : List (Emit Unit))
    (safe : Bool) : Emit Ty := do
  let start ← depth
  let guard ← if isExtension method || !method.isStatic then receiverOf s receiver method safe
    else pure none
  arguments s args (argumentTypes method)
  emit (invocation s method)
  drop ((← depth) - start)
  if method.returns ≠ .void then push method.returns
  match guard with
  | some onNull =>
    boxTop s
    nullBranch onNull
  | none => pure ()
  return (← top?).getD .void

/-- Read a field. The receiver of a static field is not evaluated. -/
def readField (s : Setting) (receiver : Emit Ty) (field : Field) : Emit Ty := do
  let owner := s.table.internalName field.owner
  let member : MemberRef := ⟨owner, field.name, s.table.descriptor field.type⟩
  if field.isStatic then
    emit (.getStatic member)
    push field.type
  else
    discard receiver
    castTo s (.ofClass field.owner)
    emit (.getField member)
    replace 1 field.type
  return field.type

end Emit

/-! ## Methods every table has -/

def collectionSizeMethod : Method :=
  { name := "size", owner := .collection, params := [], returns := .int }

def mapGetMethod : Method :=
  { name := "get", owner := .map, params := [.ofClass .object], returns := .ofClass .object }

def getPropertyMethod : Method :=
  { name := "getProperty", owner := .groovyObject, params := [.ofClass .string]
    returns := .ofClass .object }

end CallSite
