import CallSite.Emission.Collect
import CallSite.Selection.Rules

/-!
# Property accesses

A property access is bound by the selection rules and written as its binding says. For `list.p`
the access to one element is a property access again.
-/

namespace CallSite

namespace Emit

/-- Write an access that is bound to `binding`. `collected` writes the access to each element of a
list. -/
def bound (s : Setting) (binding : Binding) (site : Site) (member : String) (receiver : Emit Ty)
    (collected : Ty → Emit Ty) : Emit Ty :=
  match binding with
  | .arrayLength => do
    discard receiver
    emit .arrayLength
    replace 1 .int
    return .int
  | .collectionSize => call s receiver collectionSizeMethod [] site.safe
  | .getter method => call s receiver method [] site.safe
  | .interfaceGetter method => call s receiver method [] site.safe
  | .extension method => call s receiver method [] site.safe
  | .field field => readField s receiver field
  | .bridge accessor fieldStatic =>
    call s receiver accessor [if fieldStatic then pushNull else discard receiver] false
  | .enumConstant owner => do
    let ty := Ty.ofClass owner
    emit (.getStatic ⟨s.table.internalName owner, member, s.table.descriptor ty⟩)
    push ty
    return ty
  | .mapEntry => call s receiver mapGetMethod [pushString member] false
  | .eachElement component => collected component
  | .dynamic property => call s receiver getPropertyMethod [pushString property] site.safe
  | .unresolved => do
    pushNull
    return .ofClass .object

/-- Load a local variable. -/
def loadLocal (s : Setting) (slot : UInt16) (note : Note) : Emit Ty := do
  let ty := (Expr.localVar slot note).typeIn s.enclosing
  emit (.load (.ofType ty) slot)
  push ty
  return ty

/-- Write a property access. An access that nothing applies to is reported and gives null. -/
def access (s : Setting) (site : Site) (receiver : Emit Ty) (collected : Ty → Emit Ty) :
    Emit Ty := do
  let before ← depth
  let query := Query.ofSite site s.enclosing
  let binding := (query.select s.table).2
  if binding = .unresolved then
    report (.access (s.table.describe query.reportedType.erasure) query.member site.span)
  let ty ← bound s binding site query.member receiver collected
  expectDepth (before + 1) "property access" site.span
  return ty

/-- Write the access to a list element, which is held in a slot. `depth` bounds the nesting of
lists in lists. -/
def elementAccess (s : Setting) : (depth : Nat) → Site → Emit Ty
  | 0, site => throw (.internal .endlessElements site.span)
  | depth + 1, site =>
    let receiver :=
      match site.receiver with
      | .localVar slot note => loadLocal s slot note
      | _ => throw (.internal .endlessElements site.span)
    access s site receiver fun component =>
      collect s site site.member component receiver (elementAccess s depth)

/-- How deep element accesses can nest: each step takes a type argument off, and two more may
follow on the root class. -/
def elementDepth (component : Ty) : Nat := component.nesting + 2

/-- Collect `member` of every element of a list. -/
def collectProperty (s : Setting) (site : Site) (member : String) (receiver : Emit Ty)
    (component : Ty) : Emit Ty :=
  collect s site member component receiver (elementAccess s (elementDepth component))

/-- Write a property access whose receiver is written by `receiver`. -/
def property (s : Setting) (site : Site) (receiver : Emit Ty) : Emit Ty :=
  access s site receiver (collectProperty s site site.member receiver)

end Emit

end CallSite
