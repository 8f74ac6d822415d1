import CallSite.Emission.Call
import CallSite.Expr

/-!
# Collecting from a list

`list.p` is compiled as a loop that puts `p` of every element into a new list.
-/

namespace CallSite

namespace Emit

/-- Call a method of an interface of the run-time library. -/
def interfaceCall (owner name descriptor : String) : Emit Unit :=
  emit (.invoke .interface ⟨owner, name, descriptor⟩)

/-- Evaluate the list and make the empty result list, as large as the list. Until the loop starts
the iterator's slot holds the list itself. -/
def allocateResult (receiver : Emit Ty) (result iterator : UInt16) : Emit Ty := do
  let listType ← receiver
  emit (.store .reference iterator)
  drop 1
  emit (.new "java/util/ArrayList")
  emit .dup
  push (.ofClass .arrayList)
  push (.ofClass .arrayList)
  emit (.load .reference iterator)
  push listType
  interfaceCall "java/util/List" "size" "()I"
  replace 1 .int
  emit (.invoke .special ⟨"java/util/ArrayList", "<init>", "(I)V"⟩)
  drop 2
  emit (.store .reference result)
  drop 1
  return listType

def startIterator (listType : Ty) (iterator : UInt16) : Emit Unit := do
  emit (.load .reference iterator)
  push listType
  interfaceCall "java/util/List" "iterator" "()Ljava/util/Iterator;"
  replace 1 (.ofClass .iterator)
  emit (.store .reference iterator)
  drop 1

/-- Leave the loop when the iterator has no more elements. -/
def testIterator (iterator : UInt16) (exit : Nat) : Emit Unit := do
  emit (.load .reference iterator)
  push (.ofClass .iterator)
  interfaceCall "java/util/Iterator" "hasNext" "()Z"
  replace 1 .boolean
  emit (.jumpIfZero exit)
  drop 1

/-- Keep the next element in its slot. -/
def nextElement (s : Setting) (component : Ty) (iterator next : UInt16) : Emit Unit := do
  emit (.load .reference iterator)
  push (.ofClass .iterator)
  interfaceCall "java/util/Iterator" "next" "()Ljava/lang/Object;"
  emit (.checkCast (s.table.internalTypeName component))
  replace 1 component
  emit (.store .reference next)
  drop 1

/-- Add what `value` gives, boxed, to the result list. -/
def addToResult (s : Setting) (result : UInt16) (value : Emit Ty) : Emit Unit := do
  emit (.load .reference result)
  push (.ofClass .arrayList)
  discard value
  boxTop s
  interfaceCall "java/util/List" "add" "(Ljava/lang/Object;)Z"
  replace 2 .boolean
  emit .pop
  drop 1

/-- The access to the member of the element held in slot `next`. -/
def elementSite (site : Site) (member : String) (component : Ty) (next : UInt16) : Site :=
  { member, span := site.span
    receiver := .localVar next
      { type := component, span := site.span, text := site.receiver.note.text ++ "[i]" } }

/-- Collect `member` of every element of the list that `receiver` gives. `access` writes the access
to one element. -/
def collect (s : Setting) (site : Site) (member : String) (component : Ty) (receiver : Emit Ty)
    (access : Site → Emit Ty) : Emit Ty := do
  let result ← define "tmpList" (.ofClass .arrayList)
  let iterator ← define "iterator" (.ofClass .iterator)
  let next ← define "next" component
  let test ← freshLabel
  let exit ← freshLabel
  releasing [next, iterator, result] do
    let listType ← allocateResult receiver result iterator
    startIterator listType iterator
    emit (.label test)
    let before ← depth
    testIterator iterator exit
    nextElement s component iterator next
    addToResult s result (access (elementSite site member component next))
    emit (.jump test)
    expectDepth before "list property loop body" site.span
    emit (.label exit)
    emit (.load .reference result)
    push (.ofClass .arrayList)
    return .ofClass .arrayList

end Emit

end CallSite
