import CallSite.ClassTable.Interfaces
import CallSite.Machine.Error
import CallSite.Machine.Value

/-!
# Objects at run time

Following references, the text of values, and which class a value is an instance of.
-/

namespace CallSite

namespace Heap

/-- The object a value refers to; `context` tells an error apart. -/
def deref (heap : Heap) (value : Value) (context : String) : Except MachineError HeapObject :=
  match value with
  | .ref place =>
    match heap[place]? with
    | some object => .ok object
    | none => .error (.operand (.dangling place))
  | .null => .error (.nullPointer context)
  | other => .error (.operand (.notAnObject context other.kind))

/-! ## Text -/

/-- The text of a value, that of the values inside it being given by `inner`. -/
def textBy (heap : Heap) (inner : Value → Option String) : Value → Option String
  | .null => some "null"
  | .int v => some (toString v.toInt)
  | .long v => some (toString v.toInt)
  | .double v => some (Decimal.doubleText v)
  | .string s => some s
  | .boxed b => some b.text
  | .cls name => some (qualifiedOf name)
  | .ref place =>
    match heap[place]? with
    | some (.list items) | some (.array items) =>
      (items.mapM inner).map fun texts => "[" ++ String.intercalate ", " texts ++ "]"
    | some (.map entries) =>
      (entries.mapM fun (k, v) => do return (← inner k) ++ ":" ++ (← inner v)).map fun texts =>
        "[" ++ String.intercalate ", " texts ++ "]"
    | some (.instance cls _) => some (qualifiedOf cls ++ "@" ++ toString place)
    | some (.iterator _ _) => some ("java.util.Iterator@" ++ toString place)
    | none => some ("<dangling #" ++ toString place ++ ">")

/-- The text of a value in which collections nest at most `depth` deep. -/
def textWithin (heap : Heap) : (depth : Nat) → Value → Option String
  | 0 => heap.textBy fun _ => none
  | depth + 1 => heap.textBy (textWithin heap depth)

/-- The text of a value; none for a collection that contains itself. No other nests deeper than
there are objects. -/
def text? (heap : Heap) (value : Value) : Option String := heap.textWithin heap.size value

def text (heap : Heap) (value : Value) : String := (heap.text? value).getD ""

/-! ## Classes -/

/-- The internal name of the class of a value. -/
def classOf (heap : Heap) : Value → String
  | .null => "java/lang/Object"
  | .int _ => "java/lang/Integer"
  | .long _ => "java/lang/Long"
  | .double _ => "java/lang/Double"
  | .string _ => "java/lang/String"
  | .boxed b => b.className
  | .cls _ => "java/lang/Class"
  | .ref place =>
    match heap[place]? with
    | some object => object.className
    | none => "java/lang/Object"

/-- An object whose class is `cls` may be used as `target`. Classes the table does not know are
not checked. -/
def classFits (t : ClassTable) (cls target : String) : Bool :=
  cls == target || target == "java/lang/Object" ||
    match t.lookup (qualifiedOf cls), t.lookup (qualifiedOf target) with
    | some c, some d => t.derivesFrom c d || t.implements c d
    | _, _ => true

/-- A value may be used as `target`, an internal class name or array descriptor. -/
def instanceOf (t : ClassTable) (heap : Heap) (value : Value) (target : String) : Bool :=
  match value with
  | .null => true
  | .int _ | .long _ | .double _ => false
  | .ref place =>
    match heap[place]? with
    | some (.array _) => ['['].isPrefixOf target.toList || target == "java/lang/Object"
    | _ => classFits t (heap.classOf value) target
  | _ => classFits t (heap.classOf value) target

end Heap

end CallSite
