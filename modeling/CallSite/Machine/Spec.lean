import CallSite.ClassTable.Basic
import CallSite.Machine.Value

/-!
# Value specifications

Run-time values as they are described before a run, and how they are put on the heap. Numbers
inside lists and maps are boxed.
-/

namespace CallSite

inductive ValueSpec where
  | null
  | int (value : Int32)
  | long (value : Int64)
  | double (value : Float)
  | bool (value : Bool)
  | string (value : String)
  | integer (value : Int32)
  | decimal (value : Float)
  | list (items : List ValueSpec)
  | array (items : List ValueSpec)
  | map (entries : List (String × ValueSpec))
  | object (cls : String) (fields : List (String × ValueSpec))
deriving Repr, Inhabited

namespace Heap

mutual

/-- Put a value on the heap, parts before the whole. `boxed` boxes a number that stands alone. -/
def place (heap : Heap) (boxed : Bool) : ValueSpec → Heap × Value
  | .null => (heap, .null)
  | .int v => (heap, if boxed then .boxed (.integer v) else .int v)
  | .long v => (heap, if boxed then .boxed (.long v) else .long v)
  | .double v => (heap, if boxed then .boxed (.double v) else .double v)
  | .bool b => (heap, if boxed then .boxed (.boolean b) else .ofBool b)
  | .integer v => (heap, .boxed (.integer v))
  | .decimal v => (heap, .boxed (.bigDecimal v))
  | .string s => (heap, .string s)
  | .list items =>
    let (heap, values) := placeAll heap true items
    heap.alloc (.list values)
  | .array items =>
    let (heap, values) := placeAll heap false items
    heap.alloc (.array values)
  | .map entries =>
    let (heap, values) := placeNamed heap true entries
    heap.alloc (.map (values.map fun (key, value) => (.string key, value)))
  | .object cls fields =>
    let (heap, values) := placeNamed heap false fields
    heap.alloc (.instance (internalOf cls) values)

/-- Put values on the heap from left to right. -/
def placeAll (heap : Heap) (boxed : Bool) : List ValueSpec → Heap × List Value
  | [] => (heap, [])
  | item :: items =>
    let (heap, value) := place heap boxed item
    let (heap, values) := placeAll heap boxed items
    (heap, value :: values)

def placeNamed (heap : Heap) (boxed : Bool) :
    List (String × ValueSpec) → Heap × List (String × Value)
  | [] => (heap, [])
  | (name, item) :: items =>
    let (heap, value) := place heap boxed item
    let (heap, values) := placeNamed heap boxed items
    (heap, (name, value) :: values)

end

end Heap

end CallSite
