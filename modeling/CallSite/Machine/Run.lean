import CallSite.Descriptor
import CallSite.Instruction
import CallSite.Machine.Helper

/-!
# Running code

A machine executes a list of instructions on local slots and an operand stack. A run is bounded
by a number of steps; what it did to the heap stays done when it fails.
-/

namespace CallSite

structure Machine where
  table : ClassTable
  /-- The functions of the host by owner and name; the first entry of a name counts. -/
  functions : List ((String × String) × HostFunction)
  /-- Static fields by owner and name; the first entry of a name counts. -/
  statics : List ((String × String) × Value)
  heap : Heap
  stepLimit : Nat

/-- The local slots; a slot may be unset. -/
abbrev Locals := Array (Option Value)

namespace Locals

def ofValues (values : List Value) : Locals := (values.map some).toArray

def get? (locals : Locals) (slot : UInt16) : Option Value := (locals[slot.toNat]?).join

/-- Store a value, with room made for the slot. -/
def store (locals : Locals) (slot : UInt16) (value : Value) : Locals :=
  let room := locals ++ Array.replicate (slot.toNat + 1 - locals.size) none
  room.setIfInBounds slot.toNat (some value)

end Locals

/-- The state of a run besides the heap: the slots, the operands (topmost first) and the position
of the next instruction. -/
structure Frame where
  locals : Locals
  stack : List Value
  position : Nat

/-- The position of the last binding of `label` at or after position `start`. -/
def labelFrom? (label : Nat) : (start : Nat) → List Instruction → Option Nat
  | _, [] => none
  | start, i :: rest =>
    match labelFrom? label (start + 1) rest with
    | some position => some position
    | none =>
      match i with
      | .label l => if l = label then some start else none
      | _ => none

namespace Machine

/-- A machine with an empty heap and the helpers that `options` names. -/
def new (table : ClassTable) (options : Options) : Machine :=
  { table, functions := Helper.standard options, statics := [], heap := #[], stepLimit := 100000 }

def setStatic (m : Machine) (owner name : String) (value : Value) : Machine :=
  { m with statics := ((owner, name), value) :: m.statics }

def static? (m : Machine) (owner name : String) : Option Value := m.statics.lookup (owner, name)

/-- Let calls of `owner.name` run a function of the host. -/
def register (m : Machine) (owner name : String) (function : HostFunction) : Machine :=
  { m with functions := ((owner, name), function) :: m.functions }

def alloc (m : Machine) (object : HeapObject) : Machine × Value :=
  let (heap, value) := m.heap.alloc object
  ({ m with heap }, value)

/-! ## Calls -/

/-- The private field that a bridge accessor of this name reads. -/
def bridgedField? (m : Machine) (member : MemberRef) : Option String :=
  (m.table.lookup (qualifiedOf member.owner)).bind fun c =>
    ((m.table.info c).bridges.find? fun b => b.accessor.name == member.name).map Bridge.field

/-- The result of a bridge accessor: the static field for a null receiver, else the field of the
receiver. -/
def readBridged (m : Machine) (heap : Heap) (member : MemberRef) (field : String)
    (args : List Value) : Except MachineError Value := do
  let value ←
    match args with
    | [] | .null :: _ => pure (m.static? member.owner field)
    | receiver :: _ =>
      let object ← heap.deref receiver (member.owner ++ "." ++ member.name)
      pure (object.field? field)
  match value with
  | some value => return value
  | none => throw (.noSuchField (member.owner ++ "." ++ field))

/-- A static call: boxing, a bridge accessor, or the getter of a static property. -/
def callStatic (m : Machine) (heap : Heap) (member : MemberRef) (args : List Value) :
    Except MachineError Value :=
  let boxed := if member.name = "valueOf" then args.head?.bind (boxAs member.owner) else none
  match boxed, m.bridgedField? member with
  | some b, _ => .ok (.boxed b)
  | none, some field => m.readBridged heap member field args
  | none, none =>
    let property := if args.isEmpty then Text.propertyOf? member.name else none
    match property.bind fun p => m.static? member.owner p with
    | some value => .ok value
    | none =>
      .error (.noSuchMethod (member.owner ++ "." ++ member.name ++ member.descriptor))

/-- A method of a list. -/
def callList (heap : Heap) (place : Nat) (items : List Value) (name : String) (args : List Value) :
    Option (Except MachineError (Heap × Value)) :=
  match name with
  | "size" => some (.ok (heap, .ofSize items.length))
  | "isEmpty" => some (.ok (heap, .ofBool items.isEmpty))
  | "get" => some do return (heap, ← itemAt items (← intArgument args 0))
  | "iterator" => some (.ok (heap.alloc (.iterator items 0)))
  | "add" =>
    let items := items ++ [args.head?.getD .null]
    some (.ok (heap.setIfInBounds place (.list items), .int 1))
  | _ => none

/-- A method of a map. -/
def callMap (heap : Heap) (entries : List (Value × Value)) (name : String) (args : List Value) :
    Option (Except MachineError (Heap × Value)) :=
  match name with
  | "get" => some (.ok (heap, entryOf entries (args.head?.getD .null)))
  | "size" => some (.ok (heap, .ofSize entries.length))
  | "isEmpty" => some (.ok (heap, .ofBool entries.isEmpty))
  | _ => none

/-- A method of an iterator. -/
def callIterator (heap : Heap) (place : Nat) (items : List Value) (position : Nat) (name : String) :
    Option (Except MachineError (Heap × Value)) :=
  match name with
  | "hasNext" => some (.ok (heap, .ofBool (position < items.length)))
  | "next" =>
    match items[position]? with
    | some item => some (.ok (heap.setIfInBounds place (.iterator items (position + 1)), item))
    | none => some (.error (.outOfBounds position items.length))
  | _ => none

/-- A method of an instance: a look-up by name, or a getter that reads its field. -/
def callInstance (heap : Heap) (object : HeapObject) (name : String) (args : List Value) :
    Option (Except MachineError (Heap × Value)) :=
  if name = "getProperty" then
    match args with
    | .string property :: _ =>
      match object.field? property with
      | some value => some (.ok (heap, value))
      | none => some (.error (.noSuchField (object.className ++ "." ++ property)))
    | _ => some (.error (.operand .propertyNameNotString))
  else if args.isEmpty then
    (object.field? ((Text.propertyOf? name).getD name) <|> object.field? name).map fun value =>
      .ok (heap, value)
  else none

/-- A method of an object of the heap; none if it has no such method. -/
def callObject (heap : Heap) (place : Nat) (object : HeapObject) (name : String)
    (args : List Value) : Option (Except MachineError (Heap × Value)) :=
  match object with
  | .list items => callList heap place items name args
  | .map entries => callMap heap entries name args
  | .iterator items position => callIterator heap place items position name
  | .array items => if name = "size" then some (.ok (heap, .ofSize items.length)) else none
  | .instance _ _ => callInstance heap object name args

/-- A call on a receiver that is no object of the heap; none if it has no such method. -/
def callValue (receiver : Value) (name : String) : Option Value :=
  match receiver with
  | .string s =>
    if name = "length" then some (.ofSize s.length)
    else if name = "isEmpty" then some (.ofBool s.isEmpty)
    else none
  | .cls c =>
    if name = "getName" then some (.string (qualifiedOf c))
    else if name = "getSimpleName" then
      some (.string (String.ofList (c.toList.reverse.takeWhile (· ≠ '/')).reverse))
    else none
  | _ => none

/-- A call on a receiver, with the arguments after it. -/
def callOn (heap : Heap) (member : MemberRef) (receiver : Value) (args : List Value) :
    Except MachineError (Heap × Value) :=
  let context := member.owner ++ "." ++ member.name
  if receiver.isNull then .error (.nullPointer context)
  else if member.name = "getClass" then .ok (heap, .cls (heap.classOf receiver))
  else if member.name = "toString" then .ok (heap, .string (heap.text receiver))
  else match receiver with
    | .boxed b =>
      match b.unbox member.name with
      | some value => .ok (heap, value)
      | none => .error (.noSuchMethod context)
    | .ref place =>
      match heap[place]? with
      | none => .error (.operand (.dangling place))
      | some object =>
        (callObject heap place object member.name args).getD
          (.error (.noSuchMethod (context ++ member.descriptor)))
    | _ =>
      match callValue receiver member.name with
      | some value => .ok (heap, value)
      | none => .error (.operand (.notAnObject context receiver.kind))

/-- Constructors only look at their receiver: collections take a capacity, and instances start
without fields. -/
def construct (heap : Heap) (member : MemberRef) (args : List Value) : Except MachineError Unit :=
  (heap.deref (args.head?.getD .null) (member.owner ++ ".<init>")).map fun _ => ()

/-- Call a member. Functions of the host come before everything but constructors. -/
def invoke (m : Machine) (heap : Heap) (dispatch : Dispatch) (member : MemberRef)
    (args : List Value) : Except MachineError (Heap × Option Value) :=
  if dispatch = .special ∧ member.name = "<init>" then
    (construct heap member args).map fun _ => (heap, none)
  else match m.functions.lookup (member.owner, member.name) with
    | some function => function heap args
    | none =>
      if dispatch = .static then
        (m.callStatic heap member args).map fun value => (heap, some value)
      else match args with
        | [] => .error (.stackUnderflow 0)
        | receiver :: args =>
          (callOn heap member receiver args).map fun (heap, value) => (heap, some value)

/-! ## Steps -/

/-- The internal name of a class, from its descriptor. A primitive type goes by its own name. -/
def className (descriptor : String) : String :=
  match descriptor.toList with
  | 'L' :: rest =>
    match rest.reverse with
    | ';' :: name => String.ofList name.reverse
    | _ => descriptor
  | [letter] => ((Primitive.ofDescriptor? letter).map Primitive.name).getD descriptor
  | _ => descriptor

def literalValue : Literal → Value
  | .int v => .int v
  | .long v => .long v
  | .double v => .double v
  | .string s => .string s
  | .cls descriptor => .cls (className descriptor)

/-- The object that `new` makes. -/
def blankObject (owner : String) : HeapObject :=
  if owner = "java/util/ArrayList" then .list []
  else if owner = "java/util/LinkedHashMap" ∨ owner = "java/util/HashMap" then .map []
  else .instance owner []

/-- The element of an array. -/
def arrayElement (heap : Heap) (array index : Value) : Except MachineError Value :=
  match index with
  | .int index => do
    match ← heap.deref array "array load" with
    | .array items =>
      match if index.toInt < 0 then none else items[index.toInt.toNat]? with
      | some item => return item
      | none => throw (.outOfBounds index.toInt items.length)
    | _ => throw (.operand .loadFromNonArray)
  | other => .error (.operand (.indexOfKind other.kind))

def isZero : Value → Bool
  | .int v => v == 0
  | _ => false

/-- Go on at a label. -/
def jumpTo (code : List Instruction) (label : Nat) (frame : Frame) : Except MachineError Frame :=
  match labelFrom? label 0 code with
  | some position => .ok { frame with position }
  | none => .error (.unknownLabel label)

/-- Execute instruction `i` at the position of `frame`. -/
def execute (m : Machine) (code : List Instruction) (heap : Heap) (frame : Frame)
    (i : Instruction) : Except MachineError (Heap × Frame) :=
  let next : Frame := { frame with position := frame.position + 1 }
  let underflow : Except MachineError (Heap × Frame) := .error (.stackUnderflow frame.position)
  let put (value : Value) (below : List Value) : Except MachineError (Heap × Frame) :=
    .ok (heap, { next with stack := value :: below })
  match i with
  | .label _ => .ok (heap, next)
  | .pushNull => put .null frame.stack
  | .push literal => put (literalValue literal) frame.stack
  | .load _ slot =>
    match frame.locals.get? slot with
    | some value => put value frame.stack
    | none => .error (.unsetLocal slot)
  | .store _ slot =>
    match frame.stack with
    | value :: below =>
      .ok (heap, { next with locals := frame.locals.store slot value, stack := below })
    | [] => underflow
  | .new owner =>
    let (heap, value) := heap.alloc (blankObject owner)
    .ok (heap, { next with stack := value :: frame.stack })
  | .dup =>
    match frame.stack with
    | value :: _ => put value frame.stack
    | [] => underflow
  | .pop =>
    match frame.stack with
    | _ :: below => .ok (heap, { next with stack := below })
    | [] => underflow
  | .checkCast target =>
    match frame.stack with
    | value :: _ =>
      if heap.instanceOf m.table value target then .ok (heap, next)
      else .error (.classCast (heap.text value) target)
    | [] => underflow
  | .getField member =>
    match frame.stack with
    | receiver :: below => do
      let object ← heap.deref receiver ("getfield " ++ member.owner ++ "." ++ member.name)
      match object.field? member.name with
      | some value => put value below
      | none => throw (.noSuchField (member.owner ++ "." ++ member.name))
    | [] => underflow
  | .getStatic member =>
    match m.static? member.owner member.name with
    | some value => put value frame.stack
    | none => .error (.noSuchField (member.owner ++ "." ++ member.name))
  | .invoke dispatch member =>
    let count := Descriptor.argCount member.descriptor + if dispatch = .static then 0 else 1
    if frame.stack.length < count then underflow
    else do
      let (heap, result) ← m.invoke heap dispatch member (frame.stack.take count).reverse
      let below := frame.stack.drop count
      if Descriptor.returnsVoid member.descriptor then return (heap, { next with stack := below })
      else return (heap, { next with stack := result.getD .null :: below })
  | .arrayLength =>
    match frame.stack with
    | array :: below => do
      match ← heap.deref array "arraylength" with
      | .array items => put (.ofSize items.length) below
      | _ => throw (.operand .lengthOfNonArray)
    | [] => underflow
  | .arrayLoad _ =>
    match frame.stack with
    | index :: array :: below => do put (← arrayElement heap array index) below
    | _ => underflow
  | .convert _ target =>
    match frame.stack with
    | value :: below =>
      match value.number? with
      | some n => put (target.valueOf n) below
      | none => .error (.operand (.noConversion value.kind target))
    | [] => underflow
  | .jumpIfZero label =>
    match frame.stack with
    | value :: below =>
      let next := { next with stack := below }
      if isZero value then (jumpTo code label next).map fun frame => (heap, frame)
      else .ok (heap, next)
    | [] => underflow
  | .jumpIfNull label =>
    match frame.stack with
    | value :: below =>
      let next := { next with stack := below }
      if value.isNull then (jumpTo code label next).map fun frame => (heap, frame)
      else .ok (heap, next)
    | [] => underflow
  | .jump label => (jumpTo code label next).map fun frame => (heap, frame)

/-- Run until the code ends, for at most `steps` steps. The result is the topmost operand, null if
there is none. -/
def runFrom (m : Machine) (code : List Instruction) :
    (steps : Nat) → Heap → Frame → Heap × Except MachineError Value
  | steps, heap, frame =>
    match code[frame.position]? with
    | none => (heap, .ok (frame.stack.head?.getD .null))
    | some i =>
      match steps with
      | 0 => (heap, .error (.stepLimit m.stepLimit))
      | steps + 1 =>
        match m.execute code heap frame i with
        | .ok (heap, frame) => runFrom m code steps heap frame
        | .error e => (heap, .error e)

/-- Run code on local slots that hold `locals`. -/
def run (m : Machine) (code : List Instruction) (locals : List Value) :
    Machine × Except MachineError Value :=
  let (heap, result) := m.runFrom code m.stepLimit m.heap ⟨.ofValues locals, [], 0⟩
  ({ m with heap }, result)

end Machine

end CallSite
