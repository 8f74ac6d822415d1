import CallSite.Machine.Heap
import CallSite.Machine.Number
import CallSite.Options

/-!
# Run-time helpers

The functions of the host that emitted code calls for operators: arithmetic on two numbers,
powers, string concatenation and subscripts.
-/

namespace CallSite

/-- A function of the host. It gets the receiver, if there is one, and the arguments, and has no
result for `void`. A function that fails leaves the heap as it was. -/
abbrev HostFunction := Heap → List Value → Except MachineError (Heap × Option Value)

/-- The number at a position among the arguments. -/
def intArgument (args : List Value) (position : Nat) : Except MachineError Int :=
  match (args[position]?).bind Value.number? with
  | some n => .ok n.toInt64.toInt
  | none => .error (.operand (.argumentNotNumber position))

/-- The item at `index`; a negative index counts from the end. -/
def itemAt (items : List Value) (index : Int) : Except MachineError Value :=
  let place := if index < 0 then index + items.length else index
  match if place < 0 then none else items[place.toNat]? with
  | some item => .ok item
  | none => .error (.outOfBounds index items.length)

namespace Helper

/-- The two numbers that an operator is called on. -/
def numberPair (op : String) : List Value → Except MachineError (Boxed × Boxed)
  | .null :: _ => .error (.nullPointer op)
  | _ :: .null :: _ => .error (.nullPointer op)
  | a :: b :: _ =>
    match a.number?, b.number? with
    | some a, some b => .ok (a, b)
    | _, _ => .error (.operand (.notTwoNumbers op))
  | _ => .error (.operand (.notTwoArguments op))

/-- An operator on two numbers. -/
def onNumbers (op : String) (f : Boxed → Boxed → Except ArithmeticFault Boxed) : HostFunction :=
  fun heap args => do
    let (a, b) ← numberPair op args
    match f a b with
    | .ok result => return (heap, some (.boxed result))
    | .error fault => throw (.arithmetic fault)

/-- An operator that is exact on integers. -/
def exact (op : String) (whole : Int → Int → Int) (fraction : Float → Float → Float) :
    HostFunction :=
  onNumbers op fun a b =>
    match a.combine whole fraction b with
    | some result => .ok result
    | none => .error (.overflow op)

def plus : HostFunction := exact "plus" (· + ·) (· + ·)

def minus : HostFunction := exact "minus" (· - ·) (· - ·)

def multiply : HostFunction := exact "multiply" (· * ·) (· * ·)

def div : HostFunction := onNumbers "div" Boxed.divide

def power : HostFunction := onNumbers "power" Boxed.power

/-- A string with the text of a value after it. -/
def concat : HostFunction := fun heap args =>
  match args with
  | .string left :: rest =>
    .ok (heap, some (.string (left ++ heap.text (rest.head?.getD .null))))
  | .null :: _ => .error (.nullPointer "String.plus")
  | other :: _ => .error (.operand (.concatOnKind other.kind))
  | [] => .error (.operand .concatWithoutArguments)

/-- The element of a string, list or map. -/
def subscript : HostFunction := fun heap args => do
  match args.head?.getD .null with
  | .string s =>
    let item ← itemAt (s.toList.map fun c => .string c.toString) (← intArgument args 1)
    return (heap, some item)
  | receiver =>
    match ← heap.deref receiver "getAt" with
    | .list items => return (heap, some (← itemAt items (← intArgument args 1)))
    | .map entries => return (heap, some (entryOf entries ((args[1]?).getD .null)))
    | other => throw (.noSuchMethod ("getAt on " ++ other.className))

/-- The helpers by owner and name, where the options put them. -/
def standard (options : Options) : List ((String × String) × HostFunction) :=
  let numbers := options.numberHelperPackage
  [((options.extensionOwner, "getAt"), subscript),
    ((options.extensionOwner, "plus"), concat),
    ((options.extensionOwner, "power"), power),
    ((numbers ++ "/NumberNumberDiv", "div"), div),
    ((numbers ++ "/NumberNumberMultiply", "multiply"), multiply),
    ((numbers ++ "/NumberNumberMinus", "minus"), minus),
    ((numbers ++ "/NumberNumberPlus", "plus"), plus)]

end Helper

end CallSite
