import CallSite.Emission.Expr
import CallSite.Fixture.Load
import CallSite.Machine.Run

/-!
# Compiling and running fixtures

Each site of a fixture is selected, compiled and run on its own, on a machine with fresh values.
-/

namespace CallSite

/-- The rule that a site was bound by, and what it was bound to. -/
structure Selection where
  site : String
  rule : String
  strategy : String
  target : Option String
deriving Repr, DecidableEq

/-- The code of one site. -/
structure Emitted where
  selection : Selection
  /-- The static type of the result. -/
  result : String
  code : List Instruction
  diagnostics : List CompileError

/-- Why a site gave no result. -/
inductive RunError where
  | compile (error : CompileError)
  | machine (error : MachineError)

namespace Fixture

def select (f : Fixture) (site : FixtureSite) (options : Options) : Selection :=
  let ofBinding (rule : String) (binding : Binding) : Selection :=
    ⟨site.name, rule, binding.title, binding.target? f.table⟩
  match site.node with
  | .property access =>
    let (rule, binding) := (Query.ofSite access site.enclosing).select f.table
    ofBinding rule binding
  | .dynamic access =>
    let query := Query.ofDynamicSite f.table access site.enclosing site.inClosure
    let (rule, binding) := query.selectDynamic f.table
    ofBinding rule binding
  | .operator receiver op argument =>
    let found := f.table.selectOperator options (receiver.typeIn site.enclosing)
      (argument.typeIn site.enclosing) op
    match found with
    | some binding => ⟨site.name, "operator", binding.title, binding.target? f.table⟩
    | none => ⟨site.name, "operator", "None", none⟩

/-- The step that writes a site. -/
def writeSite (s : Setting) : SiteNode → Emit Ty
  | .property site => Emit.propertySite s site
  | .dynamic site => Emit.dynamicSite s site
  | .operator receiver op argument => Emit.operatorSite s receiver op argument

/-- Slot 0 holds `this`; without a word on it, temporaries start right after. -/
def firstTemporary (site : FixtureSite) : UInt16 := site.maxLocals.getD 1

/-- The code of one site. Reported errors come with it; a fatal one comes instead. -/
def emit (f : Fixture) (site : FixtureSite) (options : Options) : Except CompileError Emitted :=
  let s : Setting := ⟨f.table, site.enclosing, options, site.inClosure⟩
  let (result, draft) := (writeSite s site.node).run (.empty (firstTemporary site))
  result.map fun ty =>
    ⟨f.select site options, f.table.describe ty, draft.code, draft.diagnostics⟩

/-! ## Values before a run -/

def installStatics (m : Machine) (statics : List StaticValue) : Machine :=
  statics.foldl (fun m static =>
    let (heap, value) := m.heap.place false static.value
    { m with heap }.setStatic static.owner static.name value) m

/-- Make the constants of an enum, numbered in their order. -/
def installConstants (m : Machine) (owner : String) (names : List String) : Machine :=
  names.zipIdx.foldl (fun m (name, ordinal) =>
    let (m, constant) := m.alloc
      (.instance owner [("name", .string name), ("ordinal", .ofSize ordinal)])
    m.setStatic owner name constant) m

/-- The slots up to the highest that is given a value; `this` is in slot 0. -/
def placeLocals (heap : Heap) (site : FixtureSite) : Heap × List Value :=
  let width := site.locals.foldl (fun width (slot, _) => max width (slot.toNat + 1)) 1
  let blank : List Value := List.replicate width .null
  let (heap, values) :=
    match site.this with
    | some this =>
      let (heap, value) := heap.place false this
      (heap, blank.set 0 value)
    | none => (heap, blank)
  site.locals.foldl (fun (heap, values) (slot, spec) =>
    let (heap, value) := heap.place false spec
    (heap, values.set slot.toNat value)) (heap, values)

/-- The machine with the fixture's static values, and the slots of a site. -/
def prepare (f : Fixture) (m : Machine) (site : FixtureSite) : Machine × List Value :=
  let m := installStatics m f.statics
  let m := f.enumConstants.foldl (fun m (owner, names) => installConstants m owner names) m
  let (heap, values) := placeLocals m.heap site
  ({ m with heap }, values)

/-- Compile a site and run its code: the code and the text of the result. -/
def run (f : Fixture) (site : FixtureSite) (options : Options) :
    Except RunError (Emitted × String) := do
  let emitted ← (f.emit site options).mapError .compile
  let (m, locals) := f.prepare (.new f.table options) site
  let (m, result) := m.run emitted.code locals
  let value ← result.mapError .machine
  return (emitted, m.heap.text value)

end Fixture

end CallSite
