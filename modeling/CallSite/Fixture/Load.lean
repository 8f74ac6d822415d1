import CallSite.ClassTable.Standard
import CallSite.CompileError
import CallSite.Expr
import CallSite.Fixture.Source
import CallSite.Text.Word

/-!
# Loading fixtures

Classes are declared first, then linked, then given their members, so that a fixture file may name
any class anywhere. The first fault ends the loading.
-/

namespace CallSite

/-- What one site of a fixture asks to compile. -/
inductive SiteNode where
  | property (site : Site)
  /-- A property of a receiver that can be asked for properties at run time. -/
  | dynamic (site : Site)
  | operator (receiver : Expr) (op : String) (argument : Expr)

/-- A site of a fixture with the values it runs on. -/
structure FixtureSite where
  name : String
  enclosing : ClassId
  node : SiteNode
  maxLocals : Option UInt16
  inClosure : Bool
  span : Span
  this : Option ValueSpec
  locals : List (UInt16 × ValueSpec)

/-- A static field, by the internal name of its class, with its value before a run. -/
structure StaticValue where
  owner : String
  name : String
  value : ValueSpec

structure Fixture where
  path : String
  source : String
  table : ClassTable
  sites : List FixtureSite
  statics : List StaticValue
  /-- The constants of the enums, by the internal names of their classes. -/
  enumConstants : List (String × List String)

namespace Fixture

/-! ## Expressions -/

def constantOf : ValueSpec → Except FixtureFault Constant
  | .null => .ok .null
  | .int v => .ok (.int v)
  | .long v => .ok (.long v)
  | .double v => .ok (.double v)
  | .bool b => .ok (.bool b)
  | .string s => .ok (.string s)
  | _ => .error .compositeConstant

/-- A constant as a source text writes it. -/
def constantText : Constant → String
  | .null => "null"
  | .int v => toString v.toInt
  | .long v => toString v.toInt ++ "L"
  | .double v => Decimal.doubleText v
  | .bool b => if b then "true" else "false"
  | .string s => Text.quote s

def readType (t : ClassTable) (text : String) : Except FixtureFault Ty :=
  (t.readType text).mapError .type

def readTypes (t : ClassTable) (texts : List String) : Except FixtureFault (List Ty) :=
  (t.readTypes texts).mapError .type

def classNamed (t : ClassTable) (name : String) : Except FixtureFault ClassId :=
  (t.classNamed name).mapError .type

def optionally (read : α → Except FixtureFault β) : Option α → Except FixtureFault (Option β)
  | some a => (read a).map some
  | none => .ok none

/-- The note of an expression whose own type is `type`, whose own text is `text` and whose
declared type is `declared`. -/
def noteOf (t : ClassTable) (note : NoteSource) (declared : Option Ty) (type : Ty) (text : String)
    (span : Span) : Except FixtureFault Note := do
  let inferred ← optionally (readType t) note.inferred
  let component ← optionally (readType t) note.component
  return { type := declared.getD type, inferred, component, span, text := note.text.getD text }

/-- Look up the names and types of an expression in code of `enclosing`. -/
def buildExpr (t : ClassTable) (enclosing : ClassId) (span : Span) :
    ExprSource → Except FixtureFault Expr
  | .this note => do
    let declared ← optionally (readType t) note.type
    return .this (← noteOf t note declared (.ofClass enclosing) "this" span)
  | .slot slot note => do
    match ← optionally (readType t) note.type with
    | none => throw (.untypedLocal slot)
    | some ty =>
      let text := "local" ++ toString slot.toNat
      return .localVar slot (← noteOf t note (some ty) ty text span)
  | .cls name note => do
    let declared ← optionally (readType t) note.type
    let ty ← readType t name
    return .classLiteral ty (← noteOf t note declared (.object .cls [ty]) name span)
  | .value value note => do
    let declared ← optionally (readType t) note.type
    let constant ← constantOf value
    return .constant constant
      (← noteOf t note declared constant.type (constantText constant) span)
  | .property receiver member safe note => do
    let declared ← optionally (readType t) note.type
    let receiver ← buildExpr t enclosing span receiver
    let text := receiver.note.text ++ "." ++ member
    return .property receiver { member, safe, span }
      (← noteOf t note declared (.ofClass .object) text span)
  | .ambiguous note => do
    discard (optionally (readType t) note.type)
    throw .ambiguousExpression

/-! ## Sites -/

/-- The part of a site that its kind asks for. -/
def part (kind article name : String) : Option α → Except FixtureFault α
  | some found => .ok found
  | none => .error (.siteWithout article name kind)

def buildNode (t : ClassTable) (enclosing : ClassId) (span : Span) (source : SiteSource) :
    Except FixtureFault SiteNode := do
  match source.kind with
  | .operator =>
    let (op, _) ← part "operator" "an" "op" source.op
    let receiver ← part "operator" "a" "receiver" source.receiver
    let argument ← part "operator" "an" "argument" source.argument
    let receiver ← buildExpr t enclosing span receiver
    return .operator receiver op (← buildExpr t enclosing span argument)
  | kind =>
    let (member, _) ← part "property" "a" "member" source.member
    let receiver ←
      match source.receiver with
      | some receiver => buildExpr t enclosing span receiver
      | none => pure (.this { type := .ofClass enclosing, span, text := "this" })
    let site : Site := { receiver, member, safe := source.safe, span }
    return if kind = .dynamic then .dynamic site else .property site

def buildSite (t : ClassTable) (text : String) (source : SiteSource) :
    Except FixtureFault FixtureSite := do
  let enclosing ← classNamed t source.enclosing
  let (_, start, stop) := (source.member <|> source.op).getD ("", 0, 0)
  let span := Span.locatedIn { start, stop } text
  let node ← buildNode t enclosing span source
  return {
    name := source.name, enclosing, node, maxLocals := source.maxLocals
    inClosure := source.inClosure, span, this := source.this, locals := source.locals }

/-! ## Classes -/

/-- Declare all classes; their numbers follow each other in the order of the file. -/
def declareAll (t : ClassTable) (classes : List ClassSource) :
    Except HierarchyFault (ClassTable × List (ClassSource × ClassId)) :=
  classes.foldlM (fun (t, declared) source => do
    let (t, c) ← t.declare source.name (source.kind.getD .cls)
    return (t, declared ++ [(source, c)])) (t, [])

/-- Why a class could not be linked. -/
inductive LinkFault where
  | name (fault : FixtureFault)
  | hierarchy (fault : HierarchyFault)

/-- Set the links of class `c`. -/
def linkClass (t : ClassTable) (source : ClassSource) (c : ClassId) :
    Except LinkFault ClassTable := do
  let named (t : ClassTable) (name : String) := (classNamed t name).mapError LinkFault.name
  let t ←
    match source.superclass with
    | some name => do (t.setSuperclass c (← named t name)).mapError LinkFault.hierarchy
    | none => pure t
  let t ← source.interfaces.foldlM (fun t name => return t.addInterface c (← named t name)) t
  let t ←
    match source.outer with
    | some name => do (t.setOuter c (← named t name)).mapError LinkFault.hierarchy
    | none => pure t
  let t := t.setUnit c source.unit
  return if source.withClosure then t.markWithClosure c else t

def linkAll (t : ClassTable) (declared : List (ClassSource × ClassId)) :
    Except LinkFault ClassTable :=
  declared.foldlM (fun t (source, c) => linkClass t source c) t

def buildMethod (t : ClassTable) (source : MethodSource) : Except FixtureFault Method := do
  let params ← readTypes t source.params
  let returns ← readType t source.returns
  return {
    name := source.name, owner := .object, params, returns, isStatic := source.isStatic
    visibility := source.visibility.getD .world }

/-- What the members of the classes add up to. -/
structure Members where
  table : ClassTable
  statics : List StaticValue
  enumConstants : List (String × List String)

def addField (c : ClassId) (m : Members) (source : FieldSource) : Except FixtureFault Members := do
  let type ← readType m.table source.type
  let table := m.table.addField c {
    name := source.name, owner := c, type, isStatic := source.isStatic
    visibility := source.visibility.getD .world }
  match source.value with
  | none => return { m with table }
  | some value =>
    if source.isStatic then
      let static : StaticValue := ⟨m.table.internalName c, source.name, value⟩
      return { m with table, statics := m.statics ++ [static] }
    else throw (.valueOfInstanceField source.name)

def addMethod (c : ClassId) (m : Members) (source : MethodSource) :
    Except FixtureFault Members := do
  return { m with table := m.table.addMethod c (← buildMethod m.table source) }

def addProperty (c : ClassId) (m : Members) (source : PropertySource) :
    Except FixtureFault Members := do
  let type ← readType m.table source.type
  return { m with
    table := m.table.addProperty c { name := source.name, type, isStatic := source.isStatic } }

def addBridge (c : ClassId) (m : Members) (source : BridgeSource) :
    Except FixtureFault Members := do
  let params ←
    match source.params with
    | some params => readTypes m.table params
    | none => pure [.ofClass c]
  let returns ← readType m.table source.returns
  return { m with
    table := m.table.addBridge c source.field { name := source.method, owner := c, params, returns } }

def addConstants (c : ClassId) (m : Members) (constants : List String) :
    Except FixtureFault Members :=
  if constants.isEmpty then .ok m
  else if (m.table.info c).isEnum then
    .ok { m with enumConstants := m.enumConstants ++ [(m.table.internalName c, constants)] }
  else .error .constantsOutsideEnum

/-- Give class `c` its members. -/
def addMembers (m : Members) (source : ClassSource) (c : ClassId) :
    Except FixtureFault Members := do
  let added : Except FixtureFault Members := do
    let m ← source.fields.foldlM (addField c) m
    let m ← source.methods.foldlM (addMethod c) m
    let m ← source.properties.foldlM (addProperty c) m
    let m ← source.bridges.foldlM (addBridge c) m
    addConstants c m source.constants
  added.mapError (.inClass source.name)

def addExtension (t : ClassTable) (source : MethodSource) : Except FixtureFault ClassTable := do
  let method ← buildMethod t source
  if method.params.isEmpty then throw (.extensionWithoutReceiver method.name)
  return t.addExtension method

def addBridgePair (t : ClassTable) (pair : String × String) : Except FixtureFault ClassTable := do
  let a ← classNamed t pair.1
  return t.allowBridges a (← classNamed t pair.2)

/-! ## Files -/

/-- Everything after the classes are declared and linked. -/
def complete (source : Source) (text path : String) (t : ClassTable)
    (declared : List (ClassSource × ClassId)) : Except FixtureFault Fixture := do
  let m ← declared.foldlM (fun m (source, c) => addMembers m source c) ⟨t, [], []⟩
  let table ← source.extensions.foldlM addExtension m.table
  let table ← source.bridgePairs.foldlM addBridgePair table
  let sites ← source.sites.mapM fun site =>
    (buildSite table text site).mapError (.inSite site.name)
  return { path, source := text, table, sites, statics := m.statics
           enumConstants := m.enumConstants }

def ofSource (source : Source) (text path : String) : Except CompileError Fixture := do
  let (t, declared) ← (declareAll .standard source.classes).mapError CompileError.hierarchy
  let t ← (linkAll t declared).mapError fun
    | .name fault => .fixture path fault
    | .hierarchy fault => .hierarchy fault
  (complete source text path t declared).mapError (.fixture path)

/-- The fixture of a file at `path` with this text. -/
def parse (text path : String) : Except CompileError Fixture :=
  match Source.ofText? text with
  | none => .error (.fixture path .malformed)
  | some source => ofSource source text path

/-- The first site of this name. -/
def site? (f : Fixture) (name : String) : Option FixtureSite :=
  f.sites.find? fun site => site.name == name

end Fixture

end CallSite
