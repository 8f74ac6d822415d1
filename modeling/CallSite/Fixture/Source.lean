import CallSite.ClassTable.Build
import CallSite.Machine.Spec
import CallSite.Toml.Document
import CallSite.Toml.Record

/-!
# Fixture files

A fixture file declares classes and the access sites to compile against them. This is its content
before names and types are looked up.
-/

namespace CallSite.Fixture

structure FieldSource where
  name : String
  type : String
  isStatic : Bool
  visibility : Option Visibility
  /-- The value of a static field before a run. -/
  value : Option ValueSpec

structure MethodSource where
  name : String
  params : List String
  returns : String
  isStatic : Bool
  visibility : Option Visibility

structure PropertySource where
  name : String
  type : String
  isStatic : Bool

structure BridgeSource where
  field : String
  method : String
  /-- Without a list, the one parameter is the class itself. -/
  params : Option (List String)
  returns : String

structure ClassSource where
  name : String
  kind : Option ClassKind
  superclass : Option String
  interfaces : List String
  outer : Option String
  unit : Nat
  withClosure : Bool
  /-- The constants of an enum, in their order. -/
  constants : List String
  fields : List FieldSource
  methods : List MethodSource
  properties : List PropertySource
  bridges : List BridgeSource

/-- The remarks on an expression. -/
structure NoteSource where
  type : Option String
  inferred : Option String
  component : Option String
  text : Option String

inductive ExprSource where
  | this (note : NoteSource)
  | slot (slot : UInt16) (note : NoteSource)
  | cls (name : String) (note : NoteSource)
  | value (value : ValueSpec) (note : NoteSource)
  | property (receiver : ExprSource) (member : String) (safe : Bool) (note : NoteSource)
  /-- None of the forms, or several at once. -/
  | ambiguous (note : NoteSource)

inductive SiteKind where
  | property | dynamic | operator
deriving DecidableEq, Repr

/-- A string and the byte offsets of its text. -/
abbrev Located := String × Nat × Nat

structure SiteSource where
  name : String
  enclosing : String
  kind : SiteKind
  /-- Without a receiver the access is on `this`. -/
  receiver : Option ExprSource
  member : Option Located
  safe : Bool
  op : Option Located
  argument : Option ExprSource
  maxLocals : Option UInt16
  inClosure : Bool
  locals : List (UInt16 × ValueSpec)
  this : Option ValueSpec

structure Source where
  classes : List ClassSource
  bridgePairs : List (String × String)
  extensions : List MethodSource
  sites : List SiteSource

/-! ## Values -/

/-- Entries in the order of their keys. -/
def sortEntries (entries : List (String × α)) : List (String × α) :=
  entries.mergeSort fun a b => decide (a.1 ≤ b.1)

mutual

/-- A value is the word `null` or a table with one key, which tells its kind. -/
def valueOf? : Toml → Option ValueSpec
  | .string "null" _ _ => some .null
  | .table [("list", .array items)] => (valuesOf? items).map .list
  | .table [("array", .array items)] => (valuesOf? items).map .array
  | .table [("map", .table entries)] => (entriesOf? entries).map fun es => .map (sortEntries es)
  | .table [("object", .array (cls :: .table fields :: _))] => do
    return .object (← cls.string?) (sortEntries (← entriesOf? fields))
  | .table [("object", .array [cls])] => do return .object (← cls.string?) []
  | .table [("object", .table [("class", cls)])] => do return .object (← cls.string?) []
  | .table [("object", .table [("class", cls), ("fields", .table fields)])] => do
    return .object (← cls.string?) (sortEntries (← entriesOf? fields))
  | .table [("object", .table [("fields", .table fields), ("class", cls)])] => do
    return .object (← cls.string?) (sortEntries (← entriesOf? fields))
  | .table [(kind, content)] =>
    match kind with
    | "null" => if content.isEmpty then some .null else none
    | "int" => content.int32?.map .int
    | "long" => content.int64?.map .long
    | "double" => content.double?.map .double
    | "bool" => content.bool?.map .bool
    | "str" => content.string?.map .string
    | "integer" => content.int32?.map .integer
    | "decimal" => content.double?.map .decimal
    | _ => none
  | _ => none

def valuesOf? : List Toml → Option (List ValueSpec)
  | [] => some []
  | item :: items => do return (← valueOf? item) :: (← valuesOf? items)

def entriesOf? : List (String × Toml) → Option (List (String × ValueSpec))
  | [] => some []
  | (key, value) :: entries => do return (key, ← valueOf? value) :: (← entriesOf? entries)

end

/-! ## Expressions -/

def noteOf? (r : Toml.Record) : Option NoteSource := do
  return {
    type := ← r.optional "type" Toml.string?
    inferred := ← r.optional "inferred" Toml.string?
    component := ← r.optional "component" Toml.string?
    text := ← r.optional "text" Toml.string? }

/-- The expression of a value; properties nest less deep than `depth`. -/
def exprWithin? : (depth : Nat) → Toml → Option ExprSource
  | 0, _ => none
  | depth + 1, v => do
    let r ← Toml.Record.of?
      ["this", "local", "class", "value", "property", "type", "inferred", "component", "text"] v
    let this ← r.withDefault "this" false Toml.bool?
    let slot ← r.optional "local" Toml.slot?
    let cls ← r.optional "class" Toml.string?
    let value ← r.optional "value" valueOf?
    let property ← r.optional "property" fun v => do
      let r ← Toml.Record.of? ["receiver", "member", "safe"] v
      let receiver ← r.required "receiver" (exprWithin? depth)
      let member ← r.required "member" Toml.string?
      let safe ← r.withDefault "safe" false Toml.bool?
      return (receiver, member, safe)
    let note ← noteOf? r
    match this, slot, cls, value, property with
    | true, none, none, none, none => return .this note
    | false, some slot, none, none, none => return .slot slot note
    | false, none, some cls, none, none => return .cls cls note
    | false, none, none, some value, none => return .value value note
    | false, none, none, none, some (receiver, member, safe) =>
      return .property receiver member safe note
    | _, _, _, _, _ => return .ambiguous note

def exprOf? (v : Toml) : Option ExprSource := exprWithin? (v.nesting + 1) v

/-! ## Classes -/

def visibilityOf? : Toml → Option Visibility := Toml.choice? Visibility.ofName?

def fieldOf? (v : Toml) : Option FieldSource := do
  let r ← Toml.Record.of? ["name", "type", "static", "visibility", "value"] v
  return {
    name := ← r.required "name" Toml.string?
    type := ← r.required "type" Toml.string?
    isStatic := ← r.withDefault "static" false Toml.bool?
    visibility := ← r.optional "visibility" visibilityOf?
    value := ← r.optional "value" valueOf? }

def methodOf? (v : Toml) : Option MethodSource := do
  let r ← Toml.Record.of? ["name", "params", "returns", "static", "visibility"] v
  return {
    name := ← r.required "name" Toml.string?
    params := ← r.withDefault "params" [] (Toml.list? Toml.string?)
    returns := ← r.required "returns" Toml.string?
    isStatic := ← r.withDefault "static" false Toml.bool?
    visibility := ← r.optional "visibility" visibilityOf? }

def propertyOf? (v : Toml) : Option PropertySource := do
  let r ← Toml.Record.of? ["name", "type", "static"] v
  return {
    name := ← r.required "name" Toml.string?
    type := ← r.required "type" Toml.string?
    isStatic := ← r.withDefault "static" false Toml.bool? }

def bridgeOf? (v : Toml) : Option BridgeSource := do
  let r ← Toml.Record.of? ["field", "method", "params", "returns"] v
  return {
    field := ← r.required "field" Toml.string?
    method := ← r.required "method" Toml.string?
    params := ← r.optional "params" (Toml.list? Toml.string?)
    returns := ← r.required "returns" Toml.string? }

def classOf? (v : Toml) : Option ClassSource := do
  let r ← Toml.Record.of?
    ["name", "kind", "superclass", "interfaces", "outer", "unit", "with_closure", "constants",
      "fields", "methods", "properties", "bridges"] v
  return {
    name := ← r.required "name" Toml.string?
    kind := ← r.optional "kind" (Toml.choice? ClassKind.ofName?)
    superclass := ← r.optional "superclass" Toml.string?
    interfaces := ← r.withDefault "interfaces" [] (Toml.list? Toml.string?)
    outer := ← r.optional "outer" Toml.string?
    unit := ← r.withDefault "unit" 0 Toml.natural32?
    withClosure := ← r.withDefault "with_closure" false Toml.bool?
    constants := ← r.withDefault "constants" [] (Toml.list? Toml.string?)
    fields := ← r.withDefault "fields" [] (Toml.list? fieldOf?)
    methods := ← r.withDefault "methods" [] (Toml.list? methodOf?)
    properties := ← r.withDefault "properties" [] (Toml.list? propertyOf?)
    bridges := ← r.withDefault "bridges" [] (Toml.list? bridgeOf?) }

/-! ## Sites -/

def siteKindOf? : String → Option SiteKind
  | "property" => some .property
  | "groovy-object" => some .dynamic
  | "operator" => some .operator
  | _ => none

def localOf? (v : Toml) : Option (UInt16 × ValueSpec) := do
  let r ← Toml.Record.of? ["slot", "value"] v
  return (← r.required "slot" Toml.slot?, ← r.required "value" valueOf?)

def siteOf? (v : Toml) : Option SiteSource := do
  let r ← Toml.Record.of?
    ["name", "enclosing", "kind", "receiver", "member", "safe", "implicit_this", "op", "argument",
      "max_locals", "in_closure", "locals", "this"] v
  discard (r.withDefault "implicit_this" false Toml.bool?)
  return {
    name := ← r.required "name" Toml.string?
    enclosing := ← r.required "enclosing" Toml.string?
    kind := ← r.withDefault "kind" .property (Toml.choice? siteKindOf?)
    receiver := ← r.optional "receiver" exprOf?
    member := ← r.optional "member" Toml.located?
    safe := ← r.withDefault "safe" false Toml.bool?
    op := ← r.optional "op" Toml.located?
    argument := ← r.optional "argument" exprOf?
    maxLocals := ← r.optional "max_locals" Toml.slot?
    inClosure := ← r.withDefault "in_closure" false Toml.bool?
    locals := ← r.withDefault "locals" [] (Toml.list? localOf?)
    this := ← r.optional "this" valueOf? }

def Source.of? (v : Toml) : Option Source := do
  let r ← Toml.Record.of? ["classes", "bridge_pairs", "extensions", "sites"] v
  return {
    classes := ← r.withDefault "classes" [] (Toml.list? classOf?)
    bridgePairs := ← r.withDefault "bridge_pairs" [] (Toml.list? (Toml.pair? Toml.string?))
    extensions := ← r.withDefault "extensions" [] (Toml.list? methodOf?)
    sites := ← r.withDefault "sites" [] (Toml.list? siteOf?) }

/-- The content of a fixture file, if it is well formed. -/
def Source.ofText? (text : String) : Option Source := (Toml.ofText? text).bind Source.of?

end CallSite.Fixture
