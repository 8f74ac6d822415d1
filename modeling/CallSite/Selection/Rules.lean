import CallSite.Selection.Binding
import CallSite.Selection.Query

/-!
# Selection rules

An access is bound by the first rule of an ordered list that applies. Rules only read the class
table, so the same query always gets the same answer.
-/

namespace CallSite

structure Rule where
  name : String
  apply : ClassTable → Query → Option Binding

namespace Rule

/-! ## Getters and fields -/

/-- The getter a declared property will have. -/
def propertyGetter (owner : ClassId) (p : Property) : Method :=
  { name := (if p.type = .boolean then "is" else "get") ++ Text.capitalize p.name
    owner, params := [], returns := p.type, isStatic := p.isStatic, synthetic := true }

/-- The getter of the member on a class: `get` before `is`. -/
def declaredGetter? (t : ClassTable) (q : Query) (c : ClassId) : Option Method :=
  t.getter? c ("get" ++ Text.capitalize q.member) <|>
    t.getter? c ("is" ++ Text.capitalize q.member)

/-- The getter of the member on the first class of the list that has one or declares the property.
A class literal reaches static members only, except on `java.lang.Class` itself. -/
def getterAlong (t : ClassTable) (q : Query) : List ClassId → Option Method
  | [] => none
  | c :: cs =>
    let found := declaredGetter? t q c
    if found.any (fun m => !m.isStatic) && q.literal.isSome && c ≠ .cls then none
    else match t.property? c q.member with
      | some p => some (propertyGetter c p)
      | none => found <|> getterAlong t q cs

def getterOn (t : ClassTable) (q : Query) (c : ClassId) : Option Method :=
  getterAlong t q (t.superclasses c)

/-- Code of `enclosing` may read the field itself. -/
def readable (t : ClassTable) (f : Field) (enclosing : ClassId) (samePackage : Bool) : Bool :=
  (t.outers enclosing).contains f.owner ||
    match f.visibility with
    | .world => true
    | .family => samePackage
    | _ => false

/-- The nearest field of the member's name along the superclasses of `c`, if it may be read. -/
def fieldOn (t : ClassTable) (q : Query) (c : ClassId) (samePackage : Bool) : Option Field :=
  ((t.superclasses c).findSome? fun k => t.field? k q.member).filter fun f =>
    readable t f q.enclosing samePackage

/-! ## The rules -/

def arrayLength : Rule where
  name := "array-length"
  apply _ q := if q.receiver.isArray && q.member == "length" then some .arrayLength else none

def collectionSize : Rule where
  name := "collection-size"
  apply t q :=
    if q.isCollection t && (q.member == "size" || q.member == "length") then some .collectionSize
    else none

def getter : Rule where
  name := "getter"
  apply t q := q.receiver.class?.bind fun c => (getterOn t q c).map .getter

def field : Rule where
  name := "field"
  apply t q := q.receiver.class?.bind fun c =>
    (fieldOn t q c (t.samePackage c q.enclosing)).map .field

def enumConstant : Rule where
  name := "enum-constant"
  apply t q := q.receiver.class?.bind fun c => if q.isEnum t then some (.enumConstant c) else none

def classLiteral : Rule where
  name := "class-literal"
  apply t q := (q.literal.bind Ty.class?).bind fun c =>
    (fieldOn t q c (t.samePackage c q.enclosing)).map .field <|> (getterOn t q c).map .getter

def classReceiver : Rule where
  name := "class-receiver"
  apply t q :=
    if q.classReceiver then
      (getterOn t q .cls).map .getter <|> (fieldOn t q .cls true).map .field
    else none

/-- A private field of another class is read through its accessor, where that may be called. -/
def bridgeAccessor : Rule where
  name := "bridge-accessor"
  apply t q := q.receiver.class?.bind fun c => (t.field? c q.member).bind fun f =>
    if f.visibility = .owner ∧ c ≠ q.enclosing ∧
        (t.bridgeAllowed c q.enclosing || t.bridgeAllowed q.enclosing c) then
      (t.bridge? c q.member).map fun accessor => .bridge accessor f.isStatic
    else none

/-- A getter of some interface of the receiver, or of the root class, which every receiver has. -/
def interfaceGetter : Rule where
  name := "interface-getter"
  apply t q :=
    let name := "get" ++ Text.capitalize q.member
    if q.isInterface t then q.receiver.class?.bind fun c =>
      ((t.allInterfaces c).findSome? (fun i => t.getter? i name) <|> t.getter? .object name).map
        .interfaceGetter
    else none

def extensionGetter : Rule where
  name := "extension-getter"
  apply t q :=
    let found := t.extensionsFor q.receiver ("get" ++ Text.capitalize q.member) []
    match t.bestOverloads q.receiver found [] with
    | [m] => some (.extension m)
    | _ => none

/-- The receiver's class is the class literal's own or lies below it. -/
def onLiteral (t : ClassTable) (q : Query) : Bool :=
  match q.literal.bind Ty.class?, q.receiver.class? with
  | some literal, some c => t.derivesFrom c literal || (t.allInterfaces c).contains literal
  | _, _ => false

def mapOrList : Rule where
  name := "map-list-sugar"
  apply t q :=
    if onLiteral t q then none
    else if q.isMap t then some .mapEntry
    else if q.isList t then some (.eachElement q.elementType)
    else none

/-- The rules for property accesses, the first that applies decides. -/
def forProperties : List Rule :=
  [arrayLength, collectionSize, getter, field, enumConstant, classLiteral, classReceiver,
    bridgeAccessor, interfaceGetter, extensionGetter, mapOrList]

/-- The rules for receivers that can be asked for properties at run time. -/
def forDynamic : List Rule := [getter, field]

/-- The first rule that applies, with its binding. -/
def first? (rules : List Rule) (t : ClassTable) (q : Query) : Option (String × Binding) :=
  rules.findSome? fun rule => (rule.apply t q).map fun binding => (rule.name, binding)

end Rule

namespace Query

/-- The rule that binds a property access, and the binding. -/
def select (t : ClassTable) (q : Query) : String × Binding :=
  (Rule.first? Rule.forProperties t q).getD ("unresolvable", .unresolved)

/-- As `select`, for a receiver that can be asked for properties at run time. -/
def selectDynamic (t : ClassTable) (q : Query) : String × Binding :=
  (Rule.first? Rule.forDynamic t q).getD ("dynamic-fallback", .dynamic q.member)

end Query

end CallSite
