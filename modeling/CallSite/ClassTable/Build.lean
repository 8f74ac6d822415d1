import CallSite.ClassTable.Basic

/-!
# Building class tables

The operations that extend a table. A link that would close a circle is refused and leaves the
table as it was.
-/

namespace CallSite

/-- Why a class could not be declared or linked. -/
inductive HierarchyFault where
  | declaredTwice (name : String)
  | cyclicInheritance (name superclass : String)
  | cyclicNesting (name outer : String)
deriving DecidableEq, Repr

def HierarchyFault.message : HierarchyFault → String
  | declaredTwice name => "class '" ++ name ++ "' is declared twice"
  | cyclicInheritance name superclass =>
    "cyclic inheritance: '" ++ name ++ "' cannot extend '" ++ superclass ++ "'"
  | cyclicNesting name outer =>
    "cyclic nesting: '" ++ name ++ "' cannot be nested in '" ++ outer ++ "'"

namespace ClassTable

/-- Change the entry of class `c`. -/
def update (t : ClassTable) (c : ClassId) (change : ClassInfo → ClassInfo) : ClassTable :=
  { t with classes := t.classes.modify c.index change }

/-- Add a class. Enums extend `java.lang.Enum` and all others `java.lang.Object` until
`setSuperclass` says otherwise. -/
def declare (t : ClassTable) (name : String) (kind : ClassKind) :
    Except HierarchyFault (ClassTable × ClassId) :=
  match t.lookup name with
  | some _ => .error (.declaredTwice name)
  | none =>
    let superclass := if kind = .enum then ClassId.enum else ClassId.object
    .ok ({ t with classes := t.classes ++ [{ name, kind, superclass := some superclass }] },
      ⟨t.size⟩)

def setSuperclass (t : ClassTable) (c superclass : ClassId) : Except HierarchyFault ClassTable :=
  if (t.superclasses superclass).contains c then
    .error (.cyclicInheritance (t.name c) (t.name superclass))
  else .ok (t.update c fun info => { info with superclass := some superclass })

def setOuter (t : ClassTable) (c outer : ClassId) : Except HierarchyFault ClassTable :=
  if (t.outers outer).contains c then .error (.cyclicNesting (t.name c) (t.name outer))
  else .ok (t.update c fun info => { info with outer := some outer })

/-- List `interface` among the interfaces of `c`, once. -/
def addInterface (t : ClassTable) (c interface : ClassId) : ClassTable :=
  t.update c fun info =>
    if info.interfaces.contains interface then info
    else { info with interfaces := info.interfaces ++ [interface] }

def setUnit (t : ClassTable) (c : ClassId) (unit : Nat) : ClassTable :=
  t.update c fun info => { info with unit }

def markWithClosure (t : ClassTable) (c : ClassId) : ClassTable :=
  t.update c fun info => { info with withClosure := true }

def addField (t : ClassTable) (c : ClassId) (field : Field) : ClassTable :=
  t.update c fun info => { info with fields := info.fields ++ [{ field with owner := c }] }

def addMethod (t : ClassTable) (c : ClassId) (method : Method) : ClassTable :=
  t.update c fun info => { info with methods := info.methods ++ [{ method with owner := c }] }

def addProperty (t : ClassTable) (c : ClassId) (property : Property) : ClassTable :=
  t.update c fun info => { info with properties := info.properties ++ [property] }

/-- Register the static accessor of a private field of `c`. -/
def addBridge (t : ClassTable) (c : ClassId) (field : String) (accessor : Method) : ClassTable :=
  t.update c fun info => { info with
    bridges := info.bridges ++
      [⟨field, { accessor with owner := c, isStatic := true, synthetic := true }⟩] }

/-- Let two unrelated classes call each other's bridge accessors. -/
def allowBridges (t : ClassTable) (a b : ClassId) : ClassTable :=
  { t with bridgePairs := t.bridgePairs ++ [(a, b)] }

/-- Register an extension method, whose first parameter is the receiver. -/
def addExtension (t : ClassTable) (method : Method) : ClassTable :=
  { t with extensions := t.extensions ++
      [{ method with owner := ClassId.extensions, isStatic := true }] }

end ClassTable

end CallSite
