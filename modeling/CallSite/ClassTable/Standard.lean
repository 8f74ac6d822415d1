import CallSite.ClassTable.Build

/-!
# The standard classes

The table every compilation starts from: the root class, the number and collection classes, and
the subscript extensions on lists, maps and strings.
-/

namespace CallSite

namespace ClassTable

/-- An instance method of a standard class. -/
def standardMethod (owner : ClassId) (name : String) (params : List Ty) (returns : Ty) : Method :=
  { name, owner, params, returns }

/-- A standard class under `java.lang.Object`. -/
def standardClass (name : String) (methods : List Method) : ClassInfo :=
  { name, kind := .cls, superclass := some .object, methods }

def standardNumber (name : String) : ClassInfo :=
  { name, kind := .cls, superclass := some .number }

def standardInterface (name : String) (interfaces : List ClassId) (methods : List Method) :
    ClassInfo :=
  { name, kind := .interface, superclass := some .object, interfaces, methods }

/-- The class constants without a known class. -/
def anyClass : Ty := .object .cls [.var "?"]

def standardClasses : List ClassInfo :=
  let object := Ty.ofClass .object
  let string := Ty.ofClass .string
  [ { name := "java.lang.Object", kind := .cls, methods := [
        standardMethod .object "getClass" [] anyClass,
        standardMethod .object "hashCode" [] .int,
        standardMethod .object "toString" [] string] },
    standardClass "java.lang.Class" [
      standardMethod .cls "getName" [] string,
      standardMethod .cls "getSimpleName" [] string,
      standardMethod .cls "isInterface" [] .boolean],
    standardClass "java.lang.String" [
      standardMethod .string "length" [] .int,
      standardMethod .string "isEmpty" [] .boolean],
    standardClass "java.lang.Number" [
      standardMethod .number "intValue" [] .int,
      standardMethod .number "longValue" [] .long,
      standardMethod .number "doubleValue" [] .double],
    standardNumber "java.lang.Integer",
    standardNumber "java.lang.Long",
    standardNumber "java.lang.Short",
    standardNumber "java.lang.Byte",
    standardNumber "java.lang.Float",
    standardNumber "java.lang.Double",
    standardClass "java.lang.Character" [],
    standardClass "java.lang.Boolean" [],
    standardNumber "java.math.BigInteger",
    standardNumber "java.math.BigDecimal",
    standardInterface "java.lang.Iterable" [] [
      standardMethod .iterable "iterator" [] (.ofClass .iterator)],
    standardInterface "java.util.Collection" [.iterable] [
      standardMethod .collection "size" [] .int,
      standardMethod .collection "isEmpty" [] .boolean,
      standardMethod .collection "add" [object] .boolean],
    standardInterface "java.util.List" [.collection] [
      standardMethod .list "get" [.int] object],
    { standardClass "java.util.ArrayList" [] with interfaces := [.list] },
    standardInterface "java.util.Map" [] [
      standardMethod .map "get" [object] object,
      standardMethod .map "size" [] .int,
      standardMethod .map "isEmpty" [] .boolean],
    { standardClass "java.util.LinkedHashMap" [] with interfaces := [.map] },
    standardInterface "java.util.Iterator" [] [
      standardMethod .iterator "hasNext" [] .boolean,
      standardMethod .iterator "next" [] object],
    standardInterface "groovy.lang.GroovyObject" [] [
      standardMethod .groovyObject "getProperty" [string] object],
    standardClass "java.lang.Enum" [
      standardMethod .enum "name" [] string,
      standardMethod .enum "ordinal" [] .int],
    standardClass "org.codehaus.groovy.runtime.DefaultGroovyMethods" [] ]

/-- An extension method of the standard table. -/
def standardExtension (name : String) (params : List Ty) (returns : Ty) : Method :=
  { name, owner := .extensions, params, returns, isStatic := true }

def standardExtensions : List Method :=
  let object := Ty.ofClass .object
  let string := Ty.ofClass .string
  [ standardExtension "getAt" [.ofClass .list, .int] object,
    standardExtension "getAt" [.ofClass .map, object] object,
    standardExtension "getAt" [string, .int] string ]

/-- The table that every compilation starts from. -/
def standard : ClassTable :=
  { classes := standardClasses, extensions := standardExtensions, bridgePairs := [] }

end ClassTable

end CallSite
