import CallSite.ClassTable.Build

/-!
# Bindings

What a property access is bound to, and how it is therefore compiled.
-/

namespace CallSite

inductive Binding where
  | arrayLength
  /-- `size` or `length` of a collection, by `Collection.size()`. -/
  | collectionSize
  | getter (method : Method)
  | field (field : Field)
  /-- The static accessor of a private field. -/
  | bridge (accessor : Method) (fieldStatic : Bool)
  | enumConstant (owner : ClassId)
  | interfaceGetter (method : Method)
  | extension (method : Method)
  /-- `map.key` as `map.get("key")`. -/
  | mapEntry
  /-- `list.p` as the list of `p` of every element. -/
  | eachElement (component : Ty)
  /-- A look-up by name at run time. -/
  | dynamic (property : String)
  | unresolved
deriving Repr, DecidableEq

namespace Binding

def title : Binding → String
  | arrayLength => "ArrayLength"
  | collectionSize => "CollectionSize"
  | getter _ => "GetterCall"
  | field _ => "DirectField"
  | bridge _ _ => "BridgeAccessor"
  | enumConstant _ => "EnumConstant"
  | interfaceGetter _ => "InterfaceDefaultGetter"
  | extension _ => "ExtensionMethodCall"
  | mapEntry => "MapGet"
  | eachElement _ => "ListPropertyRewrite"
  | dynamic _ => "DynamicFallback"
  | unresolved => "Unresolvable"

/-- The method that the access calls. -/
def method? : Binding → Option Method
  | getter m | bridge m _ | interfaceGetter m | extension m => some m
  | _ => none

/-- The member, class or type that the access is bound to, as text. -/
def target? (t : ClassTable) : Binding → Option String
  | getter m | bridge m _ | interfaceGetter m | extension m => some (t.name m.owner ++ "." ++ m.name)
  | field f => some (t.name f.owner ++ "." ++ f.name)
  | enumConstant owner => some (t.name owner)
  | eachElement component => some (t.describe component)
  | dynamic property => some property
  | _ => none

end Binding

end CallSite
