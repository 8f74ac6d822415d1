import CallSite.ClassTable.Conversion

/-!
# Overloads

Which extension methods accept a call, and which of them fit best.
-/

namespace CallSite

namespace ClassTable

/-- `method` accepts this receiver and these arguments. -/
def accepts (t : ClassTable) (method : Method) (receiver : Ty) (args : List Ty) : Bool :=
  match method.params with
  | [] => false
  | self :: params =>
    params.length == args.length && t.assignable receiver self &&
      (args.zip params).all fun (arg, param) => t.assignable arg param

/-- The extension methods of this name that accept the receiver and the arguments. -/
def extensionsFor (t : ClassTable) (receiver : Ty) (name : String) (args : List Ty) :
    List Method :=
  t.extensions.filter fun m => m.name == name && t.accepts m receiver args

/-- What a call of `method` costs in conversions. Only parameters that have an argument count. -/
def callCost? (t : ClassTable) (method : Method) (receiver : Ty) (args : List Ty) : Option Nat :=
  match method.params with
  | [] => none
  | self :: params =>
    (t.distance receiver self).bind fun base =>
      (args.zip params).foldlM (fun cost (arg, param) => (t.distance arg param).map (cost + ·)) base

/-- The candidates of least cost, in their order. More than one means the call is ambiguous. -/
def bestOverloads (t : ClassTable) (receiver : Ty) (candidates : List Method) (args : List Ty) :
    List Method :=
  match (candidates.filterMap fun m => t.callCost? m receiver args).min? with
  | none => []
  | some least => candidates.filter fun m => t.callCost? m receiver args == some least

end ClassTable

end CallSite
