import CallSite.Span
import CallSite.TypeText

/-!
# Errors of a compilation

Errors are kept as causes; their wording is given here once.
-/

namespace CallSite

/-- What the type checker promised and emission did not find. -/
inductive InternalFault where
  | imbalance (after : String) (expected found : Nat)
  | notLive (slot : UInt16)
  | noOperator (line column : Nat) (receiver op argument : String)
  /-- Element accesses of nested lists went on beyond the nesting of the element type. -/
  | endlessElements
deriving DecidableEq, Repr

inductive ConfigFault where
  | unreadable
  | malformed
  | unknownLevel (level : String)
  | blankExtensionOwner
deriving DecidableEq, Repr

inductive FixtureFault where
  | unreadable
  | malformed
  | type (fault : TypeFault)
  | valueOfInstanceField (field : String)
  | constantsOutsideEnum
  | extensionWithoutReceiver (method : String)
  | siteWithout (article part kind : String)
  | untypedLocal (slot : UInt16)
  | ambiguousExpression
  | compositeConstant
  | inClass (name : String) (fault : FixtureFault)
  | inSite (name : String) (fault : FixtureFault)
deriving DecidableEq, Repr

inductive CompileError where
  /-- An access that nothing applies to; emission goes on with a placeholder. -/
  | access (type member : String) (span : Span)
  | internal (fault : InternalFault) (span : Span)
  | hierarchy (fault : HierarchyFault)
  | config (path : String) (fault : ConfigFault)
  | fixture (path : String) (fault : FixtureFault)
deriving DecidableEq, Repr

def InternalFault.message : InternalFault → String
  | imbalance after expected found =>
    "operand stack imbalance after " ++ after ++ ": expected depth " ++ toString expected ++
      ", found " ++ toString found
  | notLive slot => "temporary slot " ++ toString slot.toNat ++ " released twice or never defined"
  | noOperator line column receiver op argument =>
    "At line " ++ toString line ++ " column " ++ toString column ++ "\nOn receiver: " ++ receiver ++
      " with message: " ++ op ++ " and arguments: " ++ argument ++
      "\nThis method should not have been called."
  | endlessElements => "element accesses do not end"

def ConfigFault.message (fault : ConfigFault) : String :=
  "sitegen.toml: " ++
    match fault with
    | unreadable => "could not read file"
    | malformed => "invalid syntax"
    | unknownLevel level => "unknown log level '" ++ level ++ "'"
    | blankExtensionOwner => "'extension_owner' must not be empty"

def FixtureFault.message : FixtureFault → String
  | unreadable => "could not read file"
  | malformed => "invalid syntax"
  | type fault => fault.message
  | valueOfInstanceField field => "field '" ++ field ++ "': only static fields take a 'value'"
  | constantsOutsideEnum => "only enums declare 'constants'"
  | extensionWithoutReceiver method =>
    "extension method '" ++ method ++ "' needs its receiver type as the first parameter"
  | siteWithout article part kind => kind ++ " sites need " ++ article ++ " '" ++ part ++ "'"
  | untypedLocal slot => "local " ++ toString slot.toNat ++ " needs a 'type'"
  | ambiguousExpression =>
    "an expression needs exactly one of 'this', 'local', 'class', 'value' or 'property'"
  | compositeConstant => "only null, int, long, double, bool and str values can be constants"
  | inClass name fault => "class '" ++ name ++ "': " ++ fault.message
  | inSite name fault => "site '" ++ name ++ "': " ++ fault.message

namespace CompileError

/-- The error without the word for its kind. -/
def detail : CompileError → String
  | access type member _ => "Access to " ++ type ++ "#" ++ member ++ " is forbidden"
  | internal fault _ => fault.message
  | hierarchy fault => fault.message
  | config _ fault => fault.message
  | fixture path fault => path ++ ": " ++ fault.message

def kind : CompileError → String
  | access .. => "Access"
  | internal .. => "Internal"
  | hierarchy .. => "Hierarchy"
  | config .. => "Config"
  | fixture .. => "Fixture"

def message (e : CompileError) : String := e.kind ++ " error: " ++ e.detail

def span? : CompileError → Option Span
  | access _ _ span => some span
  | internal _ span => some span
  | _ => none

/-- Fatal errors end the compilation of the whole unit. -/
def isFatal : CompileError → Bool
  | access .. => false
  | _ => true

end CompileError

end CallSite
