/-!
# Emission options

Which runtime helpers emitted code calls.
-/

namespace CallSite

structure Options where
  /-- Call the `power` helper made for the operand types instead of the general one. -/
  powerFastPaths : Bool
  /-- The internal name of the class that holds the extension methods. -/
  extensionOwner : String
  /-- The internal name of the package of the arithmetic helpers. -/
  numberHelperPackage : String
deriving Repr, DecidableEq

namespace Options

def standard : Options where
  powerFastPaths := true
  extensionOwner := "org/codehaus/groovy/runtime/DefaultGroovyMethods"
  numberHelperPackage := "org/codehaus/groovy/runtime/dgmimpl"

end Options

end CallSite
