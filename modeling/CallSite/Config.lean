import CallSite.CompileError
import CallSite.Options
import CallSite.Text.Word
import CallSite.Toml.Document
import CallSite.Toml.Record

/-!
# Configuration

The settings file: emission options and the level of the log.
-/

namespace CallSite

structure Config where
  options : Options
  level : String
deriving Repr, DecidableEq

namespace Config

def standard : Config := ⟨.standard, "warn"⟩

def optionsOf? (v : Toml) : Option Options := do
  let r ← Toml.Record.of? ["power_fast_paths", "extension_owner", "number_helper_package"] v
  let standard := Options.standard
  return {
    powerFastPaths := ← r.withDefault "power_fast_paths" standard.powerFastPaths Toml.bool?
    extensionOwner := ← r.withDefault "extension_owner" standard.extensionOwner Toml.string?
    numberHelperPackage :=
      ← r.withDefault "number_helper_package" standard.numberHelperPackage Toml.string? }

def levelOf? (v : Toml) : Option String := do
  let r ← Toml.Record.of? ["level"] v
  r.withDefault "level" standard.level Toml.string?

def ofToml? (v : Toml) : Option Config := do
  let r ← Toml.Record.of? ["codegen", "log"] v
  return {
    options := ← r.withDefault "codegen" standard.options optionsOf?
    level := ← r.withDefault "log" standard.level levelOf? }

def levels : List String := ["error", "warn", "info", "debug", "trace"]

/-- What is wrong with a configuration. Levels are compared in ASCII lower case. -/
def fault? (config : Config) : Option ConfigFault :=
  if !levels.contains (String.ofList (config.level.toList.map Char.toLower)) then
    some (.unknownLevel config.level)
  else if (Text.trim config.options.extensionOwner.toList).isEmpty then some .blankExtensionOwner
  else none

/-- The configuration of a settings file at `path` with this text. -/
def parse (text path : String) : Except CompileError Config :=
  match (Toml.ofText? text).bind ofToml? with
  | none => .error (.config path .malformed)
  | some config =>
    match config.fault? with
    | some fault => .error (.config path fault)
    | none => .ok config

end Config

end CallSite
