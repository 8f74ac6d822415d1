/-!
# TOML values

What a TOML document holds. Strings keep the bytes they were read from.
-/

namespace CallSite

inductive Toml where
  /-- A string, and the byte offsets of its text with the quotes. -/
  | string (text : String) (start stop : Nat)
  | integer (value : Int)
  | float (value : Float)
  | boolean (value : Bool)
  /-- A date, a time or both. Nothing here asks for one, so it is only known to be there. -/
  | moment
  | array (items : List Toml)
  | table (entries : List (String × Toml))
deriving Repr, Inhabited

namespace Toml

mutual

/-- How deeply arrays and tables are nested. -/
def nesting : Toml → Nat
  | array items => nestingOfItems items + 1
  | table entries => nestingOfEntries entries + 1
  | _ => 0

def nestingOfItems : List Toml → Nat
  | [] => 0
  | item :: items => max (nesting item) (nestingOfItems items)

def nestingOfEntries : List (String × Toml) → Nat
  | [] => 0
  | (_, value) :: entries => max (nesting value) (nestingOfEntries entries)

end

end Toml

end CallSite
