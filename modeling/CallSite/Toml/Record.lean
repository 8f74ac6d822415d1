import CallSite.Toml.Value

/-!
# Reading records

Typed values out of TOML values. A record is a table with known keys only, or an array of its
fields in their order.
-/

namespace CallSite.Toml

/-- The fields of a record. Positional fields come from an array; there only fields with a default
may be missing. -/
structure Record where
  fields : List (String × Toml)
  positional : Bool

namespace Record

/-- The record with these fields that a value stands for. What an array holds beyond them does not
count. -/
def of? (names : List String) : Toml → Option Record
  | table entries =>
    if entries.all fun entry => names.contains entry.1 then some ⟨entries, false⟩ else none
  | array items => some ⟨names.zip items, true⟩
  | _ => none

def required (r : Record) (name : String) (read : Toml → Option α) : Option α :=
  (r.fields.lookup name).bind read

def optional (r : Record) (name : String) (read : Toml → Option α) : Option (Option α) :=
  match r.fields.lookup name with
  | some value => (read value).map some
  | none => if r.positional then none else some none

def withDefault (r : Record) (name : String) (default : α) (read : Toml → Option α) : Option α :=
  match r.fields.lookup name with
  | some value => read value
  | none => some default

end Record

def string? : Toml → Option String
  | string text _ _ => some text
  | _ => none

/-- A string with the place it was read from. -/
def located? : Toml → Option (String × Nat × Nat)
  | string text start stop => some (text, start, stop)
  | _ => none

def bool? : Toml → Option Bool
  | boolean b => some b
  | _ => none

/-- An integer from `low` to `high`. -/
def integer? (low high : Int) : Toml → Option Int
  | integer n => if low ≤ n ∧ n ≤ high then some n else none
  | _ => none

def int32? (v : Toml) : Option Int32 :=
  (integer? Int32.minValue.toInt Int32.maxValue.toInt v).map Int32.ofInt

def int64? (v : Toml) : Option Int64 :=
  (integer? Int64.minValue.toInt Int64.maxValue.toInt v).map Int64.ofInt

/-- A slot number. -/
def slot? (v : Toml) : Option UInt16 :=
  (integer? 0 (UInt16.size - 1 : Nat) v).map fun n => UInt16.ofNat n.toNat

def natural32? (v : Toml) : Option Nat :=
  (integer? 0 (UInt32.size - 1 : Nat) v).map Int.toNat

/-- A number; integers are rounded to the nearest double. -/
def double? : Toml → Option Float
  | float x => some x
  | integer n => some (Int64.ofInt n).toFloat
  | _ => none

def list? (read : Toml → Option α) : Toml → Option (List α)
  | array items => items.mapM read
  | _ => none

/-- Two values; more of them do not count. -/
def pair? (read : Toml → Option α) : Toml → Option (α × α)
  | array (a :: b :: _) => do return (← read a, ← read b)
  | _ => none

/-- An array or table without content. -/
def isEmpty : Toml → Bool
  | array items => items.isEmpty
  | table entries => entries.isEmpty
  | _ => false

/-- One of several words, as a string or as the one key of a table without further content. -/
def choice? (read : String → Option α) : Toml → Option α
  | string text _ _ => read text
  | table [(name, content)] => if content.isEmpty then read name else none
  | _ => none

end CallSite.Toml
