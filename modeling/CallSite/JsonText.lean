import CallSite.Fixture.Run

/-!
# Selections as JSON

The machine-readable listing of selections: one member a line, two blanks for each level.
-/

namespace CallSite.JsonText

/-- One character of a JSON string. Only quotes, backslashes and controls are escaped. -/
def stringChar (c : Char) : List Char :=
  if c = '"' || c = '\\' then ['\\', c]
  else if c = '\n' then ['\\', 'n']
  else if c = '\r' then ['\\', 'r']
  else if c = '\t' then ['\\', 't']
  else if c = '\x08' then ['\\', 'b']
  else if c = '\x0c' then ['\\', 'f']
  else if c.toNat < 0x20 then
    let digits := Nat.toDigits 16 c.toNat
    ['\\', 'u'] ++ List.replicate (4 - digits.length) '0' ++ digits
  else [c]

def string (s : String) : String :=
  String.ofList ('"' :: s.toList.flatMap stringChar ++ ['"'])

def member (name value : String) : String := "    \"" ++ name ++ "\": " ++ value

def selection (s : Selection) : String :=
  let members := [
    member "site" (string s.site), member "rule" (string s.rule),
    member "strategy" (string s.strategy), member "target" ((s.target.map string).getD "null")]
  "  \x7b\n" ++ String.intercalate ",\n" members ++ "\n  \x7d"

def selections (found : List Selection) : String :=
  if found.isEmpty then "[]"
  else "[\n" ++ String.intercalate ",\n" (found.map selection) ++ "\n]"

end CallSite.JsonText
