import CallSite.Text.Letter
import CallSite.Text.Printable

/-!
# Words

Words in a text: what surrounds them without belonging to them, how they are quoted, and how the
names of getters are made from them. A getter's name is built from a property's name with its first
letter raised, and taken apart again by the inverse rule.
-/

namespace CallSite.Text

/-! ## Blanks -/

/-- Spaces, line ends and the other characters of the white-space property. -/
def isBlank (c : Char) : Bool :=
  let n := c.toNat
  (9 ≤ n && n ≤ 13) || n == 0x20 || n == 0x85 || n == 0xA0 || n == 0x1680 ||
    (0x2000 ≤ n && n ≤ 0x200A) || n == 0x2028 || n == 0x2029 || n == 0x202F || n == 0x205F ||
    n == 0x3000

/-- `cs` without the blanks at its two ends. -/
def trim (cs : List Char) : List Char :=
  ((cs.dropWhile isBlank).reverse.dropWhile isBlank).reverse

/-! ## Quotes -/

/-- The code point of `c` in lower-case hexadecimal, between braces. -/
def codeEscape (c : Char) : List Char :=
  ['\\', 'u', '\x7b'] ++ Nat.toDigits 16 c.toNat ++ ['\x7d']

/-- One character of a quoted text. Quotes and backslashes are escaped, and so is every character
that cannot be seen or that would change the look of the one before it. -/
def quoteChar (c : Char) : List Char :=
  if c = '\x00' then ['\\', '0']
  else if c = '\t' then ['\\', 't']
  else if c = '\r' then ['\\', 'r']
  else if c = '\n' then ['\\', 'n']
  else if c = '"' || c = '\\' then ['\\', c]
  else if isExtending c || !isPrintable c then codeEscape c
  else [c]

def quote (s : String) : String :=
  String.ofList ('"' :: s.toList.flatMap quoteChar ++ ['"'])

/-! ## Names -/

/-- `name` with its first letter in upper case. -/
def capitalize (name : String) : String :=
  match name.toList with
  | [] => ""
  | c :: rest => String.ofList (toUppercase c ++ rest)

/-- `text` after `lead`, if it starts so. -/
def dropLead? : List Char → List Char → Option (List Char)
  | [], text => some text
  | _ :: _, [] => none
  | l :: lead, c :: text => if l = c then dropLead? lead text else none

/-- The name with its first letter lowered, unless the second is a capital too. -/
def decapitalize? : List Char → Option (List Char)
  | [] => none
  | c :: rest =>
    if !isUppercase c then none
    else match rest with
      | d :: _ => if isUppercase d then some (c :: rest) else some (toLowercase c ++ rest)
      | [] => some (toLowercase c)

/-- The property a getter reads, from the getter's name: the word after `get` or `is`. -/
def propertyOf? (method : String) : Option String :=
  let name := method.toList
  ((dropLead? ['g', 'e', 't'] name <|> dropLead? ['i', 's'] name).bind decapitalize?).map
    String.ofList

end CallSite.Text
