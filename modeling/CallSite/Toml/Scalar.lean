import CallSite.Decimal.Nearest
import CallSite.Toml.Cursor
import CallSite.Toml.Value

/-!
# Scalars

Blanks, comments, keys, strings, numbers and dates of TOML texts.
-/

namespace CallSite.Toml.Reader

/-! ## Blanks and comments -/

def isBlank (c : Char) : Bool := c == ' ' || c == '\t'

/-- Tabs and all characters that are no controls. -/
def isVisible (c : Char) : Bool := c == '\t' || (0x20 ≤ c.toNat && c.toNat ≠ 0x7F)

def blanks : Reader Unit := discard (takeWhile isBlank)

def newline : Reader Unit := char '\n' <|> chars ['\r', '\n']

def atEnd : Reader Unit := do
  if (← peek?).isSome then failure

def comment : Reader Unit := do
  char '#'
  discard (takeWhile isVisible)

/-- What may follow on a line: blanks, a comment and the line's end. -/
def lineEnd : Reader Unit := do
  blanks
  discard (optional comment)
  newline <|> atEnd

/-- Blanks, line ends and comments that each end their line. -/
def blankLines : (fuel : Nat) → Reader Unit
  | 0 => return
  | fuel + 1 => do
    blanks
    match ← optional (newline <|> (do comment; newline)) with
    | some _ => blankLines fuel
    | none => return

/-! ## Strings -/

def isHexDigit (c : Char) : Bool :=
  c.isDigit || ('a' ≤ c && c ≤ 'f') || ('A' ≤ c && c ≤ 'F')

def hexValue (c : Char) : Nat :=
  if c.isDigit then c.toNat - '0'.toNat
  else if 'a' ≤ c then c.toNat - 'a'.toNat + 10
  else c.toNat - 'A'.toNat + 10

/-- The number that digits in some base stand for. -/
def numeral (base : Nat) (digits : List Char) : Nat :=
  digits.foldl (fun n c => n * base + hexValue c) 0

/-- The character of a code point, in `count` hexadecimal digits. -/
def codePoint (count : Nat) : Reader Char := do
  let n := numeral 16 (← exactly isHexDigit count)
  if n.isValidChar then return Char.ofNat n else failure

/-- What follows a backslash. -/
def escape : Reader Char := do
  match ← next with
  | 'b' => return '\x08'
  | 't' => return '\t'
  | 'n' => return '\n'
  | 'f' => return '\x0c'
  | 'r' => return '\r'
  | '"' => return '"'
  | '\\' => return '\\'
  | 'u' => codePoint 4
  | 'U' => codePoint 8
  | _ => failure

/-- The rest of a one-line string up to its closing quote. -/
def lineString (quote : Char) (escapes : Bool) : (fuel : Nat) → (read : List Char) →
    Reader (List Char)
  | 0, _ => failure
  | fuel + 1, read => do
    let c ← next
    if c = quote then return read.reverse
    else if escapes && c = '\\' then
      let c ← escape
      lineString quote escapes fuel (c :: read)
    else if isVisible c then lineString quote escapes fuel (c :: read)
    else failure

/-- A backslash at the end of a line drops the line's end and all blanks after it. -/
def lineContinuation : Reader Unit := do
  char '\\'
  blanks
  newline
  let fuel ← remaining
  skip fuel
where
  skip : Nat → Reader Unit
    | 0 => return
    | fuel + 1 => do
      match ← optional (newline <|> discard (satisfy isBlank)) with
      | some _ => skip fuel
      | none => return

/-- The rest of a string of several lines up to its three closing quotes. One or two quotes may
stand inside, and just before the closing ones. -/
def blockString (quote : Char) (escapes : Bool) : (fuel : Nat) → (read : List Char) →
    Reader (List Char)
  | 0, _ => failure
  | fuel + 1, read => do
    match ← peek? with
    | none => failure
    | some c =>
      if c = quote then
        let quotes ← takeWhile (· == quote)
        if quotes.length < 3 then blockString quote escapes fuel (quotes ++ read)
        else if quotes.length < 6 then return (quotes.drop 3 ++ read).reverse
        else failure
      else if escapes && c = '\\' then
        match ← optional lineContinuation with
        | some _ => blockString quote escapes fuel read
        | none =>
          char '\\'
          let c ← escape
          blockString quote escapes fuel (c :: read)
      else if c = '\n' || c = '\r' then
        newline
        blockString quote escapes fuel ('\n' :: read)
      else
        let c ← satisfy isVisible
        blockString quote escapes fuel (c :: read)

/-- A string on one line. -/
def plainString (quote : Char) (escapes : Bool) : Reader String := do
  char quote
  return String.ofList (← lineString quote escapes (← remaining) [])

/-- A string of any form between these quotes. -/
def anyString (quote : Char) (escapes : Bool) : Reader String := do
  match ← optional (chars [quote, quote, quote]) with
  | some _ =>
    discard (optional newline)
    return String.ofList (← blockString quote escapes (← remaining) [])
  | none => plainString quote escapes

/-- A string value. -/
def string (quote : Char) (escapes : Bool) : Reader Toml := do
  let start := (← get).offset
  let text ← anyString quote escapes
  return .string text start (← get).offset

/-! ## Keys -/

def isBare (c : Char) : Bool := c.isAlphanum || c == '-' || c == '_'

def simpleKey : Reader String := do
  match ← peek? with
  | some '"' => plainString '"' true
  | some '\'' => plainString '\'' false
  | _ =>
    let name ← takeWhile isBare
    if name.isEmpty then failure else return String.ofList name

/-- The keys after the first, each after a dot. -/
def moreKeys : (fuel : Nat) → Reader (List String)
  | 0 => return []
  | fuel + 1 => do
    match ← optional (char '.') with
    | none => return []
    | some _ =>
      blanks
      let key ← simpleKey
      blanks
      return key :: (← moreKeys fuel)

/-- Deeper nesting than this is refused. -/
def depthLimit : Nat := 80

/-- A dotted key. -/
def key : Reader (List String) := do
  blanks
  let first ← simpleKey
  blanks
  let path := first :: (← moreKeys (← remaining))
  if depthLimit ≤ path.length then failure else return path

/-! ## Numbers -/

/-- Digits with single underscores between them. -/
def digits (isDigit : Char → Bool) : Reader (List Char) := do
  let first ← satisfy isDigit
  return first :: (← more (← remaining))
where
  more : Nat → Reader (List Char)
    | 0 => return []
    | fuel + 1 => do
      match ← peek? with
      | some '_' =>
        char '_'
        let c ← satisfy isDigit
        return c :: (← more fuel)
      | some c => if isDigit c then do char c; return c :: (← more fuel) else return []
      | none => return []

/-- A minus sign, if there is a sign at all. -/
def sign : Reader Bool := do
  match ← optional (satisfy fun c => c == '+' || c == '-') with
  | some c => return c == '-'
  | none => return false

/-- The digits of a decimal integer, which has no leading zero. -/
def decimalDigits : Reader (List Char) := do
  match ← peek? with
  | some '0' => do char '0'; return ['0']
  | _ => digits Char.isDigit

/-- Integers have 64 bits. -/
def integerOf (value : Int) : Reader Toml :=
  if Int64.minValue.toInt ≤ value ∧ value ≤ Int64.maxValue.toInt then return .integer value
  else failure

def decimalInteger : Reader Toml := do
  let negative ← sign
  let n : Int := numeral 10 (← decimalDigits)
  integerOf (if negative then -n else n)

/-- An integer in another base, after its mark. -/
def basedInteger (mark : Char) (base : Nat) (isDigit : Char → Bool) : Reader Toml := do
  chars ['0', mark]
  integerOf (numeral base (← digits isDigit))

def integer : Reader Toml :=
  basedInteger 'x' 16 isHexDigit <|> basedInteger 'o' 8 (fun c => '0' ≤ c && c ≤ '7') <|>
    basedInteger 'b' 2 (fun c => c == '0' || c == '1') <|> decimalInteger

def exponent : Reader Int := do
  discard (satisfy fun c => c == 'e' || c == 'E')
  let negative ← sign
  let n : Int := numeral 10 (← digits Char.isDigit)
  return if negative then -n else n

/-- A number with a fraction, an exponent or both. Too large a positive number is refused. -/
def float : Reader Toml := do
  let negative ← sign
  let whole ← decimalDigits
  let fraction ← optional do char '.'; digits Char.isDigit
  let power ← optional exponent
  if fraction.isNone && power.isNone then failure
  let places := fraction.getD []
  let value := Decimal.nearest negative (numeral 10 (whole ++ places))
    (power.getD 0 - places.length)
  if !negative && value.isInf then failure else return .float value

def specialFloat : Reader Toml := do
  let negative ← sign
  let infinity := Decimal.nearest negative 1 1000
  (do chars ['i', 'n', 'f']; return .float infinity) <|>
    (do chars ['n', 'a', 'n']; return .float (infinity - infinity))

/-! ## Dates and times -/

/-- A number of exactly `count` digits between two bounds. -/
def bounded (count low high : Nat) : Reader Nat := do
  let n := numeral 10 (← exactly Char.isDigit count)
  if low ≤ n ∧ n ≤ high then return n else failure

def daysIn (year month : Nat) : Nat :=
  if month = 2 then
    if year % 4 = 0 ∧ (year % 100 ≠ 0 ∨ year % 400 = 0) then 29 else 28
  else if month ∈ [4, 6, 9, 11] then 30
  else 31

def date : Reader Unit := do
  let year ← bounded 4 0 9999
  char '-'
  let month ← bounded 2 1 12
  char '-'
  discard (bounded 2 1 (daysIn year month))

def time : Reader Unit := do
  discard (bounded 2 0 23)
  char ':'
  discard (bounded 2 0 59)
  char ':'
  discard (bounded 2 0 60)
  discard (optional do
    char '.'
    discard (satisfy Char.isDigit)
    discard (takeWhile Char.isDigit))

def timeOffset : Reader Unit :=
  discard (satisfy fun c => c == 'Z' || c == 'z') <|> do
    discard (satisfy fun c => c == '+' || c == '-')
    discard (bounded 2 0 23)
    char ':'
    discard (bounded 2 0 59)

def moment : Reader Toml := do
  (do
    date
    discard (optional do
      discard (satisfy fun c => c == 'T' || c == 't' || c == ' ')
      time
      discard (optional timeOffset))) <|> time
  return .moment

/-- A value that starts with a sign or a digit. -/
def number : Reader Toml := moment <|> float <|> specialFloat <|> integer

end CallSite.Toml.Reader
