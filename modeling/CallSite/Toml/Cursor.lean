/-!
# Reading characters

The rest of a text with its byte offset, and the steps that read from it.
-/

namespace CallSite.Toml

structure Cursor where
  rest : List Char
  offset : Nat

def Cursor.ofString (text : String) : Cursor := ⟨text.toList, 0⟩

/-- A step that reads from the text, or fails. -/
abbrev Reader := StateT Cursor Option

namespace Reader

def peek? : Reader (Option Char) := return (← get).rest.head?

/-- The number of characters that are left, which bounds every loop over them. -/
def remaining : Reader Nat := return (← get).rest.length

def next : Reader Char := do
  let cursor ← get
  match cursor.rest with
  | [] => failure
  | c :: rest =>
    set (Cursor.mk rest (cursor.offset + c.utf8Size))
    return c

/-- Read a character for which `p` holds. -/
def satisfy (p : Char → Bool) : Reader Char := do
  let c ← next
  if p c then return c else failure

def char (c : Char) : Reader Unit := discard (satisfy (· == c))

/-- Read exactly these characters. -/
def chars (text : List Char) : Reader Unit := text.forM char

/-- Read with `step`, or nothing where it fails. -/
def optional (step : Reader α) : Reader (Option α) := (some <$> step) <|> pure none

/-- Read while `p` holds. -/
def takeWhile (p : Char → Bool) : Reader (List Char) := do
  let cursor ← get
  let taken := cursor.rest.takeWhile p
  set (Cursor.mk (cursor.rest.drop taken.length)
    (taken.foldl (fun offset c => offset + c.utf8Size) cursor.offset))
  return taken

/-- Read exactly `count` characters for which `p` holds. -/
def exactly (p : Char → Bool) : (count : Nat) → Reader (List Char)
  | 0 => return []
  | count + 1 => do
    let c ← satisfy p
    return c :: (← exactly p count)

end Reader

end CallSite.Toml
