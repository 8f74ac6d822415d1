import CallSite.Toml.Scalar

/-!
# TOML documents

Keys and headers are put together to one tree. A table may be opened once, a key set once, and
what a value holds is never extended.
-/

namespace CallSite.Toml

/-! ## Assembling tables -/

/-- How a table came about: `implicit` if only as the parent of another, `dotted` if by a dotted
key. -/
structure Origin where
  implicit : Bool
  dotted : Bool

inductive Node where
  | leaf (value : Toml)
  | table (origin : Origin) (entries : List (String × Node))
  /-- An array of tables, the newest first. -/
  | tables (elements : List (List (String × Node)))

abbrev Entries := List (String × Node)

/-- The entries with the one of `key` replaced. -/
def Entries.set (entries : Entries) (key : String) (node : Node) : Entries :=
  entries.map fun entry => if entry.1 = key then (key, node) else entry

namespace Node

/-- Change the table at a path, making the tables that are missing on the way. A dotted key does
not lead into a table that was opened by a header or written as a value. -/
def changeAt (dotted : Bool) (change : Origin → Entries → Option (Entries × α)) :
    List String → Origin → Entries → Option (Entries × α)
  | [], origin, entries => change origin entries
  | key :: path, _, entries =>
    match entries.lookup key with
    | none => do
      let origin : Origin := ⟨true, dotted⟩
      let (child, result) ← changeAt dotted change path origin []
      return (entries ++ [(key, .table origin child)], result)
    | some (.leaf _) => none
    | some (.table origin child) =>
      if dotted && !origin.implicit then none
      else do
        let (child, result) ← changeAt dotted change path origin child
        return (Entries.set entries key (.table origin child), result)
    | some (.tables []) => none
    | some (.tables (newest :: older)) => do
      let (newest, result) ← changeAt dotted change path ⟨false, false⟩ newest
      return (Entries.set entries key (.tables (newest :: older)), result)

/-- Set a dotted key that was not set before. -/
def insert (path : List String) (key : String) (value : Toml) (entries : Entries) :
    Option Entries :=
  (changeAt true (fun origin entries =>
    if origin.dotted == path.isEmpty then none
    else if (entries.lookup key).isSome then none
    else some (entries ++ [(key, .leaf value)], ())) path ⟨false, false⟩ entries).map Prod.fst

mutual

def toToml : Node → Toml
  | .leaf value => value
  | .table _ entries => .table (entriesToToml entries)
  | .tables elements => .array (elementsToToml elements).reverse

def entriesToToml : List (String × Node) → List (String × Toml)
  | [] => []
  | (key, node) :: entries => (key, toToml node) :: entriesToToml entries

def elementsToToml : List (List (String × Node)) → List Toml
  | [] => []
  | entries :: elements => .table (entriesToToml entries) :: elementsToToml elements

end

end Node

/-- The key split into the path to its table and its last part. -/
def splitLast (path : List String) : Option (List String × String) :=
  path.getLast?.map fun last => (path.dropLast, last)

/-- The tables read so far, and the one that keys are read into. -/
structure Assembly where
  root : Entries
  current : Entries
  /-- The header of the current table; empty for the document itself. -/
  path : List String
  isElement : Bool

namespace Assembly

def start : Assembly := ⟨[], [], [], false⟩

/-- Put the current table into its place. -/
def close (a : Assembly) : Option Entries :=
  match splitLast a.path with
  | none => some a.current
  | some (parent, key) =>
    (Node.changeAt false (fun _ entries =>
      match entries.lookup key with
      | none =>
        let node :=
          if a.isElement then Node.tables [a.current] else .table ⟨false, false⟩ a.current
        some (entries ++ [(key, node)], ())
      | some (.tables elements) =>
        if a.isElement then some (Entries.set entries key (.tables (a.current :: elements)), ())
        else none
      | some _ => none) parent ⟨false, false⟩ a.root).map Prod.fst

/-- Open the table of a header. It may be there already as the parent of another. -/
def openTable (a : Assembly) (path : List String) : Option Assembly := do
  let root ← a.close
  let (parent, key) ← splitLast path
  let (root, current) ← Node.changeAt false (fun _ entries =>
    match entries.lookup key with
    | none => some (entries, [])
    | some (.table origin child) =>
      if origin.implicit && !origin.dotted then
        some (entries.filter (fun entry => entry.1 != key), child)
      else none
    | some _ => none) parent ⟨false, false⟩ root
  return ⟨root, current, path, false⟩

/-- Open a new table of the array that a header names. -/
def openElement (a : Assembly) (path : List String) : Option Assembly := do
  let root ← a.close
  let (parent, key) ← splitLast path
  let (root, _) ← Node.changeAt false (fun _ entries =>
    match entries.lookup key with
    | none => some (entries, ())
    | some (.tables _) => some (entries, ())
    | some _ => none) parent ⟨false, false⟩ root
  return ⟨root, [], path, true⟩

def set (a : Assembly) (path : List String) (value : Toml) : Option Assembly := do
  let (parent, key) ← splitLast path
  return { a with current := ← Node.insert parent key value a.current }

end Assembly

namespace Reader

/-! ## Values -/

/-- Items between separators, each read by `item`, up to a closing character. -/
def items (item : Reader α) (blank : Reader Unit) (close : Char) (trailing : Bool) :
    (fuel : Nat) → Reader (List α)
  | 0 => failure
  | fuel + 1 => do
    blank
    match ← optional (char close) with
    | some _ => return []
    | none =>
      let first ← item
      blank
      match ← optional (char ',') with
      | none =>
        char close
        return [first]
      | some _ =>
        blank
        if !trailing && (← peek?) == some close then failure
        return first :: (← items item blank close trailing fuel)

/-- The value of an inline table. -/
def inlineTable (pairs : List (List String × Toml)) : Option Toml :=
  (pairs.foldlM (fun entries (path, value) => do
    let (parent, key) ← splitLast path
    Node.insert parent key value entries) []).map fun entries =>
      .table (Node.entriesToToml entries)

/-- A value; arrays and inline tables nest less deep than `depth`. -/
def value : (depth : Nat) → Reader Toml
  | 0 => failure
  | depth + 1 => do
    match ← peek? with
    | some '"' => string '"' true
    | some '\'' => string '\'' false
    | some '[' => do
      if depth = 0 then failure
      char '['
      let fuel ← remaining
      return .array (← items (value depth) (blankLines fuel) ']' true fuel)
    | some '\x7b' => do
      if depth = 0 then failure
      char '\x7b'
      let pair : Reader (List String × Toml) := do
        let path ← key
        char '='
        blanks
        return (path, ← value depth)
      let pairs ← items pair blanks '\x7d' false (← remaining)
      match inlineTable pairs with
      | some found => return found
      | none => failure
    | some 't' => do chars ['t', 'r', 'u', 'e']; return .boolean true
    | some 'f' => do chars ['f', 'a', 'l', 's', 'e']; return .boolean false
    | some 'i' => specialFloat
    | some 'n' => specialFloat
    | some _ => number
    | none => failure

/-! ## Lines -/

/-- A header and what may follow on its line. -/
def header (a : Assembly) : Reader Assembly := do
  let array ← optional (chars ['[', '['])
  match array with
  | some _ =>
    let path ← key
    chars [']', ']']
    lineEnd
    match a.openElement path with
    | some a => return a
    | none => failure
  | none =>
    char '['
    let path ← key
    char ']'
    lineEnd
    match a.openTable path with
    | some a => return a
    | none => failure

/-- A key with its value and what may follow on the line. -/
def keyValue (a : Assembly) : Reader Assembly := do
  let path ← key
  char '='
  blanks
  let found ← value depthLimit
  lineEnd
  match a.set path found with
  | some a => return a
  | none => failure

/-- All lines up to the end of the text. -/
def lines : (fuel : Nat) → Assembly → Reader Assembly
  | 0, _ => failure
  | fuel + 1, a => do
    blanks
    match ← peek? with
    | none => return a
    | some '#' =>
      lineEnd
      lines fuel a
    | some '[' => lines fuel (← header a)
    | some c =>
      if c = '\n' || c = '\r' then do
        newline
        lines fuel a
      else lines fuel (← keyValue a)

def document : Reader Toml := do
  discard (optional (char (Char.ofNat 0xFEFF)))
  let a ← lines ((← remaining) + 1) .start
  match a.close with
  | some entries => return .table (Node.entriesToToml entries)
  | none => failure

end Reader

/-- The table that a text stands for, if it is a TOML document. -/
def ofText? (text : String) : Option Toml :=
  (Reader.document.run (Cursor.ofString text)).map Prod.fst

end CallSite.Toml
