import CallSite.ClassTable.Build
import CallSite.Text.Word

/-!
# Reading types

The text form of types: `int`, `a.B`, `int[]`, `java.util.List<a.B>`, `T`. A name without a dot is
also looked for in the packages that need no mention, and stands for a type variable when no class
has it.
-/

namespace CallSite

/-- Why a text is no type. -/
inductive TypeFault where
  | unbalanced (text : String)
  | unknownClass (name : String)
  | empty
deriving DecidableEq, Repr

def TypeFault.message : TypeFault → String
  | unbalanced text => "unbalanced '<' in type '" ++ text ++ "'"
  | unknownClass name => "unknown class '" ++ name ++ "'"
  | empty => "empty type"

namespace TypeText

/-- What stands before a final `[]`. -/
def arrayOf? (text : List Char) : Option (List Char) :=
  match text.reverse with
  | ']' :: '[' :: component => some component.reverse
  | _ => none

/-- The text without a final `>`. -/
def closed? (text : List Char) : Option (List Char) :=
  match text.reverse with
  | '>' :: inner => some inner.reverse
  | _ => none

/-- The pieces between the commas that stand in no angle brackets. -/
def splitArgs : (depth : Nat) → List Char → List (List Char)
  | _, [] => [[]]
  | depth, c :: cs =>
    if c = ',' ∧ depth = 0 then [] :: splitArgs 0 cs
    else
      let depth := if c = '<' then depth + 1 else if c = '>' then depth - 1 else depth
      match splitArgs depth cs with
      | [] => [[c]]
      | piece :: pieces => (c :: piece) :: pieces

/-- The characters of all pieces, and one more for each piece. -/
def total : List (List Char) → Nat
  | [] => 0
  | piece :: pieces => piece.length + 1 + total pieces

theorem total_splitArgs (depth : Nat) (cs : List Char) :
    total (splitArgs depth cs) = cs.length + 1 := by
  induction cs generalizing depth with
  | nil => rfl
  | cons c cs ih =>
    simp only [splitArgs]
    split
    · simp [total, ih]; omega
    · generalize (if c = '<' then depth + 1 else if c = '>' then depth - 1 else depth) = d
      have h := ih d
      cases hs : splitArgs d cs with
      | nil => simp [hs, total] at h
      | cons piece pieces => simp [hs, total] at h ⊢; omega

theorem eq_append_of_arrayOf? {text component : List Char} (h : arrayOf? text = some component) :
    text = component ++ ['[', ']'] := by
  unfold arrayOf? at h
  split at h
  · rename_i rest hrest
    cases h
    rw [← text.reverse_reverse, hrest]
    simp
  · cases h

theorem eq_append_of_closed? {text inner : List Char} (h : closed? text = some inner) :
    text = inner ++ ['>'] := by
  unfold closed? at h
  split at h
  · rename_i rest hrest
    cases h
    rw [← text.reverse_reverse, hrest]
    simp
  · cases h

theorem length_of_arrayOf? {text component : List Char} (h : arrayOf? text = some component) :
    text.length = component.length + 2 := by
  rw [eq_append_of_arrayOf? h, List.length_append]
  rfl

theorem length_of_closed? {text inner : List Char} (h : closed? text = some inner) :
    text.length = inner.length + 1 := by
  rw [eq_append_of_closed? h, List.length_append]
  rfl

theorem length_dropWhile_le (p : Char → Bool) (cs : List Char) :
    (cs.dropWhile p).length ≤ cs.length :=
  (List.dropWhile_sublist p).length_le

theorem length_trim_le (cs : List Char) : (Text.trim cs).length ≤ cs.length := by
  unfold Text.trim
  have h := length_dropWhile_le Text.isBlank (cs.dropWhile Text.isBlank).reverse
  have h' := length_dropWhile_le Text.isBlank cs
  simp only [List.length_reverse] at h ⊢
  omega

end TypeText

namespace ClassTable

open TypeText

/-- The packages whose classes may be named without the package. -/
def impliedPackages : List String := ["java.lang", "java.util", "java.math", "groovy.lang"]

/-- The class of a qualified name, or of a simple name in an implied package. -/
def classNamed (t : ClassTable) (name : String) : Except TypeFault ClassId :=
  let found :=
    if name.toList.contains '.' then t.lookup name
    else t.lookup name <|> impliedPackages.findSome? fun package => t.lookup (package ++ "." ++ name)
  match found with
  | some c => .ok c
  | none => .error (.unknownClass name)

/-- The type of a name without brackets: a class, or a type variable if it could not be
qualified. -/
def namedType (t : ClassTable) (text : List Char) : Except TypeFault Ty :=
  if text.isEmpty then .error .empty
  else match t.classNamed (String.ofList text) with
    | .ok c => .ok (.ofClass c)
    | .error fault => if text.contains '.' then .error fault else .ok (.var (String.ofList text))

mutual

/-- The type that trimmed characters stand for. -/
def typeOfTrimmed (t : ClassTable) (text : List Char) : Except TypeFault Ty :=
  match _ : arrayOf? text with
  | some component => (typeOfChars t component).map .array
  | none =>
    if text = ['v', 'o', 'i', 'd'] then .ok .void
    else match Primitive.ofName? (String.ofList text) with
      | some p => .ok (.prim p)
      | none =>
        match _ : text.dropWhile (· ≠ '<') with
        | [] => t.namedType text
        | _ :: rest =>
          match _ : closed? rest with
          | none => .error (.unbalanced (String.ofList text))
          | some inner => do
            let base := Text.trim (text.takeWhile (· ≠ '<'))
            let c ← t.classNamed (String.ofList base)
            return .object c (← typesOfChars t (splitArgs 0 inner))
termination_by (text.length, 0)
decreasing_by
  · have := length_of_arrayOf? ‹_›
    exact Prod.Lex.left _ _ (by omega)
  · have h := length_of_closed? ‹closed? rest = some inner›
    have hd := length_dropWhile_le (· ≠ '<') text
    have hr : (text.dropWhile (· ≠ '<')).length = rest.length + 1 := by
      rw [‹text.dropWhile _ = _ :: rest›]; rfl
    rw [total_splitArgs]
    exact Prod.Lex.left _ _ (by omega)

/-- The type that characters stand for; blanks around them do not matter. -/
def typeOfChars (t : ClassTable) (text : List Char) : Except TypeFault Ty :=
  typeOfTrimmed t (Text.trim text)
termination_by (text.length, 1)
decreasing_by
  have h := length_trim_le text
  rcases Nat.lt_or_eq_of_le h with h | h
  · exact Prod.Lex.left _ _ h
  · rw [h]; exact Prod.Lex.right _ (by omega)

def typesOfChars (t : ClassTable) (pieces : List (List Char)) : Except TypeFault (List Ty) :=
  match pieces with
  | [] => .ok []
  | piece :: pieces => do
    let ty ← typeOfChars t piece
    return ty :: (← typesOfChars t pieces)
termination_by (total pieces, 0)
decreasing_by
  · exact Prod.Lex.left _ _ (by simp only [total]; omega)
  · exact Prod.Lex.left _ _ (by simp only [total]; omega)

end

/-- The type that a text stands for. -/
def readType (t : ClassTable) (text : String) : Except TypeFault Ty := t.typeOfChars text.toList

def readTypes (t : ClassTable) (texts : List String) : Except TypeFault (List Ty) :=
  texts.mapM t.readType

end ClassTable

end CallSite
