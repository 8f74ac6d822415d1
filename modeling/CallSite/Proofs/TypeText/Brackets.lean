import CallSite.Proofs.TypeText.RoundTrip
import Mathlib.Data.List.TakeWhile

/-!
# Angle brackets of a type text

Of the brackets of a text only those of a class with arguments are looked at: the text after its
first opening bracket has to end in a closing one, and the pieces between the commas are read each on
its own. So every opening bracket of a text that is read is closed behind it; a closing bracket that
closes nothing is left in a piece without an opening one, and there it belongs to the name of a
type variable.
-/

namespace CallSite

/-! ## Texts -/

namespace TypeText

/-- No front part of the text has more closing than opening brackets, and the whole has as many of
the ones as of the others. -/
def Balanced (text : List Char) : Prop :=
  (∀ front, front <+: text → front.count '>' ≤ front.count '<') ∧ text.count '<' = text.count '>'

/-- Every opening bracket of the text has its closing one behind it, and there are `strays` closing
brackets besides. -/
structure Tally (text : List Char) (strays : Nat) : Prop where
  closed : ∀ front back, text = front ++ back → back.count '<' ≤ back.count '>'
  count : text.count '>' = text.count '<' + strays

variable {text xs ys : List Char} {m n : Nat}

/-- Where every opening bracket is closed, the text is balanced if no closing one is left. -/
theorem Tally.balanced_iff (h : Tally text n) : Balanced text ↔ n = 0 := by
  constructor
  · intro hb
    have hequal := hb.2
    have hcount := h.count
    omega
  · intro hn
    have hcount := h.count
    refine ⟨?_, by omega⟩
    rintro front ⟨back, rfl⟩
    have hback := h.closed front back rfl
    simp only [List.count_append] at hcount
    omega

theorem Tally.of_free (h : '<' ∉ text) : Tally text (text.count '>') := by
  have hzero : text.count '<' = 0 := List.count_eq_zero.mpr h
  refine ⟨?_, by omega⟩
  rintro front back rfl
  simp only [List.count_append] at hzero
  omega

/-- A text without brackets. -/
theorem Tally.of_plain (hopen : '<' ∉ text) (hclose : '>' ∉ text) : Tally text 0 := by
  rw [← List.count_eq_zero.mpr hclose]
  exact .of_free hopen

theorem Tally.append (hx : Tally xs m) (hy : Tally ys n) : Tally (xs ++ ys) (m + n) := by
  constructor
  · intro front back h
    obtain ⟨mid, rfl, rfl⟩ | ⟨mid, rfl, rfl⟩ := List.append_eq_append_iff.mp h
    · exact hy.closed mid back rfl
    · have hmid := hx.closed front mid rfl
      have hall := hy.closed [] ys rfl
      simp only [List.count_append]
      omega
  · have hxc := hx.count
    have hyc := hy.count
    simp only [List.count_append]
    omega

/-- Brackets around a text close each other. -/
theorem Tally.enclose (h : Tally text n) : Tally ('<' :: (text ++ ['>'])) n := by
  constructor
  · intro front back hback
    cases front with
    | nil =>
      subst hback
      have hcount := h.count
      simp
      omega
    | cons c front =>
      obtain ⟨-, htail⟩ := List.cons_eq_cons.mp hback
      have hlast : Tally ['>'] 1 := .of_free (by decide)
      exact (h.append hlast).closed front back htail
  · have hcount := h.count
    simp
    omega

private theorem not_mem_of_isBlank {cs : List Char} {c : Char} (h : ∀ d ∈ cs, Text.isBlank d = true)
    (hc : Text.isBlank c = false) : c ∉ cs := by
  intro hmem
  have hblank := h c hmem
  rw [hc] at hblank
  exact absurd hblank Bool.false_ne_true

/-- Only blanks are taken off the ends of a text. -/
theorem exists_trim (text : List Char) : ∃ before after, text = before ++ Text.trim text ++ after ∧
    (∀ c ∈ before, Text.isBlank c = true) ∧ ∀ c ∈ after, Text.isBlank c = true := by
  have hfront := List.takeWhile_append_dropWhile (p := Text.isBlank) (l := text)
  have hback := List.takeWhile_append_dropWhile (p := Text.isBlank)
    (l := (text.dropWhile Text.isBlank).reverse)
  refine ⟨text.takeWhile Text.isBlank,
    ((text.dropWhile Text.isBlank).reverse.takeWhile Text.isBlank).reverse, ?_,
    fun c hc => List.mem_takeWhile_imp hc,
    fun c hc => List.mem_takeWhile_imp (List.mem_reverse.mp hc)⟩
  unfold Text.trim
  rw [List.append_assoc, ← List.reverse_append, hback, List.reverse_reverse, hfront]

theorem trim_sublist (text : List Char) : (Text.trim text).Sublist text := by
  obtain ⟨before, after, htext, -⟩ := exists_trim text
  conv_rhs => rw [htext, List.append_assoc]
  exact (List.sublist_append_left _ _).trans (List.sublist_append_right _ _)

theorem Tally.of_trim (h : Tally (Text.trim text) n) : Tally text n := by
  obtain ⟨before, after, htext, hbefore, hafter⟩ := exists_trim text
  have hblanks : ∀ {cs : List Char}, (∀ c ∈ cs, Text.isBlank c = true) → Tally cs 0 := fun hcs =>
    .of_plain (not_mem_of_isBlank hcs (by decide)) (not_mem_of_isBlank hcs (by decide))
  have hall := ((hblanks hbefore).append h).append (hblanks hafter)
  rw [htext]
  simpa using hall

/-- A text with an opening bracket, split in front of the first one. -/
theorem eq_append_of_dropWhile {head : Char} {rest : List Char}
    (h : text.dropWhile (· ≠ '<') = head :: rest) :
    text = text.takeWhile (· ≠ '<') ++ '<' :: rest := by
  have hhead : head = '<' := by
    have hnot := List.head?_dropWhile_not (fun c => decide (c ≠ '<')) text
    rw [h] at hnot
    simpa using hnot
  rw [hhead] at h
  rw [← h, List.takeWhile_append_dropWhile]

/-- The pieces with the commas between them are the text. -/
theorem intercalate_splitArgs (depth : Nat) (cs : List Char) :
    [','].intercalate (splitArgs depth cs) = cs := by
  induction cs generalizing depth with
  | nil => simp [splitArgs, List.intercalate]
  | cons c cs ih =>
    have hne : ∀ depth, splitArgs depth cs ≠ [] := by
      intro depth hnil
      have htotal := total_splitArgs depth cs
      rw [hnil] at htotal
      cases htotal
    have hprepend : ∀ {pieces : List (List Char)}, pieces ≠ [] →
        [','].intercalate (prepend [c] pieces) = c :: [','].intercalate pieces := by
      intro pieces hpieces
      cases pieces with
      | nil => exact absurd rfl hpieces
      | cons piece pieces =>
        cases pieces with
        | nil => simp [prepend, List.intercalate]
        | cons next pieces => simp [prepend, List.intercalate_cons_cons]
    by_cases hc : c = ',' ∧ depth = 0
    · obtain ⟨rfl, rfl⟩ := hc
      obtain ⟨piece, pieces, hpieces⟩ := List.exists_cons_of_ne_nil (hne 0)
      rw [splitArgs, if_pos ⟨rfl, rfl⟩, hpieces, List.intercalate_cons_cons, ← hpieces, ih]
      rfl
    · have hsplit : c ≠ ',' ∨ depth ≠ 0 := by tauto
      rw [splitArgs_cons hsplit rfl, hprepend (hne _), ih]

end TypeText

/-! ## The type variables of a type -/

mutual

/-- The names of the type variables in a type. -/
def Ty.variables : Ty → List String
  | .void | .prim _ => []
  | .object _ args => Ty.variablesAll args
  | .array component => component.variables
  | .var name => [name]

def Ty.variablesAll : List Ty → List String
  | [] => []
  | ty :: tys => ty.variables ++ Ty.variablesAll tys

end

namespace TypeText

/-- How many closing brackets the names have together. -/
def strays (names : List String) : Nat := (names.flatMap String.toList).count '>'

@[simp] theorem strays_nil : strays [] = 0 := rfl

@[simp] theorem strays_singleton (name : String) : strays [name] = name.toList.count '>' := by
  simp [strays]

@[simp] theorem strays_append (xs ys : List String) :
    strays (xs ++ ys) = strays xs + strays ys := by
  simp [strays]

theorem strays_eq_zero_iff {names : List String} :
    strays names = 0 ↔ ∀ name ∈ names, '>' ∉ name.toList := by
  simp [strays, List.count_eq_zero]

end TypeText

/-! ## Reading -/

namespace ClassTable

open TypeText

/-- No class has a closing bracket in its name. -/
def NamesClosed (t : ClassTable) : Prop := ∀ info ∈ t.classes, '>' ∉ info.name.toList

instance (t : ClassTable) : Decidable t.NamesClosed :=
  List.decidableBAll (fun info : ClassInfo => '>' ∉ info.name.toList) t.classes

variable {t : ClassTable} {name : String} {text : List Char} {c : ClassId} {ty : Ty}

theorem NamesClosed.of_lookup (h : t.NamesClosed) (hc : t.lookup name = some c) :
    '>' ∉ name.toList := by
  obtain ⟨hlt, rfl, -⟩ := lookup_eq_some_iff.mp hc
  rw [ClassTable.name, info_eq_getElem hlt]
  exact h _ (List.getElem_mem hlt)

/-- A name that finds a class, be it without the package, has no closing bracket. -/
theorem NamesClosed.of_classNamed (h : t.NamesClosed) (hc : t.classNamed name = .ok c) :
    '>' ∉ name.toList := by
  have himplied : ∀ {d : ClassId},
      impliedPackages.findSome? (fun package => t.lookup (package ++ "." ++ name)) = some d →
        '>' ∉ name.toList := by
    intro d hd hmem
    obtain ⟨package, -, hpackage⟩ := List.exists_of_findSome?_eq_some hd
    refine h.of_lookup hpackage ?_
    simp [hmem]
  cases hl : t.lookup name with
  | some d => exact h.of_lookup hl
  | none =>
    by_cases hdot : name.toList.contains '.' = true
    · simp only [classNamed, hdot, if_true, hl] at hc
      cases hc
    · simp only [classNamed, hdot, hl] at hc
      split at hc
      · rename_i d hd
        exact himplied hd
      · cases hc

/-- A text without an opening bracket: what closing ones it has are those of a type variable. -/
theorem NamesClosed.tally_namedType (h : t.NamesClosed) (hopen : '<' ∉ text)
    (hty : t.namedType text = .ok ty) : Tally text (strays ty.variables) := by
  unfold namedType at hty
  split at hty
  · cases hty
  · split at hty
    · rename_i c hc
      cases hty
      have hclose := h.of_classNamed hc
      rw [String.toList_ofList] at hclose
      exact .of_plain hopen hclose
    · split at hty
      · cases hty
      · cases hty
        simpa [Ty.variables] using Tally.of_free hopen

private theorem tally_primitive {p : Primitive}
    (h : Primitive.ofName? (String.ofList text) = some p) : Tally text 0 := by
  have hname := List.find?_some h
  have htext : p.name.toList = text := by
    rw [beq_iff_eq.mp hname, String.toList_ofList]
  rw [← htext]
  refine .of_plain ?_ ?_ <;> cases p <;> decide

/-- How a text of trimmed characters came to be read. -/
inductive Reading (t : ClassTable) : List Char → Ty → Prop
  | array {component : List Char} {ty : Ty} (h : t.typeOfChars component = .ok ty) :
    Reading t (component ++ ['[', ']']) (.array ty)
  | void : Reading t ['v', 'o', 'i', 'd'] .void
  | prim {text : List Char} {p : Primitive} (h : Primitive.ofName? (String.ofList text) = some p) :
    Reading t text (.prim p)
  | named {text : List Char} {ty : Ty} (hopen : '<' ∉ text) (h : t.namedType text = .ok ty) :
    Reading t text ty
  | generic {base inner : List Char} {c : ClassId} {args : List Ty} (hopen : '<' ∉ base)
      (hc : t.classNamed (String.ofList (Text.trim base)) = .ok c)
      (h : t.typesOfChars (splitArgs 0 inner) = .ok args) :
    Reading t (base ++ '<' :: (inner ++ ['>'])) (.object c args)

theorem reading_of_typeOfTrimmed (h : t.typeOfTrimmed text = .ok ty) : Reading t text ty := by
  rw [typeOfTrimmed] at h
  split at h
  · rename_i component harray
    rw [eq_append_of_arrayOf? harray]
    cases hcomponent : t.typeOfChars component with
    | error fault => rw [hcomponent] at h; cases h
    | ok ty' => rw [hcomponent] at h; cases h; exact .array hcomponent
  · by_cases hvoid : text = ['v', 'o', 'i', 'd']
    · rw [if_pos hvoid] at h
      cases h
      rw [hvoid]
      exact .void
    · rw [if_neg hvoid] at h
      split at h
      · rename_i p hp
        cases h
        exact .prim hp
      · split at h
        · rename_i hdrop
          have hopen : ∀ c ∈ text, c ≠ '<' := by simpa using hdrop
          exact .named (fun hmem => hopen _ hmem rfl) h
        · rename_i head rest hrest
          split at h
          · cases h
          · rename_i inner hinner
            dsimp only at h
            have hopen : '<' ∉ text.takeWhile (· ≠ '<') := fun hmem => by
              simpa using List.mem_takeWhile_imp hmem
            cases hc : t.classNamed (String.ofList (Text.trim (text.takeWhile (· ≠ '<')))) with
            | error fault => rw [hc] at h; cases h
            | ok c =>
              cases hargs : t.typesOfChars (splitArgs 0 inner) with
              | error fault => rw [hc, hargs] at h; cases h
              | ok args =>
                rw [hc, hargs] at h
                cases h
                rw [eq_append_of_dropWhile hrest, eq_append_of_closed? hinner]
                exact .generic hopen hc hargs

theorem reading_of_typeOfChars (h : t.typeOfChars text = .ok ty) :
    Reading t (Text.trim text) ty := by
  rw [typeOfChars] at h
  exact reading_of_typeOfTrimmed h

theorem exists_of_typesOfChars_cons {piece : List Char} {pieces : List (List Char)} {tys : List Ty}
    (h : t.typesOfChars (piece :: pieces) = .ok tys) : ∃ ty rest, tys = ty :: rest ∧
      t.typeOfChars piece = .ok ty ∧ t.typesOfChars pieces = .ok rest := by
  rw [typesOfChars] at h
  cases hpiece : t.typeOfChars piece with
  | error fault => rw [hpiece] at h; cases h
  | ok ty =>
    cases hpieces : t.typesOfChars pieces with
    | error fault => rw [hpiece, hpieces] at h; cases h
    | ok rest =>
      rw [hpiece, hpieces] at h
      cases h
      exact ⟨ty, rest, rfl, rfl, rfl⟩

mutual

/-- The brackets of a text that is read as a type close each other, but for those in the names of
the type variables. -/
theorem NamesClosed.tally_reading (h : t.NamesClosed) : ∀ {ty : Ty} {text : List Char},
    Reading t text ty → Tally text (strays ty.variables)
  | .void, text, hr => by
    cases hr with
    | void => exact .of_plain (by decide) (by decide)
    | named hopen hnamed => exact h.tally_namedType hopen hnamed
  | .prim p, text, hr => by
    cases hr with
    | prim hp => exact tally_primitive hp
    | named hopen hnamed => exact h.tally_namedType hopen hnamed
  | .array component, text, hr => by
    cases hr with
    | array hcomponent =>
      have hinner := (h.tally_reading (reading_of_typeOfChars hcomponent)).of_trim
      exact hinner.append (.of_plain (by decide) (by decide))
    | named hopen hnamed => exact h.tally_namedType hopen hnamed
  | .var name, text, hr => by
    cases hr with
    | named hopen hnamed => exact h.tally_namedType hopen hnamed
  | .object c args, text, hr => by
    cases hr with
    | named hopen hnamed => exact h.tally_namedType hopen hnamed
    | @generic base inner _ _ hopen hc hargs =>
      have hbase : Tally base 0 := by
        have hclose := h.of_classNamed hc
        rw [String.toList_ofList] at hclose
        refine .of_trim (.of_plain (fun hmem => hopen ?_) hclose)
        exact (trim_sublist base).mem hmem
      have hinner := h.tally_intercalate hargs
      rw [intercalate_splitArgs] at hinner
      simpa [Ty.variables] using hbase.append hinner.enclose

/-- The pieces of a text are read each on its own, and their brackets are counted together. -/
theorem NamesClosed.tally_intercalate (h : t.NamesClosed) :
    ∀ {tys : List Ty} {pieces : List (List Char)}, t.typesOfChars pieces = .ok tys →
      Tally ([','].intercalate pieces) (strays (Ty.variablesAll tys))
  | tys, [], hr => by
    rw [typesOfChars] at hr
    cases hr
    exact .of_plain (by decide) (by decide)
  | tys, piece :: pieces, hr => by
    obtain ⟨ty, rest, rfl, hpiece, hpieces⟩ := exists_of_typesOfChars_cons hr
    have hfirst := (h.tally_reading (reading_of_typeOfChars hpiece)).of_trim
    have hrest := h.tally_intercalate hpieces
    cases pieces with
    | nil =>
      rw [typesOfChars] at hpieces
      cases hpieces
      simpa [Ty.variablesAll, List.intercalate] using hfirst
    | cons next pieces =>
      have hcomma : Tally [','] 0 := .of_plain (by decide) (by decide)
      rw [List.intercalate_cons_cons]
      simpa [Ty.variablesAll] using (hfirst.append hcomma).append hrest

end

/-- A text is read as a type only if each of its opening brackets is closed behind it, and it then
has as many closing brackets more as the names of the type's variables have; so brackets that are
not balanced are accepted just in those names. -/
theorem readType_balanced_iff (h : t.NamesClosed) (text : String) :
    (∀ front back, text.toList = front ++ back → back.count '>' < back.count '<' →
      ∃ fault, t.readType text = .error fault) ∧
    ∀ ty, t.readType text = .ok ty →
      text.toList.count '>' = text.toList.count '<' + strays ty.variables ∧
      (Balanced text.toList ↔ ∀ name ∈ ty.variables, '>' ∉ name.toList) := by
  have htally : ∀ {ty}, t.readType text = .ok ty → Tally text.toList (strays ty.variables) :=
    fun hty => (h.tally_reading (reading_of_typeOfChars hty)).of_trim
  constructor
  · intro front back hback hlt
    cases hread : t.readType text with
    | error fault => exact ⟨fault, rfl⟩
    | ok ty =>
      have hclosed := (htally hread).closed front back hback
      omega
  · intro ty hty
    exact ⟨(htally hty).count, (htally hty).balanced_iff.trans strays_eq_zero_iff⟩

/-- A closing bracket without an opening one, at the end of a type argument. -/
theorem typeOfChars_stray : standard.typeOfChars "java.util.List<T>>".toList =
    .ok (.object .list [.var "T>"]) := by
  have hvar : standard.typeOfChars ['T', '>'] = .ok (.var "T>") := by
    rw [typeOfChars_solid (by decide),
      typeOfTrimmed_name (by decide) (by decide) (by decide) (by decide)]
    have hsolid : Solid "T>".toList := by decide
    exact namedType_unknown hsolid (by decide) (by decide)
  have hbase : '<' ∉ "java.util.List".toList := by decide
  have hread := typeOfTrimmed_generic (t := standard) hbase ['T', '>']
  rw [typeOfChars_solid (by decide)]
  refine hread.trans ?_
  rw [show splitArgs 0 ['T', '>'] = [['T', '>']] from rfl, typesOfChars, hvar, typesOfChars]
  rfl

theorem readType_balanced_iff_stray : standard.NamesClosed ∧
    standard.readType "java.util.List<T>>" = .ok (.object .list [.var "T>"]) ∧
      (Balanced "java.util.List<T>>".toList ↔ ∀ name ∈ ["T>"], '>' ∉ name.toList) ∧
      ∃ fault, standard.readType "java.util.List<T" = .error fault := by
  have hnames : standard.NamesClosed := by decide
  refine ⟨hnames, typeOfChars_stray, ?_, ?_⟩
  · exact ((readType_balanced_iff hnames "java.util.List<T>>").2 _ typeOfChars_stray).2
  · exact (readType_balanced_iff hnames "java.util.List<T").1 "java.util.List".toList ['<', 'T']
      (by decide) (by decide)

/-- A text that is not balanced is read as a type, though no class has a bracket in its name. -/
theorem readType_unbalanced :
    (∀ info ∈ standard.classes, '<' ∉ info.name.toList ∧ '>' ∉ info.name.toList) ∧
      ¬ Balanced "java.util.List<T>>".toList ∧
      standard.readType "java.util.List<T>>" = .ok (.object .list [.var "T>"]) := by
  refine ⟨by decide, ?_, typeOfChars_stray⟩
  intro hb
  exact absurd hb.2 (by decide)

end ClassTable

end CallSite
