import CallSite.Proofs.ClassTable.Construction
import CallSite.TypeText

/-!
# Types that are written and read

The text of a type is read as that type. Suffixes are taken off the end of a text and the base class
off its front, so that what was written around a type is found again at its two ends; between the
outermost angle brackets of a type, the commas of its arguments are the only ones that stand in no
further brackets.
-/

namespace CallSite

namespace TypeText

/-- The characters that the text of a type has besides names. -/
def delimiters : List Char := ['<', '>', ',', '[', ']']

/-- There is a first and a last character, and neither is blank. -/
structure Solid (cs : List Char) : Prop where
  first : ∃ c, cs.head? = some c ∧ Text.isBlank c = false
  last : ∃ c, cs.getLast? = some c ∧ Text.isBlank c = false

/-- No character of the text is one that stands between names. -/
def Undelimited (cs : List Char) : Prop := ∀ c ∈ delimiters, c ∉ cs

instance (cs : List Char) : Decidable (Undelimited cs) :=
  List.decidableBAll (fun c => c ∉ cs) delimiters

/-- A name that can be told from what stands around it and from the names of the other types. -/
structure PlainName (name : String) : Prop where
  solid : Solid name.toList
  free : Undelimited name.toList
  not_void : name ≠ "void"
  not_primitive : ∀ p ∈ Primitive.all, p.name ≠ name

instance (cs : List Char) : Decidable (Solid cs) :=
  have hany : ∀ o : Option Char,
      o.any (!Text.isBlank ·) = true ↔ ∃ c, o = some c ∧ Text.isBlank c = false := by
    intro o
    cases o <;> simp
  decidable_of_iff (cs.head?.any (!Text.isBlank ·) = true ∧ cs.getLast?.any (!Text.isBlank ·) = true)
    ⟨fun h => ⟨(hany _).mp h.1, (hany _).mp h.2⟩, fun h => ⟨(hany _).mpr h.1, (hany _).mpr h.2⟩⟩

instance (name : String) : Decidable (PlainName name) :=
  decidable_of_iff (Solid name.toList ∧ Undelimited name.toList ∧ name ≠ "void" ∧
      ∀ p ∈ Primitive.all, p.name ≠ name)
    ⟨fun h => ⟨h.1, h.2.1, h.2.2.1, h.2.2.2⟩, fun h => ⟨h.1, h.2, h.3, h.4⟩⟩

/-! ## Ends of a text -/

theorem Solid.append {xs ys : List Char} (hx : Solid xs) (hy : Solid ys) : Solid (xs ++ ys) := by
  obtain ⟨c, hc, hfirst⟩ := hx.first
  obtain ⟨d, hd, hlast⟩ := hy.last
  refine ⟨⟨c, ?_, hfirst⟩, ⟨d, ?_, hlast⟩⟩
  · rw [List.head?_append, hc]
    rfl
  · rw [List.getLast?_append, hd]
    rfl

private theorem dropWhile_eq_self {p : Char → Bool} {cs : List Char} {c : Char}
    (hc : cs.head? = some c) (hp : p c = false) : cs.dropWhile p = cs := by
  obtain ⟨rest, rfl⟩ := List.head?_eq_some_iff.mp hc
  exact List.dropWhile_cons_of_neg (by rw [hp]; exact Bool.false_ne_true)

theorem Solid.not_isEmpty {cs : List Char} (h : Solid cs) : cs.isEmpty = false := by
  obtain ⟨c, hc, -⟩ := h.first
  obtain ⟨rest, rfl⟩ := List.head?_eq_some_iff.mp hc
  rfl

theorem Solid.trim {cs : List Char} (h : Solid cs) : Text.trim cs = cs := by
  obtain ⟨c, hc, hfirst⟩ := h.first
  obtain ⟨d, hd, hlast⟩ := h.last
  unfold Text.trim
  rw [dropWhile_eq_self hc hfirst,
    dropWhile_eq_self (List.head?_reverse.trans hd) hlast, List.reverse_reverse]

theorem trim_space (cs : List Char) : Text.trim (' ' :: cs) = Text.trim cs := by
  have hblank : Text.isBlank ' ' = true := by decide
  unfold Text.trim
  rw [List.dropWhile_cons_of_pos hblank]

theorem arrayOf?_append (cs : List Char) : arrayOf? (cs ++ ['[', ']']) = some cs := by
  unfold arrayOf?
  rw [List.reverse_append]
  exact congrArg some cs.reverse_reverse

theorem arrayOf?_eq_none {cs : List Char} (h : cs.getLast? ≠ some ']') : arrayOf? cs = none := by
  unfold arrayOf?
  split
  · rename_i rest hrest
    rw [List.getLast?_eq_head?_reverse, hrest] at h
    exact absurd rfl h
  · rfl

theorem closed?_append (cs : List Char) : closed? (cs ++ ['>']) = some cs := by
  unfold closed?
  rw [List.reverse_append]
  exact congrArg some cs.reverse_reverse

/-! ## Commas between brackets -/

/-- The pieces with more characters at the front of the first. -/
def prepend (cs : List Char) : List (List Char) → List (List Char)
  | [] => [cs]
  | piece :: pieces => (cs ++ piece) :: pieces

theorem prepend_prepend (xs ys : List Char) (pieces : List (List Char)) :
    prepend xs (prepend ys pieces) = prepend (xs ++ ys) pieces := by
  cases pieces with
  | nil => rfl
  | cons piece pieces => simp only [prepend, List.append_assoc]

theorem splitArgs_cons {depth depth' : Nat} {c : Char} (hc : c ≠ ',' ∨ depth ≠ 0)
    (hd : (if c = '<' then depth + 1 else if c = '>' then depth - 1 else depth) = depth')
    (rest : List Char) : splitArgs depth (c :: rest) = prepend [c] (splitArgs depth' rest) := by
  have hsplit : ¬ (c = ',' ∧ depth = 0) := fun h => hc.elim (· h.1) (· h.2)
  rw [splitArgs, if_neg hsplit]
  subst hd
  dsimp only
  cases splitArgs (if c = '<' then depth + 1 else if c = '>' then depth - 1 else depth) rest <;> rfl

/-- The characters of a name belong to the piece they stand in. -/
theorem splitArgs_free {cs : List Char} (h : Undelimited cs) (depth : Nat) (rest : List Char) :
    splitArgs depth (cs ++ rest) = prepend cs (splitArgs depth rest) := by
  induction cs with
  | nil =>
    have htotal := total_splitArgs depth rest
    show splitArgs depth rest = prepend [] (splitArgs depth rest)
    cases hs : splitArgs depth rest with
    | nil =>
      rw [hs] at htotal
      cases htotal
    | cons piece pieces => rfl
  | cons c cs ih =>
    have hne : ∀ d ∈ delimiters, c ≠ d := fun d hd he => h d hd (he ▸ List.mem_cons_self)
    have hdepth : (if c = '<' then depth + 1 else if c = '>' then depth - 1 else depth) = depth := by
      rw [if_neg (hne '<' (by decide)), if_neg (hne '>' (by decide))]
    rw [List.cons_append, splitArgs_cons (.inl (hne ',' (by decide))) hdepth,
      ih fun d hd hmem => h d hd (List.mem_cons_of_mem c hmem), prepend_prepend]
    rfl

end TypeText

namespace ClassTable

open TypeText

/-- No class of the table goes by this name, be it qualified or in an implied package. -/
def Unknown (t : ClassTable) (name : String) : Prop :=
  t.lookup name = none ∧ ∀ package ∈ impliedPackages, t.lookup (package ++ "." ++ name) = none

instance (t : ClassTable) (name : String) : Decidable (t.Unknown name) :=
  inferInstanceAs (Decidable (_ ∧ _))

mutual

/-- The classes of the type have plain names, and so have its variables, which stand for no class
and are not qualified. -/
def WellNamed (t : ClassTable) : Ty → Prop
  | .void | .prim _ => True
  | .object c args => PlainName (t.name c) ∧ WellNamedAll t args
  | .array component => WellNamed t component
  | .var name => PlainName name ∧ '.' ∉ name.toList ∧ t.Unknown name

def WellNamedAll (t : ClassTable) : List Ty → Prop
  | [] => True
  | ty :: tys => WellNamed t ty ∧ WellNamedAll t tys

end

variable {t : ClassTable}

/-! ## The text of a type -/

theorem typeChars_solid : ∀ {ty : Ty}, t.WellNamed ty → Solid (t.typeChars ty)
  | .void, _ => ⟨⟨'v', rfl, by decide⟩, ⟨'d', rfl, by decide⟩⟩
  | .prim p, _ => by
    cases p <;> exact ⟨⟨_, rfl, by decide⟩, ⟨_, rfl, by decide⟩⟩
  | .object c [], h => by
    rw [typeChars]
    exact h.1.solid
  | .object c (arg :: args), h => by
    rw [typeChars, List.append_assoc]
    have hlast : (('<' :: (t.typeChars arg ++ t.moreTypeChars args)) ++ ['>']).getLast? = some '>' := by
      rw [List.getLast?_append]
      rfl
    exact h.1.solid.append ⟨⟨'<', rfl, by decide⟩, ⟨'>', hlast, by decide⟩⟩
  | .array component, h => by
    have hcomponent : t.WellNamed component := h
    rw [typeChars]
    exact (typeChars_solid hcomponent).append ⟨⟨'[', rfl, by decide⟩, ⟨']', rfl, by decide⟩⟩
  | .var name, h => by
    rw [typeChars]
    exact h.1.solid

mutual

/-- No comma of a type stands outside of its own brackets. -/
theorem splitArgs_typeChars : ∀ {ty : Ty}, t.WellNamed ty → ∀ (depth : Nat) (rest : List Char),
    splitArgs depth (t.typeChars ty ++ rest) = prepend (t.typeChars ty) (splitArgs depth rest)
  | .void, _, depth, rest => by
    rw [typeChars]
    exact splitArgs_free (by decide) depth rest
  | .prim p, _, depth, rest => by
    rw [typeChars]
    exact splitArgs_free (by cases p <;> decide) depth rest
  | .object c [], h, depth, rest => by
    rw [typeChars]
    exact splitArgs_free h.1.free depth rest
  | .object c (arg :: args), h, depth, rest => by
    have hopen : ∀ rest, splitArgs depth ('<' :: rest) = prepend ['<'] (splitArgs (depth + 1) rest) :=
      splitArgs_cons (.inl (by decide)) rfl
    have hclose : ∀ rest, splitArgs (depth + 1) ('>' :: rest) = prepend ['>'] (splitArgs depth rest) :=
      splitArgs_cons (.inl (by decide)) rfl
    simp only [typeChars, List.append_assoc, List.cons_append, List.nil_append]
    have harg : t.WellNamed arg := h.2.1
    rw [splitArgs_free h.1.free, hopen, splitArgs_typeChars harg,
      splitArgs_moreTypeChars h.2.2, hclose]
    simp only [prepend_prepend, List.cons_append, List.nil_append]
  | .array component, h, depth, rest => by
    have hopen : ∀ rest, splitArgs depth ('[' :: rest) = prepend ['['] (splitArgs depth rest) :=
      splitArgs_cons (.inl (by decide)) rfl
    have hclose : ∀ rest, splitArgs depth (']' :: rest) = prepend [']'] (splitArgs depth rest) :=
      splitArgs_cons (.inl (by decide)) rfl
    have hcomponent : t.WellNamed component := h
    rw [typeChars, List.append_assoc, splitArgs_typeChars hcomponent]
    simp only [List.cons_append, List.nil_append, hopen, hclose, prepend_prepend]
  | .var name, h, depth, rest => by
    rw [typeChars]
    exact splitArgs_free h.1.free depth rest

/-- Inside brackets the commas between type arguments do not count. -/
theorem splitArgs_moreTypeChars : ∀ {args : List Ty}, t.WellNamedAll args →
    ∀ (depth : Nat) (rest : List Char), splitArgs (depth + 1) (t.moreTypeChars args ++ rest) =
      prepend (t.moreTypeChars args) (splitArgs (depth + 1) rest)
  | [], _, depth, rest => by
    rw [moreTypeChars]
    exact splitArgs_free (by decide) (depth + 1) rest
  | arg :: args, h, depth, rest => by
    have hcomma : ∀ rest, splitArgs (depth + 1) (',' :: rest) =
        prepend [','] (splitArgs (depth + 1) rest) := splitArgs_cons (.inr depth.succ_ne_zero) rfl
    have hspace : ∀ rest, splitArgs (depth + 1) (' ' :: rest) =
        prepend [' '] (splitArgs (depth + 1) rest) := splitArgs_cons (.inl (by decide)) rfl
    simp only [moreTypeChars, List.cons_append, List.append_assoc]
    have harg : t.WellNamed arg := h.1
    rw [hcomma, hspace, splitArgs_typeChars harg, splitArgs_moreTypeChars h.2]
    simp only [prepend_prepend, List.cons_append, List.nil_append]

end

/-- Outside of all brackets every comma starts a new piece. -/
theorem splitArgs_typeArgs {args : List Ty} (h : t.WellNamedAll args) :
    splitArgs 0 (t.moreTypeChars args) = [] :: args.map fun arg => ' ' :: t.typeChars arg := by
  induction args with
  | nil => rfl
  | cons arg args ih =>
    have hspace : ∀ rest, splitArgs 0 (' ' :: rest) = prepend [' '] (splitArgs 0 rest) :=
      splitArgs_cons (.inl (by decide)) rfl
    rw [moreTypeChars, splitArgs, if_pos ⟨rfl, rfl⟩, hspace, splitArgs_typeChars h.1, ih h.2]
    simp only [prepend, List.append_nil, List.singleton_append, List.map_cons]

/-! ## Reading -/

theorem typeOfTrimmed_array (t : ClassTable) (component : List Char) :
    t.typeOfTrimmed (component ++ ['[', ']']) = (t.typeOfChars component).map .array := by
  rw [typeOfTrimmed]
  split
  · rename_i found hfound
    rw [arrayOf?_append] at hfound
    cases hfound
    rfl
  · rename_i hnone
    rw [arrayOf?_append] at hnone
    cases hnone

private theorem all_ne_of_notMem {cs : List Char} (h : '<' ∉ cs) :
    ∀ c ∈ cs, decide (c ≠ '<') = true :=
  fun _ hc => decide_eq_true fun he => h (he ▸ hc)

/-- A text without brackets that is not the name of a built-in type is the name of another one. -/
theorem typeOfTrimmed_name {cs : List Char} (ha : arrayOf? cs = none)
    (hvoid : cs ≠ ['v', 'o', 'i', 'd']) (hp : Primitive.ofName? (String.ofList cs) = none)
    (hplain : '<' ∉ cs) : t.typeOfTrimmed cs = t.namedType cs := by
  have hdrop : cs.dropWhile (· ≠ '<') = [] := by
    rw [← List.append_nil cs, List.dropWhile_append_of_pos (all_ne_of_notMem hplain)]
    rfl
  rw [typeOfTrimmed]
  split
  · rename_i found hfound
    rw [ha] at hfound
    cases hfound
  · rw [if_neg hvoid, hp]
    dsimp only
    split
    · rfl
    · rename_i head rest hrest
      rw [hdrop] at hrest
      cases hrest

/-- The names of the built-in types have no brackets. -/
private theorem ofName?_eq_none {cs : List Char} (h : '<' ∈ cs) :
    Primitive.ofName? (String.ofList cs) = none := by
  unfold Primitive.ofName?
  rw [List.find?_eq_none]
  intro p _ he
  have hname : p.name.toList = cs := by
    rw [beq_iff_eq.mp he, String.toList_ofList]
  rw [← hname] at h
  cases p <;> exact absurd h (by decide)

/-- The arguments of a class stand between its name and the last character. -/
theorem typeOfTrimmed_generic {base : List Char} (hbase : '<' ∉ base) (inner : List Char) :
    t.typeOfTrimmed (base ++ '<' :: (inner ++ ['>'])) = (do
      let c ← t.classNamed (String.ofList (Text.trim base))
      return .object c (← t.typesOfChars (splitArgs 0 inner))) := by
  have hmem : '<' ∈ base ++ '<' :: (inner ++ ['>']) :=
    List.mem_append_right _ List.mem_cons_self
  have hlast : (base ++ '<' :: (inner ++ ['>'])).getLast? = some '>' := by
    rw [← List.cons_append, ← List.append_assoc, List.getLast?_concat]
  have ha : arrayOf? (base ++ '<' :: (inner ++ ['>'])) = none :=
    arrayOf?_eq_none (by rw [hlast]; decide)
  have hvoid : base ++ '<' :: (inner ++ ['>']) ≠ ['v', 'o', 'i', 'd'] := by
    intro he
    rw [he] at hmem
    exact absurd hmem (by decide)
  have hdrop : (base ++ '<' :: (inner ++ ['>'])).dropWhile (· ≠ '<') = '<' :: (inner ++ ['>']) := by
    rw [List.dropWhile_append_of_pos (all_ne_of_notMem hbase)]
    rfl
  have htake : (base ++ '<' :: (inner ++ ['>'])).takeWhile (· ≠ '<') = base := by
    rw [List.takeWhile_append_of_pos (all_ne_of_notMem hbase)]
    exact List.append_nil base
  rw [typeOfTrimmed]
  split
  · rename_i found hfound
    rw [ha] at hfound
    cases hfound
  · rw [if_neg hvoid, ofName?_eq_none hmem]
    dsimp only
    split
    · rename_i hnil
      rw [hdrop] at hnil
      cases hnil
    · rename_i head rest hrest
      rw [hdrop] at hrest
      cases hrest
      split
      · rename_i hnone
        rw [closed?_append] at hnone
        cases hnone
      · rename_i found hfound
        rw [closed?_append] at hfound
        cases hfound
        rw [htake]

/-! ## Names of classes and of variables -/

/-- A class with a name is in the table. -/
theorem index_lt_of_name {c : ClassId} (h : Solid (t.name c).toList) : c.index < t.size := by
  refine Nat.lt_of_not_le fun hle => ?_
  obtain ⟨first, hfirst, -⟩ := h.first
  rw [ClassTable.name, info_of_le hle] at hfirst
  cases hfirst

theorem classNamed_name (ht : t.Constructed) {c : ClassId} (hc : c.index < t.size) :
    t.classNamed (t.name c) = .ok c := by
  unfold classNamed
  rw [ht.consistent.names.lookup_name hc]
  split <;> rfl

theorem classNamed_unknown {name : String} (h : t.Unknown name) :
    t.classNamed name = .error (.unknownClass name) := by
  have himplied : impliedPackages.findSome?
      (fun package => t.lookup (package ++ "." ++ name)) = none := by
    rw [List.findSome?_eq_none_iff]
    exact h.2
  unfold classNamed
  rw [h.1, himplied]
  split <;> rfl

theorem namedType_name (ht : t.Constructed) {c : ClassId} (h : Solid (t.name c).toList) :
    t.namedType (t.name c).toList = .ok (.ofClass c) := by
  unfold namedType
  rw [h.not_isEmpty, String.ofList_toList, classNamed_name ht (index_lt_of_name h)]
  rfl

theorem namedType_unknown {name : String} (hsolid : Solid name.toList) (hdot : '.' ∉ name.toList)
    (h : t.Unknown name) : t.namedType name.toList = .ok (.var name) := by
  have hcontains : name.toList.contains '.' = false := by
    rw [List.contains_eq_mem, decide_eq_false_iff_not]
    exact hdot
  unfold namedType
  rw [hsolid.not_isEmpty, String.ofList_toList, classNamed_unknown h, hcontains]
  rfl

/-- A plain name is read as one. -/
theorem typeOfTrimmed_plain {name : String} (h : PlainName name) :
    t.typeOfTrimmed name.toList = t.namedType name.toList := by
  refine typeOfTrimmed_name (arrayOf?_eq_none fun hlast => ?_) (fun hvoid => ?_) ?_
    (h.free '<' (by decide))
  · exact h.free ']' (by decide) (List.mem_of_getLast? hlast)
  · exact h.not_void (String.toList_injective hvoid)
  · rw [String.ofList_toList]
    unfold Primitive.ofName?
    rw [List.find?_eq_none]
    exact fun p hp he => h.not_primitive p hp (beq_iff_eq.mp he)

/-! ## The round trip -/

/-- The blanks around a type do not matter. -/
theorem typeOfChars_solid {cs : List Char} (h : Solid cs) :
    t.typeOfChars cs = t.typeOfTrimmed cs := by
  rw [typeOfChars, h.trim]

mutual

theorem typeOfTrimmed_typeChars (ht : t.Constructed) : ∀ {ty : Ty}, t.WellNamed ty →
    t.typeOfTrimmed (t.typeChars ty) = .ok ty
  | .void, _ => by
    rw [typeChars, typeOfTrimmed]
    rfl
  | .prim p, _ => by
    cases p <;> (rw [typeChars, typeOfTrimmed]; rfl)
  | .object c [], h => by
    rw [typeChars, typeOfTrimmed_plain h.1]
    exact namedType_name ht h.1.solid
  | .object c (arg :: args), h => by
    have hsplit : splitArgs 0 (t.typeChars arg ++ t.moreTypeChars args) =
        t.typeChars arg :: args.map fun arg => ' ' :: t.typeChars arg := by
      rw [splitArgs_typeChars h.2.1, splitArgs_typeArgs h.2.2]
      simp only [prepend, List.append_nil]
    have harg : t.typeOfChars (t.typeChars arg) = .ok arg := by
      rw [typeOfChars_solid (typeChars_solid h.2.1), typeOfTrimmed_typeChars ht h.2.1]
    simp only [typeChars, List.append_assoc, List.cons_append]
    rw [← List.append_assoc, typeOfTrimmed_generic (h.1.free '<' (by decide)), h.1.solid.trim,
      String.ofList_toList, classNamed_name ht (index_lt_of_name h.1.solid), hsplit, typesOfChars,
      harg, typesOfChars_typeArgs ht h.2.2]
    rfl
  | .array component, h => by
    have hcomponent : t.WellNamed component := h
    rw [typeChars, typeOfTrimmed_array, typeOfChars_solid (typeChars_solid hcomponent),
      typeOfTrimmed_typeChars ht hcomponent]
    rfl
  | .var name, h => by
    rw [typeChars, typeOfTrimmed_plain h.1]
    exact namedType_unknown h.1.solid h.2.1 h.2.2

theorem typesOfChars_typeArgs (ht : t.Constructed) : ∀ {args : List Ty}, t.WellNamedAll args →
    t.typesOfChars (args.map fun arg => ' ' :: t.typeChars arg) = .ok args
  | [], _ => by
    rw [List.map_nil, typesOfChars]
  | arg :: args, h => by
    have harg : t.typeOfChars (' ' :: t.typeChars arg) = .ok arg := by
      rw [typeOfChars, trim_space, (typeChars_solid h.1).trim, typeOfTrimmed_typeChars ht h.1]
    rw [List.map_cons, typesOfChars, harg, typesOfChars_typeArgs ht h.2]
    rfl

end

/-- Reading undoes describing: whatever classes, variables, arrays and type arguments a type is made
of, its text is read as that type, if its classes have plain names and its variables have plain names
that no class goes by. -/
theorem readType_describe (t : ClassTable) (ty : Ty) (ht : t.Constructed) (h : t.WellNamed ty) :
    t.readType (t.describe ty) = .ok ty := by
  unfold readType describe
  rw [String.toList_ofList, typeOfChars_solid (typeChars_solid h), typeOfTrimmed_typeChars ht h]

/-- Arrays of shelves, by what `K` keeps of the arrays on them. -/
def shelves : Ty :=
  .array (.object .map [.array (.object ⟨24⟩ [.var "K"]), .object .list [.array .int]])

theorem readType_describe_shelves :
    let t := standard.runAll [.declare "p.Shelf" .cls]
    (t.Constructed ∧ t.WellNamed shelves) ∧
      t.readType "java.util.Map<p.Shelf<K>[], java.util.List<int[]>>[]" = .ok shelves := by
  intro t
  have ht : t.Constructed := ⟨[.declare "p.Shelf" .cls], by decide, rfl⟩
  have hmap : PlainName (t.name .map) := by decide
  have hshelf : PlainName (t.name ⟨24⟩) := by decide
  have hlist : PlainName (t.name .list) := by decide
  have hnames : t.WellNamed shelves :=
    ⟨hmap, ⟨hshelf, ⟨by decide, by decide, by decide⟩, trivial⟩, ⟨hlist, trivial, trivial⟩, trivial⟩
  have htext : t.describe shelves = "java.util.Map<p.Shelf<K>[], java.util.List<int[]>>[]" := by
    decide
  exact ⟨⟨ht, hnames⟩, htext ▸ readType_describe t shelves ht hnames⟩

end ClassTable

end CallSite
