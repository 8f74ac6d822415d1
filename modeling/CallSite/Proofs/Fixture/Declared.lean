import CallSite.Fixture.Load
import CallSite.Proofs.ClassTable.Construction

/-!
# Declared hierarchies

What the entries of a fixture say about the links between classes: the class that a name stands
for, the superclasses and enclosing classes that are declared, and the links that each class is to
have. All of it depends on which entries there are and not on their order.
-/

namespace CallSite

namespace Fixture

open ClassTable Relation

/-! ## What a file declares -/

/-- The names of the classes in the table of a file. -/
def knownNames (entries : List ClassSource) : List String :=
  standardClasses.map ClassInfo.name ++ entries.map ClassSource.name

/-- The name of the class that a file means by `name`: a name without a dot may leave out one of
the implied packages. -/
def qualify (known : List String) (name : String) : Option String :=
  if name ∈ known then some name
  else if '.' ∈ name.toList then none
  else (impliedPackages.map (· ++ "." ++ name)).find? (· ∈ known)

/-- Some entry gives `b` as the `link` of `a`. -/
def Declares (entries : List ClassSource) (link : ClassSource → Option String) (a b : String) :
    Prop :=
  ∃ source ∈ entries, source.name = a ∧ (link source).bind (qualify (knownNames entries)) = some b

/-- The entries declare no circle of such links. -/
def Circleless (entries : List ClassSource) (link : ClassSource → Option String) : Prop :=
  ∀ a, ¬ TransGen (Declares entries link) a a

/-- The links of a class, by the names of the classes. -/
structure ClassLinks where
  superclass : Option String
  interfaces : List String
  outer : Option String
deriving DecidableEq

/-- The links of the class of this name in a table. -/
def linksIn (t : ClassTable) (name : String) : Option ClassLinks :=
  (t.lookup name).map fun c =>
    { superclass := (t.superclass? c).map t.name
      interfaces := (t.info c).interfaces.map t.name
      outer := (t.outer? c).map t.name }

/-- The links that an entry declares. -/
def ClassSource.links (known : List String) (source : ClassSource) : ClassLinks where
  superclass :=
    match source.superclass with
    | some name => qualify known name
    | none => some (if source.kind = some .enum then "java.lang.Enum" else "java.lang.Object")
  interfaces := (source.interfaces.filterMap (qualify known)).eraseDups
  outer := source.outer.bind (qualify known)

/-- The links that the class of this name has according to the file. -/
def declaredLinks (entries : List ClassSource) (name : String) : Option ClassLinks :=
  match entries.find? (·.name == name) with
  | some source => some (source.links (knownNames entries))
  | none => linksIn .standard name

/-- The names of the classes that an entry refers to. -/
def ClassSource.references (source : ClassSource) : List String :=
  source.superclass.toList ++ source.interfaces ++ source.outer.toList

/-- Entries with names of their own and without members, which refer to classes that are there. -/
structure LinksOnly (entries : List ClassSource) : Prop where
  distinct : (entries.map ClassSource.name).Nodup
  new : ∀ source ∈ entries, source.name ∉ standardClasses.map ClassInfo.name
  memberless : ∀ source ∈ entries, source.fields = [] ∧ source.methods = [] ∧
    source.properties = [] ∧ source.bridges = [] ∧ source.constants = []
  named : ∀ source ∈ entries, ∀ name ∈ source.references,
    (qualify (knownNames entries) name).isSome

/-- A file of classes only. -/
def classFile (entries : List ClassSource) : Source := ⟨entries, [], [], []⟩

/-! ## Names and numbers -/

/-- The number of the class that a file means by `name`. -/
def numberOf (known : List String) (name : String) : Option ClassId :=
  (qualify known name).bind fun qualified => (known.idxOf? qualified).map ClassId.mk

section Names

variable {t : ClassTable} {known : List String} {name : String}

theorem mem_of_qualify {qualified : String} (h : qualify known name = some qualified) :
    qualified ∈ known := by
  unfold qualify at h
  split at h
  · cases h
    assumption
  · split at h
    · cases h
    · simpa using List.find?_some h

/-- Only the set of the known names counts. -/
theorem qualify_congr {known' : List String} (h : ∀ name, name ∈ known ↔ name ∈ known') :
    qualify known = qualify known' := by
  funext name
  simp only [qualify, h]

theorem lookup_eq (ht : t.classes.map ClassInfo.name = known) (name : String) :
    t.lookup name = (known.idxOf? name).map ClassId.mk := by
  rw [← ht, List.idxOf?, List.findIdx?_map]
  rfl

theorem lookup_eq_none (ht : t.classes.map ClassInfo.name = known) (hn : name ∉ known) :
    t.lookup name = none := by
  rw [lookup_eq ht, List.idxOf?_eq_none_iff.mpr hn]
  rfl

/-- A search through names that ends at the first known one. -/
private theorem find?_bind_lookup (ht : t.classes.map ClassInfo.name = known)
    (names : List String) :
    (names.find? (· ∈ known)).bind t.lookup = names.findSome? t.lookup := by
  induction names with
  | nil => rfl
  | cons name names ih =>
    rw [List.find?_cons, List.findSome?_cons]
    by_cases hn : name ∈ known
    · obtain ⟨i, hi⟩ := Option.isSome_iff_exists.mp (List.isSome_idxOf?.mpr hn)
      have hfound : t.lookup name = some ⟨i⟩ := by rw [lookup_eq ht, hi]; rfl
      simp [hn, hfound]
    · simp [hn, lookup_eq_none ht hn, ih]

/-- A table finds the class that the file means. -/
theorem classNamed_eq (ht : t.classes.map ClassInfo.name = known) {c : ClassId}
    (hc : numberOf known name = some c) : classNamed t name = .ok c := by
  have hfound : (if name.toList.contains '.' then t.lookup name
      else t.lookup name <|> impliedPackages.findSome? fun package =>
        t.lookup (package ++ "." ++ name)) = (qualify known name).bind t.lookup := by
    unfold qualify
    by_cases hn : name ∈ known
    · obtain ⟨i, hi⟩ := Option.isSome_iff_exists.mp (List.isSome_idxOf?.mpr hn)
      have hname : t.lookup name = some ⟨i⟩ := by rw [lookup_eq ht, hi]; rfl
      simp [hn, hname]
    · have hnone := lookup_eq_none ht hn
      have hpackages := find?_bind_lookup ht (impliedPackages.map (· ++ "." ++ name))
      rw [List.findSome?_map] at hpackages
      by_cases hdot : '.' ∈ name.toList
      · simp [hn, hdot, hnone]
      · rw [if_neg hn, if_neg hdot, hpackages, hnone]
        simp [hdot]
        rfl
  have hclass : (qualify known name).bind t.lookup = some c := by
    rw [funext (lookup_eq ht)]
    exact hc
  unfold classNamed ClassTable.classNamed
  dsimp only
  rw [hfound, hclass]
  rfl

/-- The class that a name means has the qualified name. -/
theorem map_name_numberOf (ht : t.classes.map ClassInfo.name = known) (name : String) :
    (numberOf known name).map t.name = qualify known name := by
  unfold numberOf
  cases hq : qualify known name with
  | none => rfl
  | some qualified =>
    obtain ⟨i, hi⟩ := Option.isSome_iff_exists.mp (List.isSome_idxOf?.mpr (mem_of_qualify hq))
    have hfound : t.lookup qualified = some ⟨i⟩ := by rw [lookup_eq ht, hi]; rfl
    rw [Option.bind_some, hi]
    exact congrArg some (lookup_eq_some_iff.mp hfound).2.1

theorem map_name_bind (ht : t.classes.map ClassInfo.name = known) (link : Option String) :
    (link.bind (numberOf known)).map t.name = link.bind (qualify known) := by
  cases link with
  | none => rfl
  | some name => exact map_name_numberOf ht name

theorem exists_numberOf (h : (qualify known name).isSome) :
    ∃ c, numberOf known name = some c := by
  obtain ⟨qualified, hq⟩ := Option.isSome_iff_exists.mp h
  obtain ⟨i, hi⟩ := Option.isSome_iff_exists.mp (List.isSome_idxOf?.mpr (mem_of_qualify hq))
  exact ⟨⟨i⟩, by simp [numberOf, hq, hi]⟩

theorem lt_of_numberOf {c : ClassId} (h : numberOf known name = some c) :
    c.index < known.length := by
  obtain ⟨qualified, -, h⟩ := Option.bind_eq_some_iff.mp h
  obtain ⟨i, hi, rfl⟩ := Option.map_eq_some_iff.mp h
  exact (List.idxOf?_eq_some_iff.mp hi).1

end Names

/-! ## The order of the entries -/

/-- The entry of a name is found. -/
private theorem LinksOnly.find?_name_iff {entries : List ClassSource} (h : LinksOnly entries)
    {name : String} {source : ClassSource} :
    entries.find? (·.name == name) = some source ↔ source ∈ entries ∧ source.name = name := by
  constructor
  · exact fun hs => ⟨List.mem_of_find?_eq_some hs, by simpa using List.find?_some hs⟩
  · rintro ⟨hin, rfl⟩
    cases hs : entries.find? (·.name == source.name) with
    | none => simpa using List.find?_eq_none.mp hs source hin
    | some found =>
      have hname : found.name = source.name := by simpa using List.find?_some hs
      exact congrArg some
        (List.inj_on_of_nodup_map h.distinct (List.mem_of_find?_eq_some hs) hin hname)

section Order

variable {entries entries' : List ClassSource} (hp : entries.Perm entries')

include hp

theorem qualify_perm : qualify (knownNames entries') = qualify (knownNames entries) :=
  qualify_congr fun _ => ((List.Perm.append_left _ (hp.map _)).mem_iff).symm

theorem Circleless.perm (link : ClassSource → Option String) :
    Circleless entries' link ↔ Circleless entries link := by
  have hsame : Declares entries' link = Declares entries link := by
    funext a b
    unfold Declares
    rw [qualify_perm hp]
    simp only [hp.mem_iff]
  unfold Circleless
  rw [hsame]

theorem LinksOnly.perm (h : LinksOnly entries) : LinksOnly entries' where
  distinct := (hp.map _).nodup_iff.mp h.distinct
  new source hs := h.new source (hp.mem_iff.mpr hs)
  memberless source hs := h.memberless source (hp.mem_iff.mpr hs)
  named source hs name hn := by
    rw [qualify_perm hp]
    exact h.named source (hp.mem_iff.mpr hs) name hn

/-- Both orders find the same entry under a name. -/
private theorem find?_name_perm (h : LinksOnly entries) (name : String) :
    entries'.find? (·.name == name) = entries.find? (·.name == name) := by
  refine Option.ext fun source => ?_
  rw [(h.perm hp).find?_name_iff, h.find?_name_iff, hp.mem_iff]

theorem declaredLinks_perm (h : LinksOnly entries) :
    declaredLinks entries' = declaredLinks entries := by
  funext name
  unfold declaredLinks ClassSource.links
  rw [find?_name_perm hp h, qualify_perm hp]

end Order

end Fixture

end CallSite
