import CallSite.Proofs.ClassTable.Construction
import CallSite.Proofs.Selection.Source

/-!
# Inherited getters

The rule for getters goes up the superclasses one by one, and on each of them asks for a method that
this class or any class above it declares. A class that declares nothing of the member therefore
comes upon all methods from its superclass on before it comes upon the first property. A property
hides the methods from the class that declares it, but not from the classes below.
-/

namespace CallSite

namespace ClassTable

/-- The class declares no property of this name, and no method that is called as its getters are. -/
structure Silent (t : ClassTable) (member : String) (c : ClassId) : Prop where
  property : t.property? c member = none
  get : ∀ m ∈ (t.info c).methods, m.name ≠ "get" ++ Text.capitalize member
  is : ∀ m ∈ (t.info c).methods, m.name ≠ "is" ++ Text.capitalize member

instance (t : ClassTable) (member : String) (c : ClassId) : Decidable (t.Silent member c) :=
  decidable_of_iff (t.property? c member = none ∧
      (∀ m ∈ (t.info c).methods, m.name ≠ "get" ++ Text.capitalize member) ∧
      ∀ m ∈ (t.info c).methods, m.name ≠ "is" ++ Text.capitalize member)
    ⟨fun h => ⟨h.1, h.2.1, h.2.2⟩, fun h => ⟨h.property, h.get, h.is⟩⟩

/-- The class `c` says nothing of the member, and `d` is its superclass. -/
def Inherits (t : ClassTable) (member : String) (c d : ClassId) : Prop :=
  t.superclass? c = some d ∧ t.Silent member c

variable {t : ClassTable} {q : Query} {c d : ClassId}

/-! ## Methods -/

theorem getter?_of_undeclared (h : t.Linked) (hd : t.superclass? c = some d) {name : String}
    (hname : ∀ m ∈ (t.info c).methods, m.name ≠ name) : t.getter? c name = t.getter? d name := by
  have hnone : (t.info c).methods.find? (isGetter name) = none := by
    refine List.find?_eq_none.mpr fun m hm hg => hname m hm ?_
    simp only [isGetter, Bool.and_eq_true, beq_iff_eq] at hg
    exact hg.1.1.1
  unfold getter?
  rw [h.superclasses_link hd, List.findSome?_cons, hnone]

/-- A class finds the methods of the class that it inherits the member from. -/
theorem declaredGetter?_of_inherits (ht : t.Linked)
    (h : Relation.ReflTransGen (t.Inherits q.member) c d) :
    Rule.declaredGetter? t q c = Rule.declaredGetter? t q d := by
  induction h using Relation.ReflTransGen.head_induction_on with
  | refl => rfl
  | head hlink _ ih =>
    obtain ⟨hd, hsilent⟩ := hlink
    rw [← ih]
    unfold Rule.declaredGetter?
    rw [getter?_of_undeclared ht hd hsilent.get, getter?_of_undeclared ht hd hsilent.is]

/-! ## Methods and properties -/

/-- On each class a property comes first, then the methods of the class and those above it. -/
theorem getterAlong_cons (hliteral : q.literal = none) (cs : List ClassId) :
    Rule.getterAlong t q (c :: cs) = ((t.property? c q.member).map (Rule.propertyGetter c) <|>
      Rule.declaredGetter? t q c <|> Rule.getterAlong t q cs) := by
  have hallowed : ¬ ((Rule.declaredGetter? t q c).any (fun m => !m.isStatic) && q.literal.isSome &&
      decide (c ≠ .cls)) = true := by
    rw [hliteral, Option.isSome_none, Bool.and_false, Bool.false_and]
    exact Bool.false_ne_true
  rw [Rule.getterAlong]
  simp only [if_neg hallowed]
  cases t.property? c q.member <;> rfl

theorem getterOn_of_property (hsize : 0 < t.size) (hliteral : q.literal = none) {p : Property}
    (hp : t.property? c q.member = some p) :
    Rule.getterOn t q c = some (Rule.propertyGetter c p) := by
  obtain ⟨above, habove⟩ : ∃ above, t.superclasses c = c :: above := exists_chain_cons hsize c
  unfold Rule.getterOn
  rw [habove, getterAlong_cons hliteral, hp]
  rfl

/-- Where a class declares no such property, a method comes first. -/
theorem declaredGetter?_orElse_getterOn (hsize : 0 < t.size) (hliteral : q.literal = none)
    (hp : t.property? c q.member = none) :
    (Rule.declaredGetter? t q c <|> Rule.getterOn t q c) = Rule.getterOn t q c := by
  obtain ⟨above, habove⟩ : ∃ above, t.superclasses c = c :: above := exists_chain_cons hsize c
  unfold Rule.getterOn
  rw [habove, getterAlong_cons hliteral, hp]
  cases Rule.declaredGetter? t q c <;> rfl

/-- From a class that says nothing of the member, the methods of its superclass come before all that
the superclass itself would find. -/
theorem getterOn_of_link (ht : t.Linked) (hliteral : q.literal = none)
    (h : t.Inherits q.member c d) :
    Rule.getterOn t q c = (Rule.declaredGetter? t q d <|> Rule.getterOn t q d) := by
  have hmethods := declaredGetter?_of_inherits ht (.single h)
  obtain ⟨hd, hsilent⟩ := h
  unfold Rule.getterOn
  rw [ht.superclasses_link hd, getterAlong_cons hliteral, hsilent.property, hmethods]
  rfl

/-- The same holds for every number of such classes, one above the other. -/
theorem getterOn_of_inherits (ht : t.Linked) (hliteral : q.literal = none)
    (h : Relation.TransGen (t.Inherits q.member) c d) :
    Rule.getterOn t q c = (Rule.declaredGetter? t q d <|> Rule.getterOn t q d) := by
  induction h using Relation.TransGen.head_induction_on with
  | single hlink => exact getterOn_of_link ht hliteral hlink
  | head hlink hrest ih =>
    rw [getterOn_of_link ht hliteral hlink, ih,
      declaredGetter?_of_inherits ht hrest.to_reflTransGen]
    cases Rule.declaredGetter? t q d <;> rfl

/-- A class that declares neither the member as a property nor a method called as its getters are
finds the same getter as its superclass, and so as the nearest class above that declares any of
these. There is one exception: if that class declares the property, and it or a class above it has a
getter of the member among its methods, then the property decides for the class that declares it,
and the method for the classes below. -/
theorem getterOn_inherited (ht : t.Constructed) (hliteral : q.literal = none)
    (h : Relation.TransGen (t.Inherits q.member) c d) :
    (Rule.getterOn t q c = Rule.getterOn t q d ↔ ∀ p m, t.property? d q.member = some p →
      Rule.declaredGetter? t q d = some m → m = Rule.propertyGetter d p) ∧
    ∀ p m, t.property? d q.member = some p → Rule.declaredGetter? t q d = some m →
      Rule.getterOn t q c = some m ∧ Rule.getterOn t q d = some (Rule.propertyGetter d p) := by
  have hsize := ht.built.size_pos
  have hc := getterOn_of_inherits ht.consistent.linked hliteral h
  cases hp : t.property? d q.member with
  | none =>
    have hsame : Rule.getterOn t q c = Rule.getterOn t q d :=
      hc.trans (declaredGetter?_orElse_getterOn hsize hliteral hp)
    exact ⟨⟨fun _ => nofun, fun _ => hsame⟩, nofun⟩
  | some p =>
    have hd := getterOn_of_property hsize hliteral hp
    cases hm : Rule.declaredGetter? t q d with
    | none =>
      have hsame : Rule.getterOn t q c = Rule.getterOn t q d := by
        rw [hc, hm]
        rfl
      exact ⟨⟨fun _ _ _ _ => nofun, fun _ => hsame⟩, fun _ _ _ => nofun⟩
    | some m =>
      have hmethod : Rule.getterOn t q c = some m := by
        rw [hc, hm]
        rfl
      refine ⟨?_, ?_⟩
      · rw [hmethod, hd, Option.some.injEq]
        constructor
        · rintro heq _ _ ⟨⟩ ⟨⟩
          exact heq
        · exact fun heq => heq p m rfl rfl
      · rintro _ _ ⟨⟩ ⟨⟩
        exact ⟨hmethod, hd⟩

/-- A bill has a method that gets its total. A shipped bill declares a total of its own and a weight
as properties. A parcel is a shipped bill and a letter is a parcel. -/
def billHistory : List Call :=
  [.declare "p.Bill" .cls, .declare "p.Shipped" .cls, .declare "p.Parcel" .cls,
    .declare "p.Letter" .cls, .setSuperclass ⟨25⟩ ⟨24⟩, .setSuperclass ⟨26⟩ ⟨25⟩,
    .setSuperclass ⟨27⟩ ⟨26⟩,
    .addMethod ⟨24⟩ { name := "getTotal", owner := ⟨24⟩, params := [], returns := .long },
    .addProperty ⟨25⟩ { name := "total", type := .int },
    .addProperty ⟨25⟩ { name := "weight", type := .int }]

/-- The access to the member of an object of class `c` that is held in a slot. -/
def heldSite (c : ClassId) (member : String) : Site :=
  { member, span := .none, receiver := .localVar 1 { type := .ofClass c } }

theorem getterOn_inherited_weight :
    let t := standard.runAll billHistory
    let q := Query.ofSite (heldSite ⟨27⟩ "weight") ⟨24⟩
    t.Constructed ∧ q.literal = none ∧ Relation.TransGen (t.Inherits "weight") ⟨27⟩ ⟨25⟩ ∧
      Rule.getterOn t q ⟨27⟩ = Rule.getterOn t q ⟨25⟩ ∧
      (Rule.getterOn t q ⟨25⟩).map Method.name = some "getWeight" := by
  intro t q
  have ht : t.Constructed := ⟨billHistory, by decide, rfl⟩
  have hletter : t.Inherits "weight" ⟨27⟩ ⟨26⟩ := ⟨by decide, by decide⟩
  have hparcel : t.Inherits "weight" ⟨26⟩ ⟨25⟩ := ⟨by decide, by decide⟩
  have hinherits : Relation.TransGen (t.Inherits "weight") ⟨27⟩ ⟨25⟩ := .head hletter (.single hparcel)
  have hnone : Rule.declaredGetter? t q ⟨25⟩ = none := by decide
  refine ⟨ht, rfl, hinherits, (getterOn_inherited ht rfl hinherits).1.mpr fun p m _ hm => ?_,
    by decide⟩
  cases hnone.symm.trans hm

/-- For a parcel the total is that of the bill, which its superclass has declared anew. -/
theorem getterOn_overtakes_property :
    let t := standard.runAll billHistory
    let parcel := Query.ofSite (heldSite ⟨26⟩ "total") ⟨26⟩
    let shipped := Query.ofSite (heldSite ⟨25⟩ "total") ⟨26⟩
    t.Constructed ∧ t.superclass? ⟨26⟩ = some ⟨25⟩ ∧ t.Silent "total" ⟨26⟩ ∧
      parcel.literal = none ∧
      Rule.getterOn t parcel ⟨26⟩ ≠ Rule.getterOn t parcel ⟨25⟩ ∧
      (parcel.select t).2 =
        .getter { name := "getTotal", owner := ⟨24⟩, params := [], returns := .long } ∧
      (shipped.select t).2 = .getter
        { name := "getTotal", owner := ⟨25⟩, params := [], returns := .int, synthetic := true } :=
  ⟨⟨billHistory, by decide, rfl⟩, by decide, by decide, rfl, by decide, by decide, by decide⟩

end ClassTable

end CallSite
