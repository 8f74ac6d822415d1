import CallSite.Proofs.ClassTable.Nesting
import CallSite.Proofs.ClassTable.Subtyping
import CallSite.Proofs.Selection.Inheritance
import CallSite.Proofs.Selection.Order

/-!
# Private fields of other classes

Code outside of a class reads a private field of it by its accessor, if the two classes are paired or
lie in one outermost class, and never reads the field itself. The rules before the one for accessors
have nothing to say about such a field.
-/

namespace CallSite

namespace ClassTable

/-- Neither the class nor a superclass has a getter for the member or declares it as a property. -/
def NoGetter (t : ClassTable) (member : String) (c : ClassId) : Prop :=
  ∀ k, Relation.ReflTransGen t.Extends c k → t.property? k member = none ∧
    ∀ m ∈ (t.info k).methods, isGetter ("get" ++ Text.capitalize member) m = false ∧
      isGetter ("is" ++ Text.capitalize member) m = false

/-- Code of `u`, which lies outside of the class `c`, accesses the private field `f` of an object of
this class. The class is no enum and has no getter for the member, and the member does not ask a
collection for its size. -/
structure AccessesPrivate (t : ClassTable) (site : Site) (u c : ClassId) (f : Field) : Prop where
  receiver : ∃ args, site.receiver.typeIn u = .object c args
  notClass : (Query.ofSite site u).classReceiver = false
  notLiteral : site.receiver.literalType? = none
  outside : ¬ Relation.ReflTransGen t.NestedIn u c
  declared : t.field? c site.member = some f
  isPrivate : f.visibility = .owner
  notEnum : (t.info c).isEnum = false
  noGetter : t.NoGetter site.member c
  notSize : t.LeadsTo c .collection → site.member ≠ "size" ∧ site.member ≠ "length"

variable {t : ClassTable} {q : Query} {site : Site} {c u : ClassId} {f : Field}

/-! ## Rules that decline -/

theorem declaredGetter?_eq_none (h : t.NoGetter q.member c) :
    Rule.declaredGetter? t q c = none := by
  have hnone : ∀ name, (∀ k, Relation.ReflTransGen t.Extends c k →
      ∀ m ∈ (t.info k).methods, isGetter name m = false) → t.getter? c name = none := by
    intro name hname
    unfold getter?
    refine List.findSome?_eq_none_iff.mpr fun k hk => List.find?_eq_none.mpr fun m hm => ?_
    rw [hname k (reflTransGen_of_mem_chain hk) m hm]
    exact Bool.false_ne_true
  unfold Rule.declaredGetter?
  rw [hnone _ fun k hk m hm => ((h k hk).2 m hm).1, hnone _ fun k hk m hm => ((h k hk).2 m hm).2]
  rfl

theorem getterOn_eq_none (hliteral : q.literal = none) (h : t.NoGetter q.member c) :
    Rule.getterOn t q c = none := by
  have halong : ∀ cs : List ClassId, (∀ k ∈ cs, Relation.ReflTransGen t.Extends c k) →
      Rule.getterAlong t q cs = none := by
    intro cs hcs
    induction cs with
    | nil => rfl
    | cons k cs ih =>
      have hk := hcs k List.mem_cons_self
      rw [getterAlong_cons hliteral, (h k hk).1,
        declaredGetter?_eq_none fun j hj => h j (hk.trans hj),
        ih fun j hj => hcs j (List.mem_cons_of_mem _ hj)]
      rfl
  exact halong _ fun k hk => reflTransGen_of_mem_chain hk

/-- The nearest field is the private one, which the code may not read. -/
theorem fieldOn_private (ht : t.Constructed) (hu : q.enclosing.index < t.size)
    (hf : t.field? c q.member = some f) (hprivate : f.visibility = .owner)
    (houtside : ¬ Relation.ReflTransGen t.NestedIn q.enclosing c) (samePackage : Bool) :
    Rule.fieldOn t q c samePackage = none := by
  obtain ⟨above, habove⟩ : ∃ above, t.superclasses c = c :: above :=
    exists_chain_cons ht.built.size_pos c
  have howner : f.owner = c := (ht.built.owned.classes c).fields f (List.mem_of_find?_eq_some hf)
  have houters : (t.outers q.enclosing).contains c = false := by
    rw [Bool.eq_false_iff, ne_eq, List.contains_iff_mem, ht.consistent.mem_outers_iff hu]
    exact houtside
  have hreadable : Rule.readable t f q.enclosing samePackage = false := by
    unfold Rule.readable
    rw [howner, houters, hprivate]
    rfl
  unfold Rule.fieldOn
  rw [habove, List.findSome?_cons, hf, Option.filter_some, hreadable]
  rfl

namespace AccessesPrivate

theorem class?_eq (h : t.AccessesPrivate site u c f) :
    (Query.ofSite site u).receiver.class? = some c := by
  obtain ⟨args, hargs⟩ := h.receiver
  rw [Query.receiver_of_not_class hargs h.notClass]
  rfl

theorem index_lt (h : t.AccessesPrivate site u c f) : c.index < t.size :=
  index_lt_of_mem ClassInfo.fields rfl (List.mem_of_find?_eq_some h.declared)

theorem declines_collectionSize (h : t.AccessesPrivate site u c f) (ht : t.Constructed)
    (hi : t.InterfacesOnly) : Rule.collectionSize.apply t (Query.ofSite site u) = none := by
  obtain ⟨args, hargs⟩ := h.receiver
  have hcollection : (Query.ofSite site u).isCollection t = true ↔ t.LeadsTo c .collection := by
    unfold Query.isCollection
    rw [Query.receiver_of_not_class hargs h.notClass]
    exact hasCapability_iff ht hi
  refine if_neg fun hsize => ?_
  rw [Bool.and_eq_true, Bool.or_eq_true, beq_iff_eq, beq_iff_eq, hcollection] at hsize
  exact hsize.2.elim (h.notSize hsize.1).1 (h.notSize hsize.1).2

/-- The rules before the one for accessors have nothing to say. -/
theorem declines (h : t.AccessesPrivate site u c f) (ht : t.Constructed) (hi : t.InterfacesOnly)
    (hu : u.index < t.size) :
    ∀ rule ∈ [Rule.arrayLength, .collectionSize, .getter, .field, .enumConstant, .classLiteral,
      .classReceiver], rule.apply t (Query.ofSite site u) = none := by
  have hc := h.class?_eq
  have hliteral : (Query.ofSite site u).literal = none := h.notLiteral
  have harray : (Query.ofSite site u).receiver.isArray = false := by
    obtain ⟨args, hargs⟩ := h.receiver
    rw [Query.receiver_of_not_class hargs h.notClass]
    rfl
  have henum : (Query.ofSite site u).isEnum t = false := by
    unfold Query.isEnum
    rw [hc]
    exact h.notEnum
  intro rule hrule
  simp only [List.mem_cons, List.not_mem_nil, or_false] at hrule
  rcases hrule with rfl | rfl | rfl | rfl | rfl | rfl | rfl
  · simp only [Rule.arrayLength, harray, Bool.false_and, Bool.false_eq_true, if_false]
  · exact h.declines_collectionSize ht hi
  · simp only [Rule.getter, hc, Option.bind_some, getterOn_eq_none hliteral h.noGetter,
      Option.map_none]
  · simp only [Rule.field, hc, Option.bind_some, Option.map_none,
      fieldOn_private ht hu (q := Query.ofSite site u) h.declared h.isPrivate h.outside]
  · simp only [Rule.enumConstant, hc, henum, Option.bind_some, Bool.false_eq_true, if_false]
  · simp only [Rule.classLiteral, hliteral, Option.bind_none]
  · simp only [Rule.classReceiver, h.notClass, Bool.false_eq_true, if_false]

end AccessesPrivate

/-- Code outside of a class reads a private field of it by the first accessor that the class has for
the name, just if the two classes are paired or lie in one outermost class. It never reads the field
itself. -/
theorem select_private (ht : t.Constructed) (hi : t.InterfacesOnly) (hu : u.index < t.size)
    (h : t.AccessesPrivate site u c f) :
    (∀ accessor fieldStatic,
      ((Query.ofSite site u).select t).2 = .bridge accessor fieldStatic ↔
        (t.bridge? c site.member = some accessor ∧ f.isStatic = fieldStatic) ∧
          (((c, u) ∈ t.bridgePairs ∨ (u, c) ∈ t.bridgePairs) ∨
            ∃ top, t.Outermost c top ∧ t.Outermost u top)) ∧
    ∀ g, ((Query.ofSite site u).select t).2 ≠ .field g := by
  have hdeclines := h.declines ht hi hu
  have hne : c ≠ u := fun heq => h.outside (heq ▸ .refl)
  refine ⟨fun accessor fieldStatic => ?_, fun g hg => ?_⟩
  · rw [← bridgeAllowed_or_iff ht h.index_lt hu hne]
    constructor
    · intro hselect
      obtain ⟨c', f', hc', hf', ⟨-, -, hallowed⟩, hb, hstatic⟩ :=
        bridgeAccessor_eq_some_iff.mp (bridgeAccessor_of_select hselect)
      obtain rfl := Option.some.inj (h.class?_eq.symm.trans hc')
      obtain rfl := Option.some.inj (h.declared.symm.trans hf')
      exact ⟨⟨hb, hstatic⟩, hallowed⟩
    · rintro ⟨⟨hb, hstatic⟩, hallowed⟩
      refine select_of_first order_bridgeAccessor hdeclines (bridgeAccessor_eq_some_iff.mpr ?_)
      exact ⟨c, f, h.class?_eq, h.declared, ⟨h.isPrivate, hne, hallowed⟩, hb, hstatic⟩
  -- The rules that choose fields have nothing to say.
  · have honly : ∀ o ∈ outcomes, o.2 = "DirectField" →
        ∃ rule ∈ [Rule.field, .classLiteral, .classReceiver], o.1 = rule.name := by decide
    obtain ⟨rule, hrule, hname⟩ :=
      honly _ (select_mem_outcomes t (Query.ofSite site u)) (congrArg Binding.title hg)
    have hbefore : rule ∈ Rule.forProperties.take 7 := by
      simp only [List.mem_cons, List.not_mem_nil, or_false] at hrule
      rcases hrule with rfl | rfl | rfl <;> simp [Rule.forProperties]
    have happly := apply_of_name (List.mem_of_mem_take hbefore) hname
    rw [hdeclines rule hbefore] at happly
    cases happly

/-- A safe and a desk are nested in a hotel, and a clerk in the desk. The safe has a private code with
two accessors. -/
def hotelHistory : List Call :=
  [.declare "p.Hotel" .cls, .declare "p.Hotel$Safe" .cls, .declare "p.Hotel$Desk" .cls,
    .declare "p.Hotel$Desk$Clerk" .cls, .setOuter ⟨25⟩ ⟨24⟩, .setOuter ⟨26⟩ ⟨24⟩,
    .setOuter ⟨27⟩ ⟨26⟩,
    .addField ⟨25⟩ { name := "code", owner := ⟨25⟩, type := .int, visibility := .owner },
    .addBridge ⟨25⟩ "code"
      { name := "access$0", owner := ⟨25⟩, params := [.ofClass ⟨25⟩], returns := .int },
    .addBridge ⟨25⟩ "code"
      { name := "access$1", owner := ⟨25⟩, params := [.ofClass ⟨25⟩], returns := .int }]

/-- The access to the code of a safe in a slot. -/
def codeSite : Site :=
  { member := "code", span := .none, receiver := .localVar 1 { type := .ofClass ⟨25⟩ } }

theorem select_private_clerk :
    let t := standard.runAll hotelHistory
    let code : Field := { name := "code", owner := ⟨25⟩, type := .int, visibility := .owner }
    let accessor : Method :=
      { name := "access$0", owner := ⟨25⟩, params := [.ofClass ⟨25⟩], returns := .int
        isStatic := true, synthetic := true }
    t.Constructed ∧ t.InterfacesOnly ∧ 27 < t.size ∧ t.AccessesPrivate codeSite ⟨27⟩ ⟨25⟩ code ∧
      ((Query.ofSite codeSite ⟨27⟩).select t).2 = .bridge accessor false := by
  intro t code accessor
  have ht : t.Constructed := ⟨hotelHistory, by decide, rfl⟩
  have hi : t.InterfacesOnly := by decide
  have hsafe : (⟨25⟩ : ClassId).index < t.size := by decide
  have hclerk : (⟨27⟩ : ClassId).index < t.size := by decide
  have h : t.AccessesPrivate codeSite ⟨27⟩ ⟨25⟩ code := by
    refine ⟨⟨[], rfl⟩, rfl, rfl, ?_, by decide, rfl, by decide, fun k hk => ?_, fun _ => by decide⟩
    · rw [← ht.consistent.mem_outers_iff hclerk]
      decide
    · have hall : ∀ k ∈ t.superclasses ⟨25⟩, t.property? k "code" = none ∧
          ∀ m ∈ (t.info k).methods, isGetter ("get" ++ Text.capitalize "code") m = false ∧
            isGetter ("is" ++ Text.capitalize "code") m = false := by decide
      exact hall k ((ht.consistent.mem_superclasses_iff hsafe).mpr hk)
  have htop : t.Outermost ⟨25⟩ ⟨24⟩ ∧ t.Outermost ⟨27⟩ ⟨24⟩ := by
    refine ⟨⟨?_, by decide⟩, ⟨?_, by decide⟩⟩
    · rw [← ht.consistent.mem_outers_iff hsafe]
      decide
    · rw [← ht.consistent.mem_outers_iff hclerk]
      decide
  exact ⟨ht, hi, hclerk, h, ((select_private ht hi hclerk h).1 accessor false).mpr
    ⟨⟨by decide, rfl⟩, .inr ⟨⟨24⟩, htop⟩⟩⟩

end ClassTable

end CallSite
