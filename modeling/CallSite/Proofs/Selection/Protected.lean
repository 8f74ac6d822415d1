import CallSite.Proofs.ClassTable.Construction
import CallSite.Proofs.Selection.Order

/-!
# Protected fields

A field is looked for along the superclasses of the class that an access starts from. If it is
protected, code that is not nested in the class of the field may read it in the package of the class
that the search starts from. That need not be the package of the class that declares the field.
-/

namespace CallSite

namespace ClassTable

/-- The class `c` declares no field of this name, and `d` is its superclass. -/
def InheritsField (t : ClassTable) (name : String) (c d : ClassId) : Prop :=
  t.superclass? c = some d ∧ t.field? c name = none

/-- From the class `c` upwards, `f` is the first field of this name. -/
structure NearestField (t : ClassTable) (c : ClassId) (name : String) (f : Field) : Prop where
  inherited : Relation.ReflTransGen (t.InheritsField name) c f.owner
  declared : t.field? f.owner name = some f

/-- From the class `c` the access comes upon the field `f`, and if this is protected, code of the
enclosing class may read it: code nested in the class of the field, or in the package of `c`. -/
structure ReadsProtected (t : ClassTable) (q : Query) (c : ClassId) (f : Field) : Prop where
  nearest : t.NearestField c q.member f
  allowed : Relation.ReflTransGen t.NestedIn q.enclosing f.owner ∨
    t.samePackage c q.enclosing = true

variable {t : ClassTable} {q : Query} {c : ClassId} {name : String} {f : Field}

/-! ## The nearest field -/

private theorem nearestField_of_findSome? (ht : t.Owned) {limit : Nat}
    (h : (chain t.superclass? limit c).findSome? (fun k => t.field? k name) = some f) :
    t.NearestField c name f := by
  induction limit generalizing c with
  | zero => cases h
  | succ limit ih =>
    rw [chain, List.findSome?_cons] at h
    cases hf : t.field? c name with
    | some g =>
      rw [hf] at h
      obtain rfl := Option.some.inj h
      have howner : g.owner = c := (ht.classes c).fields g (List.mem_of_find?_eq_some hf)
      subst howner
      exact ⟨.refl, hf⟩
    | none =>
      rw [hf] at h
      cases hd : t.superclass? c with
      | none =>
        rw [hd] at h
        cases h
      | some d =>
        rw [hd] at h
        obtain ⟨hinherited, hdeclared⟩ := ih h
        exact ⟨.head ⟨hd, hf⟩ hinherited, hdeclared⟩

private theorem findSome?_of_inheritsField (ht : t.Constructed) {d : ClassId}
    (h : Relation.ReflTransGen (t.InheritsField name) c d) (hf : t.field? d name = some f) :
    (t.superclasses c).findSome? (fun k => t.field? k name) = some f := by
  induction h using Relation.ReflTransGen.head_induction_on with
  | refl =>
    obtain ⟨above, habove⟩ : ∃ above, t.superclasses d = d :: above :=
      exists_chain_cons ht.built.size_pos d
    rw [habove, List.findSome?_cons, hf]
  | head hlink _ ih =>
    obtain ⟨hd, hnone⟩ := hlink
    rw [ht.consistent.linked.superclasses_link hd, List.findSome?_cons, hnone]
    exact ih

theorem findSome?_field_eq_some_iff (ht : t.Constructed) :
    (t.superclasses c).findSome? (fun k => t.field? k name) = some f ↔ t.NearestField c name f :=
  ⟨nearestField_of_findSome? ht.built.owned,
    fun h => findSome?_of_inheritsField ht h.inherited h.declared⟩

/-! ## Access -/

theorem readable_protected_iff (ht : t.Constructed) (hf : f.visibility = .family)
    {enclosing : ClassId} (he : enclosing.index < t.size) {samePackage : Bool} :
    Rule.readable t f enclosing samePackage = true ↔
      Relation.ReflTransGen t.NestedIn enclosing f.owner ∨ samePackage = true := by
  unfold Rule.readable
  rw [hf, Bool.or_eq_true, List.contains_iff_mem, ht.consistent.mem_outers_iff he]

theorem fieldOn_protected_iff (ht : t.Constructed) (hf : f.visibility = .family)
    (he : q.enclosing.index < t.size) :
    Rule.fieldOn t q c (t.samePackage c q.enclosing) = some f ↔ t.ReadsProtected q c f := by
  unfold Rule.fieldOn
  rw [Option.filter_eq_some_iff, findSome?_field_eq_some_iff ht, readable_protected_iff ht hf he]
  exact ⟨fun h => ⟨h.1, h.2⟩, fun h => ⟨h.nearest, h.allowed⟩⟩

/-- The rule for fields starts from the receiver's class. -/
theorem field_protected_iff (ht : t.Constructed) (hf : f.visibility = .family)
    (he : q.enclosing.index < t.size) :
    Rule.field.apply t q = some (.field f) ↔
      ∃ c, q.receiver.class? = some c ∧ t.ReadsProtected q c f := by
  simp only [Rule.field, Option.bind_eq_some_iff, Option.map_eq_some_iff, Binding.field.injEq,
    exists_eq_right, fieldOn_protected_iff ht hf he]

/-- The rule for class literals starts from the class of the literal, with fields first. -/
theorem classLiteral_protected_iff (ht : t.Constructed) (hf : f.visibility = .family)
    (he : q.enclosing.index < t.size) :
    Rule.classLiteral.apply t q = some (.field f) ↔
      ∃ c, q.literal.bind Ty.class? = some c ∧ t.ReadsProtected q c f := by
  have hgetter : ∀ c, (Rule.getterOn t q c).map Binding.getter ≠ some (.field f) := by
    intro c h
    obtain ⟨m, -, h⟩ := Option.map_eq_some_iff.mp h
    cases h
  simp only [Rule.classLiteral]
  rw [Option.bind_eq_some_iff]
  refine exists_congr fun c => and_congr_right fun _ => ?_
  rw [← fieldOn_protected_iff ht hf he]
  constructor
  · intro h
    obtain ⟨g, hg, heq⟩ := Option.map_eq_some_iff.mp ((of_orElse h).resolve_right (hgetter c))
    cases heq
    exact hg
  · intro h
    rw [h]
    rfl

/-- Outside the class of the field it comes to the same whether the code or the class `c` is in the
package of the field. -/
theorem ReadsProtected.samePackage_iff (h : t.ReadsProtected q c f)
    (hnested : ¬ Relation.ReflTransGen t.NestedIn q.enclosing f.owner) :
    t.samePackage f.owner q.enclosing = true ↔ t.samePackage c f.owner = true := by
  have hc := h.allowed.resolve_left hnested
  simp only [samePackage, beq_iff_eq] at hc ⊢
  rw [← hc]
  exact eq_comm

/-- A protected field is read itself if it is the nearest field from the receiver's class or from
the class that a literal names, no rule that comes before says anything else, and the code is nested
in the class of the field or is in the package of the class that the search has started from. So the
code is nested in the class of the field or is in its package just if it is nested there or the
search has started in the package of the field. -/
theorem select_protected (ht : t.Constructed) (he : q.enclosing.index < t.size)
    (hf : f.visibility = .family) :
    (q.select t = ("field", .field f) ↔
      (∀ rule ∈ [Rule.arrayLength, .collectionSize, .getter], rule.apply t q = none) ∧
        ∃ c, q.receiver.class? = some c ∧ t.ReadsProtected q c f) ∧
    (q.select t = ("class-literal", .field f) ↔
      (∀ rule ∈ [Rule.arrayLength, .collectionSize, .getter, .field, .enumConstant],
          rule.apply t q = none) ∧
        ∃ c, q.literal.bind Ty.class? = some c ∧ t.ReadsProtected q c f) ∧
    ∀ c, t.ReadsProtected q c f →
      ((Relation.ReflTransGen t.NestedIn q.enclosing f.owner ∨
          t.samePackage f.owner q.enclosing = true) ↔
        (Relation.ReflTransGen t.NestedIn q.enclosing f.owner ∨
          t.samePackage c f.owner = true)) := by
  have hfield : Rule.forProperties = [.arrayLength, .collectionSize, .getter] ++
      .field :: Rule.forProperties.drop 4 := rfl
  have hliteral : Rule.forProperties = [.arrayLength, .collectionSize, .getter, .field,
      .enumConstant] ++ .classLiteral :: Rule.forProperties.drop 6 := rfl
  refine ⟨?_, ?_, fun c h => ?_⟩
  · rw [← field_protected_iff ht hf he]
    exact select_eq_iff hfield
  · rw [← classLiteral_protected_iff ht hf he]
    exact select_eq_iff hliteral
  · by_cases hnested : Relation.ReflTransGen t.NestedIn q.enclosing f.owner
    · exact iff_of_true (.inl hnested) (.inl hnested)
    · rw [h.samePackage_iff hnested]

/-- A ledger has a protected total. Accounts of the same package are ledgers, and branches of
another package are accounts. -/
def ledgerHistory : List Call :=
  [.declare "a.Ledger" .cls, .declare "a.Account" .cls, .declare "a.Audit" .cls,
    .declare "b.Branch" .cls, .declare "b.Visitor" .cls, .setSuperclass ⟨25⟩ ⟨24⟩,
    .setSuperclass ⟨27⟩ ⟨25⟩,
    .addField ⟨24⟩ { name := "total", owner := ⟨24⟩, type := .int, visibility := .family }]

/-- The access to the total of an object of class `c` in a slot. -/
def totalSite (c : ClassId) : Site :=
  { member := "total", span := .none, receiver := .localVar 1 { type := .ofClass c } }

theorem select_protected_account :
    let t := standard.runAll ledgerHistory
    let q := Query.ofSite (totalSite ⟨25⟩) ⟨26⟩
    let total : Field := { name := "total", owner := ⟨24⟩, type := .int, visibility := .family }
    t.Constructed ∧ q.enclosing.index < t.size ∧ total.visibility = .family ∧
      q.select t = ("field", .field total) ∧ t.ReadsProtected q ⟨25⟩ total ∧
      t.samePackage ⟨24⟩ ⟨26⟩ = true := by
  intro t q total
  have ht : t.Constructed := ⟨ledgerHistory, by decide, rfl⟩
  have he : q.enclosing.index < t.size := by decide
  have hselect : q.select t = ("field", .field total) := by decide
  obtain ⟨hfield, -, hpackage⟩ := select_protected (f := total) ht he rfl
  obtain ⟨-, c, hc, hreads⟩ := hfield.mp hselect
  obtain rfl := Option.some.inj hc
  have hnested : ¬ Relation.ReflTransGen t.NestedIn q.enclosing total.owner := by
    rw [← ht.consistent.mem_outers_iff he]
    decide
  exact ⟨ht, he, rfl, hselect, hreads,
    ((hpackage _ hreads).mpr (.inr (by decide))).resolve_left hnested⟩

/-- A visitor of the branches reads their total, which a class of another package declares. -/
theorem select_protected_elsewhere :
    let t := standard.runAll ledgerHistory
    let q := Query.ofSite (totalSite ⟨27⟩) ⟨28⟩
    let total : Field := { name := "total", owner := ⟨24⟩, type := .int, visibility := .family }
    t.Constructed ∧ q.select t = ("field", .field total) ∧ total.visibility = .family ∧
      total.owner ∉ t.outers ⟨28⟩ ∧ t.samePackage total.owner ⟨28⟩ = false ∧
      (Query.ofSite (totalSite ⟨25⟩) ⟨28⟩).select t = ("unresolvable", .unresolved) ∧
      (Query.ofSite (totalSite ⟨27⟩) ⟨26⟩).select t = ("unresolvable", .unresolved) :=
  ⟨⟨ledgerHistory, by decide, rfl⟩, by decide, rfl, by decide, by decide, by decide, by decide⟩

end ClassTable

end CallSite
