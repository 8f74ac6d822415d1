import CallSite.Proofs.ClassTable.Chains
import CallSite.Proofs.Selection.Source
import Mathlib.Data.List.Nodup

/-!
# The order of the rules

An access is bound by the first rule that applies. What rules before a certain one say decides
whether that one is asked at all.
-/

namespace CallSite

namespace ClassTable

variable {t : ClassTable} {q : Query} {before after : List Rule}

/-- A rule is known by its name. -/
private theorem eq_of_name {rule rule' : Rule} (hrule : rule ∈ Rule.forProperties)
    (hrule' : rule' ∈ Rule.forProperties) (h : rule.name = rule'.name) : rule = rule' :=
  List.inj_on_of_nodup_map (by decide : (Rule.forProperties.map Rule.name).Nodup) hrule hrule' h

/-- A rule decides just if it applies and no rule before it does. -/
theorem select_eq_iff {rule : Rule} {binding : Binding}
    (horder : Rule.forProperties = before ++ rule :: after) :
    q.select t = (rule.name, binding) ↔
      (∀ r ∈ before, r.apply t q = none) ∧ rule.apply t q = some binding := by
  constructor
  · intro h
    have hnames : (Rule.forProperties.map Rule.name).Nodup := by decide
    have hrule : rule ∈ Rule.forProperties := horder ▸ List.mem_append_cons_self
    unfold Query.select at h
    cases hfirst : Rule.first? Rule.forProperties t q with
    | none =>
      have hunnamed : ∀ r ∈ Rule.forProperties, r.name ≠ "unresolvable" := by decide
      rw [hfirst] at h
      exact absurd (congrArg Prod.fst h).symm (hunnamed rule hrule)
    | some found =>
      rw [hfirst, Option.getD_some] at h
      obtain ⟨first, r, rest, hsplit, happly, hdeclined⟩ := List.findSome?_eq_some_iff.mp hfirst
      obtain ⟨b, hb, rfl⟩ := Option.map_eq_some_iff.mp happly
      obtain ⟨hname, rfl⟩ := Prod.mk.inj h
      have hr : r ∈ Rule.forProperties := hsplit ▸ List.mem_append_cons_self
      obtain rfl := eq_of_name hr hrule hname
      -- The list holds the rule once, so that it is split in one way.
      have honce : r ∉ before ++ after :=
        (List.nodup_cons.mp (List.nodup_middle.mp (horder ▸ hnames.of_map))).1
      rw [List.mem_append, not_or] at honce
      obtain ⟨rfl, -, -⟩ := (List.append_cons_inj_of_notMem honce.1 honce.2).mp
        (horder.symm.trans hsplit)
      exact ⟨fun x hx => Option.map_eq_none_iff.mp (hdeclined x hx), hb⟩
  · rintro ⟨hbefore, h⟩
    have hnone : before.findSome? (fun r => (r.apply t q).map fun b => (r.name, b)) = none :=
      List.findSome?_eq_none_iff.mpr fun r hr => by rw [hbefore r hr]; rfl
    have hfirst : Rule.first? Rule.forProperties t q = some (rule.name, binding) := by
      unfold Rule.first?
      rw [horder, List.findSome?_append, hnone, List.findSome?_cons, h]
      rfl
    unfold Query.select
    rw [hfirst]
    rfl

/-- A rule that applies, and before which none does, decides. -/
theorem select_of_first {rule : Rule} {binding : Binding}
    (horder : Rule.forProperties = before ++ rule :: after)
    (hbefore : ∀ r ∈ before, r.apply t q = none) (h : rule.apply t q = some binding) :
    (q.select t).2 = binding :=
  congrArg Prod.snd ((select_eq_iff horder).mpr ⟨hbefore, h⟩)

/-- The rule that has decided applies. -/
theorem apply_of_name {rule : Rule} (hrule : rule ∈ Rule.forProperties)
    (hname : (q.select t).1 = rule.name) : rule.apply t q = some (q.select t).2 := by
  obtain ⟨before, after, horder⟩ := List.append_of_mem hrule
  exact ((select_eq_iff horder).mp (Prod.ext hname rfl)).2

/-! ## Outcomes -/

/-- The rule for maps and lists chooses an entry of a map, or each element of a list. -/
private theorem mapOrList_cases {binding : Binding} (h : Rule.mapOrList.apply t q = some binding) :
    (binding = .mapEntry ∧ q.isMap t = true) ∨
      binding = .eachElement q.elementType ∧ q.isList t = true := by
  obtain ⟨-, h⟩ := Option.ite_none_left_eq_some.mp h
  split at h
  · cases h
    exact .inl ⟨rfl, ‹_›⟩
  · obtain ⟨hlist, h⟩ := Option.ite_none_right_eq_some.mp h
    cases h
    exact .inr ⟨rfl, hlist⟩

/-- What kinds of bindings come from the rules, by the names of the rules. -/
def outcomes : List (String × String) :=
  [("array-length", "ArrayLength"), ("collection-size", "CollectionSize"), ("getter", "GetterCall"),
    ("field", "DirectField"), ("enum-constant", "EnumConstant"), ("class-literal", "DirectField"),
    ("class-literal", "GetterCall"), ("class-receiver", "GetterCall"),
    ("class-receiver", "DirectField"), ("bridge-accessor", "BridgeAccessor"),
    ("interface-getter", "InterfaceDefaultGetter"), ("extension-getter", "ExtensionMethodCall"),
    ("map-list-sugar", "MapGet"), ("map-list-sugar", "ListPropertyRewrite"),
    ("unresolvable", "Unresolvable")]

/-- What the rule binds is among the outcomes. -/
private def Listed (rule : Rule) : Prop :=
  ∀ t q binding, rule.apply t q = some binding → (rule.name, binding.title) ∈ outcomes

private theorem title_of_getterOn {c : ClassId} {binding : Binding}
    (h : (Rule.getterOn t q c).map Binding.getter = some binding) :
    binding.title = "GetterCall" := by
  obtain ⟨m, -, rfl⟩ := Option.map_eq_some_iff.mp h
  rfl

private theorem title_of_fieldOn {c : ClassId} {samePackage : Bool} {binding : Binding}
    (h : (Rule.fieldOn t q c samePackage).map Binding.field = some binding) :
    binding.title = "DirectField" := by
  obtain ⟨f, -, rfl⟩ := Option.map_eq_some_iff.mp h
  rfl

private theorem arrayLength_listed : Listed Rule.arrayLength := by
  intro t q binding h
  obtain ⟨-, h⟩ := Option.ite_none_right_eq_some.mp h
  obtain rfl := Option.some.inj h
  decide

private theorem collectionSize_listed : Listed Rule.collectionSize := by
  intro t q binding h
  obtain ⟨-, h⟩ := Option.ite_none_right_eq_some.mp h
  obtain rfl := Option.some.inj h
  decide

private theorem getter_listed : Listed Rule.getter := by
  intro t q binding h
  obtain ⟨c, -, hgetter⟩ := Option.bind_eq_some_iff.mp h
  rw [title_of_getterOn hgetter]
  decide

private theorem field_listed : Listed Rule.field := by
  intro t q binding h
  obtain ⟨c, -, hfield⟩ := Option.bind_eq_some_iff.mp h
  rw [title_of_fieldOn hfield]
  decide

private theorem enumConstant_listed : Listed Rule.enumConstant := by
  intro t q binding h
  obtain ⟨c, -, h⟩ := Option.bind_eq_some_iff.mp h
  obtain ⟨-, h⟩ := Option.ite_none_right_eq_some.mp h
  obtain rfl := Option.some.inj h
  show ("enum-constant", "EnumConstant") ∈ outcomes
  decide

private theorem classLiteral_listed : Listed Rule.classLiteral := by
  intro t q binding h
  obtain ⟨c, -, h⟩ := Option.bind_eq_some_iff.mp h
  rcases of_orElse h with hfield | hgetter
  · rw [title_of_fieldOn hfield]
    decide
  · rw [title_of_getterOn hgetter]
    decide

private theorem classReceiver_listed : Listed Rule.classReceiver := by
  intro t q binding h
  obtain ⟨-, h⟩ := Option.ite_none_right_eq_some.mp h
  rcases of_orElse h with hgetter | hfield
  · rw [title_of_getterOn hgetter]
    decide
  · rw [title_of_fieldOn hfield]
    decide

private theorem bridgeAccessor_listed : Listed Rule.bridgeAccessor := by
  intro t q binding h
  obtain ⟨c, -, h⟩ := Option.bind_eq_some_iff.mp h
  obtain ⟨f, -, h⟩ := Option.bind_eq_some_iff.mp h
  obtain ⟨-, h⟩ := Option.ite_none_right_eq_some.mp h
  obtain ⟨accessor, -, rfl⟩ := Option.map_eq_some_iff.mp h
  show ("bridge-accessor", "BridgeAccessor") ∈ outcomes
  decide

private theorem interfaceGetter_listed : Listed Rule.interfaceGetter := by
  intro t q binding h
  obtain ⟨-, h⟩ := Option.ite_none_right_eq_some.mp h
  obtain ⟨c, -, h⟩ := Option.bind_eq_some_iff.mp h
  obtain ⟨m, -, rfl⟩ := Option.map_eq_some_iff.mp h
  show ("interface-getter", "InterfaceDefaultGetter") ∈ outcomes
  decide

private theorem extensionGetter_listed : Listed Rule.extensionGetter := by
  intro t q binding h
  simp only [Rule.extensionGetter] at h
  split at h <;> cases h
  show ("extension-getter", "ExtensionMethodCall") ∈ outcomes
  decide

private theorem mapOrList_listed : Listed Rule.mapOrList := by
  intro t q binding h
  rcases mapOrList_cases h with ⟨rfl, -⟩ | ⟨rfl, -⟩
  · decide
  · show ("map-list-sugar", "ListPropertyRewrite") ∈ outcomes
    decide

private theorem forProperties_listed : ∀ rule ∈ Rule.forProperties, Listed rule := by
  simp only [Rule.forProperties, List.forall_mem_cons]
  exact ⟨arrayLength_listed, collectionSize_listed, getter_listed, field_listed,
    enumConstant_listed, classLiteral_listed, classReceiver_listed, bridgeAccessor_listed,
    interfaceGetter_listed, extensionGetter_listed, mapOrList_listed, List.forall_mem_nil _⟩

/-- The kind of a binding tells which rules may have decided. -/
theorem select_mem_outcomes (t : ClassTable) (q : Query) :
    ((q.select t).1, (q.select t).2.title) ∈ outcomes := by
  unfold Query.select
  cases hfirst : Rule.first? Rule.forProperties t q with
  | none =>
    show ("unresolvable", "Unresolvable") ∈ outcomes
    decide
  | some found =>
    obtain ⟨rule, hrule, happly⟩ := List.exists_of_findSome?_eq_some hfirst
    obtain ⟨binding, hb, rfl⟩ := Option.map_eq_some_iff.mp happly
    exact forProperties_listed rule hrule t q binding hb

/-- Bindings of a kind that one rule chooses are chosen by this rule. -/
theorem name_of_title {name title : String} (honly : ∀ o ∈ outcomes, o.2 = title → o.1 = name)
    (h : (q.select t).2.title = title) : (q.select t).1 = name :=
  honly _ (select_mem_outcomes t q) h

/-! ## Maps and lists -/

private theorem mapOrList_of_name (h : (q.select t).1 = "map-list-sugar") :
    Rule.mapOrList.apply t q = some (q.select t).2 :=
  apply_of_name (by simp [Rule.forProperties]) h

/-- Only an access on a map is an access to an entry. -/
theorem select_mapEntry (h : (q.select t).2 = .mapEntry) : q.isMap t = true := by
  have htitle : (q.select t).2.title = "MapGet" := congrArg Binding.title h
  rcases mapOrList_cases (mapOrList_of_name (name_of_title (by decide) htitle)) with
    ⟨-, hmap⟩ | ⟨heach, -⟩
  · exact hmap
  · cases h.symm.trans heach

/-- Only an access on a list is an access to each element, which has the type that the query
tells. -/
theorem select_eachElement {component : Ty} (h : (q.select t).2 = .eachElement component) :
    q.isList t = true ∧ component = q.elementType := by
  have htitle : (q.select t).2.title = "ListPropertyRewrite" := congrArg Binding.title h
  rcases mapOrList_cases (mapOrList_of_name (name_of_title (by decide) htitle)) with
    ⟨hentry, -⟩ | ⟨heach, hlist⟩
  · cases h.symm.trans hentry
  · exact ⟨hlist, Binding.eachElement.inj (h.symm.trans heach)⟩

/-! ## Accessors and fields -/

variable {accessor : Method} {fieldStatic : Bool} {c : ClassId} {f : Field}

/-- One rule only chooses accessors of private fields. -/
private theorem select_eq_of_bridge (h : (q.select t).2 = .bridge accessor fieldStatic) :
    q.select t = ("bridge-accessor", .bridge accessor fieldStatic) := by
  have htitle : (q.select t).2.title = "BridgeAccessor" := congrArg Binding.title h
  have hname : (q.select t).1 = "bridge-accessor" := name_of_title (by decide) htitle
  exact Prod.ext hname h

theorem order_bridgeAccessor : Rule.forProperties = Rule.forProperties.take 7 ++
    .bridgeAccessor :: Rule.forProperties.drop 8 := rfl

theorem bridgeAccessor_of_select (h : (q.select t).2 = .bridge accessor fieldStatic) :
    Rule.bridgeAccessor.apply t q = some (.bridge accessor fieldStatic) :=
  ((select_eq_iff order_bridgeAccessor).mp (select_eq_of_bridge h)).2

/-- The rule for accessors chooses the one that the receiver's class has for a private field. -/
theorem bridgeAccessor_eq_some_iff :
    Rule.bridgeAccessor.apply t q = some (.bridge accessor fieldStatic) ↔
      ∃ c f, q.receiver.class? = some c ∧ t.field? c q.member = some f ∧
        (f.visibility = .owner ∧ c ≠ q.enclosing ∧
          (t.bridgeAllowed c q.enclosing || t.bridgeAllowed q.enclosing c) = true) ∧
        t.bridge? c q.member = some accessor ∧ f.isStatic = fieldStatic := by
  simp only [Rule.bridgeAccessor, Option.bind_eq_some_iff, Option.ite_none_right_eq_some,
    Option.map_eq_some_iff, Binding.bridge.injEq]
  constructor
  · rintro ⟨c, hc, f, hf, hallowed, accessor, hb, rfl, hstatic⟩
    exact ⟨c, f, hc, hf, hallowed, hb, hstatic⟩
  · rintro ⟨c, f, hc, hf, hallowed, hb, hstatic⟩
    exact ⟨c, hc, f, hf, hallowed, accessor, hb, rfl, hstatic⟩

/-- An accessor is chosen for a field that the receiver's class declares. -/
theorem select_bridge_inv (h : (q.select t).2 = .bridge accessor fieldStatic) :
    ∃ c f, q.receiver.class? = some c ∧ t.field? c q.member = some f ∧
      t.bridge? c q.member = some accessor ∧ f.isStatic = fieldStatic := by
  obtain ⟨c, f, hc, hf, -, hb, hstatic⟩ :=
    bridgeAccessor_eq_some_iff.mp (bridgeAccessor_of_select h)
  exact ⟨c, f, hc, hf, hb, hstatic⟩

/-- Getters are the same for code of every class. -/
private theorem getterAlong_enclosing (cs : List ClassId) :
    Rule.getterAlong t { q with enclosing := c } cs = Rule.getterAlong t q cs := by
  induction cs with
  | nil => rfl
  | cons k cs ih =>
    unfold Rule.getterAlong
    rw [ih]
    rfl

/-- A class declares its fields nearer than its superclasses do, and may read them. -/
private theorem fieldOn_own (hsize : 0 < t.size) (howner : f.owner = c)
    (hf : t.field? c q.member = some f) (samePackage : Bool) :
    Rule.fieldOn t { q with enclosing := c } c samePackage = some f := by
  obtain ⟨above, habove⟩ : ∃ above, t.superclasses c = c :: above := exists_chain_cons hsize c
  obtain ⟨beyond, hbeyond⟩ : ∃ beyond, t.outers c = c :: beyond := exists_chain_cons hsize c
  have hreadable : Rule.readable t f c samePackage = true := by
    unfold Rule.readable
    rw [hbeyond, howner, List.contains_cons, beq_self_eq_true, Bool.true_or, Bool.true_or]
  unfold Rule.fieldOn
  rw [habove, List.findSome?_cons, hf, Option.filter_some, if_pos hreadable]

/-- Code of the class that declares a field reads the field itself where code of another class
calls its accessor. -/
theorem select_field_of_bridge (ht : t.Owned) (hsize : 0 < t.size)
    (h : (q.select t).2 = .bridge accessor fieldStatic) (hc : q.receiver.class? = some c)
    (hf : t.field? c q.member = some f) : ({ q with enclosing := c }.select t).2 = .field f := by
  have horder : Rule.forProperties = [.arrayLength, .collectionSize, .getter] ++
      .field :: Rule.forProperties.drop 4 := rfl
  have hdeclined := ((select_eq_iff order_bridgeAccessor).mp (select_eq_of_bridge h)).1
  have howner : f.owner = c := (ht.classes c).fields f (List.mem_of_find?_eq_some hf)
  -- The rules before the one for fields say the same in code of every class.
  refine select_of_first horder (fun r hr => ?_) ?_
  · rw [← hdeclined r (List.mem_append_left _ hr)]
    simp only [List.mem_cons, List.not_mem_nil, or_false] at hr
    rcases hr with rfl | rfl | rfl
    · rfl
    · rfl
    · simp only [Rule.getter, Rule.getterOn, getterAlong_enclosing]
  · simp only [Rule.field, hc, Option.bind_some, fieldOn_own hsize howner hf, Option.map_some]

end ClassTable

end CallSite
