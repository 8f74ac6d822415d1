import CallSite.Selection.Operator
import CallSite.Selection.Rules

/-!
# Where members come from

The method that an access is bound to is a getter of some class, an accessor, or an extension
method, whichever rule has chosen it. Getters take nothing and are named by their kind. Getters and
fields are looked for from three classes upwards: the receiver's, the one that a class literal
names, and `java.lang.Class`.
-/

namespace CallSite

/-- The method takes nothing and is called `get…` or `is…`. -/
structure Method.IsGetter (m : Method) : Prop where
  params : m.params = []
  name : ∃ rest, m.name = "get" ++ rest ∨ m.name = "is" ++ rest

/-- No getter is called by a name that does not start like one. -/
theorem Method.IsGetter.name_notMem {m : Method} (h : m.IsGetter) {names : List String}
    (hnames : ∀ name ∈ names, ¬ ['g', 'e', 't'] <+: name.toList ∧ ¬ ['i', 's'] <+: name.toList) :
    m.name ∉ names := by
  intro hmem
  obtain ⟨rest, h | h⟩ := h.name
  · refine (hnames _ hmem).1 ⟨rest.toList, ?_⟩
    rw [h, String.toList_append]
    rfl
  · refine (hnames _ hmem).2 ⟨rest.toList, ?_⟩
    rw [h, String.toList_append]
    rfl

theorem of_orElse {α : Type} {x y : Option α} {a : α} (h : (x <|> y) = some a) :
    x = some a ∨ y = some a := by
  cases x with
  | none => exact Or.inr h
  | some b => exact Or.inl h

/-- The type of the receiver is what the rules look at, if it is no class of a known type. -/
theorem Query.receiver_of_not_class {site : Site} {enclosing c : ClassId} {args : List Ty}
    (hn : site.receiver.typeIn enclosing = .object c args)
    (hclass : (Query.ofSite site enclosing).classReceiver = false) :
    (Query.ofSite site enclosing).receiver = .object c args := by
  unfold Query.ofSite at hclass ⊢
  rw [hn] at hclass ⊢
  simp only at hclass ⊢
  rw [Option.not_isSome_iff_eq_none.mp (Bool.eq_false_iff.mp hclass)]
  rfl

namespace ClassTable

variable {t : ClassTable} {q : Query}

/-! ## Getters -/

theorem getter?_cases {c : ClassId} {name : String} {m : Method} (h : t.getter? c name = some m) :
    ∃ k ∈ t.superclasses c, m ∈ (t.info k).methods ∧ m.name = name ∧ m.params = [] := by
  unfold getter? at h
  obtain ⟨k, hmem, hk⟩ := List.exists_of_findSome?_eq_some h
  have hg := List.find?_some hk
  simp only [isGetter, Bool.and_eq_true, beq_iff_eq, List.isEmpty_iff] at hg
  exact ⟨k, hmem, List.mem_of_find?_eq_some hk, hg.1.1.1, hg.1.1.2⟩

/-- A getter is declared by some class, or made for a property of some class. -/
theorem getterAlong_cases {cs : List ClassId} {m : Method}
    (h : Rule.getterAlong t q cs = some m) :
    (∃ c, Rule.declaredGetter? t q c = some m) ∨
      ∃ c, ∃ p ∈ (t.info c).properties, m = Rule.propertyGetter c p := by
  induction cs with
  | nil => cases h
  | cons c cs ih =>
    unfold Rule.getterAlong at h
    simp only at h
    split at h
    · cases h
    · split at h
      · rename_i p hp
        cases h
        exact Or.inr ⟨c, p, List.mem_of_find?_eq_some hp, rfl⟩
      · rcases of_orElse h with h | h
        · exact Or.inl ⟨c, h⟩
        · exact ih h

theorem declaredGetter?_cases {c : ClassId} {m : Method}
    (h : Rule.declaredGetter? t q c = some m) :
    m.IsGetter ∧ ∃ k ∈ t.superclasses c, m ∈ (t.info k).methods := by
  rcases of_orElse h with h | h
  · obtain ⟨k, hk, hm, hname, hparams⟩ := getter?_cases h
    exact ⟨⟨hparams, _, Or.inl hname⟩, k, hk, hm⟩
  · obtain ⟨k, hk, hm, hname, hparams⟩ := getter?_cases h
    exact ⟨⟨hparams, _, Or.inr hname⟩, k, hk, hm⟩

theorem propertyGetter_isGetter (c : ClassId) (p : Property) :
    (Rule.propertyGetter c p).IsGetter := by
  have hname : (Rule.propertyGetter c p).name =
      (if p.type = .boolean then "is" else "get") ++ Text.capitalize p.name := rfl
  refine ⟨rfl, Text.capitalize p.name, ?_⟩
  by_cases hb : p.type = .boolean
  · rw [if_pos hb] at hname
    exact Or.inr hname
  · rw [if_neg hb] at hname
    exact Or.inl hname

/-! ## Rules -/

/-- The class is the receiver's, or the one that a class literal names. -/
def Names (q : Query) (c : ClassId) : Prop :=
  q.receiver.class? = some c ∨ q.literal.bind Ty.class? = some c

/-- The rules look for getters and fields from this class upwards. -/
def LooksAt (q : Query) (c : ClassId) : Prop := Names q c ∨ q.classReceiver = true ∧ c = .cls

/-- What is known of the member that a binding reads. -/
def Chosen (t : ClassTable) (q : Query) : Binding → Prop
  | .getter m => ∃ c, LooksAt q c ∧ Rule.getterOn t q c = some m
  | .field f => ∃ c samePackage, LooksAt q c ∧ Rule.fieldOn t q c samePackage = some f
  | .interfaceGetter m => m.IsGetter ∧ ∃ k, m ∈ (t.info k).methods
  | .bridge accessor _ => ∃ c, t.bridge? c q.member = some accessor
  | .extension m => ∃ name, m ∈ t.extensionsFor q.receiver name []
  | _ => True

theorem mem_of_mem_bestOverloads {receiver : Ty} {candidates : List Method} {args : List Ty}
    {m : Method} (h : m ∈ t.bestOverloads receiver candidates args) : m ∈ candidates := by
  unfold bestOverloads at h
  split at h
  · cases h
  · exact (List.mem_filter.mp h).1

private theorem chosen_of_getterOn {c : ClassId} {binding : Binding} (hc : LooksAt q c)
    (h : (Rule.getterOn t q c).map .getter = some binding) : t.Chosen q binding := by
  obtain ⟨m, hm, rfl⟩ := Option.map_eq_some_iff.mp h
  exact ⟨c, hc, hm⟩

private theorem chosen_of_fieldOn {c : ClassId} {samePackage : Bool} {binding : Binding}
    (hc : LooksAt q c) (h : (Rule.fieldOn t q c samePackage).map .field = some binding) :
    t.Chosen q binding := by
  obtain ⟨f, hf, rfl⟩ := Option.map_eq_some_iff.mp h
  exact ⟨c, samePackage, hc, hf⟩

private theorem chosen_of_bridgeAccessor {binding : Binding}
    (h : Rule.bridgeAccessor.apply t q = some binding) : t.Chosen q binding := by
  obtain ⟨c, -, h⟩ := Option.bind_eq_some_iff.mp h
  obtain ⟨f, -, h⟩ := Option.bind_eq_some_iff.mp h
  split at h
  · obtain ⟨m, hm, rfl⟩ := Option.map_eq_some_iff.mp h
    exact ⟨c, hm⟩
  · cases h

private theorem chosen_of_interfaceGetter {binding : Binding}
    (h : Rule.interfaceGetter.apply t q = some binding) : t.Chosen q binding := by
  unfold Rule.interfaceGetter at h
  simp only at h
  split at h
  · obtain ⟨c, -, h⟩ := Option.bind_eq_some_iff.mp h
    obtain ⟨m, hm, rfl⟩ := Option.map_eq_some_iff.mp h
    have hgetter : ∃ c, t.getter? c ("get" ++ Text.capitalize q.member) = some m := by
      rcases of_orElse hm with hm | hm
      · obtain ⟨i, -, hm⟩ := List.exists_of_findSome?_eq_some hm
        exact ⟨i, hm⟩
      · exact ⟨_, hm⟩
    obtain ⟨i, hm⟩ := hgetter
    obtain ⟨k, -, hmem, hname, hparams⟩ := getter?_cases hm
    exact ⟨⟨hparams, _, Or.inl hname⟩, k, hmem⟩
  · cases h

private theorem chosen_of_extensionGetter {binding : Binding}
    (h : Rule.extensionGetter.apply t q = some binding) : t.Chosen q binding := by
  unfold Rule.extensionGetter at h
  simp only at h
  split at h
  · rename_i m hm
    cases h
    exact ⟨_, mem_of_mem_bestOverloads (hm ▸ List.mem_singleton_self m)⟩
  · cases h

private theorem chosen_of_rule {rule : Rule} {binding : Binding} (hrule : rule ∈ Rule.forProperties)
    (hb : rule.apply t q = some binding) : t.Chosen q binding := by
  simp only [Rule.forProperties, List.mem_cons, List.not_mem_nil, or_false] at hrule
  rcases hrule with rfl | rfl | rfl | rfl | rfl | rfl | rfl | rfl | rfl | rfl | rfl
  · simp only [Rule.arrayLength] at hb
    split at hb <;> cases hb
    trivial
  · simp only [Rule.collectionSize] at hb
    split at hb <;> cases hb
    trivial
  · obtain ⟨c, hc, hb⟩ := Option.bind_eq_some_iff.mp hb
    exact chosen_of_getterOn (Or.inl (Or.inl hc)) hb
  · obtain ⟨c, hc, hb⟩ := Option.bind_eq_some_iff.mp hb
    exact chosen_of_fieldOn (Or.inl (Or.inl hc)) hb
  · obtain ⟨c, -, hb⟩ := Option.bind_eq_some_iff.mp hb
    split at hb <;> cases hb
    trivial
  · obtain ⟨c, hc, hb⟩ := Option.bind_eq_some_iff.mp hb
    have hc : LooksAt q c := Or.inl (Or.inr hc)
    exact (of_orElse hb).elim (chosen_of_fieldOn hc) (chosen_of_getterOn hc)
  · simp only [Rule.classReceiver] at hb
    split at hb
    · rename_i hreceiver
      have hc : LooksAt q .cls := Or.inr ⟨hreceiver, rfl⟩
      exact (of_orElse hb).elim (chosen_of_getterOn hc) (chosen_of_fieldOn hc)
    · cases hb
  · exact chosen_of_bridgeAccessor hb
  · exact chosen_of_interfaceGetter hb
  · exact chosen_of_extensionGetter hb
  · simp only [Rule.mapOrList] at hb
    split at hb
    · cases hb
    · split at hb
      · cases hb
        trivial
      · split at hb <;> cases hb
        trivial

private theorem chosen_of_first? {rules : List Rule} {found : String × Binding}
    (hrules : ∀ rule ∈ rules, rule ∈ Rule.forProperties)
    (h : Rule.first? rules t q = some found) : t.Chosen q found.2 := by
  obtain ⟨rule, hrule, hr⟩ := List.exists_of_findSome?_eq_some h
  obtain ⟨binding, hb, rfl⟩ := Option.map_eq_some_iff.mp hr
  exact chosen_of_rule (hrules rule hrule) hb

/-- Whatever rule binds an access, it has its member from one of these places. -/
theorem select_chosen (t : ClassTable) (q : Query) : t.Chosen q (q.select t).2 := by
  unfold Query.select
  cases hf : Rule.first? Rule.forProperties t q with
  | none => exact trivial
  | some found => exact chosen_of_first? (fun _ h => h) hf

theorem selectDynamic_chosen (t : ClassTable) (q : Query) : t.Chosen q (q.selectDynamic t).2 := by
  unfold Query.selectDynamic
  cases hf : Rule.first? Rule.forDynamic t q with
  | none => exact trivial
  | some found => exact chosen_of_first? (by simp [Rule.forDynamic, Rule.forProperties]) hf

/-- An access to a getter of an object is bound to a method that is one. -/
theorem select_isGetter {m : Method}
    (h : (q.select t).2 = .getter m ∨ (q.select t).2 = .interfaceGetter m) : m.IsGetter := by
  have hchosen := select_chosen t q
  rcases h with h | h
  · rw [h] at hchosen
    obtain ⟨c, -, hm⟩ := hchosen
    rcases getterAlong_cases hm with ⟨c, hm⟩ | ⟨c, p, -, rfl⟩
    · exact (declaredGetter?_cases hm).1
    · exact propertyGetter_isGetter c p
  · rw [h] at hchosen
    exact hchosen.1

/-! ## Methods that are chosen -/

/-- The methods that accesses and operators can be bound to: those that the table lists, and the
getters of properties. -/
inductive Offers (t : ClassTable) : Method → Prop
  | declared {c : ClassId} {m : Method} : m ∈ (t.info c).methods → Offers t m
  | property {c : ClassId} {p : Property} : p ∈ (t.info c).properties →
      Offers t (Rule.propertyGetter c p)
  | bridge {c : ClassId} {b : Bridge} : b ∈ (t.info c).bridges → Offers t b.accessor
  | extension {m : Method} : m ∈ t.extensions → Offers t m

theorem offers_of_mem_extensionsFor {receiver : Ty} {name : String} {args : List Ty} {m : Method}
    (h : m ∈ t.extensionsFor receiver name args) : t.Offers m :=
  .extension (List.mem_filter.mp h).1

theorem Chosen.offers {binding : Binding} {m : Method} (h : t.Chosen q binding)
    (hm : binding.method? = some m) : t.Offers m := by
  cases binding with
  | getter getter =>
    cases hm
    obtain ⟨c, -, hm⟩ := h
    rcases getterAlong_cases hm with ⟨c, hm⟩ | ⟨c, p, hp, rfl⟩
    · obtain ⟨-, k, -, hk⟩ := declaredGetter?_cases hm
      exact .declared hk
    · exact .property hp
  | bridge accessor fieldStatic =>
    cases hm
    obtain ⟨c, hm⟩ := h
    obtain ⟨b, hb, rfl⟩ := Option.map_eq_some_iff.mp hm
    exact .bridge (List.mem_of_find?_eq_some hb)
  | interfaceGetter getter =>
    cases hm
    obtain ⟨-, k, hk⟩ := h
    exact .declared hk
  | extension method =>
    cases hm
    obtain ⟨name, hm⟩ := h
    exact offers_of_mem_extensionsFor hm
  | _ => cases hm

private theorem offers_of_declaredSubscript? {receiver argument : Ty} {m : Method}
    (h : t.declaredSubscript? receiver argument = some m) : t.Offers m := by
  obtain ⟨c, -, h⟩ := Option.bind_eq_some_iff.mp h
  obtain ⟨k, -, h⟩ := List.exists_of_findSome?_eq_some h
  exact .declared (List.mem_of_find?_eq_some h)

theorem mem_of_extensionOperator? {receiver argument : Ty} {op : String} {m : Method}
    (h : t.extensionOperator? receiver argument op = some m) :
    m ∈ t.extensionsFor receiver op [argument] := by
  have hmem : ∀ m ∈ t.bestOverloads receiver (t.extensionsFor receiver op [argument]) [argument],
      m ∈ t.extensionsFor receiver op [argument] := fun m hm => mem_of_mem_bestOverloads hm
  unfold extensionOperator? at h
  split at h
  · cases h
  · rename_i hm
    cases h
    exact hmem m (hm ▸ List.mem_cons_self)
  · rename_i hm
    split at h <;> cases h
    exact hmem m (hm ▸ List.mem_cons_self)

/-- The operators that need no method of the receiver are bound to none. -/
theorem method?_of_primitiveOperator? {options : Options} {receiver argument : Ty} {op : String}
    {binding : OperatorBinding}
    (h : t.primitiveOperator? options receiver argument op = some binding) :
    binding.method? = none := by
  unfold primitiveOperator? at h
  split at h
  · split at h
    · cases h
      rfl
    · split at h <;> cases h
      rfl
  · split at h
    · cases h
      rfl
    · split at h
      · obtain ⟨component, -, rfl⟩ := Option.map_eq_some_iff.mp h
        rfl
      · cases h

/-- Whatever an operator is bound to, the table offers the method. -/
theorem selectOperator_offers {options : Options} {receiver argument : Ty} {op : String}
    {binding : OperatorBinding} {m : Method}
    (h : t.selectOperator options receiver argument op = some binding)
    (hm : binding.method? = some m) : t.Offers m := by
  rcases of_orElse h with h | h
  · rw [method?_of_primitiveOperator? h] at hm
    cases hm
  rcases of_orElse h with h | h
  · obtain ⟨method, hmethod, rfl⟩ := Option.map_eq_some_iff.mp h
    cases hm
    exact offers_of_declaredSubscript? hmethod
  rcases of_orElse h with h | h
  · obtain ⟨method, hmethod, rfl⟩ := Option.map_eq_some_iff.mp h
    cases hm
    exact offers_of_mem_extensionsFor (mem_of_extensionOperator? hmethod)
  · split at h <;> cases h
    cases hm

end ClassTable

end CallSite
