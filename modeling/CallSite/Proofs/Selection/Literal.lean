import CallSite.Proofs.ClassTable.Built
import CallSite.Proofs.Selection.Source

/-!
# What class literals reach

A getter that is declared as a method and reached from a class literal is static, or a method of
`java.lang.Class` or a superclass of it. Declared properties and fields are not asked whether they
are static, so that those of the instances are reached as well.
-/

namespace CallSite

namespace ClassTable

variable {t : ClassTable} {q : Query}

/-- From a class literal a method of the instances is a getter on `java.lang.Class` only. A getter
that is made for a property hides the methods, whether they are static or not. -/
theorem getterAlong_literal (hl : q.literal.isSome = true) {cs : List ClassId} {m : Method}
    (h : Rule.getterAlong t q cs = some m) :
    m.isStatic = true ∨ Rule.declaredGetter? t q .cls = some m ∨
      ∃ c ∈ cs, ∃ p, t.property? c q.member = some p ∧ m = Rule.propertyGetter c p := by
  induction cs with
  | nil => cases h
  | cons c cs ih =>
    unfold Rule.getterAlong at h
    simp only at h
    split at h
    · cases h
    · rename_i hallowed
      split at h
      · rename_i p hp
        cases h
        exact Or.inr (Or.inr ⟨c, List.mem_cons_self, p, hp, rfl⟩)
      · rcases of_orElse h with h | h
        · by_cases hs : m.isStatic = true
          · exact Or.inl hs
          · have hc : c = .cls := by
              refine Decidable.byContradiction fun hne => hallowed ?_
              rw [h, hl]
              simp [hs, hne]
            exact Or.inr (Or.inl (hc ▸ h))
        · rcases ih h with hs | hcls | ⟨k, hk, p, hp, rfl⟩
          · exact Or.inl hs
          · exact Or.inr (Or.inl hcls)
          · exact Or.inr (Or.inr ⟨k, List.mem_cons_of_mem _ hk, p, hp, rfl⟩)

/-- A method that `declaredGetter?` finds belongs to the class or a superclass of it. -/
theorem declaredGetter?_owner (ho : t.Owned) {c : ClassId} {m : Method}
    (h : Rule.declaredGetter? t q c = some m) : m.owner ∈ t.superclasses c := by
  obtain ⟨-, k, hk, hm⟩ := declaredGetter?_cases h
  rw [(ho.classes k).methods m hm]
  exact hk

/-- The nearest field of the name belongs to the class on which it is found. -/
theorem fieldOn_cases (ho : t.Owned) {c : ClassId} {samePackage : Bool} {f : Field}
    (h : Rule.fieldOn t q c samePackage = some f) :
    f.owner ∈ t.superclasses c ∧ t.field? f.owner q.member = some f := by
  obtain ⟨h, -⟩ := Option.filter_eq_some_iff.mp h
  obtain ⟨k, hk, hf⟩ := List.exists_of_findSome?_eq_some h
  rw [(ho.classes k).fields f (List.mem_of_find?_eq_some hf)]
  exact ⟨hk, hf⟩

/-- The getter that a declared property of the instances will have, somewhere above the receiver's
class or the class that is named. -/
def InstanceGetter (t : ClassTable) (q : Query) (m : Method) : Prop :=
  ∃ start, Names q start ∧ ∃ c ∈ t.superclasses start, ∃ p, t.property? c q.member = some p ∧
    p.isStatic = false ∧ m = Rule.propertyGetter c p

/-- A field of the instances, somewhere above the receiver's class or the class that is named. -/
def InstanceField (t : ClassTable) (q : Query) (f : Field) : Prop :=
  f.isStatic = false ∧
    ∃ start, Names q start ∧ ∃ c ∈ t.superclasses start, t.field? c q.member = some f

/-- What a property access on a class literal is bound to, if it is a getter or a field: a static
member, or one of `java.lang.Class` and its superclasses, or else the getter of a declared instance
property, or an instance field. The last two are the only members that such an access reaches
without having an object to read them from. -/
theorem select_literal (t : ClassTable) (hb : t.Built) (site : Site) (enclosing : ClassId) (ty : Ty)
    (note : Note) (hl : site.receiver = .classLiteral ty note) :
    let q := Query.ofSite site enclosing
    (∀ m, (q.select t).2 = .getter m →
      m.isStatic = true ∨ m.owner ∈ t.superclasses .cls ∨ t.InstanceGetter q m) ∧
    (∀ f, (q.select t).2 = .field f →
      f.isStatic = true ∨ f.owner ∈ t.superclasses .cls ∨ t.InstanceField q f) := by
  intro q
  have ho := hb.owned
  have hliteral : q.literal.isSome = true := by
    show site.receiver.literalType?.isSome = true
    rw [hl]
    rfl
  constructor
  · intro m hm
    have hchosen := select_chosen t q
    rw [hm] at hchosen
    obtain ⟨start, hstart, hfound⟩ := hchosen
    rcases getterAlong_literal hliteral hfound with hs | hcls | ⟨c, hc, p, hp, rfl⟩
    · exact Or.inl hs
    · exact Or.inr (Or.inl (declaredGetter?_owner ho hcls))
    · cases hps : p.isStatic with
      | true => exact Or.inl hps
      | false =>
        rcases hstart with hstart | ⟨-, rfl⟩
        · exact Or.inr (Or.inr ⟨start, hstart, c, hc, p, hp, hps, rfl⟩)
        · exact Or.inr (Or.inl hc)
  · intro f hf
    have hchosen := select_chosen t q
    rw [hf] at hchosen
    obtain ⟨start, samePackage, hstart, hfound⟩ := hchosen
    obtain ⟨howner, hfield⟩ := fieldOn_cases ho hfound
    cases hfs : f.isStatic with
    | true => exact Or.inl rfl
    | false =>
      rcases hstart with hstart | ⟨-, rfl⟩
      · exact Or.inr (Or.inr ⟨hfs, start, hstart, f.owner, howner, hfield⟩)
      · exact Or.inr (Or.inl howner)

/-- A table with a class that has a property and a field for every instance. -/
def accountTable : ClassTable :=
  match ClassTable.standard.declare "p.Account" .cls with
  | .ok (t, account) =>
    (t.addProperty account { name := "total", type := .int }).addField account
      { name := "owner", owner := account, type := .ofClass .string }
  | .error _ => .standard

theorem accountTable_built : accountTable.Built := by
  have hdeclare : ClassTable.standard.declare "p.Account" .cls = .ok (_, ⟨24⟩) := rfl
  exact .addField _ _ (.addProperty _ _ (.declare .standard hdeclare))

/-- `Account.member`, as the access that code of the same class makes. -/
def onAccount (member : String) : Site :=
  { member, span := .none
    receiver := .classLiteral (.ofClass ⟨24⟩) { type := .object .cls [.ofClass ⟨24⟩] } }

/-- Neither the getter of the property nor the field is static, and both are reached. -/
theorem select_literal_instance :
    accountTable.Built ∧
      (∃ m, ((Query.ofSite (onAccount "total") ⟨24⟩).select accountTable).2 = .getter m ∧
        m.isStatic = false ∧ m.owner ∉ accountTable.superclasses .cls) ∧
      ∃ f, ((Query.ofSite (onAccount "owner") ⟨24⟩).select accountTable).2 = .field f ∧
        f.isStatic = false ∧ f.owner ∉ accountTable.superclasses .cls :=
  ⟨accountTable_built, ⟨_, rfl, rfl, by decide⟩, _, rfl, rfl, by decide⟩

/-- The simple name of the class is a getter of `java.lang.Class`. -/
theorem select_literal_simpleName :
    let q := Query.ofSite (onAccount "simpleName") ⟨24⟩
    let m := standardMethod .cls "getSimpleName" [] (.ofClass .string)
    (accountTable.Built ∧ (onAccount "simpleName").receiver.literalType? = some (.ofClass ⟨24⟩) ∧
        (q.select accountTable).2 = .getter m) ∧
      (m.isStatic = true ∨ m.owner ∈ accountTable.superclasses .cls ∨
        accountTable.InstanceGetter q m) :=
  ⟨⟨accountTable_built, rfl, rfl⟩,
    (select_literal accountTable accountTable_built (onAccount "simpleName") ⟨24⟩ _ _ rfl).1 _ rfl⟩

end ClassTable

end CallSite
