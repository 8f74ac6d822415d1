import CallSite.ClassTable.Standard

/-!
# Tables that can be built

A class table is the standard one after any number of the operations that extend tables. In such a
table every member belongs to the class that lists it, the methods that others call without a
receiver are static, and the standard classes have their own names.
-/

namespace CallSite

namespace ClassTable

/-- The tables that can be built. -/
inductive Built : ClassTable → Prop
  | standard : Built standard
  | declare {t t' name kind c} : Built t → t.declare name kind = .ok (t', c) → Built t'
  | setSuperclass {t t' c superclass} : Built t → t.setSuperclass c superclass = .ok t' → Built t'
  | setOuter {t t' c outer} : Built t → t.setOuter c outer = .ok t' → Built t'
  | addInterface {t} (c interface : ClassId) : Built t → Built (t.addInterface c interface)
  | setUnit {t} (c : ClassId) (unit : Nat) : Built t → Built (t.setUnit c unit)
  | markWithClosure {t} (c : ClassId) : Built t → Built (t.markWithClosure c)
  | addField {t} (c : ClassId) (field : Field) : Built t → Built (t.addField c field)
  | addMethod {t} (c : ClassId) (method : Method) : Built t → Built (t.addMethod c method)
  | addProperty {t} (c : ClassId) (property : Property) : Built t → Built (t.addProperty c property)
  | addBridge {t} (c : ClassId) (field : String) (accessor : Method) : Built t →
      Built (t.addBridge c field accessor)
  | allowBridges {t} (a b : ClassId) : Built t → Built (t.allowBridges a b)
  | addExtension {t} (method : Method) : Built t → Built (t.addExtension method)

end ClassTable

/-- The members of the class are its own, and its bridge accessors are static. -/
structure ClassInfo.OwnedBy (info : ClassInfo) (c : ClassId) : Prop where
  fields : ∀ f ∈ info.fields, f.owner = c
  methods : ∀ m ∈ info.methods, m.owner = c
  bridges : ∀ b ∈ info.bridges, b.accessor.owner = c ∧ b.accessor.isStatic = true

namespace ClassTable

/-- Every class owns what it lists, and the extension methods belong to their holder. -/
structure Owned (t : ClassTable) : Prop where
  classes : ∀ c, (t.info c).OwnedBy c
  extensions : ∀ m ∈ t.extensions, m.owner = .extensions ∧ m.isStatic = true

/-- Changing one class changes no other. -/
theorem info_update (t : ClassTable) (c k : ClassId) (change : ClassInfo → ClassInfo) :
    (t.update c change).info k = t.info k ∨
      k = c ∧ (t.update c change).info k = change (t.info k) := by
  unfold info update
  rw [List.getElem?_modify]
  by_cases hk : c.index = k.index
  · cases t.classes[k.index]? with
    | none => exact Or.inl rfl
    | some info =>
      simp only [if_pos hk]
      exact Or.inr ⟨congrArg ClassId.mk hk.symm, rfl⟩
  · simp only [if_neg hk]
    cases t.classes[k.index]? <;> exact Or.inl rfl

/-- A superclass link is refused if the superclass's chain comes to the class itself. -/
theorem setSuperclass_eq_ok {t t' : ClassTable} {c superclass : ClassId}
    (h : t.setSuperclass c superclass = .ok t') :
    c ∉ t.superclasses superclass ∧
      t' = t.update c fun info => { info with superclass := some superclass } := by
  unfold setSuperclass at h
  split at h
  · cases h
  · rename_i hfree
    cases h
    exact ⟨fun hmem => hfree (List.contains_iff_mem.mpr hmem), rfl⟩

/-- A nesting link is refused if the outer class's chain comes to the class itself. -/
theorem setOuter_eq_ok {t t' : ClassTable} {c outer : ClassId} (h : t.setOuter c outer = .ok t') :
    c ∉ t.outers outer ∧ t' = t.update c fun info => { info with outer := some outer } := by
  unfold setOuter at h
  split at h
  · cases h
  · rename_i hfree
    cases h
    exact ⟨fun hmem => hfree (List.contains_iff_mem.mpr hmem), rfl⟩

theorem Owned.update {t : ClassTable} (h : t.Owned) {c : ClassId} {change : ClassInfo → ClassInfo}
    (hc : ∀ info : ClassInfo, info.OwnedBy c → (change info).OwnedBy c) :
    (t.update c change).Owned := by
  refine ⟨fun k => ?_, h.extensions⟩
  rcases t.info_update c k change with hk | ⟨rfl, hk⟩
  · rw [hk]
    exact h.classes k
  · rw [hk]
    exact hc _ (h.classes k)

private theorem Owned.declare {t t' : ClassTable} (h : t.Owned) {name : String} {kind : ClassKind}
    {c : ClassId} (hd : t.declare name kind = .ok (t', c)) : t'.Owned := by
  unfold ClassTable.declare at hd
  split at hd
  · cases hd
  · cases hd
    refine ⟨fun k => ?_, h.extensions⟩
    have hk := h.classes k
    unfold info at hk ⊢
    rw [List.getElem?_append]
    split
    · exact hk
    · cases hi : k.index - t.classes.length with
      | zero => exact ⟨nofun, nofun, nofun⟩
      | succ i => exact ⟨nofun, nofun, nofun⟩

/-- The standard table ends with class 23. -/
theorem info_standard_of_le {c : ClassId} (h : 24 ≤ c.index) :
    standard.info c = ⟨"", .cls, none, [], none, [], [], [], [], 0, false⟩ := by
  have hnone : standard.classes[c.index]? = none := List.getElem?_eq_none h
  unfold info
  rw [hnone]
  rfl

private theorem owned_standard : standard.Owned := by
  refine ⟨fun k => ?_, by decide⟩
  by_cases hk : k.index < 24
  · have hall : ∀ i < 24, (standard.info ⟨i⟩).fields = [] ∧
        (∀ m ∈ (standard.info ⟨i⟩).methods, m.owner = ⟨i⟩) ∧
        (standard.info ⟨i⟩).bridges = [] := by decide
    obtain ⟨hf, hm, hb⟩ := hall k.index hk
    refine ⟨fun f h => ?_, hm, fun b h => ?_⟩
    · rw [hf] at h
      cases h
    · rw [hb] at h
      cases h
  · rw [info_standard_of_le (Nat.le_of_not_lt hk)]
    exact ⟨nofun, nofun, nofun⟩

/-- In every table that can be built, members belong to the classes that list them. -/
theorem Built.owned {t : ClassTable} (h : Built t) : t.Owned := by
  induction h with
  | standard => exact owned_standard
  | declare _ hd ih => exact ih.declare hd
  | setSuperclass _ hs ih =>
    obtain ⟨-, rfl⟩ := setSuperclass_eq_ok hs
    exact ih.update fun _ hi => ⟨hi.fields, hi.methods, hi.bridges⟩
  | setOuter _ hs ih =>
    obtain ⟨-, rfl⟩ := setOuter_eq_ok hs
    exact ih.update fun _ hi => ⟨hi.fields, hi.methods, hi.bridges⟩
  | addInterface c interface _ ih =>
    refine ih.update fun info hi => ?_
    split
    · exact hi
    · exact ⟨hi.fields, hi.methods, hi.bridges⟩
  | setUnit c unit _ ih => exact ih.update fun _ hi => ⟨hi.fields, hi.methods, hi.bridges⟩
  | markWithClosure c _ ih => exact ih.update fun _ hi => ⟨hi.fields, hi.methods, hi.bridges⟩
  | addField c field _ ih =>
    refine ih.update fun info hi => ⟨fun f hf => ?_, hi.methods, hi.bridges⟩
    rcases List.mem_append.mp hf with hf | hf
    · exact hi.fields f hf
    · rw [List.mem_singleton.mp hf]
  | addMethod c method _ ih =>
    refine ih.update fun info hi => ⟨hi.fields, fun m hm => ?_, hi.bridges⟩
    rcases List.mem_append.mp hm with hm | hm
    · exact hi.methods m hm
    · rw [List.mem_singleton.mp hm]
  | addProperty c property _ ih => exact ih.update fun _ hi => ⟨hi.fields, hi.methods, hi.bridges⟩
  | addBridge c field accessor _ ih =>
    refine ih.update fun info hi => ⟨hi.fields, hi.methods, fun b hb => ?_⟩
    rcases List.mem_append.mp hb with hb | hb
    · exact hi.bridges b hb
    · rw [List.mem_singleton.mp hb]
      exact ⟨rfl, rfl⟩
  | allowBridges a b _ ih => exact ⟨ih.classes, ih.extensions⟩
  | addExtension method _ ih =>
    refine ⟨ih.classes, fun m hm => ?_⟩
    rcases List.mem_append.mp hm with hm | hm
    · exact ih.extensions m hm
    · rw [List.mem_singleton.mp hm]
      exact ⟨rfl, rfl⟩

/-! ## Names and kinds of the standard classes -/

private def nameAndKind (info : ClassInfo) : String × ClassKind := (info.name, info.kind)

/-- The classes of the standard table keep their places, names and kinds. -/
private def Named (t : ClassTable) : Prop :=
  ∀ i < 24, (t.classes[i]?).map nameAndKind = (standard.classes[i]?).map nameAndKind

private theorem Named.update {t : ClassTable} (h : t.Named) {c : ClassId}
    {change : ClassInfo → ClassInfo} (hc : ∀ info, nameAndKind (change info) = nameAndKind info) :
    (t.update c change).Named := by
  intro i hi
  rw [← h i hi]
  unfold ClassTable.update
  rw [List.getElem?_modify]
  cases t.classes[i]? with
  | none => rfl
  | some info =>
    show some (nameAndKind (if c.index = i then change info else info)) = some (nameAndKind info)
    split
    · rw [hc]
    · rfl

private theorem Named.declare {t t' : ClassTable} (h : t.Named) {name : String} {kind : ClassKind}
    {c : ClassId} (hd : t.declare name kind = .ok (t', c)) : t'.Named := by
  unfold ClassTable.declare at hd
  split at hd
  · cases hd
  · cases hd
    intro i hi
    have hlt : i < t.classes.length := by
      refine Nat.lt_of_not_le fun hle => ?_
      have hnone := h i hi
      rw [List.getElem?_eq_none hle, List.getElem?_eq_getElem hi] at hnone
      cases hnone
    rw [List.getElem?_append_left hlt]
    exact h i hi

private theorem Built.named {t : ClassTable} (h : Built t) : t.Named := by
  induction h with
  | standard => exact fun _ _ => rfl
  | declare _ hd ih => exact ih.declare hd
  | setSuperclass _ hs ih =>
    obtain ⟨-, rfl⟩ := setSuperclass_eq_ok hs
    exact ih.update fun _ => rfl
  | setOuter _ hs ih =>
    obtain ⟨-, rfl⟩ := setOuter_eq_ok hs
    exact ih.update fun _ => rfl
  | addInterface c interface _ ih =>
    refine ih.update fun info => ?_
    split <;> rfl
  | setUnit c unit _ ih => exact ih.update fun _ => rfl
  | markWithClosure c _ ih => exact ih.update fun _ => rfl
  | addField c field _ ih => exact ih.update fun _ => rfl
  | addMethod c method _ ih => exact ih.update fun _ => rfl
  | addProperty c property _ ih => exact ih.update fun _ => rfl
  | addBridge c field accessor _ ih => exact ih.update fun _ => rfl
  | allowBridges a b _ ih => exact ih
  | addExtension method _ ih => exact ih

private theorem Built.nameAndKind_eq {t : ClassTable} (h : t.Built) {c : ClassId}
    (hc : c.index < 24) : nameAndKind (t.info c) = nameAndKind (ClassTable.standard.info c) := by
  have hinfo : ∀ t : ClassTable,
      nameAndKind (t.info c) = ((t.classes[c.index]?).map nameAndKind).getD ("", .cls) := by
    intro t
    unfold ClassTable.info
    cases t.classes[c.index]? <;> rfl
  rw [hinfo t, h.named c.index hc, ← hinfo]

/-- No operation renames a class of the standard table. -/
theorem Built.name_eq {t : ClassTable} (h : t.Built) {c : ClassId} (hc : c.index < 24) :
    t.name c = ClassTable.standard.name c :=
  congrArg Prod.fst (h.nameAndKind_eq hc)

/-- No operation makes an interface of a class of the standard table, or the other way round. -/
theorem Built.isInterface_eq {t : ClassTable} (h : t.Built) {c : ClassId} (hc : c.index < 24) :
    (t.info c).isInterface = (ClassTable.standard.info c).isInterface :=
  congrArg (fun info : String × ClassKind => info.2 == .interface) (h.nameAndKind_eq hc)

theorem Built.internalName_eq {t : ClassTable} (h : t.Built) {c : ClassId} (hc : c.index < 24) :
    t.internalName c = ClassTable.standard.internalName c := by
  unfold ClassTable.internalName
  rw [h.name_eq hc]

theorem Built.internalName_object {t : ClassTable} (h : t.Built) :
    t.internalName .object = "java/lang/Object" := by
  rw [h.internalName_eq (by decide)]
  rfl

theorem Built.size_pos {t : ClassTable} (h : t.Built) : 0 < t.size := by
  refine Nat.pos_of_ne_zero fun hsize => ?_
  have hname : t.name .object = "java.lang.Object" := by
    rw [h.name_eq (by decide)]
    rfl
  unfold name info at hname
  rw [List.eq_nil_of_length_eq_zero hsize] at hname
  exact absurd hname (by decide)

end ClassTable

end CallSite
