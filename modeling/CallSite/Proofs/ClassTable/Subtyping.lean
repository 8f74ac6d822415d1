import CallSite.Proofs.ClassTable.Distance

/-!
# Subtypes

The cost of a conversion and the test for superclasses and interfaces decide one relation between
classes: superclass links and then `interfaces` lists lead from one to the other. If the listed
interfaces are directly under the root class, a way to an interface goes no further up, so that the
relation is transitive.
-/

namespace CallSite

namespace ClassTable

variable {t : ClassTable} {c d i k : ClassId} {cost : Nat}

/-! ## One relation -/

theorem leadsTo_of_routeCosts (h : cost ∈ t.routeCosts c d) : t.LeadsTo c d := by
  obtain ⟨steps, links, ⟨s, hs, hlinks⟩, -⟩ := h
  exact ⟨s, reflTransGen_of_mem_chain (List.mem_of_getElem? hs), hlinks.reflTransGen⟩

theorem leadsTo_of_classDistance {n : Nat} (hd : d ≠ .object)
    (h : t.classDistance c d = some n) : t.LeadsTo c d :=
  leadsTo_of_routeCosts ((classDistance_eq_some_iff hd).mp h).1

/-- A class is converted just to those that it leads to, and to the root class. -/
theorem classDistance_isSome_iff (ht : t.Constructed) (hc : c.index < t.size) (hd : d ≠ .object) :
    (t.classDistance c d).isSome = true ↔ t.LeadsTo c d := by
  rw [Option.isSome_iff_exists]
  constructor
  · rintro ⟨n, hn⟩
    exact leadsTo_of_classDistance hd hn
  · intro h
    obtain ⟨cost, hcost⟩ := h.exists_routeCost ht hc
    obtain ⟨n, hn, -⟩ := exists_classDistance hd hcost
    exact ⟨n, hn⟩

/-- Whatever a class derives from or implements, it leads to. -/
theorem leadsTo_of_derives_or_implements (h : (t.derivesFrom c d || t.implements c d) = true) :
    t.LeadsTo c d := by
  rw [Bool.or_eq_true] at h
  rcases h with hderives | himplements
  · exact ⟨d, reflTransGen_of_mem_chain (List.contains_iff_mem.mp hderives), .refl⟩
  · unfold implements allInterfaces at himplements
    rw [interfaceSearch_eq] at himplements
    cases hfound : t.searchWithin t.interfaceDepth c with
    | none =>
      rw [hfound] at himplements
      cases himplements
    | some found =>
      rw [hfound] at himplements
      have hmem := List.contains_iff_mem.mp himplements
      obtain ⟨s, hs, hlists⟩ := ((visits_searchWithin hfound).reached d hmem).resolve_left nofun
      exact ⟨s, reflTransGen_of_mem_chain hs, hlists⟩

/-- If only interfaces are listed, a class derives from or implements what it leads to. -/
theorem derives_or_implements_iff (ht : t.Constructed) (hi : t.InterfacesOnly)
    (hk : k.index < t.size) :
    (t.derivesFrom k d || t.implements k d) = true ↔ t.LeadsTo k d := by
  refine ⟨leadsTo_of_derives_or_implements, ?_⟩
  rintro ⟨s, hs, hlists⟩
  rw [Bool.or_eq_true, implements_iff ht hi hk]
  unfold derivesFrom
  rw [List.contains_iff_mem, ht.consistent.mem_superclasses_iff hk]
  rcases hlists.cases_tail with rfl | ⟨i, -, hlast⟩
  · exact .inl hs
  · exact .inr ⟨hi.isInterface hlast, s, hs, hlists⟩

/-- A class that leads to another one is in the table. -/
theorem LeadsTo.index_lt (h : t.LeadsTo c d) (hne : c ≠ d) : c.index < t.size := by
  obtain ⟨s, hs, hlists⟩ := h
  rcases hs.cases_head with rfl | ⟨e, he, -⟩
  · rcases hlists.cases_head with rfl | ⟨e, he, -⟩
    · exact absurd rfl hne
    · exact index_lt_of_lists he
  · exact index_lt_of_link ClassInfo.superclass rfl he

theorem Consistent.index_lt_of_leadsTo (h : t.Consistent) (hc : c.index < t.size)
    (hd : t.LeadsTo c d) : d.index < t.size := by
  obtain ⟨s, hs, hlists⟩ := hd
  rcases hlists.cases_tail with rfl | ⟨i, -, hlast⟩
  · rcases hs.cases_tail with rfl | ⟨e, -, hlast⟩
    · exact hc
    · exact h.linked.superclasses.lt e _ hlast
  · exact h.interfaces i d hlast

/-! ## Interfaces under the root class -/

/-- The classes that are listed as interfaces are interfaces and directly extend the root class,
which lists none. -/
structure InterfacesUnderRoot (t : ClassTable) : Prop where
  listed : ∀ info ∈ t.classes, ∀ i ∈ info.interfaces,
    (t.info i).isInterface = true ∧ t.superclass? i = some .object
  root : (t.info .object).interfaces.isEmpty = true

instance (t : ClassTable) : Decidable t.InterfacesUnderRoot :=
  decidable_of_iff ((∀ info ∈ t.classes, ∀ i ∈ info.interfaces,
      (t.info i).isInterface = true ∧ t.superclass? i = some .object) ∧
    (t.info .object).interfaces.isEmpty = true)
    ⟨fun h => ⟨h.1, h.2⟩, fun h => ⟨h.listed, h.root⟩⟩

namespace InterfacesUnderRoot

theorem interfacesOnly (h : t.InterfacesUnderRoot) : t.InterfacesOnly :=
  fun info hinfo i hi => (h.listed info hinfo i hi).1

theorem superclass_of_lists (h : t.InterfacesUnderRoot) (hi : t.Lists c i) :
    t.superclass? i = some .object := by
  have hc : c.index < t.classes.length := index_lt_of_lists hi
  unfold Lists at hi
  rw [info_eq_getElem hc] at hi
  exact (h.listed _ (List.getElem_mem hc) i hi).2

/-- Nothing lies beyond the root class. -/
theorem eq_object_of_leadsTo (h : t.InterfacesUnderRoot) (ht : t.Constructed)
    (hd : t.LeadsTo .object d) : d = .object := by
  obtain ⟨s, hs, hlists⟩ := hd
  obtain ⟨last, n, rfl, hleads⟩ := ht.consistent.linked.superclasses.ends .object ht.built.size_pos
  rcases hs.cases_head with rfl | ⟨e, he, -⟩
  · rcases hlists.cases_head with rfl | ⟨e, he, -⟩
    · rfl
    · unfold Lists at he
      rw [List.isEmpty_iff.mp h.root] at he
      cases he
  · cases hleads.ends.symm.trans he

/-- What a class leads to leads on to the rest. From a listed interface the only superclass link
goes to the root class, where every way ends. -/
theorem leadsTo_trans (h : t.InterfacesUnderRoot) (ht : t.Constructed) (hc : t.LeadsTo c i)
    (hi : t.LeadsTo i d) (hd : d ≠ .object) : t.LeadsTo c d := by
  obtain ⟨s, hs, hlists⟩ := hc
  obtain ⟨e, he, hlists'⟩ := hi
  rcases hlists.cases_tail with rfl | ⟨j, -, hlast⟩
  · exact ⟨e, hs.trans he, hlists'⟩
  · rcases he.cases_head with rfl | ⟨k, hk, hrest⟩
    · exact ⟨s, hs, hlists.trans hlists'⟩
    · cases hk.symm.trans (h.superclass_of_lists hlast)
      exact absurd (h.eq_object_of_leadsTo ht ⟨e, hrest, hlists'⟩) hd

end InterfacesUnderRoot

/-! ## Assignability -/

/-- A class converts to those it derives from, whatever their type arguments. -/
theorem assignable_of_derivesFrom {c d : ClassId} {args args' : List Ty}
    (hd : d = .object → c = .object) (h : t.derivesFrom c d = true) :
    t.assignable (.object c args) (.object d args') = true := by
  obtain ⟨i, hi⟩ := List.mem_iff_getElem?.mp (List.contains_iff_mem.mp h)
  have hmem : (d, i) ∈ (t.superclasses c).zipIdx := List.mem_zipIdx_iff_getElem?.mpr hi
  show (t.classDistance c d).isSome = true
  unfold classDistance
  rw [if_neg fun h => h.2 (hd h.1), Option.isSome_iff_ne_none, ne_eq, List.min?_eq_none_iff]
  refine List.ne_nil_of_mem (a := 2 * i) (List.mem_filterMap.mpr ⟨(d, i), hmem, ?_⟩)
  simp only [linkCost?, if_true, Option.map_some, Nat.add_zero]

theorem derivesFrom_self (h : 0 < t.size) (c : ClassId) : t.derivesFrom c c = true := by
  obtain ⟨above, habove⟩ : ∃ above, t.superclasses c = c :: above := exists_chain_cons h c
  unfold derivesFrom
  rw [habove]
  exact List.contains_iff_mem.mpr List.mem_cons_self

/-- Objects of a class can be used as that class, whatever their type arguments. -/
theorem assignable_self (h : 0 < t.size) (c : ClassId) (args args' : List Ty) :
    t.assignable (.object c args) (.object c args') = true :=
  assignable_of_derivesFrom id (derivesFrom_self h c)

/-! ## Capabilities -/

/-- Every class derives from the root class. -/
theorem object_mem_superclasses (ht : t.Constructed) (hc : c.index < t.size) :
    .object ∈ t.superclasses c := by
  obtain ⟨last, rfl, -, hlast, -⟩ := ht.consistent.linked.superclasses.chain_ends hc
  exact List.mem_of_getLast? hlast

/-- If only interfaces are listed, a class has the capabilities of all that it leads to. -/
theorem hasCapability_iff (ht : t.Constructed) (hi : t.InterfacesOnly) {args : List Ty} :
    t.hasCapability (.object c args) d = true ↔ t.LeadsTo c d := by
  refine ⟨leadsTo_of_derives_or_implements, fun h => ?_⟩
  by_cases hcd : c = d
  · subst hcd
    exact Bool.or_eq_true_iff.mpr (.inl (derivesFrom_self ht.built.size_pos c))
  · exact (derives_or_implements_iff ht hi (h.index_lt hcd)).mpr h

/-- The root class is reached by superclass links, and costs what these cost and more. -/
private theorem classDistance_object (hc : c ≠ .object) :
    (t.classDistance c .object).isSome = true ↔ .object ∈ t.superclasses c := by
  unfold classDistance
  rw [if_pos ⟨rfl, hc⟩, Option.isSome_map, List.isSome_idxOf?]

/-- Objects of a class can be used as the classes that it leads to. -/
theorem assignable_object_iff (ht : t.Constructed) {args args' : List Ty} :
    t.assignable (.object c args) (.object d args') = true ↔ t.LeadsTo c d := by
  by_cases hcd : c = d
  · subst hcd
    exact iff_of_true (assignable_self ht.built.size_pos ..) ⟨c, .refl, .refl⟩
  show (t.classDistance c d).isSome = true ↔ _
  by_cases hd : d = .object
  · subst hd
    rw [classDistance_object hcd]
    constructor
    · exact fun h => ⟨_, reflTransGen_of_mem_chain h, .refl⟩
    · exact fun h => object_mem_superclasses ht (h.index_lt hcd)
  · constructor
    · intro h
      obtain ⟨n, hn⟩ := Option.isSome_iff_exists.mp h
      exact leadsTo_of_classDistance hd hn
    · exact fun h => (classDistance_isSome_iff ht (h.index_lt hcd) hd).mpr h

end ClassTable

end CallSite
