import CallSite.ClassTable.Interfaces
import CallSite.Proofs.ClassTable.Chains

/-!
# Searches for interfaces

The search for the interfaces of a class ends if no circle of plain classes is in its way: between
two finds it then meets no class twice, and there are at most as many finds as classes. No such
circle is there if the `interfaces` lists name interfaces only.
-/

namespace CallSite

namespace ClassTable

/-- The `interfaces` lists of all classes name interfaces only. -/
def InterfacesOnly (t : ClassTable) : Prop :=
  ∀ info ∈ t.classes, ∀ i ∈ info.interfaces, (t.info i).isInterface = true

instance (t : ClassTable) : Decidable t.InterfacesOnly :=
  inferInstanceAs (Decidable (∀ info ∈ t.classes, ∀ i ∈ info.interfaces, _))

variable {t : ClassTable}

theorem InterfacesOnly.isInterface (h : t.InterfacesOnly) {c i : ClassId}
    (hi : i ∈ (t.info c).interfaces) : (t.info i).isInterface = true := by
  unfold info at hi
  cases hc : t.classes[c.index]? with
  | none =>
    rw [hc] at hi
    cases hi
  | some info =>
    rw [hc] at hi
    exact h info (List.mem_of_getElem? hc) i hi

/-- An interface is a class of the table. -/
theorem index_lt_of_isInterface {i : ClassId} (h : (t.info i).isInterface = true) :
    i.index < t.size := by
  refine Nat.lt_of_not_le fun hle => ?_
  rw [info_of_le hle] at h
  cases h

/-- What a search has found: interfaces, each once. -/
structure Found (t : ClassTable) (found : List ClassId) : Prop where
  nodup : found.Nodup
  interfaces : ∀ i ∈ found, (t.info i).isInterface = true

/-- The search that has found `found` so far ends, with as many finds or more. -/
def Ends (t : ClassTable) (found : List ClassId) (search : Option (List ClassId)) : Prop :=
  ∃ found', search = some found' ∧ t.Found found' ∧ found.length ≤ found'.length

theorem Found.insert {found : List ClassId} {c : ClassId} (h : t.Found found)
    (hc : (t.info c).isInterface = true) (hnew : c ∉ found) : t.Found (found ++ [c]) := by
  refine ⟨List.nodup_append.mpr ⟨h.nodup, List.nodup_singleton c, ?_⟩, fun i hi => ?_⟩
  · rintro i hi j hj rfl
    exact hnew (List.mem_singleton.mp hj ▸ hi)
  · rcases List.mem_append.mp hi with hi | hi
    · exact h.interfaces i hi
    · exact List.mem_singleton.mp hi ▸ hc

theorem Found.length_le {found : List ClassId} (h : t.Found found) : found.length ≤ t.size :=
  length_le_of_index_lt h.nodup fun i hi => index_lt_of_isInterface (h.interfaces i hi)

/-- A search from one class after the other ends if each of them does. -/
theorem ends_foldlM {visit : List ClassId → ClassId → Option (List ClassId)} {cs : List ClassId}
    {found : List ClassId} (h : t.Found found)
    (hv : ∀ c ∈ cs, ∀ found', t.Found found' → found.length ≤ found'.length →
      t.Ends found' (visit found' c)) : t.Ends found (cs.foldlM visit found) := by
  induction cs generalizing found with
  | nil => exact ⟨found, rfl, h, Nat.le_refl _⟩
  | cons c cs ih =>
    obtain ⟨mid, hmid, hfound, hle⟩ := hv c List.mem_cons_self found h (Nat.le_refl _)
    obtain ⟨last, hlast, hfound', hle'⟩ := ih hfound fun k hk found' hf hm =>
      hv k (List.mem_cons_of_mem c hk) found' hf (Nat.le_trans hle hm)
    refine ⟨last, ?_, hfound', Nat.le_trans hle hle'⟩
    rw [List.foldlM_cons, hmid]
    exact hlast

/-! ## Circles of plain classes -/

/-- The class `c` lists `i` among its interfaces. -/
def Lists (t : ClassTable) (c i : ClassId) : Prop := i ∈ (t.info c).interfaces

/-- The class `c` lists `d`, and neither is an interface. -/
structure ListsPlain (t : ClassTable) (c d : ClassId) : Prop where
  lists : t.Lists c d
  source : (t.info c).isInterface = false
  target : (t.info d).isInterface = false

/-- The `interfaces` lists lead from `c` back to `c`, through plain classes all the way. -/
def OnPlainCircle (t : ClassTable) (c : ClassId) : Prop := Relation.TransGen t.ListsPlain c c

/-- From `c`, the `interfaces` lists lead to no circle of plain classes. -/
def FreeOfPlainCircles (t : ClassTable) (c : ClassId) : Prop :=
  ∀ k, Relation.ReflTransGen t.Lists c k → ¬ t.OnPlainCircle k

theorem FreeOfPlainCircles.of_lists {c i : ClassId} (h : t.FreeOfPlainCircles c)
    (hi : t.Lists c i) : t.FreeOfPlainCircles i := fun k hk => h k (.head hi hk)

theorem InterfacesOnly.freeOfPlainCircles (h : t.InterfacesOnly) (c : ClassId) :
    t.FreeOfPlainCircles c := by
  intro k _ hcircle
  obtain ⟨d, -, hlast⟩ := Relation.TransGen.tail'_iff.mp hcircle
  exact Bool.false_ne_true (hlast.target.symm.trans (h.isInterface hlast.lists))

theorem index_lt_of_lists {c i : ClassId} (h : t.Lists c i) : c.index < t.size :=
  index_lt_of_mem ClassInfo.interfaces rfl h

/-! ## The room that a search needs -/

/-- The links that a search may follow from its next find on, when it has had `finds` of them. -/
def searchRoom (t : ClassTable) (finds : Nat) : Nat := (t.size + 1) * (t.size - finds)

theorem searchRoom_le {m n : Nat} (h : m ≤ n) : t.searchRoom n ≤ t.searchRoom m :=
  Nat.mul_le_mul_left _ (Nat.sub_le_sub_left h _)

theorem searchRoom_succ {n : Nat} (h : n < t.size) :
    t.searchRoom (n + 1) + t.size + 1 = t.searchRoom n := by
  have hsub : t.size - n = t.size - (n + 1) + 1 := by omega
  unfold searchRoom
  rw [hsub, Nat.mul_succ, Nat.add_assoc]

theorem interfaceDepth_eq (t : ClassTable) : t.interfaceDepth = t.searchRoom 0 + t.size + 1 := by
  unfold interfaceDepth searchRoom
  rw [Nat.mul_succ, Nat.add_assoc, Nat.sub_zero]

/-- How a search that has found `found` comes to `c`: as a find, or after the plain classes `way`,
which it has met since the last find. It then needs room for the plain classes that are left. -/
inductive Comes (t : ClassTable) (found : List ClassId) : Nat → ClassId → Prop
  | find {c} : (t.info c).isInterface = true → c ∉ found → Comes t found 0 c
  | plain {c} (way : List ClassId) : (t.info c).isInterface = false → way.Nodup →
      (∀ s ∈ way, Relation.TransGen t.ListsPlain s c) → Comes t found (t.size - way.length) c

/-- The interfaces listed by a class are visited unless they are found already. -/
private theorem ends_listed {depth : Nat} {found : List ClassId} {c : ClassId} (h : t.Found found)
    (hv : ∀ i found', t.Lists c i → t.Found found' → i ∉ found' → found.length ≤ found'.length →
      t.Ends found' (t.visitInterfaces depth found' i)) :
    t.Ends found ((t.info c).interfaces.foldlM
      (fun found i => if found.contains i then some found else t.visitInterfaces depth found i)
      found) := by
  refine ends_foldlM h fun i hmem found' hf hle => ?_
  by_cases hin : i ∈ found'
  · rw [if_pos (List.contains_iff_mem.mpr hin)]
    exact ⟨found', rfl, hf, Nat.le_refl _⟩
  · rw [if_neg (mt List.contains_iff_mem.mp hin)]
    exact hv i found' hmem hf hin hle

/-- A visit that finds nothing goes on to the listed classes. -/
theorem visitInterfaces_old {depth : Nat} {found : List ClassId} {c : ClassId}
    (h : (t.info c).isInterface = false ∨ c ∈ found) :
    t.visitInterfaces (depth + 1) found c = (t.info c).interfaces.foldlM
      (fun found i => if found.contains i then some found else t.visitInterfaces depth found i)
      found := by
  have hold : ((t.info c).isInterface && !found.contains c) = false := by
    rcases h with h | h
    · rw [h, Bool.false_and]
    · rw [List.contains_iff_mem.mpr h, Bool.not_true, Bool.and_false]
  rw [visitInterfaces, hold, if_neg Bool.false_ne_true]

/-- A find is added before the listed classes are visited. -/
theorem visitInterfaces_new {depth : Nat} {found : List ClassId} {c : ClassId}
    (hc : (t.info c).isInterface = true) (hnew : c ∉ found) :
    t.visitInterfaces (depth + 1) found c = (t.info c).interfaces.foldlM
      (fun found i => if found.contains i then some found else t.visitInterfaces depth found i)
      (found ++ [c]) := by
  have hadd : ((t.info c).isInterface && !found.contains c) = true := by
    rw [hc, List.contains_eq_mem, decide_eq_false hnew]
    rfl
  rw [visitInterfaces, hadd, if_pos rfl]

/-- A visit with enough room ends. A find takes up the room of one find and leaves that of all plain
classes; a plain class takes up one place among these, for it is not on its own way. -/
private theorem ends_visit {depth room : Nat} {found : List ClassId} {c : ClassId}
    (h : t.Found found) (hfree : t.FreeOfPlainCircles c) (hc : t.Comes found room c)
    (hroom : t.searchRoom found.length + room < depth) :
    t.Ends found (t.visitInterfaces depth found c) := by
  induction depth generalizing room found c with
  | zero => omega
  | succ depth ih =>
    cases hc with
    | find hc hnew =>
      have hfound := h.insert hc hnew
      have hlength : (found ++ [c]).length = found.length + 1 := List.length_append
      have hless := searchRoom_succ (t := t) (n := found.length) (by
        have hle := hfound.length_le
        omega)
      obtain ⟨last, hlast, hf, hle⟩ := ends_listed hfound
        fun i mid hi hmid hni hle => by
          have hmono := searchRoom_le (t := t) (hlength ▸ hle)
          cases hkind : (t.info i).isInterface with
          | true => exact ih hmid (hfree.of_lists hi) (.find hkind hni) (by omega)
          | false =>
            refine ih hmid (hfree.of_lists hi) (.plain [] hkind List.nodup_nil nofun) ?_
            show t.searchRoom mid.length + (t.size - 0) < depth
            omega
      exact ⟨last, (visitInterfaces_new hc hnew).trans hlast, hf, by omega⟩
    | plain way hc hn hw =>
      rw [visitInterfaces_old (.inl hc)]
      refine ends_listed h fun i mid hi hmid hni hle => ?_
      have hmono := searchRoom_le (t := t) hle
      have hnew : (c :: way).Nodup :=
        List.nodup_cons.mpr ⟨fun hmem => hfree c .refl (hw c hmem), hn⟩
      have hshort : (c :: way).length ≤ t.size := by
        refine length_le_of_index_lt hnew fun s hs => ?_
        rcases List.mem_cons.mp hs with rfl | hs
        · exact index_lt_of_lists hi
        · obtain ⟨k, hk, -⟩ := Relation.TransGen.head'_iff.mp (hw s hs)
          exact index_lt_of_lists hk.lists
      have hlength : (c :: way).length = way.length + 1 := rfl
      cases hkind : (t.info i).isInterface with
      | true => exact ih hmid (hfree.of_lists hi) (.find hkind hni) (by omega)
      | false =>
        have hlast : t.ListsPlain c i := ⟨hi, hc, hkind⟩
        refine ih hmid (hfree.of_lists hi) (.plain (c :: way) hkind hnew fun s hs => ?_) (by omega)
        rcases List.mem_cons.mp hs with rfl | hs
        · exact .single hlast
        · exact (hw s hs).tail hlast

/-- The visit of a superclass ends also when it is an interface that was found before. -/
theorem ends_visitInterfaces {found : List ClassId} {c : ClassId} (h : t.Found found)
    (hfree : t.FreeOfPlainCircles c) :
    t.Ends found (t.visitInterfaces t.interfaceDepth found c) := by
  have hmono := searchRoom_le (t := t) (Nat.zero_le found.length)
  have hdepth := t.interfaceDepth_eq
  cases hkind : (t.info c).isInterface with
  | false =>
    refine ends_visit h hfree (.plain [] hkind List.nodup_nil nofun) ?_
    show t.searchRoom found.length + (t.size - 0) < t.interfaceDepth
    omega
  | true =>
    by_cases hnew : c ∉ found
    · exact ends_visit h hfree (.find hkind hnew) (by omega)
    · have hold : c ∈ found := not_not.mp hnew
      have hpos : 0 < found.length := List.length_pos_of_mem hold
      have hless : t.searchRoom 1 + t.size + 1 = t.searchRoom 0 :=
        searchRoom_succ (Nat.lt_of_lt_of_le hpos h.length_le)
      rw [hdepth, visitInterfaces_old (.inr hold)]
      refine ends_listed h fun i mid hi hmid hni hle => ?_
      have hmid' : t.searchRoom mid.length ≤ t.searchRoom 1 :=
        searchRoom_le (Nat.le_trans hpos hle)
      cases hkind : (t.info i).isInterface with
      | true => exact ends_visit hmid (hfree.of_lists hi) (.find hkind hni) (by omega)
      | false =>
        refine ends_visit hmid (hfree.of_lists hi) (.plain [] hkind List.nodup_nil nofun) ?_
        show t.searchRoom mid.length + (t.size - 0) < t.searchRoom 0 + t.size
        omega

/-- If no superclass leads to a circle of plain classes, the search for interfaces ends. -/
theorem interfaceSearch_isSome_of_free {c : ClassId}
    (h : ∀ k ∈ t.superclasses c, t.FreeOfPlainCircles k) : (t.interfaceSearch c).isSome = true := by
  obtain ⟨found, hfound, -⟩ : t.Ends [] (t.interfaceSearch c) :=
    ends_foldlM ⟨List.nodup_nil, nofun⟩ fun k hk _ hf _ => ends_visitInterfaces hf (h k hk)
  rw [hfound]
  rfl

/-- If the `interfaces` lists name interfaces only, every search for interfaces ends. -/
theorem interfaceSearch_isSome (hi : t.InterfacesOnly) (c : ClassId) :
    (t.interfaceSearch c).isSome = true :=
  interfaceSearch_isSome_of_free fun k _ => hi.freeOfPlainCircles k

/-- The walks along the links of the classes come to an end by themselves: they are not cut off, and
go on to a last class without meeting one twice. -/
structure WalksEnd (t : ClassTable) : Prop where
  superclasses : ∀ c, (t.superclasses c).Nodup ∧
    ∃ last, (t.superclasses c).getLast? = some last ∧ t.superclass? last = none
  outers : ∀ c, (t.outers c).Nodup ∧
    ∃ last, (t.outers c).getLast? = some last ∧ t.outer? last = none
  interfaces : ∀ c, (t.interfaceSearch c).isSome = true

/-- A chain with room for every class, also from a number that the table does not have. -/
private theorem chain_last {next : ClassId → Option ClassId} {root : ClassId → Prop}
    (h : Grounded t.size next root) (hsize : 0 < t.size)
    (hbeyond : ∀ c : ClassId, t.size ≤ c.index → next c = none) (c : ClassId) :
    (chain next t.size c).Nodup ∧
      ∃ last, (chain next t.size c).getLast? = some last ∧ next last = none := by
  by_cases hc : c.index < t.size
  · obtain ⟨last, -, hnone, hlast, hnodup⟩ := h.chain_ends hc
    exact ⟨hnodup, last, hlast, hnone⟩
  · have hnone := hbeyond c (Nat.le_of_not_lt hc)
    have hleads : Leads next c 0 c := .here hnone
    exact ⟨hleads.nodup_chain _, c, (hleads.chain_reaches hsize).2, hnone⟩

theorem Linked.walksEnd (h : t.Linked) (hsize : 0 < t.size) (hi : t.InterfacesOnly) :
    t.WalksEnd where
  superclasses := chain_last h.superclasses hsize fun _ hc =>
    congrArg ClassInfo.superclass (info_of_le hc)
  outers := chain_last h.outers hsize fun _ hc => congrArg ClassInfo.outer (info_of_le hc)
  interfaces := interfaceSearch_isSome hi

end ClassTable

end CallSite
