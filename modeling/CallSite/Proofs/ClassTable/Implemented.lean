import CallSite.Proofs.ClassTable.Construction
import CallSite.Proofs.ClassTable.InterfaceSearch

/-!
# Implemented interfaces

The search for the interfaces of a class finds each interface that superclass links and then
`interfaces` lists lead to, once, and nothing else. It ends just if no circle of plain classes is
among what they lead to: only interfaces are marked as seen, so that such a circle is never left.
-/

namespace CallSite

namespace ClassTable

/-- From `c`, superclass links and then `interfaces` lists lead to `k`. -/
def LeadsTo (t : ClassTable) (c k : ClassId) : Prop :=
  ∃ s, Relation.ReflTransGen t.Extends c s ∧ Relation.ReflTransGen t.Lists s k

/-- The search for the interfaces of `c`, given up when it is still going after `depth` links. -/
def searchWithin (t : ClassTable) (depth : Nat) (c : ClassId) : Option (List ClassId) :=
  (t.superclasses c).foldlM (fun found k => t.visitInterfaces depth found k) []

theorem interfaceSearch_eq (t : ClassTable) (c : ClassId) :
    t.interfaceSearch c = t.searchWithin t.interfaceDepth c := rfl

variable {t : ClassTable}

/-! ## What is left behind -/

/-- Everything that the search has to do for `c` is done: an interface is found, and for a plain
class everything is done that it lists. -/
inductive Settled (t : ClassTable) (found : List ClassId) : ClassId → Prop
  | find {c} : (t.info c).isInterface = true → c ∈ found → Settled t found c
  | plain {c} : (t.info c).isInterface = false → (∀ i, t.Lists c i → Settled t found i) →
      Settled t found c

namespace Settled

variable {found found' : List ClassId} {c : ClassId}

theorem mono (h : t.Settled found c) (hsub : found ⊆ found') : t.Settled found' c := by
  induction h with
  | find hc hmem => exact .find hc (hsub hmem)
  | plain hc _ ih => exact .plain hc ih

theorem mem (h : t.Settled found c) (hc : (t.info c).isInterface = true) : c ∈ found := by
  cases h with
  | find _ hmem => exact hmem
  | plain hplain _ => exact absurd (hplain.symm.trans hc) Bool.false_ne_true

/-- A plain class is settled after those that it lists, so that there is no way back. -/
theorem not_onPlainCircle (h : t.Settled found c) : ¬ t.OnPlainCircle c := by
  induction h with
  | find hc _ =>
    intro hcircle
    obtain ⟨d, hd, -⟩ := Relation.TransGen.head'_iff.mp hcircle
    exact Bool.false_ne_true (hd.source.symm.trans hc)
  | plain _ _ ih =>
    intro hcircle
    obtain ⟨d, hd, hback⟩ := Relation.TransGen.head'_iff.mp hcircle
    exact ih d hd.lists (Relation.TransGen.tail' hback hd)

end Settled

/-! ## What a visit does -/

/-- A search that had found `found` has visited `cs` and then found `found'`. -/
structure Visits (t : ClassTable) (cs found found' : List ClassId) : Prop where
  finds : t.Found found'
  subset : found ⊆ found'
  settled : ∀ c ∈ cs, t.Settled found' c
  links : ∀ i ∈ found', i ∉ found → ∀ j, t.Lists i j → t.Settled found' j
  reached : ∀ i ∈ found', i ∈ found ∨ ∃ c ∈ cs, Relation.ReflTransGen t.Lists c i

namespace Visits

variable {found mid found' : List ClassId} {c : ClassId} {cs : List ClassId}

theorem nil (h : t.Found found) : t.Visits [] found found :=
  ⟨h, List.Subset.refl _, nofun, fun _ hi hni => absurd hi hni, fun _ => .inl⟩

/-- There is nothing to do for an interface that is found already. -/
theorem skip (h : t.Found found) (hc : c ∈ found) : t.Visits [c] found found := by
  refine ⟨h, List.Subset.refl _, fun k hk => ?_, fun _ hi hni => absurd hi hni, fun _ => .inl⟩
  rw [List.mem_singleton.mp hk]
  exact .find (h.interfaces c hc) hc

theorem cons (h : t.Visits [c] found mid) (h' : t.Visits cs mid found') :
    t.Visits (c :: cs) found found' := by
  refine ⟨h'.finds, List.Subset.trans h.subset h'.subset, fun k hk => ?_,
    fun i hi hni j hj => ?_, fun i hi => ?_⟩
  · rcases List.mem_cons.mp hk with rfl | hk
    · exact (h.settled k List.mem_cons_self).mono h'.subset
    · exact h'.settled k hk
  · by_cases hmid : i ∈ mid
    · exact (h.links i hmid hni j hj).mono h'.subset
    · exact h'.links i hi hmid j hj
  · rcases h'.reached i hi with hmid | ⟨k, hk, hi⟩
    · rcases h.reached i hmid with hold | ⟨k, hk, hi⟩
      · exact .inl hold
      · exact .inr ⟨k, List.mem_cons.mpr (.inl (List.mem_singleton.mp hk)), hi⟩
    · exact .inr ⟨k, List.mem_cons_of_mem c hk, hi⟩

/-- Classes are visited one after the other. -/
theorem foldlM {visit : List ClassId → ClassId → Option (List ClassId)} (h : t.Found found)
    (hv : ∀ c ∈ cs, ∀ f f', t.Found f → visit f c = some f' → t.Visits [c] f f')
    (hf : cs.foldlM visit found = some found') : t.Visits cs found found' := by
  induction cs generalizing found with
  | nil =>
    cases hf
    exact nil h
  | cons c cs ih =>
    rw [List.foldlM_cons] at hf
    obtain ⟨mid, hmid, hrest⟩ := Option.bind_eq_some_iff.mp hf
    have hc := hv c List.mem_cons_self found mid h hmid
    exact hc.cons (ih hc.finds (fun k hk => hv k (List.mem_cons_of_mem c hk)) hrest)

/-- A class is visited by visiting what it lists, after it was added itself if it is a find. -/
theorem of_lists (h : t.Visits (t.info c).interfaces mid found') (hsub : found ⊆ mid)
    (hmid : ∀ i ∈ mid, i ∈ found ∨ i = c) (hc : (t.info c).isInterface = true → c ∈ mid) :
    t.Visits [c] found found' := by
  refine ⟨h.finds, List.Subset.trans hsub h.subset, fun k hk => ?_, fun i hi hni j hj => ?_,
    fun i hi => ?_⟩
  · rw [List.mem_singleton.mp hk]
    cases hkind : (t.info c).isInterface with
    | true => exact .find hkind (h.subset (hc hkind))
    | false => exact .plain hkind h.settled
  · by_cases him : i ∈ mid
    · rcases hmid i him with hold | rfl
      · exact absurd hold hni
      · exact h.settled j hj
    · exact h.links i hi him j hj
  · rcases h.reached i hi with him | ⟨k, hk, hki⟩
    · rcases hmid i him with hold | rfl
      · exact .inl hold
      · exact .inr ⟨i, List.mem_cons_self, .refl⟩
    · exact .inr ⟨c, List.mem_cons_self, .head hk hki⟩

end Visits

theorem visits_visitInterfaces {depth : Nat} {found found' : List ClassId} {c : ClassId}
    (h : t.Found found) (hv : t.visitInterfaces depth found c = some found') :
    t.Visits [c] found found' := by
  induction depth generalizing found found' c with
  | zero => cases hv
  | succ depth ih =>
    have hlisted : ∀ {mid : List ClassId}, t.Found mid → (t.info c).interfaces.foldlM
        (fun found i => if found.contains i then some found else t.visitInterfaces depth found i)
        mid = some found' → t.Visits (t.info c).interfaces mid found' := by
      intro mid hmid hf
      refine Visits.foldlM hmid (fun i _ f f' hf hi => ?_) hf
      by_cases hin : i ∈ f
      · rw [if_pos (List.contains_iff_mem.mpr hin)] at hi
        cases hi
        exact .skip hf hin
      · rw [if_neg (mt List.contains_iff_mem.mp hin)] at hi
        exact ih hf hi
    by_cases hnew : (t.info c).isInterface = true ∧ c ∉ found
    · rw [visitInterfaces_new hnew.1 hnew.2] at hv
      refine (hlisted (h.insert hnew.1 hnew.2) hv).of_lists (List.subset_append_left ..)
        (fun i hi => ?_) fun _ => List.mem_append_right _ List.mem_cons_self
      exact (List.mem_append.mp hi).imp_right List.mem_singleton.mp
    · have hold : (t.info c).isInterface = false ∨ c ∈ found := by
        rw [← Bool.not_eq_true]
        exact (Decidable.not_and_iff_or_not.mp hnew).imp_right Decidable.not_not.mp
      rw [visitInterfaces_old hold] at hv
      refine (hlisted h hv).of_lists (List.Subset.refl _) (fun _ => .inl) fun hc => ?_
      exact hold.resolve_left fun hplain => Bool.false_ne_true (hplain.symm.trans hc)

/-! ## The search of a class -/

section

variable {depth : Nat} {found : List ClassId} {c k : ClassId}

theorem visits_searchWithin (h : t.searchWithin depth c = some found) :
    t.Visits (t.superclasses c) [] found :=
  Visits.foldlM ⟨List.nodup_nil, nofun⟩ (fun _ _ _ _ hf hv => visits_visitInterfaces hf hv) h

/-- After a search that began with nothing, everything is done for all that the lists lead to. -/
theorem Visits.settled_of_reached {cs : List ClassId} (h : t.Visits cs [] found) (hc : c ∈ cs)
    (hk : Relation.ReflTransGen t.Lists c k) : t.Settled found k := by
  induction hk with
  | refl => exact h.settled c hc
  | @tail j k _ hjk ih =>
    cases ih with
    | find _ hmem => exact h.links j hmem nofun k hjk
    | plain _ hall => exact hall k hjk

theorem leadsTo_iff (ht : t.Constructed) (hc : c.index < t.size) :
    t.LeadsTo c k ↔ ∃ s ∈ t.superclasses c, Relation.ReflTransGen t.Lists s k :=
  exists_congr fun _ => and_congr_left' (ht.consistent.mem_superclasses_iff hc).symm

/-- A search finds each interface that the class leads to, once. -/
theorem mem_searchWithin_iff (ht : t.Constructed) (hc : c.index < t.size)
    (h : t.searchWithin depth c = some found) :
    k ∈ found ↔ (t.info k).isInterface = true ∧ t.LeadsTo c k := by
  have hv := visits_searchWithin h
  rw [leadsTo_iff ht hc]
  constructor
  · intro hk
    exact ⟨hv.finds.interfaces k hk, (hv.reached k hk).resolve_left nofun⟩
  · rintro ⟨hkind, s, hs, hk⟩
    exact (hv.settled_of_reached hs hk).mem hkind

theorem implements_iff (ht : t.Constructed) (hi : t.InterfacesOnly) (hc : c.index < t.size) :
    t.implements c k = true ↔ (t.info k).isInterface = true ∧ t.LeadsTo c k := by
  obtain ⟨found, hfound⟩ := Option.isSome_iff_exists.mp (interfaceSearch_isSome hi c)
  rw [← mem_searchWithin_iff ht hc hfound, ← List.contains_iff_mem]
  unfold implements allInterfaces
  rw [hfound]
  rfl

/-- A circle of plain classes is never left. -/
theorem searchWithin_eq_none (ht : t.Constructed) (hc : c.index < t.size) (hk : t.LeadsTo c k)
    (hcircle : t.OnPlainCircle k) (depth : Nat) : t.searchWithin depth c = none := by
  cases hs : t.searchWithin depth c with
  | none => rfl
  | some found =>
    obtain ⟨s, hmem, hsk⟩ := (leadsTo_iff ht hc).mp hk
    exact absurd hcircle ((visits_searchWithin hs).settled_of_reached hmem hsk).not_onPlainCircle

end

/-- The search for the interfaces of a class has a result just if superclass links and `interfaces`
lists lead it to no circle of plain classes, and with such a circle it is still going after any
number of links. The result then holds each interface that they lead to, once, and nothing else. -/
theorem interfaceSearch_exact (ht : t.Constructed) (c : ClassId) (hc : c.index < t.size) :
    ((t.interfaceSearch c).isSome = true ↔ ∀ k, t.LeadsTo c k → ¬ t.OnPlainCircle k) ∧
      (∀ k, t.LeadsTo c k → t.OnPlainCircle k → ∀ depth, t.searchWithin depth c = none) ∧
      ∀ found, t.interfaceSearch c = some found → found.Nodup ∧
        ∀ k, k ∈ found ↔ (t.info k).isInterface = true ∧ t.LeadsTo c k := by
  refine ⟨⟨fun h k hk hon => ?_, fun h => ?_⟩, fun k => searchWithin_eq_none ht hc,
    fun found h => ?_⟩
  · rw [t.interfaceSearch_eq c, searchWithin_eq_none ht hc hk hon] at h
    cases h
  · exact interfaceSearch_isSome_of_free fun s hs k hk => h k ((leadsTo_iff ht hc).mpr ⟨s, hs, hk⟩)
  · exact ⟨(visits_searchWithin h).finds.nodup, fun k => mem_searchWithin_iff ht hc h⟩

/-- Two interfaces extend each other, and the superclass of a class lists a plain class that lists
one of them. -/
def knotHistory : List Call :=
  [.declare "p.Left" .interface, .declare "p.Right" .interface, .declare "p.Plain" .cls,
    .declare "p.Base" .cls, .declare "p.Derived" .cls, .addInterface ⟨24⟩ ⟨25⟩,
    .addInterface ⟨25⟩ ⟨24⟩, .addInterface ⟨26⟩ ⟨25⟩, .addInterface ⟨27⟩ ⟨26⟩,
    .setSuperclass ⟨28⟩ ⟨27⟩]

theorem interfaceSearch_exact_knot :
    let t := standard.runAll knotHistory
    t.Constructed ∧ 28 < t.size ∧ t.interfaceSearch ⟨28⟩ = some [⟨25⟩, ⟨24⟩] ∧
      (∀ k, t.LeadsTo ⟨28⟩ k → ¬ t.OnPlainCircle k) ∧
      ∀ k, k ∈ [(⟨25⟩ : ClassId), ⟨24⟩] ↔ (t.info k).isInterface = true ∧ t.LeadsTo ⟨28⟩ k := by
  intro t
  have ht : t.Constructed := ⟨knotHistory, by decide, rfl⟩
  have hsearch : t.interfaceSearch ⟨28⟩ = some [⟨25⟩, ⟨24⟩] := by decide
  obtain ⟨hends, -, hexact⟩ := interfaceSearch_exact ht ⟨28⟩ (by decide)
  exact ⟨ht, by decide, hsearch, hends.mp (by rw [hsearch]; rfl), (hexact _ hsearch).2⟩

/-- Two plain classes that list each other. -/
def circleHistory : List Call :=
  [.declare "p.Left" .cls, .declare "p.Right" .cls, .addInterface ⟨24⟩ ⟨25⟩,
    .addInterface ⟨25⟩ ⟨24⟩]

/-- The search for the interfaces of a class of a table that calls build need not end. -/
theorem interfaceSearch_endless :
    let t := standard.runAll circleHistory
    t.Constructed ∧ 24 < t.size ∧ t.interfaceSearch ⟨24⟩ = none ∧
      ∀ depth, t.searchWithin depth ⟨24⟩ = none := by
  intro t
  have ht : t.Constructed := ⟨circleHistory, by decide, rfl⟩
  have hthere : t.ListsPlain ⟨24⟩ ⟨25⟩ :=
    ⟨(by decide : _ ∈ (t.info _).interfaces), by decide, by decide⟩
  have hback : t.ListsPlain ⟨25⟩ ⟨24⟩ :=
    ⟨(by decide : _ ∈ (t.info _).interfaces), by decide, by decide⟩
  have hnone : ∀ depth, t.searchWithin depth ⟨24⟩ = none :=
    searchWithin_eq_none ht (by decide) ⟨_, .refl, .refl⟩ (.tail (.single hthere) hback)
  exact ⟨ht, by decide, hnone _, hnone⟩

end ClassTable

end CallSite
