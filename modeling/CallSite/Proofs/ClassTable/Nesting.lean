import CallSite.Proofs.ClassTable.Construction

/-!
# Nesting

The accessors of a class may be called by code of a class that is nested with it. The test climbs
from the receiver only while the caller has an enclosing class left, so that a class which is nested
in none finds just itself. Asked in both directions the test says, of two different classes, whether
both lie in one outermost class.
-/

namespace CallSite

namespace ClassTable

/-- The class `top` encloses `c`, and no class encloses `top`. -/
structure Outermost (t : ClassTable) (c top : ClassId) : Prop where
  encloses : Relation.ReflTransGen t.NestedIn c top
  ends : t.outer? top = none

variable {t : ClassTable} {c d k u : ClassId}

/-! ## Two chains -/

variable {rs cs : List ClassId} {r : ClassId}

/-- The caller's chain alone is climbed to the end. -/
theorem chainsMeet_of_mem (h : r ∈ cs) : chainsMeet (r :: rs) cs = true := by
  induction cs with
  | nil => cases h
  | cons c cs ih =>
    cases cs with
    | nil =>
      rw [chainsMeet, List.mem_singleton.mp h, beq_self_eq_true]
    | cons d cs =>
      rw [chainsMeet, Bool.or_eq_true, Bool.or_eq_true, beq_iff_eq]
      rcases List.mem_cons.mp h with rfl | h
      · exact .inl (.inl rfl)
      · exact .inl (.inr (ih h))

/-- Chains meet only in a class of both. -/
theorem exists_mem_of_chainsMeet (h : chainsMeet rs cs = true) : ∃ k ∈ rs, k ∈ cs := by
  fun_induction chainsMeet rs cs with
  | case1 r rs c d cs ihCaller ihReceiver =>
    rw [Bool.or_eq_true, Bool.or_eq_true, beq_iff_eq] at h
    rcases h with (rfl | h) | h
    · exact ⟨r, List.mem_cons_self, List.mem_cons_self⟩
    · obtain ⟨k, hk, hmem⟩ := ihCaller h
      exact ⟨k, hk, List.mem_cons_of_mem _ hmem⟩
    · obtain ⟨k, hk, hmem⟩ := ihReceiver h
      exact ⟨k, List.mem_cons_of_mem _ hk, hmem⟩
  | case2 r rs c =>
    obtain rfl := beq_iff_eq.mp h
    exact ⟨r, List.mem_cons_self, List.mem_cons_self⟩
  | case3 => cases h

/-- While the caller has an enclosing class, the receiver's chain is climbed to the end as well. -/
theorem chainsMeet_iff : chainsMeet rs (c :: d :: cs) = true ↔ ∃ k ∈ rs, k ∈ c :: d :: cs := by
  refine ⟨exists_mem_of_chainsMeet, ?_⟩
  rintro ⟨k, hk, hmem⟩
  induction rs with
  | nil => cases hk
  | cons r rs ih =>
    rcases List.mem_cons.mp hk with rfl | hk
    · exact chainsMeet_of_mem hmem
    · rw [chainsMeet, ih hk, Bool.or_true]

/-! ## Enclosing classes -/

theorem outers_of_outermost (h : 0 < t.size) (hc : t.outer? c = none) : t.outers c = [c] := by
  obtain ⟨n, hn⟩ := Nat.exists_eq_succ_of_ne_zero (Nat.ne_of_gt h)
  unfold outers
  rw [hn, chain, hc]

/-- A nested caller finds every class that encloses both. -/
theorem chainsMeet_of_nested (ht : t.Constructed) (hd : t.outer? u = some d) :
    chainsMeet (t.outers c) (t.outers u) = true ↔ ∃ k ∈ t.outers c, k ∈ t.outers u := by
  obtain ⟨beyond, hbeyond⟩ : ∃ beyond, t.outers d = d :: beyond :=
    exists_chain_cons ht.built.size_pos d
  rw [ht.consistent.linked.outers_link hd, hbeyond]
  exact chainsMeet_iff

/-- Of two different classes that lie in one, at least one is nested and finds the other. -/
theorem chainsMeet_or_iff (ht : t.Constructed) (hne : c ≠ u) :
    (chainsMeet (t.outers c) (t.outers u) || chainsMeet (t.outers u) (t.outers c)) = true ↔
      ∃ k ∈ t.outers c, k ∈ t.outers u := by
  have hsize := ht.built.size_pos
  rw [Bool.or_eq_true]
  constructor
  · rintro (h | h)
    · exact exists_mem_of_chainsMeet h
    · obtain ⟨k, hu, hc⟩ := exists_mem_of_chainsMeet h
      exact ⟨k, hc, hu⟩
  · rintro ⟨k, hc, hu⟩
    cases houter : t.outer? u with
    | some d => exact .inl ((chainsMeet_of_nested ht houter).mpr ⟨k, hc, hu⟩)
    | none =>
      cases houter' : t.outer? c with
      | some d => exact .inr ((chainsMeet_of_nested ht houter').mpr ⟨k, hu, hc⟩)
      | none =>
        rw [outers_of_outermost hsize houter, List.mem_singleton] at hu
        rw [outers_of_outermost hsize houter', List.mem_singleton] at hc
        exact absurd (hc.symm.trans hu) hne

theorem exists_outermost (ht : t.Constructed) (hc : c.index < t.size) :
    ∃ top, t.Outermost c top := by
  obtain ⟨top, -, hends, hlast, -⟩ := ht.consistent.linked.outers.chain_ends hc
  exact ⟨top, (ht.consistent.mem_outers_iff hc).mp (List.mem_of_getLast? hlast), hends⟩

theorem Consistent.index_lt_of_nested (ht : t.Consistent) (hc : c.index < t.size)
    (h : Relation.ReflTransGen t.NestedIn c k) : k.index < t.size := by
  rcases h.cases_tail with rfl | ⟨d, -, hk⟩
  · exact hc
  · exact ht.linked.outers.lt d k hk

/-- Classes that lie in one class lie in one outermost class. -/
theorem exists_mem_outers_iff (ht : t.Constructed) (hc : c.index < t.size)
    (hu : u.index < t.size) :
    (∃ k ∈ t.outers c, k ∈ t.outers u) ↔ ∃ top, t.Outermost c top ∧ t.Outermost u top := by
  simp only [ht.consistent.mem_outers_iff hc, ht.consistent.mem_outers_iff hu]
  constructor
  · rintro ⟨k, hck, huk⟩
    obtain ⟨top, hencloses, hends⟩ :=
      exists_outermost ht (ht.consistent.index_lt_of_nested hc hck)
    exact ⟨top, ⟨hck.trans hencloses, hends⟩, ⟨huk.trans hencloses, hends⟩⟩
  · rintro ⟨top, hctop, hutop⟩
    exact ⟨top, hctop.encloses, hutop.encloses⟩

/-- Accessors may be called between two classes, one way or the other, if the pair is registered or
both classes lie in one outermost class. -/
theorem bridgeAllowed_or_iff (ht : t.Constructed) (hc : c.index < t.size) (hu : u.index < t.size)
    (hne : c ≠ u) :
    (t.bridgeAllowed c u || t.bridgeAllowed u c) = true ↔
      ((c, u) ∈ t.bridgePairs ∨ (u, c) ∈ t.bridgePairs) ∨
        ∃ top, t.Outermost c top ∧ t.Outermost u top := by
  rw [← exists_mem_outers_iff ht hc hu, ← chainsMeet_or_iff ht hne]
  simp only [bridgeAllowed, Bool.or_eq_true, List.contains_iff_mem]
  tauto

end ClassTable

end CallSite
