import CallSite.Proofs.ClassTable.Built
import Mathlib.Data.Finset.Card
import Mathlib.Logic.Relation

/-!
# Links between classes

Following the superclass links of a table ends at the root class, and following its nesting links
ends somewhere, if no operation was given a class that the table does not have. No class is met
twice on the way, so that the lists of superclasses and of enclosing classes are never cut off.
-/

namespace CallSite

/-- Following `next` from `c` ends at `last` after `n` links. -/
inductive Leads (next : ClassId → Option ClassId) (last : ClassId) : Nat → ClassId → Prop
  | here : next last = none → Leads next last 0 last
  | link {n c d} : next c = some d → Leads next last n d → Leads next last (n + 1) c

/-! ## Chains -/

theorem exists_chain_cons {next : ClassId → Option ClassId} {limit : Nat} (h : 0 < limit)
    (c : ClassId) : ∃ rest, chain next limit c = c :: rest := by
  obtain ⟨n, rfl⟩ := Nat.exists_eq_succ_of_ne_zero (Nat.ne_of_gt h)
  exact ⟨_, rfl⟩

/-- More room only lets a chain go on. -/
theorem mem_chain_of_le {next : ClassId → Option ClassId} {m n : Nat} {c k : ClassId} (h : m ≤ n)
    (hk : k ∈ chain next m c) : k ∈ chain next n c := by
  induction m generalizing n c with
  | zero => cases hk
  | succ m ih =>
    obtain ⟨n, rfl⟩ := Nat.exists_eq_succ_of_ne_zero (Nat.ne_of_gt (Nat.zero_lt_of_lt h))
    unfold chain at hk ⊢
    rcases List.mem_cons.mp hk with rfl | hk
    · exact List.mem_cons_self
    · cases hd : next c with
      | none =>
        rw [hd] at hk
        cases hk
      | some d =>
        rw [hd] at hk
        exact List.mem_cons_of_mem _ (ih (Nat.le_of_succ_le_succ h) hk)

/-- A chain holds only classes that the links lead to. -/
theorem reflTransGen_of_mem_chain {next : ClassId → Option ClassId} {limit : Nat} {c k : ClassId}
    (hk : k ∈ chain next limit c) : Relation.ReflTransGen (fun c d => next c = some d) c k := by
  induction limit generalizing c with
  | zero => cases hk
  | succ limit ih =>
    unfold chain at hk
    rcases List.mem_cons.mp hk with rfl | hk
    · exact .refl
    · cases hd : next c with
      | none =>
        rw [hd] at hk
        cases hk
      | some d =>
        rw [hd] at hk
        exact .head hd (ih hk)

/-- Links to classes below `size` do not leave these. -/
theorem index_lt_of_mem_chain {next : ClassId → Option ClassId} {size limit : Nat} {c k : ClassId}
    (hnext : ∀ k d, next k = some d → d.index < size) (hc : c.index < size)
    (hk : k ∈ chain next limit c) : k.index < size := by
  induction limit generalizing c with
  | zero => cases hk
  | succ limit ih =>
    unfold chain at hk
    rcases List.mem_cons.mp hk with rfl | hk
    · exact hc
    · cases hd : next c with
      | none =>
        rw [hd] at hk
        cases hk
      | some d =>
        rw [hd] at hk
        exact ih (hnext c d hd) hk

/-- There are at most `size` different classes below `size`. -/
theorem length_le_of_index_lt {cs : List ClassId} {size : Nat} (hn : cs.Nodup)
    (hs : ∀ c ∈ cs, c.index < size) : cs.length ≤ size := by
  have hindices : (cs.map ClassId.index).Nodup :=
    hn.map fun c d hcd => by cases c; cases d; exact congrArg ClassId.mk hcd
  have hsub : (cs.map ClassId.index).toFinset ⊆ Finset.range size := by
    intro i hi
    obtain ⟨c, hc, rfl⟩ := List.mem_map.mp (List.mem_toFinset.mp hi)
    exact Finset.mem_range.mpr (hs c hc)
  have hcard := Finset.card_le_card hsub
  rw [List.toFinset_card_of_nodup hindices, List.length_map, Finset.card_range] at hcard
  exact hcard

namespace Leads

variable {next next' : ClassId → Option ClassId} {last c : ClassId} {n : Nat}

theorem ends (h : Leads next last n c) : next last = none := by
  induction h with
  | here hn => exact hn
  | link _ _ ih => exact ih

theorem length_unique {m : Nat} (h : Leads next last n c) (h' : Leads next last m c) : n = m := by
  induction h generalizing m with
  | here hn =>
    cases h' with
    | here _ => rfl
    | link hd _ => cases hn.symm.trans hd
  | link hd _ ih =>
    cases h' with
    | here hn => cases hn.symm.trans hd
    | link hd' h' =>
      cases hd.symm.trans hd'
      rw [ih h']

/-- From every class on the way it is no further to the end. -/
theorem of_mem_chain {limit : Nat} {k : ClassId} (h : Leads next last n c)
    (hk : k ∈ chain next limit c) : ∃ m ≤ n, Leads next last m k := by
  induction h generalizing limit with
  | here hn =>
    cases limit with
    | zero => cases hk
    | succ limit =>
      simp only [chain, hn, List.mem_singleton] at hk
      subst hk
      exact ⟨0, Nat.le_refl 0, .here hn⟩
  | link hd h ih =>
    cases limit with
    | zero => cases hk
    | succ limit =>
      simp only [chain, hd, List.mem_cons] at hk
      rcases hk with rfl | hk
      · exact ⟨_, Nat.le_refl _, .link hd h⟩
      · obtain ⟨m, hm, hl⟩ := ih hk
        exact ⟨m, Nat.le_succ_of_le hm, hl⟩

/-- No class is met twice. -/
theorem nodup_chain (h : Leads next last n c) (limit : Nat) : (chain next limit c).Nodup := by
  induction h generalizing limit with
  | here hn =>
    cases limit with
    | zero => exact List.nodup_nil
    | succ limit =>
      simp only [chain, hn]
      exact List.nodup_singleton _
  | @link n c d hd h ih =>
    cases limit with
    | zero => exact List.nodup_nil
    | succ limit =>
      simp only [chain, hd]
      refine List.nodup_cons.mpr ⟨fun hc => ?_, ih limit⟩
      obtain ⟨m, hm, hl⟩ := h.of_mem_chain hc
      have he := length_unique hl (.link hd h)
      omega

/-- With enough room the chain reaches the end. -/
theorem chain_reaches {limit : Nat} (h : Leads next last n c) (hn : n < limit) :
    (chain next limit c).length = n + 1 ∧ (chain next limit c).getLast? = some last := by
  induction h generalizing limit with
  | here hnone =>
    obtain ⟨limit, rfl⟩ := Nat.exists_eq_succ_of_ne_zero (Nat.ne_of_gt hn)
    simp only [chain, hnone]
    exact ⟨rfl, rfl⟩
  | @link n c d hd h ih =>
    obtain ⟨limit, rfl⟩ := Nat.exists_eq_succ_of_ne_zero (Nat.ne_of_gt (Nat.zero_lt_of_lt hn))
    obtain ⟨hlength, hlast⟩ := ih (Nat.lt_of_succ_lt_succ hn)
    simp only [chain, hd]
    refine ⟨congrArg (· + 1) hlength, ?_⟩
    rw [List.getLast?_cons, hlast]
    rfl

/-- Room that is not needed changes nothing. -/
theorem chain_eq {limit limit' : Nat} (h : Leads next last n c) (hn : n < limit)
    (hn' : n < limit') : chain next limit c = chain next limit' c := by
  induction h generalizing limit limit' with
  | here hnone =>
    obtain ⟨limit, rfl⟩ := Nat.exists_eq_succ_of_ne_zero (Nat.ne_of_gt hn)
    obtain ⟨limit', rfl⟩ := Nat.exists_eq_succ_of_ne_zero (Nat.ne_of_gt hn')
    rw [chain, chain, hnone]
  | link hd _ ih =>
    obtain ⟨limit, rfl⟩ := Nat.exists_eq_succ_of_ne_zero (Nat.ne_of_gt (Nat.zero_lt_of_lt hn))
    obtain ⟨limit', rfl⟩ := Nat.exists_eq_succ_of_ne_zero (Nat.ne_of_gt (Nat.zero_lt_of_lt hn'))
    rw [chain, chain, hd]
    exact congrArg _ (ih (Nat.lt_of_succ_lt_succ hn) (Nat.lt_of_succ_lt_succ hn'))

/-- A chain with enough room holds just the classes that the links lead to. -/
theorem mem_chain_iff {limit : Nat} {k : ClassId} (h : Leads next last n c) (hn : n < limit) :
    k ∈ chain next limit c ↔ Relation.ReflTransGen (fun c d => next c = some d) c k := by
  refine ⟨reflTransGen_of_mem_chain, fun hk => ?_⟩
  induction h generalizing limit with
  | here hnone =>
    obtain ⟨limit, rfl⟩ := Nat.exists_eq_succ_of_ne_zero (Nat.ne_of_gt hn)
    rcases hk.cases_head with rfl | ⟨d, hd, -⟩
    · exact List.mem_cons_self
    · cases hnone.symm.trans hd
  | @link n c d hd _ ih =>
    obtain ⟨limit, rfl⟩ := Nat.exists_eq_succ_of_ne_zero (Nat.ne_of_gt (Nat.zero_lt_of_lt hn))
    rcases hk.cases_head with rfl | ⟨e, he, hk⟩
    · exact List.mem_cons_self
    · cases hd.symm.trans he
      rw [chain, hd]
      exact List.mem_cons_of_mem _ (ih (Nat.lt_of_succ_lt_succ hn) hk)

/-- A way among `size` classes has fewer links. -/
theorem lt_size {size : Nat} (h : Leads next last n c)
    (hnext : ∀ k d, next k = some d → d.index < size) (hc : c.index < size) : n < size := by
  have hle := length_le_of_index_lt (h.nodup_chain (n + 1)) fun _ => index_lt_of_mem_chain hnext hc
  rw [(h.chain_reaches (Nat.lt_succ_self n)).1] at hle
  exact hle

/-- Every link comes nearer to the end. -/
theorem of_transGen {d : ClassId} (h : Leads next last n c)
    (hd : Relation.TransGen (fun c d => next c = some d) c d) : ∃ m < n, Leads next last m d := by
  induction hd with
  | single hcd =>
    cases h with
    | here hn => cases hn.symm.trans hcd
    | @link n _ e he h =>
      cases hcd.symm.trans he
      exact ⟨n, Nat.lt_succ_self n, h⟩
  | tail _ hde ih =>
    obtain ⟨m, hm, h⟩ := ih
    cases h with
    | here hn => cases hn.symm.trans hde
    | @link m _ e he h =>
      cases hde.symm.trans he
      exact ⟨m, Nat.lt_of_succ_lt hm, h⟩

/-- Only the links on the way count. -/
theorem congr (h : Leads next last n c)
    (he : ∀ k ∈ chain next (n + 1) c, next' k = next k) : Leads next' last n c := by
  induction h with
  | here hn => exact .here ((he _ List.mem_cons_self).trans hn)
  | @link n c d hd h ih =>
    refine .link ((he c List.mem_cons_self).trans hd) (ih fun k hk => he k ?_)
    rw [chain, hd]
    exact List.mem_cons_of_mem _ hk

end Leads

/-- The links lead from every class below `size` to such classes only, and end at a root. -/
structure Grounded (size : Nat) (next : ClassId → Option ClassId) (root : ClassId → Prop) :
    Prop where
  lt : ∀ c d, next c = some d → d.index < size
  ends : ∀ c, c.index < size → ∃ last n, root last ∧ Leads next last n c

namespace Grounded

variable {size : Nat} {next next' : ClassId → Option ClassId} {root : ClassId → Prop} {c : ClassId}

/-- A chain with room for every class is not cut off. -/
theorem chain_ends (h : Grounded size next root) (hc : c.index < size) :
    ∃ last, root last ∧ next last = none ∧ (chain next size c).getLast? = some last ∧
      (chain next size c).Nodup := by
  obtain ⟨last, n, hroot, hn⟩ := h.ends c hc
  exact ⟨last, hroot, hn.ends, (hn.chain_reaches (hn.lt_size h.lt hc)).2, hn.nodup_chain size⟩

/-- A chain with room for every class holds just the classes that the links lead to. -/
theorem mem_chain_iff {k : ClassId} (h : Grounded size next root) (hc : c.index < size) :
    k ∈ chain next size c ↔ Relation.ReflTransGen (fun c d => next c = some d) c k := by
  obtain ⟨last, n, -, hn⟩ := h.ends c hc
  exact hn.mem_chain_iff (hn.lt_size h.lt hc)

/-- A class that is linked comes before the chain of the class that it is linked to. -/
theorem chain_link {d : ClassId} (h : Grounded size next root) (hc : c.index < size)
    (hd : next c = some d) : chain next size c = c :: chain next size d := by
  obtain ⟨last, n, -, hn⟩ := h.ends c hc
  have hlt := hn.lt_size h.lt hc
  cases hn with
  | here hnone => cases hnone.symm.trans hd
  | @link n _ e he hn =>
    cases hd.symm.trans he
    obtain ⟨room, hroom⟩ := Nat.exists_eq_succ_of_ne_zero (Nat.ne_of_gt (Nat.zero_lt_of_lt hlt))
    have hshort : chain next size c = c :: chain next room d := by rw [hroom, chain, hd]
    have hsame : chain next room d = chain next size d := hn.chain_eq (by omega) (by omega)
    rw [hshort, hsame]

/-- The links form no circle. -/
theorem not_transGen_self (h : Grounded size next root) (hc : c.index < size) :
    ¬ Relation.TransGen (fun c d => next c = some d) c c := by
  intro hcircle
  obtain ⟨last, n, -, hn⟩ := h.ends c hc
  obtain ⟨m, hm, hn'⟩ := hn.of_transGen hcircle
  exact Nat.ne_of_lt hm (hn'.length_unique hn)

/-- The links of classes that are there already count for their ways. -/
theorem leads_congr (h : Grounded size next root) (hc : c.index < size)
    (he : ∀ k : ClassId, k.index < size → next' k = next k) :
    ∃ last n, root last ∧ Leads next' last n c := by
  obtain ⟨last, n, hroot, hn⟩ := h.ends c hc
  exact ⟨last, n, hroot, hn.congr fun k hk => he k (index_lt_of_mem_chain h.lt hc hk)⟩

/-- One class more, which is a root or linked to a class that was there. -/
theorem extend (h : Grounded size next root)
    (hold : ∀ k : ClassId, k.index < size → next' k = next k)
    (hroot : next' ⟨size⟩ = none → root ⟨size⟩)
    (hlink : ∀ d, next' ⟨size⟩ = some d → d.index < size)
    (hbeyond : ∀ k : ClassId, size < k.index → next' k = none) :
    Grounded (size + 1) next' root := by
  have hcases : ∀ k : ClassId, k.index < size ∨ k = ⟨size⟩ ∨ size < k.index := by
    rintro ⟨i⟩
    rw [ClassId.mk.injEq]
    show i < size ∨ i = size ∨ size < i
    omega
  refine ⟨fun k d hd => ?_, fun k hk => ?_⟩
  · rcases hcases k with hlt | rfl | hgt
    · exact Nat.lt_succ_of_lt (h.lt k d ((hold k hlt).symm.trans hd))
    · exact Nat.lt_succ_of_lt (hlink d hd)
    · cases (hbeyond k hgt).symm.trans hd
  · rcases hcases k with hlt | rfl | hgt
    · exact h.leads_congr hlt hold
    · cases hd : next' ⟨size⟩ with
      | none => exact ⟨_, 0, hroot hd, .here hd⟩
      | some d =>
        obtain ⟨last, n, hlast, hn⟩ := h.leads_congr (hlink d hd) hold
        exact ⟨last, n + 1, hlast, .link hd hn⟩
    · omega

/-- A new link from `c` to a class whose chain does not hold `c` closes no circle. -/
theorem relink {d : ClassId} (h : Grounded size next root) (hd : d.index < size)
    (hfree : c ∉ chain next size d) (hlink : next' c = some d)
    (hrest : ∀ k, k ≠ c → next' k = next k) : Grounded size next' root := by
  obtain ⟨last, m, hlast, hm⟩ := h.ends d hd
  have hm' : Leads next' last m d := by
    refine hm.congr fun k hk => hrest k ?_
    rintro rfl
    exact hfree (mem_chain_of_le (hm.lt_size h.lt hd) hk)
  refine ⟨fun k e he => ?_, fun k hk => ?_⟩
  · by_cases hkc : k = c
    · rw [hkc, hlink] at he
      cases he
      exact hd
    · exact h.lt k e ((hrest k hkc).symm.trans he)
  · obtain ⟨first, n, hfirst, hn⟩ := h.ends k hk
    clear hk
    induction hn with
    | here hnone =>
      by_cases hkc : first = c
      · exact ⟨last, m + 1, hlast, .link (hkc ▸ hlink) hm'⟩
      · exact ⟨first, 0, hfirst, .here ((hrest _ hkc).trans hnone)⟩
    | @link n k e he _ ih =>
      by_cases hkc : k = c
      · exact ⟨last, m + 1, hlast, .link (hkc ▸ hlink) hm'⟩
      · obtain ⟨end', n', hend, hn'⟩ := ih
        exact ⟨end', n' + 1, hend, .link ((hrest k hkc).trans he) hn'⟩

end Grounded

/-! ## Class tables -/

namespace ClassTable

variable {t t' : ClassTable}

theorem info_of_le {c : ClassId} (h : t.size ≤ c.index) :
    t.info c = ⟨"", .cls, none, [], none, [], [], [], [], 0, false⟩ := by
  have hnone : t.classes[c.index]? = none := List.getElem?_eq_none h
  unfold info
  rw [hnone]
  rfl

/-- A class that lists something is in the table. -/
theorem index_lt_of_mem {α : Type} {c : ClassId} {a : α} (listed : ClassInfo → List α)
    (hblank : listed ⟨"", .cls, none, [], none, [], [], [], [], 0, false⟩ = [])
    (h : a ∈ listed (t.info c)) : c.index < t.size := by
  refine Nat.lt_of_not_le fun hle => ?_
  rw [info_of_le hle, hblank] at h
  exact List.not_mem_nil h

/-- A class that is linked to another one is in the table. -/
theorem index_lt_of_link {c d : ClassId} (link : ClassInfo → Option ClassId)
    (hblank : link ⟨"", .cls, none, [], none, [], [], [], [], 0, false⟩ = none)
    (h : link (t.info c) = some d) : c.index < t.size := by
  refine Nat.lt_of_not_le fun hle => ?_
  rw [info_of_le hle, hblank] at h
  cases h

theorem size_update (t : ClassTable) (c : ClassId) (change : ClassInfo → ClassInfo) :
    (t.update c change).size = t.size := List.length_modify ..

theorem info_update_self (t : ClassTable) {c : ClassId} (change : ClassInfo → ClassInfo)
    (hc : c.index < t.size) : (t.update c change).info c = change (t.info c) := by
  have hget : t.classes[c.index]? = some t.classes[c.index] := List.getElem?_eq_getElem hc
  unfold info update
  rw [List.getElem?_modify_eq, hget]
  rfl

theorem info_update_ne (t : ClassTable) {c k : ClassId} (change : ClassInfo → ClassInfo)
    (hk : k ≠ c) : (t.update c change).info k = t.info k :=
  (t.info_update c k change).resolve_right fun h => hk h.1

/-- What a change of one class does not touch is the same for all classes. -/
theorem info_update_congr (t : ClassTable) (c : ClassId) {change : ClassInfo → ClassInfo} {α : Type}
    (f : ClassInfo → α) (hf : ∀ info, f (change info) = f info) (k : ClassId) :
    f ((t.update c change).info k) = f (t.info k) := by
  rcases t.info_update c k change with hk | ⟨-, hk⟩
  · rw [hk]
  · rw [hk, hf]

/-- The class that a declaration adds. -/
def fresh (name : String) (kind : ClassKind) : ClassInfo :=
  { name, kind, superclass := some (if kind = .enum then ClassId.enum else ClassId.object) }

section

variable {name : String} {kind : ClassKind} {c d : ClassId}

/-- A declaration puts a new class after the others, unless its name is taken. -/
theorem declare_eq_ok (h : t.declare name kind = .ok (t', c)) :
    t.lookup name = none ∧ c = ⟨t.size⟩ ∧
      t' = { t with classes := t.classes ++ [fresh name kind] } := by
  unfold declare at h
  split at h
  · cases h
  · cases h
    exact ⟨‹_›, rfl, rfl⟩

theorem size_declare (h : t.declare name kind = .ok (t', c)) : t'.size = t.size + 1 := by
  obtain ⟨-, -, rfl⟩ := declare_eq_ok h
  exact List.length_append

theorem info_declare_of_lt (h : t.declare name kind = .ok (t', c)) (hd : d.index < t.size) :
    t'.info d = t.info d := by
  obtain ⟨-, -, rfl⟩ := declare_eq_ok h
  show ((t.classes ++ [_])[d.index]?).getD _ = _
  rw [List.getElem?_append_left hd]
  rfl

theorem info_declare_self (h : t.declare name kind = .ok (t', c)) :
    t'.info c = fresh name kind := by
  obtain ⟨-, rfl, rfl⟩ := declare_eq_ok h
  show ((t.classes ++ [_])[t.classes.length]?).getD _ = _
  rw [List.getElem?_append_right (Nat.le_refl _), Nat.sub_self]
  rfl

/-- The classes after a declaration are the old ones and the new one. -/
theorem lt_or_eq_of_declare (h : t.declare name kind = .ok (t', c)) (hd : d.index < t'.size) :
    d.index < t.size ∨ d = c := by
  rw [size_declare h] at hd
  obtain ⟨-, rfl, -⟩ := declare_eq_ok h
  rcases Nat.lt_succ_iff_lt_or_eq.mp hd with hlt | heq
  · exact .inl hlt
  · exact .inr (congrArg ClassId.mk heq)

end

/-- Superclass links lead to the root class, and nesting links come to an end. -/
structure Linked (t : ClassTable) : Prop where
  superclasses : Grounded t.size t.superclass? (· = .object)
  outers : Grounded t.size t.outer? fun _ => True

namespace Linked

theorem standard : ClassTable.standard.Linked := by
  have hbeyond : ∀ c : ClassId, ¬ c.index < 24 → ClassTable.standard.superclass? c = none ∧
      ClassTable.standard.outer? c = none := by
    intro c hc
    unfold superclass? outer?
    rw [info_standard_of_le (Nat.le_of_not_lt hc)]
    exact ⟨rfl, rfl⟩
  have hparents : ∀ i < 24, i = 0 ∨ ClassTable.standard.superclass? ⟨i⟩ = some .object ∨
      ClassTable.standard.superclass? ⟨i⟩ = some .number := by decide
  have houters : ∀ i < 24, ClassTable.standard.outer? ⟨i⟩ = none := by decide
  have hroot : Leads ClassTable.standard.superclass? .object 0 .object := .here rfl
  have hnumber : Leads ClassTable.standard.superclass? .object 1 .number := .link rfl hroot
  refine ⟨⟨fun c d hd => ?_, fun c hc => ?_⟩, ⟨fun c d hd => ?_, fun c hc => ?_⟩⟩
  · by_cases hc : c.index < 24
    · rcases hparents c.index hc with h0 | h | h
      · have hc0 : c = .object := congrArg ClassId.mk h0
        rw [hc0] at hd
        cases hd
      · cases h.symm.trans hd
        decide
      · cases h.symm.trans hd
        decide
    · cases (hbeyond c hc).1.symm.trans hd
  · rcases hparents c.index hc with h0 | h | h
    · have hc0 : c = .object := congrArg ClassId.mk h0
      exact ⟨_, 0, rfl, hc0 ▸ hroot⟩
    · exact ⟨_, 1, rfl, .link h hroot⟩
    · exact ⟨_, 2, rfl, .link h hnumber⟩
  · by_cases hc : c.index < 24
    · cases (houters c.index hc).symm.trans hd
    · cases (hbeyond c hc).2.symm.trans hd
  · exact ⟨c, 0, trivial, .here (houters c.index hc)⟩

theorem superclasses_link (h : t.Linked) {c d : ClassId} (hd : t.superclass? c = some d) :
    t.superclasses c = c :: t.superclasses d :=
  h.superclasses.chain_link (index_lt_of_link ClassInfo.superclass rfl hd) hd

theorem outers_link (h : t.Linked) {c d : ClassId} (hd : t.outer? c = some d) :
    t.outers c = c :: t.outers d :=
  h.outers.chain_link (index_lt_of_link ClassInfo.outer rfl hd) hd

/-- A table with the same links. -/
theorem of_links (h : t.Linked) (hsize : t'.size = t.size)
    (hs : ∀ c, t'.superclass? c = t.superclass? c) (ho : ∀ c, t'.outer? c = t.outer? c) :
    t'.Linked := by
  have hs : t'.superclass? = t.superclass? := funext hs
  have ho : t'.outer? = t.outer? := funext ho
  refine ⟨?_, ?_⟩
  · rw [hsize, hs]
    exact h.superclasses
  · rw [hsize, ho]
    exact h.outers

/-- Changing what a class declares changes no link. -/
theorem update (h : t.Linked) (c : ClassId) {change : ClassInfo → ClassInfo}
    (hs : ∀ info, (change info).superclass = info.superclass)
    (ho : ∀ info, (change info).outer = info.outer) : (t.update c change).Linked :=
  h.of_links (t.size_update c change) (t.info_update_congr c ClassInfo.superclass hs)
    (t.info_update_congr c ClassInfo.outer ho)

/-- A new class extends a class of the standard table, and is nested in none. -/
theorem declare (h : t.Linked) (hsize : 24 ≤ t.size) {name : String} {kind : ClassKind}
    {c : ClassId} (hd : t.declare name kind = .ok (t', c)) : t'.Linked := by
  have hc : c = ⟨t.size⟩ := (declare_eq_ok hd).2.1
  subst hc
  have hlength := size_declare hd
  have hold : ∀ k : ClassId, k.index < t.size → t'.info k = t.info k := fun k =>
    info_declare_of_lt hd
  have hbeyond : ∀ k : ClassId, t.size < k.index → t'.info k = _ := fun k hk =>
    info_of_le (hlength ▸ hk)
  have hparent : (if kind = .enum then ClassId.enum else ClassId.object).index < t.size := by
    split <;> exact Nat.lt_of_lt_of_le (by decide) hsize
  have hsuper : t'.superclass? ⟨t.size⟩ = some _ :=
    congrArg ClassInfo.superclass (info_declare_self hd)
  have houter : t'.outer? ⟨t.size⟩ = none := congrArg ClassInfo.outer (info_declare_self hd)
  refine ⟨?_, ?_⟩
  · rw [hlength]
    refine h.superclasses.extend (fun k hk => congrArg ClassInfo.superclass (hold k hk))
      (fun hnone => ?_) (fun d hd => ?_) fun k hk => congrArg ClassInfo.superclass (hbeyond k hk)
    · cases hsuper.symm.trans hnone
    · cases hsuper.symm.trans hd
      exact hparent
  · rw [hlength]
    refine h.outers.extend (fun k hk => congrArg ClassInfo.outer (hold k hk)) (fun _ => trivial)
      (fun d hd => ?_) fun k hk => congrArg ClassInfo.outer (hbeyond k hk)
    cases houter.symm.trans hd

/-- A class that the table does not have is not changed. -/
private theorem update_of_le (h : t.Linked) {c : ClassId} {change : ClassInfo → ClassInfo}
    (hc : t.size ≤ c.index) : (t.update c change).Linked := by
  have hsame : ∀ k, (t.update c change).info k = t.info k := by
    intro k
    by_cases hk : k = c
    · rw [hk, info_of_le hc, info_of_le ((t.size_update c change).le.trans hc)]
    · exact t.info_update_ne change hk
  exact h.of_links (t.size_update c change) (fun k => congrArg ClassInfo.superclass (hsame k))
    fun k => congrArg ClassInfo.outer (hsame k)

/-- A superclass link that the table accepts closes no circle. -/
theorem setSuperclass (h : t.Linked) {c superclass : ClassId} (hin : superclass.index < t.size)
    (hs : t.setSuperclass c superclass = .ok t') : t'.Linked := by
  obtain ⟨hfree, rfl⟩ := setSuperclass_eq_ok hs
  by_cases hc : c.index < t.size
  · refine ⟨?_, ?_⟩
    · rw [size_update]
      exact h.superclasses.relink hin hfree
        (congrArg ClassInfo.superclass (t.info_update_self _ hc))
        fun k hk => congrArg ClassInfo.superclass (t.info_update_ne _ hk)
    · have hsame : (t.update c fun info => { info with superclass := some superclass }).outer? =
          t.outer? := funext (t.info_update_congr c ClassInfo.outer fun _ => rfl)
      rw [size_update, hsame]
      exact h.outers
  · exact h.update_of_le (Nat.le_of_not_lt hc)

/-- A nesting link that the table accepts closes no circle. -/
theorem setOuter (h : t.Linked) {c outer : ClassId} (hin : outer.index < t.size)
    (hs : t.setOuter c outer = .ok t') : t'.Linked := by
  obtain ⟨hfree, rfl⟩ := setOuter_eq_ok hs
  by_cases hc : c.index < t.size
  · refine ⟨?_, ?_⟩
    · have hsame : (t.update c fun info => { info with outer := some outer }).superclass? =
          t.superclass? := funext (t.info_update_congr c ClassInfo.superclass fun _ => rfl)
      rw [size_update, hsame]
      exact h.superclasses
    · rw [size_update]
      exact h.outers.relink hin hfree
        (congrArg ClassInfo.outer (t.info_update_self _ hc))
        fun k hk => congrArg ClassInfo.outer (t.info_update_ne _ hk)
  · exact h.update_of_le (Nat.le_of_not_lt hc)

end Linked

end ClassTable

end CallSite
