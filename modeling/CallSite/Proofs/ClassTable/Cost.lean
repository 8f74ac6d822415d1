import CallSite.Proofs.ClassTable.Distance

/-!
# The cheapest route

The cost of a conversion is the least of `2 * steps + links`, over all classes that are `steps`
superclass links up from the source and from which `links` links of `interfaces` lists lead to the
target. It does not matter whether the lists lead in circles: a search that visits no class twice,
and a walk along the superclasses that stops at the target, come to the same cost.
-/

namespace CallSite

/-! ## Ways and their parts -/

namespace Links

variable {link : ClassId → ClassId → Prop} {m n : Nat} {c j k : ClassId}

/-- A way of `m + n` links has a class `m` links on. -/
theorem split (h : Links link (m + n) c k) : ∃ j, Links link m c j ∧ Links link n j k := by
  induction m generalizing c with
  | zero =>
    rw [Nat.zero_add] at h
    exact ⟨c, .here, h⟩
  | succ m ih =>
    rw [Nat.succ_add] at h
    cases h with
    | next hlink hrest =>
      obtain ⟨j, hj, hk⟩ := ih hrest
      exact ⟨j, .next hlink hj, hk⟩

/-- The classes on a shortest way are themselves no nearer. -/
theorem exists_isLeast_of_le (h : IsLeast {m | Links link m c k} n) (hm : m ≤ n) :
    ∃ j, IsLeast {m | Links link m c j} m ∧ Links link (n - m) j k := by
  have hn : Links link (m + (n - m)) c k := (Nat.add_sub_cancel' hm).symm ▸ h.1
  obtain ⟨j, hj, hk⟩ := hn.split
  refine ⟨j, ⟨hj, fun l hl => ?_⟩, hk⟩
  have hle : n ≤ l + (n - m) := h.2 (Links.trans hl hk)
  omega

/-- The classes at distance `n + 1` are those that one at distance `n` is linked to, without those
that are nearer. -/
theorem isLeast_succ_iff : IsLeast {m | Links link m c k} (n + 1) ↔
    (∃ j, IsLeast {m | Links link m c j} n ∧ link j k) ∧ ∀ m ≤ n, ¬ Links link m c k := by
  constructor
  · intro h
    refine ⟨?_, fun m hm hk => ?_⟩
    · obtain ⟨j, hj, hlast⟩ := exists_isLeast_of_le h (Nat.le_succ n)
      rw [Nat.add_sub_cancel_left] at hlast
      cases hlast with
      | next hlink hrest =>
        cases hrest
        exact ⟨j, hj, hlink⟩
    · have hle : n + 1 ≤ m := h.2 hk
      omega
  · rintro ⟨⟨j, hj, hlink⟩, hfar⟩
    refine ⟨Links.trans hj.1 (.next hlink .here), fun m hm => ?_⟩
    by_contra hlt
    exact hfar m (by omega) hm

/-- A way along links that lead to one class only is part of the chain of its start. -/
theorem getElem?_chain_iff {next : ClassId → Option ClassId} {limit steps : Nat} :
    (chain next limit c)[steps]? = some k ↔
      steps < limit ∧ Links (fun c d => next c = some d) steps c k := by
  induction limit generalizing c steps with
  | zero =>
    refine ⟨fun h => ?_, fun h => absurd h.1 (Nat.not_lt_zero _)⟩
    rw [chain, List.getElem?_nil] at h
    cases h
  | succ limit ih =>
    cases steps with
    | zero =>
      rw [chain, List.getElem?_cons_zero, Option.some.injEq]
      constructor
      · rintro rfl
        exact ⟨Nat.succ_pos limit, .here⟩
      · rintro ⟨-, hlinks⟩
        cases hlinks
        rfl
    | succ steps =>
      rw [chain, List.getElem?_cons_succ]
      cases hd : next c with
      | none =>
        constructor
        · intro h
          rw [List.getElem?_nil] at h
          cases h
        · rintro ⟨-, hlinks⟩
          cases hlinks with
          | next hlink _ => cases hd.symm.trans hlink
      | some d =>
        show (chain next limit d)[steps]? = some k ↔ _
        rw [ih]
        constructor
        · rintro ⟨hlt, hlinks⟩
          exact ⟨Nat.succ_lt_succ hlt, .next hd hlinks⟩
        · rintro ⟨hlt, hlinks⟩
          cases hlinks with
          | next hlink hrest =>
            cases hd.symm.trans hlink
            exact ⟨Nat.lt_of_succ_lt_succ hlt, hrest⟩

/-- No way is longer than the one that comes to an end. -/
theorem le_of_leads {next : ClassId → Option ClassId} {last : ClassId}
    (h : Links (fun c d => next c = some d) m c k) (hl : Leads next last n c) : m ≤ n := by
  induction h generalizing n with
  | here => exact Nat.zero_le n
  | next hlink _ ih =>
    cases hl with
    | here hnone => cases hnone.symm.trans hlink
    | link hd hrest =>
      cases hlink.symm.trans hd
      exact Nat.succ_le_succ (ih hrest)

end Links

namespace ClassTable

variable {t : ClassTable} {c k source start target : ClassId} {n : Nat}

/-! ## Superclass chains -/

/-- The list of superclasses is the way of the superclass links, and is not cut off. -/
theorem Constructed.getElem?_superclasses_iff (ht : t.Constructed) {steps : Nat} :
    (t.superclasses c)[steps]? = some k ↔ Links t.Extends steps c k := by
  refine Links.getElem?_chain_iff.trans (and_iff_right_of_imp fun h => ?_)
  have hs := ht.consistent.linked.superclasses
  by_cases hc : c.index < t.size
  · obtain ⟨last, n, -, hn⟩ := hs.ends c hc
    exact Nat.lt_of_le_of_lt (h.le_of_leads hn) (hn.lt_size hs.lt hc)
  · have hnone : t.superclass? c = none :=
      congrArg ClassInfo.superclass (info_of_le (Nat.le_of_not_lt hc))
    exact Nat.lt_of_le_of_lt (h.le_of_leads (.here hnone)) ht.built.size_pos

theorem Constructed.route_iff (ht : t.Constructed) {link : ClassId → ClassId → Prop}
    {steps links : Nat} : t.Route link source target steps links ↔
      ∃ k, Links t.Extends steps source k ∧ Links link links k target :=
  exists_congr fun _ => and_congr_left' ht.getElem?_superclasses_iff

/-! ## Searching with marks -/

/-- The fewest links from a class in `frontier` to `target`, followed level by level and no more
than `limit` of them. The classes in `seen` are not visited again. -/
def hops (t : ClassTable) (target : ClassId) : Nat → List ClassId → List ClassId → Option Nat
  | _, _, [] => none
  | 0, _, _ => none
  | limit + 1, seen, frontier =>
    if target ∈ t.listed frontier then some 1
    else
      let next := (t.listed frontier).filter fun i => i ∉ seen
      (hops t target limit (seen ++ next) next).map (· + 1)

/-- The search for `target` has come `n` links from `start`: the frontier holds the classes at this
distance, and those at this distance or nearer are marked. -/
structure Level (t : ClassTable) (start target : ClassId) (n : Nat)
    (seen frontier : List ClassId) : Prop where
  mem_frontier_iff : ∀ k, k ∈ frontier ↔ IsLeast {m | Links t.Lists m start k} n
  mem_seen_iff : ∀ k, k ∈ seen ↔ ∃ m ≤ n, Links t.Lists m start k
  target_unseen : target ∉ seen

namespace Level

variable {seen frontier : List ClassId} {limit : Nat}

theorem init (h : start ≠ target) : t.Level start target 0 [start] [start] := by
  have hhere : ∀ k, k ∈ [start] ↔ Links t.Lists 0 start k := by
    intro k
    rw [List.mem_singleton]
    constructor
    · rintro rfl
      exact .here
    · intro hk
      cases hk
      rfl
  refine ⟨fun k => (hhere k).trans ⟨fun hk => ⟨hk, fun _ _ => Nat.zero_le _⟩, fun hk => hk.1⟩,
    fun k => (hhere k).trans ⟨fun hk => ⟨0, Nat.le_refl 0, hk⟩, ?_⟩, fun hmem => ?_⟩
  · rintro ⟨m, hm, hk⟩
    exact Nat.le_zero.mp hm ▸ hk
  · exact h (List.mem_singleton.mp hmem).symm

/-- A listed class is at the next distance unless it is marked. -/
theorem mem_next_iff (h : t.Level start target n seen frontier) :
    k ∈ t.listed frontier ∧ k ∉ seen ↔ IsLeast {m | Links t.Lists m start k} (n + 1) := by
  rw [Links.isLeast_succ_iff, mem_listed_iff, h.mem_seen_iff]
  refine and_congr (exists_congr fun j => and_congr_left' (h.mem_frontier_iff j)) ?_
  constructor
  · exact fun hk m hm hlinks => hk ⟨m, hm, hlinks⟩
  · rintro hk ⟨m, hm, hlinks⟩
    exact hk m hm hlinks

/-- What one level preserves: as long as the target is not listed, the search goes on with the
listed classes that are not marked. -/
theorem step (h : t.Level start target n seen frontier) (hnot : target ∉ t.listed frontier) :
    t.Level start target (n + 1) (seen ++ (t.listed frontier).filter fun i => i ∉ seen)
      ((t.listed frontier).filter fun i => i ∉ seen) := by
  have hnext : ∀ k, k ∈ (t.listed frontier).filter (fun i => i ∉ seen) ↔
      IsLeast {m | Links t.Lists m start k} (n + 1) := by
    intro k
    rw [List.mem_filter, decide_eq_true_iff]
    exact h.mem_next_iff
  refine ⟨hnext, fun k => ?_, fun hmem => ?_⟩
  · rw [List.mem_append, hnext, h.mem_seen_iff]
    constructor
    · rintro (⟨m, hm, hk⟩ | hk)
      · exact ⟨m, Nat.le_succ_of_le hm, hk⟩
      · exact ⟨n + 1, Nat.le_refl _, hk.1⟩
    · rintro ⟨m, hm, hk⟩
      by_cases hnear : ∃ l ≤ n, Links t.Lists l start k
      · exact .inl hnear
      · have heq : m = n + 1 := by
          by_contra hne
          exact hnear ⟨m, by omega, hk⟩
        subst heq
        refine .inr ⟨hk, fun l hl => ?_⟩
        by_contra hlt
        exact hnear ⟨l, by omega, hl⟩
  · rcases List.mem_append.mp hmem with hmem | hmem
    · exact h.target_unseen hmem
    · exact hnot (List.mem_filter.mp hmem).1

/-- The target is further away than the search has come. -/
theorem lt_of_isLeast (h : t.Level start target n seen frontier) {m : Nat}
    (hm : IsLeast {m | Links t.Lists m start target} m) : n < m := by
  by_contra hle
  exact h.target_unseen ((h.mem_seen_iff target).mpr ⟨m, by omega, hm.1⟩)

/-- What the search answers from a level on. With room for all classes it is not cut off, as a
shortest way has no more links than there are classes. -/
theorem hops_eq_some_iff (h : t.Level start target n seen frontier) (hroom : t.size < n + limit)
    {m : Nat} : t.hops target limit seen frontier = some m ↔
      IsLeast {m | Links t.Lists m start target} (n + m) := by
  induction limit generalizing n m seen frontier with
  | zero =>
    have hnone : t.hops target 0 seen frontier = none := by cases frontier <;> rfl
    rw [hnone]
    refine ⟨nofun, fun hm => ?_⟩
    have hle := Links.le_of_isLeast (fun _ _ => index_lt_of_lists) hm
    omega
  | succ limit ih =>
    cases frontier with
    | nil =>
      refine ⟨nofun, fun hm => ?_⟩
      obtain ⟨j, hj, -⟩ := Links.exists_isLeast_of_le hm (Nat.le_add_right n m)
      cases (h.mem_frontier_iff j).mpr hj
    | cons current others =>
      show (if target ∈ t.listed (current :: others) then some 1 else _) = some m ↔ _
      by_cases htarget : target ∈ t.listed (current :: others)
      · have hleast := h.mem_next_iff.mp ⟨htarget, h.target_unseen⟩
        rw [if_pos htarget, Option.some.injEq]
        constructor
        · rintro rfl
          exact hleast
        · intro hm
          have heq := hleast.unique hm
          omega
      · rw [if_neg htarget, Option.map_eq_some_iff]
        have hrest : ∀ {l : Nat}, _ := fun {l} => ih (h.step htarget) (by omega) (m := l)
        constructor
        · rintro ⟨l, hl, rfl⟩
          have hleast := hrest.mp hl
          rwa [Nat.add_right_comm] at hleast
        · intro hm
          have hlt := h.lt_of_isLeast hm
          obtain ⟨l, rfl⟩ : ∃ l, m = l + 1 := ⟨m - 1, by omega⟩
          refine ⟨l, hrest.mpr ?_, rfl⟩
          rwa [Nat.add_right_comm]

end Level

theorem linkCost?_eq_some_iff :
    t.linkCost? target c = some n ↔ IsLeast {m | Links t.Lists m c target} n := by
  constructor
  · intro h
    refine ⟨linkCost?_sound h, fun m hm => ?_⟩
    obtain ⟨l, hl, hfound⟩ := linkCost?_complete hm
    cases h.symm.trans hfound
    exact hl
  · intro h
    obtain ⟨l, hl, hfound⟩ := linkCost?_complete h.1
    have hle : n ≤ l := h.2 (linkCost?_sound hfound)
    rw [hfound, Nat.le_antisymm hl hle]

/-- Marks lose no shortest way. -/
theorem hops_eq_linkCost? (h : c ≠ target) :
    t.hops target (t.size + 1) [c] [c] = t.linkCost? target c := by
  refine Option.ext fun m => ?_
  rw [(Level.init h).hops_eq_some_iff (by omega), Nat.zero_add]
  exact linkCost?_eq_some_iff.symm

/-! ## Walking up the superclasses -/

/-- The cheaper of what was found so far and `cost`. -/
def cheaper (best : Option Nat) (cost : Nat) : Nat := best.elim cost (min · cost)

/-- The least cost of a route from the classes `cs`, of which the first is `steps` superclass links
up. The walk stops at the target. -/
def walk (t : ClassTable) (target : ClassId) : Nat → Option Nat → List ClassId → Option Nat
  | _, best, [] => best
  | steps, best, c :: above =>
    if c = target then some (cheaper best (2 * steps))
    else
      match t.hops target (t.size + 1) [c] [c] with
      | some links => walk t target (steps + 1) (some (cheaper best (2 * steps + links))) above
      | none => walk t target (steps + 1) best above

/-- The costs of the routes that leave the superclass chain at one of `cs`. -/
def costsFrom (t : ClassTable) (target : ClassId) (steps : Nat) (cs : List ClassId) : List Nat :=
  (cs.zipIdx steps).filterMap fun (c, steps) => (t.linkCost? target c).map (2 * steps + ·)

theorem le_of_mem_costsFrom {steps cost : Nat} {cs : List ClassId}
    (h : cost ∈ t.costsFrom target steps cs) : 2 * steps ≤ cost := by
  obtain ⟨⟨c, i⟩, hc, hcost⟩ := List.mem_filterMap.mp h
  obtain ⟨links, -, rfl⟩ := Option.map_eq_some_iff.mp hcost
  have hle : steps ≤ i := (List.mem_zipIdx hc).1
  show 2 * steps ≤ 2 * i + links
  omega

theorem costsFrom_cons {steps : Nat} {above : List ClassId} :
    t.costsFrom target steps (c :: above) =
      ((t.linkCost? target c).map (2 * steps + ·)).toList ++
        t.costsFrom target (steps + 1) above := by
  unfold costsFrom
  rw [List.zipIdx_cons, List.filterMap_cons]
  cases hc : t.linkCost? target c with
  | none => simp only [hc, Option.map_none, Option.toList_none, List.nil_append]
  | some links => simp only [hc, Option.map_some, Option.toList_some, List.singleton_append]

/-- At the target the walk can stop: every later route costs more. -/
private theorem min?_stop {best : Option Nat} {cost : Nat} {later : List Nat}
    (h : ∀ l ∈ later, cost ≤ l) :
    (best.toList ++ cost :: later).min? = some (cheaper best cost) := by
  rw [List.min?_eq_some_iff]
  cases best with
  | none =>
    refine ⟨List.mem_cons_self, fun l hl => ?_⟩
    rcases List.mem_cons.mp hl with rfl | hl
    · exact Nat.le_refl _
    · exact h l hl
  | some b =>
    show min b cost ∈ b :: cost :: later ∧ ∀ l ∈ b :: cost :: later, min b cost ≤ l
    constructor
    · rcases Nat.le_total b cost with hle | hle
      · rw [Nat.min_eq_left hle]
        exact List.mem_cons_self
      · rw [Nat.min_eq_right hle]
        exact List.mem_cons_of_mem _ List.mem_cons_self
    · intro l hl
      rcases List.mem_cons.mp hl with rfl | hl
      · exact Nat.min_le_left ..
      rcases List.mem_cons.mp hl with rfl | hl
      · exact Nat.min_le_right ..
      · exact Nat.le_trans (Nat.min_le_right ..) (h l hl)

/-- The best cost so far stands for the costs that it was chosen from. -/
private theorem min?_keep {best : Option Nat} {cost : Nat} {later : List Nat} :
    (best.toList ++ cost :: later).min? = (cheaper best cost :: later).min? := by
  cases best <;> rfl

theorem walk_eq (steps : Nat) (best : Option Nat) (cs : List ClassId) :
    t.walk target steps best cs = (best.toList ++ t.costsFrom target steps cs).min? := by
  induction cs generalizing steps best with
  | nil => cases best <;> rfl
  | cons c above ih =>
    rw [walk, costsFrom_cons]
    by_cases hc : c = target
    · have hhere : t.linkCost? target c = some 0 := if_pos hc
      rw [if_pos hc, hhere]
      refine (min?_stop fun l hl => ?_).symm
      have hle := le_of_mem_costsFrom hl
      omega
    · rw [if_neg hc, hops_eq_linkCost? hc]
      cases t.linkCost? target c with
      | none => exact ih (steps + 1) best
      | some links => exact (ih (steps + 1) _).trans min?_keep.symm

/-- Marking classes and stopping at the target do not change the cost. -/
theorem walk_eq_classDistance (h : target ≠ .object) :
    t.walk target 0 none (t.superclasses source) = t.classDistance source target := by
  rw [walk_eq]
  exact (if_neg fun hobject => h hobject.1).symm

/-! ## The cost of a conversion -/

theorem Constructed.routeCosts_eq (ht : t.Constructed) : t.routeCosts source target =
    {cost | ∃ k steps links, Links t.Extends steps source k ∧ Links t.Lists links k target ∧
      2 * steps + links = cost} := by
  ext cost
  constructor
  · rintro ⟨steps, links, hroute, hcost⟩
    obtain ⟨k, hk, hlinks⟩ := ht.route_iff.mp hroute
    exact ⟨k, steps, links, hk, hlinks, hcost⟩
  · rintro ⟨k, steps, links, hk, hlinks, hcost⟩
    exact ⟨steps, links, ht.route_iff.mpr ⟨k, hk, hlinks⟩, hcost⟩

/-- Converting a class to another one than the root class costs the least of `2 * steps + links`,
over the classes `steps` superclass links up from which `links` links of `interfaces` lists lead
there, and it is impossible just if there is no such class. The walk that marks what it has visited
and stops at the target finds the same. -/
theorem distance_least_route (ht : t.Constructed) {c d : ClassId} (hd : d ≠ .object)
    (as bs : List Ty) :
    (∀ n, t.distance (.object c as) (.object d bs) = some n ↔
      IsLeast {cost | ∃ k steps links, Links t.Extends steps c k ∧ Links t.Lists links k d ∧
        2 * steps + links = cost} n) ∧
      (t.distance (.object c as) (.object d bs) = none ↔
        ∀ k steps links, Links t.Extends steps c k → ¬ Links t.Lists links k d) ∧
      t.walk d 0 none (t.superclasses c) = t.distance (.object c as) (.object d bs) := by
  have hleast : ∀ n, t.classDistance c d = some n ↔ IsLeast _ n := fun n =>
    ht.routeCosts_eq ▸ classDistance_eq_some_iff hd
  refine ⟨hleast, ?_, walk_eq_classDistance hd⟩
  show t.classDistance c d = none ↔ _
  constructor
  · intro hnone k steps links hk hlinks
    have hcost : 2 * steps + links ∈ t.routeCosts c d := by
      rw [ht.routeCosts_eq]
      exact ⟨k, steps, links, hk, hlinks, rfl⟩
    obtain ⟨n, hn, -⟩ := exists_classDistance hd hcost
    cases hnone.symm.trans hn
  · intro hall
    rw [Option.eq_none_iff_forall_ne_some]
    intro n hn
    obtain ⟨⟨k, steps, links, hk, hlinks, -⟩, -⟩ := (hleast n).mp hn
    exact hall k steps links hk hlinks

/-- Two interfaces that extend each other are reached from above, and there is no way back. -/
theorem distance_least_route_knot :
    let t := standard.runAll knotHistory
    t.Constructed ∧ Relation.TransGen t.Lists ⟨24⟩ ⟨24⟩ ∧
      IsLeast {cost | ∃ k steps links, Links t.Extends steps ⟨28⟩ k ∧ Links t.Lists links k ⟨24⟩ ∧
        2 * steps + links = cost} 5 ∧
      ∀ k steps links, Links t.Extends steps ⟨24⟩ k → ¬ Links t.Lists links k ⟨28⟩ := by
  intro t
  have ht : t.Constructed := ⟨knotHistory, by decide, rfl⟩
  have hthere : t.Lists ⟨24⟩ ⟨25⟩ := (by decide : _ ∈ (t.info _).interfaces)
  have hback : t.Lists ⟨25⟩ ⟨24⟩ := (by decide : _ ∈ (t.info _).interfaces)
  have hsome : t.distance (.ofClass ⟨28⟩) (.ofClass ⟨24⟩) = some 5 := by decide
  have hnone : t.distance (.ofClass ⟨24⟩) (.ofClass ⟨28⟩) = none := by decide
  exact ⟨ht, .tail (.single hthere) hback,
    ((distance_least_route ht (by decide) [] []).1 5).mp hsome,
    (distance_least_route ht (by decide) [] []).2.1.mp hnone⟩

end ClassTable

end CallSite
