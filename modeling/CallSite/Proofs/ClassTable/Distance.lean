import CallSite.ClassTable.Overload
import CallSite.Proofs.ClassTable.Implemented
import Mathlib.Order.Bounds.Basic
import Mathlib.Order.Nat

/-!
# Conversion distances

The distance from a class to an interface is the least cost of a way there: some superclass steps,
at two each, and then some links of `interfaces` lists, at one each. A sub-interface is nearer than
the interface that it extends just if every way to the latter around the former costs more, and
among overloads that differ in this parameter only the nearer one is chosen.
-/

namespace CallSite

/-- From `c`, `n` links lead to `k`. -/
inductive Links (link : ClassId → ClassId → Prop) : Nat → ClassId → ClassId → Prop
  | here {c} : Links link 0 c c
  | next {n c i k} : link c i → Links link n i k → Links link (n + 1) c k

namespace Links

variable {link link' : ClassId → ClassId → Prop} {m n : Nat} {c i k : ClassId}

theorem trans (h : Links link m c i) (h' : Links link n i k) : Links link (m + n) c k := by
  induction h with
  | here => rwa [Nat.zero_add]
  | next hlink _ ih =>
    rw [Nat.succ_add]
    exact .next hlink (ih h')

theorem mono (hsub : ∀ c d, link c d → link' c d) (h : Links link n c k) : Links link' n c k := by
  induction h with
  | here => exact .here
  | next hlink _ ih => exact .next (hsub _ _ hlink) ih

theorem of_reflTransGen (h : Relation.ReflTransGen link c k) : ∃ n, Links link n c k := by
  induction h using Relation.ReflTransGen.head_induction_on with
  | refl => exact ⟨0, .here⟩
  | head hlink _ ih =>
    obtain ⟨n, hn⟩ := ih
    exact ⟨n + 1, .next hlink hn⟩

theorem reflTransGen (h : Links link n c k) : Relation.ReflTransGen link c k := by
  induction h with
  | here => exact .refl
  | next hlink _ ih => exact .head hlink ih

theorem pos_of_ne (h : Links link n c k) (hne : c ≠ k) : 0 < n := by
  cases h with
  | here => exact absurd rfl hne
  | next _ _ => exact Nat.zero_lt_succ _

/-- The distances to the end fall along a shortest way, so that it meets no class twice. -/
private theorem exists_way {size : Nat} (hsize : ∀ c d, link c d → c.index < size)
    (h : IsLeast {m | Links link m c k} n) :
    ∃ way : List ClassId, way.length = n ∧ way.Nodup ∧
      ∀ s ∈ way, s.index < size ∧ ∃ m ≤ n, IsLeast {m | Links link m s k} m := by
  induction n generalizing c with
  | zero => exact ⟨[], rfl, List.nodup_nil, nofun⟩
  | succ n ih =>
    cases h.1 with
    | @next _ _ d _ hlink hd =>
      have hleast : IsLeast {m | Links link m d k} n :=
        ⟨hd, fun m hm => Nat.le_of_succ_le_succ (h.2 (.next hlink hm))⟩
      obtain ⟨way, hlength, hnodup, hway⟩ := ih hleast
      refine ⟨c :: way, congrArg (· + 1) hlength, List.nodup_cons.mpr ⟨fun hc => ?_, hnodup⟩, ?_⟩
      · obtain ⟨-, m, hm, hcm⟩ := hway c hc
        have heq := hcm.unique h
        omega
      · intro s hs
        rcases List.mem_cons.mp hs with rfl | hs
        · exact ⟨hsize _ _ hlink, n + 1, Nat.le_refl _, h⟩
        · obtain ⟨hlt, m, hm, hsm⟩ := hway s hs
          exact ⟨hlt, m, Nat.le_succ_of_le hm, hsm⟩

/-- A shortest way among `size` classes is no longer. -/
theorem le_of_isLeast {size : Nat} (hsize : ∀ c d, link c d → c.index < size)
    (h : IsLeast {m | Links link m c k} n) : n ≤ size := by
  obtain ⟨way, rfl, hnodup, hway⟩ := exists_way hsize h
  exact length_le_of_index_lt hnodup fun s hs => (hway s hs).1

end Links

private theorem exists_isLeast {costs : Set Nat} {n : Nat} (h : n ∈ costs) :
    ∃ least, IsLeast costs least := by
  classical
  exact ⟨_, Nat.isLeast_find ⟨n, h⟩⟩

namespace ClassTable

variable {t : ClassTable}

/-! ## Interface links -/

/-- The classes that some class in `frontier` lists. -/
def listed (t : ClassTable) (frontier : List ClassId) : List ClassId :=
  (frontier.flatMap fun c => (t.info c).interfaces).eraseDups

section

variable {limit n : Nat} {frontier : List ClassId} {c i target : ClassId}

theorem mem_listed_iff : i ∈ t.listed frontier ↔ ∃ c ∈ frontier, t.Lists c i := by
  unfold listed
  rw [List.mem_eraseDups, List.mem_flatMap]
  rfl

theorem linksTo?_nil : t.linksTo? target limit [] = none := by
  cases limit <;> rfl

theorem linksTo?_succ : t.linksTo? target (limit + 1) frontier =
    if target ∈ t.listed frontier then some 1
    else (t.linksTo? target limit (t.listed frontier)).map (· + 1) := by
  rw [linksTo?]
  show (if (t.listed frontier).contains target then some 1
    else if (t.listed frontier).isEmpty then none else _) = _
  by_cases htarget : target ∈ t.listed frontier
  · rw [if_pos htarget, if_pos (List.contains_iff_mem.mpr htarget)]
  · rw [if_neg htarget, if_neg (mt List.contains_iff_mem.mp htarget)]
    by_cases hempty : t.listed frontier = []
    · rw [hempty, linksTo?_nil]
      rfl
    · rw [if_neg (mt List.isEmpty_iff.mp hempty)]
      rfl

theorem linksTo?_sound (h : t.linksTo? target limit frontier = some n) :
    ∃ c ∈ frontier, Links t.Lists n c target := by
  induction limit generalizing frontier n with
  | zero => cases h
  | succ limit ih =>
    rw [linksTo?_succ] at h
    split at h
    · rename_i htarget
      cases h
      obtain ⟨c, hc, hlists⟩ := mem_listed_iff.mp htarget
      exact ⟨c, hc, .next hlists .here⟩
    · obtain ⟨m, hm, rfl⟩ := Option.map_eq_some_iff.mp h
      obtain ⟨i, hi, hlinks⟩ := ih hm
      obtain ⟨c, hc, hlists⟩ := mem_listed_iff.mp hi
      exact ⟨c, hc, .next hlists hlinks⟩

theorem linksTo?_complete (hc : c ∈ frontier) (h : Links t.Lists (n + 1) c target)
    (hn : n < limit) : ∃ m ≤ n + 1, t.linksTo? target limit frontier = some m := by
  induction n generalizing c frontier limit with
  | zero =>
    obtain ⟨limit, rfl⟩ := Nat.exists_eq_succ_of_ne_zero (Nat.ne_of_gt hn)
    cases h with
    | next hlists hrest =>
      cases hrest
      exact ⟨1, Nat.le_refl 1, linksTo?_succ.trans (if_pos (mem_listed_iff.mpr ⟨c, hc, hlists⟩))⟩
  | succ n ih =>
    obtain ⟨limit, rfl⟩ := Nat.exists_eq_succ_of_ne_zero (Nat.ne_of_gt (Nat.zero_lt_of_lt hn))
    cases h with
    | next hlists hrest =>
      rw [linksTo?_succ]
      by_cases htarget : target ∈ t.listed frontier
      · exact ⟨1, Nat.succ_le_succ (Nat.zero_le _), if_pos htarget⟩
      · obtain ⟨m, hm, hfound⟩ :=
          ih (mem_listed_iff.mpr ⟨c, hc, hlists⟩) hrest (Nat.lt_of_succ_lt_succ hn)
        exact ⟨m + 1, Nat.succ_le_succ hm, by rw [if_neg htarget, hfound]; rfl⟩

theorem linkCost?_sound (h : t.linkCost? target c = some n) : Links t.Lists n c target := by
  unfold linkCost? at h
  split at h
  · rename_i hc
    cases h
    rw [hc]
    exact .here
  · obtain ⟨d, hd, hlinks⟩ := linksTo?_sound h
    rwa [List.mem_singleton.mp hd] at hlinks

theorem linkCost?_complete (h : Links t.Lists n c target) :
    ∃ m ≤ n, t.linkCost? target c = some m := by
  have hlinked : n ∈ {m | Links t.Lists m c target} := h
  obtain ⟨least, hleast⟩ := exists_isLeast hlinked
  have hle : least ≤ n := hleast.2 h
  unfold linkCost?
  by_cases hc : c = target
  · exact ⟨0, Nat.zero_le n, if_pos hc⟩
  · rw [if_neg hc]
    -- The search goes on for as many links as there are classes; a shortest way has no more.
    have hsize := Links.le_of_isLeast (fun _ _ => index_lt_of_lists) hleast
    obtain ⟨l, rfl⟩ := Nat.exists_eq_succ_of_ne_zero (Nat.ne_of_gt (hleast.1.pos_of_ne hc))
    obtain ⟨m, hm, hfound⟩ := linksTo?_complete (List.mem_singleton_self c) hleast.1 hsize
    exact ⟨m, Nat.le_trans hm hle, hfound⟩

end

/-! ## Routes -/

/-- From `source`, superclass steps and then the links lead to `target`. -/
def Route (t : ClassTable) (link : ClassId → ClassId → Prop) (source target : ClassId)
    (steps links : Nat) : Prop :=
  ∃ c, (t.superclasses source)[steps]? = some c ∧ Links link links c target

/-- What the routes from `source` to `target` cost. -/
def routeCosts (t : ClassTable) (source target : ClassId) : Set Nat :=
  {cost | ∃ steps links, t.Route t.Lists source target steps links ∧ 2 * steps + links = cost}

/-- The least cost over each superclass of `source` that leads to `target`. -/
def levelCosts (t : ClassTable) (source target : ClassId) : List Nat :=
  (t.superclasses source).zipIdx.filterMap fun (c, steps) =>
    (t.linkCost? target c).map (2 * steps + ·)

/-- The class `c` lists `i` and is not `avoid`. -/
def ListsAround (t : ClassTable) (avoid c i : ClassId) : Prop := c ≠ avoid ∧ t.Lists c i

section

variable {n cost : Nat} {c i j k source target avoid : ClassId}

theorem mem_levelCosts_iff : cost ∈ t.levelCosts source target ↔ ∃ steps c links,
    (t.superclasses source)[steps]? = some c ∧ t.linkCost? target c = some links ∧
      2 * steps + links = cost := by
  unfold levelCosts
  rw [List.mem_filterMap]
  constructor
  · rintro ⟨⟨c, steps⟩, hc, hcost⟩
    obtain ⟨links, hlinks, rfl⟩ := Option.map_eq_some_iff.mp hcost
    exact ⟨steps, c, links, List.mem_zipIdx_iff_getElem?.mp hc, hlinks, rfl⟩
  · rintro ⟨steps, c, links, hc, hlinks, rfl⟩
    exact ⟨(c, steps), List.mem_zipIdx_iff_getElem?.mpr hc,
      Option.map_eq_some_iff.mpr ⟨links, hlinks, rfl⟩⟩

theorem routeCosts_of_mem_levelCosts (h : cost ∈ t.levelCosts source target) :
    cost ∈ t.routeCosts source target := by
  obtain ⟨steps, c, links, hc, hlinks, rfl⟩ := mem_levelCosts_iff.mp h
  exact ⟨steps, links, ⟨c, hc, linkCost?_sound hlinks⟩, rfl⟩

theorem exists_mem_levelCosts (h : cost ∈ t.routeCosts source target) :
    ∃ least ≤ cost, least ∈ t.levelCosts source target := by
  obtain ⟨steps, links, ⟨c, hc, hlinks⟩, rfl⟩ := h
  obtain ⟨fewest, hle, hcost⟩ := linkCost?_complete hlinks
  exact ⟨2 * steps + fewest, Nat.add_le_add_left hle _,
    mem_levelCosts_iff.mpr ⟨steps, c, fewest, hc, hcost, rfl⟩⟩

/-- The distance to another class than the root class is the least cost of a route. -/
theorem classDistance_eq_some_iff (h : target ≠ .object) :
    t.classDistance source target = some n ↔ IsLeast (t.routeCosts source target) n := by
  have hlevels : t.classDistance source target = (t.levelCosts source target).min? :=
    if_neg fun hobject => h hobject.1
  rw [hlevels, List.min?_eq_some_iff]
  constructor
  · rintro ⟨hn, hle⟩
    refine ⟨routeCosts_of_mem_levelCosts hn, fun cost hcost => ?_⟩
    obtain ⟨least, hleast, hmem⟩ := exists_mem_levelCosts hcost
    exact Nat.le_trans (hle least hmem) hleast
  · rintro ⟨hn, hle⟩
    obtain ⟨least, hleast, hmem⟩ := exists_mem_levelCosts hn
    have heq : least = n := Nat.le_antisymm hleast (hle (routeCosts_of_mem_levelCosts hmem))
    exact ⟨heq ▸ hmem, fun cost hcost => hle (routeCosts_of_mem_levelCosts hcost)⟩

theorem exists_classDistance (h : target ≠ .object) (hcost : cost ∈ t.routeCosts source target) :
    ∃ n, t.classDistance source target = some n ∧ IsLeast (t.routeCosts source target) n := by
  obtain ⟨n, hn⟩ := exists_isLeast hcost
  exact ⟨n, (classDistance_eq_some_iff h).mpr hn, hn⟩

/-- Links either keep away from a class or lead through it. -/
theorem around_or_through (avoid : ClassId) (h : Links t.Lists n c k) :
    Links (t.ListsAround avoid) n c k ∨
      ∃ a b, a + b = n ∧ Links t.Lists a c avoid ∧ Links t.Lists b avoid k := by
  induction h with
  | here => exact .inl .here
  | @next n c i k hlists hrest ih =>
    by_cases hc : c = avoid
    · subst hc
      exact .inr ⟨0, n + 1, Nat.zero_add _, .here, .next hlists hrest⟩
    · rcases ih with haround | ⟨a, b, rfl, ha, hb⟩
      · exact .inl (.next ⟨hc, hlists⟩ haround)
      · exact .inr ⟨a + 1, b, Nat.succ_add a b, .next hlists ha, hb⟩

/-- A class to which `i` leads is further away than `i`, but for the routes around `i`. -/
theorem lt_iff_around {m : Nat} (hne : i ≠ j) (hm : IsLeast (t.routeCosts source i) m)
    (hn : IsLeast (t.routeCosts source j) n) :
    m < n ↔ ∀ steps links, t.Route (t.ListsAround i) source j steps links →
      m < 2 * steps + links := by
  constructor
  · rintro hlt steps links ⟨c, hc, hlinks⟩
    have hle := hn.2 ⟨steps, links, ⟨c, hc, hlinks.mono fun _ _ hlists => hlists.2⟩, rfl⟩
    exact Nat.lt_of_lt_of_le hlt hle
  · intro haround
    obtain ⟨steps, links, ⟨c, hc, hlinks⟩, rfl⟩ := hn.1
    rcases around_or_through i hlinks with hlinks | ⟨a, b, rfl, ha, hb⟩
    · exact haround steps links ⟨c, hc, hlinks⟩
    -- A way through `i` holds one to `i`, and goes on by a link or more.
    · have hle := hm.2 ⟨steps, a, ⟨c, hc, ha⟩, rfl⟩
      have hpos := hb.pos_of_ne hne
      omega

/-- There is a route to all that a class leads to. -/
theorem LeadsTo.exists_routeCost (ht : t.Constructed) (hc : c.index < t.size) (h : t.LeadsTo c i) :
    ∃ cost, cost ∈ t.routeCosts c i := by
  obtain ⟨s, hs, hlists⟩ := (leadsTo_iff ht hc).mp h
  obtain ⟨steps, hsteps⟩ := List.mem_iff_getElem?.mp hs
  obtain ⟨links, hlinks⟩ := Links.of_reflTransGen hlists
  exact ⟨_, steps, links, ⟨s, hsteps, hlinks⟩, rfl⟩

/-- A route goes on to all that its end leads to. -/
theorem routeCosts_of_reflTransGen (h : cost ∈ t.routeCosts source i)
    (hij : Relation.ReflTransGen t.Lists i j) : ∃ cost, cost ∈ t.routeCosts source j := by
  obtain ⟨steps, links, ⟨c, hc, hlinks⟩, -⟩ := h
  obtain ⟨more, hmore⟩ := Links.of_reflTransGen hij
  exact ⟨_, steps, links + more, ⟨c, hc, hlinks.trans hmore⟩, rfl⟩

theorem Constructed.ne_object (ht : t.Constructed) (hi : (t.info i).isInterface = true) :
    i ≠ .object := by
  rintro rfl
  rw [ht.built.isInterface_eq (by decide)] at hi
  exact Bool.false_ne_true hi

end

/-! ## Overloads -/

section

variable {receiver self : Ty} {args params : List Ty} {candidates : List Method} {f g : Method}

/-- What the arguments of a call cost in conversions. -/
def argsCost? (t : ClassTable) (args params : List Ty) : Option Nat :=
  (args.zip params).foldlM (fun cost (arg, param) => (t.distance arg param).map (cost + ·)) 0

private theorem foldlM_cost (pairs : List (Ty × Ty)) (base : Nat) :
    pairs.foldlM (fun cost (arg, param) => (t.distance arg param).map (cost + ·)) base =
      (pairs.foldlM (fun cost (arg, param) => (t.distance arg param).map (cost + ·)) 0).map
        (base + ·) := by
  induction pairs generalizing base with
  | nil => rfl
  | cons pair pairs ih =>
    obtain ⟨arg, param⟩ := pair
    simp only [List.foldlM_cons]
    cases t.distance arg param with
    | none => rfl
    | some n =>
      show pairs.foldlM _ (base + n) = Option.map _ (pairs.foldlM _ (0 + n))
      rw [ih (base + n), ih (0 + n), Option.map_map, Nat.zero_add]
      exact congrArg (Option.map · _) (funext fun cost => Nat.add_assoc base n cost)

/-- A call costs the conversion of the receiver and those of the arguments. -/
theorem callCost?_eq_some_iff {cost : Nat} (hf : f.params = self :: params) :
    t.callCost? f receiver args = some cost ↔ ∃ base more,
      t.distance receiver self = some base ∧ t.argsCost? args params = some more ∧
        base + more = cost := by
  unfold callCost?
  rw [hf]
  show (t.distance receiver self).bind _ = _ ↔ _
  rw [Option.bind_eq_some_iff]
  refine exists_congr fun base => ?_
  rw [foldlM_cost, Option.map_eq_some_iff]
  constructor
  · rintro ⟨hbase, more, hmore, heq⟩
    exact ⟨more, hbase, hmore, heq⟩
  · rintro ⟨more, hbase, hmore, heq⟩
    exact ⟨hbase, more, hmore, heq⟩

/-- The best candidates are those that no other one undercuts. -/
theorem mem_bestOverloads_iff : f ∈ t.bestOverloads receiver candidates args ↔ f ∈ candidates ∧
    ∃ cost, t.callCost? f receiver args = some cost ∧ ∀ g ∈ candidates, ∀ other,
      t.callCost? g receiver args = some other → cost ≤ other := by
  unfold bestOverloads
  cases hmin : (candidates.filterMap fun m => t.callCost? m receiver args).min? with
  | none =>
    rw [List.min?_eq_none_iff, List.filterMap_eq_nil_iff] at hmin
    constructor
    · nofun
    · rintro ⟨hf, cost, hcost, -⟩
      cases (hmin f hf).symm.trans hcost
  | some least =>
    obtain ⟨hleast, hle⟩ := List.min?_eq_some_iff.mp hmin
    show f ∈ candidates.filter _ ↔ _
    rw [List.mem_filter, beq_iff_eq]
    refine and_congr_right fun hf => ⟨fun hcost => ?_, ?_⟩
    · exact ⟨least, hcost, fun g hg other hother =>
        hle other (List.mem_filterMap.mpr ⟨g, hg, hother⟩)⟩
    · rintro ⟨cost, hcost, hbest⟩
      obtain ⟨g, hg, hgleast⟩ := List.mem_filterMap.mp hleast
      have hge : least ≤ cost := hle cost (List.mem_filterMap.mpr ⟨f, hf, hcost⟩)
      rw [hcost, Nat.le_antisymm (hbest g hg least hgleast) hge]

variable {self' : Ty} {m n : Nat}

/-- An overload with a dearer receiver and the same other parameters is not among the best. -/
theorem not_mem_bestOverloads (hf : f.params = self :: params) (hg : g.params = self' :: params)
    (hm : t.distance receiver self = some m) (hn : t.distance receiver self' = some n) (hlt : m < n)
    (hin : f ∈ candidates) : g ∉ t.bestOverloads receiver candidates args := by
  intro hbest
  obtain ⟨-, cost, hcost, hle⟩ := mem_bestOverloads_iff.mp hbest
  obtain ⟨base, more, hbase, hmore, rfl⟩ := (callCost?_eq_some_iff hg).mp hcost
  cases hn.symm.trans hbase
  have hless := hle f hin _ ((callCost?_eq_some_iff hf).mpr ⟨m, more, hm, hmore, rfl⟩)
  omega

/-- An overload whose receiver is no dearer than that of a best one is among the best. -/
theorem mem_bestOverloads_of_le (hf : f.params = self :: params) (hg : g.params = self' :: params)
    (hm : t.distance receiver self = some m) (hn : t.distance receiver self' = some n) (hle : n ≤ m)
    (hbest : f ∈ t.bestOverloads receiver candidates args) (hin : g ∈ candidates) :
    g ∈ t.bestOverloads receiver candidates args := by
  obtain ⟨-, cost, hcost, hleast⟩ := mem_bestOverloads_iff.mp hbest
  obtain ⟨base, more, hbase, hmore, rfl⟩ := (callCost?_eq_some_iff hf).mp hcost
  cases hm.symm.trans hbase
  refine mem_bestOverloads_iff.mpr ⟨hin, n + more,
    (callCost?_eq_some_iff hg).mpr ⟨n, more, hn, hmore, rfl⟩, fun h hh other hother => ?_⟩
  exact Nat.le_trans (Nat.add_le_add_right hle more) (hleast h hh other hother)

end

/-! ## Sub-interfaces -/

/-- A class that implements the interface `i` is nearer to `i` than to another interface `j` that
`i` extends just if each of its routes to `j` around `i` costs more than the way to `i`. Of two
overloads with these receivers and the same other parameters, the one for `j` is then never among
the best, and otherwise it is among them whenever the one for `i` is. -/
theorem distance_lt_iff_around (ht : t.Constructed) (hi : t.InterfacesOnly) {r i j : ClassId}
    (hr : r.index < t.size) (hne : i ≠ j) (hij : Relation.TransGen t.Lists i j)
    (himp : t.implements r i = true) (as bs cs : List Ty) :
    ∃ m n, t.distance (.object r as) (.object i bs) = some m ∧
      t.distance (.object r as) (.object j cs) = some n ∧
      (m < n ↔ ∀ steps links, t.Route (t.ListsAround i) r j steps links → m < 2 * steps + links) ∧
      ∀ (f g : Method) (params args : List Ty) (candidates : List Method),
        f.params = .object i bs :: params → g.params = .object j cs :: params →
          (m < n → f ∈ candidates → g ∉ t.bestOverloads (.object r as) candidates args) ∧
          (n ≤ m → f ∈ t.bestOverloads (.object r as) candidates args → g ∈ candidates →
            g ∈ t.bestOverloads (.object r as) candidates args) := by
  obtain ⟨hiface, hleads⟩ := (implements_iff ht hi hr).mp himp
  have hjface : (t.info j).isInterface = true := by
    obtain ⟨k, -, hlists⟩ := Relation.TransGen.tail'_iff.mp hij
    exact hi.isInterface hlists
  obtain ⟨cost, hcost⟩ := hleads.exists_routeCost ht hr
  obtain ⟨further, hfurther⟩ := routeCosts_of_reflTransGen hcost hij.to_reflTransGen
  obtain ⟨m, hm, hleast⟩ := exists_classDistance (ht.ne_object hiface) hcost
  obtain ⟨n, hn, hleast'⟩ := exists_classDistance (ht.ne_object hjface) hfurther
  refine ⟨m, n, hm, hn, lt_iff_around hne hleast hleast', ?_⟩
  intro f g params args candidates hf hg
  exact ⟨fun hlt => not_mem_bestOverloads hf hg hm hn hlt,
    fun hle => mem_bestOverloads_of_le hf hg hm hn hle⟩

/-- The label of what implements `c`. -/
def label (c : ClassId) : Method :=
  { name := "getLabel", owner := .extensions, params := [.ofClass c], returns := .ofClass .string,
    isStatic := true }

/-- A person is named. Writers are persons, authors are writers and named, poets are named and
persons, and editors are authors and persons. -/
def labelHistory : List Call :=
  [.declare "p.Named" .interface, .declare "p.Person" .interface, .declare "p.Writer" .cls,
    .declare "p.Author" .cls, .declare "p.Poet" .cls, .declare "p.Editor" .cls,
    .addInterface ⟨25⟩ ⟨24⟩, .addInterface ⟨26⟩ ⟨25⟩, .setSuperclass ⟨27⟩ ⟨26⟩,
    .addInterface ⟨27⟩ ⟨24⟩, .addInterface ⟨28⟩ ⟨24⟩, .addInterface ⟨28⟩ ⟨25⟩,
    .setSuperclass ⟨29⟩ ⟨27⟩, .addInterface ⟨29⟩ ⟨25⟩, .addExtension (label ⟨24⟩),
    .addExtension (label ⟨25⟩)]

theorem distance_lt_iff_around_editor :
    let t := standard.runAll labelHistory
    t.Constructed ∧ t.InterfacesOnly ∧ 29 < t.size ∧ Relation.TransGen t.Lists ⟨25⟩ ⟨24⟩ ∧
      t.implements ⟨29⟩ ⟨25⟩ = true ∧
      (∀ steps links, t.Route (t.ListsAround ⟨25⟩) ⟨29⟩ ⟨24⟩ steps links → 1 < 2 * steps + links) ∧
      label ⟨24⟩ ∉ t.bestOverloads (.ofClass ⟨29⟩) [label ⟨24⟩, label ⟨25⟩] [] := by
  intro t
  have ht : t.Constructed := ⟨labelHistory, by decide, rfl⟩
  have hi : t.InterfacesOnly := by decide
  have hlists : Relation.TransGen t.Lists ⟨25⟩ ⟨24⟩ :=
    .single (by decide : _ ∈ (t.info _).interfaces)
  have himp : t.implements ⟨29⟩ ⟨25⟩ = true := by decide
  obtain ⟨m, n, hm, hn, hiff, hbest⟩ :=
    distance_lt_iff_around ht hi (by decide) (by decide) hlists himp [] [] []
  have hperson : t.distance (.ofClass ⟨29⟩) (.ofClass ⟨25⟩) = some 1 := by decide
  have hnamed : t.distance (.ofClass ⟨29⟩) (.ofClass ⟨24⟩) = some 2 := by decide
  cases hm.symm.trans hperson
  cases hn.symm.trans hnamed
  exact ⟨ht, hi, by decide, hlists, himp, hiff.mp (by decide),
    (hbest (label ⟨25⟩) (label ⟨24⟩) [] [] _ rfl rfl).1 (by decide) (by decide)⟩

/-- An author is nearer to being named than to being a person, and a poet is as near to both. -/
theorem distance_shorter_around :
    let t := standard.runAll labelHistory
    t.Constructed ∧ t.InterfacesOnly ∧ Relation.TransGen t.Lists ⟨25⟩ ⟨24⟩ ∧
      ¬ Relation.TransGen t.Lists ⟨24⟩ ⟨25⟩ ∧
      (t.implements ⟨27⟩ ⟨25⟩ = true ∧ t.distance (.ofClass ⟨27⟩) (.ofClass ⟨25⟩) = some 3 ∧
        t.distance (.ofClass ⟨27⟩) (.ofClass ⟨24⟩) = some 1 ∧
        t.bestOverloads (.ofClass ⟨27⟩) (t.extensionsFor (.ofClass ⟨27⟩) "getLabel" []) [] =
          [label ⟨24⟩]) ∧
      t.implements ⟨28⟩ ⟨25⟩ = true ∧ t.distance (.ofClass ⟨28⟩) (.ofClass ⟨25⟩) = some 1 ∧
        t.distance (.ofClass ⟨28⟩) (.ofClass ⟨24⟩) = some 1 ∧
        t.bestOverloads (.ofClass ⟨28⟩) (t.extensionsFor (.ofClass ⟨28⟩) "getLabel" []) [] =
          [label ⟨24⟩, label ⟨25⟩] := by
  intro t
  have hnone : (t.info ⟨24⟩).interfaces.length = 0 := by decide
  have hback : ¬ Relation.TransGen t.Lists ⟨24⟩ ⟨25⟩ := by
    intro hlists
    obtain ⟨i, hi, -⟩ := Relation.TransGen.head'_iff.mp hlists
    exact absurd (List.length_pos_of_mem hi) (Nat.not_lt.mpr (Nat.le_of_eq hnone))
  exact ⟨⟨labelHistory, by decide, rfl⟩, by decide, .single (by decide : _ ∈ (t.info _).interfaces),
    hback, ⟨by decide, by decide, by decide, by decide⟩, by decide, by decide, by decide, by decide⟩

end ClassTable

end CallSite
