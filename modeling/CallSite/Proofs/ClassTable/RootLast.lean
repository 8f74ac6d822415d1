import CallSite.Proofs.ClassTable.Cost
import CallSite.Proofs.ClassTable.Subtyping

/-!
# The root class comes last

A class is further away from the root class than from everything else that it can be used as. A
route with the fewest links meets another interface with each link, so that it has no more links
than the class has interfaces, and it leaves the superclass chain no higher than at the root class.
The distance to the root class counts all superclass steps and all interfaces, and one more.
-/

namespace CallSite

/-- The chain is at its end where no link leads on. -/
theorem Links.leads {next : ClassId → Option ClassId} {n : Nat} {c last : ClassId}
    (h : Links (fun c d => next c = some d) n c last) (hlast : next last = none) :
    Leads next last n c := by
  induction h with
  | here => exact .here hlast
  | next hlink _ ih => exact .link hlink (ih hlast)

namespace ClassTable

variable {t : ClassTable} {r s c k : ClassId} {n : Nat}

/-! ## Superclass steps -/

theorem Constructed.superclass?_object (ht : t.Constructed) : t.superclass? .object = none := by
  obtain ⟨last, rfl, hnone, -⟩ :=
    ht.consistent.linked.superclasses.chain_ends (c := .object) ht.built.size_pos
  exact hnone

/-- No superclass is further up than the root class. -/
theorem Constructed.le_of_links_object (ht : t.Constructed) {steps depth : Nat}
    (hdepth : Links t.Extends depth r .object) (hsteps : Links t.Extends steps r k) :
    steps ≤ depth :=
  Links.le_of_leads hsteps (Links.leads hdepth ht.superclass?_object)

/-- The root class costs all superclass steps, all interfaces, and one more. -/
theorem Constructed.classDistance_object (ht : t.Constructed) (hr : r.index < t.size)
    (hne : r ≠ .object) : ∃ depth, Links t.Extends depth r .object ∧
      t.classDistance r .object = some (2 * depth + (t.allInterfaces r).length + 1) := by
  have hmem : ((t.superclasses r).idxOf? .object).isSome = true :=
    List.isSome_idxOf?.mpr (object_mem_superclasses ht hr)
  obtain ⟨depth, hdepth⟩ := Option.isSome_iff_exists.mp hmem
  obtain ⟨hlt, hobject, -⟩ := List.idxOf?_eq_some_iff.mp hdepth
  refine ⟨depth, ht.getElem?_superclasses_iff.mp (List.getElem?_eq_some_iff.mpr ⟨hlt, hobject⟩), ?_⟩
  unfold classDistance
  rw [if_pos ⟨rfl, hne⟩, hdepth]
  rfl

/-! ## Interface links -/

/-- A shortest way meets another class with each of its links. -/
private theorem exists_met (h : IsLeast {m | Links t.Lists m s k} n) :
    ∃ met : List ClassId, met.length = n ∧ met.Nodup ∧
      ∀ i ∈ met, ∃ m ≤ n, 0 < m ∧ IsLeast {m | Links t.Lists m s i} m := by
  induction n generalizing k with
  | zero => exact ⟨[], rfl, List.nodup_nil, nofun⟩
  | succ n ih =>
    obtain ⟨j, hj, -⟩ := Links.exists_isLeast_of_le h (Nat.le_succ n)
    obtain ⟨met, hlength, hnodup, hmet⟩ := ih hj
    refine ⟨k :: met, congrArg (· + 1) hlength, List.nodup_cons.mpr ⟨fun hk => ?_, hnodup⟩, ?_⟩
    · obtain ⟨m, hm, -, hkm⟩ := hmet k hk
      have heq := hkm.unique h
      omega
    · intro i hi
      rcases List.mem_cons.mp hi with rfl | hi
      · exact ⟨n + 1, Nat.le_refl _, Nat.succ_pos n, h⟩
      · obtain ⟨m, hm, hpos, him⟩ := hmet i hi
        exact ⟨m, Nat.le_succ_of_le hm, hpos, him⟩

/-- What links lead to is listed by the last class before it. -/
theorem InterfacesOnly.isInterface_of_links (hi : t.InterfacesOnly) (h : Links t.Lists n s k)
    (hpos : 0 < n) : (t.info k).isInterface = true := by
  obtain ⟨n, rfl⟩ : ∃ m, n = m + 1 := ⟨n - 1, by omega⟩
  obtain ⟨j, -, hlast⟩ := h.split
  cases hlast with
  | next hlists hrest =>
    cases hrest
    exact hi.isInterface hlists

theorem InterfacesOnly.mem_allInterfaces_iff (hi : t.InterfacesOnly) (ht : t.Constructed)
    (hr : r.index < t.size) :
    k ∈ t.allInterfaces r ↔ (t.info k).isInterface = true ∧ t.LeadsTo r k := by
  rw [← implements_iff ht hi hr]
  exact List.contains_iff_mem.symm

/-- A shortest way from a superclass has no more links than the class has interfaces. -/
theorem InterfacesOnly.links_le (hi : t.InterfacesOnly) (ht : t.Constructed)
    (hr : r.index < t.size) (hs : Relation.ReflTransGen t.Extends r s)
    (h : IsLeast {m | Links t.Lists m s k} n) : n ≤ (t.allInterfaces r).length := by
  obtain ⟨met, rfl, hnodup, hmet⟩ := exists_met h
  refine hnodup.length_le_of_subset fun i hmem => ?_
  obtain ⟨m, -, hpos, hleast⟩ := hmet i hmem
  exact (hi.mem_allInterfaces_iff ht hr).mpr
    ⟨hi.isInterface_of_links hleast.1 hpos, s, hs, hleast.1.reflTransGen⟩

/-- A cheapest route to another class costs at most all superclass steps and all interfaces. -/
theorem Constructed.cost_le (ht : t.Constructed) (hi : t.InterfacesOnly) (hr : r.index < t.size)
    {cost depth : Nat} (hcost : IsLeast (t.routeCosts r c) cost)
    (hdepth : Links t.Extends depth r .object) :
    cost ≤ 2 * depth + (t.allInterfaces r).length := by
  obtain ⟨⟨steps, links, hroute, rfl⟩, hleast⟩ := hcost
  obtain ⟨k, hk, hlinks⟩ := ht.route_iff.mp hroute
  -- With fewer links from the same superclass the route would be cheaper.
  have hfewest : IsLeast {m | Links t.Lists m k c} links := by
    refine ⟨hlinks, fun m hm => ?_⟩
    have hle : 2 * steps + links ≤ 2 * steps + m :=
      hleast ⟨steps, m, ht.route_iff.mpr ⟨k, hk, hm⟩, rfl⟩
    omega
  have hsteps := ht.le_of_links_object hdepth hk
  have hmet := hi.links_le ht hr hk.reflTransGen hfewest
  omega

/-! ## Extension methods -/

/-- Whether a call is accepted depends on the name and the parameters only. -/
theorem mem_extensionsFor_of_accepts {f g : Method} {receiver : Ty} {name : String}
    {args : List Ty} (hg : g ∈ t.extensionsFor receiver name args) (hf : f ∈ t.extensions)
    (hname : f.name = g.name)
    (haccepts : t.accepts g receiver args = true → t.accepts f receiver args = true) :
    f ∈ t.extensionsFor receiver name args := by
  obtain ⟨-, hpass⟩ := List.mem_filter.mp hg
  rw [Bool.and_eq_true] at hpass
  refine List.mem_filter.mpr ⟨hf, Bool.and_eq_true_iff.mpr ⟨?_, haccepts hpass.2⟩⟩
  rw [hname]
  exact hpass.1

/-- With the same other parameters, a receiver that fits is all that acceptance takes. -/
theorem accepts_of_assignable {f g : Method} {receiver self self' : Ty} {params args : List Ty}
    (hf : f.params = self :: params) (hg : g.params = self' :: params)
    (hself : t.assignable receiver self = true) (h : t.accepts g receiver args = true) :
    t.accepts f receiver args = true := by
  unfold accepts at h ⊢
  rw [hg] at h
  rw [hf]
  simp only [Bool.and_eq_true] at h ⊢
  exact ⟨⟨h.1.1, hself⟩, h.2⟩

/-- If only interfaces are listed, a class is nearer to whatever else it can be used as than to the
root class. An extension of the root class is then never among the best candidates for a call if one
with the same other parameters is declared for another type of the receiver. -/
theorem distance_lt_object (ht : t.Constructed) (hi : t.InterfacesOnly) {r c : ClassId}
    (hr : r.index < t.size) (hroot : r ≠ .object) (hc : c ≠ .object) (as bs cs : List Ty)
    (hassign : t.assignable (.object r as) (.object c bs) = true) :
    ∃ m n, t.distance (.object r as) (.object c bs) = some m ∧
      t.distance (.object r as) (.object .object cs) = some n ∧ m < n ∧
      ∀ (f g : Method) (params args : List Ty),
        f.params = .object c bs :: params → g.params = .object .object cs :: params →
          (∀ candidates, f ∈ candidates → g ∉ t.bestOverloads (.object r as) candidates args) ∧
          (f ∈ t.extensions → f.name = g.name → ∀ name, g ∉
            t.bestOverloads (.object r as) (t.extensionsFor (.object r as) name args) args) := by
  obtain ⟨m, hm⟩ := Option.isSome_iff_exists.mp hassign
  obtain ⟨depth, hdepth, hn⟩ := ht.classDistance_object hr hroot
  have hle := ht.cost_le hi hr ((classDistance_eq_some_iff hc).mp hm) hdepth
  have hlt : m < 2 * depth + (t.allInterfaces r).length + 1 := Nat.lt_succ_of_le hle
  refine ⟨m, _, hm, hn, hlt, fun f g params args hf hg => ?_⟩
  have hcandidates : ∀ candidates, f ∈ candidates →
      g ∉ t.bestOverloads (.object r as) candidates args :=
    fun candidates => not_mem_bestOverloads hf hg hm hn hlt
  refine ⟨hcandidates, fun hext hname name hbest => ?_⟩
  obtain ⟨hmem, -⟩ := mem_bestOverloads_iff.mp hbest
  refine hcandidates _ (mem_extensionsFor_of_accepts hmem hext hname fun haccepts => ?_) hbest
  exact accepts_of_assignable hf hg hassign haccepts

/-- An editor is an author, who is a writer, and a writer is a person. Persons are named, named ones
are known, and known ones are persons. Everything has a label, and so have the known ones. -/
def knownHistory : List Call :=
  [.declare "p.Named" .interface, .declare "p.Known" .interface, .declare "p.Person" .interface,
    .declare "p.Writer" .cls, .declare "p.Author" .cls, .declare "p.Editor" .cls,
    .addInterface ⟨26⟩ ⟨24⟩, .addInterface ⟨24⟩ ⟨25⟩, .addInterface ⟨25⟩ ⟨26⟩,
    .addInterface ⟨27⟩ ⟨26⟩, .setSuperclass ⟨28⟩ ⟨27⟩, .setSuperclass ⟨29⟩ ⟨28⟩,
    .addExtension (label .object), .addExtension (label ⟨25⟩)]

theorem distance_lt_object_editor :
    let t := standard.runAll knownHistory
    t.Constructed ∧ t.InterfacesOnly ∧ 29 < t.size ∧
      t.assignable (.ofClass ⟨29⟩) (.ofClass ⟨25⟩) = true ∧
      t.distance (.ofClass ⟨29⟩) (.ofClass ⟨25⟩) = some 7 ∧
      t.distance (.ofClass ⟨29⟩) (.ofClass .object) = some 10 ∧
      label .object ∈ t.extensionsFor (.ofClass ⟨29⟩) "getLabel" [] ∧
      label .object ∉
        t.bestOverloads (.ofClass ⟨29⟩) (t.extensionsFor (.ofClass ⟨29⟩) "getLabel" []) [] := by
  intro t
  have ht : t.Constructed := ⟨knownHistory, by decide, rfl⟩
  have hi : t.InterfacesOnly := by decide
  have hassign : t.assignable (.ofClass ⟨29⟩) (.ofClass ⟨25⟩) = true := by decide
  obtain ⟨m, n, -, -, -, hbest⟩ :=
    distance_lt_object ht hi (by decide) (by decide) (by decide) [] [] [] hassign
  obtain ⟨-, hchosen⟩ := hbest (label ⟨25⟩) (label .object) [] [] rfl rfl
  have hext : label ⟨25⟩ ∈ t.extensions := by decide
  exact ⟨ht, hi, by decide, hassign, by decide, by decide, by decide, hchosen hext rfl "getLabel"⟩

end ClassTable

end CallSite
