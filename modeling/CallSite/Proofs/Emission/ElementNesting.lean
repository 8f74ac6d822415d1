import CallSite.Proofs.ClassTable.InterfaceSearch
import CallSite.Proofs.Emission.Fragment
import CallSite.Proofs.Emission.Request
import CallSite.Proofs.Fixture.Loaded
import CallSite.Proofs.Selection.Order

/-!
# Accesses to elements of elements

The access to a list element is a property access again, on a fresh variable of the element type.
Each one takes a type argument off, and after the last the root class follows, which is no list. So
the accesses end, after as many as the type arguments are deep and two more.
-/

namespace CallSite

namespace Ty

mutual

/-- How deeply type arguments are nested. -/
def genericDepth : Ty → Nat
  | object _ args => genericDepthAll args
  | array t => t.genericDepth
  | _ => 0

/-- One more than the depth of the deepest, none without type arguments. -/
def genericDepthAll : List Ty → Nat
  | [] => 0
  | t :: ts => max (t.genericDepth + 1) (genericDepthAll ts)

end

mutual

theorem genericDepth_le_nesting : ∀ ty : Ty, ty.genericDepth ≤ ty.nesting
  | object _ args => genericDepthAll_le_nesting args
  | array t => Nat.le_succ_of_le (genericDepth_le_nesting t)
  | void | prim _ | var _ => Nat.le_refl 0

theorem genericDepthAll_le_nesting : ∀ args : List Ty, genericDepthAll args ≤ nestingAll args + 1
  | [] => Nat.zero_le _
  | t :: ts => by
    have ht := genericDepth_le_nesting t
    have hts := genericDepthAll_le_nesting ts
    simp only [genericDepthAll, nestingAll]
    omega

end

end Ty

/-- A type argument that is taken off is less deep. -/
theorem genericDepth_lt_of_concreteArg? {args : List Ty} {arg : Ty}
    (h : concreteArg? args = some arg) : arg.genericDepth < Ty.genericDepthAll args := by
  cases args with
  | nil => cases h
  | cons first rest =>
    simp only [concreteArg?] at h
    by_cases hv : first.isVar = true
    · rw [if_pos hv] at h
      cases h
    · rw [if_neg hv] at h
      cases h
      exact Nat.le_max_left ..

namespace ClassTable

variable {t : ClassTable}

/-- The root class is no list in the table of a fixture. -/
theorem Loaded.object_not_list (h : t.Loaded) :
    t.hasCapability (.ofClass .object) .list = false := by
  have hinfo := h.standard .object (by decide)
  have hnext : t.superclass? .object = none := congrArg ClassInfo.superclass hinfo
  have hchain : t.superclasses .object = [.object] := by
    have hsize : 0 < t.size := Nat.lt_of_lt_of_le (by decide) h.size
    obtain ⟨n, hn⟩ := Nat.exists_eq_succ_of_ne_zero (Nat.ne_of_gt hsize)
    unfold superclasses
    rw [hn, chain, hnext]
  have hsearch : t.interfaceSearch .object = some [] := by
    have hdepth : ∃ n, t.interfaceDepth = n + 1 := ⟨_, rfl⟩
    obtain ⟨n, hn⟩ := hdepth
    unfold interfaceSearch
    rw [hchain, List.foldlM_cons, hn, visitInterfaces, hinfo]
    rfl
  unfold hasCapability derivesFrom implements allInterfaces
  dsimp only [Ty.class?]
  rw [hchain, hsearch]
  rfl

end ClassTable

namespace Setting

open Emit

/-- The access `inner` is the one to the elements that the access `outer` is written with. -/
def Reenters (s : Setting) (outer inner : Site) : Prop :=
  ∃ component slot, s.binding outer = .eachElement component ∧
    inner = elementSite outer outer.member component slot

variable {s : Setting}

/-- The accesses that follow each other are at most as many as these nest. -/
theorem Nests.length_le {n : Nat} {site : Site} {rest : List Site} (h : s.Nests n site)
    (hc : List.IsChain s.Reenters (site :: rest)) : rest.length + 1 ≤ n := by
  induction h generalizing rest with
  | intro _ _ ih =>
    cases rest with
    | nil => exact Nat.le_add_left 1 _
    | cons next rest =>
      obtain ⟨hnext, hc⟩ := List.isChain_cons_cons.mp hc
      obtain ⟨component, slot, hb, rfl⟩ := hnext
      exact Nat.succ_le_succ (ih component slot hb hc)

theorem Nests.mono {m n : Nat} {site : Site} (h : s.Nests m site) (hm : m ≤ n) :
    s.Nests n site := by
  induction h generalizing n with
  | intro hlocal _ ih =>
    obtain ⟨n, rfl⟩ := Nat.exists_eq_succ_of_ne_zero (Nat.ne_of_gt (Nat.zero_lt_of_lt hm))
    exact .intro hlocal fun component slot hb => ih component slot hb (Nat.le_of_succ_le_succ hm)

/-- The type that an element is asked for properties as: its own, or for a `Class<T>` the type
`T`. -/
private theorem receiver_cases (site : Site) (member : String) (component : Ty) (slot : UInt16)
    (enclosing : ClassId) :
    let q := Query.ofSite (elementSite site member component slot) enclosing
    q.component = none ∧ q.receiver.genericDepth ≤ component.genericDepth := by
  refine ⟨rfl, ?_⟩
  cases component with
  | object c args =>
    show (Option.getD (if c = ClassId.cls then concreteArg? args else none)
      (.object c args)).genericDepth ≤ _
    split
    · cases harg : concreteArg? args with
      | none => exact Nat.le_refl _
      | some arg => exact Nat.le_of_lt (genericDepth_lt_of_concreteArg? harg)
    · exact Nat.le_refl _
  | _ => exact Nat.le_refl _

/-- The elements of the elements have the type argument of the element type, if it has one, else
the root class. -/
private theorem inner_component {site : Site} {member : String} {component inner : Ty}
    {slot : UInt16} (h : s.binding (elementSite site member component slot) = .eachElement inner) :
    inner.genericDepth < component.genericDepth ∨ inner = .ofClass .object := by
  obtain ⟨-, rfl⟩ := ClassTable.select_eachElement h
  obtain ⟨hcomponent, hle⟩ := receiver_cases site member component slot s.enclosing
  unfold Query.elementType
  rw [hcomponent, Option.getD_none]
  split
  · rename_i c args hreceiver
    rw [hreceiver] at hle
    cases harg : concreteArg? args with
    | none => exact Or.inr rfl
    | some arg => exact Or.inl (Nat.lt_of_lt_of_le (genericDepth_lt_of_concreteArg? harg) hle)
  · exact Or.inr rfl

/-- An access on the root class does not lead to another. -/
private theorem nests_object (ht : s.table.Loaded) (site : Site) (member : String) (slot : UInt16) :
    s.Nests 1 (elementSite site member (.ofClass .object) slot) := by
  refine .intro rfl fun inner _ hb => ?_
  have hlist : s.table.hasCapability (.ofClass .object) .list = true :=
    (ClassTable.select_eachElement hb).1
  rw [ht.object_not_list] at hlist
  cases hlist

/-- The accesses to elements of one type are as many as its type arguments are deep, and two
more. -/
theorem nests_elementSite (ht : s.table.Loaded) (site : Site) (member : String) (component : Ty)
    (slot : UInt16) :
    s.Nests (component.genericDepth + 2) (elementSite site member component slot) := by
  induction hn : component.genericDepth using Nat.strongRecOn
    generalizing site member component slot with
  | _ n ih =>
    refine .intro rfl fun inner next hb => ?_
    rcases inner_component hb with hlt | rfl
    · rw [hn] at hlt
      exact (ih _ hlt _ _ inner next rfl).mono (by omega)
    · exact (nests_object ht _ _ next).mono (Nat.le_add_left 1 n)

end Setting

namespace Emit

variable {s : Setting}

/-- The accesses of a fixture's table end before their bound does. -/
theorem nests_elementDepth (ht : s.table.Loaded) (site : Site) (member : String) (component : Ty)
    (slot : UInt16) :
    s.Nests (elementDepth component) (elementSite site member component slot) :=
  (Setting.nests_elementSite ht site member component slot).mono
    (Nat.add_le_add_right component.genericDepth_le_nesting 2)

/-- What is written for the elements of a list counts only for an access to these. -/
theorem access_congr {site : Site} {receiver : Emit Ty} {collected collected' : Ty → Emit Ty}
    (h : ∀ component, s.binding site = .eachElement component →
      collected component = collected' component) :
    access s site receiver collected = access s site receiver collected' := by
  have hbound : bound s (s.binding site) site (Query.ofSite site s.enclosing).member receiver
      collected = bound s (s.binding site) site (Query.ofSite site s.enclosing).member receiver
      collected' := by
    cases hb : s.binding site with
    | eachElement component => exact h component hb
    | _ => rfl
  unfold Setting.binding at hbound
  unfold access
  dsimp only
  rw [hbound]

/-- A bound on the accesses that they do not reach does not show in what is written. -/
theorem elementAccess_eq {m n : Nat} {site : Site} (h : s.Nests m site) (hm : m ≤ n) :
    elementAccess s n site = elementAccess s m site := by
  induction h generalizing n with
  | @intro m site slot note _ _ ih =>
    obtain ⟨n, rfl⟩ := Nat.exists_eq_succ_of_ne_zero (Nat.ne_of_gt (Nat.zero_lt_of_lt hm))
    refine access_congr fun component hb => ?_
    unfold collect
    simp only [ih component _ hb (Nat.le_of_succ_le_succ hm)]

/-- The loop for a property of list elements, with any bound on the accesses to elements of elements
that is not below their number. -/
theorem collect_elementAccess (ht : s.table.Loaded) (site : Site) (member : String) (component : Ty)
    (receiver : Emit Ty) {n : Nat} (hn : component.genericDepth + 2 ≤ n) :
    collect s site member component receiver (elementAccess s n) =
      collectProperty s site member receiver component := by
  have heq : ∀ slot, elementAccess s n (elementSite site member component slot) =
      elementAccess s (elementDepth component) (elementSite site member component slot) := by
    intro slot
    have hnests := Setting.nests_elementSite ht site member component slot
    exact (elementAccess_eq hnests hn).trans (elementAccess_eq hnests
      (Nat.add_le_add_right component.genericDepth_le_nesting 2)).symm
  unfold collectProperty collect
  simp only [heq]

/-- Steps fail for other causes than accesses to elements that do not end. -/
def ending (_ : Temporaries) : Invariant where
  holds _ := True
  fails e := ∀ span, e ≠ .internal .endlessElements span

instance (ts : Temporaries) : (ending ts).Plain where
  emit _ _ := trivial
  stack _ _ := trivial
  report _ _ := trivial
  label _ := trivial
  imbalance _ _ _ _ := nofun
  notLive _ := nofun
  noOperator _ _ _ _ _ _ := nofun

theorem ending_scoped : Invariant.Scoped ending fun _ _ => True where
  plain _ := inferInstance
  mono _ _ := trivial
  inner _ := trivial
  fails h := h
  enter _ _ := trivial
  stores _ _ := fun _ _ _ _ => trivial
  leave _ _ _ := trivial

/-- On the table of a fixture whose `interfaces` lists name interfaces only, writing ends. The walks
along the links between classes end by themselves. The accesses that a loop for a property of list
elements leads to are at most as many as the type arguments of the element type are deep, and two
more; a larger bound on them changes nothing of what is written, and no request, on whatever draft,
reaches the bound that there is. -/
theorem emission_ends (source : Fixture.Source) (text path : String) (f : Fixture)
    (enclosing : ClassId) (options : Options) (inClosure : Bool)
    (h : Fixture.ofSource source text path = .ok f) (hi : f.table.InterfacesOnly) :
    let s : Setting := ⟨f.table, enclosing, options, inClosure⟩
    f.table.WalksEnd ∧
      (∀ (site : Site) (member : String) (component : Ty) (slot : UInt16) (rest : List Site),
        List.IsChain s.Reenters (elementSite site member component slot :: rest) →
          rest.length + 1 ≤ component.genericDepth + 2) ∧
      (∀ (site : Site) (member : String) (component : Ty) (receiver : Emit Ty) (n : Nat),
        component.genericDepth + 2 ≤ n →
          collect s site member component receiver (elementAccess s n) =
            collectProperty s site member receiver component) ∧
      ∀ (r : Request) (d : Draft) (span : Span),
        (r.write s d).1 ≠ .error (.internal .endlessElements span) := by
  intro s
  have ht : f.table.Loaded := Fixture.table_loaded h
  refine ⟨ht.linked.walksEnd (Nat.lt_of_lt_of_le (by decide) ht.size) hi, ?_, ?_, ?_⟩
  · intro site member component slot rest hc
    exact (Setting.nests_elementSite ht site member component slot).length_le hc
  · intro site member component receiver n hn
    exact collect_elementAccess ht site member component receiver hn
  · intro r d span he
    have hends : Maintains (ending d.temporaries) (r.write s) :=
      maintains_request (.inl (nests_elementDepth ht)) ending_scoped r trivial
    exact (hends d trivial).2 _ he span rfl

/-- Shelves are lists, and so is everything that is shelved. -/
def shelvesSource : Fixture.Source where
  classes :=
    let plain : Fixture.ClassSource :=
      ⟨"p.Shelved", some .interface, none, ["java.util.List"], none, 0, false, [], [], [], [], []⟩
    [plain, { plain with
      name := "p.Shelf", kind := none, superclass := some "java.util.ArrayList"
      interfaces := ["p.Shelved"], outer := some "p.Shelved" }]
  bridgePairs := []
  extensions := []
  sites := []

/-- The access to an element of a list of shelves is an access to the elements of a shelf. -/
theorem emission_ends_shelves :
    let component : Ty := .object .list [.ofClass ⟨25⟩]
    let list : Site :=
      { member := "label", span := .none, receiver := .localVar 1 { type := .ofClass .list } }
    let shelf := elementSite list "label" component 4
    let shelved := elementSite shelf "label" (.ofClass ⟨25⟩) 7
    ∃ f, (Fixture.ofSource shelvesSource "" "shelves.toml" = .ok f ∧ f.table.InterfacesOnly) ∧
      (List.IsChain (Setting.Reenters ⟨f.table, .object, .standard, false⟩)
          [shelf, shelved, elementSite shelved "label" (.ofClass .object) 10] ∧
        3 ≤ component.genericDepth + 2) ∧
      f.table.WalksEnd ∧
      ∀ d span, (((Request.list list "label" component).write ⟨f.table, .object, .standard, false⟩
        d).1 ≠ .error (.internal .endlessElements span)) := by
  intro component list shelf shelved
  obtain ⟨f, h, hi, hchain⟩ : ∃ f, Fixture.ofSource shelvesSource "" "shelves.toml" = .ok f ∧
      f.table.InterfacesOnly ∧ List.IsChain (Setting.Reenters ⟨f.table, .object, .standard, false⟩)
        [shelf, shelved, elementSite shelved "label" (.ofClass .object) 10] := by
    refine ⟨_, rfl, by decide, ?_⟩
    exact .cons_cons ⟨.ofClass ⟨25⟩, 7, by decide +kernel, rfl⟩
      (.cons_cons ⟨.ofClass .object, 10, by decide +kernel, rfl⟩ (.singleton _))
  obtain ⟨hwalks, hlength, -, hends⟩ :=
    emission_ends shelvesSource "" "shelves.toml" f .object .standard false h hi
  exact ⟨f, ⟨h, hi⟩, ⟨hchain, hlength list "label" component 4 _ hchain⟩, hwalks, hends _⟩

end Emit

end CallSite
