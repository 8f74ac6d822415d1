import CallSite.Proofs.ClassTable.Growth
import CallSite.Proofs.ClassTable.Subtyping
import CallSite.Proofs.Selection.Dependence
import CallSite.Proofs.Selection.Order

/-!
# Unrelated classes

What an access is bound to depends on the members of those classes only that superclass and
`interfaces` links lead to from the receiver's class, from the class that a class literal names, or
from `java.lang.Class`. A class may be declared, and any other class may get members, without any
effect on the access, even if the access is in code of that class.
-/

namespace CallSite

namespace ClassTable

/-- The class `d` is the superclass of `c`, or `c` lists it among its interfaces. -/
def LinkedTo (t : ClassTable) (c d : ClassId) : Prop := t.Extends c d ∨ t.Lists c d

/-- Links lead to `c` from the receiver's class, the class literal's, or `java.lang.Class`. -/
def RelatedTo (t : ClassTable) (q : Query) (c : ClassId) : Prop :=
  ∃ start, (Names q start ∨ start = .cls) ∧ Relation.ReflTransGen t.LinkedTo start c

/-- The classes that the query mentions are in the table. -/
structure Has (t : ClassTable) (q : Query) : Prop where
  receiver : ∀ c ∈ q.receiver.classes, c.index < t.size
  literal : ∀ ty, q.literal = some ty → ∀ c ∈ ty.classes, c.index < t.size
  component : ∀ ty, q.component = some ty → ∀ c ∈ ty.classes, c.index < t.size
  enclosing : q.enclosing.index < t.size

/-- The call declares a class, or adds a member to one of these classes. -/
inductive Call.AddsTo (these : ClassId → Prop) : Call → Prop
  | declare (name : String) (kind : ClassKind) : AddsTo these (.declare name kind)
  | field {c : ClassId} (field : Field) : these c → AddsTo these (.addField c field)
  | method {c : ClassId} (method : Method) : these c → AddsTo these (.addMethod c method)
  | property {c : ClassId} (property : Property) : these c → AddsTo these (.addProperty c property)
  | bridge {c : ClassId} (field : String) (accessor : Method) : these c →
      AddsTo these (.addBridge c field accessor)

variable {t t' : ClassTable} {kept : ClassId → Prop} {q : Query} {call : Call} {calls : List Call}
  {c d : ClassId} {ty : Ty} {args : List Ty}

/-! ## What such calls keep -/

private theorem keeps_of_attempt {answer : Option ClassId} (h : call.AddsTo fun c => ¬ kept c)
    (ha : call.attempt t = .ok (t', answer)) : Keeps t t' kept := by
  cases h with
  | declare name kind =>
    cases hd : t.declare name kind with
    | error fault => rw [Call.attempt, hd] at ha; cases ha
    | ok declared => rw [Call.attempt, hd] at ha; cases ha; exact .declare hd
  | field _ hc => cases ha; exact .update hc fun _ => rfl
  | method _ hc => cases ha; exact .update hc fun _ => rfl
  | property _ hc => cases ha; exact .update hc fun _ => rfl
  | bridge _ _ hc => cases ha; exact .update hc fun _ => rfl

theorem Call.AddsTo.keeps (h : call.AddsTo fun c => ¬ kept c) : Keeps t (call.run t).1 kept := by
  unfold Call.run
  split
  · exact keeps_of_attempt h ‹_›
  · exact .refl t kept

theorem keeps_runAll (h : ∀ call ∈ calls, call.AddsTo fun c => ¬ kept c) :
    Keeps t (t.runAll calls) kept := by
  induction calls generalizing t with
  | nil => exact .refl t kept
  | cons call calls ih =>
    have hfirst : Keeps t (call.run t).1 kept := (h call List.mem_cons_self).keeps
    exact hfirst.trans (ih fun later hl => h later (List.mem_cons_of_mem call hl))

/-! ## Related classes -/

theorem LeadsTo.linkedTo (h : t.LeadsTo c d) : Relation.ReflTransGen t.LinkedTo c d := by
  obtain ⟨s, hup, hlists⟩ := h
  have hs : Relation.ReflTransGen t.LinkedTo c s :=
    Relation.ReflTransGen.mono (fun _ _ => .inl) _ _ hup
  exact hs.trans (Relation.ReflTransGen.mono (fun _ _ => .inr) _ _ hlists)

theorem RelatedTo.of_leadsTo (h : t.RelatedTo q c) (hd : t.LeadsTo c d) : t.RelatedTo q d := by
  obtain ⟨start, hstart, hc⟩ := h
  exact ⟨start, hstart, hc.trans hd.linkedTo⟩

theorem RelatedTo.of_superclasses (h : t.RelatedTo q c) (hd : d ∈ t.superclasses c) :
    t.RelatedTo q d := h.of_leadsTo ⟨d, reflTransGen_of_mem_chain hd, .refl⟩

theorem RelatedTo.of_allInterfaces (h : t.RelatedTo q c) (hd : d ∈ t.allInterfaces c) :
    t.RelatedTo q d := by
  have himplements : t.implements c d = true := List.contains_iff_mem.mpr hd
  exact h.of_leadsTo (leadsTo_of_derives_or_implements (Bool.or_eq_true_iff.mpr (.inr himplements)))

theorem index_lt_of_linkedTo (h : t.Consistent) (hd : t.LinkedTo c d) : d.index < t.size :=
  hd.elim (fun hs => h.linked.superclasses.lt c d hs) fun hl => h.interfaces c d hl

/-- A class that something mentioned is linked to is in the table. -/
theorem RelatedTo.index_lt (h : t.RelatedTo q c) (ht : t.Constructed) (hq : t.Has q) :
    c.index < t.size := by
  obtain ⟨start, hstart, hc⟩ := h
  cases hc with
  | refl =>
    obtain (hreceiver | hliteral) | rfl := hstart
    · exact hq.receiver c (Ty.mem_classes_of_class? hreceiver)
    · obtain ⟨ty, hty, hclass⟩ := Option.bind_eq_some_iff.mp hliteral
      exact hq.literal ty hty c (Ty.mem_classes_of_class? hclass)
    · exact Nat.lt_of_lt_of_le (by decide) ht.consistent.size
  | tail _ hlink => exact index_lt_of_linkedTo ht.consistent hlink

/-- A table that keeps the related classes looks as before to the query. -/
theorem Keeps.alike (h : Keeps t t' (t.RelatedTo q)) (ht : t.Constructed) (hi : t.InterfacesOnly)
    (hq : t.Has q) : Alike t t' (·.index < t.size) (t.RelatedTo q) := by
  have hlinked := ht.consistent.linked
  have hsuper : ∀ c : ClassId, c.index < t.size → t'.superclasses c = t.superclasses c := fun c =>
    hlinked.superclasses.chain_eq h.size fun k hk =>
      h.eq_of_header ClassInfo.superclass (fun _ => rfl) hk
  have habove : ∀ c : ClassId, c.index < t.size → ∀ k ∈ t.superclasses c, k.index < t.size :=
    fun c hc k hk => index_lt_of_mem_chain hlinked.superclasses.lt hc hk
  have hlisted : ∀ c : ClassId, c.index < t.size → ∀ i, t.Lists c i → i.index < t.size :=
    fun c _ i hl => ht.consistent.interfaces c i hl
  exact {
    name := fun c hc => h.eq_of_header ClassInfo.name (fun _ => rfl) hc
    superclasses := hsuper
    outers := fun c hc => hlinked.outers.chain_eq h.size
      (fun k hk => h.eq_of_header ClassInfo.outer (fun _ => rfl) hk) hc
    allInterfaces := fun c hc =>
      allInterfaces_eq _ hi h.size h.header hlisted (habove c hc) (hsuper c hc)
    linkCost? := fun c hc target => linkCost?_eq _ h.header hlisted hc target
    bridgePairs := h.bridgePairs
    info := fun c hc => h.info c (hc.index_lt ht hq) hc
    known_superclasses := habove
    known_wrapper := fun p => Nat.lt_of_lt_of_le (by cases p <;> decide) ht.consistent.size
    known_of_seen := fun c hc => hc.index_lt ht hq
    seen_superclasses := fun c hc k hk => hc.of_superclasses hk
    seen_interfaces := fun c hc i hmem => hc.of_allInterfaces hmem }

theorem Has.covers (hq : t.Has q) (ht : t.Constructed) :
    Covers (·.index < t.size) (t.RelatedTo q) q := by
  have hcls : t.RelatedTo q .cls := ⟨.cls, .inr rfl, .refl⟩
  exact {
    receiver := hq.receiver
    enclosing := hq.enclosing
    receiver_seen := fun c hc => ⟨c, .inl (.inl hc), .refl⟩
    literal_seen := fun c hc => ⟨c, .inl (.inr hc), .refl⟩
    cls_seen := hcls
    object_seen := hcls.of_superclasses (object_mem_superclasses ht (hcls.index_lt ht hq)) }

/-! ## Targets -/

theorem Constructed.owner_lt (ht : t.Constructed) {m : Method} (h : t.Offers m) :
    m.owner.index < t.size := by
  have howned := ht.built.owned
  cases h with
  | @declared c m hm =>
    rw [(howned.classes c).methods m hm]
    exact index_lt_of_mem ClassInfo.methods rfl hm
  | property hp => exact index_lt_of_mem ClassInfo.properties rfl hp
  | @bridge c b hb =>
    rw [((howned.classes c).bridges b hb).1]
    exact index_lt_of_mem ClassInfo.bridges rfl hb
  | extension hm =>
    rw [(howned.extensions m hm).1]
    exact Nat.lt_of_lt_of_le (by decide) ht.consistent.size

theorem Constructed.owner_lt_of_fieldOn (ht : t.Constructed) {f : Field} {samePackage : Bool}
    (h : Rule.fieldOn t q c samePackage = some f) : f.owner.index < t.size := by
  obtain ⟨hfound, -⟩ := Option.filter_eq_some_iff.mp h
  obtain ⟨k, -, hk⟩ := List.exists_of_findSome?_eq_some hfound
  have hmem := List.mem_of_find?_eq_some hk
  rw [(ht.built.owned.classes k).fields f hmem]
  exact index_lt_of_mem ClassInfo.fields rfl hmem

private theorem index_lt_of_concreteArg? (hargs : ∀ c ∈ Ty.classesAll args, c.index < t.size)
    (harg : concreteArg? args = some ty) : ∀ c ∈ ty.classes, c.index < t.size := by
  cases args with
  | nil => cases harg
  | cons arg args =>
    obtain ⟨-, harg⟩ := Option.ite_none_left_eq_some.mp harg
    cases harg
    exact fun c hc => hargs c (List.mem_append_left _ hc)

theorem Has.elementType (hq : t.Has q) (hsize : 0 < t.size) :
    ∀ c ∈ q.elementType.classes, c.index < t.size := by
  have hobject : ∀ c ∈ (Ty.ofClass .object).classes, c.index < t.size := by
    intro c hc
    rwa [List.mem_singleton.mp hc]
  unfold Query.elementType
  cases hcomponent : q.component with
  | some ty => exact hq.component ty hcomponent
  | none =>
    cases hreceiver : q.receiver with
    | object c args =>
      have hargs : ∀ d ∈ Ty.classesAll args, d.index < t.size := fun d hd =>
        hq.receiver d (by rw [hreceiver]; exact List.mem_cons_of_mem c hd)
      show ∀ d ∈ ((concreteArg? args).getD _).classes, _
      cases harg : concreteArg? args with
      | some ty => exact index_lt_of_concreteArg? hargs harg
      | none => exact hobject
    | _ => exact hobject

theorem class?_of_enumConstant (h : (q.select t).2 = .enumConstant c) :
    q.receiver.class? = some c := by
  have htitle : (q.select t).2.title = "EnumConstant" := congrArg Binding.title h
  have hname : (q.select t).1 = "enum-constant" := name_of_title (by decide) htitle
  have hrule : Rule.enumConstant ∈ Rule.forProperties := by simp [Rule.forProperties]
  have happly := apply_of_name hrule hname
  rw [h] at happly
  obtain ⟨k, hk, hchosen⟩ := Option.bind_eq_some_iff.mp happly
  obtain ⟨-, hchosen⟩ := Option.ite_none_right_eq_some.mp hchosen
  cases hchosen
  exact hk

/-- What an access is bound to is called as before. -/
theorem target?_select (h : Alike t t' (·.index < t.size) (t.RelatedTo q)) (ht : t.Constructed)
    (hq : t.Has q) : (q.select t).2.target? t' = (q.select t).2.target? t := by
  have hchosen := select_chosen t q
  have hmethod : ∀ {m : Method}, (q.select t).2.method? = some m →
      t'.name m.owner = t.name m.owner := fun hm => h.name _ (ht.owner_lt (hchosen.offers hm))
  cases hb : (q.select t).2 with
  | getter m | bridge m _ | interfaceGetter m | extension m =>
    have hname := hmethod (m := m) (by rw [hb]; rfl)
    simp only [Binding.target?, hname]
  | field f =>
    rw [hb] at hchosen
    obtain ⟨c, samePackage, -, hf⟩ := hchosen
    simp only [Binding.target?, h.name _ (ht.owner_lt_of_fieldOn hf)]
  | enumConstant c =>
    have hc := hq.receiver c (Ty.mem_classes_of_class? (class?_of_enumConstant hb))
    simp only [Binding.target?, h.name _ hc]
  | eachElement component =>
    have hmentioned := hq.elementType ht.built.size_pos
    simp only [Binding.target?, (select_eachElement hb).2, h.describe hmentioned]
  | arrayLength | collectionSize | mapEntry | dynamic _ | unresolved => rfl

/-! ## The result -/

/-- Declaring classes and adding members to classes that are not related to a property access does
not change what the access is bound to, nor by which rule. The class that the access is in, and those
around it, may be among these classes. -/
theorem select_unrelated (ht : t.Constructed) (hi : t.InterfacesOnly) (site : Site)
    (enclosing : ClassId) (hq : t.Has (Query.ofSite site enclosing)) (calls : List Call)
    (hcalls : ∀ call ∈ calls,
      call.AddsTo fun c => ¬ t.RelatedTo (Query.ofSite site enclosing) c) :
    (Query.ofSite site enclosing).select (t.runAll calls) =
        (Query.ofSite site enclosing).select t ∧
      ((Query.ofSite site enclosing).select (t.runAll calls)).2.target? (t.runAll calls) =
        ((Query.ofSite site enclosing).select t).2.target? t := by
  have hkeeps : Keeps t (t.runAll calls) (t.RelatedTo (Query.ofSite site enclosing)) :=
    keeps_runAll hcalls
  have halike := hkeeps.alike ht hi hq
  have hselect := halike.select (hq.covers ht)
    (halike.extensionGetter hq.receiver hkeeps.extensions)
  rw [hselect]
  exact ⟨rfl, target?_select halike ht hq⟩

/-- Classes that the links do not leave hold all that is related. -/
theorem RelatedTo.mem_of_closed {these : List ClassId} (h : t.RelatedTo q c)
    (hstart : ∀ start, Names q start ∨ start = .cls → start ∈ these)
    (hup : ∀ k ∈ these, ∀ d ∈ t.superclass? k, d ∈ these)
    (hacross : ∀ k ∈ these, ∀ i ∈ (t.info k).interfaces, i ∈ these) : c ∈ these := by
  obtain ⟨start, hs, hc⟩ := h
  induction hc with
  | refl => exact hstart start hs
  | tail _ hlink ih => exact hlink.elim (fun hd => hup _ ih _ hd) fun hi => hacross _ ih _ hi

/-- A desk, and an order with a total. -/
def orderHistory : List Call :=
  [.declare "p.Desk" .cls, .declare "p.Order" .cls,
    .addField ⟨25⟩ { name := "total", owner := ⟨25⟩, type := .int }]

/-- The access to the total of an order in a slot. -/
def orderTotal : Site :=
  { member := "total", span := .none, receiver := .localVar 1 { type := .ofClass ⟨25⟩ } }

/-- The desk, whose code has the access, gets a total of its own and a drawer below it. -/
def deskCalls : List Call :=
  [.addField ⟨24⟩ { name := "total", owner := ⟨24⟩, type := .int },
    .addMethod ⟨24⟩ { name := "getTotal", owner := ⟨24⟩, params := [], returns := .long },
    .declare "p.Desk$Drawer" .cls, .addProperty ⟨26⟩ { name := "total", type := .int }]

theorem select_unrelated_desk :
    let t := standard.runAll orderHistory
    let q := Query.ofSite orderTotal ⟨24⟩
    t.Constructed ∧ t.InterfacesOnly ∧ t.Has q ∧
      (∀ call ∈ deskCalls, call.AddsTo fun c => ¬ t.RelatedTo q c) ∧
      q.select (t.runAll deskCalls) =
        ("field", .field { name := "total", owner := ⟨25⟩, type := .int }) := by
  intro t q
  have ht : t.Constructed := ⟨orderHistory, by decide, rfl⟩
  have hi : t.InterfacesOnly := by decide
  have hq : t.Has q := ⟨by decide, nofun, nofun, by decide⟩
  have hnot : ∀ c : ClassId, c ∉ [⟨25⟩, .object, .cls] → ¬ t.RelatedTo q c := by
    intro c hc hrelated
    refine hc (hrelated.mem_of_closed ?_ (by decide) (by decide))
    rintro start ((hreceiver | hliteral) | rfl)
    · cases hreceiver
      decide
    · cases hliteral
    · decide
  have hcalls : ∀ call ∈ deskCalls, call.AddsTo fun c => ¬ t.RelatedTo q c := by
    intro call hcall
    simp only [deskCalls, List.mem_cons, List.not_mem_nil, or_false] at hcall
    rcases hcall with rfl | rfl | rfl | rfl
    · exact .field _ (hnot _ (by decide))
    · exact .method _ (hnot _ (by decide))
    · exact .declare ..
    · exact .property _ (hnot _ (by decide))
  refine ⟨ht, hi, hq, hcalls, ?_⟩
  exact (select_unrelated ht hi orderTotal ⟨24⟩ hq deskCalls hcalls).1.trans (by decide)

end ClassTable

end CallSite
