import CallSite.Proofs.ClassTable.Construction
import CallSite.Proofs.Emission.Member
import CallSite.Proofs.Emission.Labels
import CallSite.Proofs.Machine.Getter
import CallSite.Proofs.Selection.Order

/-!
# Properties read by their getters

A property that a class declares is read by a getter, which need not have been made. The getter is
named after the property, and the machine finds the field from the name. It is the property's own
field, unless the name of the getter tells something else.
-/

namespace CallSite

namespace ClassTable

variable {t : ClassTable} {q : Query} {c : ClassId} {p : Property}

/-- A property that the receiver's class declares is read by its getter. -/
theorem select_propertyGetter
    (hbefore : ∀ rule ∈ [Rule.arrayLength, .collectionSize], rule.apply t q = none)
    (hc : q.receiver.class? = some c) (hunmade : Rule.declaredGetter? t q c = none)
    (hp : t.property? c q.member = some p) :
    (q.select t).2 = .getter (Rule.propertyGetter c p) := by
  have horder : Rule.forProperties =
      [.arrayLength, .collectionSize] ++ .getter :: Rule.forProperties.drop 3 := rfl
  have hin : c.index < t.size :=
    index_lt_of_mem ClassInfo.properties rfl (List.mem_of_find?_eq_some hp)
  obtain ⟨n, hn⟩ := Nat.exists_eq_succ_of_ne_zero (Nat.ne_of_gt (Nat.zero_lt_of_lt hin))
  -- The search begins with the class itself, which has the property.
  have halong : Rule.getterOn t q c = some (Rule.propertyGetter c p) := by
    unfold Rule.getterOn superclasses
    rw [hn, chain, Rule.getterAlong]
    simp only [hunmade, hp, Option.any_none, Bool.false_and, Bool.false_eq_true, if_false]
  refine select_of_first horder hbefore ?_
  simp only [Rule.getter, hc, Option.bind_some, halong, Option.map_some]

end ClassTable

namespace Emit

variable {s : Setting} {site : Site} {c : ClassId} {p : Property}

/-- The site reads a property of objects, which the receiver's class declares and has no getter for
yet. None of the rules before the one for getters applies. -/
structure ReadsProperty (s : Setting) (site : Site) (c : ClassId) (p : Property) : Prop where
  receiver : (Query.ofSite site s.enclosing).receiver.class? = some c
  declared : s.table.property? c site.member = some p
  unmade : Rule.declaredGetter? s.table (Query.ofSite site s.enclosing) c = none
  ofObjects : p.isStatic = false
  valued : p.type ≠ .void
  before : ∀ rule ∈ [Rule.arrayLength, .collectionSize],
    rule.apply s.table (Query.ofSite site s.enclosing) = none
  notSafe : site.safe = false

/-- The member that code calls to read a property. -/
def getterRef (s : Setting) (c : ClassId) (p : Property) : MemberRef where
  owner := if c = .extensions then s.options.extensionOwner else s.table.internalName c
  name := (Rule.propertyGetter c p).name
  descriptor := s.table.methodDescriptor [] p.type

/-- A property of objects is read by a call on the object. -/
private theorem invocation_propertyGetter (hp : p.isStatic = false) :
    ∃ dispatch, (dispatch = .dynamic ∨ dispatch = .interface) ∧
      invocation s (Rule.propertyGetter c p) = .invoke dispatch (getterRef s c p) := by
  have hextension : isExtension (Rule.propertyGetter c p) = decide (c = .extensions) := by
    rw [← Bool.beq_eq_decide_eq]
    rfl
  unfold invocation getterRef
  rw [hextension, show (Rule.propertyGetter c p).isStatic = false from hp]
  simp only [decide_eq_true_eq, Bool.false_eq_true, if_false]
  refine ⟨_, ?_, rfl⟩
  split
  · exact Or.inr rfl
  · exact Or.inl rfl

namespace ReadsProperty

/-- The access is written as the receiver, a cast if that is needed, and the call of the getter. -/
theorem written (h : ReadsProperty s site c p) {d first : Draft} {self : Ty}
    (hreceiver : Returns (expr s site.receiver) d self first)
    (hstack : first.stack = self :: d.stack) (hself : self.isReference = true) :
    Returns (propertySite s site) d p.type { first with
      code := first.code ++
        (castCode s self (.ofClass c) ++ [invocation s (Rule.propertyGetter c p)])
      stack := p.type :: d.stack } := by
  have hbinding : s.binding site = .getter (Rule.propertyGetter c p) :=
    ClassTable.select_propertyGetter h.before h.receiver h.unmade h.declared
  have htakes : (Rule.propertyGetter c p).takesReceiver = true := by
    unfold Method.takesReceiver
    rw [show (Rule.propertyGetter c p).isStatic = false from h.ofObjects, Bool.not_false,
      Bool.or_true]
  have hcoerce : Returns (coerce s (.ofClass c)) first () { first with
      code := first.code ++ castCode s self (.ofClass c)
      stack := castType s self (.ofClass c) :: d.stack } :=
    (returns_coerce_reference hstack hself rfl).mpr ((returns_castTo hstack).mpr rfl)
  have hdrop : (castType s self (.ofClass c) :: d.stack).length - d.stack.length = 1 := by
    rw [List.length_cons]
    omega
  show Returns (access s site (expr s site.receiver) _) _ _ _
  rw [returns_access_of_ne (by rw [hbinding]; nofun), hbinding]
  refine ⟨?_, rfl⟩
  show Returns (call s (expr s site.receiver) (Rule.propertyGetter c p) [] site.safe) _ _ _
  rw [h.notSafe, returns_call_plain htakes]
  refine ⟨self, first, _, _, hreceiver, hcoerce, returns_pure.mpr ⟨rfl, rfl⟩, ?_, rfl⟩
  simp only [Draft.called, hdrop, List.drop_succ_cons, List.drop_zero, List.append_assoc]
  rw [show (Rule.propertyGetter c p).returns = p.type from rfl, if_neg h.valued]
  rfl

/-- Behind code that leaves an instance of the class, the access ends as the call of the getter
does. -/
theorem ends (h : ReadsProperty s site c p) {d first : Draft} {self : Ty}
    (hreceiver : Returns (expr s site.receiver) d self first)
    (hstack : first.stack = self :: d.stack) (hself : self.isReference = true) :
    ∃ own code last, first.code = d.code ++ own ∧
      Returns (propertySite s site) d p.type last ∧ last.code = d.code ++ code ∧
      ∀ {m : Machine} {locals : List Value} {cls : String} {fields : List (String × Value)}
        {r : Except MachineError Value}, m.table = s.table →
        m.functions.lookup ((getterRef s c p).owner, (getterRef s c p).name) = none →
        Heap.classFits s.table cls (s.table.internalName c) = true →
        m.LeavesInstance own locals cls fields →
        (∀ (heap : Heap) (place : Nat), heap[place]? = some (.instance cls fields) →
          Machine.callOn heap (getterRef s c p) (.ref place) [] =
            r.map fun result => (heap, result)) →
        m.Ends code locals fun _ result => result = r := by
  obtain ⟨-, own, hown, -⟩ := labelled_expr s site.receiver _ _ _ hreceiver
  obtain ⟨dispatch, hdispatch, hinvocation⟩ :=
    invocation_propertyGetter (s := s) (c := c) h.ofObjects
  have hcasts : CastsTo (s.table.internalName c) (castCode s self (.ofClass c)) := by
    unfold castCode
    split
    · exact List.forall_mem_nil _
    · exact List.forall_mem_singleton.mpr rfl
  refine ⟨own, own ++ (castCode s self (.ofClass c) ++ [.invoke dispatch (getterRef s c p)]), _,
    hown, h.written hreceiver hstack hself, ?_, fun hm hfunction hfits hinstance hcall => ?_⟩
  · simp only [hown, hinvocation, List.append_assoc]
  · exact hinstance.ends_getter hcasts (by rw [hm]; exact hfits) hfunction hdispatch
      (Descriptor.argCount_methodDescriptor_nil _)
      (Descriptor.returnsVoid_methodDescriptor _ h.valued) hcall

end ReadsProperty

/-- The getter of a property that begins with a small letter, taken apart again. -/
private theorem propertyOf?_getterRef (hname : Text.BeginsSmall p.name) :
    Text.propertyOf? (getterRef s c p).name =
      some (if Text.SecondCapital p.name then Text.capitalize p.name else p.name) :=
  Text.propertyOf?_capitalize hname (p.type = .boolean)

/-- The getter of a property whose second letter is a capital is not one that instances have. -/
private theorem getterRef_name_ne (hname : Text.BeginsSmall p.name)
    (hsecond : Text.SecondCapital p.name) {name decoded : String}
    (hdecoded : Text.propertyOf? name = some decoded)
    (hne : ∀ lead ∈ ["is", "get"], lead ++ decoded ≠ name) : (getterRef s c p).name ≠ name := by
  -- Both names would be taken apart to `decoded`, but put together again it does not give `name`.
  intro heq
  have hproperty := propertyOf?_getterRef (s := s) (c := c) hname
  rw [heq, hdecoded, if_pos hsecond] at hproperty
  have hgetter : (getterRef s c p).name =
      (if p.type = .boolean then "is" else "get") ++ Text.capitalize p.name := rfl
  rw [← Option.some.inj hproperty, heq] at hgetter
  refine hne _ ?_ hgetter.symm
  split <;> simp

/-- A property is read from an instance by the getter that is named after it. That gives the field
of the property's name, unless the second letter of the name is a capital: then the machine looks
for fields of other names. Two getters have the names of methods that every instance has. -/
theorem property_reads_field (h : ReadsProperty s site c p) (hname : Text.BeginsSmall p.name)
    {d first : Draft} {self : Ty} (hreceiver : Returns (expr s site.receiver) d self first)
    (hstack : first.stack = self :: d.stack) (hself : self.isReference = true) :
    let getter := getterRef s c p
    ∃ own code last, first.code = d.code ++ own ∧
      Returns (propertySite s site) d p.type last ∧ last.code = d.code ++ code ∧
      ∀ (m : Machine) (locals : List Value) (cls : String) (fields : List (String × Value)),
        m.table = s.table → m.functions.lookup (getter.owner, getter.name) = none →
        Heap.classFits s.table cls (s.table.internalName c) = true →
        m.LeavesInstance own locals cls fields →
        (¬ Text.SecondCapital p.name → getter.name ≠ "getClass" → getter.name ≠ "getProperty" →
          ∀ value, fields.lookup p.name = some value →
            m.Ends code locals fun _ result => result = .ok value) ∧
        (Text.SecondCapital p.name → m.Ends code locals fun _ result =>
          result = Machine.orNoSuchMethod getter
            (fields.lookup (Text.capitalize p.name) <|> fields.lookup getter.name)) ∧
        (getter.name = "getClass" → m.Ends code locals fun _ result => result = .ok (.cls cls)) ∧
        (getter.name = "getProperty" → m.Ends code locals fun _ result =>
          result = .error (.operand .propertyNameNotString)) := by
  intro getter
  obtain ⟨own, code, last, hown, hwritten, hcode, hends⟩ := h.ends hreceiver hstack hself
  refine ⟨own, code, last, hown, hwritten, hcode, fun m locals cls fields hm hf hfits hi => ?_⟩
  have htext : getter.name ≠ "toString" := List.ne_of_not_mem_cons
    (show getter.name ∉ ["toString"] from
      (ClassTable.propertyGetter_isGetter c p).name_notMem (by decide))
  have hproperty : Text.propertyOf? getter.name = _ := propertyOf?_getterRef hname
  refine ⟨fun hsecond hclass hlookup value hvalue => hends hm hf hfits hi fun heap place ho => ?_,
    fun hsecond => hends hm hf hfits hi fun heap place ho => ?_,
    fun hclass => hends hm hf hfits hi fun heap place ho => Machine.callOn_getClass ho hclass,
    fun hlookup => hends hm hf hfits hi fun heap place ho => Machine.callOn_getProperty ho hlookup⟩
  · rw [Machine.callOn_shown ho hclass hlookup htext]
    unfold Machine.shown
    rw [hproperty, if_neg hsecond, Option.getD_some, hvalue]
    rfl
  · have hclass : getter.name ≠ "getClass" :=
      getterRef_name_ne hname hsecond (show Text.propertyOf? _ = some "class" by decide) (by decide)
    have hlookup : getter.name ≠ "getProperty" :=
      getterRef_name_ne hname hsecond (show Text.propertyOf? _ = some "property" by decide)
        (by decide)
    rw [Machine.callOn_shown ho hclass hlookup htext]
    unfold Machine.shown
    rw [hproperty, if_pos hsecond, Option.getD_some]

/-- A class `p.Point` that declares two properties. -/
def pointHistory : List ClassTable.Call :=
  [.declare "p.Point" .cls, .addProperty ⟨24⟩ { name := "x", type := .int },
    .addProperty ⟨24⟩ { name := "xCoord", type := .int }]

/-- Code of `p.Point`. -/
def pointSetting : Setting where
  table := ClassTable.standard.runAll pointHistory
  enclosing := ⟨24⟩
  options := .standard

/-- A property of a `p.Point` that is held in a slot. -/
def pointSite (member : String) : Site where
  member
  span := .none
  receiver := .localVar 1 { type := .ofClass ⟨24⟩ }

/-- The draft with the `p.Point` loaded. -/
def pointLoaded : Draft :=
  { Draft.empty 2 with code := [.load .reference 1], stack := [.ofClass ⟨24⟩] }

/-- A machine with one `p.Point`. -/
def pointMachine : Machine :=
  { Machine.new pointSetting.table pointSetting.options with
    heap := #[.instance "p/Point" [("x", .int 3), ("xCoord", .int 4)]] }

theorem property_reads_field_point :
    ReadsProperty pointSetting (pointSite "x") ⟨24⟩ { name := "x", type := .int } ∧
      Text.BeginsSmall "x" ∧ pointMachine.LeavesInstance [.load .reference 1] [.null, .ref 0]
        "p/Point" [("x", .int 3), ("xCoord", .int 4)] ∧
      ∃ code last, Returns (propertySite pointSetting (pointSite "x")) (.empty 2) .int last ∧
        last.code = code ∧ pointMachine.Ends code [.null, .ref 0] fun _ result =>
          result = .ok (.int 3) := by
  have h : ReadsProperty pointSetting (pointSite "x") ⟨24⟩ { name := "x", type := .int } := by
    refine ⟨?_, ?_, ?_, ?_, ?_, ?_, ?_⟩ <;> decide
  have hname : Text.BeginsSmall "x" := by decide
  have hleaves : pointMachine.LeavesInstance [.load .reference 1] [.null, .ref 0]
      "p/Point" [("x", .int 3), ("xCoord", .int 4)] :=
    ⟨_, _, [], 0, rfl, .step .refl rfl rfl⟩
  have hreceiver : Returns (expr pointSetting (pointSite "x").receiver) (.empty 2)
      (.ofClass ⟨24⟩) pointLoaded := rfl
  obtain ⟨own, code, last, hown, hwritten, hcode, hends⟩ :=
    property_reads_field h hname hreceiver rfl rfl
  obtain rfl : [.load .reference 1] = own := hown
  refine ⟨h, hname, hleaves, code, last, hwritten, hcode, ?_⟩
  exact (hends pointMachine [.null, .ref 0] "p/Point" _ rfl (by decide) (by decide) hleaves).1
    (by decide) (by decide) (by decide) _ rfl

/-- The getter of `xCoord` is taken to mean a field `XCoord`. -/
theorem property_misses_xCoord :
    let site := pointSite "xCoord"
    let code : List Instruction :=
      [.load .reference 1, .invoke .dynamic ⟨"p/Point", "getXCoord", "()I"⟩]
    ReadsProperty pointSetting site ⟨24⟩ { name := "xCoord", type := .int } ∧
      Text.BeginsSmall "xCoord" ∧ (propertySite pointSetting site (.empty 2)).1 = .ok .int ∧
      (propertySite pointSetting site (.empty 2)).2.code = code ∧
      pointMachine.heap[0]?.bind (HeapObject.field? "xCoord") = some (.int 4) ∧
      (pointMachine.run code [.null, .ref 0]).2 = .error (.noSuchMethod "p/Point.getXCoord()I") ∧
      (pointMachine.run code [.null, .ref 0]).2 ≠ .ok (.int 4) := by
  intro site code
  have h : ReadsProperty pointSetting site ⟨24⟩ { name := "xCoord", type := .int } := by
    refine ⟨?_, ?_, ?_, ?_, ?_, ?_, ?_⟩ <;> decide
  have hreceiver : Returns (expr pointSetting site.receiver) (.empty 2) (.ofClass ⟨24⟩)
      pointLoaded := rfl
  have hwritten := h.written hreceiver rfl rfl
  have hmember : getterRef pointSetting ⟨24⟩ { name := "xCoord", type := .int } =
      ⟨"p/Point", "getXCoord", "()I"⟩ := by decide
  have hcode : (propertySite pointSetting site (.empty 2)).2.code = code := by
    rw [congrArg (fun r => r.2.code) hwritten]
    exact congrArg (fun member => [Instruction.load .reference 1, .invoke .dynamic member]) hmember
  have hrun : (pointMachine.run code [.null, .ref 0]).2 =
      .error (.noSuchMethod "p/Point.getXCoord()I") := rfl
  exact ⟨h, by decide, congrArg Prod.fst hwritten, hcode, rfl, hrun, hrun ▸ nofun⟩

end Emit

end CallSite
