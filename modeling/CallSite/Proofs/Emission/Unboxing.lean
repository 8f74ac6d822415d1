import CallSite.Proofs.Emission.Casting
import CallSite.Proofs.Emission.Fragment

/-!
# Boxed and taken out again

A primitive that is used as an object is put into a wrapper, and where it is used as a primitive
again it is taken out. The static types have eight wrappers. The machine has four: it keeps a byte,
a short or a character as an `Integer` and a float as a `Double`, so that the casts that emitted
code asks for do not all succeed.
-/

namespace CallSite

/-- The primitive type in whose wrapper the machine keeps a value. -/
def Primitive.boxKind : Primitive → Primitive
  | .byte | .short | .char => .int
  | .float => .double
  | p => p

/-- The value is one of the type, as it is held on the operand stack. Of the integers below `int`
only the truth values are told apart. -/
def Primitive.Holds (p : Primitive) (value : Value) : Prop :=
  p.Admits value ∧ (p = .boolean → value = .int 0 ∨ value = .int 1)

namespace ClassTable

variable {t : ClassTable} {c d k : ClassId} {p : Primitive}

/-! ## Links between the wrappers -/

/-- The root class, `Number` and the wrappers. -/
def wrapperFamily : List ClassId := .object :: .number :: Primitive.all.map Primitive.wrapper

/-- The wrappers and what they extend are linked as in the standard table. -/
def WrapperLinks (t : ClassTable) : Prop :=
  ∀ c ∈ wrapperFamily, t.superclass? c = standard.superclass? c ∧ (t.info c).interfaces = []

instance (t : ClassTable) : Decidable t.WrapperLinks :=
  inferInstanceAs (Decidable (∀ c ∈ wrapperFamily, _))

private theorem wrapper_mem_family (p : Primitive) : p.wrapper ∈ wrapperFamily := by
  cases p <;> decide

/-- A class that lists no interfaces leads to itself and to what its superclass leads to. -/
private theorem leadsTo_iff_of_interfaces (h : (t.info c).interfaces = []) :
    t.LeadsTo c d ↔ d = c ∨ ∃ e, t.superclass? c = some e ∧ t.LeadsTo e d := by
  constructor
  · rintro ⟨s, hs, hlists⟩
    rcases hs.cases_head with rfl | ⟨e, he, hrest⟩
    · rcases hlists.cases_head with rfl | ⟨i, hi, -⟩
      · exact .inl rfl
      · unfold Lists at hi
        rw [h] at hi
        cases hi
    · exact .inr ⟨e, he, s, hrest, hlists⟩
  · rintro (rfl | ⟨e, he, s, hs, hlists⟩)
    · exact ⟨d, .refl, .refl⟩
    · exact ⟨s, .head he hs, hlists⟩

namespace WrapperLinks

theorem leadsTo_object_iff (h : t.WrapperLinks) : t.LeadsTo .object d ↔ d = .object := by
  obtain ⟨hsuperclass, hinterfaces⟩ := h .object (by decide)
  rw [leadsTo_iff_of_interfaces hinterfaces, hsuperclass]
  refine or_iff_left ?_
  rintro ⟨e, he, -⟩
  cases he

theorem leadsTo_number_iff (h : t.WrapperLinks) :
    t.LeadsTo .number d ↔ d = .number ∨ d = .object := by
  obtain ⟨hsuperclass, hinterfaces⟩ := h .number (by decide)
  rw [leadsTo_iff_of_interfaces hinterfaces, hsuperclass]
  refine or_congr_right ⟨?_, fun hd => ⟨.object, rfl, h.leadsTo_object_iff.mpr hd⟩⟩
  rintro ⟨_, ⟨⟩, hd⟩
  exact h.leadsTo_object_iff.mp hd

/-- Above a wrapper is the holder that values of no exactly known wrapper are taken out of, unless
this is the wrapper itself. -/
private theorem superclass_wrapper (h : t.WrapperLinks) (p : Primitive) :
    t.superclass? p.wrapper =
      some (if p.unboxing.1 = p.wrapper then .object else p.unboxing.1) := by
  rw [(h p.wrapper (wrapper_mem_family p)).1]
  cases p <;> decide

theorem leadsTo_wrapper_iff (h : t.WrapperLinks) (p : Primitive) :
    t.LeadsTo p.wrapper d ↔ d = p.wrapper ∨ d = p.unboxing.1 ∨ d = .object := by
  rw [leadsTo_iff_of_interfaces (h p.wrapper (wrapper_mem_family p)).2, h.superclass_wrapper p]
  by_cases hholder : p.unboxing.1 = p.wrapper
  · rw [if_pos hholder, hholder, or_self_left]
    refine or_congr_right ⟨?_, fun hd => ⟨.object, rfl, h.leadsTo_object_iff.mpr hd⟩⟩
    rintro ⟨_, ⟨⟩, hd⟩
    exact h.leadsTo_object_iff.mp hd
  · have hnumber : p.unboxing.1 = .number := by
      cases p <;> first | rfl | exact absurd rfl hholder
    rw [if_neg hholder, hnumber]
    refine or_congr_right ⟨?_, fun hd => ⟨.number, rfl, h.leadsTo_number_iff.mpr hd⟩⟩
    rintro ⟨_, ⟨⟩, hd⟩
    exact h.leadsTo_number_iff.mp hd

/-- The reference types that a primitive is assignable to: type variables, its wrapper, the holder
of values of no exactly known wrapper, and the root class. -/
theorem cases_of_assignable (h : t.WrapperLinks) (ht : t.Constructed) {ty : Ty}
    (hr : ty.isReference = true) (ha : t.assignable (.prim p) ty = true) :
    (∃ name, ty = .var name) ∨
      ∃ d args, ty = .object d args ∧ (d = p.wrapper ∨ d = p.unboxing.1 ∨ d = .object) := by
  cases ty with
  | void => cases hr
  | prim q => cases hr
  | array component => cases ha
  | var name => exact .inl ⟨name, rfl⟩
  | object d args =>
    refine .inr ⟨d, args, rfl, (h.leadsTo_wrapper_iff p).mp ?_⟩
    have hobject : t.assignable (.ofClass p.wrapper) (.object d args) = true := by
      unfold assignable at ha ⊢
      rwa [distance, Option.isSome_map] at ha
    exact (assignable_object_iff ht).mp hobject

/-- A boxed primitive needs no cast. -/
theorem assignable_wrapper {ty : Ty} (hr : ty.isReference = true)
    (ha : t.assignable (.prim p) ty = true) : t.assignable (.ofClass p.wrapper) ty = true := by
  cases ty with
  | void => cases hr
  | prim q => cases hr
  | array component => cases ha
  | var name =>
    unfold assignable at ha ⊢
    rwa [distance, Option.isSome_map] at ha
  | object d args =>
    unfold assignable at ha ⊢
    rwa [distance, Option.isSome_map] at ha

end WrapperLinks

/-! ## Wrappers at run time -/

/-- The machine finds the standard classes by their internal names. -/
private theorem lookup_standard (ht : t.Constructed) (hc : c.index < 24) :
    t.lookup (qualifiedOf (t.internalName c)) = some c := by
  have hnames : ∀ i < 24, '/' ∉ (standard.name ⟨i⟩).toList := by decide
  unfold internalName
  rw [qualifiedOf_internalOf (ht.built.name_eq hc ▸ hnames c.index hc)]
  exact ht.consistent.names.lookup_name (Nat.lt_of_lt_of_le hc ht.consistent.size)

/-- A wrapper object may be used as a class exactly if its class leads there. -/
private theorem WrapperLinks.classFits_iff (h : t.WrapperLinks) (ht : t.Constructed)
    (hd : d.index < 24) :
    Heap.classFits t (t.internalName p.wrapper) (t.internalName d) = true ↔
      t.LeadsTo p.wrapper d := by
  have hp : p.wrapper.index < 24 := by cases p <;> decide
  have hlookup := lookup_standard ht hp
  have hlookup' := lookup_standard ht hd
  have hname : t.internalName p.wrapper = t.internalName d ↔ p.wrapper = d := by
    refine ⟨fun heq => ?_, fun heq => by rw [heq]⟩
    rw [heq, hlookup'] at hlookup
    exact (Option.some.inj hlookup).symm
  have hroot : t.internalName d = "java/lang/Object" ↔ d = .object := by
    rw [← ht.built.internalName_object]
    refine ⟨fun heq => ?_, fun heq => by rw [heq]⟩
    rw [heq, lookup_standard ht (by decide)] at hlookup'
    exact (Option.some.inj hlookup').symm
  unfold Heap.classFits
  rw [hlookup, hlookup', Bool.or_eq_true, Bool.or_eq_true, beq_iff_eq, beq_iff_eq, hname, hroot]
  constructor
  · rintro ((rfl | rfl) | hfits)
    · exact ⟨p.wrapper, .refl, .refl⟩
    · exact (h.leadsTo_wrapper_iff p).mpr (.inr (.inr rfl))
    · exact leadsTo_of_derives_or_implements hfits
  · intro hleads
    rcases (h.leadsTo_wrapper_iff p).mp hleads with rfl | rfl | rfl
    · exact .inl (.inl rfl)
    · by_cases hholder : p.unboxing.1 = p.wrapper
      · exact .inl (.inl hholder.symm)
      · have hextends : t.Extends p.wrapper p.unboxing.1 := by
          unfold Extends
          rw [h.superclass_wrapper p, if_neg hholder]
        have hsize : p.wrapper.index < t.size := Nat.lt_of_lt_of_le hp ht.consistent.size
        refine .inr (Bool.or_eq_true_iff.mpr (.inl (List.contains_iff_mem.mpr ?_)))
        exact (ht.consistent.mem_superclasses_iff hsize).mpr (.single hextends)
    · exact .inl (.inr rfl)

end ClassTable

namespace Primitive

variable {p : Primitive} {value : Value}

/-- The machine keeps a value in the wrapper of another type if it has none of its own. -/
theorem wrap_className (hv : p.Admits value) :
    ∃ b, p.wrap value = .boxed b ∧ b.className = p.boxKind.wrapperName := by
  cases value with
  | int v =>
    cases p with
    | long => cases hv
    | float => cases hv
    | double => cases hv
    | _ => exact ⟨_, rfl, rfl⟩
  | long v =>
    obtain rfl : p = .long := hv
    exact ⟨_, rfl, rfl⟩
  | double v =>
    rcases hv with rfl | rfl
    · exact ⟨_, rfl, rfl⟩
    · exact ⟨_, rfl, rfl⟩
  | _ => exact hv.elim

/-- Whatever class the method is looked for in, it gives back the value. -/
theorem unbox_wrap (hv : p.Holds value) :
    ∃ b, p.wrap value = .boxed b ∧ b.unbox p.unboxing.2 = some value := by
  obtain ⟨hadmits, hboolean⟩ := hv
  cases value with
  | int v =>
    have hint : (Boxed.integer v).toInt64.toInt32 = v := Int32.toInt32_toInt64 v
    cases p with
    | boolean =>
      refine ⟨.boolean (v != 0), rfl, ?_⟩
      rcases hboolean rfl with h | h
      · cases h
        rfl
      · cases h
        rfl
    | long => cases hadmits
    | float => cases hadmits
    | double => cases hadmits
    | _ =>
      refine ⟨.integer v, rfl, ?_⟩
      simp [Boxed.unbox, unboxing, hint]
  | long v =>
    obtain rfl : p = .long := hadmits
    exact ⟨.long v, rfl, rfl⟩
  | double v =>
    rcases hadmits with rfl | rfl
    · exact ⟨.double v, rfl, rfl⟩
    · exact ⟨.double v, rfl, rfl⟩
  | _ => exact hadmits.elim

end Primitive

/-- The machine accepts a wrapper object as the classes that the wrapper it is kept in leads to. -/
theorem ClassTable.WrapperLinks.instanceOf_wrap {t : ClassTable} (h : t.WrapperLinks)
    (ht : t.Constructed) {p : Primitive} {value : Value} (hv : p.Admits value) {d : ClassId}
    (hd : d.index < 24) (heap : Heap) :
    heap.instanceOf t (p.wrap value) (t.internalName d) = true ↔
      t.LeadsTo p.boxKind.wrapper d := by
  obtain ⟨b, hwrap, hclass⟩ := Primitive.wrap_className hv
  rw [hwrap, ← h.classFits_iff ht hd, internalName_wrapper ht.built, ← hclass]
  rfl

namespace Machine

/-- Instructions that are read one after the other. -/
private theorem Reads.andThen {m : Machine} {heap : Heap} {value mid : Value}
    {is js : List Instruction} {r : Except MachineError Value}
    (h : m.Reads heap value is (.ok mid)) (h' : m.Reads heap mid js r) :
    m.Reads heap value (is ++ js) r := by
  intro later he locals below position
  rw [straight_append, h later he]
  show m.straight js later ⟨locals, mid :: below, position + is.length⟩ = _
  rw [h' later he, List.length_append, Nat.add_assoc]

/-- Instructions after a failure do not count. -/
private theorem Reads.stop {m : Machine} {heap : Heap} {value : Value} {is : List Instruction}
    {e : MachineError} (h : m.Reads heap value is (.error e)) (js : List Instruction) :
    m.Reads heap value (is ++ js) (.error e) := by
  intro later he locals below position
  rw [straight_append, h later he]
  rfl

/-- A method of a wrapper object that takes nothing. -/
private theorem Reads.call_boxed {m : Machine} {options : Options}
    (hm : m.functions = Helper.standard options) {heap : Heap} {b : Boxed} {value : Value}
    {member : MemberRef} (hcount : Descriptor.argCount member.descriptor = 0)
    (hvoid : Descriptor.returnsVoid member.descriptor = false) (hhelper : member.name ∉ Helper.names)
    (hclass : member.name ≠ "getClass") (htext : member.name ≠ "toString")
    (hunbox : b.unbox member.name = some value) :
    m.Reads heap (.boxed b) [.invoke .dynamic member] (.ok value) := by
  have hlookup : m.functions.lookup (member.owner, member.name) = none := by
    rw [hm]
    exact Helper.lookup_standard options _ hhelper
  intro later _ locals below position
  have hcall : callOn later member (.boxed b) [] = .ok (later, value) := by
    unfold callOn
    simp only [Value.isNull, Bool.false_eq_true, if_false, if_neg hclass, if_neg htext, hunbox]
  show m.straight [.invoke .dynamic member] later ⟨locals, [].reverse ++ .boxed b :: below, position⟩ = _
  rw [straight_invoke hlookup (.inl rfl) (.boxed b) [] hcount, hcall]
  unfold callResults
  rw [hvoid]
  rfl

/-- The method that takes a primitive out of its wrapper, whatever class it is looked for in. -/
theorem Reads.unboxing {m : Machine} {options : Options}
    (hm : m.functions = Helper.standard options) {heap : Heap} {p : Primitive} {value : Value}
    (hv : p.Holds value) (s : Setting) (holder : ClassId) :
    m.Reads heap (p.wrap value) [Emit.unboxing s p holder] (.ok value) := by
  obtain ⟨b, hwrap, hunbox⟩ := Primitive.unbox_wrap hv
  obtain ⟨hcount, hvoid⟩ := Descriptor.unboxing_counts p
  have hnames : p.unboxing.2 ∉ Helper.names ∧ p.unboxing.2 ≠ "getClass" ∧
      p.unboxing.2 ≠ "toString" := by
    cases p <;> decide
  rw [hwrap]
  exact call_boxed hm hcount hvoid hnames.1 hnames.2.1 hnames.2.2 hunbox

end Machine

namespace Emit

/-- Convert the topmost operand to `via`, keep track of this type alone, and convert it on. -/
def coerceVia (s : Setting) (via target : Ty) : Emit Unit := do
  coerce s via
  replace 1 via
  coerce s target

variable {s : Setting} {p : Primitive} {ty : Ty} {d d' : Draft} {below : List Ty}

/-! ## The code of both ways -/

/-- A primitive is boxed, and no cast is written after that. -/
private theorem returns_coerce_boxed {u : Unit} (hd : d.stack = .prim p :: below)
    (hr : ty.isReference = true) (ha : s.table.assignable (.prim p) ty = true) :
    Returns (coerce s ty) d u d' ↔ d' = { d with
      code := d.code ++ [boxing s p]
      stack := .ofClass p.wrapper :: below } := by
  have hcast : s.table.assignable (Ty.prim p).wrapped ty = true :=
    ClassTable.WrapperLinks.assignable_wrapper hr ha
  unfold coerce
  simp only [returns_bind, returns_top?, and_assoc, exists_and_left, exists_eq_left, hd,
    List.head?_cons]
  cases ty with
  | void => cases hr
  | prim q => cases hr
  | _ =>
    simp only [returns_bind, returns_boxTop hd, exists_eq_left, exists_const]
    rw [returns_castTo rfl]
    unfold castCode castType
    rw [if_pos hcast, if_pos hcast, List.append_nil]
    rfl

/-- The class that a primitive is taken out of, of an operand of type `ty`. -/
def holderOf (ty : Ty) (p : Primitive) : ClassId :=
  if ty.class? = some p.wrapper then p.wrapper else p.unboxing.1

private theorem ofWrapper?_bind (ty : Ty) (p : Primitive) :
    (ty.class?.bind Primitive.ofWrapper? == some p) = decide (ty.class? = some p.wrapper) := by
  rw [Bool.eq_iff_iff, beq_iff_eq, decide_eq_true_iff, Option.bind_eq_some_iff]
  constructor
  · rintro ⟨c, hc, hp⟩
    have hfound : Primitive.all.find? (fun q => q.wrapper == c) = some p := hp
    have hwrapper := List.find?_some hfound
    rw [hc, ← show p.wrapper = c from beq_iff_eq.mp hwrapper]
  · exact fun hc => ⟨_, hc, Primitive.ofWrapper?_wrapper p⟩

theorem returns_coerce_unboxed {u : Unit} (hd : d.stack = ty :: below)
    (hr : ty.isReference = true) :
    Returns (coerce s (.prim p)) d u d' ↔ d' = { d with
      code := d.code ++ (castCode s ty (.ofClass (holderOf ty p)) ++ [unboxing s p (holderOf ty p)])
      stack := .prim p :: below } := by
  have hunbox : Returns (coerce s (.prim p)) d u d' ↔ Returns (unboxTop s p) d u d' := by
    unfold coerce
    simp only [returns_bind, returns_top?, and_assoc, exists_and_left, exists_eq_left, hd,
      List.head?_cons]
    cases ty with
    | void => cases hr
    | prim q => cases hr
    | _ => exact Iff.rfl
  rw [hunbox]
  unfold unboxTop
  simp only [returns_bind, returns_top?, and_assoc, exists_and_left, exists_eq_left, hd,
    List.head?_cons, Option.bind_some, ofWrapper?_bind, decide_eq_true_iff]
  simp only [returns_castTo hd, exists_eq_left, exists_const, returns_emit, returns_replace,
    List.drop_succ_cons, List.drop_zero, List.append_assoc]
  rfl

/-! ## The values of both ways -/

variable {m : Machine} {options : Options} {value : Value}

/-- Only from the wrapper itself no cast to it is written. -/
private theorem assignable_wrapper_iff (h : s.table.WrapperLinks) (ht : s.table.Constructed)
    (hr : ty.isReference = true) (ha : s.table.assignable (.prim p) ty = true) :
    s.table.assignable ty (.ofClass p.wrapper) = true ↔ ty.class? = some p.wrapper := by
  have hroot : p.wrapper ≠ .object := by cases p <;> decide
  have hnumber : p.wrapper ≠ .number := by cases p <;> decide
  rcases h.cases_of_assignable ht hr ha with ⟨name, rfl⟩ | ⟨c, args, rfl, hc⟩
  · have hnone : s.table.distance (.var name) (.ofClass p.wrapper) = none := if_neg hroot
    unfold ClassTable.assignable
    rw [hnone]
    exact ⟨nofun, nofun⟩
  · refine (ClassTable.assignable_object_iff ht).trans ?_
    show _ ↔ some c = some p.wrapper
    rw [Option.some.injEq]
    refine ⟨fun hleads => ?_, fun heq => heq ▸ ⟨c, .refl, .refl⟩⟩
    rcases hc with hself | rfl | rfl
    · exact hself
    · by_cases hholder : p.unboxing.1 = .number
      · rw [hholder, h.leadsTo_number_iff] at hleads
        exact absurd hleads (not_or_intro hnumber hroot)
      · cases p <;> first | rfl | exact absurd rfl hholder
    · exact absurd (h.leadsTo_object_iff.mp hleads) hroot

private theorem reads_castCode (hm : m.table = s.table)
    (hv : p.Admits value) (ty : Ty) (c : ClassId) :
    m.Reads #[] (p.wrap value) (castCode s ty (.ofClass c))
      (if s.table.assignable ty (.ofClass c) ||
          Heap.instanceOf s.table #[] (p.wrap value) (s.table.internalName c) then
        .ok (p.wrap value)
      else .error (.classCast (Heap.text #[] (p.wrap value)) (s.table.internalName c))) := by
  obtain ⟨b, hwrap, -⟩ := Primitive.wrap_className hv
  have hclosed : Heap.Closed #[] := fun p object ho => by cases ho
  have hin : (p.wrap value).In #[] := fun place hp => by cases hwrap.symm.trans hp
  unfold castCode
  cases s.table.assignable ty (.ofClass c) with
  | true => exact .nil
  | false =>
    have hcast := Machine.Reads.checkCast (m := m) hclosed hin (s.table.internalName c)
    rw [hm] at hcast
    exact hcast

/-- The wrapper that a value is kept in is its own unless the machine has none for its type. -/
private theorem leadsTo_own_iff (h : s.table.WrapperLinks) (p : Primitive) :
    s.table.LeadsTo p.boxKind.wrapper p.wrapper ↔ p.boxKind = p := by
  rw [h.leadsTo_wrapper_iff]
  cases p <;> decide

/-- Values are kept in a wrapper below their holder, except for characters. -/
private theorem leadsTo_holder_iff (h : s.table.WrapperLinks) (p : Primitive) :
    s.table.LeadsTo p.boxKind.wrapper p.unboxing.1 ↔ p ≠ .char := by
  rw [h.leadsTo_wrapper_iff]
  cases p <;> decide

/-- A value that is boxed for `ty` and cast to `c` on the way. -/
private theorem reads_cast (ht : s.table.Constructed) (hm : m.table = s.table)
    (hf : m.functions = Helper.standard options) (hv : p.Admits value) (ty : Ty) (c : ClassId) :
    m.Reads #[] value ([boxing s p] ++ castCode s ty (.ofClass c))
      (if s.table.assignable ty (.ofClass c) ||
          Heap.instanceOf s.table #[] (p.wrap value) (s.table.internalName c) then
        .ok (p.wrap value)
      else .error (.classCast (Heap.text #[] (p.wrap value)) (s.table.internalName c))) := by
  have hbox : m.Reads #[] value (boxCode s (.prim p)) (.ok (p.wrap value)) :=
    boxCode_reads ht.built hf hv
  exact hbox.andThen (reads_castCode hm hv ty c)

/-- The way through `ty` and on to the wrapper. -/
private theorem reads_wrapper (h : s.table.WrapperLinks) (ht : s.table.Constructed)
    (hm : m.table = s.table) (hf : m.functions = Helper.standard options) (hv : p.Holds value)
    (hr : ty.isReference = true) (ha : s.table.assignable (.prim p) ty = true) :
    m.Reads #[] value ([boxing s p] ++ castCode s ty (.ofClass p.wrapper))
      (if p.boxKind ≠ p ∧ ty.class? ≠ some p.wrapper then
        .error (.classCast (Heap.text #[] (p.wrap value)) p.wrapperName)
      else .ok (p.wrap value)) := by
  have hcast := reads_cast ht hm hf hv.1 ty p.wrapper
  have hself : (s.table.assignable ty (.ofClass p.wrapper) || Heap.instanceOf s.table #[]
      (p.wrap value) (s.table.internalName p.wrapper)) = true ↔
        ty.class? = some p.wrapper ∨ p.boxKind = p := by
    rw [Bool.or_eq_true, assignable_wrapper_iff h ht hr ha,
      h.instanceOf_wrap ht hv.1 (by cases p <;> decide), leadsTo_own_iff h]
  by_cases hfits : ty.class? = some p.wrapper ∨ p.boxKind = p
  · rw [if_pos (hself.mpr hfits)] at hcast
    rw [if_neg fun hnot => hfits.elim hnot.2 hnot.1]
    exact hcast
  · rw [if_neg (mt hself.mp hfits), internalName_wrapper ht.built] at hcast
    rw [if_pos ⟨fun heq => hfits (.inr heq), fun heq => hfits (.inl heq)⟩]
    exact hcast

/-- The way through `ty` and back to the primitive. -/
private theorem reads_back (h : s.table.WrapperLinks) (ht : s.table.Constructed)
    (hm : m.table = s.table) (hf : m.functions = Helper.standard options) (hv : p.Holds value)
    (hr : ty.isReference = true) (ha : s.table.assignable (.prim p) ty = true) :
    m.Reads #[] value ([boxing s p] ++ castCode s ty (.ofClass (holderOf ty p)) ++
        [unboxing s p (holderOf ty p)])
      (if p = .char ∧ ty.class? ≠ some .character then
        .error (.classCast (Heap.text #[] (p.wrap value)) "java/lang/Character")
      else .ok value) := by
  have hcast := reads_cast ht hm hf hv.1 ty (holderOf ty p)
  have hunbox : m.Reads #[] (p.wrap value) [unboxing s p (holderOf ty p)] (.ok value) :=
    .unboxing hf hv s (holderOf ty p)
  by_cases hself : ty.class? = some p.wrapper
  · have hholder : holderOf ty p = p.wrapper := if_pos hself
    rw [hholder] at hcast hunbox ⊢
    rw [(assignable_wrapper_iff h ht hr ha).mpr hself, Bool.true_or, if_pos rfl] at hcast
    rw [if_neg ?_]
    · exact hcast.andThen hunbox
    · rintro ⟨rfl, hnot⟩
      exact hnot hself
  · have hholder : holderOf ty p = p.unboxing.1 := if_neg hself
    have hfits := h.instanceOf_wrap ht hv.1 (d := p.unboxing.1) (by cases p <;> decide) #[]
    rw [leadsTo_holder_iff h] at hfits
    rw [hholder] at hcast hunbox ⊢
    by_cases hchar : p = .char
    · subst hchar
      have hcannot : Heap.instanceOf s.table #[] (Primitive.char.wrap value)
          (s.table.internalName Primitive.char.unboxing.1) = false :=
        Bool.eq_false_iff.mpr fun hfit => hfits.mp hfit rfl
      have hmust : s.table.assignable ty (.ofClass Primitive.char.unboxing.1) = false :=
        Bool.eq_false_iff.mpr (mt (assignable_wrapper_iff h ht hr ha).mp hself)
      have hname : s.table.internalName Primitive.char.unboxing.1 = "java/lang/Character" :=
        internalName_wrapper ht.built .char
      rw [hmust, hcannot, hname] at hcast
      rw [if_pos ⟨rfl, hself⟩]
      exact hcast.stop _
    · rw [hfits.mpr hchar, Bool.or_true, if_pos rfl] at hcast
      rw [if_neg fun hnot => hchar hnot.1]
      exact hcast.andThen hunbox

/-! ## There and back -/

private theorem returns_back (hd : d.stack = .prim p :: below) (hr : ty.isReference = true)
    (ha : s.table.assignable (.prim p) ty = true) :
    Returns (coerceVia s ty (.prim p)) d () { d with
      code := d.code ++ ([boxing s p] ++ castCode s ty (.ofClass (holderOf ty p)) ++
        [unboxing s p (holderOf ty p)])
      stack := .prim p :: below } := by
  unfold coerceVia
  simp only [returns_bind, returns_coerce_boxed hd hr ha, exists_eq_left, exists_const,
    returns_replace, List.drop_succ_cons, List.drop_zero]
  rw [returns_coerce_unboxed rfl hr]
  simp only [List.append_assoc]

private theorem returns_wrapper (hd : d.stack = .prim p :: below) (hr : ty.isReference = true)
    (ha : s.table.assignable (.prim p) ty = true) :
    Returns (coerceVia s ty (.ofClass p.wrapper)) d () { d with
      code := d.code ++ ([boxing s p] ++ castCode s ty (.ofClass p.wrapper))
      stack := castType s ty (.ofClass p.wrapper) :: below } := by
  unfold coerceVia
  simp only [returns_bind, returns_coerce_boxed hd hr ha, exists_eq_left, exists_const,
    returns_replace, List.drop_succ_cons, List.drop_zero]
  rw [returns_coerce_reference rfl hr rfl, returns_castTo rfl]
  simp only [List.append_assoc]

/-- What reads a value reads it from a slot too. -/
theorem ends_of_reads {is : List Instruction} {r : Except MachineError Value}
    (hplain : ∀ i ∈ is, i.isPlain = true) (h : m.Reads #[] value is r) (kind : SlotKind) :
    m.Ends (.load kind 0 :: is) [value] fun _ result => result = r := by
  refine .of_straight (List.forall_mem_cons.mpr ⟨rfl, hplain⟩) ?_
  have hslot : (Locals.ofValues [value]).get? 0 = some value := rfl
  rw [Machine.straight_load hslot, h m.heap ⟨nofun, Nat.zero_le _⟩, List.length_cons,
    Nat.add_assoc, Nat.add_comm 1]

private theorem castCode_plain (s : Setting) (ty target : Ty) :
    ∀ i ∈ castCode s ty target, i.isPlain = true := by
  unfold castCode
  split
  · exact nofun
  · exact List.forall_mem_singleton.mpr rfl

private theorem text_wrap (hv : p.Admits value) (heap : Heap) :
    Heap.text #[] (p.wrap value) = heap.text (p.wrap value) := by
  obtain ⟨b, hwrap, -⟩ := Primitive.wrap_className hv
  rw [hwrap]
  unfold Heap.text Heap.text?
  cases heap.size <;> rfl

/-- A primitive that is converted to a reference type it is assignable to, and from there back or on
to its wrapper. It comes back as it was, unless it is a character and only its being an object is
known: it is kept as an `Integer`, which the cast to `Character` refuses. The machine accepts it as
an instance of its wrapper exactly if it has a wrapper object of its own for the type; for the other
types, the cast to the wrapper fails wherever one is written. -/
theorem coerceVia_outcome (s : Setting) (ht : s.table.Constructed) (h : s.table.WrapperLinks)
    (hv : p.Holds value) (hr : ty.isReference = true)
    (ha : s.table.assignable (.prim p) ty = true) (hm : m.table = s.table)
    (hf : m.functions = Helper.standard options) :
    (∃ code, (∀ d below, d.stack = .prim p :: below → Returns (coerceVia s ty (.prim p)) d ()
        { d with code := d.code ++ code, stack := .prim p :: below }) ∧
      m.Ends (.load (.ofType (.prim p)) 0 :: code) [value] fun _ result => result =
        if p = .char ∧ ty.class? ≠ some .character then
          .error (.classCast (m.heap.text (p.wrap value)) "java/lang/Character")
        else .ok value) ∧
    (∃ code, (∀ d below, d.stack = .prim p :: below →
        Returns (coerceVia s ty (.ofClass p.wrapper)) d () { d with
          code := d.code ++ code
          stack := castType s ty (.ofClass p.wrapper) :: below }) ∧
      m.Ends (.load (.ofType (.prim p)) 0 :: code) [value] fun _ result => result =
        if p.boxKind ≠ p ∧ ty.class? ≠ some p.wrapper then
          .error (.classCast (m.heap.text (p.wrap value)) p.wrapperName)
        else .ok (p.wrap value)) ∧
    ∀ heap : Heap,
      heap.instanceOf s.table (p.wrap value) p.wrapperName = true ↔ p.boxKind = p := by
  have hplain : ∀ c, ∀ i ∈ [boxing s p] ++ castCode s ty (.ofClass c), i.isPlain = true :=
    fun c => List.forall_mem_append.mpr ⟨List.forall_mem_singleton.mpr rfl, castCode_plain s ty _⟩
  have hunboxing : ∀ c, ∀ i ∈ [unboxing s p c], i.isPlain = true :=
    fun c => List.forall_mem_singleton.mpr rfl
  refine ⟨⟨_, fun d below hd => returns_back hd hr ha, ?_⟩,
    ⟨_, fun d below hd => returns_wrapper hd hr ha, ?_⟩, fun heap => ?_⟩
  · rw [← text_wrap hv.1]
    exact ends_of_reads (List.forall_mem_append.mpr ⟨hplain _, hunboxing _⟩)
      (reads_back h ht hm hf hv hr ha) _
  · rw [← text_wrap hv.1]
    exact ends_of_reads (hplain _) (reads_wrapper h ht hm hf hv hr ha) _
  · rw [← internalName_wrapper ht.built, h.instanceOf_wrap ht hv.1 (by cases p <;> decide),
      leadsTo_own_iff h]

/-- A byte that is used as a number comes back. Where its wrapper is asked for, the cast fails. -/
theorem coerceVia_outcome_byte :
    let s := objectSetting
    let m := Machine.new .standard .standard
    let d := { Draft.empty 1 with stack := [.prim .byte] }
    (s.table.Constructed ∧ s.table.WrapperLinks ∧ Primitive.byte.Holds (.int (-3)) ∧
        s.table.assignable (.prim .byte) (.ofClass .number) = true) ∧
      (∃ code d', Returns (coerceVia s (.ofClass .number) (.prim .byte)) d () d' ∧ d'.code = code ∧
        m.Ends (.load .int 0 :: code) [.int (-3)] fun _ result => result = .ok (.int (-3))) ∧
      ∃ code d', Returns (coerceVia s (.ofClass .number) (.ofClass .byte)) d () d' ∧
        d'.code = code ∧ m.Ends (.load .int 0 :: code) [.int (-3)] fun _ result =>
          result = .error (.classCast "-3" "java/lang/Byte") := by
  intro s m d
  have ht : s.table.Constructed := ⟨[], by decide, rfl⟩
  have h : s.table.WrapperLinks := by decide
  have hv : Primitive.byte.Holds (.int (-3)) := ⟨rfl, nofun⟩
  have ha : s.table.assignable (.prim .byte) (.ofClass .number) = true := by decide
  obtain ⟨⟨code, hback, hends⟩, ⟨code', hon, hends'⟩, -⟩ :=
    coerceVia_outcome s ht h hv rfl ha (m := m) rfl rfl
  exact ⟨⟨ht, h, hv, ha⟩, ⟨code, _, hback d [] rfl, rfl, hends⟩, code', _, hon d [] rfl, rfl, hends'⟩

/-- A character that is known as an object only does not come back. -/
theorem coerceVia_loses_char :
    let d := { Draft.empty 1 with stack := [.prim .char] }
    let written := coerceVia objectSetting (.ofClass .object) (.prim .char) d
    objectSetting.table.assignable (.prim .char) (.ofClass .object) = true ∧ written.1 = .ok () ∧
      ((Machine.new .standard .standard).run (.load .int 0 :: written.2.code) [.int 65]).2 =
        .error (.classCast "65" "java/lang/Character") := ⟨by decide, rfl, rfl⟩

end Emit

end CallSite
