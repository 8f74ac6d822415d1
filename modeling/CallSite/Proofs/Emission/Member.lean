import CallSite.Proofs.Emission.Access
import CallSite.Proofs.Machine.Boxing
import CallSite.Proofs.Machine.Reading
import CallSite.Proofs.Selection.Source

/-!
# Instance members

The access to a getter or field of an object that is held in a slot is straight code: load the
object, cast it where its type does not say enough, and read the member.
-/

namespace CallSite

/-- How a member of an object is read: its class, the instruction that reads it from the topmost
operand, and its type. -/
structure Reading where
  owner : ClassId
  instruction : Instruction
  type : Ty

/-- How an access that is bound so reads a member of an object, if it does. -/
def Setting.reading? (s : Setting) : Binding → Option Reading
  | .getter m | .interfaceGetter m =>
    if m.isStatic then none else some ⟨m.owner, Emit.invocation s m, m.returns⟩
  | .field f => if f.isStatic then none else some ⟨f.owner, .getField (Emit.fieldRef s f), f.type⟩
  | _ => none

/-- If the access calls a method, that has a value. -/
def Binding.Valued (binding : Binding) : Prop :=
  ∀ m, binding.method? = some m → m.returns ≠ .void

theorem Setting.reading?_cases {s : Setting} {binding : Binding} {reading : Reading}
    (h : s.reading? binding = some reading) :
    (∃ m, (binding = .getter m ∨ binding = .interfaceGetter m) ∧ m.isStatic = false ∧
        reading = ⟨m.owner, Emit.invocation s m, m.returns⟩) ∨
      ∃ f, binding = .field f ∧ f.isStatic = false ∧
        reading = ⟨f.owner, .getField (Emit.fieldRef s f), f.type⟩ := by
  cases binding with
  | getter m =>
    obtain ⟨hs, h⟩ := Option.ite_none_left_eq_some.mp h
    exact Or.inl ⟨m, Or.inl rfl, Bool.eq_false_iff.mpr hs, (Option.some.inj h).symm⟩
  | interfaceGetter m =>
    obtain ⟨hs, h⟩ := Option.ite_none_left_eq_some.mp h
    exact Or.inl ⟨m, Or.inr rfl, Bool.eq_false_iff.mpr hs, (Option.some.inj h).symm⟩
  | field f =>
    obtain ⟨hs, h⟩ := Option.ite_none_left_eq_some.mp h
    exact Or.inr ⟨f, rfl, Bool.eq_false_iff.mpr hs, (Option.some.inj h).symm⟩
  | _ => cases h

private theorem method?_of_getter {binding : Binding} {m : Method}
    (h : binding = .getter m ∨ binding = .interfaceGetter m) : binding.method? = some m := by
  rcases h with rfl | rfl <;> rfl

/-- The cast of an operand of type `top`, where there has to be one. -/
def Emit.castCode (s : Setting) (top target : Ty) : List Instruction :=
  if s.table.assignable top target then [] else [.checkCast (s.table.internalTypeName target)]

/-- The code that reads a member from an operand of type `top`. -/
def Reading.code (s : Setting) (top : Ty) (reading : Reading) : List Instruction :=
  Emit.castCode s top (.ofClass reading.owner) ++ [reading.instruction]

namespace Emit

variable {s : Setting} {d d' : Draft} {ty : Ty}

/-! ## Boxes -/

/-- The code that boxes a value of type `ty`, if it is primitive. -/
def boxCode (s : Setting) : Ty → List Instruction
  | .prim p => [boxing s p]
  | _ => []

theorem returns_boxTop {below : List Ty} {u : Unit} (hs : d.stack = ty :: below) :
    Returns (boxTop s) d u d' ↔
      d' = { d with code := d.code ++ boxCode s ty, stack := ty.wrapped :: below } := by
  unfold boxTop
  simp only [returns_bind, returns_top?, and_assoc, exists_and_left, exists_eq_left, hs,
    List.head?_cons]
  cases ty with
  | prim p =>
    simp only [returns_bind, returns_emit, returns_replace, exists_eq_left, exists_const, hs,
      List.drop_succ_cons, List.drop_zero]
    rfl
  | _ =>
    simp only [returns_pure, boxCode, Ty.wrapped, List.append_nil, true_and, ← hs]
    exact eq_comm

/-- A value of the type is boxed by its code. -/
theorem boxCode_reads {m : Machine} {options : Options} {heap : Heap} {value : Value}
    (hb : s.table.Built) (hm : m.functions = Helper.standard options) (hv : ty.Admits value) :
    m.Reads heap value (boxCode s ty) (.ok (ty.boxed value)) := by
  cases ty with
  | prim p =>
    obtain ⟨b, hboxAs, hwrap⟩ := boxAs_wrapper hb hv
    obtain ⟨hcount, hvoid⟩ := Descriptor.boxing_counts p (s.table.internalName p.wrapper)
    show m.Reads heap value [boxing s p] (.ok (p.wrap value))
    rw [hwrap]
    exact .valueOf hm hcount hvoid hboxAs
  | _ => exact .nil

/-! ## Casts -/

/-- The type under which an operand is known after the cast. -/
def castType (s : Setting) (top target : Ty) : Ty :=
  if s.table.assignable top target then top else target

theorem returns_castTo {top target : Ty} {below : List Ty} {u : Unit}
    (hs : d.stack = top :: below) : Returns (castTo s target) d u d' ↔ d' = { d with
      code := d.code ++ castCode s top target
      stack := castType s top target :: below } := by
  unfold castTo castCode castType
  simp only [returns_bind, returns_top?, and_assoc, exists_and_left, exists_eq_left, hs,
    List.head?_cons, Option.any_some]
  by_cases ha : s.table.assignable top target = true
  · simp only [if_pos ha, returns_pure, List.append_nil, true_and, ← hs]
    exact eq_comm
  · simp only [if_neg ha, returns_bind, returns_emit, returns_replace, exists_eq_left,
      exists_const, hs, List.drop_succ_cons, List.drop_zero]

/-- Between reference types a conversion is a cast. -/
theorem returns_coerce_reference {source target : Ty} {below : List Ty} {u : Unit}
    (hd : d.stack = source :: below) (hs : source.isReference = true)
    (hr : target.isReference = true) :
    Returns (coerce s target) d u d' ↔ Returns (castTo s target) d u d' := by
  unfold coerce
  simp only [returns_bind, returns_top?, and_assoc, exists_and_left, exists_eq_left, hd,
    List.head?_cons]
  cases source with
  | void => cases hs
  | prim p => cases hs
  | _ =>
    cases target with
    | void => cases hr
    | prim p => cases hr
    | _ => exact Iff.rfl

/-- Objects are converted by casts. -/
theorem coerce_object {c k : ClassId} {args : List Ty} {below : List Ty} {u : Unit}
    (hs : d.stack = .object c args :: below) :
    Returns (coerce s (.ofClass k)) d u d' ↔ Returns (castTo s (.ofClass k)) d u d' :=
  returns_coerce_reference hs rfl rfl

/-! ## Accesses -/

section Held

variable {c : ClassId} {args : List Ty} {slot : UInt16} {note : Note}

/-- With an object loaded from a slot. -/
private def Draft.loaded (d : Draft) (held : Ty) (slot : UInt16) : Draft :=
  { d with code := d.code ++ [.load .reference slot], stack := held :: d.stack }

/-- With an object loaded from a slot, to be used as `target`. -/
private def Draft.held (s : Setting) (d : Draft) (held target : Ty) (slot : UInt16) : Draft :=
  { d with
    code := d.code ++ .load .reference slot :: castCode s held target
    stack := castType s held target :: d.stack }

private theorem returns_loadObject
    (hn : (Expr.localVar slot note).typeIn s.enclosing = .object c args) :
    Returns (loadLocal s slot note) d ty d' ↔
      ty = .object c args ∧ d' = Draft.loaded d (.object c args) slot := by
  rw [returns_loadLocal, hn]
  constructor
  · rintro ⟨rfl, rfl⟩
    exact ⟨rfl, rfl⟩
  · rintro ⟨rfl, rfl⟩
    exact ⟨rfl, rfl⟩

private theorem returns_castTo_loaded {held target : Ty} {u : Unit} :
    Returns (castTo s target) (Draft.loaded d held slot) u d' ↔
      d' = Draft.held s d held target slot := by
  rw [returns_castTo rfl]
  simp only [Draft.loaded, Draft.held, List.append_assoc, List.singleton_append]

/-- A call without arguments on an object that is held in a slot. -/
private theorem returns_call_held {method : Method}
    (hn : (Expr.localVar slot note).typeIn s.enclosing = .object c args)
    (hp : method.params = []) (hs : method.isStatic = false) :
    Returns (call s (loadLocal s slot note) method [] false) d ty d' ↔
      d' = Draft.called s method d.stack.length
        (Draft.held s d (.object c args) (.ofClass method.owner) slot) ∧
      ty = d'.stack.head?.getD .void := by
  have hself : selfType method = .ofClass method.owner := by
    unfold selfType
    rw [hp]
  have hreceiver : method.takesReceiver = true := by
    unfold Method.takesReceiver
    rw [hs, Bool.not_false, Bool.or_true]
  have hcast : ∀ u mid, Returns (coerce s (.ofClass method.owner))
      (Draft.loaded d (.object c args) slot) u mid ↔
        mid = Draft.held s d (.object c args) (.ofClass method.owner) slot :=
    fun u mid => (coerce_object rfl).trans returns_castTo_loaded
  have harguments : ∀ params mid d₃, Returns (arguments s [] params) mid () d₃ ↔ mid = d₃ :=
    fun params mid d₃ => returns_pure.trans (and_iff_right rfl)
  rw [returns_call_plain hreceiver, hself]
  simp only [returns_loadObject hn, hcast, harguments, and_assoc, exists_and_left, exists_eq_left,
    exists_eq_left']

/-- The field of an object that is held in a slot. -/
private theorem returns_readField_held {field : Field}
    (hn : (Expr.localVar slot note).typeIn s.enclosing = .object c args)
    (hs : field.isStatic = false) :
    Returns (readField s (loadLocal s slot note) field) d ty d' ↔
      ty = field.type ∧ d' = { d with
        code := d.code ++ .load .reference slot ::
          (castCode s (.object c args) (.ofClass field.owner) ++ [.getField (fieldRef s field)])
        stack := field.type :: d.stack } := by
  rw [returns_readField_instance hs]
  simp only [returns_loadObject hn, returns_castTo_loaded, and_assoc, exists_and_left,
    exists_eq_left, Draft.held, List.drop_succ_cons, List.drop_zero, List.append_assoc,
    List.cons_append]

/-- What a call that is written on a held object leaves. -/
private theorem called_held (method : Method) (held : Ty) :
    Draft.called s method d.stack.length (Draft.held s d held (.ofClass method.owner) slot) = { d with
      code := d.code ++ .load .reference slot ::
        (castCode s held (.ofClass method.owner) ++ [invocation s method])
      stack := (if method.returns = .void then [] else [method.returns]) ++ d.stack } := by
  have hdrop : (castType s held (.ofClass method.owner) :: d.stack).length - d.stack.length = 1 := by
    rw [List.length_cons]
    omega
  simp only [Draft.called, Draft.held, hdrop, List.drop_succ_cons, List.drop_zero,
    List.append_assoc, List.cons_append]

/-- The access to a member of an object that is held in a slot is written as straight code. It is
written if the member has a value. -/
theorem returns_access_member {site : Site} {reading : Reading} {collected : Ty → Emit Ty}
    (hn : (Expr.localVar slot note).typeIn s.enclosing = .object c args)
    (hb : s.reading? (s.binding site) = some reading) (hsafe : site.safe = false) :
    Returns (access s site (loadLocal s slot note) collected) d ty d' ↔
      (s.binding site).Valued ∧ ty = reading.type ∧ d' = { d with
        code := d.code ++ .load .reference slot :: reading.code s (.object c args)
        stack := ty :: d.stack } := by
  have hbound : s.binding site ≠ .unresolved := by
    intro h
    rw [h] at hb
    cases hb
  rw [returns_access_of_ne hbound]
  rcases Setting.reading?_cases hb with ⟨m, hm, hs, rfl⟩ | ⟨f, hf, hs, rfl⟩
  · have hgetter : m.IsGetter := ClassTable.select_isGetter hm
    have hcall : bound s (s.binding site) site site.member (loadLocal s slot note) collected =
        call s (loadLocal s slot note) m [] false := by
      rw [← hsafe]
      rcases hm with hm | hm <;> rw [hm] <;> rfl
    have hvalued : (s.binding site).Valued ↔ m.returns ≠ .void := by
      have hmethod := method?_of_getter hm
      unfold Binding.Valued
      simp only [hmethod, Option.some.injEq, forall_eq']
    rw [hcall, hvalued, returns_call_held hn hgetter.params hs, called_held]
    by_cases hv : m.returns = .void
    · simp only [hv, if_true, List.nil_append]
      constructor
      · rintro ⟨⟨rfl, -⟩, hlength⟩
        exact absurd hlength (Nat.succ_ne_self _).symm
      · exact fun h => absurd rfl h.1
    · simp only [if_neg hv]
      constructor
      · rintro ⟨⟨rfl, rfl⟩, -⟩
        exact ⟨hv, rfl, rfl⟩
      · rintro ⟨-, rfl, rfl⟩
        exact ⟨⟨rfl, rfl⟩, rfl⟩
  · rw [hf]
    show Returns (readField s (loadLocal s slot note) f) d ty d' ∧ _ ↔ _
    rw [returns_readField_held hn hs]
    constructor
    · rintro ⟨⟨rfl, rfl⟩, -⟩
      exact ⟨nofun, rfl, rfl⟩
    · rintro ⟨-, rfl, rfl⟩
      exact ⟨⟨rfl, rfl⟩, rfl⟩

end Held

/-! ## Reading -/

/-- A cast that is written, or left out, gives the value itself or fails. -/
private theorem castCode_reads {m : Machine} {heap : Heap} {value : Value} (hc : heap.Closed)
    (hv : value.In heap) (top target : Ty) :
    ∃ r, m.Reads heap value (castCode s top target) r ∧ ∀ result, r = .ok result → result = value := by
  unfold castCode
  split
  · exact ⟨_, .nil, fun result h => (Except.ok.inj h).symm⟩
  · refine ⟨_, .checkCast hc hv _, fun result h => ?_⟩
    split at h
    · exact (Except.ok.inj h).symm
    · cases h

/-- The instruction that calls a getter of an object. -/
private theorem invocation_getter {method : Method} (hgetter : method.IsGetter)
    (hs : method.isStatic = false) (hvalued : method.returns ≠ .void) :
    ∃ dispatch member, invocation s method = .invoke dispatch member ∧
      (dispatch = .dynamic ∨ dispatch = .interface) ∧ member.name = method.name ∧
      Descriptor.argCount member.descriptor = 0 ∧
      Descriptor.returnsVoid member.descriptor = false := by
  have hcount :
      Descriptor.argCount (s.table.methodDescriptor method.params method.returns) = 0 := by
    rw [hgetter.params]
    exact Descriptor.argCount_methodDescriptor_nil _
  unfold invocation
  simp only [hs, Bool.false_eq_true, if_false]
  refine ⟨_, _, rfl, ?_, rfl, hcount, Descriptor.returnsVoid_methodDescriptor _ hvalued⟩
  split
  · exact Or.inr rfl
  · exact Or.inl rfl

section Read

variable {m : Machine} {options : Options} {heap : Heap} {value : Value} {site : Site}
  {reading : Reading}

private theorem instruction_reads (hm : m.functions = Helper.standard options)
    (hb : s.reading? (s.binding site) = some reading) (hvalued : (s.binding site).Valued)
    (hc : heap.Closed) (hv : value.In heap) :
    ∃ r, m.Reads heap value [reading.instruction] r := by
  rcases Setting.reading?_cases hb with ⟨method, hk, hs, rfl⟩ | ⟨f, -, -, rfl⟩
  · have hgetter : method.IsGetter := ClassTable.select_isGetter hk
    obtain ⟨dispatch, member, hi, hd, hname, hcount, hvoid⟩ :=
      invocation_getter (s := s) hgetter hs (hvalued method (method?_of_getter hk))
    have hnot : member.name ∉ Machine.changing := by
      rw [hname]
      exact hgetter.name_notMem (by decide)
    rw [hi]
    exact Machine.Reads.call hm hd hnot hcount hvoid hc hv
  · exact Machine.Reads.getField hv _

/-- What reads a member finds the same in every later heap, whatever else is on the stack. -/
theorem reading_reads (hm : m.functions = Helper.standard options)
    (hb : s.reading? (s.binding site) = some reading) (hvalued : (s.binding site).Valued)
    (hc : heap.Closed) (hv : value.In heap) (top : Ty) :
    ∃ r, m.Reads heap value (reading.code s top) r := by
  obtain ⟨r, hcast, hsame⟩ := castCode_reads (m := m) (s := s) hc hv top (.ofClass reading.owner)
  obtain ⟨r', hread⟩ := instruction_reads hm hb hvalued hc hv
  refine ⟨r >>= fun _ => r', hcast.append fun result hr => ?_⟩
  rw [hsame result hr]
  exact hread

/-- What reads a member of an instance finds a field of it, or its class. -/
theorem reading_shows (hm : m.functions = Helper.standard options)
    (hb : s.reading? (s.binding site) = some reading) (hvalued : (s.binding site).Valued)
    (hc : heap.Closed) {place : Nat} {cls : String} {fields : List (String × Value)}
    (ho : heap[place]? = some (.instance cls fields)) {top : Ty} {result : Value}
    (h : m.Reads heap (.ref place) (reading.code s top) (.ok result)) :
    Machine.Shows (.instance cls fields) result := by
  have hv := Value.ref_in ho
  obtain ⟨r, hcast, hsame⟩ := castCode_reads (m := m) (s := s) hc hv top (.ofClass reading.owner)
  obtain ⟨r', hread⟩ := instruction_reads hm hb hvalued hc hv
  have hwhole : (r >>= fun _ => r') = .ok result :=
    Machine.Reads.unique (hcast.append fun value hr => hsame value hr ▸ hread) h
  obtain rfl : r' = .ok result := by
    cases r with
    | error e => cases hwhole
    | ok value => exact hwhole
  rcases Setting.reading?_cases hb with ⟨method, hk, hs, rfl⟩ | ⟨f, -, -, rfl⟩
  · have hgetter : method.IsGetter := ClassTable.select_isGetter hk
    obtain ⟨dispatch, member, hi, hd, hname, hcount, hvoid⟩ :=
      invocation_getter (s := s) hgetter hs (hvalued method (method?_of_getter hk))
    have hnot : member.name ∉ ["toString"] := by
      rw [hname]
      exact hgetter.name_notMem (by decide)
    rw [hi] at hread
    exact hread.call_shows hm hd (List.ne_of_not_mem_cons hnot) hcount hvoid ho
  · exact hread.getField_shows ho

end Read

end Emit

end CallSite
