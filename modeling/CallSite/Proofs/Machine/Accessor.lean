import CallSite.Proofs.Machine.Straight
import Mathlib.Data.List.Nodup

/-!
# Reading a field directly and by its accessor

A field read follows the reference and looks the field up. An accessor is a static call, and the
machine finds out by the accessor's name which field it reads. It does so as a field read would, but
a null receiver makes it read the static field of that name.
-/

namespace CallSite

namespace Machine

variable {m : Machine} {heap : Heap} {locals : List Value} {value : Value}

/-! ## Runs of two instructions -/

/-- What comes of `read` on the value of a slot, when loading it is one step and `read` another. -/
def readSlot (limit : Nat) (locals : Locals) (slot : UInt16)
    (read : Value → Except MachineError Value) : Except MachineError Value :=
  match limit, locals.get? slot with
  | 0, _ => .error (.stepLimit 0)
  | _ + 1, none => .error (.unsetLocal slot)
  | 1, some _ => .error (.stepLimit 1)
  | _ + 2, some value => read value

theorem readSlot_of_le {limit : Nat} {locals : Locals} {slot : UInt16} {value : Value}
    (hlimit : 2 ≤ limit) (hvalue : locals.get? slot = some value)
    (read : Value → Except MachineError Value) : readSlot limit locals slot read = read value := by
  obtain ⟨more, rfl⟩ := Nat.exists_eq_add_of_le' hlimit
  unfold readSlot
  rw [hvalue]

/-- An instruction behind the load of a slot reads from the slot's value. -/
theorem run_load {kind : SlotKind} {slot : UInt16} {i : Instruction}
    {read : Value → Except MachineError Value}
    (hi : ∀ code locals value, m.execute code m.heap ⟨locals, [value], 1⟩ i =
      (read value).map fun result => (m.heap, ⟨locals, [result], 2⟩)) :
    (m.run [.load kind slot, i] locals).2 = readSlot m.stepLimit (.ofValues locals) slot read := by
  unfold run readSlot
  simp only
  match hlimit : m.stepLimit, hvalue : (Locals.ofValues locals).get? slot with
  | 0, _ => simp [runFrom, hlimit]
  | limit + 1, none => simp [runFrom, execute, hvalue]
  | 1, some value => simp [runFrom, execute, hvalue, hlimit]
  | limit + 2, some value =>
    cases hr : read value <;> simp [runFrom, execute_load hvalue, hi, hr, Except.map]

/-- Two ways to read from a slot come to the same if they do so on its value. -/
theorem readSlot_mapError {limit : Nat} {locals : Locals} {slot : UInt16}
    {read read' : Value → Except MachineError Value}
    (h : ∀ value, locals.get? slot = some value →
      (read value).mapError MachineError.kind = (read' value).mapError MachineError.kind) :
    (readSlot limit locals slot read).mapError MachineError.kind =
      (readSlot limit locals slot read').mapError MachineError.kind := by
  unfold readSlot
  split
  · rfl
  · rfl
  · rfl
  · exact h _ ‹_›

/-! ## Fields -/

/-- What a field read gives. -/
def fieldOf (heap : Heap) (member : MemberRef) (value : Value) : Except MachineError Value := do
  let object ← heap.deref value ("getfield " ++ member.owner ++ "." ++ member.name)
  match object.field? member.name with
  | some value => return value
  | none => throw (.noSuchField (member.owner ++ "." ++ member.name))

theorem execute_getField (member : MemberRef) (code : List Instruction) (locals : Locals)
    (below : List Value) (position : Nat) :
    m.execute code heap ⟨locals, value :: below, position⟩ (.getField member) =
      (fieldOf heap member value).map fun result =>
        (heap, ⟨locals, result :: below, position + 1⟩) := by
  simp only [execute, fieldOf]
  cases heap.deref value ("getfield " ++ member.owner ++ "." ++ member.name) with
  | error e => rfl
  | ok object => cases h : object.field? member.name <;> simp [bind, Except.bind, h] <;> rfl

/-- Where the accessors of a class have different names, the machine finds the field of each. -/
theorem bridgedField?_of_nodup {m : Machine} {member : MemberRef} {c : ClassId} {b : Bridge}
    (hc : m.table.lookup (qualifiedOf member.owner) = some c)
    (hnames : ((m.table.info c).bridges.map fun b => b.accessor.name).Nodup)
    (hb : b ∈ (m.table.info c).bridges) (hname : b.accessor.name = member.name) :
    m.bridgedField? member = some b.field := by
  unfold bridgedField?
  rw [hc, Option.bind_some]
  cases hfound : (m.table.info c).bridges.find? fun b => b.accessor.name == member.name with
  | none => exact absurd (beq_iff_eq.mpr hname) (List.find?_eq_none.mp hfound b hb)
  | some b' =>
    have hmatch := List.find?_some hfound
    have hname' : b'.accessor.name = member.name := beq_iff_eq.mp hmatch
    rw [List.inj_on_of_nodup_map hnames (List.mem_of_find?_eq_some hfound) hb
      (hname'.trans hname.symm)]
    rfl

/-- An accessor that is found by its name reads the field that it was made for. -/
theorem execute_accessor {member : MemberRef} {field : String}
    (hf : m.functions.lookup (member.owner, member.name) = none) (hname : member.name ≠ "valueOf")
    (hb : m.bridgedField? member = some field) (hcount : Descriptor.argCount member.descriptor = 1)
    (hvoid : Descriptor.returnsVoid member.descriptor = false) (code : List Instruction)
    (locals : Locals) (below : List Value) (position : Nat) :
    m.execute code heap ⟨locals, value :: below, position⟩ (.invoke .static member) =
      (m.readBridged heap member field [value]).map fun result =>
        (heap, ⟨locals, result :: below, position + 1⟩) := by
  have htakes : (Instruction.invoke .static member).takes = [value].length := hcount
  have hcall : m.invoke heap .static member [value] =
      (m.readBridged heap member field [value]).map fun result => (heap, some result) := by
    unfold invoke callStatic
    simp only [hf, hb, reduceCtorEq, false_and, if_false, if_true, if_neg hname]
  have hresults : ∀ result, callResults member (some result) = [result] := by
    intro result
    unfold callResults
    rw [hvoid]
    rfl
  have hexecute := execute_operands m code heap locals [value] htakes below position
  simp only [List.reverse_singleton, List.singleton_append] at hexecute
  rw [hexecute, hcall]
  cases m.readBridged heap member field [value] with
  | error e => rfl
  | ok result =>
    show Except.ok (heap, (⟨locals, callResults member (some result) ++ below, _⟩ : Frame)) = _
    rw [hresults]
    rfl

/-- On all but null the accessor reads what a field read does. -/
theorem readBridged_of_ne_null {member target : MemberRef} (howner : member.owner = target.owner)
    (hv : value ≠ .null) :
    (m.readBridged heap member target.name [value]).mapError MachineError.kind =
      (fieldOf heap target value).mapError MachineError.kind := by
  cases value with
  | null => exact absurd rfl hv
  | ref place =>
    simp only [readBridged, fieldOf, Heap.deref, howner]
    cases heap[place]? with
    | none => rfl
    | some object => cases object.field? target.name <;> rfl
  | _ => rfl

/-- For null the accessor reads a static field. -/
theorem readBridged_null (member : MemberRef) (field : String) :
    m.readBridged heap member field [.null] = match m.static? member.owner field with
      | some value => .ok value
      | none => .error (.noSuchField (member.owner ++ "." ++ field)) := by
  unfold readBridged
  cases m.static? member.owner field <;> rfl

end Machine

end CallSite
