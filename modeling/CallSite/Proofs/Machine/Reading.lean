import CallSite.Proofs.Machine.Extension
import CallSite.Proofs.Machine.Straight

/-!
# Reading values

Instructions that put something read from a value in its place. What they find does not depend on
objects that are added to the heap, nor on what else is on the operand stack.
-/

namespace CallSite

variable {heap : Heap} {value : Value}

/-! ## Helpers -/

namespace Helper

/-- The names of the helpers. -/
def names : List String := ["getAt", "plus", "power", "div", "multiply", "minus"]

/-- No helper is found under another name. -/
theorem lookup_standard (options : Options) (owner : String) {name : String} (h : name ∉ names) :
    (standard options).lookup (owner, name) = none := by
  refine List.lookup_eq_none_iff.mpr fun entry hentry => ?_
  have hname : entry.1.2 ∈ names := by
    simp only [standard, List.mem_cons, List.not_mem_nil, or_false] at hentry
    rcases hentry with rfl | rfl | rfl | rfl | rfl | rfl | rfl <;> simp [names]
  rw [bne_iff_ne]
  intro he
  rw [← he] at hname
  exact h hname

/-- The element of a list or map. -/
private def subscriptOf (heap : Heap) (args : List Value) (object : HeapObject) :
    Except MachineError (Heap × Option Value) := do
  match object with
  | .list items => return (heap, some (← itemAt items (← intArgument args 1)))
  | .map entries => return (heap, some (entryOf entries ((args[1]?).getD .null)))
  | other => throw (.noSuchMethod ("getAt on " ++ other.className))

private theorem subscript_reads (hv : value.In heap) : ∃ r : Except MachineError Value,
    ∀ later : Heap, later.Extends heap →
      subscript later [value] = r.map fun result => (later, some result) := by
  cases value with
  | string text => exact ⟨.error (.operand (.argumentNotNumber 1)), fun _ _ => rfl⟩
  | ref place =>
    have hfound : ∀ (result : Except MachineError Value) {r}, heap.deref (.ref place) "getAt" = r →
        (∀ later : Heap, (r >>= subscriptOf later [.ref place]) =
          result.map fun item => (later, some item)) →
        ∃ result : Except MachineError Value, ∀ later : Heap, later.Extends heap →
          subscript later [.ref place] = result.map fun item => (later, some item) := by
      intro result r hr hresult
      refine ⟨result, fun later he => ?_⟩
      show (later.deref (.ref place) "getAt" >>= subscriptOf later [.ref place]) = _
      rw [Heap.deref_extends he hv, hr]
      exact hresult later
    cases ho : heap.deref (.ref place) "getAt" with
    | error e => exact hfound (.error e) ho fun _ => rfl
    | ok object =>
      cases object with
      | map entries => exact hfound (.ok (entryOf entries .null)) ho fun _ => rfl
      | list items => exact hfound (.error _) ho fun _ => rfl
      | _ => exact hfound (.error _) ho fun _ => rfl
  | null => exact ⟨.error (.nullPointer "getAt"), fun _ _ => rfl⟩
  | _ => exact ⟨.error (.operand (.notAnObject "getAt" _)), fun _ _ => rfl⟩

/-- A helper that is called on one value gives the same in later heaps. -/
theorem standard_reads (options : Options) {entry : (String × String) × HostFunction}
    (hentry : entry ∈ standard options) (hc : heap.Closed) (hv : value.In heap) :
    ∃ r : Except MachineError Value, ∀ later : Heap, later.Extends heap →
      entry.2 later [value] = r.map fun result => (later, some result) := by
  have hpair : ∀ op f, ∃ r : Except MachineError Value, ∀ later : Heap, later.Extends heap →
      onNumbers op f later [value] = r.map fun result => (later, some result) := by
    intro op f
    cases value with
    | null => exact ⟨.error (.nullPointer op), fun _ _ => rfl⟩
    | _ => exact ⟨.error (.operand (.notTwoArguments op)), fun _ _ => rfl⟩
  have hconcat : ∃ r : Except MachineError Value, ∀ later : Heap, later.Extends heap →
      concat later [value] = r.map fun result => (later, some result) := by
    cases value with
    | string left =>
      refine ⟨.ok (.string (left ++ heap.text .null)), fun later he => ?_⟩
      have hnull : Value.null.In heap := fun _ h => by cases h
      rw [← Heap.text_extends hc he hnull]
      rfl
    | null => exact ⟨.error (.nullPointer "String.plus"), fun _ _ => rfl⟩
    | _ => exact ⟨.error _, fun _ _ => rfl⟩
  have hexact : ∀ op whole fraction, ∃ r : Except MachineError Value,
      ∀ later : Heap, later.Extends heap →
        exact op whole fraction later [value] = r.map fun result => (later, some result) :=
    fun op whole fraction => hpair op _
  simp only [standard, List.mem_cons, List.not_mem_nil, or_false] at hentry
  rcases hentry with rfl | rfl | rfl | rfl | rfl | rfl | rfl
  · exact subscript_reads hv
  · exact hconcat
  · exact hpair "power" _
  · exact hpair "div" _
  · exact hexact "multiply" _ _
  · exact hexact "minus" _ _
  · exact hexact "plus" _ _

end Helper

namespace Machine

/-! ## Calls without arguments -/

/-- The methods of lists and iterators that make or change objects. -/
def changing : List String := ["iterator", "next", "add"]

/-- A method that changes nothing gives the same in every heap. -/
private theorem callObject_reads {name : String} (hname : name ∉ changing) (place : Nat)
    (object : HeapObject) : ∃ r : Option (Except MachineError Value), ∀ later : Heap,
      callObject later place object name [] = r.map fun r => r.map fun result => (later, result) := by
  simp only [changing, List.mem_cons, List.not_mem_nil, or_false, not_or] at hname
  cases object with
  | list items =>
    show ∃ r, ∀ later, callList later place items name [] = _
    unfold callList
    split
    · exact ⟨some (.ok _), fun _ => rfl⟩
    · exact ⟨some (.ok _), fun _ => rfl⟩
    · exact ⟨some (.error (.operand (.argumentNotNumber 0))), fun _ => rfl⟩
    · exact absurd rfl hname.1
    · exact absurd rfl hname.2.2
    · exact ⟨none, fun _ => rfl⟩
  | map entries =>
    show ∃ r, ∀ later, callMap later entries name [] = _
    unfold callMap
    split
    · exact ⟨some (.ok _), fun _ => rfl⟩
    · exact ⟨some (.ok _), fun _ => rfl⟩
    · exact ⟨some (.ok _), fun _ => rfl⟩
    · exact ⟨none, fun _ => rfl⟩
  | iterator items position =>
    show ∃ r, ∀ later, callIterator later place items position name = _
    unfold callIterator
    split
    · exact ⟨some (.ok _), fun _ => rfl⟩
    · exact absurd rfl hname.2.1
    · exact ⟨none, fun _ => rfl⟩
  | array items =>
    by_cases hsize : name = "size"
    · refine ⟨some (.ok (.ofSize items.length)), fun later => ?_⟩
      show (if name = "size" then _ else _) = _
      rw [if_pos hsize]
      rfl
    · refine ⟨none, fun later => ?_⟩
      show (if name = "size" then _ else _) = _
      rw [if_neg hsize]
      rfl
  | «instance» cls fields =>
    show ∃ r, ∀ later, callInstance later (.instance cls fields) name [] = _
    unfold callInstance
    split
    · exact ⟨some (.error (.operand .propertyNameNotString)), fun _ => rfl⟩
    · refine ⟨((HeapObject.instance cls fields).field? ((Text.propertyOf? name).getD name) <|>
        (HeapObject.instance cls fields).field? name).map .ok, fun later => ?_⟩
      rw [Option.map_map]
      rfl

/-- A call without arguments that changes nothing gives the same in later heaps. -/
private theorem callOn_reads {member : MemberRef} (hname : member.name ∉ changing)
    (hc : heap.Closed) (hv : value.In heap) : ∃ r : Except MachineError Value,
      ∀ later : Heap, later.Extends heap →
        callOn later member value [] = r.map fun result => (later, result) := by
  unfold callOn
  by_cases hnull : value.isNull = true
  · exact ⟨.error _, fun _ _ => by simp only [hnull, if_true]; rfl⟩
  · by_cases hclass : member.name = "getClass"
    · refine ⟨.ok (.cls (heap.classOf value)), fun later he => ?_⟩
      rw [if_neg hnull, if_pos hclass, Heap.classOf_extends he hv]
      rfl
    · by_cases htext : member.name = "toString"
      · refine ⟨.ok (.string (heap.text value)), fun later he => ?_⟩
        rw [if_neg hnull, if_neg hclass, if_pos htext, Heap.text_extends hc he hv]
        rfl
      · simp only [if_neg hnull, if_neg hclass, if_neg htext]
        cases value with
        | boxed b =>
          simp only
          cases b.unbox member.name with
          | some result => exact ⟨.ok result, fun _ _ => rfl⟩
          | none => exact ⟨.error _, fun _ _ => rfl⟩
        | ref place =>
          cases ho : heap[place]? with
          | none =>
            refine ⟨.error (.operand (.dangling place)), fun later he => ?_⟩
            simp only [he.objects place (hv place rfl), ho]
            rfl
          | some object =>
            obtain ⟨r, hr⟩ := callObject_reads hname place object
            refine ⟨r.getD (.error (.noSuchMethod (member.owner ++ "." ++ member.name ++
              member.descriptor))), fun later he => ?_⟩
            simp only [he.objects place (hv place rfl), ho, hr]
            cases r <;> rfl
        | null => exact absurd rfl hnull
        | _ =>
          simp only
          generalize callValue _ member.name = found
          cases found with
          | some result => exact ⟨.ok result, fun _ _ => rfl⟩
          | none => exact ⟨.error _, fun _ _ => rfl⟩

/-- Calls on an object are neither constructors nor static. -/
theorem not_special_static {dispatch : Dispatch}
    (hd : dispatch = .dynamic ∨ dispatch = .interface) (member : MemberRef) :
    ¬ (dispatch = .special ∧ member.name = "<init>") ∧ dispatch ≠ .static := by
  constructor
  · rintro ⟨rfl, -⟩
    rcases hd with hd | hd <;> cases hd
  · rintro rfl
    rcases hd with hd | hd <;> cases hd

/-- The call of a method that no function of the host stands for, with the arguments on top of the
object. -/
theorem straight_invoke {m : Machine} {dispatch : Dispatch} {member : MemberRef}
    (hfunction : m.functions.lookup (member.owner, member.name) = none)
    (hd : dispatch = .dynamic ∨ dispatch = .interface) (receiver : Value) (args : List Value)
    (hcount : Descriptor.argCount member.descriptor = args.length) {is : List Instruction}
    {locals : Locals} {below : List Value} {position : Nat} :
    m.straight (.invoke dispatch member :: is) heap
        ⟨locals, args.reverse ++ receiver :: below, position⟩ =
      callOn heap member receiver args >>= fun next =>
        m.straight is next.1 ⟨locals, callResults member (some next.2) ++ below, position + 1⟩ := by
  obtain ⟨hspecial, hstatic⟩ := not_special_static hd member
  have htakes : (Instruction.invoke dispatch member).takes = (receiver :: args).length := by
    show Descriptor.argCount member.descriptor + _ = _
    rw [hcount, List.length_cons, if_neg hstatic]
  have hstack : args.reverse ++ receiver :: below = (receiver :: args).reverse ++ below := by
    rw [List.reverse_cons, List.append_assoc]
    rfl
  rw [straight, hstack, execute_operands m [] heap locals (receiver :: args) htakes]
  unfold invoke
  simp only [if_neg hspecial, if_neg hstatic, hfunction]
  cases callOn heap member receiver args <;> rfl

/-- A helper that is found is among the helpers. -/
private theorem standard_of_lookup {options : Options} {owner name : String}
    {function : HostFunction}
    (h : (Helper.standard options).lookup (owner, name) = some function) :
    ((owner, name), function) ∈ Helper.standard options := by
  obtain ⟨before, after, he, -⟩ := List.lookup_eq_some_iff.mp h
  rw [he]
  exact List.mem_append_right _ List.mem_cons_self

/-- The call of a method of an object that changes nothing, without arguments. -/
private theorem invoke_reads {m : Machine} {options : Options}
    (hm : m.functions = Helper.standard options) {dispatch : Dispatch} {member : MemberRef}
    (hd : dispatch = .dynamic ∨ dispatch = .interface) (hname : member.name ∉ changing)
    (hc : heap.Closed) (hv : value.In heap) : ∃ r : Except MachineError Value,
      ∀ later : Heap, later.Extends heap →
        m.invoke later dispatch member [value] = r.map fun result => (later, some result) := by
  obtain ⟨hspecial, hstatic⟩ := not_special_static hd member
  unfold invoke
  simp only [if_neg hspecial, hm]
  cases hl : (Helper.standard options).lookup (member.owner, member.name) with
  | some function =>
    exact Helper.standard_reads options (standard_of_lookup hl) hc hv
  | none =>
    obtain ⟨r, hr⟩ := callOn_reads hname hc hv
    refine ⟨r, fun later he => ?_⟩
    simp only [if_neg hstatic, hr later he]
    cases r <;> rfl

/-! ## Instructions -/

/-- In every later heap the instructions put the outcome `r` in place of `value`, whatever else
there is, and change nothing. -/
def Reads (m : Machine) (heap : Heap) (value : Value) (is : List Instruction)
    (r : Except MachineError Value) : Prop :=
  ∀ later : Heap, later.Extends heap → ∀ (locals : Locals) (below : List Value) (position : Nat),
    m.straight is later ⟨locals, value :: below, position⟩ =
      r.map fun result => (later, ⟨locals, result :: below, position + is.length⟩)

namespace Reads

variable {m : Machine}

theorem nil : m.Reads heap value [] (.ok value) := fun _ _ _ _ _ => rfl

/-- There is one outcome. -/
theorem unique {is : List Instruction} {r r' : Except MachineError Value}
    (h : m.Reads heap value is r) (h' : m.Reads heap value is r') : r = r' := by
  have he := (h heap (.refl heap) (.ofValues []) [] 0).symm.trans
    (h' heap (.refl heap) (.ofValues []) [] 0)
  cases r <;> cases r' <;> cases he <;> rfl

theorem append {is js : List Instruction} {r : Except MachineError Value}
    {next : Value → Except MachineError Value} (h : m.Reads heap value is r)
    (h' : ∀ result, r = .ok result → m.Reads heap result js (next result)) :
    m.Reads heap value (is ++ js) (r >>= next) := by
  intro later he locals below position
  rw [straight_append, h later he]
  cases r with
  | error e => rfl
  | ok result =>
    show m.straight js later ⟨locals, result :: below, position + is.length⟩ = _
    rw [h' result rfl later he, List.length_append, Nat.add_assoc]
    rfl

/-- An instruction by itself. -/
private theorem one {i : Instruction} {r : Except MachineError Value}
    (h : ∀ later : Heap, later.Extends heap → ∀ locals below position,
      m.execute [] later ⟨locals, value :: below, position⟩ i =
        r.map fun result => (later, ⟨locals, result :: below, position + 1⟩)) :
    m.Reads heap value [i] r := by
  intro later he locals below position
  unfold straight
  rw [h later he]
  cases r <;> rfl

/-- A cast gives the value itself or fails. -/
theorem checkCast (hc : heap.Closed) (hv : value.In heap) (target : String) :
    m.Reads heap value [.checkCast target]
      (if heap.instanceOf m.table value target then .ok value
        else .error (.classCast (heap.text value) target)) := by
  refine one fun later he locals below position => ?_
  rw [← Heap.instanceOf_extends he m.table hv, ← Heap.text_extends hc he hv]
  simp only [execute]
  split <;> rfl

/-- A field is read from the object itself. -/
theorem getField (hv : value.In heap) (member : MemberRef) :
    ∃ r, m.Reads heap value [.getField member] r := by
  refine ⟨heap.deref value ("getfield " ++ member.owner ++ "." ++ member.name) >>= fun object =>
    ((object.field? member.name).map .ok).getD
      (.error (.noSuchField (member.owner ++ "." ++ member.name))),
    one fun later he locals below position => ?_⟩
  simp only [execute, Heap.deref_extends he hv]
  cases heap.deref value ("getfield " ++ member.owner ++ "." ++ member.name) with
  | error e => rfl
  | ok object =>
    simp only [bind, Except.bind]
    cases object.field? member.name <;> rfl

/-- A method without arguments that changes nothing. -/
theorem call {options : Options} (hm : m.functions = Helper.standard options)
    {dispatch : Dispatch} {member : MemberRef} (hd : dispatch = .dynamic ∨ dispatch = .interface)
    (hname : member.name ∉ changing) (hcount : Descriptor.argCount member.descriptor = 0)
    (hvoid : Descriptor.returnsVoid member.descriptor = false) (hc : heap.Closed)
    (hv : value.In heap) : ∃ r, m.Reads heap value [.invoke dispatch member] r := by
  obtain ⟨r, hr⟩ := invoke_reads hm hd hname hc hv
  have htakes : (Instruction.invoke dispatch member).takes = 1 := by
    show _ + _ = 1
    rw [hcount]
    rcases hd with rfl | rfl <;> rfl
  refine ⟨r, one fun later he locals below position => ?_⟩
  show m.execute [] later ⟨locals, [value].reverse ++ below, position⟩ _ = _
  rw [execute_operands m [] later locals [value] htakes below position, hr later he]
  cases r with
  | error e => rfl
  | ok result =>
    simp only [Except.map, callResults, hvoid]
    rfl

/-- The method that makes a wrapper of a primitive value. -/
theorem valueOf {options : Options} (hm : m.functions = Helper.standard options) {owner : String}
    {descriptor : String} (hcount : Descriptor.argCount descriptor = 1)
    (hvoid : Descriptor.returnsVoid descriptor = false) {b : Boxed}
    (hb : boxAs owner value = some b) :
    m.Reads heap value [.invoke .static ⟨owner, "valueOf", descriptor⟩] (.ok (.boxed b)) := by
  have htakes : (Instruction.invoke .static ⟨owner, "valueOf", descriptor⟩).takes = 1 := by
    show _ + 0 = 1
    rw [hcount]
  have hlookup : m.functions.lookup (owner, "valueOf") = none := by
    rw [hm]
    exact Helper.lookup_standard options owner (by decide)
  have hcall : ∀ later : Heap, m.invoke later .static ⟨owner, "valueOf", descriptor⟩ [value] =
      .ok (later, some (.boxed b)) := by
    intro later
    unfold invoke callStatic
    simp only [hlookup, List.head?_cons, Option.bind_some, hb, if_true]
    rfl
  refine one fun later he locals below position => ?_
  show m.execute [] later ⟨locals, [value].reverse ++ below, position⟩ _ = _
  rw [execute_operands m [] later locals [value] htakes below position, hcall later]
  simp only [Except.map, callResults, hvoid]
  rfl

end Reads

/-! ## Instances -/

/-- The value stands in a field of the object, or is its class. -/
def Shows (object : HeapObject) (value : Value) : Prop :=
  (∃ name, object.field? name = some value) ∨ value = .cls object.className

section Instance

variable {m : Machine} {place : Nat} {cls : String} {fields : List (String × Value)}
  {member : MemberRef} {result : Value}

/-- Helpers find nothing in an instance. -/
private theorem standard_refuses (options : Options) {entry : (String × String) × HostFunction}
    (hentry : entry ∈ Helper.standard options) (ho : heap[place]? = some (.instance cls fields)) :
    ∃ e, entry.2 heap [.ref place] = .error e := by
  simp only [Helper.standard, List.mem_cons, List.not_mem_nil, or_false] at hentry
  rcases hentry with rfl | rfl | rfl | rfl | rfl | rfl | rfl
  · refine ⟨.noSuchMethod ("getAt on " ++ cls), ?_⟩
    show heap.deref (.ref place) "getAt" >>= Helper.subscriptOf heap [.ref place] = _
    simp only [Heap.deref, ho]
    rfl
  all_goals exact ⟨_, rfl⟩

/-- The value that was found for a method, if there is one. -/
def orNoSuchMethod (member : MemberRef) : Option Value → Except MachineError Value
  | some value => .ok value
  | none => .error (.noSuchMethod (member.owner ++ "." ++ member.name ++ member.descriptor))

/-- What a method that takes nothing gives of an instance: the field its name tells, or else the
field it is named like. -/
def shown (fields : List (String × Value)) (member : MemberRef) : Except MachineError Value :=
  orNoSuchMethod member <|
    fields.lookup ((Text.propertyOf? member.name).getD member.name) <|> fields.lookup member.name

theorem callOn_shown (ho : heap[place]? = some (.instance cls fields))
    (hclass : member.name ≠ "getClass") (hlookup : member.name ≠ "getProperty")
    (htext : member.name ≠ "toString") :
    callOn heap member (.ref place) [] = (shown fields member).map fun value => (heap, value) := by
  unfold callOn shown orNoSuchMethod
  simp only [hclass, htext, if_false, Value.isNull, Bool.false_eq_true, ho]
  unfold callObject callInstance
  simp only [hlookup, if_false, List.isEmpty_nil, if_true, HeapObject.field?]
  cases fields.lookup _ <|> fields.lookup member.name <;> rfl

/-- Every instance is asked for its class. -/
theorem callOn_getClass (ho : heap[place]? = some (.instance cls fields))
    (hname : member.name = "getClass") :
    callOn heap member (.ref place) [] = .ok (heap, .cls cls) := by
  unfold callOn
  simp only [hname, if_true, Value.isNull, Bool.false_eq_true, if_false, Heap.classOf, ho]
  rfl

/-- The look-up of a property by its name wants the name. -/
theorem callOn_getProperty (ho : heap[place]? = some (.instance cls fields))
    (hname : member.name = "getProperty") :
    callOn heap member (.ref place) [] = .error (.operand .propertyNameNotString) := by
  have hclass : member.name ≠ "getClass" := by rw [hname]; decide
  have htext : member.name ≠ "toString" := by rw [hname]; decide
  unfold callOn
  simp only [hclass, htext, if_false, Value.isNull, Bool.false_eq_true, ho]
  unfold callObject callInstance
  simp only [hname, if_true]
  rfl

/-- A method without arguments gives a field of the instance, or its class. -/
private theorem callOn_shows {later : Heap} (htext : member.name ≠ "toString")
    (ho : heap[place]? = some (.instance cls fields))
    (h : callOn heap member (.ref place) [] = .ok (later, result)) :
    Shows (.instance cls fields) result := by
  by_cases hclass : member.name = "getClass"
  · cases (callOn_getClass ho hclass).symm.trans h
    exact Or.inr rfl
  by_cases hlookup : member.name = "getProperty"
  · cases (callOn_getProperty ho hlookup).symm.trans h
  rw [callOn_shown ho hclass hlookup htext] at h
  unfold shown at h
  generalize hfound : (fields.lookup _ <|> fields.lookup _) = found at h
  cases found with
  | none => cases h
  | some value =>
    cases h
    simp only [Option.orElse_eq_orElse, Option.orElse_eq_or, Option.or_eq_some_iff] at hfound
    rcases hfound with hf | ⟨-, hf⟩
    · exact Or.inl ⟨_, hf⟩
    · exact Or.inl ⟨_, hf⟩

private theorem invoke_shows {options : Options} (hm : m.functions = Helper.standard options)
    {dispatch : Dispatch} (hd : dispatch = .dynamic ∨ dispatch = .interface)
    (htext : member.name ≠ "toString") (ho : heap[place]? = some (.instance cls fields))
    {later : Heap} {found : Option Value}
    (h : m.invoke heap dispatch member [.ref place] = .ok (later, found)) :
    Shows (.instance cls fields) (found.getD .null) := by
  obtain ⟨hspecial, hstatic⟩ := not_special_static hd member
  unfold invoke at h
  simp only [if_neg hspecial, if_neg hstatic, hm] at h
  cases hl : (Helper.standard options).lookup (member.owner, member.name) with
  | some function =>
    obtain ⟨e, herror⟩ := standard_refuses options (standard_of_lookup hl) ho
    rw [hl] at h
    cases herror.symm.trans h
  | none =>
    simp only [hl] at h
    cases hcall : callOn heap member (.ref place) [] with
    | error e =>
      rw [hcall] at h
      cases h
    | ok next =>
      rw [hcall] at h
      cases h
      exact callOn_shows htext ho hcall

/-- What reads a field finds a field. -/
theorem Reads.getField_shows {object : HeapObject} (ho : heap[place]? = some object)
    (h : m.Reads heap (.ref place) [.getField member] (.ok result)) : Shows object result := by
  have hstep := h heap (.refl heap) (.ofValues []) [] 0
  unfold straight at hstep
  simp only [execute, Heap.deref, ho, bind, Except.bind] at hstep
  cases hf : object.field? member.name with
  | none =>
    rw [hf] at hstep
    cases hstep
  | some value =>
    rw [hf] at hstep
    cases hstep
    exact Or.inl ⟨_, hf⟩

/-- What calls a getter of an instance finds a field of it, or its class. -/
theorem Reads.call_shows {options : Options} (hm : m.functions = Helper.standard options)
    {dispatch : Dispatch} (hd : dispatch = .dynamic ∨ dispatch = .interface)
    (htext : member.name ≠ "toString") (hcount : Descriptor.argCount member.descriptor = 0)
    (hvoid : Descriptor.returnsVoid member.descriptor = false)
    (ho : heap[place]? = some (.instance cls fields))
    (h : m.Reads heap (.ref place) [.invoke dispatch member] (.ok result)) :
    Shows (.instance cls fields) result := by
  have htakes : (Instruction.invoke dispatch member).takes = [Value.ref place].length := by
    show _ + _ = 1
    rw [hcount]
    rcases hd with rfl | rfl <;> rfl
  have hstep := h heap (.refl heap) (.ofValues []) [] 0
  have hexecute := execute_operands m [] heap (.ofValues []) [.ref place] htakes [] 0
  rw [List.reverse_singleton, List.singleton_append] at hexecute
  unfold straight at hstep
  cases hcall : m.invoke heap dispatch member [.ref place] with
  | error e =>
    rw [hexecute, hcall] at hstep
    cases hstep
  | ok next =>
    have hshows := invoke_shows hm hd htext ho hcall
    rw [hexecute, hcall] at hstep
    simp only [Except.map, callResults, hvoid] at hstep
    cases hstep
    exact hshows

end Instance

end Machine

end CallSite
