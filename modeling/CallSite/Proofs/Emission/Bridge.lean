import CallSite.Proofs.Emission.Casting
import CallSite.Proofs.Emission.Operands
import CallSite.Proofs.Machine.Accessor
import CallSite.Proofs.Selection.Order

/-!
# Private fields read by accessors

Code of another class reads a private field by its accessor where code of the field's class reads
the field itself. Both are two instructions: the load of the object and one that reads from it. They
come to the same on every receiver but null.
-/

namespace CallSite

/-- The setting in code of the class `c`. -/
def Setting.inside (s : Setting) (c : ClassId) : Setting := { s with enclosing := c }

namespace Emit

variable {s : Setting} {c : ClassId} {args : List Ty} {slot : UInt16} {note : Note}
  {accessor : Method}

/-- An accessor is given the object as its one argument. -/
private theorem returns_call_accessor {d : Draft}
    (hn : (Expr.localVar slot note).typeIn s.enclosing = .object c args)
    (hsize : 0 < s.table.size) (hstatic : accessor.isStatic = true)
    (howner : accessor.owner ≠ .extensions) (hparams : accessor.params = [.ofClass c])
    (hreturns : accessor.returns ≠ .void) :
    Returns (call s (loadLocal s slot note) accessor [discard (loadLocal s slot note)] false) d
      accessor.returns { d with
        code := d.code ++ [.load .reference slot, invocation s accessor]
        stack := accessor.returns :: d.stack } := by
  have hextension : isExtension accessor = false := beq_eq_false_iff_ne.mpr howner
  have htakes : accessor.takesReceiver = false := by
    unfold Method.takesReceiver
    rw [hextension, hstatic]
    rfl
  have htypes : argumentTypes accessor = [.ofClass c] := by
    unfold argumentTypes
    rw [hextension, hparams]
    rfl
  let mid : Draft := { d with
    code := d.code ++ [.load .reference slot]
    stack := .object c args :: d.stack }
  have hload : Returns (loadLocal s slot note) d (.object c args) mid := by
    rw [returns_loadLocal]
    exact ⟨hn.symm, rfl⟩
  have hcoerce : Returns (coerce s (.ofClass c)) mid () mid :=
    (returns_coerce_reference rfl rfl rfl).mpr
      (returns_castTo_assignable rfl (ClassTable.assignable_self hsize ..))
  refine (returns_call_static htakes).mpr ⟨mid, ?_, ?_, ?_⟩
  · rw [htypes]
    exact returns_bind.mpr ⟨(), mid, returns_discard.mpr ⟨_, hload⟩,
      returns_bind.mpr ⟨(), mid, hcoerce, returns_pure.mpr ⟨rfl, rfl⟩⟩⟩
  · have hdrop : mid.stack.length - d.stack.length = 1 := by
      show d.stack.length + 1 - d.stack.length = 1
      omega
    unfold Draft.called
    rw [hdrop, if_neg hreturns]
    simp only [mid, List.append_assoc]
    rfl
  · rfl

/-- The site reads a private field of an object of class `c`, held in a slot, by the accessor that
the class has for it. The accessors of the class have different names, and this one takes the object
and is not called as the wrappers' `valueOf` is. -/
structure ReadsByAccessor (s : Setting) (site : Site) (slot : UInt16) (note : Note) (c : ClassId)
    (args : List Ty) (accessor : Method) : Prop where
  receiver : site.receiver = .localVar slot note
  held : (Expr.localVar slot note).typeIn s.enclosing = .object c args
  notClass : (Query.ofSite site s.enclosing).classReceiver = false
  notHolder : c ≠ .extensions
  bound : s.binding site = .bridge accessor false
  params : accessor.params = [.ofClass c]
  returns : accessor.returns ≠ .void
  distinct : ((s.table.info c).bridges.map fun b => b.accessor.name).Nodup
  name : accessor.name ≠ "valueOf"

/-- The member that a call of an accessor of class `c` names. -/
def accessorRef (s : Setting) (c : ClassId) (accessor : Method) : MemberRef :=
  ⟨s.table.internalName c, accessor.name, s.table.methodDescriptor [.ofClass c] accessor.returns⟩

namespace ReadsByAccessor

variable {site : Site}

/-- The class declares the field and lists the accessor, and owns both. -/
theorem declared (h : ReadsByAccessor s site slot note c args accessor) (ht : s.table.Built) :
    ∃ field, s.table.field? c site.member = some field ∧ field.isStatic = false ∧
      field.owner = c ∧ field.name = site.member ∧
      accessor.owner = c ∧ accessor.isStatic = true ∧
      ∃ b ∈ (s.table.info c).bridges, b.field = site.member ∧ b.accessor = accessor := by
  have howned := ht.owned.classes c
  obtain ⟨c', field, hreceiver, hfield, hbridge, hstatic⟩ :=
    ClassTable.select_bridge_inv (q := Query.ofSite site s.enclosing) h.bound
  rw [Query.receiver_of_not_class (h.receiver ▸ h.held) h.notClass] at hreceiver
  obtain rfl : c = c' := Option.some.inj hreceiver
  obtain ⟨b, hb, rfl⟩ := Option.map_eq_some_iff.mp hbridge
  have hlisted := List.mem_of_find?_eq_some hb
  have hmatch := List.find?_some hb
  have hfieldMatch := List.find?_some hfield
  exact ⟨field, hfield, hstatic, howned.fields field (List.mem_of_find?_eq_some hfield),
    beq_iff_eq.mp hfieldMatch, (howned.bridges b hlisted).1, (howned.bridges b hlisted).2, b,
    hlisted, beq_iff_eq.mp hmatch, rfl⟩

/-- Code of the class itself reads the field. -/
theorem binding_inside (h : ReadsByAccessor s site slot note c args accessor)
    (ht : s.table.Built) {field : Field} (hfield : s.table.field? c site.member = some field) :
    (s.inside c).binding site = .field field := by
  have hquery : Query.ofSite site c = { Query.ofSite site s.enclosing with enclosing := c } := by
    unfold Query.ofSite
    rw [h.receiver]
    rfl
  have hreceiver : (Query.ofSite site s.enclosing).receiver.class? = some c := by
    rw [Query.receiver_of_not_class (h.receiver ▸ h.held) h.notClass]
    rfl
  show ((Query.ofSite site c).select s.table).2 = _
  rw [hquery]
  exact ClassTable.select_field_of_bridge ht.owned ht.size_pos h.bound hreceiver hfield

theorem invocation_eq (h : ReadsByAccessor s site slot note c args accessor)
    (ht : s.table.Built) : invocation s accessor = .invoke .static (accessorRef s c accessor) := by
  obtain ⟨-, -, -, -, -, howner, hstatic, -⟩ := h.declared ht
  have hextension : isExtension accessor = false :=
    beq_eq_false_iff_ne.mpr (howner ▸ h.notHolder)
  unfold invocation
  rw [hextension, hstatic, howner, h.params]
  rfl

/-- The access by the accessor is written as the load of the object and the call. -/
theorem written (h : ReadsByAccessor s site slot note c args accessor) (ht : s.table.Built)
    (maxLocals : UInt16) :
    Returns (propertySite s site) (.empty maxLocals) accessor.returns { Draft.empty maxLocals with
      code := [.load .reference slot, .invoke .static (accessorRef s c accessor)]
      stack := [accessor.returns] } := by
  obtain ⟨-, -, -, -, -, howner, hstatic, -⟩ := h.declared ht
  show Returns (access s site (expr s site.receiver) _) _ _ _
  rw [returns_access_of_ne (by rw [h.bound]; nofun), h.bound, h.receiver, ← h.invocation_eq ht]
  exact ⟨returns_call_accessor h.held ht.size_pos hstatic (howner ▸ h.notHolder) h.params h.returns,
    rfl⟩

/-- In code of the class it is written as the load of the object and the field read. -/
theorem written_inside (h : ReadsByAccessor s site slot note c args accessor)
    (ht : s.table.Built) {field : Field} (hfield : s.table.field? c site.member = some field)
    (maxLocals : UInt16) :
    Returns (propertySite (s.inside c) site) (.empty maxLocals) field.type {
      Draft.empty maxLocals with
      code := [.load .reference slot, .getField (fieldRef s field)]
      stack := [field.type] } := by
  obtain ⟨field', hfield', hstatic, howner, -⟩ := h.declared ht
  obtain rfl : field = field' := Option.some.inj (hfield.symm.trans hfield')
  have hinside := h.binding_inside ht hfield
  have hload : Returns (loadLocal (s.inside c) slot note) (.empty maxLocals) (.object c args) {
      Draft.empty maxLocals with
      code := [.load .reference slot]
      stack := [.object c args] } := by
    rw [returns_loadLocal]
    exact ⟨h.held.symm, rfl⟩
  have hassignable : s.table.assignable (.object c args) (.ofClass field.owner) = true :=
    howner ▸ ClassTable.assignable_self ht.size_pos ..
  show Returns (access (s.inside c) site (expr (s.inside c) site.receiver) _) _ _ _
  rw [returns_access_of_ne (by rw [hinside]; nofun), hinside, h.receiver]
  exact ⟨returns_readField_assignable hstatic hload rfl hassignable, rfl⟩

/-- The machine finds out which field the accessor reads. -/
theorem bridgedField?_eq (h : ReadsByAccessor s site slot note c args accessor)
    (ht : s.table.Constructed) (hqualified : s.table.NamesQualified) {m : Machine}
    (hm : m.table = s.table) : m.bridgedField? (accessorRef s c accessor) = some site.member := by
  obtain ⟨_, hfield, -, -, -, -, -, b, hb, hmember, haccessor⟩ := h.declared ht.built
  have hlookup : m.table.lookup (qualifiedOf (accessorRef s c accessor).owner) = some c := by
    rw [hm]
    exact hqualified.lookup_internalName ht
      (ClassTable.index_lt_of_mem ClassInfo.fields rfl (List.mem_of_find?_eq_some hfield))
  rw [← hmember]
  rw [← hm] at hb
  exact Machine.bridgedField?_of_nodup hlookup (by rw [hm]; exact h.distinct) hb
    (congrArg Method.name haccessor)

end ReadsByAccessor

/-- Where code of another class reads a private field of an object through the accessor made for
it, code of the object's class reads the field itself. Whatever the object's slot holds, if it is
not null, both give the same value or fail with errors of the same kind, however many steps they
are given. For null the field read fails, but the accessor gives the static field of that name. -/
theorem bridge_reads_field {site : Site} (h : ReadsByAccessor s site slot note c args accessor)
    (ht : s.table.Constructed) (hqualified : s.table.NamesQualified) (hplain : s.table.NamesPlain)
    (maxLocals : UInt16) :
    let owner := s.table.internalName c
    ∃ field bridged direct, s.table.field? c site.member = some field ∧
      (s.inside c).binding site = .field field ∧
      Returns (propertySite s site) (.empty maxLocals) accessor.returns bridged ∧
      Returns (propertySite (s.inside c) site) (.empty maxLocals) field.type direct ∧
      ∀ (m : Machine) (locals : List Value), m.table = s.table →
        m.functions.lookup (owner, accessor.name) = none →
        let byAccessor := (m.run bridged.code locals).2
        let byField := (m.run direct.code locals).2
        ((Locals.ofValues locals).get? slot ≠ some .null →
          byAccessor.mapError MachineError.kind = byField.mapError MachineError.kind) ∧
        ((Locals.ofValues locals).get? slot = some .null → 2 ≤ m.stepLimit →
          byField = .error (.nullPointer ("getfield " ++ owner ++ "." ++ site.member)) ∧
          byAccessor = match m.static? owner site.member with
            | some value => .ok value
            | none => .error (.noSuchField (owner ++ "." ++ site.member))) := by
  intro owner
  obtain ⟨field, hfield, -, hfieldOwner, hfieldName, -⟩ := h.declared ht.built
  refine ⟨field, _, _, hfield, h.binding_inside ht.built hfield, h.written ht.built maxLocals,
    h.written_inside ht.built hfield maxLocals, fun m locals hm hfunctions => ?_⟩
  have howner : (fieldRef s field).owner = owner := congrArg s.table.internalName hfieldOwner
  have hname : (fieldRef s field).name = site.member := hfieldName
  -- Both runs load the slot, so they are compared by what they make of its value.
  have hbyAccessor :
      (m.run [.load .reference slot, .invoke .static (accessorRef s c accessor)] locals).2 =
        Machine.readSlot m.stepLimit (.ofValues locals) slot fun value =>
          m.readBridged m.heap (accessorRef s c accessor) site.member [value] :=
    Machine.run_load fun code locals value =>
      Machine.execute_accessor hfunctions h.name (h.bridgedField?_eq ht hqualified hm)
        (Descriptor.argCount_methodDescriptor hplain ..)
        (Descriptor.returnsVoid_methodDescriptor _ h.returns) code locals [] 1
  have hbyField : (m.run [.load .reference slot, .getField (fieldRef s field)] locals).2 =
      Machine.readSlot m.stepLimit (.ofValues locals) slot
        (Machine.fieldOf m.heap (fieldRef s field)) :=
    Machine.run_load fun code locals value => Machine.execute_getField _ code locals [] 1
  dsimp only
  rw [hbyAccessor, hbyField]
  refine ⟨fun hnull => Machine.readSlot_mapError fun value hvalue => ?_, fun hnull hlimit => ?_⟩
  · have hne : value ≠ .null := fun heq => hnull (heq ▸ hvalue)
    rw [← hname]
    exact Machine.readBridged_of_ne_null howner.symm hne
  · rw [Machine.readSlot_of_le hlimit hnull, Machine.readSlot_of_le hlimit hnull,
      Machine.readBridged_null]
    refine ⟨?_, rfl⟩
    rw [← howner, ← hname]
    rfl

/-- `app.A` has a private field with an accessor, which `app.B` may call. -/
def accessorHistory : List ClassTable.Call :=
  [.declare "app.A" .cls, .declare "app.B" .cls,
    .addField ⟨24⟩ { name := "x", owner := ⟨24⟩, type := .int, visibility := .owner },
    .addBridge ⟨24⟩ "x"
      { name := "pfaccess$0", owner := ⟨24⟩, params := [.ofClass ⟨24⟩], returns := .int },
    .allowBridges ⟨24⟩ ⟨25⟩]

/-- Code of `app.B`. -/
def accessorSetting : Setting where
  table := ClassTable.standard.runAll accessorHistory
  enclosing := ⟨25⟩
  options := .standard

/-- `a.x` for an `app.A` that is held in a slot. -/
def accessorSite : Site where
  member := "x"
  span := .none
  receiver := .localVar 1 { type := .ofClass ⟨24⟩ }

theorem bridge_reads_field_instance :
    let s := accessorSetting
    let accessor : Method :=
      { name := "pfaccess$0", owner := ⟨24⟩, params := [.ofClass ⟨24⟩], returns := .int
        isStatic := true, synthetic := true }
    let m := { Machine.new s.table s.options with heap := #[.instance "app/A" [("x", .int 42)]] }
    ReadsByAccessor s accessorSite 1 { type := .ofClass ⟨24⟩ } ⟨24⟩ [] accessor ∧
      s.table.Constructed ∧ s.table.NamesQualified ∧ s.table.NamesPlain ∧
      ∃ bridged direct, Returns (propertySite s accessorSite) (.empty 2) .int bridged ∧
        Returns (propertySite (s.inside ⟨24⟩) accessorSite) (.empty 2) .int direct ∧
        (m.run bridged.code [.null, .ref 0]).2.mapError MachineError.kind =
          (m.run direct.code [.null, .ref 0]).2.mapError MachineError.kind := by
  intro s accessor m
  have h : ReadsByAccessor s accessorSite 1 { type := .ofClass ⟨24⟩ } ⟨24⟩ [] accessor := by
    refine ⟨rfl, ?_, ?_, ?_, ?_, ?_, ?_, ?_, ?_⟩ <;> decide
  have ht : s.table.Constructed := ⟨accessorHistory, by decide, rfl⟩
  have hqualified : s.table.NamesQualified := by decide
  have hplain : s.table.NamesPlain := by decide
  obtain ⟨field, bridged, direct, hfield, -, hbridged, hdirect, hrun⟩ :=
    bridge_reads_field h ht hqualified hplain 2
  have hx : s.table.field? ⟨24⟩ "x" =
      some { name := "x", owner := ⟨24⟩, type := .int, visibility := .owner } := by decide
  obtain rfl := Option.some.inj (hx.symm.trans hfield)
  exact ⟨h, ht, hqualified, hplain, bridged, direct, hbridged, hdirect,
    (hrun m [.null, .ref 0] rfl (by decide)).1 nofun⟩

/-- Where the slot holds null, the accessor looks for a static field. -/
theorem bridge_reads_static_for_null :
    let m := Machine.new accessorSetting.table accessorSetting.options
    let bridged : List Instruction :=
      [.load .reference 1, .invoke .static ⟨"app/A", "pfaccess$0", "(Lapp/A;)I"⟩]
    let direct : List Instruction := [.load .reference 1, .getField ⟨"app/A", "x", "I"⟩]
    (propertySite accessorSetting accessorSite (.empty 2)).2.code = bridged ∧
      (propertySite (accessorSetting.inside ⟨24⟩) accessorSite (.empty 2)).2.code = direct ∧
      (m.run bridged [.null, .null]).2 = .error (.noSuchField "app/A.x") ∧
      (m.run direct [.null, .null]).2 = .error (.nullPointer "getfield app/A.x") ∧
      (m.run bridged [.null, .null]).2.mapError MachineError.kind ≠
        (m.run direct [.null, .null]).2.mapError MachineError.kind := by
  intro m bridged direct
  have hbridged : (m.run bridged [.null, .null]).2 = .error (.noSuchField "app/A.x") := rfl
  have hdirect : (m.run direct [.null, .null]).2 = .error (.nullPointer "getfield app/A.x") := rfl
  refine ⟨rfl, rfl, hbridged, hdirect, ?_⟩
  rw [hbridged, hdirect]
  exact fun h => absurd (Except.error.inj h) (by decide)

end Emit

end CallSite
