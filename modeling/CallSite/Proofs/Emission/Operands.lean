import CallSite.Proofs.ClassTable.Subtyping
import CallSite.Proofs.Emission.Fragment
import CallSite.Proofs.Emission.OperandStack
import CallSite.Proofs.Selection.Source

/-!
# Operands of operators

An operator that is no call is one instruction on two operands. It is chosen by the types that the
checker has for the operands, but works on those that the operands' own code leaves. Arithmetic
converts what it finds; the other operators only box it, so that they are given operands they cannot
take where the two differ.
-/

namespace CallSite

namespace ClassTable

variable {t : ClassTable} {ty target : Ty}

/-- The type of an operand of type `ty` after a cast to `target`. -/
def castType (t : ClassTable) (ty target : Ty) : Ty := if t.assignable ty target then ty else target

theorem assignable_castType (h : t.assignable target target = true) :
    t.assignable (t.castType ty target) target = true := by
  unfold castType
  split
  · assumption
  · exact h

/-- The type of an operand of type `ty` after a conversion to `target`. -/
def coercedType (t : ClassTable) : Ty → Ty → Ty
  | .prim _, .prim q => .prim q
  | .prim p, .void => .prim p
  | .prim p, target => t.castType (.ofClass p.wrapper) target
  | .void, _ => .void
  | _, .prim q => .prim q
  | ty, .void => ty
  | ty, target => t.castType ty target

/-- A value that is converted to a class can be used as one; nothing makes a value of none. -/
theorem assignable_coercedType {c : ClassId} {args : List Ty}
    (h : t.assignable (.object c args) (.object c args) = true) :
    t.assignable (t.coercedType ty (.object c args)) (.object c args) = true ↔ ty ≠ .void := by
  cases ty with
  | void => exact ⟨nofun, fun h => absurd rfl h⟩
  | _ => exact ⟨fun _ => nofun, fun _ => assignable_castType h⟩

theorem coercedType_prim {p : Primitive} : t.coercedType ty (.prim p) = .prim p ↔ ty ≠ .void := by
  cases ty with
  | void => exact ⟨nofun, fun h => absurd rfl h⟩
  | _ => exact ⟨fun _ => nofun, fun _ => rfl⟩

end ClassTable

namespace Emit

variable {s : Setting} {d d' : Draft} {ty : Ty} {rest : List Ty}

theorem castTo_stack {target : Ty} {u : Unit} (hs : d.stack = ty :: rest)
    (h : Returns (castTo s target) d u d') : d'.stack = s.table.castType ty target :: rest := by
  unfold castTo at h
  simp only [returns_bind, returns_top?] at h
  obtain ⟨_, _, ⟨rfl, rfl⟩, h⟩ := h
  rw [hs, List.head?_cons, Option.any_some] at h
  unfold ClassTable.castType
  split at h
  · rename_i ha
    rw [if_pos ha, ← (returns_pure.mp h).2, hs]
  · rename_i ha
    obtain ⟨_, _, he, hr⟩ := returns_bind.mp h
    rw [returns_replace, returns_emit.mp he] at hr
    rw [if_neg ha, hr]
    show target :: List.drop 1 _ = _
    rw [hs]
    rfl

theorem boxTop_stack {u : Unit} (hs : d.stack = ty :: rest) (h : Returns (boxTop s) d u d') :
    d'.stack = ty.wrapped :: rest := by
  rcases boxTop_inv h with ⟨rfl, hp⟩ | ⟨p, hp, rfl⟩
  · rw [hs] at hp ⊢
    cases ty with
    | prim p => exact absurd rfl (hp p)
    | _ => rfl
  · rw [hs] at hp
    cases hp
    show Ty.ofClass p.wrapper :: d.stack.drop 1 = _
    rw [hs]
    rfl

theorem unboxTop_stack {p : Primitive} {u : Unit} (hs : d.stack = ty :: rest)
    (h : Returns (unboxTop s p) d u d') : d'.stack = .prim p :: rest := by
  obtain ⟨holder, mid, hc, rfl⟩ := unboxTop_inv h
  show Ty.prim p :: mid.stack.drop 1 = _
  rw [castTo_stack hs hc]
  rfl

theorem convertTop_stack {p q : Primitive} {u : Unit} (hs : d.stack = .prim p :: rest)
    (h : Returns (convertTop p q) d u d') : d'.stack = .prim q :: rest := by
  obtain ⟨is, -, rfl⟩ := convertTop_inv h
  show (if p = q then d.stack else .prim q :: d.stack.drop 1) = _
  rw [hs]
  split
  · rename_i heq
    rw [heq]
  · rfl

theorem coerce_stack {target : Ty} {u : Unit} (hs : d.stack = ty :: rest)
    (h : Returns (coerce s target) d u d') : d'.stack = s.table.coercedType ty target :: rest := by
  have hsame : ∀ {u : Unit}, Returns (pure u : Emit Unit) d u d' → d'.stack = ty :: rest :=
    fun h => (returns_pure.mp h).2 ▸ hs
  have hboxed : ∀ {p}, ty = .prim p → Returns (boxTop s >>= fun _ => castTo s target) d u d' →
      d'.stack = s.table.castType (.ofClass p.wrapper) target :: rest := by
    rintro p rfl h
    obtain ⟨_, mid, hb, hc⟩ := returns_bind.mp h
    exact castTo_stack (boxTop_stack hs hb) hc
  unfold coerce at h
  simp only [returns_bind, returns_top?] at h
  obtain ⟨_, _, ⟨rfl, rfl⟩, h⟩ := h
  rw [hs, List.head?_cons] at h
  cases ty with
  | void => exact hsame h
  | prim p =>
    cases target with
    | void => exact hsame h
    | prim q => exact convertTop_stack hs h
    | _ => exact hboxed rfl h
  | _ =>
    cases target with
    | void => exact hsame h
    | prim q => exact unboxTop_stack hs h
    | _ => exact castTo_stack hs h

end Emit

/-! ## Operators on two operands -/

/-- The types of the parameters of a `power` helper. -/
def PowerHelper.params : PowerHelper → Ty × Ty
  | bigDecimalInteger => (.ofClass .bigDecimal, .ofClass .integer)
  | bigIntegerInteger => (.ofClass .bigInteger, .ofClass .integer)
  | longInteger => (.ofClass .long, .ofClass .integer)
  | integerInteger => (.ofClass .integer, .ofClass .integer)
  | numberNumber => (.ofClass .number, .ofClass .number)

namespace OperatorBinding

/-- The operator is one instruction on its two operands. -/
def isInstruction : OperatorBinding → Bool
  | arithmetic _ | power _ | concat | element _ => true
  | _ => false

/-- The types of the parameters of the helper that the operator calls. -/
def params? : OperatorBinding → Option (Ty × Ty)
  | arithmetic _ => some (.ofClass .number, .ofClass .number)
  | power helper => some helper.params
  | concat => some (.ofClass .string, .ofClass .object)
  | _ => none

def result : OperatorBinding → Ty
  | arithmetic _ | power _ => .ofClass .number
  | concat => .ofClass .string
  | element component => component
  | subscript method | extension method => method.returns
  | mapEntry => mapGetMethod.returns

/-- The instruction of the operator, or the call that stands for it. -/
def instruction (s : Setting) : OperatorBinding → Instruction
  | arithmetic op => .invoke .static
    ⟨s.options.numberHelperPackage ++ "/" ++ op.helper, op.name, numberPairDescriptor⟩
  | power helper => .invoke .static ⟨s.options.extensionOwner, "power", helper.descriptor⟩
  | concat => .invoke .static ⟨s.options.extensionOwner, "plus", Emit.concatDescriptor⟩
  | element component => .arrayLoad (Emit.elementPrimitive component)
  | subscript method | extension method => Emit.invocation s method
  | mapEntry => Emit.invocation s mapGetMethod

/-- The instruction can work on a `lower` and an `upper` operand: they can be used as the parameters
of the helper, or are an array of the elements that are loaded and an index. -/
def Takes (t : ClassTable) (lower upper : Ty) : OperatorBinding → Prop
  | element component => lower = .array component ∧ upper = .int
  | binding => ∀ params, binding.params? = some params →
      t.assignable lower params.1 = true ∧ t.assignable upper params.2 = true

/-- What is left of a lower operand of type `ty`. -/
def lowerType (t : ClassTable) (ty : Ty) : OperatorBinding → Ty
  | arithmetic _ => t.coercedType ty (.ofClass .number)
  | power _ => ty.wrapped
  | _ => ty

/-- What is left of an upper operand of type `ty`. -/
def upperType (t : ClassTable) (ty : Ty) : OperatorBinding → Ty
  | arithmetic _ => t.coercedType ty (.ofClass .number)
  | element _ => t.coercedType ty .int
  | _ => ty.wrapped

/-- Operands whose code leaves the types `self` and `arg` fit the operator. -/
def Accepts (t : ClassTable) (self arg : Ty) : OperatorBinding → Prop
  | arithmetic _ => self ≠ .void ∧ arg ≠ .void
  | power helper => t.assignable self.wrapped helper.params.1 = true ∧
      t.assignable arg.wrapped helper.params.2 = true
  | concat => t.assignable self (.ofClass .string) = true ∧
      t.assignable arg.wrapped (.ofClass .object) = true
  | element component => self = .array component ∧ arg ≠ .void
  | _ => True

variable {t : ClassTable} {binding : OperatorBinding} {self arg lower upper : Ty}

theorem takes_iff {params : Ty × Ty} (h : binding.params? = some params) :
    binding.Takes t lower upper ↔
      t.assignable lower params.1 = true ∧ t.assignable upper params.2 = true := by
  have hall : (∀ params, binding.params? = some params →
      t.assignable lower params.1 = true ∧ t.assignable upper params.2 = true) ↔
      t.assignable lower params.1 = true ∧ t.assignable upper params.2 = true :=
    ⟨fun ht => ht params h, fun ht params' h' => Option.some.inj (h.symm.trans h') ▸ ht⟩
  cases binding with
  | element component => cases h
  | _ => exact hall

/-- The conversions make the operands fit the instruction just if their types fit the operator. -/
theorem takes_converted (hsize : 0 < t.size) (hi : binding.isInstruction = true) :
    binding.Takes t (binding.lowerType t self) (binding.upperType t arg) ↔
      binding.Accepts t self arg := by
  cases binding with
  | arithmetic op =>
    have hnumber : t.assignable (.ofClass .number) (.ofClass .number) = true :=
      ClassTable.assignable_self hsize ..
    rw [takes_iff rfl]
    exact and_congr (ClassTable.assignable_coercedType hnumber)
      (ClassTable.assignable_coercedType hnumber)
  | power helper =>
    rw [takes_iff rfl]
    exact Iff.rfl
  | concat =>
    rw [takes_iff rfl]
    exact Iff.rfl
  | element component => exact and_congr Iff.rfl ClassTable.coercedType_prim
  | subscript method => cases hi
  | extension method => cases hi
  | mapEntry => cases hi

/-- A helper's descriptor names the types of its parameters and of its result. -/
theorem instruction_eq (s : Setting) (hb : s.table.Built) {params : Ty × Ty}
    (h : binding.params? = some params) :
    ∃ owner name, binding.instruction s = .invoke .static
      ⟨owner, name, s.table.methodDescriptor [params.1, params.2] binding.result⟩ := by
  -- the types are standard classes, and these keep their names in every table
  have hname : ∀ i < 24, s.table.internalName ⟨i⟩ = ClassTable.standard.internalName ⟨i⟩ :=
    fun i hi => hb.internalName_eq hi
  have hdescriptor : ∀ {a b c : ClassId}, a.index < 24 → b.index < 24 → c.index < 24 →
      s.table.methodDescriptor [.ofClass a, .ofClass b] (.ofClass c) =
        ClassTable.standard.methodDescriptor [.ofClass a, .ofClass b] (.ofClass c) := by
    intro a b c ha hb hc
    simp only [ClassTable.methodDescriptor, ClassTable.methodDescriptorChars, Ty.ofClass,
      ClassTable.descriptorChars, List.flatMap_cons, List.flatMap_nil, hname _ ha, hname _ hb,
      hname _ hc]
  cases binding with
  | arithmetic op =>
    cases h
    rw [result, hdescriptor (by decide) (by decide) (by decide)]
    exact ⟨_, _, rfl⟩
  | power helper =>
    cases h
    refine ⟨s.options.extensionOwner, "power", ?_⟩
    cases helper <;>
    · rw [result, PowerHelper.params, hdescriptor (by decide) (by decide) (by decide)]
      rfl
  | concat =>
    cases h
    rw [result, hdescriptor (by decide) (by decide) (by decide)]
    exact ⟨_, _, rfl⟩
  | _ => cases h

end OperatorBinding

namespace ClassTable

variable {t : ClassTable} {receiver argument : Ty}

/-- An object of a class can be used as that class. -/
theorem assignable_of_class? {ty : Ty} {c : ClassId} (hsize : 0 < t.size)
    (h : ty.class? = some c) : t.assignable ty (.ofClass c) = true := by
  cases ty with
  | object k args =>
    cases h
    exact assignable_self hsize ..
  | _ => cases h

theorem assignable_of_isNumeric {ty : Ty} (h : t.isNumeric ty = true) :
    t.assignable ty.wrapped (.ofClass .number) = true := by
  unfold isNumeric at h
  cases hw : ty.wrapped with
  | object k args =>
    rw [hw] at h
    exact assignable_of_derivesFrom (fun hd => absurd hd (by decide)) h
  | _ =>
    rw [hw] at h
    cases h

theorem wrapped_of_class? {ty : Ty} {c : ClassId} (h : ty.class? = some c) :
    ty.wrapped.class? = some c := by
  cases ty with
  | object k args => exact h
  | _ => cases h

/-- The `power` helper takes the operands that it is chosen for. -/
theorem assignable_choose (hsize : 0 < t.size) (hr : t.isNumeric receiver = true)
    (ha : t.isNumeric argument = true) :
    t.assignable receiver.wrapped (PowerHelper.choose receiver argument).params.1 = true ∧
      t.assignable argument.wrapped (PowerHelper.choose receiver argument).params.2 = true := by
  have hclass : ∀ {ty : Ty} {c : ClassId}, ty.class? = some c →
      t.assignable ty (.ofClass c) = true := fun h => assignable_of_class? hsize h
  unfold PowerHelper.choose
  split
  · exact ⟨assignable_of_isNumeric hr, assignable_of_isNumeric ha⟩
  · rename_i hinteger
    have hinteger := Decidable.not_not.mp hinteger
    have hupper := hclass hinteger
    split
    · rename_i h
      exact ⟨hclass (wrapped_of_class? h), hupper⟩
    split
    · rename_i h
      exact ⟨hclass (wrapped_of_class? h), hupper⟩
    split
    · rename_i h
      exact ⟨hclass h, hupper⟩
    split
    · rename_i h
      exact ⟨hclass h, hupper⟩
    · exact ⟨assignable_of_isNumeric hr, assignable_of_isNumeric ha⟩

/-- An operator on numbers, strings or arrays accepts the operands that it is selected for, as long
as the argument is an object or can be boxed. -/
theorem accepts_of_primitiveOperator? {options : Options} {op : String}
    {binding : OperatorBinding} (hsize : 0 < t.size)
    (hobject : t.assignable argument.wrapped (.ofClass .object) = true)
    (h : t.primitiveOperator? options receiver argument op = some binding) :
    binding.Accepts t receiver argument := by
  have hvoid : argument ≠ .void := by
    rintro rfl
    cases hobject
  unfold primitiveOperator? at h
  split at h
  · rename_i hnumeric
    obtain ⟨hr, ha⟩ := Bool.and_eq_true_iff.mp hnumeric
    split at h
    · cases h
      refine ⟨?_, hvoid⟩
      rintro rfl
      cases hr
    · split at h
      · cases h
        show t.assignable _ (PowerHelper.params (if _ then _ else _)).1 = true ∧ _
        split
        · exact assignable_choose hsize hr ha
        · exact ⟨assignable_of_isNumeric hr, assignable_of_isNumeric ha⟩
      · cases h
  · split at h
    · rename_i hstring
      cases h
      exact ⟨assignable_of_class? hsize hstring.1, hobject⟩
    · split at h
      · obtain ⟨component, hc, rfl⟩ := Option.map_eq_some_iff.mp h
        cases receiver with
        | array element =>
          cases hc
          exact ⟨rfl, hvoid⟩
        | _ => cases hc
      · cases h

/-- What is selected as one instruction needs no method. -/
theorem primitiveOperator?_of_isInstruction {options : Options} {op : String}
    {binding : OperatorBinding} (hi : binding.isInstruction = true)
    (h : t.selectOperator options receiver argument op = some binding) :
    t.primitiveOperator? options receiver argument op = some binding := by
  rcases of_orElse h with h | h
  · exact h
  rcases of_orElse h with h | h
  · obtain ⟨method, -, rfl⟩ := Option.map_eq_some_iff.mp h
    cases hi
  rcases of_orElse h with h | h
  · obtain ⟨method, -, rfl⟩ := Option.map_eq_some_iff.mp h
    cases hi
  · split at h <;> cases h
    cases hi

end ClassTable

namespace Emit

variable {s : Setting} {binding : OperatorBinding} {receiver argument : Emit Ty} {d d' : Draft}
  {ty : Ty} {rest : List Ty}

/-- Convert the lower operand. -/
def convertLower (s : Setting) : OperatorBinding → Emit Unit
  | .arithmetic _ => coerce s (.ofClass .number)
  | .power _ => boxTop s
  | _ => pure ()

/-- Convert the upper operand. -/
def convertUpper (s : Setting) : OperatorBinding → Emit Unit
  | .arithmetic _ => coerce s (.ofClass .number)
  | .element _ => coerce s .int
  | _ => boxTop s

/-- Write the operands of an operator that is one instruction. -/
def operands (s : Setting) (binding : OperatorBinding) (receiver argument : Emit Ty) :
    Emit Unit := do
  discard receiver
  convertLower s binding
  discard argument
  convertUpper s binding

/-- An operator that is one instruction writes it when the operands are there. -/
theorem boundOperator_eq (hi : binding.isInstruction = true) :
    boundOperator s binding receiver argument = (do
      let start ← depth
      operands s binding receiver argument
      emit (binding.instruction s)
      replace ((← depth) - start) binding.result
      return binding.result) := by
  cases binding with
  | subscript method => cases hi
  | extension method => cases hi
  | mapEntry => cases hi
  | _ =>
    simp only [boundOperator, operands, convertLower, convertUpper, helperCall, bind_assoc,
      pure_bind]
    rfl

theorem convertLower_stack {u : Unit} (hs : d.stack = ty :: rest)
    (h : Returns (convertLower s binding) d u d') :
    d'.stack = binding.lowerType s.table ty :: rest := by
  cases binding with
  | arithmetic op => exact coerce_stack hs h
  | power helper => exact boxTop_stack hs h
  | _ => exact (returns_pure.mp h).2 ▸ hs

theorem convertUpper_stack {u : Unit} (hs : d.stack = ty :: rest)
    (h : Returns (convertUpper s binding) d u d') :
    d'.stack = binding.upperType s.table ty :: rest := by
  cases binding with
  | arithmetic op => exact coerce_stack hs h
  | element component => exact coerce_stack hs h
  | _ => exact boxTop_stack hs h

/-- The two operands are those that the operands' own code leaves, converted. -/
theorem operands_stack (hr : Pushes receiver) (ha : Pushes argument)
    (h : Returns (operands s binding receiver argument) d () d') :
    ∃ self arg d₁ d₂ d₃, Returns receiver d self d₁ ∧ Returns (convertLower s binding) d₁ () d₂ ∧
      Returns argument d₂ arg d₃ ∧ Returns (convertUpper s binding) d₃ () d' ∧ d'.stack =
        binding.upperType s.table arg :: binding.lowerType s.table self :: d.stack := by
  unfold operands at h
  simp only [returns_bind, returns_discard] at h
  obtain ⟨_, d₁, ⟨self, hself⟩, _, d₂, hlower, _, d₃, ⟨arg, harg⟩, hupper⟩ := h
  have h₂ := convertLower_stack (hr d self d₁ hself) hlower
  have h₃ := ha d₂ arg d₃ harg
  exact ⟨self, arg, d₁, d₂, d₃, hself, hlower, harg, hupper,
    convertUpper_stack (h₂ ▸ h₃) hupper⟩

/-- When the two operands are there, the instruction puts the result in their place. -/
theorem operator_of_operands {left right : Expr} {op : String} (note : Note) {mid : Draft}
    {lower upper : Ty} (hsel : s.operatorBinding? left op right = some binding)
    (hi : binding.isInstruction = true)
    (h : Returns (operands s binding (expr s left) (expr s right)) d () mid)
    (hstack : mid.stack = upper :: lower :: d.stack) :
    Returns (expr s (.operator left op right note)) d binding.result { mid with
      code := mid.code ++ [binding.instruction s], stack := binding.result :: d.stack } := by
  have hsel : s.table.selectOperator s.options (left.typeIn s.enclosing) (right.typeIn s.enclosing)
    op = some binding := hsel
  show Returns (operator s left op right (expr s left) (expr s right)) d _ _
  unfold operator
  rw [hsel]
  show Returns (boundOperator s binding (expr s left) (expr s right)) d _ _
  rw [boundOperator_eq hi]
  simp only [returns_bind, returns_depth, returns_emit, returns_replace, returns_pure]
  refine ⟨_, d, ⟨rfl, rfl⟩, (), mid, h, (), _, rfl, _, _, ⟨rfl, rfl⟩, (), _, rfl, trivial, ?_⟩
  have hdrop : mid.stack.drop (mid.stack.length - d.stack.length) = d.stack := by
    rw [hstack, List.length_cons, List.length_cons, Nat.add_assoc, Nat.add_sub_cancel_left]
    rfl
  rw [hdrop]

/-- An operator that is one instruction works on its two operands and leaves nothing else of them.
They are what the code of the operands themselves leaves, converted. So they are what the
instruction can take just if that fits the operator; it does if it is what the checker has for the
operands. -/
theorem operator_operands (s : Setting) (left right : Expr) (op : String) (note : Note)
    (binding : OperatorBinding) (d mid : Draft) (hb : s.table.Built)
    (hsel : s.operatorBinding? left op right = some binding)
    (hi : binding.isInstruction = true) (hv : (Expr.operator left op right note).OperandsValued s)
    (h : operands s binding (expr s left) (expr s right) d = (.ok (), mid)) :
    ∃ self arg d₁ d₂ d₃ lower upper,
      (expr s left d = (.ok self, d₁) ∧ convertLower s binding d₁ = (.ok (), d₂) ∧
        expr s right d₂ = (.ok arg, d₃) ∧ convertUpper s binding d₃ = (.ok (), mid)) ∧
      mid.stack = upper :: lower :: d.stack ∧
      expr s (.operator left op right note) d = (.ok binding.result, { mid with
        code := mid.code ++ [binding.instruction s], stack := binding.result :: d.stack }) ∧
      (∀ params, binding.params? = some params → ∃ owner name, binding.instruction s =
        .invoke .static
          ⟨owner, name, s.table.methodDescriptor [params.1, params.2] binding.result⟩) ∧
      (binding.Takes s.table lower upper ↔ binding.Accepts s.table self arg) ∧
      (self = left.typeIn s.enclosing → arg = right.typeIn s.enclosing →
        s.table.assignable arg.wrapped (.ofClass .object) = true →
        binding.Takes s.table lower upper) := by
  have hsize := hb.size_pos
  obtain ⟨hleft, hvoid, hright⟩ := hv binding hsel
  have he : binding.evaluates = true := by cases binding <;> first | rfl | cases hi
  obtain ⟨hself, hvalued⟩ := hleft he
  obtain ⟨self, arg, d₁, d₂, d₃, hl, hlower, hr, hupper, hstack⟩ := operands_stack
    (expr_pushes hself hvalued) (expr_pushes hvoid hright) h
  have hwhole := operator_of_operands note hsel hi h hstack
  have htakes : binding.Takes s.table (binding.lowerType s.table self)
      (binding.upperType s.table arg) ↔ binding.Accepts s.table self arg :=
    OperatorBinding.takes_converted hsize hi
  refine ⟨self, arg, d₁, d₂, d₃, _, _, ⟨hl, hlower, hr, hupper⟩, hstack, hwhole,
    fun params hp => OperatorBinding.instruction_eq s hb hp, htakes, ?_⟩
  rintro rfl rfl hobject
  exact htakes.mpr (ClassTable.accepts_of_primitiveOperator? hsize hobject
    (ClassTable.primitiveOperator?_of_isInstruction hi hsel))

/-- `entry.n`, an entry of a map that is declared to be an `Integer`. -/
def integerEntry : Expr :=
  .property (.localVar 1 { type := .ofClass .map }) { member := "n", span := .none }
    { type := .ofClass .integer }

/-- Two to the power of two. -/
def twoSquared : Expr :=
  .operator (.constant (.int 2) { type := .int }) "power" (.constant (.int 2) { type := .int })
    { type := .ofClass .number }

/-- A map entry is an object whatever it is declared as, and the helper that is chosen by the
declaration does not take it. -/
theorem power_takes_not_integerEntry :
    let two := Expr.constant (.int 2) { type := .int }
    let binding := OperatorBinding.power .integerInteger
    objectSetting.operatorBinding? integerEntry "power" two = some binding ∧
      ∃ mid, operands objectSetting binding (expr objectSetting integerEntry)
          (expr objectSetting two) (.empty 2) = (.ok (), mid) ∧
        mid.stack = [.ofClass .integer, .ofClass .object] ∧
        ¬ binding.Takes objectSetting.table (.ofClass .object) (.ofClass .integer) := by
  refine ⟨rfl, _, rfl, rfl, fun h => ?_⟩
  have hassignable := (h _ rfl).1
  revert hassignable
  decide

theorem operator_operands_twoSquared :
    let two := Expr.constant (.int 2) { type := .int }
    let binding := OperatorBinding.power .integerInteger
    (objectSetting.table.Built ∧
        objectSetting.operatorBinding? two "power" two = some binding ∧
        binding.isInstruction = true ∧ twoSquared.OperandsValued objectSetting) ∧
      ∃ mid lower upper, operands objectSetting binding (expr objectSetting two)
          (expr objectSetting two) (.empty 2) = (.ok (), mid) ∧
        mid.stack = [upper, lower] ∧ binding.Takes objectSetting.table lower upper := by
  have hvalued : twoSquared.OperandsValued objectSetting :=
    fun _ _ => ⟨fun _ => ⟨rfl, trivial⟩, rfl, trivial⟩
  obtain ⟨self, arg, _, _, _, lower, upper, ⟨hself, hlower, harg, -⟩, hstack, -, -, -, htakes⟩ :=
    operator_operands objectSetting _ _ "power" { type := .ofClass .number }
      (.power .integerInteger) (.empty 2) _ .standard rfl rfl hvalued rfl
  cases hself
  cases hlower
  cases harg
  exact ⟨⟨.standard, rfl, rfl, hvalued⟩, _, lower, upper, rfl, hstack,
    htakes rfl rfl (by decide)⟩

end Emit

end CallSite
