import CallSite.Proofs.Emission.Mirror
import CallSite.Proofs.Emission.Request
import CallSite.Proofs.Machine.Congruence

/-!
# The option of the power helpers

Whether the `power` helper is the one made for the operand types or the general one shows in the
descriptor of its calls and nowhere else. All these descriptors name two operands and a result, and
the machine runs the same function for all of them.
-/

namespace CallSite

/-- The call of a `power` helper of the class `owner`. -/
def PowerHelper.call (owner : String) (helper : PowerHelper) : Instruction :=
  .invoke .static ⟨owner, "power", helper.descriptor⟩

/-- Two instructions that differ at most in the descriptor of a call of a `power` helper. -/
inductive Instruction.PowerAlike (owner : String) : Instruction → Instruction → Prop
  | same (i : Instruction) : PowerAlike owner i i
  | power (helper helper' : PowerHelper) : PowerAlike owner (helper.call owner) (helper'.call owner)

instance (owner : String) : Std.Refl (Instruction.PowerAlike owner) := ⟨.same⟩

/-- Two bindings that differ at most in the `power` helper. -/
inductive OperatorBinding.PowerAlike : OperatorBinding → OperatorBinding → Prop
  | same (binding : OperatorBinding) : PowerAlike binding binding
  | power (helper helper' : PowerHelper) : PowerAlike (.power helper) (.power helper')

/-- The option says which `power` helper is called, and does not touch any other operator. -/
theorem ClassTable.selectOperator_powerPaths (t : ClassTable) (options : Options)
    (receiver argument : Ty) (op : String) (on : Bool) :
    Option.Rel OperatorBinding.PowerAlike (t.selectOperator options receiver argument op)
      (t.selectOperator { options with powerFastPaths := on } receiver argument op) := by
  -- The option is looked at for two numbers and `power` only.
  have hprimitive : (t.primitiveOperator? options receiver argument op =
        t.primitiveOperator? { options with powerFastPaths := on } receiver argument op) ∨
      ∃ helper helper',
        t.primitiveOperator? options receiver argument op = some (.power helper) ∧
        t.primitiveOperator? { options with powerFastPaths := on } receiver argument op =
          some (.power helper') := by
    unfold primitiveOperator?
    by_cases hn : (t.isNumeric receiver && t.isNumeric argument) = true
    · simp only [hn, if_true]
      cases Arithmetic.ofName? op with
      | some op => exact Or.inl rfl
      | none =>
        by_cases hop : op = "power"
        · simp only [hop, if_true]
          exact Or.inr ⟨_, _, rfl, rfl⟩
        · simp only [hop, if_false]
          exact Or.inl trivial
    · simp only [hn]
      exact Or.inl rfl
  unfold selectOperator
  rcases hprimitive with h | ⟨helper, helper', h, h'⟩
  · rw [h]
    generalize (_ <|> _ : Option OperatorBinding) = found
    cases found with
    | none => exact .none
    | some binding => exact .some (.same binding)
  · rw [h, h']
    exact .some (.power helper helper')

/-! ## Runs -/

namespace Machine

/-- A machine created for the options, on which functions of the host have since been registered,
static fields and objects made, and a limit set. -/
def prepared (table : ClassTable) (options : Options)
    (registered : List ((String × String) × HostFunction))
    (statics : List ((String × String) × Value)) (heap : Heap) (stepLimit : Nat) : Machine :=
  { new table options with
    functions := registered ++ (new table options).functions
    statics, heap, stepLimit }

variable {m : Machine} {owner : String}

/-- Where a function answers `power`, it answers all the helpers, with the same operands. -/
theorem execute_power {power : HostFunction} (hf : m.functions.lookup (owner, "power") = some power)
    (helper : PowerHelper) (code : List Instruction) (heap : Heap) (frame : Frame) :
    m.execute code heap frame (helper.call owner) =
      m.execute code heap frame (PowerHelper.numberNumber.call owner) := by
  have htakes : ∀ helper : PowerHelper, (helper.call owner).takes = 2 := by
    intro helper
    show Descriptor.argCount helper.descriptor + 0 = 2
    cases helper <;> decide
  have hresults : ∀ (helper : PowerHelper) (result : Option Value),
      callResults ⟨owner, "power", helper.descriptor⟩ result = [result.getD .null] := by
    intro helper result
    have hv : Descriptor.returnsVoid helper.descriptor = false := by cases helper <;> decide
    show (if Descriptor.returnsVoid helper.descriptor then _ else _) = _
    rw [hv]
    rfl
  have hinvoke : ∀ (helper : PowerHelper) (args : List Value),
      m.invoke heap .static ⟨owner, "power", helper.descriptor⟩ args = power heap args := by
    intro helper args
    unfold invoke
    simp only [hf, reduceCtorEq, false_and, if_false]
  unfold PowerHelper.call at htakes ⊢
  rw [execute_invoke, execute_invoke, htakes helper, htakes .numberNumber]
  simp only [hinvoke, hresults]

/-- Every machine created for the options answers `power`. -/
theorem prepared_lookup_power (table : ClassTable) (options : Options)
    (registered : List ((String × String) × HostFunction))
    (statics : List ((String × String) × Value)) (heap : Heap) (stepLimit : Nat) :
    ∃ power, (prepared table options registered statics heap stepLimit).functions.lookup
      (options.extensionOwner, "power") = some power := by
  have hstandard : (Helper.standard options).lookup (options.extensionOwner, "power") =
      some Helper.power := by
    have hother : ∀ name, name ≠ "power" →
        ((options.extensionOwner, "power") == (options.extensionOwner, name)) = false :=
      fun name h => beq_eq_false_iff_ne.mpr fun he => h (congrArg Prod.snd he).symm
    simp only [Helper.standard, List.lookup_cons, hother "getAt" (by decide),
      hother "plus" (by decide), beq_self_eq_true]
  show ∃ power, (registered ++ Helper.standard options).lookup (options.extensionOwner, "power") =
    some power
  rw [List.lookup_append, hstandard]
  cases registered.lookup (options.extensionOwner, "power") with
  | some power => exact ⟨power, rfl⟩
  | none => exact ⟨Helper.power, rfl⟩

end Machine

theorem Instruction.PowerAlike.actsAs {m : Machine} {owner : String} {power : HostFunction}
    (hf : m.functions.lookup (owner, "power") = some power) {i i' : Instruction}
    (h : i.PowerAlike owner i') : i.ActsAs m i' := by
  cases h with
  | same => exact .refl m i
  | power helper helper' =>
    refine ⟨rfl, fun code heap frame => ?_⟩
    rw [m.execute_power hf helper, m.execute_power hf helper']

/-! ## Emission -/

namespace Emit

variable {s : Setting} {on : Bool}

/-- Steps for settings that differ in the option leave code that differs in `power` calls. -/
private abbrev Agrees (s : Setting) {α : Type} (step step' : Emit α) : Prop :=
  Mirrors (Instruction.PowerAlike s.options.extensionOwner) step step'

private theorem agrees_boundOperator {binding binding' : OperatorBinding}
    {receiver receiver' argument argument' : Emit Ty} (hb : binding.PowerAlike binding')
    (hr : Agrees s receiver receiver') (ha : Agrees s argument argument') :
    Agrees s (boundOperator s binding receiver argument)
      (boundOperator (s.withPowerPaths on) binding' receiver' argument') := by
  refine mirrors_depth.bind fun start => ?_
  cases hb with
  | power helper helper' =>
    refine hr.discard.bind fun _ => ?_
    refine mirrors_boxTop.bind fun _ => ?_
    refine ha.discard.bind fun _ => ?_
    refine mirrors_boxTop.bind fun _ => ?_
    exact mirrors_helperCall (.power helper helper')
  | same =>
    cases binding with
    | arithmetic op =>
      refine hr.discard.bind fun _ => ?_
      refine mirrors_coerce.bind fun _ => ?_
      refine ha.discard.bind fun _ => ?_
      refine mirrors_coerce.bind fun _ => ?_
      exact mirrors_helperCall (.same _)
    | power helper =>
      refine hr.discard.bind fun _ => ?_
      refine mirrors_boxTop.bind fun _ => ?_
      refine ha.discard.bind fun _ => ?_
      refine mirrors_boxTop.bind fun _ => ?_
      exact mirrors_helperCall (.same _)
    | concat =>
      exact hr.discard.bind fun _ => ha.discard.bind fun _ => mirrors_boxTop.bind fun _ =>
        mirrors_helperCall (.same _)
    | element component =>
      refine hr.discard.bind fun _ => ?_
      refine ha.discard.bind fun _ => ?_
      refine mirrors_coerce.bind fun _ => ?_
      refine mirrors_emit_same.bind fun _ => ?_
      refine mirrors_depth.bind fun _ => mirrors_replace.bind fun _ => ?_
      exact mirrors_pure
    | subscript method => exact mirrors_call hr (.cons ha.discard .nil)
    | extension method => exact mirrors_call hr (.cons ha.discard .nil)
    | mapEntry => exact mirrors_call hr (.cons ha.discard .nil)

private theorem agrees_operator {left right : Expr} {op : String}
    {receiver receiver' argument argument' : Emit Ty} (hr : Agrees s receiver receiver')
    (ha : Agrees s argument argument') :
    Agrees s (operator s left op right receiver argument)
      (operator (s.withPowerPaths on) left op right receiver' argument') := by
  have hbinding := s.table.selectOperator_powerPaths s.options (left.typeIn s.enclosing)
    (right.typeIn s.enclosing) op on
  unfold operator
  dsimp only [Setting.withPowerPaths]
  generalize s.table.selectOperator s.options _ _ _ = found at hbinding ⊢
  generalize s.table.selectOperator _ _ _ _ = found' at hbinding ⊢
  cases hbinding with
  | some hb => exact agrees_boundOperator hb hr ha
  | none => exact mirrors_throw

private theorem agrees_expr (e : Expr) :
    Agrees s (expr s e) (expr (s.withPowerPaths on) e) := by
  induction e with
  | this note => exact mirrors_operand
  | localVar slot note => exact mirrors_loadLocal
  | classLiteral ty note => exact mirrors_operand
  | constant value note => exact mirrors_operand
  | property receiver access note ih => exact mirrors_property ih
  | operator left op right note ihl ihr => exact agrees_operator ihl ihr

private theorem agrees_request (r : Request) :
    Agrees s (r.write s) (r.write (s.withPowerPaths on)) := by
  cases r with
  | expr e => exact agrees_expr e
  | property site => exact mirrors_property (agrees_expr _)
  | dynamic site =>
    exact mirrors_depth.bind fun _ =>
      (mirrors_bound (agrees_expr _) fun _ =>
        mirrors_collect (agrees_expr _) (mirrors_elementAccess _)).bind fun _ =>
      mirrors_expectDepth.bind fun _ => mirrors_pure
  | operator receiver op argument =>
    exact mirrors_depth.bind fun _ =>
      (agrees_operator (agrees_expr _) (agrees_expr _)).bind fun _ =>
      mirrors_expectDepth.bind fun _ => mirrors_pure
  | list site member component => exact mirrors_collect (agrees_expr _) (mirrors_elementAccess _)

/-- For settings that differ in the option of the `power` helpers alone, a request returns the same
type or fails with the same error, and leaves the same draft, but for the descriptors of `power`
calls. Run on machines that are alike but for having been created each for its own options, both
codes give the same value or the same error, and leave the same heap. -/
theorem request_withPowerPaths (s : Setting) (on : Bool) (r : Request) (d : Draft) :
    let one := r.write s d
    let other := r.write (s.withPowerPaths on) d
    other.1 = one.1 ∧
      List.Forall₂ (Instruction.PowerAlike s.options.extensionOwner) one.2.code other.2.code ∧
      other.2 = { one.2 with code := other.2.code } ∧
      ∀ table registered statics heap stepLimit locals,
        let machine := fun options =>
          Machine.prepared table options registered statics heap stepLimit
        let run := (machine s.options).run one.2.code locals
        let run' := (machine (s.withPowerPaths on).options).run other.2.code locals
        run'.2 = run.2 ∧ run'.1.heap = run.1.heap := by
  intro one other
  have hagrees : Agrees s (r.write s) (r.write (s.withPowerPaths on)) := agrees_request r
  obtain ⟨code, hcode, hother⟩ := hagrees d d.code (List.forall₂_refl d.code)
  have hother : other = (one.1, { one.2 with code }) := hother
  rw [hother]
  refine ⟨rfl, hcode, rfl, fun table registered statics heap stepLimit locals => ?_⟩
  intro machine run run'
  obtain ⟨power, hpower⟩ := Machine.prepared_lookup_power table s.options registered statics heap
    stepLimit
  have hacts : List.Forall₂ (Instruction.ActsAs (machine s.options)) one.2.code code :=
    hcode.imp fun _ _ => Instruction.PowerAlike.actsAs hpower
  have hrun : run' = run := Machine.run_congr hacts locals
  rw [hrun]
  exact ⟨rfl, rfl⟩

end Emit

end CallSite
