import CallSite.Proofs.Emission.Conversion

/-!
# Calls that return

The steps by which a call is written, read off a draft that came out of them. There are three ways
to write a call: without a receiver, with one, and with one that may be null.
-/

namespace CallSite

/-- A call of the method evaluates its receiver. -/
def Method.takesReceiver (method : Method) : Bool := Emit.isExtension method || !method.isStatic

/-- An access that is bound so evaluates its receiver. -/
def Binding.evaluates : Binding → Bool
  | arrayLength | collectionSize | mapEntry | eachElement _ | dynamic _ => true
  | getter m | interfaceGetter m | extension m => m.takesReceiver
  | field f => !f.isStatic
  | bridge accessor fieldStatic => accessor.takesReceiver || !fieldStatic
  | enumConstant _ | unresolved => false

/-- An operator that is bound so evaluates its receiver. -/
def OperatorBinding.evaluates : OperatorBinding → Bool
  | subscript m | extension m => m.takesReceiver
  | _ => true

/-- The method that is called on both operands of an operator that is bound so. One instruction is
enough for the others. -/
def OperatorBinding.callee? : OperatorBinding → Option Method
  | subscript m | extension m => some m
  | mapEntry => some mapGetMethod
  | _ => none

theorem OperatorBinding.evaluates_of_callee {binding : OperatorBinding} {m : Method}
    (h : binding.callee? = some m) : binding.evaluates = m.takesReceiver := by
  cases binding with
  | subscript method => cases h; rfl
  | extension method => cases h; rfl
  | mapEntry => cases h; rfl
  | _ => cases h

theorem OperatorBinding.evaluates_of_instruction {binding : OperatorBinding}
    (h : binding.callee? = none) : binding.evaluates = true := by
  cases binding with
  | subscript method => cases h
  | extension method => cases h
  | _ => rfl

namespace Emit

variable {s : Setting} {d d' : Draft}

/-- The draft after the call instruction, with the operands above `below` forgotten. -/
def Draft.called (s : Setting) (method : Method) (below : Nat) (d : Draft) : Draft :=
  { d with
    code := d.code ++ [invocation s method]
    stack := (if method.returns = .void then [] else [method.returns]) ++
      d.stack.drop (d.stack.length - below) }

variable {receiver : Emit Ty} {method : Method} {args : List (Emit Unit)} {ty : Ty}

theorem returns_pushString {text : String} {u : Unit} :
    Returns (pushString text) d u d' ↔ d' = { d with
      code := d.code ++ [.push (.string text)]
      stack := .ofClass .string :: d.stack } := by
  unfold pushString
  simp only [returns_bind, returns_emit, returns_push, exists_eq_left, exists_const]

theorem returns_pushNull {u : Unit} :
    Returns pushNull d u d' ↔ d' = { d with
      code := d.code ++ [.pushNull]
      stack := .ofClass .object :: d.stack } := by
  unfold pushNull
  simp only [returns_bind, returns_emit, returns_push, exists_eq_left, exists_const]

theorem arguments_cons_inv {arg : Emit Unit} {params : List Ty}
    (h : Returns (arguments s (arg :: args) params) d () d') :
    ∃ d₁ d₂, Returns arg d () d₁ ∧ Converts d₁ d₂ ∧
      Returns (arguments s args params.tail) d₂ () d' := by
  unfold arguments at h
  obtain ⟨_, d₁, ha, h⟩ := returns_bind.mp h
  cases params with
  | nil => exact ⟨d₁, d₁, ha, .refl d₁, h⟩
  | cons param params =>
    obtain ⟨_, d₂, hc, h⟩ := returns_bind.mp h
    exact ⟨d₁, d₂, ha, coerce_converts hc, h⟩

private theorem returns_pushResult {returns : Ty} {next : Emit Ty} :
    Returns (if returns ≠ .void then do push returns; next else next) d ty d' ↔
      Returns next { d with stack := (if returns = .void then [] else [returns]) ++ d.stack } ty
        d' := by
  by_cases hv : returns = .void
  · rw [if_neg (not_not_intro hv), if_pos hv, List.nil_append]
  · rw [if_pos hv, if_neg hv, returns_bind]
    simp only [returns_push]
    constructor
    · rintro ⟨_, _, rfl, h⟩
      exact h
    · exact fun h => ⟨(), _, rfl, h⟩

private theorem returns_topmost :
    Returns (do return (← top?).getD .void) d ty d' ↔ d' = d ∧ ty = d.stack.head?.getD .void := by
  simp only [returns_bind, returns_top?, returns_pure]
  constructor
  · rintro ⟨_, _, ⟨rfl, rfl⟩, rfl, rfl⟩
    exact ⟨rfl, rfl⟩
  · rintro ⟨rfl, rfl⟩
    exact ⟨_, _, ⟨rfl, rfl⟩, rfl, rfl⟩

theorem returns_call_static {safe : Bool} (ht : method.takesReceiver = false) :
    Returns (call s receiver method args safe) d ty d' ↔
      ∃ mid, Returns (arguments s args (argumentTypes method)) d () mid ∧
        d' = Draft.called s method d.stack.length mid ∧ ty = d'.stack.head?.getD .void := by
  unfold Method.takesReceiver at ht
  unfold call
  rw [ht]
  simp only [Bool.false_eq_true, if_false, returns_bind, returns_depth, returns_pure, returns_emit,
    returns_drop, and_assoc, exists_and_left, exists_eq_left, exists_eq_left', exists_const]
  constructor
  · rintro ⟨_, mid, ha, h⟩
    obtain ⟨rfl, hty⟩ := returns_topmost.mp (returns_pushResult.mp h)
    exact ⟨mid, ha, rfl, hty⟩
  · rintro ⟨mid, ha, rfl, hty⟩
    exact ⟨(), mid, ha, returns_pushResult.mpr (returns_topmost.mpr ⟨rfl, hty⟩)⟩

theorem returns_call_plain (ht : method.takesReceiver = true) :
    Returns (call s receiver method args false) d ty d' ↔
      ∃ self d₁ d₂ d₃, Returns receiver d self d₁ ∧ Returns (coerce s (selfType method)) d₁ () d₂ ∧
        Returns (arguments s args (argumentTypes method)) d₂ () d₃ ∧
        d' = Draft.called s method d.stack.length d₃ ∧ ty = d'.stack.head?.getD .void := by
  unfold Method.takesReceiver at ht
  unfold call receiverOf
  rw [ht]
  simp only [Bool.false_eq_true, if_true, if_false, returns_bind, returns_discard, returns_depth,
    returns_pure, returns_emit, returns_drop, and_assoc, exists_and_left, exists_eq_left,
    exists_eq_left', exists_const]
  constructor
  · rintro ⟨_, _, ⟨d₁, ⟨self, hr⟩, _, d₂, hc, rfl, rfl⟩, _, d₃, ha, h⟩
    obtain ⟨rfl, hty⟩ := returns_topmost.mp (returns_pushResult.mp h)
    exact ⟨self, d₁, hr, d₂, hc, d₃, ha, rfl, hty⟩
  · rintro ⟨self, d₁, hr, d₂, hc, d₃, ha, rfl, hty⟩
    refine ⟨none, d₂, ⟨d₁, ⟨self, hr⟩, (), d₂, hc, rfl, rfl⟩, (), d₃, ha, ?_⟩
    exact returns_pushResult.mpr (returns_topmost.mpr ⟨rfl, hty⟩)

theorem call_inv_safe (ht : method.takesReceiver = true)
    (h : Returns (call s receiver method args true) d ty d') :
    ∃ self d₁ d₂ d₃ d₄, Returns receiver d self d₁ ∧
      Returns (coerce s (selfType method)) { d₁ with
        code := d₁.code ++ [.dup, .jumpIfNull d₁.nextLabel]
        nextLabel := d₁.nextLabel + 1 } () d₂ ∧
      Returns (arguments s args (argumentTypes method)) d₂ () d₃ ∧
      Returns (boxTop s) (Draft.called s method d.stack.length d₃) () d₄ ∧
      d' = { d₄ with
        code := d₄.code ++
          [.jump d₄.nextLabel, .label d₁.nextLabel, .pop, .pushNull, .label d₄.nextLabel]
        nextLabel := d₄.nextLabel + 1 } ∧
      ty = d'.stack.head?.getD .void := by
  unfold Method.takesReceiver at ht
  unfold call receiverOf nullBranch at h
  rw [ht] at h
  simp only [if_true, returns_bind, returns_discard, returns_depth, returns_pure, returns_emit,
    returns_drop, returns_freshLabel, and_assoc, exists_and_left, exists_eq_left, exists_eq_left',
    exists_const] at h
  obtain ⟨_, _, ⟨d₁, ⟨self, hr⟩, _, d₂, hc, rfl, rfl⟩, _, d₃, ha, h⟩ := h
  have h := returns_pushResult.mp h
  simp only [returns_bind, returns_freshLabel, returns_emit, returns_top?, returns_pure, and_assoc,
    exists_and_left, exists_eq_left, exists_const] at h
  obtain ⟨_, d₄, hb, rfl, rfl⟩ := h
  refine ⟨self, d₁, d₂, d₃, d₄, hr, ?_, ha, hb, ?_, rfl⟩
  · rw [List.append_assoc] at hc
    exact hc
  · simp only [List.append_assoc]
    rfl

/-! ## Field reads -/

/-- How instructions name a field. -/
def fieldRef (s : Setting) (field : Field) : MemberRef :=
  ⟨s.table.internalName field.owner, field.name, s.table.descriptor field.type⟩

theorem readField_inv_static {field : Field} (hs : field.isStatic = true)
    (h : Returns (readField s receiver field) d ty d') :
    ty = field.type ∧ d' = { d with
      code := d.code ++ [.getStatic (fieldRef s field)]
      stack := field.type :: d.stack } := by
  unfold readField at h
  rw [hs] at h
  simp only [if_true, returns_bind, returns_emit, returns_push, returns_pure, exists_eq_left,
    exists_const] at h
  exact ⟨h.1.symm, h.2.symm⟩

theorem returns_readField_instance {field : Field} (hs : field.isStatic = false) :
    Returns (readField s receiver field) d ty d' ↔
      ∃ self d₁ d₂, Returns receiver d self d₁ ∧
        Returns (castTo s (.ofClass field.owner)) d₁ () d₂ ∧ ty = field.type ∧ d' = { d₂ with
          code := d₂.code ++ [.getField (fieldRef s field)]
          stack := field.type :: d₂.stack.drop 1 } := by
  unfold readField
  rw [hs]
  simp only [Bool.false_eq_true, if_false, returns_bind, returns_discard, returns_emit,
    returns_replace, returns_pure, exists_eq_left, exists_const]
  constructor
  · rintro ⟨d₁, ⟨self, hr⟩, _, d₂, hc, rfl, rfl⟩
    exact ⟨self, d₁, d₂, hr, hc, rfl, rfl⟩
  · rintro ⟨self, d₁, d₂, hr, hc, rfl, rfl⟩
    exact ⟨d₁, ⟨self, hr⟩, (), d₂, hc, rfl, rfl⟩

end Emit

end CallSite
