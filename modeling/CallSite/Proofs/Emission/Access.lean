import CallSite.Proofs.Emission.Call
import CallSite.Proofs.Emission.Collect

/-!
# Accesses and operators that return

A property access is written as it is bound, and makes sure that it leaves one operand more. An
operator on two operands is written with one instruction behind them; all others are calls.
-/

namespace CallSite

/-- What a property access in code of the setting is bound to. -/
def Setting.binding (s : Setting) (site : Site) : Binding :=
  ((Query.ofSite site s.enclosing).select s.table).2

/-- What an operator in code of the setting is bound to. -/
def Setting.operatorBinding? (s : Setting) (left : Expr) (op : String) (right : Expr) :
    Option OperatorBinding :=
  s.table.selectOperator s.options (left.typeIn s.enclosing) (right.typeIn s.enclosing) op

namespace Emit

variable {s : Setting} {d d' : Draft} {ty : Ty}

theorem access_inv {site : Site} {receiver : Emit Ty} {collected : Ty → Emit Ty}
    (h : Returns (access s site receiver collected) d ty d') :
    ∃ diagnostics, Returns (bound s (s.binding site) site site.member receiver collected)
      { d with diagnostics } ty d' ∧ d'.stack.length = d.stack.length + 1 := by
  unfold access at h
  simp only [returns_bind, returns_depth, and_assoc, exists_and_left, exists_eq_left] at h
  split at h
  all_goals
    simp only [returns_bind, returns_report, returns_expectDepth, returns_pure, and_assoc,
      exists_eq_left, exists_const] at h
    obtain ⟨_, _, hb, _, hd, rfl, rfl, rfl⟩ := h
    exact ⟨_, hb, hd⟩

/-- An access to which something applies is written as it is bound, and leaves one operand more. -/
theorem returns_access_of_ne {site : Site} {receiver : Emit Ty} {collected : Ty → Emit Ty}
    (hb : s.binding site ≠ .unresolved) :
    Returns (access s site receiver collected) d ty d' ↔
      Returns (bound s (s.binding site) site site.member receiver collected) d ty d' ∧
        d'.stack.length = d.stack.length + 1 := by
  have hne : ((Query.ofSite site s.enclosing).select s.table).2 ≠ .unresolved := hb
  unfold access
  simp only [returns_bind, returns_depth, and_assoc, exists_and_left, exists_eq_left, if_neg hne,
    returns_expectDepth, returns_pure, exists_const]
  constructor
  · rintro ⟨_, _, hbound, hlength, rfl, rfl⟩
    exact ⟨hbound, hlength⟩
  · rintro ⟨hbound, hlength⟩
    exact ⟨ty, d', hbound, hlength, rfl, rfl⟩

/-! ## Accesses without a call -/

section

variable {site : Site} {member : String} {receiver : Emit Ty} {collected : Ty → Emit Ty}

theorem bound_inv_arrayLength
    (h : Returns (bound s .arrayLength site member receiver collected) d ty d') :
    ∃ self d₁, Returns receiver d self d₁ ∧ ty = .int ∧ d' = { d₁ with
      code := d₁.code ++ [.arrayLength]
      stack := .int :: d₁.stack.drop 1 } := by
  simp only [bound, returns_bind, returns_discard, returns_emit, returns_replace, returns_pure,
    exists_eq_left, exists_const] at h
  obtain ⟨d₁, ⟨self, hself⟩, rfl, rfl⟩ := h
  exact ⟨self, d₁, hself, rfl, rfl⟩

theorem bound_inv_enumConstant {owner : ClassId}
    (h : Returns (bound s (.enumConstant owner) site member receiver collected) d ty d') :
    ty = .ofClass owner ∧ d' = { d with
      code := d.code ++ [.getStatic
        ⟨s.table.internalName owner, member, s.table.descriptor (.ofClass owner)⟩]
      stack := .ofClass owner :: d.stack } := by
  simp only [bound, returns_bind, returns_emit, returns_push, returns_pure, exists_eq_left,
    exists_const] at h
  exact ⟨h.1.symm, h.2.symm⟩

theorem bound_inv_unresolved
    (h : Returns (bound s .unresolved site member receiver collected) d ty d') :
    ty = .ofClass .object ∧ Returns pushNull d () d' := by
  simp only [bound, returns_bind, returns_pure] at h
  obtain ⟨_, mid, hnull, rfl, rfl⟩ := h
  exact ⟨rfl, hnull⟩

end

/-! ## Expressions without operands -/

theorem returns_loadLocal {slot : UInt16} {note : Note} :
    Returns (loadLocal s slot note) d ty d' ↔
      ty = (Expr.localVar slot note).typeIn s.enclosing ∧ d' = { d with
        code := d.code ++ [.load (.ofType ty) slot]
        stack := ty :: d.stack } := by
  unfold loadLocal
  simp only [returns_bind, returns_emit, returns_push, returns_pure, exists_eq_left, exists_const]
  constructor
  · rintro ⟨rfl, rfl⟩
    exact ⟨rfl, rfl⟩
  · rintro ⟨rfl, rfl⟩
    exact ⟨rfl, rfl⟩

theorem expr_inv_this {note : Note} (h : Returns (expr s (.this note)) d ty d') :
    ty = (Expr.this note).typeIn s.enclosing ∧ d' = { d with
      code := d.code ++ [.load .reference 0]
      stack := ty :: d.stack } := by
  simp only [expr, returns_bind, returns_emit, returns_push, returns_pure, exists_eq_left,
    exists_const] at h
  obtain ⟨rfl, rfl⟩ := h
  exact ⟨rfl, rfl⟩

theorem expr_inv_classLiteral {type : Ty} {note : Note}
    (h : Returns (expr s (.classLiteral type note)) d ty d') :
    ty = .object .cls [type] ∧ d' = { d with
      code := d.code ++ [.push (.cls (s.table.descriptor type))]
      stack := ty :: d.stack } := by
  simp only [expr, returns_bind, returns_emit, returns_push, returns_pure, exists_eq_left,
    exists_const] at h
  obtain ⟨rfl, rfl⟩ := h
  exact ⟨rfl, rfl⟩

theorem expr_inv_constant {value : Constant} {note : Note}
    (h : Returns (expr s (.constant value note)) d ty d') :
    ty = value.type ∧ d' = { d with
      code := d.code ++ [constantCode value]
      stack := ty :: d.stack } := by
  simp only [expr, returns_bind, returns_emit, returns_push, returns_pure, exists_eq_left,
    exists_const] at h
  obtain ⟨rfl, rfl⟩ := h
  exact ⟨rfl, rfl⟩

/-! ## List elements -/

/-- The code that loads the element that an access to a list element is about. -/
def elementReceiver (s : Setting) (site : Site) : Emit Ty :=
  match site.receiver with
  | .localVar slot note => loadLocal s slot note
  | _ => throw (.internal .endlessElements site.span)

theorem elementAccess_succ (s : Setting) (depth : Nat) (site : Site) :
    elementAccess s (depth + 1) site = access s site (elementReceiver s site) fun component =>
      collect s site site.member component (elementReceiver s site) (elementAccess s depth) := rfl

theorem elementReceiver_cases (s : Setting) (site : Site) :
    (∃ slot note, elementReceiver s site = loadLocal s slot note) ∨
      elementReceiver s site = throw (.internal .endlessElements site.span) := by
  unfold elementReceiver
  split
  · exact Or.inl ⟨_, _, rfl⟩
  · exact Or.inr rfl

/-! ## Operators -/

/-- An operator that nothing answers is not written. -/
theorem operator_inv {left right : Expr} {op : String} {receiver argument : Emit Ty}
    (h : Returns (operator s left op right receiver argument) d ty d') :
    ∃ binding, s.operatorBinding? left op right = some binding ∧
      Returns (boundOperator s binding receiver argument) d ty d' := by
  unfold operator at h
  simp only at h
  split at h
  · rename_i binding hb
    exact ⟨binding, hb, h⟩
  · exact absurd h returns_throw

private theorem helperCall_inv {start : Nat} {owner name descriptor : String} {result : Ty}
    (h : Returns (helperCall start owner name descriptor result) d ty d') :
    ty = result ∧ d' = { d with
      code := d.code ++ [.invoke .static ⟨owner, name, descriptor⟩]
      stack := ty :: d.stack.drop (d.stack.length - start) } := by
  unfold helperCall at h
  simp only [returns_bind, returns_emit, returns_depth, returns_replace, returns_pure, and_assoc,
    exists_and_left, exists_eq_left, exists_const] at h
  obtain ⟨rfl, rfl⟩ := h
  exact ⟨rfl, rfl⟩

/-- A static call that takes two operands and leaves one. -/
private theorem static_pair {owner name descriptor : String}
    (hc : Descriptor.argCount descriptor = 2) (hv : Descriptor.returnsVoid descriptor = false) :
    (Instruction.invoke .static ⟨owner, name, descriptor⟩).isQuiet = true ∧
      (Instruction.invoke .static ⟨owner, name, descriptor⟩).takes = 2 ∧
      (Instruction.invoke .static ⟨owner, name, descriptor⟩).gives = 1 := by
  refine ⟨rfl, ?_, ?_⟩
  · show Descriptor.argCount descriptor + 0 = 2
    rw [hc]
  · show (if Descriptor.returnsVoid descriptor then 0 else 1) = 1
    rw [hv]
    rfl

/-- An operator that is no call of a method: both operands are converted, and one instruction puts
the result in their place. -/
theorem boundOperator_inv_pair {binding : OperatorBinding} {receiver argument : Emit Ty}
    (hb : binding.callee? = none)
    (h : Returns (boundOperator s binding receiver argument) d ty d') :
    ∃ self arg d₁ d₂ d₃ d₄ i, Returns receiver d self d₁ ∧ Converts d₁ d₂ ∧
      Returns argument d₂ arg d₃ ∧ Converts d₃ d₄ ∧
      (i.isQuiet = true ∧ i.takes = 2 ∧ i.gives = 1) ∧ d' = { d₄ with
        code := d₄.code ++ [i]
        stack := ty :: d₄.stack.drop (d₄.stack.length - d.stack.length) } := by
  unfold boundOperator at h
  simp only [returns_bind, returns_depth, and_assoc, exists_and_left, exists_eq_left] at h
  cases binding with
  | arithmetic op =>
    simp only [returns_bind, returns_discard, exists_const] at h
    obtain ⟨d₁, ⟨self, hr⟩, _, d₂, hc, d₃, ⟨arg, ha⟩, _, d₄, hc', hh⟩ := h
    obtain ⟨-, hd⟩ := helperCall_inv hh
    exact ⟨self, arg, d₁, d₂, d₃, d₄, _, hr, coerce_converts hc, ha, coerce_converts hc',
      static_pair (by decide) (by decide), hd⟩
  | power helper =>
    simp only [returns_bind, returns_discard, exists_const] at h
    obtain ⟨d₁, ⟨self, hr⟩, _, d₂, hc, d₃, ⟨arg, ha⟩, _, d₄, hc', hh⟩ := h
    obtain ⟨-, hd⟩ := helperCall_inv hh
    exact ⟨self, arg, d₁, d₂, d₃, d₄, _, hr, boxTop_converts hc, ha, boxTop_converts hc',
      static_pair (by cases helper <;> decide) (by cases helper <;> decide), hd⟩
  | concat =>
    simp only [returns_bind, returns_discard, exists_const] at h
    obtain ⟨d₁, ⟨self, hr⟩, d₃, ⟨arg, ha⟩, _, d₄, hc', hh⟩ := h
    obtain ⟨-, hd⟩ := helperCall_inv hh
    exact ⟨self, arg, d₁, d₁, d₃, d₄, _, hr, .refl d₁, ha, boxTop_converts hc',
      static_pair (by decide) (by decide), hd⟩
  | element component =>
    simp only [returns_bind, returns_discard, returns_emit, returns_depth, returns_replace,
      returns_pure, and_assoc, exists_and_left, exists_eq_left, exists_const] at h
    obtain ⟨d₁, ⟨self, hr⟩, d₃, ⟨arg, ha⟩, _, d₄, hc', rfl, rfl⟩ := h
    exact ⟨self, arg, d₁, d₁, d₃, d₄, _, hr, .refl d₁, ha, coerce_converts hc', ⟨rfl, rfl, rfl⟩, rfl⟩
  | subscript method => cases hb
  | extension method => cases hb
  | mapEntry => cases hb

/-- All other operators are calls of a method with the right operand. -/
theorem boundOperator_inv_call {binding : OperatorBinding} {receiver argument : Emit Ty}
    {method : Method} (hb : binding.callee? = some method)
    (h : Returns (boundOperator s binding receiver argument) d ty d') :
    Returns (call s receiver method [discard argument] false) d ty d' := by
  unfold boundOperator at h
  simp only [returns_bind, returns_depth, and_assoc, exists_and_left, exists_eq_left] at h
  cases binding with
  | subscript found => cases hb; exact h
  | extension found => cases hb; exact h
  | mapEntry => cases hb; exact h
  | _ => cases hb

end Emit

end CallSite
