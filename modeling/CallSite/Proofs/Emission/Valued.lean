import CallSite.Proofs.Emission.OperandStack
import CallSite.Proofs.Selection.Fits

/-!
# Tables whose methods have results

Where everything that can be called has a result, every expression leaves one operand, whatever its
operators and accesses are bound to.
-/

namespace CallSite

/-- Whatever can be called has a result. -/
structure ClassTable.Valued (t : ClassTable) : Prop where
  methods : ∀ c, ∀ m ∈ (t.info c).methods, m.returns ≠ .void
  properties : ∀ c, ∀ p ∈ (t.info c).properties, p.type ≠ .void
  bridges : ∀ c, ∀ b ∈ (t.info c).bridges, b.accessor.returns ≠ .void
  extensions : ∀ m ∈ t.extensions, m.returns ≠ .void

namespace ClassTable

variable {t : ClassTable}

theorem Valued.returns_ne {m : Method} (ht : t.Valued) (h : t.Offers m) : m.returns ≠ .void := by
  cases h with
  | declared hm => exact ht.methods _ _ hm
  | property hp => exact ht.properties _ _ hp
  | bridge hb => exact ht.bridges _ _ hb
  | extension hm => exact ht.extensions _ hm

theorem Tame.valued (ht : t.Tame) : t.Valued :=
  ⟨ht.methods, ht.properties, fun c b hb => (ht.bridges c b hb).1, ht.extensions⟩

end ClassTable

variable {s : Setting} (ht : s.table.Valued)

include ht

/-- An access is bound to no method without a result. -/
theorem Setting.binding_returns_ne (site : Site) (m : Method)
    (h : (s.binding site).method? = some m) : m.returns ≠ .void :=
  ht.returns_ne ((ClassTable.select_chosen ..).offers h)

theorem Setting.operatorBinding_returns_ne {left right : Expr} {op : String}
    {binding : OperatorBinding} (hb : s.operatorBinding? left op right = some binding) (m : Method)
    (h : binding.method? = some m) : m.returns ≠ .void :=
  ht.returns_ne (ClassTable.selectOperator_offers hb h)

theorem Expr.isVoid_eq_false (e : Expr) : e.isVoid s = false := by
  cases e with
  | operator left op right note =>
    show (s.operatorBinding? left op right).any OperatorBinding.isVoid = false
    cases hb : s.operatorBinding? left op right with
    | none => rfl
    | some binding =>
      rw [Option.any_some, OperatorBinding.isVoid]
      cases hm : binding.method? with
      | none => rfl
      | some m => exact beq_eq_false_iff_ne.mpr (s.operatorBinding_returns_ne ht hb m hm)
  | _ => rfl

theorem Expr.operandsValued (e : Expr) : e.OperandsValued s := by
  induction e with
  | property receiver access note ih => exact fun _ => ⟨receiver.isVoid_eq_false ht, ih⟩
  | operator left op right note ihl ihr =>
    exact fun _ _ => ⟨fun _ => ⟨left.isVoid_eq_false ht, ihl⟩, right.isVoid_eq_false ht, ihr⟩
  | _ => trivial

/-- Every expression leaves its type as the one new operand. -/
theorem Emit.pushes_expr (e : Expr) : Pushes (expr s e) :=
  expr_pushes (e.isVoid_eq_false ht) (e.operandsValued ht)

end CallSite
