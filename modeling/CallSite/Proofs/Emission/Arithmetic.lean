import CallSite.Proofs.Emission.Fragment
import CallSite.Proofs.Emission.Member
import CallSite.Proofs.Emission.Operands
import CallSite.Proofs.Machine.Arithmetic

/-!
# Whole numbers

Sums, differences and products of `int` and `long` constants and local variables, nested in any way.
Their code computes the exact result, or fails with the first operation whose result does not fit in
64 bits.
-/

namespace CallSite

namespace Expr

/-- The expression is made of constants and local variables of the types `int` and `long` by
operators that are exact on integers, and is declared as a number throughout. -/
inductive Whole (s : Setting) : Expr → Prop
  | constant {value : Constant} {note : Note} : (value.type = .int ∨ value.type = .long) →
      s.table.isNumeric ((Expr.constant value note).typeIn s.enclosing) = true →
      Whole s (.constant value note)
  | localVar {slot : UInt16} {note : Note} : ((Expr.localVar slot note).typeIn s.enclosing = .int ∨
      (Expr.localVar slot note).typeIn s.enclosing = .long) → Whole s (.localVar slot note)
  | operator {left right : Expr} {op : Arithmetic} {whole : Int → Int → Int} {note : Note} :
      op.whole? = some whole → Whole s left → Whole s right →
      s.table.isNumeric ((Expr.operator left op.name right note).typeIn s.enclosing) = true →
      Whole s (.operator left op.name right note)

theorem Whole.isNumeric {s : Setting} {e : Expr} (hint : s.table.isNumeric .int = true)
    (hlong : s.table.isNumeric .long = true) (he : e.Whole s) :
    s.table.isNumeric (e.typeIn s.enclosing) = true := by
  cases he with
  | constant _ hn => exact hn
  | localVar ht =>
    rcases ht with ht | ht <;> rw [ht]
    · exact hint
    · exact hlong
  | operator _ _ _ hn => exact hn

/-- The integer that the expression stands for. -/
def exactValue (locals : List Value) : Expr → Int
  | .constant (.int v) _ => v.toInt
  | .constant (.long v) _ => v.toInt
  | .localVar slot _ =>
    (((Locals.ofValues locals).get? slot).bind Value.number?).elim 0 fun n => n.toInt64.toInt
  | .operator left op right _ =>
    match (Arithmetic.ofName? op).bind Arithmetic.whole? with
    | some whole => whole (left.exactValue locals) (right.exactValue locals)
    | none => 0
  | _ => 0

/-- The first operator, in the order of evaluation, whose exact result does not fit in 64 bits. -/
def overflow? (locals : List Value) : Expr → Option String
  | .operator left op right note =>
    left.overflow? locals <|> right.overflow? locals <|>
      if FitsLong ((Expr.operator left op right note).exactValue locals) then none else some op
  | _ => none

/-- The slots hold values of the types that the local variables of the expression have. -/
def Holds (enclosing : ClassId) (locals : List Value) : Expr → Prop
  | .localVar slot note => ∃ value, (Locals.ofValues locals).get? slot = some value ∧
      ((Expr.localVar slot note).typeIn enclosing).Admits value
  | .operator left _ right _ => left.Holds enclosing locals ∧ right.Holds enclosing locals
  | _ => True

/-- The outcome is a number that stands for the integer, if no result is too large on the way, and
the first overflow otherwise. -/
def Yields (locals : List Value) (e : Expr) (r : Except MachineError Value) : Prop :=
  match e.overflow? locals with
  | none => ∃ value, r = .ok value ∧ value.IsWhole (e.exactValue locals)
  | some op => r = .error (.arithmetic (.overflow op))

variable {locals : List Value}

theorem Yields.operator {left right : Expr} {op : Arithmetic} {whole : Int → Int → Int}
    {note : Note} {r₁ r₂ : Except MachineError Value}
    {f : Value → Value → Except MachineError Value}
    (hop : op.whole? = some whole) (h₁ : left.Yields locals r₁) (h₂ : right.Yields locals r₂)
    (hf : ∀ {x y n k}, x.IsWhole n → y.IsWhole k → IsExact op.name (whole n k) (f x y)) :
    (Expr.operator left op.name right note).Yields locals (do let x ← r₁; let y ← r₂; f x y) := by
  have hvalue : (Expr.operator left op.name right note).exactValue locals =
      whole (left.exactValue locals) (right.exactValue locals) := by
    have hname : Arithmetic.ofName? op.name = some op := by cases op <;> rfl
    simp only [exactValue, hname, Option.bind_some, hop]
  unfold Yields at h₁ h₂ ⊢
  rw [overflow?, hvalue]
  cases hl : left.overflow? locals with
  | some op₁ =>
    rw [hl] at h₁
    rw [h₁]
    rfl
  | none =>
    rw [hl] at h₁
    obtain ⟨x, rfl, hx⟩ := h₁
    cases hr : right.overflow? locals with
    | some op₂ =>
      rw [hr] at h₂
      rw [h₂]
      rfl
    | none =>
      rw [hr] at h₂
      obtain ⟨y, rfl, hy⟩ := h₂
      have hexact := hf hx hy
      unfold IsExact at hexact
      by_cases hfits : FitsLong (whole (left.exactValue locals) (right.exactValue locals))
      · rw [if_pos hfits] at hexact ⊢
        exact hexact
      · rw [if_neg hfits] at hexact ⊢
        exact hexact

end Expr

/-! ## Numbers as operands -/

namespace ClassTable

variable {t : ClassTable}

theorem isNumeric_wrapped (t : ClassTable) (ty : Ty) : t.isNumeric ty.wrapped = t.isNumeric ty := by
  cases ty <;> rfl

/-- `Number` itself is a number, if there is any. -/
theorem isNumeric_number {ty : Ty} (h : t.isNumeric ty = true) :
    t.isNumeric (.ofClass .number) = true := by
  have hself : ClassId.number ∈ t.superclasses .number := by
    obtain ⟨c, -, hc⟩ := (Option.any_eq_true _ _).mp h
    have hc : ClassId.number ∈ chain t.superclass? t.size c := List.contains_iff_mem.mp hc
    show ClassId.number ∈ chain t.superclass? t.size .number
    cases hsize : t.size with
    | zero =>
      rw [hsize] at hc
      cases hc
    | succ n => exact List.mem_cons_self
  simpa [isNumeric, Ty.wrapped, Ty.class?, derivesFrom] using hself

/-- Of two numbers the helpers answer the operators they are for. -/
theorem selectOperator_numeric {receiver argument : Ty} (options : Options)
    (hr : t.isNumeric receiver = true) (ha : t.isNumeric argument = true) (op : Arithmetic) :
    t.selectOperator options receiver argument op.name = some (.arithmetic op) := by
  have hname : Arithmetic.ofName? op.name = some op := by cases op <;> rfl
  unfold selectOperator primitiveOperator?
  rw [hr, ha, hname]
  rfl

end ClassTable

/-- A number is boxed as what it is. -/
theorem Value.IsWhole.boxed {value : Value} {n : Int} {ty : Ty} (h : value.IsWhole n)
    (hb : ty ≠ .boolean) : (ty.boxed value).IsWhole n := by
  obtain ⟨b, hnumber, hwhole⟩ := h
  refine ⟨b, ?_, hwhole⟩
  cases ty with
  | prim p =>
    have hp : p ≠ .boolean := fun hp => hb (congrArg Ty.prim hp)
    cases value with
    | int v =>
      show (Value.boxed (if p = .boolean then _ else _)).number? = some b
      rw [if_neg hp]
      exact hnumber
    | _ => exact hnumber
  | _ => exact hnumber

namespace Emit

variable {s : Setting} {d d' : Draft} {ty : Ty} {e : Expr} {code : List Instruction}

/-- A number is boxed to be used as a `Number`, if it is primitive. -/
theorem returns_coerce_number {below : List Ty} {u : Unit} (hs : d.stack = ty :: below)
    (hn : s.table.isNumeric ty = true) :
    Returns (coerce s (.ofClass .number)) d u d' ↔
      d' = { d with code := d.code ++ boxCode s ty, stack := ty.wrapped :: below } := by
  have hfits := ClassTable.assignable_of_isNumeric hn
  rw [← ClassTable.isNumeric_wrapped] at hn
  cases ty with
  | prim p =>
    unfold coerce
    simp only [returns_bind, returns_top?, and_assoc, exists_and_left, exists_eq_left, hs,
      List.head?_cons, returns_boxTop hs, exists_const]
    rw [returns_castTo rfl, castCode, castType, if_pos hfits, if_pos hfits, List.append_nil]
  | object c args =>
    have hfits : s.table.assignable (.object c args) (.ofClass .number) = true := hfits
    rw [coerce_object hs, returns_castTo hs, castCode, castType, if_pos hfits, if_pos hfits]
    rfl
  | _ => cases hn

/-- The code of a number: it is plain, and puts what the expression yields on the stack. -/
structure Calculates (s : Setting) (e : Expr) (ty : Ty) (code : List Instruction) : Prop where
  numeric : s.table.isNumeric ty = true
  noTruth : ty ≠ .boolean
  plain : ∀ i ∈ code, i.isPlain = true
  runs : ∀ (m : Machine) (locals : List Value), m.functions = Helper.standard .standard →
    e.Holds s.enclosing locals → ∃ r, m.Computes (.ofValues locals) code r ∧ e.Yields locals r ∧
      ∀ value, r = .ok value → ty.Admits value

/-- The number boxed. -/
theorem Calculates.boxed (hb : s.table.Built) (h : Calculates s e ty code) :
    Calculates s e ty.wrapped (code ++ boxCode s ty) where
  numeric := (ClassTable.isNumeric_wrapped s.table ty).trans h.numeric
  noTruth := by cases ty <;> nofun
  plain := by
    refine List.forall_mem_append.mpr ⟨h.plain, ?_⟩
    cases ty with
    | prim p => exact List.forall_mem_singleton.mpr rfl
    | _ => exact List.forall_mem_nil _
  runs := by
    intro m locals hm hlocals
    obtain ⟨r, hcomputes, hyields, hadmits⟩ := h.runs m locals hm hlocals
    refine ⟨r >>= fun value => .ok (ty.boxed value), hcomputes.reads fun value hvalue heap =>
      boxCode_reads hb hm (hadmits value hvalue), ?_, ?_⟩
    · unfold Expr.Yields at hyields ⊢
      split at hyields
      · obtain ⟨value, rfl, hwhole⟩ := hyields
        exact ⟨ty.boxed value, rfl, hwhole.boxed h.noTruth⟩
      · rw [hyields]
        rfl
    · intro value _
      cases ty <;> trivial

theorem Calculates.operator {left right : Expr} {leftCode rightCode : List Instruction}
    {leftTy rightTy : Ty} {op : Arithmetic} {whole : Int → Int → Int} (note : Note)
    (hn : s.table.isNumeric (.ofClass .number) = true) (hop : op.whole? = some whole)
    (hl : Calculates s left leftTy leftCode) (hr : Calculates s right rightTy rightCode) :
    Calculates s (.operator left op.name right note) (.ofClass .number)
      (leftCode ++ (rightCode ++ [.invoke .static
        ⟨Options.standard.numberHelperPackage ++ "/" ++ op.helper, op.name,
          numberPairDescriptor⟩])) where
  numeric := hn
  noTruth := nofun
  plain := List.forall_mem_append.mpr ⟨hl.plain,
    List.forall_mem_append.mpr ⟨hr.plain, List.forall_mem_singleton.mpr rfl⟩⟩
  runs := by
    intro m locals hm hlocals
    obtain ⟨r₁, hcomputes₁, hyields₁, -⟩ := hl.runs m locals hm hlocals.1
    obtain ⟨r₂, hcomputes₂, hyields₂, -⟩ := hr.runs m locals hm hlocals.2
    obtain ⟨fraction, hcall⟩ := Machine.straight_arithmetic hm hop
    exact ⟨_, hcomputes₁.pair hcomputes₂ fun heap => hcall heap (.ofValues locals),
      hyields₁.operator hop hyields₂ Helper.exactOn_whole, fun _ _ => trivial⟩

theorem calculates_constant {value : Constant} {note : Note}
    (hv : value.type = .int ∨ value.type = .long) (hn : s.table.isNumeric value.type = true) :
    Calculates s (.constant value note) value.type [constantCode value] where
  numeric := hn
  noTruth := by rcases hv with hv | hv <;> rw [hv] <;> nofun
  plain := List.forall_mem_singleton.mpr (by cases value <;> rfl)
  runs := by
    intro m locals hm _
    cases value with
    | int v =>
      refine ⟨.ok (.int v), fun _ _ _ => rfl, ⟨.int v, rfl, Value.isWhole_int v⟩, ?_⟩
      rintro _ ⟨⟩
      rfl
    | long v =>
      refine ⟨.ok (.long v), fun _ _ _ => rfl, ⟨.long v, rfl, Value.isWhole_long v⟩, ?_⟩
      rintro _ ⟨⟩
      rfl
    | _ => rcases hv with hv | hv <;> cases hv

/-- Values of the types `int` and `long` are integers. -/
private theorem integral_of_admits {value : Value} (ht : ty = .int ∨ ty = .long)
    (hv : ty.Admits value) : ∃ n, value.number? = some n ∧ n.isIntegral = true := by
  rcases ht with rfl | rfl
  · cases value with
    | int v => exact ⟨.integer v, rfl, rfl⟩
    | long v => cases hv
    | double v => rcases hv with hv | hv <;> cases hv
    | _ => cases hv
  · cases value with
    | int v => cases hv
    | long v => exact ⟨.long v, rfl, rfl⟩
    | double v => rcases hv with hv | hv <;> cases hv
    | _ => cases hv

theorem calculates_local {slot : UInt16} {note : Note}
    (ht : (Expr.localVar slot note).typeIn s.enclosing = .int ∨
      (Expr.localVar slot note).typeIn s.enclosing = .long)
    (hn : s.table.isNumeric ((Expr.localVar slot note).typeIn s.enclosing) = true) :
    Calculates s (.localVar slot note) ((Expr.localVar slot note).typeIn s.enclosing)
      [.load (.ofType ((Expr.localVar slot note).typeIn s.enclosing)) slot] where
  numeric := hn
  noTruth := by rcases ht with ht | ht <;> rw [ht] <;> nofun
  plain := List.forall_mem_singleton.mpr rfl
  runs := by
    intro m locals hm hlocals
    obtain ⟨value, hslot, hadmits⟩ := hlocals
    obtain ⟨n, hnumber, hintegral⟩ := integral_of_admits ht hadmits
    refine ⟨.ok value, fun heap below position => ?_, ⟨value, rfl, n, hnumber, hintegral, ?_⟩, ?_⟩
    · rw [Machine.straight_load hslot]
      rfl
    · simp only [Expr.exactValue, hslot, Option.bind_some, hnumber]
      rfl
    · rintro _ ⟨⟩
      exact hadmits

/-- A whole expression is always written. -/
theorem whole_written (hb : s.table.Built) (ho : s.options = .standard)
    (hint : s.table.isNumeric .int = true) (hlong : s.table.isNumeric .long = true)
    (he : e.Whole s) (d : Draft) :
    ∃ ty code, Calculates s e ty code ∧ Returns (expr s e) d ty { d with
      code := d.code ++ code
      stack := ty :: d.stack } := by
  -- the right operand is written behind the boxed left one, so the draft has to vary
  induction he generalizing d with
  | @constant value note hv hn =>
    refine ⟨value.type, _, calculates_constant hv ?_, ?_⟩
    · rcases hv with hv | hv <;> rw [hv]
      · exact hint
      · exact hlong
    · unfold expr
      simp only [returns_bind, returns_emit, returns_push, returns_pure, exists_eq_left,
        exists_const, and_self]
  | @localVar slot note ht =>
    exact ⟨_, _, calculates_local ht ((Expr.Whole.localVar ht).isNumeric hint hlong),
      returns_loadLocal.mpr ⟨rfl, rfl⟩⟩
  | @operator left right op whole note hop hl hr hn ihl ihr =>
    obtain ⟨leftTy, leftCode, hleft, hleftWritten⟩ := ihl d
    obtain ⟨rightTy, rightCode, hright, hrightWritten⟩ := ihr { d with
      code := d.code ++ leftCode ++ boxCode s leftTy
      stack := leftTy.wrapped :: d.stack }
    have hnumber := ClassTable.isNumeric_number hint
    refine ⟨_, _, .operator note hnumber hop (hleft.boxed hb) (hright.boxed hb), ?_⟩
    have hselect := ClassTable.selectOperator_numeric s.options (hl.isNumeric hint hlong)
      (hr.isNumeric hint hlong) op
    unfold expr operator
    simp only [hselect]
    unfold boundOperator helperCall
    simp only [returns_bind, returns_discard, returns_depth, returns_emit, returns_replace,
      returns_pure, and_assoc, exists_and_left, exists_eq_left, exists_const]
    refine ⟨_, ⟨_, hleftWritten⟩, (), _, (returns_coerce_number rfl hleft.numeric).mpr rfl, _,
      ⟨_, hrightWritten⟩, (), _, (returns_coerce_number rfl hright.numeric).mpr rfl, trivial, ?_⟩
    have htwo : (rightTy.wrapped :: leftTy.wrapped :: d.stack).length - d.stack.length = 2 := by
      simp only [List.length_cons]
      omega
    simp only [htwo, ho, List.append_assoc, List.drop_succ_cons, List.drop_zero]

/-- An expression made of `int` and `long` constants and local variables by sums, differences and
products is always written, if the wrappers of both types are numbers, as in the standard table.
With steps enough, its code ends with a number that stands for the integer that the expression
stands for, if all results on the way fit in 64 bits. Otherwise it fails with the first overflow. -/
theorem expr_exact (s : Setting) (e : Expr) (d : Draft) (hb : s.table.Built)
    (ho : s.options = .standard) (hint : s.table.isNumeric .int = true)
    (hlong : s.table.isNumeric .long = true) (he : e.Whole s) :
    ∃ ty code, expr s e d = (.ok ty, { d with code := d.code ++ code, stack := ty :: d.stack }) ∧
      ∀ (m : Machine) (locals : List Value), m.functions = Helper.standard .standard →
        e.Holds s.enclosing locals →
        m.Ends code locals fun _ result => e.Yields locals result := by
  obtain ⟨ty, code, hcalculates, hwritten⟩ := whole_written hb ho hint hlong he d
  refine ⟨ty, code, hwritten, fun m locals hm hlocals => ?_⟩
  obtain ⟨r, hcomputes, hyields, -⟩ := hcalculates.runs m locals hm hlocals
  refine (hcomputes.ends hcalculates.plain).imp fun heap result hresult => ?_
  rw [hresult]
  exact hyields

/-- `(n + 1) - 1`, of a `long` in slot 1. -/
def backAndForth : Expr :=
  .operator (.operator (.localVar 1 { type := .long }) "plus" (.constant (.int 1) { type := .int })
    { type := .ofClass .number }) "minus" (.constant (.int 1) { type := .int })
    { type := .ofClass .number }

theorem backAndForth_whole : backAndForth.Whole objectSetting :=
  .operator (show Arithmetic.minus.whole? = some _ from rfl)
    (.operator (show Arithmetic.plus.whole? = some _ from rfl) (.localVar (Or.inr rfl))
      (.constant (Or.inl rfl) (by decide)) (by decide))
    (.constant (Or.inl rfl) (by decide)) (by decide)

/-- The sum overflows if `n` is the largest `long`, though the difference would fit. -/
theorem expr_exact_backAndForth :
    (objectSetting.table.Built ∧ objectSetting.options = .standard ∧
        objectSetting.table.isNumeric .int = true ∧ objectSetting.table.isNumeric .long = true ∧
        backAndForth.Whole objectSetting ∧
        (Machine.new .standard .standard).functions = Helper.standard .standard ∧
        backAndForth.Holds .object [.null, .long 5] ∧
        backAndForth.Holds .object [.null, .long 9223372036854775807]) ∧
      ∃ code, (expr objectSetting backAndForth (.empty 2)).2.code = code ∧
        ((Machine.new .standard .standard).Ends code [.null, .long 5] fun _ result =>
          ∃ value, result = .ok value ∧ value.IsWhole 5) ∧
        (Machine.new .standard .standard).Ends code [.null, .long 9223372036854775807]
          fun _ result => result = .error (.arithmetic (.overflow "plus")) := by
  obtain ⟨ty, code, hwritten, hruns⟩ := expr_exact objectSetting backAndForth (.empty 2) .standard
    rfl (by decide) (by decide) backAndForth_whole
  have hsmall : backAndForth.overflow? [.null, .long 5] = none := by decide
  have hlarge : backAndForth.overflow? [.null, .long 9223372036854775807] = some "plus" := by decide
  have hholds : ∀ n, backAndForth.Holds .object [.null, .long n] :=
    fun n => ⟨⟨⟨.long n, rfl, rfl⟩, trivial⟩, trivial⟩
  refine ⟨⟨.standard, rfl, by decide, by decide, backAndForth_whole, rfl, hholds 5, hholds _⟩, code,
    congrArg (fun p => p.2.code) hwritten, ?_, ?_⟩
  · refine (hruns (.new .standard .standard) [.null, .long 5] rfl (hholds 5)).imp fun heap r h => ?_
    rw [Expr.Yields, hsmall] at h
    exact h
  · refine (hruns (.new .standard .standard) [.null, .long 9223372036854775807] rfl
      (hholds _)).imp fun heap r h => ?_
    rw [Expr.Yields, hlarge] at h
    exact h

end Emit

end CallSite
