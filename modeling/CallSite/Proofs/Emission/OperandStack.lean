import CallSite.Proofs.Emission.Access

/-!
# The operand stack of a draft

A written expression leaves its type as the one new entry of the operand stack. Property accesses
make sure of it; operators do not, and a declared subscript or an extension method without a result
leaves nothing.
-/

namespace CallSite

namespace Emit

variable {s : Setting} {d d' : Draft} {ty : Ty}

/-- Whenever the step returns a type, that type is the one new operand. -/
def Pushes (step : Emit Ty) : Prop :=
  ∀ d ty d', Returns step d ty d' → d'.stack = ty :: d.stack

/-- Whenever the step returns, there is one new operand. -/
def PushesOne (step : Emit Unit) : Prop :=
  ∀ d d', Returns step d () d' → ∃ ty, d'.stack = ty :: d.stack

theorem Pushes.one {step : Emit Ty} (h : Pushes step) : PushesOne (discard step) := by
  intro d d' hr
  obtain ⟨ty, hr⟩ := returns_discard.mp hr
  exact ⟨ty, h d ty d' hr⟩

theorem pushNull_one : PushesOne pushNull := by
  intro d d' h
  exact ⟨_, by rw [returns_pushNull.mp h]⟩

theorem pushString_one (text : String) : PushesOne (pushString text) := by
  intro d d' h
  exact ⟨_, by rw [returns_pushString.mp h]⟩

/-! ## Conversions -/

/-- A conversion keeps everything below the topmost operand. -/
theorem Converts.stack {ty : Ty} {rest : List Ty} (h : Converts d d') (hs : d.stack = ty :: rest) :
    ∃ ty', d'.stack = ty' :: rest := by
  obtain ⟨is, stack, -, rfl, hstack⟩ := h
  exact hstack ty rest hs

private theorem boxTop_length {u : Unit} (h : Returns (boxTop s) d u d') :
    d'.stack.length = d.stack.length := by
  rcases boxTop_inv h with ⟨rfl, -⟩ | ⟨p, hp, rfl⟩
  · rfl
  · obtain ⟨rest, hs⟩ := List.head?_eq_some_iff.mp hp
    rw [hs]
    rfl

/-! ## Calls -/

/-- The arguments are the new operands. -/
private theorem arguments_stack {args : List (Emit Unit)} {params : List Ty}
    (ha : ∀ arg ∈ args, PushesOne arg) (h : Returns (arguments s args params) d () d') :
    ∃ tys, d'.stack = tys ++ d.stack := by
  induction args generalizing params d with
  | nil =>
    obtain ⟨-, rfl⟩ := returns_pure.mp h
    exact ⟨[], rfl⟩
  | cons arg args ih =>
    obtain ⟨d₁, d₂, harg, hc, hrest⟩ := arguments_cons_inv h
    obtain ⟨ty, hs⟩ := ha arg List.mem_cons_self d d₁ harg
    obtain ⟨ty', hs'⟩ := hc.stack hs
    obtain ⟨tys, ht⟩ := ih (fun a hm => ha a (List.mem_cons_of_mem arg hm)) hrest
    exact ⟨tys ++ [ty'], by rw [ht, hs', List.append_assoc, List.singleton_append]⟩

/-- After the call instruction, its result stands in place of the operands above `below`. -/
private theorem called_stack (s : Setting) (method : Method) {mid : Draft} {tys below : List Ty}
    (h : mid.stack = tys ++ below) :
    (Draft.called s method below.length mid).stack =
      (if method.returns = .void then [] else [method.returns]) ++ below := by
  show _ ++ mid.stack.drop (mid.stack.length - below.length) = _
  rw [h, List.length_append, Nat.add_sub_cancel, List.drop_left]

/-- A call leaves its result, if it has one. -/
theorem call_stack {receiver : Emit Ty} {method : Method} {args : List (Emit Unit)} {safe : Bool}
    (hr : method.takesReceiver = true → Pushes receiver) (ha : ∀ arg ∈ args, PushesOne arg)
    (h : Returns (call s receiver method args safe) d ty d') :
    (method.returns ≠ .void → d'.stack = ty :: d.stack) ∧
      (method.returns = .void → safe = false → d'.stack = d.stack) ∧
      (method.returns = .void → d'.stack.length = d.stack.length) := by
  -- without a jump around it, the call leaves nothing but its result
  have hplain : ∀ mid tys, mid.stack = tys ++ d.stack →
      d' = Draft.called s method d.stack.length mid → ty = d'.stack.head?.getD .void →
      (method.returns ≠ .void → d'.stack = ty :: d.stack) ∧
        (method.returns = .void → d'.stack = d.stack) := by
    rintro mid tys hmid rfl hty
    have hstack := called_stack s method hmid
    refine ⟨fun hv => ?_, fun hv => ?_⟩
    · rw [if_neg hv] at hstack
      rw [hstack] at hty ⊢
      rw [hty]
      rfl
    · rw [if_pos hv] at hstack
      exact hstack
  cases ht : method.takesReceiver with
  | false =>
    obtain ⟨mid, hargs, hd, hty⟩ := (returns_call_static ht).mp h
    obtain ⟨tys, htys⟩ := arguments_stack ha hargs
    obtain ⟨hv, hvoid⟩ := hplain mid tys htys hd hty
    exact ⟨hv, fun hr _ => hvoid hr, fun hr => by rw [hvoid hr]⟩
  | true =>
    cases safe with
    | false =>
      obtain ⟨self, d₁, d₂, d₃, hself, hc, hargs, hd, hty⟩ := (returns_call_plain ht).mp h
      obtain ⟨self', hs'⟩ := (coerce_converts hc).stack (hr ht d self d₁ hself)
      obtain ⟨tys, htys⟩ := arguments_stack ha hargs
      have hmid : d₃.stack = (tys ++ [self']) ++ d.stack := by
        rw [htys, hs', List.append_assoc, List.singleton_append]
      obtain ⟨hv, hvoid⟩ := hplain d₃ _ hmid hd hty
      exact ⟨hv, fun hr _ => hvoid hr, fun hr => by rw [hvoid hr]⟩
    | true =>
      obtain ⟨self, d₁, d₂, d₃, d₄, hself, hc, hargs, hb, rfl, hty⟩ := call_inv_safe ht h
      obtain ⟨self', hs'⟩ := (coerce_converts hc).stack (hr ht d self d₁ hself)
      obtain ⟨tys, htys⟩ := arguments_stack ha hargs
      have hmid : d₃.stack = (tys ++ [self']) ++ d.stack := by
        rw [htys, hs', List.append_assoc, List.singleton_append]
      have hstack := called_stack s method hmid
      refine ⟨fun hv => ?_, fun _ => nofun, fun hv => ?_⟩
      · rw [if_neg hv] at hstack
        obtain ⟨ty', hty'⟩ := (boxTop_converts hb).stack hstack
        rw [hty]
        show d₄.stack = d₄.stack.head?.getD .void :: d.stack
        rw [hty']
        rfl
      · rw [if_pos hv, List.nil_append] at hstack
        show d₄.stack.length = d.stack.length
        rw [boxTop_length hb, hstack]

/-! ## Loops -/

/-- A loop leaves the list it has made. -/
theorem collect_pushes {site : Site} {member : String} {component : Ty} {receiver : Emit Ty}
    {access : Site → Emit Ty} (hr : Pushes receiver) (ha : ∀ site, Pushes (access site)) :
    Pushes (collect s site member component receiver access) := by
  intro d ty d' h
  obtain ⟨listType, item, d₁, d₂, d₃, hlist, hitem, hbox, -, hrelease, rfl⟩ := collect_inv h
  have h₁ := hr _ _ _ hlist
  have h₂ := ha _ _ _ _ hitem
  obtain ⟨item', h₃⟩ := (boxTop_converts hbox).stack h₂
  obtain ⟨ts, rfl⟩ := forM_release_inv hrelease
  show Ty.ofClass .arrayList :: d₃.stack.drop 2 = _
  rw [h₃, h₁]
  rfl

/-! ## Properties -/

theorem loadLocal_pushes (slot : UInt16) (note : Note) : Pushes (loadLocal s slot note) := by
  intro d ty d' h
  rw [(returns_loadLocal.mp h).2]

private theorem readField_pushes {receiver : Emit Ty} {field : Field}
    (hr : field.isStatic = false → Pushes receiver) : Pushes (readField s receiver field) := by
  intro d ty d' h
  cases hs : field.isStatic with
  | true =>
    obtain ⟨rfl, rfl⟩ := readField_inv_static hs h
    rfl
  | false =>
    obtain ⟨self, d₁, d₂, hself, hc, rfl, rfl⟩ := (returns_readField_instance hs).mp h
    obtain ⟨self', hs'⟩ := (castTo_converts hc).stack (hr hs d self d₁ hself)
    show field.type :: d₂.stack.drop 1 = _
    rw [hs']
    rfl

/-- What an access leaves: its type on top, or as many operands as there were if it calls a method
without a result. -/
private theorem bound_stack {binding : Binding} {site : Site} {member : String}
    {receiver : Emit Ty} {collected : Ty → Emit Ty}
    (hr : binding.evaluates = true → Pushes receiver)
    (hc : ∀ c, binding = .eachElement c → Pushes (collected c))
    (h : Returns (bound s binding site member receiver collected) d ty d') :
    d'.stack = ty :: d.stack ∨
      (∃ m, binding.method? = some m ∧ m.returns = .void) ∧ d'.stack.length = d.stack.length := by
  have hcall : ∀ {method args safe}, (method.takesReceiver = true → Pushes receiver) →
      (∀ arg ∈ args, PushesOne arg) → Returns (call s receiver method args safe) d ty d' →
      d'.stack = ty :: d.stack ∨
        method.returns = .void ∧ d'.stack.length = d.stack.length := by
    intro method args safe hr ha h
    obtain ⟨hvalue, -, hvoid⟩ := call_stack hr ha h
    by_cases hv : method.returns = .void
    · exact Or.inr ⟨hv, hvoid hv⟩
    · exact Or.inl (hvalue hv)
  have hnone : ∀ arg ∈ ([] : List (Emit Unit)), PushesOne arg := nofun
  have hone : ∀ {arg}, PushesOne arg → ∀ a ∈ [arg], PushesOne a := by
    intro arg h a ha
    rw [List.mem_singleton.mp ha]
    exact h
  cases binding with
  | arrayLength =>
    obtain ⟨self, d₁, hself, rfl, rfl⟩ := bound_inv_arrayLength h
    have hs := hr rfl d self d₁ hself
    refine Or.inl ?_
    show Ty.int :: d₁.stack.drop 1 = _
    rw [hs]
    rfl
  | collectionSize => exact Or.inl ((hcall (fun _ => hr rfl) hnone h).resolve_right
      fun h => absurd h.1 (by decide))
  | getter method => exact (hcall hr hnone h).imp_right fun h => ⟨⟨method, rfl, h.1⟩, h.2⟩
  | field field =>
    refine Or.inl (readField_pushes (fun hs => hr ?_) d ty d' h)
    show (!field.isStatic) = true
    rw [hs]
    rfl
  | bridge accessor fieldStatic =>
    have hpush : PushesOne (if fieldStatic then pushNull else discard receiver) := by
      cases hf : fieldStatic with
      | true => exact pushNull_one
      | false => exact (hr (by show (_ || !fieldStatic) = true; rw [hf, Bool.or_comm]; rfl)).one
    refine (hcall (fun ht => hr ?_) (hone hpush) h).imp_right fun h => ⟨⟨accessor, rfl, h.1⟩, h.2⟩
    show (accessor.takesReceiver || !fieldStatic) = true
    rw [ht]
    rfl
  | enumConstant owner =>
    obtain ⟨rfl, rfl⟩ := bound_inv_enumConstant h
    exact Or.inl rfl
  | interfaceGetter method =>
    exact (hcall hr hnone h).imp_right fun h => ⟨⟨method, rfl, h.1⟩, h.2⟩
  | extension method => exact (hcall hr hnone h).imp_right fun h => ⟨⟨method, rfl, h.1⟩, h.2⟩
  | mapEntry =>
    exact Or.inl ((hcall (fun _ => hr rfl) (hone (pushString_one member)) h).resolve_right
      fun h => absurd h.1 (by decide))
  | eachElement component => exact Or.inl (hc component rfl d ty d' h)
  | dynamic property =>
    exact Or.inl ((hcall (fun _ => hr rfl) (hone (pushString_one property)) h).resolve_right
      fun h => absurd h.1 (by decide))
  | unresolved =>
    obtain ⟨rfl, hnull⟩ := bound_inv_unresolved h
    exact Or.inl (by rw [returns_pushNull.mp hnull])

/-- An access leaves its type, unless it calls a method without a result. -/
theorem bound_pushes {binding : Binding} {site : Site} {member : String} {receiver : Emit Ty}
    {collected : Ty → Emit Ty} (hv : ∀ m, binding.method? = some m → m.returns ≠ .void)
    (hr : binding.evaluates = true → Pushes receiver)
    (hc : ∀ c, binding = .eachElement c → Pushes (collected c)) :
    Pushes (bound s binding site member receiver collected) := fun _ _ _ h =>
  (bound_stack hr hc h).resolve_right fun ⟨⟨m, hm, hvoid⟩, _⟩ => hv m hm hvoid

/-- The access checks that one operand is new, so what it is bound to leaves one. -/
theorem access_pushes {site : Site} {receiver : Emit Ty} {collected : Ty → Emit Ty}
    (hr : (s.binding site).evaluates = true → Pushes receiver)
    (hc : ∀ c, s.binding site = .eachElement c → Pushes (collected c)) :
    Pushes (access s site receiver collected) := by
  intro d ty d' h
  obtain ⟨diagnostics, hb, hd⟩ := access_inv h
  rcases bound_stack hr hc hb with hs | ⟨-, hs⟩
  · exact hs
  · have hs : d'.stack.length = d.stack.length := hs
    omega

theorem elementReceiver_pushes (site : Site) : Pushes (elementReceiver s site) := by
  rcases elementReceiver_cases s site with ⟨slot, note, h⟩ | h
  · rw [h]
    exact loadLocal_pushes slot note
  · rw [h]
    exact fun d ty d' h => absurd h returns_throw

theorem elementAccess_pushes (depth : Nat) (site : Site) :
    Pushes (elementAccess s depth site) := by
  induction depth generalizing site with
  | zero => exact fun d ty d' h => absurd h returns_throw
  | succ depth ih =>
    rw [elementAccess_succ]
    exact access_pushes (fun _ => elementReceiver_pushes site) fun component _ =>
      collect_pushes (elementReceiver_pushes site) ih

private theorem property_pushes {site : Site} {receiver : Emit Ty}
    (hr : (s.binding site).evaluates = true → Pushes receiver) :
    Pushes (property s site receiver) := by
  refine access_pushes hr fun component hb => ?_
  have hreceiver := hr (by rw [hb]; rfl)
  exact collect_pushes hreceiver (elementAccess_pushes _)

/-! ## Operators -/

end Emit

/-- The operator calls a method without a result. -/
def OperatorBinding.isVoid (binding : OperatorBinding) : Bool :=
  binding.method?.any fun m => m.returns == .void

theorem OperatorBinding.isVoid_of_callee {binding : OperatorBinding} {m : Method}
    (h : binding.callee? = some m) : binding.isVoid = (m.returns == .void) := by
  cases binding with
  | subscript method => cases h; rfl
  | extension method => cases h; rfl
  | mapEntry => cases h; rfl
  | _ => cases h

theorem OperatorBinding.isVoid_of_instruction {binding : OperatorBinding}
    (h : binding.callee? = none) : binding.isVoid = false := by
  cases binding with
  | subscript method => cases h
  | extension method => cases h
  | _ => rfl

/-- The expression is an operator that calls a method without a result. -/
def Expr.isVoid (s : Setting) : Expr → Bool
  | .operator left op right _ => (s.operatorBinding? left op right).any OperatorBinding.isVoid
  | _ => false

/-- Every operand that is evaluated inside the expression has a value. -/
def Expr.OperandsValued (s : Setting) : Expr → Prop
  | .property receiver access _ =>
    (s.binding { access with receiver }).evaluates = true →
      receiver.isVoid s = false ∧ receiver.OperandsValued s
  | .operator left op right _ =>
    ∀ binding, s.operatorBinding? left op right = some binding →
      (binding.evaluates = true → left.isVoid s = false ∧ left.OperandsValued s) ∧
        right.isVoid s = false ∧ right.OperandsValued s
  | _ => True

namespace Emit

variable {s : Setting} {d d' : Draft} {ty : Ty}

private theorem boundOperator_stack {binding : OperatorBinding} {receiver argument : Emit Ty}
    (hr : binding.evaluates = true → Pushes receiver) (ha : Pushes argument)
    (h : Returns (boundOperator s binding receiver argument) d ty d') :
    d'.stack = if binding.isVoid then d.stack else ty :: d.stack := by
  have hone : ∀ arg ∈ [(discard argument : Emit Unit)], PushesOne arg := by
    intro arg h
    rw [List.mem_singleton.mp h]
    exact ha.one
  cases hb : binding.callee? with
  | none =>
    obtain ⟨self, arg, d₁, d₂, d₃, d₄, i, hself, hc, harg, hc', -, rfl⟩ :=
      boundOperator_inv_pair hb h
    have he := OperatorBinding.evaluates_of_instruction hb
    obtain ⟨self', hs₂⟩ := hc.stack (hr he d self d₁ hself)
    have hs₃ := ha d₂ arg d₃ harg
    rw [hs₂] at hs₃
    obtain ⟨arg', hs₄⟩ := hc'.stack hs₃
    rw [OperatorBinding.isVoid_of_instruction hb]
    show ty :: d₄.stack.drop (d₄.stack.length - d.stack.length) = _
    rw [hs₄, List.length_cons, List.length_cons, Nat.add_assoc, Nat.add_sub_cancel_left]
    rfl
  | some method =>
    rw [OperatorBinding.evaluates_of_callee hb] at hr
    obtain ⟨hvalue, hvoid, -⟩ := call_stack hr hone (boundOperator_inv_call hb h)
    rw [OperatorBinding.isVoid_of_callee hb]
    by_cases hv : method.returns = .void
    · rw [if_pos (beq_iff_eq.mpr hv), hvoid hv rfl]
    · rw [if_neg (mt beq_iff_eq.mp hv), hvalue hv]

/-- If every operand inside has a value, a written expression leaves its type on top of the stack
as it was. The exception is an operator that calls a method without a result: it leaves the stack
as it was, and nothing notices. -/
theorem expr_stack {e : Expr} (hv : e.OperandsValued s) (h : Returns (expr s e) d ty d') :
    d'.stack = if e.isVoid s then d.stack else ty :: d.stack := by
  have hpushes : ∀ {e : Expr}, e.isVoid s = false →
      (∀ {d ty d'}, Returns (expr s e) d ty d' →
        d'.stack = if e.isVoid s then d.stack else ty :: d.stack) → Pushes (expr s e) := by
    intro e he hs d ty d' h
    rw [hs h, he]
    rfl
  induction e generalizing d ty d' with
  | this note =>
    rw [(expr_inv_this h).2]
    rfl
  | localVar slot note => rw [(returns_loadLocal.mp h).2]; rfl
  | classLiteral type note =>
    rw [(expr_inv_classLiteral h).2]
    rfl
  | constant value note =>
    rw [(expr_inv_constant h).2]
    rfl
  | property receiver access note ih =>
    refine property_pushes (fun he => ?_) d ty d' h
    obtain ⟨hvoid, hin⟩ := hv he
    exact hpushes hvoid fun h => ih hin h
  | operator left op right note ihl ihr =>
    obtain ⟨binding, hb, hbound⟩ := operator_inv h
    obtain ⟨hleft, hvoid, hright⟩ := hv binding hb
    have hs := boundOperator_stack
      (fun he => hpushes (hleft he).1 fun h => ihl (hleft he).2 h)
      (hpushes hvoid fun h => ihr hright h) hbound
    have he : (Expr.operator left op right note).isVoid s = binding.isVoid := by
      simp only [Expr.isVoid, hb, Option.any_some]
    rw [he]
    exact hs

theorem expr_pushes {e : Expr} (he : e.isVoid s = false) (hv : e.OperandsValued s) :
    Pushes (expr s e) := by
  intro d ty d' h
  rw [expr_stack hv h, he]
  rfl

/-- An expression whose operands have values leaves exactly the stack as it was with its type on
top, unless it is itself an operator that calls a method without a result; then it leaves the stack
as it was. -/
theorem expr_pushes_type_iff (s : Setting) (e : Expr) (d : Draft) (ty : Ty)
    (hv : e.OperandsValued s) (h : (expr s e d).1 = .ok ty) :
    ((expr s e d).2.stack = ty :: d.stack ↔ e.isVoid s = false) ∧
      (e.isVoid s = true → (expr s e d).2.stack = d.stack) := by
  have hstack := expr_stack hv (Prod.ext h rfl : Returns (expr s e) d ty (expr s e d).2)
  cases he : e.isVoid s with
  | false =>
    rw [he] at hstack
    exact ⟨⟨fun _ => rfl, fun _ => hstack⟩, nofun⟩
  | true =>
    rw [he, if_pos rfl] at hstack
    refine ⟨⟨fun hs => ?_, nofun⟩, fun _ => hstack⟩
    rw [hstack] at hs
    exact absurd hs List.ne_cons_self

/-- Code of a class of its own in a table with a class whose subscript by a string has no result. -/
def gridSetting : Setting where
  table :=
    match ClassTable.standard.declare "p.Grid" .cls with
    | .ok (t, grid) => t.addMethod grid
      { name := "getAt", owner := grid, params := [.ofClass .string], returns := .void }
    | .error _ => .standard
  enclosing := ⟨24⟩
  options := .standard

/-- `grid.getAt("a")` -/
def gridAt : Expr :=
  .operator (.localVar 1 { type := .ofClass ⟨24⟩ }) "getAt"
    (.constant (.string "a") { type := .ofClass .string }) { type := .ofClass .object }

/-- `1 + 2` -/
def onePlusTwo : Expr :=
  .operator (.constant (.int 1) { type := .int }) "plus" (.constant (.int 2) { type := .int })
    { type := .ofClass .number }

/-- With an operand on the stack, the subscript without a result passes that operand off as its
own. -/
theorem expr_pushes_nothing_gridAt :
    let d := { Draft.empty 2 with stack := [.int] }
    (expr gridSetting gridAt d).1 = .ok .int ∧
      (expr gridSetting gridAt d).2.stack ≠ .int :: d.stack := by
  refine ⟨rfl, fun h => ?_⟩
  have hstack : (expr gridSetting gridAt { Draft.empty 2 with stack := [.int] }).2.stack = [.int] :=
    rfl
  cases hstack.symm.trans h

theorem expr_pushes_type_iff_onePlusTwo :
    let d := { Draft.empty 2 with stack := [.boolean] }
    (onePlusTwo.OperandsValued gridSetting ∧
        (expr gridSetting onePlusTwo d).1 = .ok (.ofClass .number)) ∧
      ((expr gridSetting onePlusTwo d).2.stack = .ofClass .number :: d.stack ↔
        onePlusTwo.isVoid gridSetting = false) := by
  have hvalued : onePlusTwo.OperandsValued gridSetting :=
    fun _ _ => ⟨fun _ => ⟨rfl, trivial⟩, rfl, trivial⟩
  exact ⟨⟨hvalued, rfl⟩, (expr_pushes_type_iff _ _ _ _ hvalued rfl).1⟩

end Emit

end CallSite
