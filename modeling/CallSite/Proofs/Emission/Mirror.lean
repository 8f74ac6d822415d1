import CallSite.Proofs.Emission.Invariant
import Mathlib.Data.List.Forall2

/-!
# Two settings that differ in one option

The option of the `power` helpers is read where an operator is bound, and nowhere else. So the same
steps written for two settings that differ in this option alone leave drafts that only their code
can tell apart, and the code instruction by instruction.
-/

namespace CallSite

/-- The setting with the option of the `power` helpers set so. -/
def Setting.withPowerPaths (s : Setting) (on : Bool) : Setting :=
  { s with options := { s.options with powerFastPaths := on } }

namespace Emit

variable {R : Instruction → Instruction → Prop} {α β : Type}

/-- On drafts whose code is related by `R`, both steps do the same but for such code. -/
def Mirrors (R : Instruction → Instruction → Prop) (step step' : Emit α) : Prop :=
  ∀ (d : Draft) (code : List Instruction), List.Forall₂ R d.code code →
    ∃ code', List.Forall₂ R (step d).2.code code' ∧
      step' { d with code } = ((step d).1, { (step d).2 with code := code' })

theorem mirrors_pure {a : α} : Mirrors R (pure a) (pure a) := fun _ code h => ⟨code, h, rfl⟩

theorem mirrors_throw {e : CompileError} : Mirrors R (throw e : Emit α) (throw e) :=
  fun _ code h => ⟨code, h, rfl⟩

theorem Mirrors.bind {step step' : Emit α} {next next' : α → Emit β} (hs : Mirrors R step step')
    (hn : ∀ a, Mirrors R (next a) (next' a)) : Mirrors R (step >>= next) (step' >>= next') := by
  intro d code hcode
  obtain ⟨code', hcode', hstep'⟩ := hs d code hcode
  rw [bind_apply, bind_apply, hstep']
  cases hstep : step d with
  | mk r mid =>
    rw [hstep] at hcode'
    cases r with
    | ok a => exact hn a mid code' hcode'
    | error e => exact ⟨code', hcode', rfl⟩

theorem Mirrors.discard {step step' : Emit α} (hs : Mirrors R step step') :
    Mirrors R (discard step) (discard step') := hs.bind fun _ => mirrors_pure

theorem Mirrors.ite {c : Prop} [Decidable c] {a a' b b' : Emit α} (ha : Mirrors R a a')
    (hb : Mirrors R b b') : Mirrors R (if c then a else b) (if c then a' else b') := by
  split
  · exact ha
  · exact hb

/-! ## Primitive steps -/

section Primitive

variable {n : Nat} {ty : Ty}

theorem mirrors_emit {i i' : Instruction} (hi : R i i') : Mirrors R (emit i) (emit i') :=
  fun _ code h => ⟨code ++ [i'], List.rel_append h (.cons hi .nil), rfl⟩

theorem mirrors_push : Mirrors R (push ty) (push ty) := fun _ code h => ⟨code, h, rfl⟩

theorem mirrors_drop : Mirrors R (drop n) (drop n) := fun _ code h => ⟨code, h, rfl⟩

theorem mirrors_replace : Mirrors R (replace n ty) (replace n ty) := fun _ code h => ⟨code, h, rfl⟩

theorem mirrors_report {e : CompileError} : Mirrors R (report e) (report e) :=
  fun _ code h => ⟨code, h, rfl⟩

theorem mirrors_top? : Mirrors R top? top? := fun _ code h => ⟨code, h, rfl⟩

theorem mirrors_depth : Mirrors R depth depth := fun _ code h => ⟨code, h, rfl⟩

theorem mirrors_freshLabel : Mirrors R freshLabel freshLabel := fun _ code h => ⟨code, h, rfl⟩

theorem mirrors_expectDepth {what : String} {span : Span} :
    Mirrors R (expectDepth n what span) (expectDepth n what span) :=
  mirrors_depth.bind fun _ => .ite mirrors_throw mirrors_pure

theorem mirrors_release {slot : UInt16} : Mirrors R (release slot) (release slot) := by
  intro d code h
  refine ⟨code, ?_, ?_⟩
  · rw [release_apply]
    cases d.temporaries.release? slot <;> exact h
  · rw [release_apply, release_apply]
    dsimp only
    cases d.temporaries.release? slot <;> rfl

theorem mirrors_forM_release (slots : List UInt16) :
    Mirrors R (slots.forM release) (slots.forM release) := by
  induction slots with
  | nil => exact mirrors_pure
  | cons slot slots ih => exact mirrors_release.bind fun _ => ih

theorem Mirrors.releasing {slots : List UInt16} {body body' : Emit α} (hb : Mirrors R body body') :
    Mirrors R (releasing slots body) (releasing slots body') := by
  intro d code hcode
  obtain ⟨mid, hmid, hbody'⟩ := hb d code hcode
  obtain ⟨last, hlast, hrelease'⟩ := mirrors_forM_release slots (body d).2 mid hmid
  refine ⟨last, ?_, ?_⟩
  · rw [releasing_apply]
    exact hlast
  · rw [releasing_apply, releasing_apply, hbody', hrelease']

end Primitive

variable [Std.Refl R] {s : Setting} {on : Bool} {receiver receiver' : Emit Ty}

theorem mirrors_emit_same {i : Instruction} : Mirrors R (emit i) (emit i) :=
  mirrors_emit (Std.Refl.refl i)

/-- One instruction that puts an operand on the stack. -/
theorem mirrors_operand {i : Instruction} {ty : Ty} :
    Mirrors R (do emit i; push ty; return ty) (do emit i; push ty; return ty) :=
  mirrors_emit_same.bind fun _ => mirrors_push.bind fun _ => mirrors_pure

/-! ## Conversions -/

section Conversions

variable {target : Ty} {p q : Primitive}

theorem mirrors_castTo : Mirrors R (castTo s target) (castTo (s.withPowerPaths on) target) :=
  mirrors_top?.bind fun _ => .ite mirrors_pure <| mirrors_emit_same.bind fun _ => mirrors_replace

theorem mirrors_boxTop : Mirrors R (boxTop s) (boxTop (s.withPowerPaths on)) := by
  refine mirrors_top?.bind fun top => ?_
  split
  · exact mirrors_emit_same.bind fun _ => mirrors_replace
  · exact mirrors_pure

theorem mirrors_unboxTop : Mirrors R (unboxTop s p) (unboxTop (s.withPowerPaths on) p) :=
  mirrors_top?.bind fun _ => mirrors_castTo.bind fun _ => mirrors_emit_same.bind fun _ =>
    mirrors_replace

theorem mirrors_convertTop : Mirrors R (convertTop p q) (convertTop p q) := by
  have hretype : Mirrors R (if p ≠ q then replace 1 (.prim q) else pure ())
      (if p ≠ q then replace 1 (.prim q) else pure ()) := .ite mirrors_replace mirrors_pure
  exact .ite (mirrors_emit_same.bind fun _ => hretype) hretype

theorem mirrors_coerce : Mirrors R (coerce s target) (coerce (s.withPowerPaths on) target) := by
  refine mirrors_top?.bind fun top => ?_
  split
  · exact mirrors_pure
  · exact mirrors_convertTop
  · exact mirrors_pure
  · exact mirrors_boxTop.bind fun _ => mirrors_castTo
  · exact mirrors_pure
  · exact mirrors_unboxTop
  · exact mirrors_pure
  · exact mirrors_castTo

end Conversions

/-! ## Calls and field reads -/

section Calls

variable {method : Method} {args args' : List (Emit Unit)}

theorem mirrors_pushString {text : String} : Mirrors R (pushString text) (pushString text) :=
  mirrors_emit_same.bind fun _ => mirrors_push

theorem mirrors_pushNull : Mirrors R pushNull pushNull :=
  mirrors_emit_same.bind fun _ => mirrors_push

theorem mirrors_arguments {params : List Ty} (ha : List.Forall₂ (Mirrors R) args args') :
    Mirrors R (arguments s args params) (arguments (s.withPowerPaths on) args' params) := by
  induction ha generalizing params with
  | nil => exact mirrors_pure
  | cons harg _ ih =>
    refine harg.bind fun _ => ?_
    cases params with
    | nil => exact ih
    | cons param params => exact mirrors_coerce.bind fun _ => ih

theorem mirrors_receiverOf {safe : Bool} (hr : Mirrors R receiver receiver') :
    Mirrors R (receiverOf s receiver method safe)
      (receiverOf (s.withPowerPaths on) receiver' method safe) := by
  refine hr.discard.bind fun _ => ?_
  cases safe with
  | true =>
    refine mirrors_freshLabel.bind fun _ => ?_
    refine mirrors_emit_same.bind fun _ => ?_
    refine mirrors_emit_same.bind fun _ => ?_
    refine mirrors_coerce.bind fun _ => ?_
    exact mirrors_pure
  | false => exact mirrors_coerce.bind fun _ => mirrors_pure

theorem mirrors_nullBranch {onNull : Nat} : Mirrors R (nullBranch onNull) (nullBranch onNull) := by
  refine mirrors_freshLabel.bind fun _ => ?_
  refine mirrors_emit_same.bind fun _ => ?_
  refine mirrors_emit_same.bind fun _ => ?_
  refine mirrors_emit_same.bind fun _ => ?_
  refine mirrors_emit_same.bind fun _ => ?_
  exact mirrors_emit_same

theorem mirrors_finishCall {start : Nat} {guard : Option Nat} :
    Mirrors R (finishCall s method start guard)
      (finishCall (s.withPowerPaths on) method start guard) := by
  have htype : Mirrors R (do return (← top?).getD .void) (do return (← top?).getD .void) :=
    mirrors_top?.bind fun _ => mirrors_pure
  refine mirrors_emit_same.bind fun _ => mirrors_depth.bind fun _ => mirrors_drop.bind fun _ => ?_
  cases guard with
  | some onNull =>
    have hnull : Mirrors R (do boxTop s; nullBranch onNull; return (← top?).getD .void) (do
        boxTop (s.withPowerPaths on); nullBranch onNull; return (← top?).getD .void) :=
      mirrors_boxTop.bind fun _ => mirrors_nullBranch.bind fun _ => htype
    exact .ite (mirrors_push.bind fun _ => hnull) hnull
  | none => exact .ite (mirrors_push.bind fun _ => htype) htype

theorem mirrors_call {safe : Bool} (hr : Mirrors R receiver receiver')
    (ha : List.Forall₂ (Mirrors R) args args') :
    Mirrors R (call s receiver method args safe)
      (call (s.withPowerPaths on) receiver' method args' safe) := by
  rw [call_eq, call_eq]
  refine mirrors_depth.bind fun _ => .ite ?_ ?_
  · exact (mirrors_receiverOf hr).bind fun _ => (mirrors_arguments ha).bind fun _ =>
      mirrors_finishCall
  · exact (mirrors_arguments ha).bind fun _ => mirrors_finishCall

theorem mirrors_readField {field : Field} (hr : Mirrors R receiver receiver') :
    Mirrors R (readField s receiver field)
      (readField (s.withPowerPaths on) receiver' field) := by
  refine .ite ?_ ?_
  · exact mirrors_operand
  · refine hr.discard.bind fun _ => ?_
    refine mirrors_castTo.bind fun _ => ?_
    refine mirrors_emit_same.bind fun _ => mirrors_replace.bind fun _ => ?_
    exact mirrors_pure

end Calls

/-! ## Loops -/

section Parts

variable {element element' : Emit Ty} {component : Ty} {iterator slot : UInt16}

theorem mirrors_allocateResult (hr : Mirrors R receiver receiver') :
    Mirrors R (allocateResult receiver slot iterator)
      (allocateResult receiver' slot iterator) := by
  refine hr.bind fun _ => ?_
  refine mirrors_emit_same.bind fun _ => mirrors_drop.bind fun _ => ?_
  refine mirrors_emit_same.bind fun _ => ?_
  refine mirrors_emit_same.bind fun _ => ?_
  refine mirrors_push.bind fun _ => mirrors_push.bind fun _ => ?_
  refine mirrors_emit_same.bind fun _ => mirrors_push.bind fun _ => ?_
  refine mirrors_emit_same.bind fun _ => mirrors_replace.bind fun _ => ?_
  refine mirrors_emit_same.bind fun _ => mirrors_drop.bind fun _ => ?_
  refine mirrors_emit_same.bind fun _ => mirrors_drop.bind fun _ => ?_
  exact mirrors_pure

theorem mirrors_startIterator {listType : Ty} :
    Mirrors R (startIterator listType iterator) (startIterator listType iterator) := by
  refine mirrors_emit_same.bind fun _ => mirrors_push.bind fun _ => ?_
  refine mirrors_emit_same.bind fun _ => mirrors_replace.bind fun _ => ?_
  exact mirrors_emit_same.bind fun _ => mirrors_drop

theorem mirrors_testIterator {exit : Nat} :
    Mirrors R (testIterator iterator exit) (testIterator iterator exit) := by
  refine mirrors_emit_same.bind fun _ => mirrors_push.bind fun _ => ?_
  refine mirrors_emit_same.bind fun _ => mirrors_replace.bind fun _ => ?_
  exact mirrors_emit_same.bind fun _ => mirrors_drop

theorem mirrors_nextElement :
    Mirrors R (nextElement s component iterator slot)
      (nextElement (s.withPowerPaths on) component iterator slot) := by
  refine mirrors_emit_same.bind fun _ => mirrors_push.bind fun _ => ?_
  refine mirrors_emit_same.bind fun _ => ?_
  refine mirrors_emit_same.bind fun _ => mirrors_replace.bind fun _ => ?_
  exact mirrors_emit_same.bind fun _ => mirrors_drop

theorem mirrors_addToResult (he : Mirrors R element element') :
    Mirrors R (addToResult s slot element)
      (addToResult (s.withPowerPaths on) slot element') := by
  refine mirrors_emit_same.bind fun _ => mirrors_push.bind fun _ => ?_
  refine he.discard.bind fun _ => ?_
  refine mirrors_boxTop.bind fun _ => ?_
  refine mirrors_emit_same.bind fun _ => mirrors_replace.bind fun _ => ?_
  exact mirrors_emit_same.bind fun _ => mirrors_drop

theorem mirrors_loopBody {slots : LoopSlots} {test exit : Nat} {span : Span}
    (hr : Mirrors R receiver receiver') (he : Mirrors R element element') :
    Mirrors R (loopBody s slots test exit component span receiver element)
      (loopBody (s.withPowerPaths on) slots test exit component span receiver' element') := by
  refine (mirrors_allocateResult hr).bind fun _ => ?_
  refine mirrors_startIterator.bind fun _ => ?_
  refine mirrors_emit_same.bind fun _ => ?_
  refine mirrors_depth.bind fun _ => ?_
  refine mirrors_testIterator.bind fun _ => ?_
  refine mirrors_nextElement.bind fun _ => ?_
  refine (mirrors_addToResult he).bind fun _ => ?_
  refine mirrors_emit_same.bind fun _ => ?_
  refine mirrors_expectDepth.bind fun _ => ?_
  refine mirrors_emit_same.bind fun _ => ?_
  refine mirrors_emit_same.bind fun _ => mirrors_push.bind fun _ => ?_
  exact mirrors_pure

end Parts

theorem mirrors_collect {site : Site} {member : String} {component : Ty}
    {access access' : Site → Emit Ty} (hr : Mirrors R receiver receiver')
    (ha : ∀ site, Mirrors R (access site) (access' site)) :
    Mirrors R (collect s site member component receiver access)
      (collect (s.withPowerPaths on) site member component receiver' access') := by
  intro d code hcode
  rw [collect_apply, collect_apply]
  exact (mirrors_loopBody hr (ha _)).releasing { d with
    temporaries := d.temporaries.withLoop component
    nextLabel := d.nextLabel + 2 } code hcode

/-! ## Accesses and operators -/

theorem mirrors_bound {binding : Binding} {site : Site} {member : String}
    {collected collected' : Ty → Emit Ty} (hr : Mirrors R receiver receiver')
    (hc : ∀ component, Mirrors R (collected component) (collected' component)) :
    Mirrors R (bound s binding site member receiver collected)
      (bound (s.withPowerPaths on) binding site member receiver' collected') := by
  cases binding with
  | arrayLength =>
    exact hr.discard.bind fun _ => mirrors_emit_same.bind fun _ => mirrors_replace.bind fun _ =>
      mirrors_pure
  | collectionSize => exact mirrors_call hr .nil
  | getter method => exact mirrors_call hr .nil
  | interfaceGetter method => exact mirrors_call hr .nil
  | extension method => exact mirrors_call hr .nil
  | field field => exact mirrors_readField hr
  | bridge accessor fieldStatic =>
    exact mirrors_call hr (.cons (.ite mirrors_pushNull hr.discard) .nil)
  | enumConstant owner => exact mirrors_operand
  | mapEntry => exact mirrors_call hr (.cons mirrors_pushString .nil)
  | eachElement component => exact hc component
  | dynamic property => exact mirrors_call hr (.cons mirrors_pushString .nil)
  | unresolved => exact mirrors_pushNull.bind fun _ => mirrors_pure

theorem mirrors_loadLocal {slot : UInt16} {note : Note} :
    Mirrors R (loadLocal s slot note) (loadLocal (s.withPowerPaths on) slot note) :=
  mirrors_operand

theorem mirrors_access {site : Site} {collected collected' : Ty → Emit Ty}
    (hr : Mirrors R receiver receiver')
    (hc : ∀ component, Mirrors R (collected component) (collected' component)) :
    Mirrors R (access s site receiver collected)
      (access (s.withPowerPaths on) site receiver' collected') := by
  have hrest : ∀ before, Mirrors R (do
      let ty ← bound s (s.binding site) site site.member receiver collected
      expectDepth (before + 1) "property access" site.span
      return ty) (do
      let ty ← bound (s.withPowerPaths on) (s.binding site) site site.member receiver' collected'
      expectDepth (before + 1) "property access" site.span
      return ty) := fun _ =>
    (mirrors_bound hr hc).bind fun _ => mirrors_expectDepth.bind fun _ => mirrors_pure
  exact mirrors_depth.bind fun _ => .ite (mirrors_report.bind fun _ => hrest _) (hrest _)

theorem mirrors_elementAccess (depth : Nat) (site : Site) :
    Mirrors R (elementAccess s depth site)
      (elementAccess (s.withPowerPaths on) depth site) := by
  induction depth generalizing site with
  | zero => exact mirrors_throw
  | succ depth ih =>
    have hreceiver : Mirrors R (elementReceiver s site)
        (elementReceiver (s.withPowerPaths on) site) := by
      unfold elementReceiver
      split
      · exact mirrors_loadLocal
      · exact mirrors_throw
    rw [elementAccess_succ, elementAccess_succ]
    exact mirrors_access hreceiver fun _ => mirrors_collect hreceiver ih

theorem mirrors_property {site : Site} (hr : Mirrors R receiver receiver') :
    Mirrors R (property s site receiver) (property (s.withPowerPaths on) site receiver') :=
  mirrors_access hr fun _ => mirrors_collect hr (mirrors_elementAccess _)

omit [Std.Refl R] in
theorem mirrors_helperCall {start : Nat} {owner name descriptor descriptor' : String} {result : Ty}
    (hi : R (.invoke .static ⟨owner, name, descriptor⟩)
      (.invoke .static ⟨owner, name, descriptor'⟩)) :
    Mirrors R (helperCall start owner name descriptor result)
      (helperCall start owner name descriptor' result) :=
  (mirrors_emit hi).bind fun _ => mirrors_depth.bind fun _ => mirrors_replace.bind fun _ =>
    mirrors_pure

end Emit

end CallSite
