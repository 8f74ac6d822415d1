import CallSite.Proofs.Emission.Restore
import CallSite.Proofs.Emission.Valued

/-!
# Requests after requests

What a request writes does not depend on the requests before it, whether these have returned or
failed. It reads of the draft no more than the operands that it has pushed itself, the depth of the
stack relative to where it has begun, the next label, and the temporaries, which all requests give
back. So it writes what it writes on an empty draft, with labels that follow those that are taken.
-/

namespace CallSite

/-- The instruction with labels that follow `k` others. -/
def Instruction.relabel (k : Nat) : Instruction → Instruction
  | jumpIfZero l => jumpIfZero (k + l)
  | jumpIfNull l => jumpIfNull (k + l)
  | jump l => jump (k + l)
  | label l => label (k + l)
  | i => i

/-- The draft `own`, written after what is in `base`. -/
def Draft.after (base own : Draft) : Draft where
  code := base.code ++ own.code.map (Instruction.relabel base.nextLabel)
  stack := own.stack ++ base.stack
  temporaries := own.temporaries
  diagnostics := base.diagnostics ++ own.diagnostics
  nextLabel := base.nextLabel + own.nextLabel

theorem Draft.after_empty {d : Draft} {maxLocals : UInt16}
    (h : d.temporaries = .above maxLocals) : d.after (.empty maxLocals) = d := by
  have hcode : d.code ++ [] = d.code := List.append_nil _
  have hdiagnostics : d.diagnostics ++ [] = d.diagnostics := List.append_nil _
  show { d with
    code := d.code ++ [], temporaries := .above maxLocals, diagnostics := d.diagnostics ++ [] } = d
  rw [hcode, hdiagnostics, ← h]

namespace Emit

variable {α β : Type} {s : Setting} {base : Draft} {stack : List Ty}

/-- After `base`, the step `step'` does what `step` does alone, on drafts with this stack. -/
def Echoes (base : Draft) (stack : List Ty) (step step' : Emit α) : Prop :=
  ∀ own : Draft, own.stack = stack →
    step' (base.after own) = ((step own).1, base.after (step own).2)

theorem echoes_pure {a : α} : Echoes base stack (pure a) (pure a) := fun _ _ => rfl

theorem echoes_throw {e : CompileError} : Echoes base stack (throw e : Emit α) (throw e) :=
  fun _ _ => rfl

theorem Echoes.bind {step step' : Emit α} {next next' : α → Emit β}
    (hs : Echoes base stack step step')
    (hn : ∀ own a mid, own.stack = stack → Returns step own a mid →
      Echoes base mid.stack (next a) (next' a)) :
    Echoes base stack (step >>= next) (step' >>= next') := by
  intro own hown
  rw [bind_apply, bind_apply, hs own hown]
  cases hstep : step own with
  | mk r mid =>
    cases r with
    | ok a => exact hn own a mid hown hstep mid rfl
    | error e => rfl

/-- A sequence whose first step leaves the stack `after`. -/
theorem Echoes.andThen {after : List Ty} {step step' : Emit α} {next next' : α → Emit β}
    (hs : Echoes base stack step step')
    (hf : ∀ own a mid, own.stack = stack → Returns step own a mid → mid.stack = after)
    (hn : ∀ a, Echoes base after (next a) (next' a)) :
    Echoes base stack (step >>= next) (step' >>= next') :=
  hs.bind fun own a mid hown hr => hf own a mid hown hr ▸ hn a

theorem Echoes.discard {step step' : Emit α} (hs : Echoes base stack step step') :
    Echoes base stack (discard step) (discard step') := hs.bind fun _ _ _ _ _ => echoes_pure

theorem Echoes.ite {c : Prop} [Decidable c] {a a' b b' : Emit α}
    (ha : c → Echoes base stack a a') (hb : ¬ c → Echoes base stack b b') :
    Echoes base stack (if c then a else b) (if c then a' else b') := by
  split
  · exact ha ‹_›
  · exact hb ‹_›

/-! ## Primitive steps -/

section Primitive

variable {next next' : Unit → Emit α} {n : Nat} {ty : Ty} {i i' : Instruction}

theorem echoes_emit (hi : i' = i.relabel base.nextLabel) :
    Echoes base stack (emit i) (emit i') := by
  intro own _
  have hcode : (base.after own).code ++ [i'] =
      (base.after { own with code := own.code ++ [i] }).code := by
    rw [hi]
    simp only [Draft.after, List.map_append, List.map_cons, List.map_nil, List.append_assoc]
  show (Except.ok (), { base.after own with code := (base.after own).code ++ [i'] }) = _
  rw [hcode]
  rfl

theorem echoes_emit_bind (hi : i' = i.relabel base.nextLabel)
    (hn : Echoes base stack (next ()) (next' ())) :
    Echoes base stack (emit i >>= next) (emit i' >>= next') :=
  (echoes_emit hi).andThen (fun _ _ _ hown h => by rw [returns_emit.mp h, hown]) fun _ => hn

theorem echoes_push_bind (hn : Echoes base (ty :: stack) (next ()) (next' ())) :
    Echoes base stack (push ty >>= next) (push ty >>= next') := by
  have hs : Echoes base stack (push ty) (push ty) := fun _ _ => rfl
  exact hs.andThen (fun _ _ _ hown h => by rw [returns_push.mp h, hown]) fun _ => hn

theorem echoes_drop (hle : n ≤ stack.length) : Echoes base stack (drop n) (drop n) := by
  rintro own rfl
  show (Except.ok (), { base.after own with stack := (own.stack ++ base.stack).drop n }) = _
  rw [List.drop_append_of_le_length hle]
  rfl

theorem echoes_drop_bind (hle : n ≤ stack.length)
    (hn : Echoes base (stack.drop n) (next ()) (next' ())) :
    Echoes base stack (drop n >>= next) (drop n >>= next') :=
  (echoes_drop hle).andThen (fun _ _ _ hown h => by rw [returns_drop.mp h, hown]) fun _ => hn

theorem echoes_replace (hle : n ≤ stack.length) :
    Echoes base stack (replace n ty) (replace n ty) := by
  rintro own rfl
  show (Except.ok (), { base.after own with stack := ty :: (own.stack ++ base.stack).drop n }) = _
  rw [List.drop_append_of_le_length hle]
  rfl

theorem echoes_replace_bind (hle : n ≤ stack.length)
    (hn : Echoes base (ty :: stack.drop n) (next ()) (next' ())) :
    Echoes base stack (replace n ty >>= next) (replace n ty >>= next') :=
  (echoes_replace hle).andThen (fun _ _ _ hown h => by rw [returns_replace.mp h, hown])
    fun _ => hn

theorem echoes_report_bind {e : CompileError} (hn : Echoes base stack (next ()) (next' ())) :
    Echoes base stack (report e >>= next) (report e >>= next') := by
  have hs : Echoes base stack (report e) (report e) := by
    intro own _
    show (Except.ok (), { base.after own with
      diagnostics := base.diagnostics ++ own.diagnostics ++ [e] }) = _
    rw [List.append_assoc]
    rfl
  exact hs.andThen (fun _ _ _ hown h => by rw [returns_report.mp h, hown]) fun _ => hn

/-- The topmost operand is not one of `base`. -/
theorem echoes_top?_bind {next next' : Option Ty → Emit α}
    (hn : Echoes base (ty :: stack) (next (some ty)) (next' (some ty))) :
    Echoes base (ty :: stack) (top? >>= next) (top? >>= next') := by
  intro own hown
  have htop : ∀ next : Option Ty → Emit α, ∀ d : Draft, d.stack.head? = some ty →
      (top? >>= next) d = next (some ty) d := fun next d h => congrArg (next · d) h
  rw [htop next own (by rw [hown, List.head?_cons]),
    htop next' (base.after own) (by rw [Draft.after, hown, List.cons_append, List.head?_cons])]
  exact hn own hown

/-- Where a step measures the stack, the operands of `base` count as well. -/
theorem echoes_depth_bind {next next' : Nat → Emit α}
    (hn : Echoes base stack (next stack.length) (next' (stack.length + base.stack.length))) :
    Echoes base stack (depth >>= next) (depth >>= next') := by
  rintro own rfl
  show next' (own.stack ++ base.stack).length (base.after own) = _
  rw [List.length_append]
  exact hn own rfl

theorem echoes_freshLabel_bind {next next' : Nat → Emit α}
    (hn : ∀ label, Echoes base stack (next label) (next' (base.nextLabel + label))) :
    Echoes base stack (freshLabel >>= next) (freshLabel >>= next') := fun own hown =>
  hn own.nextLabel { own with nextLabel := own.nextLabel + 1 } hown

theorem echoes_expectDepth {what : String} {span : Span} (h : stack.length = n) :
    Echoes base stack (expectDepth n what span)
      (expectDepth (n + base.stack.length) what span) := by
  refine echoes_depth_bind ?_
  rw [if_neg (not_not_intro h), if_neg (not_not_intro (congrArg (· + _) h))]
  exact echoes_pure

/-- A depth that is as expected is no step. -/
theorem echoes_expectDepth_bind {what : String} {span : Span}
    (hn : Echoes base stack (next ()) (next' ())) :
    Echoes base stack (expectDepth stack.length what span >>= next)
      (expectDepth (stack.length + base.stack.length) what span >>= next') := by
  have hsame : ∀ own u mid, own.stack = stack →
      Returns (expectDepth stack.length what span) own u mid → mid.stack = stack := by
    intro own u mid hown h
    rw [(returns_expectDepth.mp h).2, hown]
  exact (echoes_expectDepth rfl).andThen hsame fun _ => hn

end Primitive

theorem echoes_release {slot : UInt16} : Echoes base stack (release slot) (release slot) := by
  intro own _
  have hlive : (base.after own).temporaries.release? slot = own.temporaries.release? slot := rfl
  rw [release_apply, release_apply, hlive]
  cases own.temporaries.release? slot <;> rfl

theorem echoes_forM_release {slots : List UInt16} :
    Echoes base stack (slots.forM release) (slots.forM release) := by
  induction slots generalizing stack with
  | nil => exact echoes_pure
  | cons slot slots ih => exact echoes_release.bind fun _ _ _ _ _ => ih

theorem Echoes.releasing {slots : List UInt16} {body body' : Emit α}
    (h : Echoes base stack body body') :
    Echoes base stack (releasing slots body) (releasing slots body') := by
  intro own hown
  rw [releasing_apply, releasing_apply, h own hown]
  have hrelease : slots.forM release (base.after (body own).2) = _ := echoes_forM_release _ rfl
  rw [hrelease]

/-! ## Conversions -/

section Conversions

variable {top target : Ty} {p q : Primitive} {next next' : Unit → Emit α}

/-- After a conversion, whatever the type of the topmost operand now is. -/
theorem Echoes.convert {step : Emit Unit} (hs : Echoes base (top :: stack) step step)
    (hc : ∀ own mid, Returns step own () mid → Converts own mid)
    (hn : ∀ top, Echoes base (top :: stack) (next ()) (next' ())) :
    Echoes base (top :: stack) (step >>= next) (step >>= next') := by
  refine hs.bind fun own _ mid hown h => ?_
  obtain ⟨top', hmid⟩ := (hc own mid h).stack hown
  rw [hmid]
  exact hn top'

theorem echoes_castTo : Echoes base (top :: stack) (castTo s target) (castTo s target) := by
  refine echoes_top?_bind (.ite (fun _ => echoes_pure) fun _ => ?_)
  exact echoes_emit_bind rfl (echoes_replace (Nat.le_add_left ..))

theorem echoes_boxTop : Echoes base (top :: stack) (boxTop s) (boxTop s) := by
  refine echoes_top?_bind ?_
  cases top with
  | prim p => exact echoes_emit_bind rfl (echoes_replace (Nat.le_add_left ..))
  | _ => exact echoes_pure

theorem echoes_unboxTop : Echoes base (top :: stack) (unboxTop s p) (unboxTop s p) := by
  refine echoes_top?_bind ?_
  refine echoes_castTo.convert (fun _ _ => castTo_converts) fun _ => ?_
  exact echoes_emit_bind rfl (echoes_replace (Nat.le_add_left ..))

theorem echoes_convertTop :
    Echoes base (top :: stack) (convertTop p q) (convertTop p q) := by
  have hretype : Echoes base (top :: stack) (if p ≠ q then replace 1 (.prim q) else pure ())
      (if p ≠ q then replace 1 (.prim q) else pure ()) :=
    .ite (fun _ => echoes_replace (Nat.le_add_left ..)) fun _ => echoes_pure
  exact .ite (fun _ => echoes_emit_bind rfl hretype) fun _ => hretype

theorem echoes_coerce : Echoes base (top :: stack) (coerce s target) (coerce s target) := by
  have hboxed : Echoes base (top :: stack) (boxTop s >>= fun _ => castTo s target)
      (boxTop s >>= fun _ => castTo s target) :=
    echoes_boxTop.convert (fun _ _ => boxTop_converts) fun _ => echoes_castTo
  refine echoes_top?_bind ?_
  cases top with
  | void => exact echoes_pure
  | prim p =>
    cases target with
    | void => exact echoes_pure
    | prim q => exact echoes_convertTop
    | _ => exact hboxed
  | _ =>
    cases target with
    | void => exact echoes_pure
    | prim q => exact echoes_unboxTop
    | _ => exact echoes_castTo

theorem echoes_coerce_bind (hn : ∀ top, Echoes base (top :: stack) (next ()) (next' ())) :
    Echoes base (top :: stack) (coerce s target >>= next) (coerce s target >>= next') :=
  echoes_coerce.convert (fun _ _ => coerce_converts) hn

theorem echoes_boxTop_bind (hn : ∀ top, Echoes base (top :: stack) (next ()) (next' ())) :
    Echoes base (top :: stack) (boxTop s >>= next) (boxTop s >>= next') :=
  echoes_boxTop.convert (fun _ _ => boxTop_converts) hn

end Conversions

/-! ## Calls and field reads -/

/-- The step leaves its type as the one new operand, and does the same after `base` as alone. -/
structure Replays (base : Draft) (step : Emit Ty) : Prop where
  pushes : Pushes step
  echoes : ∀ stack, Echoes base stack step step

theorem Replays.bind {step : Emit Ty} {next next' : Ty → Emit α} (hr : Replays base step)
    (hn : ∀ ty, Echoes base (ty :: stack) (next ty) (next' ty)) :
    Echoes base stack (step >>= next) (step >>= next') := by
  refine (hr.echoes stack).bind fun own ty mid hown h => ?_
  rw [hr.pushes own ty mid h, hown]
  exact hn ty

theorem Replays.discard_bind {step : Emit Ty} {next next' : Unit → Emit α} (hr : Replays base step)
    (hn : ∀ ty, Echoes base (ty :: stack) (next ()) (next' ())) :
    Echoes base stack (discard step >>= next) (discard step >>= next') := by
  refine (hr.echoes stack).discard.bind fun own _ mid hown h => ?_
  obtain ⟨ty, hmid⟩ := hr.pushes.one own mid h
  rw [hmid, hown]
  exact hn ty

theorem echoes_pushString {text : String} :
    Echoes base stack (pushString text) (pushString text) :=
  echoes_emit_bind rfl fun _ _ => rfl

theorem echoes_pushNull : Echoes base stack pushNull pushNull :=
  echoes_emit_bind rfl fun _ _ => rfl

variable {receiver : Emit Ty} {method : Method} {args : List (Emit Unit)}

theorem echoes_arguments {params : List Ty} (hp : ∀ arg ∈ args, PushesOne arg)
    (ha : ∀ arg ∈ args, ∀ stack, Echoes base stack arg arg) :
    Echoes base stack (arguments s args params) (arguments s args params) := by
  induction args generalizing params stack with
  | nil => exact echoes_pure
  | cons arg args ih =>
    have hrest : ∀ {stack params},
        Echoes base stack (arguments s args params) (arguments s args params) :=
      ih (fun a h => hp a (List.mem_cons_of_mem arg h)) fun a h => ha a (List.mem_cons_of_mem arg h)
    refine (ha arg List.mem_cons_self stack).bind fun own _ mid _ harg => ?_
    obtain ⟨ty, hmid⟩ := hp arg List.mem_cons_self own mid harg
    rw [hmid]
    cases params with
    | nil => exact hrest
    | cons param params => exact echoes_coerce_bind fun _ => hrest

/-- The label that a safe call has for a null receiver follows those of `base`. -/
theorem echoes_receiverOf_bind {safe : Bool} {next next' : Option Nat → Emit Ty}
    (hr : Replays base receiver)
    (hn : ∀ guard stack, Echoes base stack (next guard) (next' (guard.map (base.nextLabel + ·)))) :
    Echoes base stack (receiverOf s receiver method safe >>= next)
      (receiverOf s receiver method safe >>= next') := by
  unfold receiverOf
  rw [bind_assoc, bind_assoc]
  refine hr.discard_bind fun self => ?_
  cases safe with
  | true =>
    simp only [if_true, bind_assoc, pure_bind]
    refine echoes_freshLabel_bind fun onNull => ?_
    refine echoes_emit_bind rfl (echoes_emit_bind rfl ?_)
    exact echoes_coerce_bind fun _ => hn (some onNull) _
  | false =>
    simp only [Bool.false_eq_true, if_false, bind_assoc, pure_bind]
    exact echoes_coerce_bind fun _ => hn none _

theorem echoes_nullBranch_bind {onNull : Nat} {next next' : Unit → Emit α}
    (hn : Echoes base stack (next ()) (next' ())) :
    Echoes base stack (nullBranch onNull >>= next)
      (nullBranch (base.nextLabel + onNull) >>= next') := by
  unfold nullBranch
  simp only [bind_assoc]
  refine echoes_freshLabel_bind fun stop => ?_
  refine echoes_emit_bind rfl ?_
  refine echoes_emit_bind rfl ?_
  refine echoes_emit_bind rfl ?_
  refine echoes_emit_bind rfl ?_
  exact echoes_emit_bind rfl hn

theorem echoes_finishCall {start : Nat} {guard : Option Nat} (hv : method.returns ≠ .void) :
    Echoes base stack (finishCall s method start guard)
      (finishCall s method (start + base.stack.length) (guard.map (base.nextLabel + ·))) := by
  refine echoes_emit_bind rfl (echoes_depth_bind ?_)
  rw [Nat.add_sub_add_right]
  refine echoes_drop_bind (Nat.sub_le _ _) ?_
  rw [if_pos hv, if_pos hv]
  refine echoes_push_bind ?_
  cases guard with
  | some onNull =>
    exact echoes_boxTop_bind fun _ => echoes_nullBranch_bind (echoes_top?_bind echoes_pure)
  | none => exact echoes_top?_bind echoes_pure

theorem echoes_call {safe : Bool} (hv : method.returns ≠ .void)
    (hr : method.takesReceiver = true → Replays base receiver)
    (hp : ∀ arg ∈ args, PushesOne arg) (ha : ∀ arg ∈ args, ∀ stack, Echoes base stack arg arg) :
    Echoes base stack (call s receiver method args safe) (call s receiver method args safe) := by
  have hrest : ∀ {start guard stack}, Echoes base stack
      (arguments s args (argumentTypes method) >>= fun _ => finishCall s method start guard)
      (arguments s args (argumentTypes method) >>= fun _ => finishCall s method
        (start + base.stack.length) (guard.map (base.nextLabel + ·))) :=
    (echoes_arguments hp ha).bind fun _ _ _ _ _ => echoes_finishCall hv
  rw [call_eq]
  refine echoes_depth_bind (.ite (fun ht => ?_) fun _ => hrest)
  exact echoes_receiverOf_bind (hr ht) fun guard _ => hrest

theorem echoes_readField {field : Field} (hr : field.isStatic = false → Replays base receiver) :
    Echoes base stack (readField s receiver field) (readField s receiver field) := by
  refine .ite (fun _ => echoes_emit_bind rfl (echoes_push_bind echoes_pure)) fun hs => ?_
  refine (hr (Bool.eq_false_of_not_eq_true hs)).discard_bind fun _ => ?_
  refine echoes_castTo.convert (fun _ _ => castTo_converts) fun _ => ?_
  exact echoes_emit_bind rfl (echoes_replace_bind (Nat.le_add_left ..) echoes_pure)

/-! ## Loops -/

section Loops

variable {next next' : Unit → Emit α} {iterator : UInt16}

theorem echoes_allocateResult_bind {result : UInt16} {next next' : Ty → Emit α}
    (hr : Replays base receiver) (hn : ∀ ty, Echoes base stack (next ty) (next' ty)) :
    Echoes base stack (allocateResult receiver result iterator >>= next)
      (allocateResult receiver result iterator >>= next') := by
  unfold allocateResult interfaceCall
  simp only [bind_assoc, pure_bind]
  -- the list goes to its slot
  refine hr.bind fun listType => ?_
  refine echoes_emit_bind rfl ?_
  refine echoes_drop_bind (Nat.le_add_left ..) ?_
  -- the new list twice, and its size
  refine echoes_emit_bind rfl (echoes_emit_bind rfl ?_)
  refine echoes_push_bind (echoes_push_bind ?_)
  refine echoes_emit_bind rfl (echoes_push_bind ?_)
  refine echoes_emit_bind rfl ?_
  refine echoes_replace_bind (Nat.le_add_left ..) ?_
  -- one of them for its constructor, and one for its slot
  refine echoes_emit_bind rfl ?_
  refine echoes_drop_bind (Nat.le_add_left 2 _) ?_
  refine echoes_emit_bind rfl ?_
  exact echoes_drop_bind (Nat.le_add_left ..) (hn listType)

/-- The iterator's slot is loaded for a method call, and one instruction takes the answer. -/
theorem echoes_answered_bind {ty answer : Ty} {owner name descriptor : String}
    {taker taker' : Instruction} (ht : taker' = taker.relabel base.nextLabel)
    (hn : Echoes base stack (next ()) (next' ())) :
    Echoes base stack
      (do emit (.load .reference iterator); push ty; interfaceCall owner name descriptor
          replace 1 answer; emit taker; drop 1; next ())
      (do emit (.load .reference iterator); push ty; interfaceCall owner name descriptor
          replace 1 answer; emit taker'; drop 1; next' ()) := by
  refine echoes_emit_bind rfl ?_
  refine echoes_push_bind ?_
  refine echoes_emit_bind rfl ?_
  refine echoes_replace_bind (Nat.le_add_left ..) ?_
  refine echoes_emit_bind ht ?_
  exact echoes_drop_bind (Nat.le_add_left ..) hn

theorem echoes_startIterator_bind {listType : Ty} (hn : Echoes base stack (next ()) (next' ())) :
    Echoes base stack (startIterator listType iterator >>= next)
      (startIterator listType iterator >>= next') := by
  unfold startIterator
  simp only [bind_assoc]
  exact echoes_answered_bind rfl hn

theorem echoes_testIterator_bind {exit : Nat} (hn : Echoes base stack (next ()) (next' ())) :
    Echoes base stack (testIterator iterator exit >>= next)
      (testIterator iterator (base.nextLabel + exit) >>= next') := by
  unfold testIterator
  simp only [bind_assoc]
  exact echoes_answered_bind rfl hn

theorem echoes_nextElement_bind {component : Ty} {element : UInt16}
    (hn : Echoes base stack (next ()) (next' ())) :
    Echoes base stack (nextElement s component iterator element >>= next)
      (nextElement s component iterator element >>= next') := by
  unfold nextElement interfaceCall
  simp only [bind_assoc]
  refine echoes_emit_bind rfl (echoes_push_bind ?_)
  refine echoes_emit_bind rfl ?_
  -- the cast comes between the answer and its type
  refine echoes_emit_bind rfl ?_
  refine echoes_replace_bind (Nat.le_add_left ..) ?_
  refine echoes_emit_bind rfl ?_
  exact echoes_drop_bind (Nat.le_add_left ..) hn

theorem echoes_addToResult_bind {result : UInt16} {value : Emit Ty} (hv : Replays base value)
    (hn : Echoes base stack (next ()) (next' ())) :
    Echoes base stack (addToResult s result value >>= next)
      (addToResult s result value >>= next') := by
  unfold addToResult interfaceCall
  simp only [bind_assoc]
  refine echoes_emit_bind rfl (echoes_push_bind ?_)
  refine hv.discard_bind fun _ => ?_
  refine echoes_boxTop_bind fun _ => ?_
  refine echoes_emit_bind rfl ?_
  refine echoes_replace_bind (Nat.le_add_left 2 _) ?_
  refine echoes_emit_bind rfl ?_
  exact echoes_drop_bind (Nat.le_add_left ..) hn

end Loops

theorem echoes_loopBody {slots : LoopSlots} {test exit : Nat} {component : Ty} {span : Span}
    {element : Emit Ty} (hr : Replays base receiver) (he : Replays base element) :
    Echoes base stack (loopBody s slots test exit component span receiver element)
      (loopBody s slots (base.nextLabel + test) (base.nextLabel + exit) component span receiver
        element) := by
  refine echoes_allocateResult_bind hr fun listType => ?_
  refine echoes_startIterator_bind ?_
  refine echoes_emit_bind rfl ?_
  -- the code of an element leaves the stack as deep as it was
  refine echoes_depth_bind ?_
  refine echoes_testIterator_bind ?_
  refine echoes_nextElement_bind ?_
  refine echoes_addToResult_bind he ?_
  refine echoes_emit_bind rfl ?_
  refine echoes_expectDepth_bind ?_
  refine echoes_emit_bind rfl ?_
  exact echoes_emit_bind rfl (echoes_push_bind echoes_pure)

theorem replays_collect {site : Site} {member : String} {component : Ty} {access : Site → Emit Ty}
    (hr : Replays base receiver) (ha : ∀ site, Replays base (access site)) :
    Replays base (collect s site member component receiver access) where
  pushes := collect_pushes hr.pushes fun site => (ha site).pushes
  echoes stack own hown := by
    let slots := own.temporaries.loopSlots
    let element := access (elementSite site member component slots.next)
    have hbody : Echoes base stack
        (loopBody s slots own.nextLabel (own.nextLabel + 1) component site.span receiver element)
        (loopBody s slots (base.nextLabel + own.nextLabel) (base.nextLabel + (own.nextLabel + 1))
          component site.span receiver element) := echoes_loopBody hr (ha _)
    exact hbody.releasing { own with
      temporaries := own.temporaries.withLoop component
      nextLabel := own.nextLabel + 2 } hown

/-! ## Accesses and operators -/

theorem echoes_bound {binding : Binding} {site : Site} {member : String} {collected : Ty → Emit Ty}
    (hv : ∀ m, binding.method? = some m → m.returns ≠ .void)
    (hr : binding.evaluates = true → Replays base receiver)
    (hc : ∀ component, binding = .eachElement component → Replays base (collected component)) :
    Echoes base stack (bound s binding site member receiver collected)
      (bound s binding site member receiver collected) := by
  have hcall : ∀ {method safe}, method.returns ≠ .void →
      (method.takesReceiver = true → Replays base receiver) →
      Echoes base stack (call s receiver method [] safe) (call s receiver method [] safe) :=
    fun hv hr => echoes_call hv hr (List.forall_mem_nil _) (List.forall_mem_nil _)
  have hlookup : ∀ {method text safe}, method.returns ≠ .void → Replays base receiver →
      Echoes base stack (call s receiver method [pushString text] safe)
        (call s receiver method [pushString text] safe) :=
    fun hv hr => echoes_call hv (fun _ => hr) (List.forall_mem_singleton.mpr (pushString_one _))
      (List.forall_mem_singleton.mpr fun _ => echoes_pushString)
  cases binding with
  | arrayLength =>
    refine (hr rfl).discard_bind fun _ => ?_
    exact echoes_emit_bind rfl (echoes_replace_bind (Nat.le_add_left ..) echoes_pure)
  | collectionSize => exact hcall (by decide) fun _ => hr rfl
  | getter method => exact hcall (hv _ rfl) hr
  | interfaceGetter method => exact hcall (hv _ rfl) hr
  | extension method => exact hcall (hv _ rfl) hr
  | field field => exact echoes_readField fun hs => hr (by rw [Binding.evaluates, hs]; rfl)
  | bridge accessor fieldStatic =>
    cases fieldStatic with
    | true =>
      exact echoes_call (hv _ rfl) (fun ht => hr (by rw [Binding.evaluates, ht]; rfl))
        (List.forall_mem_singleton.mpr pushNull_one)
        (List.forall_mem_singleton.mpr fun _ => echoes_pushNull)
    | false =>
      have hr := hr (Bool.or_true _)
      exact echoes_call (hv _ rfl) (fun _ => hr) (List.forall_mem_singleton.mpr hr.pushes.one)
        (List.forall_mem_singleton.mpr fun stack => (hr.echoes stack).discard)
  | enumConstant owner => exact echoes_emit_bind rfl (echoes_push_bind echoes_pure)
  | mapEntry => exact hlookup (by decide) (hr rfl)
  | eachElement component => exact (hc component rfl).echoes stack
  | dynamic property => exact hlookup (by decide) (hr rfl)
  | unresolved => exact echoes_pushNull.bind fun _ _ _ _ _ => echoes_pure

/-- An access that leaves one operand is not out of balance. -/
theorem echoes_checked {step : Emit Ty} {what : String} {span : Span} (hs : Replays base step) :
    Echoes base stack
      (do let ty ← step; expectDepth (stack.length + 1) what span; return ty)
      (do let ty ← step; expectDepth (stack.length + base.stack.length + 1) what span; return ty) :=
    by
  refine hs.bind fun ty => ?_
  rw [Nat.add_right_comm]
  exact (echoes_expectDepth rfl).bind fun _ _ _ _ _ => echoes_pure

theorem replays_bound {binding : Binding} {site : Site} {member : String} {collected : Ty → Emit Ty}
    (hv : ∀ m, binding.method? = some m → m.returns ≠ .void)
    (hr : binding.evaluates = true → Replays base receiver)
    (hc : ∀ component, binding = .eachElement component → Replays base (collected component)) :
    Replays base (bound s binding site member receiver collected) where
  pushes := bound_pushes hv (fun h => (hr h).pushes) fun c h => (hc c h).pushes
  echoes _ := echoes_bound hv hr hc

theorem replays_loadLocal (slot : UInt16) (note : Note) :
    Replays base (loadLocal s slot note) where
  pushes := loadLocal_pushes slot note
  echoes _ := echoes_emit_bind rfl (echoes_push_bind echoes_pure)

section Valued

variable (ht : s.table.Valued)

include ht

theorem replays_access {site : Site} {collected : Ty → Emit Ty}
    (hr : (s.binding site).evaluates = true → Replays base receiver)
    (hc : ∀ component, s.binding site = .eachElement component →
      Replays base (collected component)) :
    Replays base (access s site receiver collected) where
  pushes := access_pushes (fun h => (hr h).pushes) fun c h => (hc c h).pushes
  echoes _ := by
    have hbound : Replays base (bound s (s.binding site) site site.member receiver collected) :=
      replays_bound (s.binding_returns_ne ht site) hr hc
    refine echoes_depth_bind (.ite (fun _ => ?_) fun _ => echoes_checked hbound)
    exact echoes_report_bind (echoes_checked hbound)

theorem replays_elementAccess (depth : Nat) (site : Site) :
    Replays base (elementAccess s depth site) := by
  induction depth generalizing site with
  | zero => exact ⟨elementAccess_pushes 0 site, fun _ => echoes_throw⟩
  | succ depth ih =>
    have hreceiver : Replays base (elementReceiver s site) := by
      rcases elementReceiver_cases s site with ⟨slot, note, h⟩ | h
      · rw [h]
        exact replays_loadLocal slot note
      · exact ⟨elementReceiver_pushes site, h ▸ fun _ => echoes_throw⟩
    rw [elementAccess_succ]
    exact replays_access ht (fun _ => hreceiver) fun _ _ => replays_collect hreceiver ih

theorem replays_collectProperty {site : Site} {member : String} {component : Ty}
    (hr : Replays base receiver) :
    Replays base (collectProperty s site member receiver component) :=
  replays_collect hr (replays_elementAccess ht _)

end Valued

/-- One instruction puts the result in place of the operands above `start`. -/
theorem echoes_result {i : Instruction} {start : Nat} {ty : Ty}
    (hi : i = i.relabel base.nextLabel) :
    Echoes base stack (do emit i; replace ((← depth) - start) ty; return ty)
      (do emit i; replace ((← depth) - (start + base.stack.length)) ty; return ty) := by
  refine echoes_emit_bind hi (echoes_depth_bind ?_)
  rw [Nat.add_sub_add_right]
  exact echoes_replace_bind (Nat.sub_le _ _) echoes_pure

theorem echoes_boundOperator {binding : OperatorBinding} {argument : Emit Ty}
    (hv : ∀ m, binding.method? = some m → m.returns ≠ .void)
    (hr : binding.evaluates = true → Replays base receiver) (ha : Replays base argument) :
    Echoes base stack (boundOperator s binding receiver argument)
      (boundOperator s binding receiver argument) := by
  have hcall : ∀ {method}, method.returns ≠ .void →
      (method.takesReceiver = true → Replays base receiver) → Echoes base stack
        (call s receiver method [discard argument] false)
        (call s receiver method [discard argument] false) :=
    fun hv hr => echoes_call hv hr (List.forall_mem_singleton.mpr ha.pushes.one)
      (List.forall_mem_singleton.mpr fun stack => (ha.echoes stack).discard)
  refine echoes_depth_bind ?_
  cases binding with
  | arithmetic op =>
    refine (hr rfl).discard_bind fun _ => ?_
    refine echoes_coerce_bind fun _ => ?_
    refine ha.discard_bind fun _ => ?_
    exact echoes_coerce_bind fun _ => echoes_result rfl
  | power helper =>
    refine (hr rfl).discard_bind fun _ => ?_
    refine echoes_boxTop_bind fun _ => ?_
    refine ha.discard_bind fun _ => ?_
    exact echoes_boxTop_bind fun _ => echoes_result rfl
  | concat =>
    refine (hr rfl).discard_bind fun _ => ?_
    refine ha.discard_bind fun _ => ?_
    exact echoes_boxTop_bind fun _ => echoes_result rfl
  | element component =>
    refine (hr rfl).discard_bind fun _ => ?_
    refine ha.discard_bind fun _ => ?_
    exact echoes_coerce_bind fun _ => echoes_result rfl
  | subscript method => exact hcall (hv _ rfl) hr
  | extension method => exact hcall (hv _ rfl) hr
  | mapEntry => exact hcall (by decide) fun _ => hr rfl

section Requests

variable (ht : s.table.Valued)

include ht

theorem replays_expr (e : Expr) : Replays base (expr s e) := by
  refine ⟨pushes_expr ht e, ?_⟩
  induction e with
  | this note => exact fun _ => echoes_emit_bind rfl (echoes_push_bind echoes_pure)
  | localVar slot note => exact (replays_loadLocal slot note).echoes
  | classLiteral ty note => exact fun _ => echoes_emit_bind rfl (echoes_push_bind echoes_pure)
  | constant value note =>
    have hcode : constantCode value = (constantCode value).relabel base.nextLabel := by
      cases value <;> rfl
    exact fun _ => echoes_emit_bind hcode (echoes_push_bind echoes_pure)
  | property receiver access note ih =>
    have hr : Replays base (expr s receiver) := ⟨pushes_expr ht receiver, ih⟩
    exact (replays_access ht (fun _ => hr) fun _ _ => replays_collectProperty ht hr).echoes
  | operator left op right note ihl ihr =>
    intro stack
    show Echoes base stack (operator s left op right (expr s left) (expr s right))
      (operator s left op right (expr s left) (expr s right))
    unfold operator
    dsimp only
    split
    · rename_i binding hb
      exact echoes_boundOperator (s.operatorBinding_returns_ne ht hb)
        (fun _ => ⟨pushes_expr ht left, ihl⟩) ⟨pushes_expr ht right, ihr⟩
    · exact echoes_throw

/-- A request does the same after `base` as alone. -/
theorem echoes_request (r : Request) : Echoes base stack (r.write s) (r.write s) := by
  cases r with
  | expr e => exact (replays_expr ht e).echoes stack
  | property site =>
    have hr : Replays base (expr s site.receiver) := replays_expr ht _
    exact (replays_access ht (fun _ => hr) fun _ _ => replays_collectProperty ht hr).echoes stack
  | dynamic site =>
    have hr : Replays base (expr s site.receiver) := replays_expr ht _
    have hv : ∀ m, ((Query.ofDynamicSite s.table site s.enclosing s.inClosure).selectDynamic
        s.table).2.method? = some m → m.returns ≠ .void := fun m hm =>
      ht.returns_ne ((ClassTable.selectDynamic_chosen ..).offers hm)
    refine echoes_depth_bind (echoes_checked ?_)
    exact replays_bound hv (fun _ => hr) fun _ _ => replays_collectProperty ht hr
  | operator receiver op argument =>
    refine echoes_depth_bind (echoes_checked ?_)
    exact replays_expr ht (.operator receiver op argument receiver.note)
  | list site member component =>
    exact (replays_collectProperty ht (replays_expr ht site.receiver)).echoes stack

end Requests

/-! ## Histories -/

/-- The draft after the requests, whether they return or fail. -/
def Request.writeAll (s : Setting) (requests : List Request) (d : Draft) : Draft :=
  requests.foldl (fun d r => (r.write s d).2) d

/-- Requests give back the temporaries they take, so none are left of a history. -/
theorem temporaries_writeAll {history : List Request} {d : Draft}
    (hroom : ∀ r ∈ history, d.temporaries.top + r.slotsTaken s ≤ 65536) :
    (Request.writeAll s history d).temporaries = d.temporaries := by
  induction history generalizing d with
  | nil => rfl
  | cons r history ih =>
    have hstep : (r.write s d).2.temporaries = d.temporaries :=
      (maintains_request (.inr fun _ _ => trivial) restoring_scoped r
        (hroom r List.mem_cons_self) d rfl).1
    refine Eq.trans (ih fun q hq => ?_) hstep
    rw [hstep]
    exact hroom q (List.mem_cons_of_mem r hq)

/-- In a table in which everything that can be called has a result, and as long as the slots
suffice, it does not matter to a request what has been written before, by requests that returned or
failed: it gives the type or error that it gives on an empty draft, and adds the same code, with
labels that follow those that are taken, the same operands and the same diagnostics. -/
theorem request_replays (s : Setting) (maxLocals : UInt16) (history : List Request) (r : Request)
    (ht : s.table.Valued)
    (hroom : ∀ q ∈ history, maxLocals.toNat + q.slotsTaken s ≤ 65536) :
    let alone := r.write s (.empty maxLocals)
    let before := Request.writeAll s history (.empty maxLocals)
    r.write s before = (alone.1, before.after alone.2) := by
  intro alone before
  have htemporaries : before.temporaries = .above maxLocals := temporaries_writeAll hroom
  have hempty : before.after (.empty maxLocals) = before := Draft.after_empty htemporaries
  have hechoes : r.write s (before.after (.empty maxLocals)) = (alone.1, before.after alone.2) :=
    echoes_request ht r (.empty maxLocals) rfl
  rw [hempty] at hechoes
  exact hechoes

/-- `1 + this.spread(this)`, where nothing answers `spread` and the number is left on the stack. -/
def unansweredSum : Request :=
  let this : Expr := .this { type := .ofClass .object }
  .expr (.operator (.constant (.int 1) { type := .int }) "plus"
    (.operator this "spread" this { type := .ofClass .number }) { type := .ofClass .number })

/-- Two requests that fail and one that returns. -/
def mixedHistory : List Request := [unansweredSum, unansweredList, .expr stringsEmpty]

theorem request_replays_stringsEmpty :
    let before := Request.writeAll objectSetting mixedHistory (.empty 2)
    let alone := (Request.expr stringsEmpty).write objectSetting (.empty 2)
    (objectSetting.table.Valued ∧
        (∀ q ∈ mixedHistory, (2 : UInt16).toNat + q.slotsTaken objectSetting ≤ 65536) ∧
        before.stack = [.ofClass .arrayList, .ofClass .integer] ∧ before.nextLabel = 4) ∧
      (Request.expr stringsEmpty).write objectSetting before = (alone.1, before.after alone.2) := by
  have hvalued : objectSetting.table.Valued := ClassTable.standard_tame.valued
  have hroom : ∀ q ∈ mixedHistory, (2 : UInt16).toNat + q.slotsTaken objectSetting ≤ 65536 := by
    simp only [mixedHistory, List.forall_mem_cons]
    decide
  exact ⟨⟨hvalued, hroom, by decide +kernel, by decide +kernel⟩,
    request_replays objectSetting 2 mixedHistory (.expr stringsEmpty) hvalued hroom⟩

end Emit

end CallSite
