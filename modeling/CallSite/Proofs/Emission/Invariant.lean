import CallSite.Proofs.Emission.Slots

/-!
# Invariants of drafts

A property of drafts that emission maintains is shown once for the primitive steps; that all else
maintains it follows the definitions of the steps, whether these return or fail. Only loops take
and store in slots, and what such a property says of these is left to each property.
-/

namespace CallSite

def Instruction.isStore : Instruction → Bool
  | store .. => true
  | _ => false

namespace Emit

/-- What holds of a draft while it is written, and the errors that steps may fail with. -/
structure Invariant where
  holds : Draft → Prop
  fails : CompileError → Prop

variable {α β : Type} {s : Setting}

/-- The step maintains the invariant, whether it returns or fails. -/
def Maintains (I : Invariant) (step : Emit α) : Prop :=
  ∀ d, I.holds d → I.holds (step d).2 ∧ ∀ e, (step d).1 = .error e → I.fails e

/-- Apart from stores and temporaries, the invariant does not say what is written. -/
class Invariant.Plain (I : Invariant) : Prop where
  emit {d : Draft} {i : Instruction} : i.isStore = false → I.holds d →
    I.holds { d with code := d.code ++ [i] }
  stack {d : Draft} (stack : List Ty) : I.holds d → I.holds { d with stack }
  report {d : Draft} (e : CompileError) : I.holds d →
    I.holds { d with diagnostics := d.diagnostics ++ [e] }
  label {d : Draft} : I.holds d → I.holds { d with nextLabel := d.nextLabel + 1 }
  imbalance (what : String) (expected found : Nat) (span : Span) :
    I.fails (.internal (.imbalance what expected found) span)
  notLive (slot : UInt16) : I.fails (.internal (.notLive slot) .none)
  noOperator (line column : Nat) (receiver op argument : String) (span : Span) :
    I.fails (.internal (.noOperator line column receiver op argument) span)

section Steps

variable {I : Invariant}

theorem maintains_pure {a : α} : Maintains I (pure a : Emit α) := fun _ h => ⟨h, nofun⟩

theorem maintains_throw {e : CompileError} (he : I.fails e) : Maintains I (throw e : Emit α) := by
  intro d h
  refine ⟨h, fun e' heq => ?_⟩
  cases heq
  exact he

theorem Maintains.bind {step : Emit α} {next : α → Emit β} (hs : Maintains I step)
    (hn : ∀ a, Maintains I (next a)) : Maintains I (step >>= next) := by
  intro d hd
  have hmid := hs d hd
  rw [bind_apply]
  cases hstep : step d with
  | mk r mid =>
    rw [hstep] at hmid
    cases r with
    | ok a => exact hn a mid hmid.1
    | error e =>
      refine ⟨hmid.1, fun e' heq => ?_⟩
      cases heq
      exact hmid.2 e rfl

theorem Maintains.discard {step : Emit α} (hs : Maintains I step) :
    Maintains I (discard step) := hs.bind fun _ => maintains_pure

theorem Maintains.ite {c : Prop} [Decidable c] {a b : Emit α} (ha : c → Maintains I a)
    (hb : ¬ c → Maintains I b) : Maintains I (if c then a else b) := by
  split
  · exact ha ‹_›
  · exact hb ‹_›

/-! ## Primitive steps -/

theorem maintains_modify {f : Draft → Draft} (hf : ∀ d, I.holds d → I.holds (f d)) :
    Maintains I (modify f : Emit Unit) := fun d h => ⟨hf d h, nofun⟩

theorem maintains_top? : Maintains I top? := fun _ h => ⟨h, nofun⟩

theorem maintains_depth : Maintains I depth := fun _ h => ⟨h, nofun⟩

variable [I.Plain]

theorem maintains_emit {i : Instruction} (hi : i.isStore = false) : Maintains I (emit i) :=
  maintains_modify fun _ => Invariant.Plain.emit hi

theorem maintains_push {ty : Ty} : Maintains I (push ty) :=
  maintains_modify fun _ => Invariant.Plain.stack _

theorem maintains_drop {n : Nat} : Maintains I (drop n) :=
  maintains_modify fun _ => Invariant.Plain.stack _

theorem maintains_replace {n : Nat} {ty : Ty} : Maintains I (replace n ty) :=
  maintains_modify fun _ => Invariant.Plain.stack _

theorem maintains_report {e : CompileError} : Maintains I (report e) :=
  maintains_modify fun _ => Invariant.Plain.report e

theorem maintains_freshLabel : Maintains I freshLabel :=
  fun _ h => ⟨Invariant.Plain.label h, nofun⟩

theorem maintains_expectDepth {n : Nat} {what : String} {span : Span} :
    Maintains I (expectDepth n what span) := by
  exact maintains_depth.bind fun _ =>
    .ite (fun _ => maintains_throw (Invariant.Plain.imbalance ..)) fun _ => maintains_pure

/-! ## Conversions -/

theorem maintains_castTo {target : Ty} : Maintains I (castTo s target) :=
  maintains_top?.bind fun _ => .ite (fun _ => maintains_pure) fun _ =>
    (maintains_emit rfl).bind fun _ => maintains_replace

theorem maintains_boxTop : Maintains I (boxTop s) := by
  refine maintains_top?.bind fun top => ?_
  split
  · exact (maintains_emit rfl).bind fun _ => maintains_replace
  · exact maintains_pure

theorem maintains_unboxTop {p : Primitive} : Maintains I (unboxTop s p) :=
  maintains_top?.bind fun _ => maintains_castTo.bind fun _ =>
    (maintains_emit rfl).bind fun _ => maintains_replace

theorem maintains_convertTop {p q : Primitive} : Maintains I (convertTop p q) := by
  have hretype : Maintains I (if p ≠ q then replace 1 (.prim q) else pure ()) :=
    .ite (fun _ => maintains_replace) fun _ => maintains_pure
  exact .ite (fun _ => (maintains_emit rfl).bind fun _ => hretype) fun _ => hretype

theorem maintains_coerce {target : Ty} : Maintains I (coerce s target) := by
  refine maintains_top?.bind fun top => ?_
  split
  · exact maintains_pure
  · exact maintains_convertTop
  · exact maintains_pure
  · exact maintains_boxTop.bind fun _ => maintains_castTo
  · exact maintains_pure
  · exact maintains_unboxTop
  · exact maintains_pure
  · exact maintains_castTo

/-! ## Calls and field reads -/

theorem maintains_pushString {text : String} : Maintains I (pushString text) :=
  (maintains_emit rfl).bind fun _ => maintains_push

theorem maintains_pushNull : Maintains I pushNull :=
  (maintains_emit rfl).bind fun _ => maintains_push

theorem maintains_arguments {args : List (Emit Unit)} {params : List Ty}
    (hargs : ∀ arg ∈ args, Maintains I arg) : Maintains I (arguments s args params) := by
  induction args generalizing params with
  | nil => exact maintains_pure
  | cons arg args ih =>
    have hrest : ∀ {params}, Maintains I (arguments s args params) :=
      ih fun a ha => hargs a (List.mem_cons_of_mem _ ha)
    refine (hargs arg List.mem_cons_self).bind fun _ => ?_
    cases params with
    | nil => exact hrest
    | cons param params => exact maintains_coerce.bind fun _ => hrest

theorem maintains_receiverOf {receiver : Emit Ty} {method : Method} {safe : Bool}
    (hr : Maintains I receiver) : Maintains I (receiverOf s receiver method safe) := by
  refine hr.discard.bind fun _ => ?_
  cases safe with
  | true =>
    refine maintains_freshLabel.bind fun _ => ?_
    refine (maintains_emit rfl).bind fun _ => ?_
    refine (maintains_emit rfl).bind fun _ => ?_
    refine maintains_coerce.bind fun _ => ?_
    exact maintains_pure
  | false => exact maintains_coerce.bind fun _ => maintains_pure

theorem maintains_nullBranch {onNull : Nat} : Maintains I (nullBranch onNull) := by
  refine maintains_freshLabel.bind fun _ => ?_
  refine (maintains_emit rfl).bind fun _ => ?_
  refine (maintains_emit rfl).bind fun _ => ?_
  refine (maintains_emit rfl).bind fun _ => ?_
  refine (maintains_emit rfl).bind fun _ => ?_
  exact maintains_emit rfl

/-- What a call does once its operands are written. -/
def finishCall (s : Setting) (method : Method) (start : Nat) (guard : Option Nat) : Emit Ty := do
  emit (invocation s method)
  drop ((← depth) - start)
  if method.returns ≠ .void then push method.returns
  match guard with
  | some onNull =>
    boxTop s
    nullBranch onNull
  | none => pure ()
  return (← top?).getD .void

/-- A call writes its operands, and then itself. -/
theorem call_eq (receiver : Emit Ty) (method : Method) (args : List (Emit Unit)) (safe : Bool) :
    call s receiver method args safe = (do
      let start ← depth
      if method.takesReceiver then
        let guard ← receiverOf s receiver method safe
        arguments s args (argumentTypes method)
        finishCall s method start guard
      else
        arguments s args (argumentTypes method)
        finishCall s method start none) := rfl

theorem maintains_finishCall {method : Method} {guard : Option Nat} {start : Nat} :
    Maintains I (finishCall s method start guard) := by
  have htype : Maintains I (do return (← top?).getD .void) :=
    maintains_top?.bind fun _ => maintains_pure
  refine (maintains_emit rfl).bind fun _ => maintains_depth.bind fun _ =>
    maintains_drop.bind fun _ => ?_
  cases guard with
  | some onNull =>
    have hnull : Maintains I (do boxTop s; nullBranch onNull; return (← top?).getD .void) :=
      maintains_boxTop.bind fun _ => maintains_nullBranch.bind fun _ => htype
    exact .ite (fun _ => maintains_push.bind fun _ => hnull) fun _ => hnull
  | none => exact .ite (fun _ => maintains_push.bind fun _ => htype) fun _ => htype

theorem maintains_call {receiver : Emit Ty} {method : Method} {args : List (Emit Unit)}
    {safe : Bool} (hr : method.takesReceiver = true → Maintains I receiver)
    (hargs : ∀ arg ∈ args, Maintains I arg) : Maintains I (call s receiver method args safe) := by
  rw [call_eq]
  exact maintains_depth.bind fun start => .ite
    (fun htakes => (maintains_receiverOf (hr htakes)).bind fun _ =>
      (maintains_arguments hargs).bind fun _ => maintains_finishCall)
    fun _ => (maintains_arguments hargs).bind fun _ => maintains_finishCall

theorem maintains_readField {receiver : Emit Ty} {field : Field}
    (hr : field.isStatic = false → Maintains I receiver) :
    Maintains I (readField s receiver field) := by
  refine .ite (fun _ => ?_) fun hs => ?_
  · exact (maintains_emit rfl).bind fun _ => maintains_push.bind fun _ => maintains_pure
  · refine (hr (Bool.eq_false_of_not_eq_true hs)).discard.bind fun _ => ?_
    refine maintains_castTo.bind fun _ => ?_
    refine (maintains_emit rfl).bind fun _ => maintains_replace.bind fun _ => ?_
    exact maintains_pure

/-! ## Loops -/

/-- What a loop writes while it holds its slots. -/
def loopBody (s : Setting) (slots : LoopSlots) (test exit : Nat) (component : Ty) (span : Span)
    (receiver element : Emit Ty) : Emit Ty := do
  let listType ← allocateResult receiver slots.result slots.iterator
  startIterator listType slots.iterator
  emit (.label test)
  let before ← depth
  testIterator slots.iterator exit
  nextElement s component slots.iterator slots.next
  addToResult s slots.result element
  emit (.jump test)
  expectDepth before "list property loop body" span
  emit (.label exit)
  emit (.load .reference slots.result)
  push (.ofClass .arrayList)
  return .ofClass .arrayList

/-- A loop takes its slots and labels, and writes the rest holding the slots. -/
theorem collect_apply (site : Site) (member : String) (component : Ty) (receiver : Emit Ty)
    (access : Site → Emit Ty) (d : Draft) :
    let slots := d.temporaries.loopSlots
    collect s site member component receiver access d =
      releasing [slots.next, slots.iterator, slots.result]
        (loopBody s slots d.nextLabel (d.nextLabel + 1) component site.span receiver
          (access (elementSite site member component slots.next)))
        { d with
          temporaries := d.temporaries.withLoop component
          nextLabel := d.nextLabel + 2 } := rfl

/-- What it makes of a failed step does not show in the draft. -/
theorem ignored_apply (step : Emit Unit) (d : Draft) :
    (tryCatch step fun _ => pure () : Emit Unit) d = (.ok (), (step d).2) := by
  show ExceptT.tryCatch step _ d = _
  unfold ExceptT.tryCatch ExceptT.mk
  show StateT.bind step _ d = _
  unfold StateT.bind
  simp only [bind]
  cases step d with
  | mk r mid => cases r <;> rfl

/-- Slots are given back after the step, also when it fails; its own error comes first. -/
theorem releasing_apply (slots : List UInt16) (body : Emit α) (d : Draft) :
    releasing slots body d =
      ((body d).1.bind fun value => (slots.forM release (body d).2).1.map fun _ => value,
        (slots.forM release (body d).2).2) := by
  unfold releasing
  rw [bind_apply, caught_apply]
  cases (body d).1 with
  | ok value =>
    show (slots.forM release >>= fun _ => pure value) (body d).2 = _
    rw [bind_apply]
    cases slots.forM release (body d).2 with
    | mk r last => cases r <;> rfl
  | error e =>
    show ((tryCatch (slots.forM release) fun _ => pure () : Emit Unit) >>= fun _ => throw e)
      (body d).2 = _
    rw [bind_apply, ignored_apply]
    rfl

theorem release_apply (slot : UInt16) (d : Draft) :
    release slot d = match d.temporaries.release? slot with
      | some temporaries => (.ok (), { d with temporaries })
      | none => (.error (.internal (.notLive slot) .none), d) := by
  unfold release
  rw [bind_apply]
  show (match d.temporaries.release? slot with
    | some temporaries => (modify fun d : Draft => { d with temporaries } : Emit Unit)
    | none => throw (CompileError.internal (.notLive slot) .none)) d = _
  cases d.temporaries.release? slot <;> rfl

/-- Giving back fails only on slots that are not live. -/
theorem notLive_of_forM_release {slots : List UInt16} {d : Draft} {e : CompileError}
    (h : (slots.forM release d).1 = .error e) : ∃ slot, e = .internal (.notLive slot) .none := by
  induction slots generalizing d with
  | nil => cases h
  | cons slot slots ih =>
    have hsplit : (slot :: slots).forM release d =
        (release slot >>= fun _ => slots.forM release) d := rfl
    rw [hsplit, bind_apply, release_apply] at h
    cases hs : d.temporaries.release? slot with
    | none =>
      rw [hs] at h
      cases h
      exact ⟨slot, rfl⟩
    | some temporaries =>
      rw [hs] at h
      exact ih h

omit [I.Plain] in
/-- A step that holds slots and then gives them back. -/
theorem Maintains.releasing {outer : Invariant} [outer.Plain] {slots : List UInt16} {body : Emit α}
    {d : Draft} (hb : Maintains I body) (hd : I.holds d) (hf : ∀ e, I.fails e → outer.fails e)
    (hl : ∀ mid, I.holds mid → outer.holds (slots.forM release mid).2) :
    outer.holds (releasing slots body d).2 ∧
      ∀ e, (releasing slots body d).1 = .error e → outer.fails e := by
  obtain ⟨hmid, hfails⟩ := hb d hd
  rw [releasing_apply]
  refine ⟨hl _ hmid, fun e he => ?_⟩
  cases hr : (body d).1 with
  | error own =>
    rw [hr] at he
    cases he
    exact hf _ (hfails _ hr)
  | ok value =>
    rw [hr] at he
    cases hrelease : (slots.forM release (body d).2).1 with
    | ok _ =>
      simp only [hrelease] at he
      cases he
    | error own =>
      simp only [hrelease] at he
      cases he
      obtain ⟨slot, rfl⟩ := notLive_of_forM_release hrelease
      exact Invariant.Plain.notLive slot

/-- The invariant allows storing in the slots. -/
def Invariant.Stores (I : Invariant) (slots : List UInt16) : Prop :=
  ∀ d slot, slot ∈ slots → I.holds d →
    I.holds { d with code := d.code ++ [.store .reference slot] }

omit [I.Plain] in
theorem Invariant.Stores.maintains {slots : List UInt16} (h : I.Stores slots) {slot : UInt16}
    (hs : slot ∈ slots) : Maintains I (emit (.store .reference slot)) :=
  maintains_modify fun d => h d slot hs

private theorem maintains_interfaceCall {owner name descriptor : String} :
    Maintains I (interfaceCall owner name descriptor) := maintains_emit rfl

section Parts

variable {receiver element : Emit Ty} {component : Ty} {iterator slot : UInt16}

theorem maintains_allocateResult (hi : Maintains I (emit (.store .reference iterator)))
    (hs : Maintains I (emit (.store .reference slot))) (hr : Maintains I receiver) :
    Maintains I (allocateResult receiver slot iterator) := by
  refine hr.bind fun _ => ?_
  refine hi.bind fun _ => maintains_drop.bind fun _ => ?_
  refine (maintains_emit rfl).bind fun _ => ?_
  refine (maintains_emit rfl).bind fun _ => ?_
  refine maintains_push.bind fun _ => maintains_push.bind fun _ => ?_
  refine (maintains_emit rfl).bind fun _ => maintains_push.bind fun _ => ?_
  refine maintains_interfaceCall.bind fun _ => maintains_replace.bind fun _ => ?_
  refine (maintains_emit rfl).bind fun _ => maintains_drop.bind fun _ => ?_
  refine hs.bind fun _ => maintains_drop.bind fun _ => ?_
  exact maintains_pure

theorem maintains_startIterator {listType : Ty}
    (hi : Maintains I (emit (.store .reference iterator))) :
    Maintains I (startIterator listType iterator) := by
  refine (maintains_emit rfl).bind fun _ => maintains_push.bind fun _ => ?_
  refine maintains_interfaceCall.bind fun _ => maintains_replace.bind fun _ => ?_
  exact hi.bind fun _ => maintains_drop

theorem maintains_testIterator {exit : Nat} : Maintains I (testIterator iterator exit) := by
  refine (maintains_emit rfl).bind fun _ => maintains_push.bind fun _ => ?_
  refine maintains_interfaceCall.bind fun _ => maintains_replace.bind fun _ => ?_
  exact (maintains_emit rfl).bind fun _ => maintains_drop

theorem maintains_nextElement (hs : Maintains I (emit (.store .reference slot))) :
    Maintains I (nextElement s component iterator slot) := by
  refine (maintains_emit rfl).bind fun _ => maintains_push.bind fun _ => ?_
  refine maintains_interfaceCall.bind fun _ => ?_
  refine (maintains_emit rfl).bind fun _ => maintains_replace.bind fun _ => ?_
  exact hs.bind fun _ => maintains_drop

theorem maintains_addToResult (he : Maintains I element) :
    Maintains I (addToResult s slot element) := by
  refine (maintains_emit rfl).bind fun _ => maintains_push.bind fun _ => ?_
  refine he.discard.bind fun _ => ?_
  refine maintains_boxTop.bind fun _ => ?_
  refine maintains_interfaceCall.bind fun _ => maintains_replace.bind fun _ => ?_
  exact (maintains_emit rfl).bind fun _ => maintains_drop

theorem maintains_loopBody {slots : LoopSlots} {test exit : Nat} {span : Span}
    (hs : I.Stores [slots.next, slots.iterator, slots.result]) (hr : Maintains I receiver)
    (he : Maintains I element) :
    Maintains I (loopBody s slots test exit component span receiver element) := by
  have hresult : Maintains I (emit (.store .reference slots.result)) := hs.maintains (by simp)
  have hiterator : Maintains I (emit (.store .reference slots.iterator)) := hs.maintains (by simp)
  have hnext : Maintains I (emit (.store .reference slots.next)) := hs.maintains (by simp)
  refine (maintains_allocateResult hiterator hresult hr).bind fun _ => ?_
  refine (maintains_startIterator hiterator).bind fun _ => ?_
  refine (maintains_emit rfl).bind fun _ => ?_
  refine maintains_depth.bind fun _ => ?_
  refine maintains_testIterator.bind fun _ => ?_
  refine (maintains_nextElement hnext).bind fun _ => ?_
  refine (maintains_addToResult he).bind fun _ => ?_
  refine (maintains_emit rfl).bind fun _ => ?_
  refine maintains_expectDepth.bind fun _ => ?_
  refine (maintains_emit rfl).bind fun _ => ?_
  refine (maintains_emit rfl).bind fun _ => maintains_push.bind fun _ => ?_
  exact maintains_pure

end Parts

/-! ## Accesses and operators -/

theorem maintains_bound {binding : Binding} {site : Site} {member : String} {receiver : Emit Ty}
    {collected : Ty → Emit Ty}
    (hr : (∀ component, binding ≠ .eachElement component) → binding.evaluates = true →
      Maintains I receiver)
    (hc : ∀ component, binding = .eachElement component → Maintains I (collected component)) :
    Maintains I (bound s binding site member receiver collected) := by
  cases binding with
  | arrayLength =>
    exact (hr nofun rfl).discard.bind fun _ => (maintains_emit rfl).bind fun _ =>
      maintains_replace.bind fun _ => maintains_pure
  | collectionSize => exact maintains_call (fun _ => hr nofun rfl) nofun
  | getter method => exact maintains_call (hr nofun) nofun
  | interfaceGetter method => exact maintains_call (hr nofun) nofun
  | extension method => exact maintains_call (hr nofun) nofun
  | field field => exact maintains_readField fun hs => hr nofun (by rw [Binding.evaluates, hs]; rfl)
  | bridge accessor fieldStatic =>
    refine maintains_call (fun ht => hr nofun (by rw [Binding.evaluates, ht]; rfl))
      (List.forall_mem_singleton.mpr ?_)
    refine .ite (fun _ => maintains_pushNull) fun hs => (hr nofun ?_).discard
    rw [Binding.evaluates, Bool.eq_false_of_not_eq_true hs, Bool.not_false, Bool.or_true]
  | enumConstant owner =>
    exact (maintains_emit rfl).bind fun _ => maintains_push.bind fun _ => maintains_pure
  | mapEntry =>
    exact maintains_call (fun _ => hr nofun rfl)
      (List.forall_mem_singleton.mpr maintains_pushString)
  | eachElement component => exact hc component rfl
  | dynamic property =>
    exact maintains_call (fun _ => hr nofun rfl)
      (List.forall_mem_singleton.mpr maintains_pushString)
  | unresolved => exact maintains_pushNull.bind fun _ => maintains_pure

theorem maintains_loadLocal {slot : UInt16} {note : Note} : Maintains I (loadLocal s slot note) :=
  (maintains_emit rfl).bind fun _ => maintains_push.bind fun _ => maintains_pure

theorem maintains_access {site : Site} {receiver : Emit Ty} {collected : Ty → Emit Ty}
    (hb : Maintains I (bound s (s.binding site) site site.member receiver collected)) :
    Maintains I (access s site receiver collected) := by
  have hrest : ∀ before, Maintains I (do
      let ty ← bound s (s.binding site) site site.member receiver collected
      expectDepth (before + 1) "property access" site.span
      return ty) := fun _ =>
    hb.bind fun _ => maintains_expectDepth.bind fun _ => maintains_pure
  exact maintains_depth.bind fun _ => .ite (fun _ => maintains_report.bind fun _ => hrest _)
    fun _ => hrest _

theorem maintains_helperCall {start : Nat} {owner name descriptor : String} {result : Ty} :
    Maintains I (helperCall start owner name descriptor result) :=
  (maintains_emit rfl).bind fun _ => maintains_depth.bind fun _ => maintains_replace.bind fun _ =>
    maintains_pure

theorem maintains_boundOperator {binding : OperatorBinding} {receiver argument : Emit Ty}
    (hr : binding.evaluates = true → Maintains I receiver) (ha : Maintains I argument) :
    Maintains I (boundOperator s binding receiver argument) := by
  have hargs : ∀ arg ∈ [discard argument], Maintains I arg :=
    List.forall_mem_singleton.mpr ha.discard
  refine maintains_depth.bind fun start => ?_
  cases binding with
  | arithmetic op =>
    refine (hr rfl).discard.bind fun _ => ?_
    refine maintains_coerce.bind fun _ => ?_
    refine ha.discard.bind fun _ => ?_
    refine maintains_coerce.bind fun _ => ?_
    exact maintains_helperCall
  | power helper =>
    refine (hr rfl).discard.bind fun _ => ?_
    refine maintains_boxTop.bind fun _ => ?_
    refine ha.discard.bind fun _ => ?_
    refine maintains_boxTop.bind fun _ => ?_
    exact maintains_helperCall
  | concat =>
    exact (hr rfl).discard.bind fun _ => ha.discard.bind fun _ => maintains_boxTop.bind fun _ =>
      maintains_helperCall
  | element component =>
    refine (hr rfl).discard.bind fun _ => ?_
    refine ha.discard.bind fun _ => ?_
    refine maintains_coerce.bind fun _ => ?_
    refine (maintains_emit rfl).bind fun _ => ?_
    refine maintains_depth.bind fun _ => maintains_replace.bind fun _ => ?_
    exact maintains_pure
  | subscript method => exact maintains_call hr hargs
  | extension method => exact maintains_call hr hargs
  | mapEntry => exact maintains_call hr hargs

theorem maintains_operator {left right : Expr} {op : String} {receiver argument : Emit Ty}
    (hb : ∀ binding, s.operatorBinding? left op right = some binding →
      Maintains I (boundOperator s binding receiver argument)) :
    Maintains I (operator s left op right receiver argument) := by
  unfold operator
  dsimp only
  split
  · exact hb _ ‹_›
  · exact maintains_throw (Invariant.Plain.noOperator ..)

end Steps

end Emit

end CallSite
