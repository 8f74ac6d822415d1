import CallSite.Proofs.Code.SlotKinds
import CallSite.Proofs.Emission.Appended
import CallSite.Proofs.Emission.Slots

/-!
# Kinds of list elements

A loop over a list stores the element as a reference, and the access to it loads it as its type
says. Whatever the class table holds, these are the only loads of a temporary that can be of another
kind than the store before them; and they are when the type is primitive.
-/

namespace CallSite

/-- Whether an access that is bound so loads a primitive element, if `receiver` says so of its
receiver and `collected` of a loop over that. -/
def Binding.loads (receiver : Bool) (collected : Ty → Bool) : Binding → Bool
  | eachElement component => collected component
  | binding => binding.evaluates && receiver

/-- The access to a list element loads it as a primitive, or does so with an element of it. -/
def elementLoadsPrimitive (s : Setting) : (depth : Nat) → Site → Bool
  | 0, _ => false
  | depth + 1, site =>
    let primitive := SlotKind.ofType (site.receiver.typeIn s.enclosing) != .reference
    (s.binding site).loads primitive fun component =>
      primitive || elementLoadsPrimitive s depth (Emit.elementSite site site.member component 0)

/-- The code of the expression loads an element of a list as a primitive. -/
def Expr.loadsPrimitiveElement (s : Setting) : Expr → Bool
  | .property receiver access _ =>
    let site : Site := { access with receiver }
    (s.binding site).loads (receiver.loadsPrimitiveElement s) fun component =>
      receiver.loadsPrimitiveElement s || elementLoadsPrimitive s (Emit.elementDepth component)
        (Emit.elementSite site site.member component 0)
  | .operator left op right _ =>
    match s.operatorBinding? left op right with
    | some binding =>
      (binding.evaluates && left.loadsPrimitiveElement s) || right.loadsPrimitiveElement s
    | none => false
  | _ => false

/-- It does not matter which slot holds the element. -/
theorem elementLoadsPrimitive_elementSite (s : Setting) (depth : Nat) (site : Site)
    (member : String) (component : Ty) (slot : UInt16) :
    elementLoadsPrimitive s depth (Emit.elementSite site member component slot) =
      elementLoadsPrimitive s depth (Emit.elementSite site member component 0) := by
  cases depth <;> rfl

namespace Emit

variable {s : Setting} {d d' mid : Draft} {given : List UInt16} {element mixed mixed' : Bool}

/-- The draft has grown by code that stores to slots in loops over lists only; the flag tells
whether it loads elements as primitives. -/
def AddsKinded (given : List UInt16) (element mixed : Bool) (d d' : Draft) : Prop :=
  ∃ x, Appended d d' x ∧ Kinded given element mixed x

namespace AddsKinded

theorem trans (h : AddsKinded given element mixed d mid)
    (h' : AddsKinded given element mixed' mid d') :
    AddsKinded given element (mixed || mixed') d d' := by
  obtain ⟨x, hx, hkx⟩ := h
  obtain ⟨y, hy, hky⟩ := h'
  exact ⟨_, hx.seq hy, .seq hkx hky⟩

/-- Straight code that touches no slot. -/
theorem straight {is : List Instruction} (his : ∀ i ∈ is, i.Reads []) (hc : d'.code = d.code ++ is)
    (hl : d'.nextLabel = d.nextLabel) : AddsKinded given element false d d' := by
  have hnone : (element && is.any Instruction.loadsPrimitive) = false := by
    refine Bool.and_eq_false_iff.mpr (.inr (List.any_eq_false.mpr fun i hi => ?_))
    rw [Instruction.loadsPrimitive_of_reads_nil (his i hi)]
    exact Bool.false_ne_true
  have hkinded : Kinded given element _ (.code is) :=
    .code fun i hi => (his i hi).mono (List.nil_subset given)
  exact ⟨_, .straight hc hl, hnone ▸ hkinded⟩

/-- One instruction that touches no slot. -/
theorem one {i : Instruction} (hi : i.Reads []) (hc : d'.code = d.code ++ [i])
    (hl : d'.nextLabel = d.nextLabel) : AddsKinded given element false d d' :=
  straight (List.forall_mem_singleton.mpr hi) hc hl

theorem trans_one {i : Instruction} (h : AddsKinded given element mixed d mid) (hi : i.Reads [])
    (hc : d'.code = mid.code ++ [i]) (hl : d'.nextLabel = mid.nextLabel) :
    AddsKinded given element mixed d d' := by
  have hall := h.trans (one hi hc hl)
  rwa [Bool.or_false] at hall

/-- A load counts if what is given holds elements. -/
theorem load {kind : SlotKind} {slot : UInt16} (hs : slot ∈ given)
    (hc : d'.code = d.code ++ [.load kind slot]) (hl : d'.nextLabel = d.nextLabel) :
    AddsKinded given element (element && kind != .reference) d d' := by
  have hreads : (Instruction.load kind slot).Reads given :=
    ⟨rfl, nofun, fun _ _ he => (Instruction.load.inj he).2 ▸ hs⟩
  have hkinded : Kinded given element _ (.code [.load kind slot]) :=
    .code (List.forall_mem_singleton.mpr hreads)
  rw [List.any_cons, List.any_nil, Bool.or_false] at hkinded
  exact ⟨_, .straight hc hl, hkinded⟩

end AddsKinded

theorem Converts.addsKinded (h : Converts d d') : AddsKinded given element false d d' := by
  obtain ⟨is, stack, his, rfl, -⟩ := h
  exact .straight (fun i hi => Instruction.reads_of_isQuiet (his i hi).quiet) rfl rfl

theorem AddsKinded.trans_converts (h : AddsKinded given element mixed d mid)
    (hc : Converts mid d') :
    AddsKinded given element mixed d d' := by
  have hall := h.trans hc.addsKinded
  rwa [Bool.or_false] at hall

/-- Whenever the step returns, the draft has grown by code that stores to slots in loops only. -/
def Adding {α : Type} (given : List UInt16) (element mixed : Bool) (step : Emit α) : Prop :=
  ∀ d v d', Returns step d v d' → AddsKinded given element mixed d d'

section

variable {receiver : Emit Ty}

theorem Adding.discard {step : Emit Ty} (h : Adding given element mixed step) :
    Adding given element mixed (discard step : Emit Unit) := by
  intro d v d' hr
  obtain ⟨ty, hr⟩ := returns_discard.mp hr
  exact h d ty d' hr

private theorem adding_pushNull : Adding given element false pushNull := by
  intro d v d' h
  rw [returns_pushNull.mp h]
  exact .one (i := .pushNull) (Instruction.reads_of_isQuiet rfl) rfl rfl

private theorem adding_pushString (text : String) :
    Adding given element false (pushString text) := by
  intro d v d' h
  rw [returns_pushString.mp h]
  exact .one (i := .push (.string text)) (Instruction.reads_of_isQuiet rfl) rfl rfl

/-! ## Calls -/

private theorem adding_arguments {args : List (Emit Unit)} {params : List Ty}
    (ha : ∀ arg ∈ args, Adding given element mixed arg) :
    Adding given element (!args.isEmpty && mixed) (arguments s args params) := by
  induction args generalizing params with
  | nil =>
    intro d v d' h
    obtain ⟨-, rfl⟩ := returns_pure.mp h
    exact (Converts.refl d).addsKinded
  | cons arg args ih =>
    intro d v d' h
    obtain ⟨d₁, d₂, harg, hc, hrest⟩ := arguments_cons_inv h
    have hfirst := (ha arg List.mem_cons_self d () d₁ harg).trans_converts hc
    have hargs := ih (fun a hm => ha a (List.mem_cons_of_mem arg hm)) d₂ () d' hrest
    have hall := hfirst.trans hargs
    have hmixed : (mixed || !args.isEmpty && mixed) = mixed := by
      cases mixed <;> simp
    rwa [hmixed] at hall

private theorem reads_invocation (s : Setting) (method : Method) :
    (invocation s method).Reads given := ⟨rfl, nofun, nofun⟩

private theorem adding_call {method : Method} {args : List (Emit Unit)} {safe : Bool}
    (hr : method.takesReceiver = true → Adding given element mixed receiver)
    (ha : ∀ arg ∈ args, Adding given element mixed' arg) :
    Adding given element (method.takesReceiver && mixed || !args.isEmpty && mixed')
      (call s receiver method args safe) := by
  intro d ty d' h
  cases ht : method.takesReceiver with
  | false =>
    obtain ⟨mid, hargs, rfl, -⟩ := (returns_call_static ht).mp h
    exact (adding_arguments ha d () mid hargs).trans_one (reads_invocation s method) rfl rfl
  | true =>
    rw [Bool.true_and]
    cases safe with
    | false =>
      obtain ⟨self, d₁, d₂, d₃, hself, hc, hargs, rfl, -⟩ := (returns_call_plain ht).mp h
      have hfirst := (hr ht d self d₁ hself).trans_converts (coerce_converts hc)
      exact (hfirst.trans (adding_arguments ha d₂ () d₃ hargs)).trans_one
        (reads_invocation s method) rfl rfl
    | true =>
      obtain ⟨self, d₁, d₂, d₃, d₄, hself, hc, hargs, hb, hd, -⟩ := call_inv_safe ht h
      obtain ⟨x, hx, hkx⟩ := hr ht d self d₁ hself
      have hargs := (coerce_converts hc).addsKinded.trans (adding_arguments ha d₂ () d₃ hargs)
      rw [Bool.false_or] at hargs
      have hcalled : AddsKinded given element _ _ (Draft.called s method d.stack.length d₃) :=
        hargs.trans_one (reads_invocation s method) rfl rfl
      obtain ⟨y, hy, hky⟩ := hcalled.trans_converts (boxTop_converts hb)
      exact ⟨_, hx.seq (hy.orNull hd), .seq hkx (.orNull hky)⟩

/-- Arguments that load no element do not count. -/
private theorem adding_call_idle {method : Method} {args : List (Emit Unit)} {safe : Bool}
    (hr : method.takesReceiver = true → Adding given element mixed receiver)
    (ha : ∀ arg ∈ args, Adding given element false arg) :
    Adding given element (method.takesReceiver && mixed) (call s receiver method args safe) := by
  have hcall : Adding given element _ (call s receiver method args safe) := adding_call hr ha
  rwa [Bool.and_false, Bool.or_false] at hcall

private theorem adding_readField {field : Field}
    (hr : field.isStatic = false → Adding given element mixed receiver) :
    Adding given element (!field.isStatic && mixed) (readField s receiver field) := by
  intro d ty d' h
  cases hs : field.isStatic with
  | true =>
    obtain ⟨-, rfl⟩ := readField_inv_static hs h
    exact .one (i := .getStatic (fieldRef s field)) (Instruction.reads_of_isQuiet rfl) rfl rfl
  | false =>
    obtain ⟨self, d₁, d₂, hself, hc, -, rfl⟩ := (returns_readField_instance hs).mp h
    exact ((hr hs d self d₁ hself).trans_converts (castTo_converts hc)).trans_one
      (i := .getField (fieldRef s field)) (Instruction.reads_of_isQuiet rfl) rfl rfl

/-! ## Loops -/

/-- The element is of the loop, whatever is around it. -/
private theorem adding_collect {site : Site} {member : String} {component : Ty}
    {access : Site → Emit Ty} (hr : Adding given element mixed receiver)
    (ha : ∀ slot, Adding [slot] true mixed' (access (elementSite site member component slot))) :
    Adding given element (mixed || mixed') (collect s site member component receiver access) := by
  intro d ty d' h
  obtain ⟨listType, item, d₁, d₂, d₃, hlist, hitem, hbox, -, hrelease, -⟩ := collect_inv h
  obtain ⟨ts, rfl⟩ := forM_release_inv hrelease
  obtain ⟨x, hx, hkx⟩ := hr _ _ _ hlist
  obtain ⟨y, hy, hky⟩ := (ha _ _ _ _ hitem).trans_converts (boxTop_converts hbox)
  exact ⟨_, hx.collect ⟨rfl, rfl⟩ hy ⟨rfl, rfl⟩ ⟨rfl, rfl⟩, .collect hkx hky⟩

/-! ## Properties -/

/-- A local variable that holds an element counts if it is primitive. -/
private theorem adding_loadLocal {slot : UInt16} (note : Note) (hs : slot ∈ given) :
    Adding given element
      (element && SlotKind.ofType ((Expr.localVar slot note).typeIn s.enclosing) != .reference)
      (loadLocal s slot note) := by
  intro d ty d' h
  obtain ⟨rfl, rfl⟩ := returns_loadLocal.mp h
  exact .load hs rfl rfl

/-- What an access is bound to evaluates its receiver or does not. -/
private theorem adding_bound {binding : Binding} {site : Site} {member : String}
    {collected : Ty → Emit Ty} {inner : Ty → Bool}
    (hr : binding.evaluates = true → Adding given element mixed receiver)
    (hc : ∀ c, binding = .eachElement c → Adding given element (inner c) (collected c)) :
    Adding given element (binding.loads mixed inner)
      (bound s binding site member receiver collected) := by
  intro d ty d' h
  have hnone : ∀ arg ∈ ([] : List (Emit Unit)), Adding given element false arg :=
    List.forall_mem_nil _
  cases binding with
  | arrayLength =>
    obtain ⟨self, d₁, hself, -, rfl⟩ := bound_inv_arrayLength h
    exact (hr rfl d self d₁ hself).trans_one (i := .arrayLength)
      (Instruction.reads_of_isQuiet rfl) rfl rfl
  | collectionSize =>
    exact adding_call_idle (fun _ => hr rfl) hnone d ty d' h
  | getter method =>
    exact adding_call_idle hr hnone d ty d' h
  | field field =>
    refine adding_readField (fun hs => hr ?_) d ty d' h
    simp [Binding.evaluates, hs]
  | bridge accessor fieldStatic =>
    have hpush : Adding given element (!fieldStatic && mixed)
        (if fieldStatic then pushNull else discard receiver) := by
      cases hf : fieldStatic with
      | true => exact adding_pushNull
      | false => exact (hr (by simp [Binding.evaluates, hf])).discard
    have hall := adding_call (fun ht => hr (by simp [Binding.evaluates, ht]))
      (List.forall_mem_singleton.mpr hpush) d ty d' h
    show AddsKinded given element ((accessor.takesReceiver || !fieldStatic) && mixed) d d'
    rw [Bool.and_or_distrib_right]
    exact hall
  | enumConstant owner =>
    obtain ⟨-, rfl⟩ := bound_inv_enumConstant h
    exact .one (i := .getStatic _) (Instruction.reads_of_isQuiet rfl) rfl rfl
  | interfaceGetter method =>
    exact adding_call_idle hr hnone d ty d' h
  | extension method =>
    exact adding_call_idle hr hnone d ty d' h
  | mapEntry =>
    exact adding_call_idle (fun _ => hr rfl)
      (List.forall_mem_singleton.mpr (adding_pushString member)) d ty d' h
  | eachElement component => exact hc component rfl d ty d' h
  | dynamic property =>
    exact adding_call_idle (fun _ => hr rfl)
      (List.forall_mem_singleton.mpr (adding_pushString property)) d ty d' h
  | unresolved =>
    exact adding_pushNull d () d' (bound_inv_unresolved h).2

private theorem adding_access {site : Site} {collected : Ty → Emit Ty} {inner : Ty → Bool}
    (hr : (s.binding site).evaluates = true → Adding given element mixed receiver)
    (hc : ∀ c, s.binding site = .eachElement c → Adding given element (inner c) (collected c)) :
    Adding given element ((s.binding site).loads mixed inner)
      (access s site receiver collected) := by
  intro d ty d' h
  obtain ⟨diagnostics, hb, -⟩ := access_inv h
  obtain ⟨x, hx, hkx⟩ := adding_bound hr hc _ ty d' hb
  exact ⟨x, hx.of_eq rfl rfl, hkx⟩

/-- The access to an element, which is in the slot that the loop has stored. -/
private theorem adding_elementAccess (depth : Nat) {site : Site} {slot : UInt16} {note : Note}
    (hs : site.receiver = .localVar slot note) :
    Adding [slot] true (elementLoadsPrimitive s depth site) (elementAccess s depth site) := by
  induction depth generalizing site slot note with
  | zero => exact fun d v d' h => absurd h returns_throw
  | succ depth ih =>
    have hload : Adding [slot] true
        (SlotKind.ofType (site.receiver.typeIn s.enclosing) != .reference)
        (elementReceiver s site) := by
      unfold elementReceiver
      simp only [hs]
      exact adding_loadLocal note (List.mem_singleton_self slot)
    rw [elementAccess_succ]
    refine adding_access (fun _ => hload) fun component _ => adding_collect hload fun next => ?_
    rw [← elementLoadsPrimitive_elementSite s depth site site.member component next]
    exact ih rfl

end

/-! ## Operators -/

private theorem adding_boundOperator {binding : OperatorBinding} {receiver argument : Emit Ty}
    (hr : binding.evaluates = true → Adding given element mixed receiver)
    (ha : Adding given element mixed' argument) :
    Adding given element (binding.evaluates && mixed || mixed')
      (boundOperator s binding receiver argument) := by
  intro d ty d' h
  have hone : ∀ arg ∈ [(discard argument : Emit Unit)], Adding given element mixed' arg :=
    List.forall_mem_singleton.mpr ha.discard
  cases hb : binding.callee? with
  | none =>
    obtain ⟨self, arg, d₁, d₂, d₃, d₄, i, hself, hc, harg, hc', ⟨hq, -, -⟩, rfl⟩ :=
      boundOperator_inv_pair hb h
    have he := OperatorBinding.evaluates_of_instruction hb
    rw [he, Bool.true_and]
    have hfirst := (hr he d self d₁ hself).trans_converts hc
    have hsecond := (ha d₂ arg d₃ harg).trans_converts hc'
    exact (hfirst.trans hsecond).trans_one (Instruction.reads_of_isQuiet hq) rfl rfl
  | some method =>
    rw [OperatorBinding.evaluates_of_callee hb] at hr ⊢
    exact adding_call hr hone d ty d' (boundOperator_inv_call hb h)

/-! ## Expressions -/

/-- The code of an expression stores to slots in loops over lists only. -/
private theorem adding_expr (e : Expr) (hgiven : ∀ slot ∈ e.slotsRead, slot ∈ given) :
    Adding given false (e.loadsPrimitiveElement s) (expr s e) := by
  induction e with
  | this note =>
    intro d ty d' h
    obtain ⟨-, rfl⟩ := expr_inv_this h
    exact .load (hgiven 0 (List.mem_singleton_self 0)) rfl rfl
  | localVar slot note => exact adding_loadLocal note (hgiven slot (List.mem_singleton_self slot))
  | classLiteral type note =>
    intro d ty d' h
    obtain ⟨-, rfl⟩ := expr_inv_classLiteral h
    exact .one (i := .push _) (Instruction.reads_of_isQuiet rfl) rfl rfl
  | constant value note =>
    intro d ty d' h
    obtain ⟨-, rfl⟩ := expr_inv_constant h
    refine .one (i := constantCode value) ?_ rfl rfl
    cases value <;> exact Instruction.reads_of_isQuiet rfl
  | property receiver access note ih =>
    refine adding_access (fun _ => ih hgiven) fun component _ =>
      adding_collect (ih hgiven) fun next => ?_
    rw [← elementLoadsPrimitive_elementSite s _ _ _ _ next]
    exact adding_elementAccess _ rfl
  | operator left op right note ihl ihr =>
    intro d ty d' h
    obtain ⟨binding, hb, hbound⟩ := operator_inv h
    have hloads : (Expr.operator left op right note).loadsPrimitiveElement s =
        (binding.evaluates && left.loadsPrimitiveElement s || right.loadsPrimitiveElement s) := by
      simp only [Expr.loadsPrimitiveElement, hb]
    rw [hloads]
    exact adding_boundOperator
      (fun _ => ihl fun slot hs => hgiven slot (List.mem_append_left _ hs))
      (ihr fun slot hs => hgiven slot (List.mem_append_right _ hs)) d ty d' hbound

/-- Whatever the class table holds, on every way through the code of an expression each load of a
slot that the expression does not read itself, such as any at or above the first temporary one if
its variables lie below, comes behind a store to that slot, and the last store was one of a
reference. So the kinds agree on all ways if no element of a list is loaded as a primitive; and if
one is, there is a way on which a load is of another kind than the last store. -/
theorem expr_slotKinds (s : Setting) (e : Expr) (d : Draft) (ty : Ty)
    (h : (expr s e d).1 = .ok ty) :
    ∃ code, (expr s e d).2.code = d.code ++ code ∧
      (∀ slot ∉ e.slotsRead, ∀ last p kind, Arrives code slot last p →
        code[p]? = some (.load kind slot) →
          last = some .reference ∧ (kind = .reference ∨ e.loadsPrimitiveElement s = true)) ∧
      (e.loadsPrimitiveElement s = true → ∃ slot p kind, Arrives code slot (some .reference) p ∧
        code[p]? = some (.load kind slot) ∧ kind ≠ .reference) := by
  have hreturns : Returns (expr s e) d ty (expr s e d).2 := Prod.ext h rfl
  obtain ⟨x, hx, hkinded⟩ := adding_expr e (fun _ => id) d ty _ hreturns
  exact ⟨x.flatten, hx.code, hkinded.loads_after_stores hx.nodup⟩

/-- The standard table with an extension method `getTwice` for numbers. -/
def twiceSetting : Setting where
  table := ClassTable.standard.addExtension
    (ClassTable.standardExtension "getTwice" [.ofClass .integer] .int)
  enclosing := .object
  options := .standard

/-- `numbers.twice` on a list of primitive numbers. -/
def numbersTwice : Expr :=
  .property (.localVar 1 { type := .object .list [.int] }) { member := "twice", span := .none }
    { type := .ofClass .arrayList }

theorem expr_slotKinds_numbersTwice :
    ((expr twiceSetting numbersTwice (.empty 2)).1 = .ok (.ofClass .arrayList) ∧
        numbersTwice.loadsPrimitiveElement twiceSetting = true) ∧
      ∃ code, (expr twiceSetting numbersTwice (.empty 2)).2.code = code ∧
        ∃ slot p kind, Arrives code slot (some .reference) p ∧
          code[p]? = some (.load kind slot) ∧ kind ≠ .reference := by
  obtain ⟨code, hcode, -, hmixes⟩ :=
    expr_slotKinds twiceSetting numbersTwice (.empty 2) (.ofClass .arrayList) rfl
  exact ⟨⟨rfl, rfl⟩, code, hcode, hmixes rfl⟩

/-- Slot 4 holds the element, a reference by its store and a number by its load. -/
theorem numbersTwice_mixes :
    (expr twiceSetting numbersTwice (.empty 2)).1 = .ok (.ofClass .arrayList) ∧
      (∀ slot ∈ numbersTwice.slotsRead, slot < 2) ∧
      ¬ ∀ slot : UInt16, 2 ≤ slot → ∀ last p kind,
        Arrives (expr twiceSetting numbersTwice (.empty 2)).2.code slot last p →
          (expr twiceSetting numbersTwice (.empty 2)).2.code[p]? = some (.load kind slot) →
            last = some kind := by
  refine ⟨rfl, fun slot hslot => ?_, fun hagree => ?_⟩
  · rw [List.mem_singleton.mp hslot]
    decide
  · have harrives := arrives_straight (expr twiceSetting numbersTwice (.empty 2)).2.code 4 20
      (by decide) (List.all_eq_true.mp rfl)
    have hlast := hagree 4 (by decide) _ 20 .int harrives rfl
    cases hlast

end Emit

end CallSite
