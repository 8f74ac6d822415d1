import CallSite.Proofs.Emission.Appended
import CallSite.Proofs.Emission.Slots
import CallSite.Proofs.Selection.Fits

/-!
# The code of expressions

What is written for an expression is a tree of the known shapes with labels of its own, and it
leaves one operand. The temporaries are as they were in the end, as long as there are slots left.
-/

namespace CallSite

theorem OperatorBinding.Fits.callee {binding : OperatorBinding} {method : Method}
    (hf : binding.Fits) (hb : binding.callee? = some method) : method.Fits 1 := by
  cases binding with
  | subscript found => cases hb; exact hf
  | extension found => cases hb; exact hf
  | mapEntry => cases hb; exact ⟨Ty.noConfusion, rfl, Or.inr (by decide)⟩
  | _ => cases hb

namespace Emit

variable {s : Setting} {d d' : Draft} {floor : Option Nat} {given : List UInt16}

/-- The draft has grown by the code of block `x`, which leads from `a` operands to `b`. -/
structure Grown (floor : Option Nat) (given : List UInt16) (d d' : Draft) (a : Nat) (x : Block)
    (b : Nat) : Prop where
  code : d'.code = d.code ++ x.flatten
  shape : Shape floor given a x b
  later : d.nextLabel ≤ d'.nextLabel
  nodup : x.labels.Nodup
  fresh : ∀ l ∈ x.labels, d.nextLabel ≤ l ∧ l < d'.nextLabel
  temporaries : ∀ k, floor = some k → d'.temporaries = d.temporaries

theorem Grown.appended {a b : Nat} {x : Block} (h : Grown floor given d d' a x b) :
    Appended d d' x := ⟨h.code, h.later, h.nodup, h.fresh⟩

theorem Appended.grown {a b : Nat} {x : Block} (h : Appended d d' x)
    (hs : Shape floor given a x b) (ht : ∀ k, floor = some k → d'.temporaries = d.temporaries) :
    Grown floor given d d' a x b := ⟨h.code, hs, h.later, h.nodup, h.fresh, ht⟩

/-- The draft has grown by code that leads from `a` operands to `b`. -/
def Wrote (floor : Option Nat) (given : List UInt16) (d d' : Draft) (a b : Nat) : Prop :=
  ∃ x, Grown floor given d d' a x b

namespace Wrote

variable {a b c : Nat}

theorem trans {mid : Draft} (h : Wrote floor given d mid a b) (h' : Wrote floor given mid d' b c) :
    Wrote floor given d d' a c := by
  obtain ⟨x, hx⟩ := h
  obtain ⟨y, hy⟩ := h'
  exact ⟨_, (hx.appended.seq hy.appended).grown (.seq hx.shape hy.shape) fun k hk =>
    (hy.temporaries k hk).trans (hx.temporaries k hk)⟩

/-- Only the code, the labels and the temporaries of the first draft count. -/
theorem of_eq {first : Draft} (h : Wrote floor given first d' a b) (hc : first.code = d.code)
    (hl : first.nextLabel = d.nextLabel) (ht : first.temporaries = d.temporaries) :
    Wrote floor given d d' a b := by
  obtain ⟨x, hx⟩ := h
  refine ⟨x, hc ▸ hx.code, hx.shape, hl ▸ hx.later, hx.nodup, hl ▸ hx.fresh, ht ▸ hx.temporaries⟩

/-- Operands below do not matter. -/
theorem frame (h : Wrote floor given d d' a b) (c : Nat) :
    Wrote floor given d d' (a + c) (b + c) := by
  obtain ⟨x, hx⟩ := h
  exact ⟨x, hx.code, hx.shape.frame c, hx.later, hx.nodup, hx.fresh, hx.temporaries⟩

/-- Straight code. -/
theorem code {is : List Instruction} (h : Shape floor given a (.code is) b)
    (hc : d'.code = d.code ++ is) (hl : d'.nextLabel = d.nextLabel)
    (ht : d'.temporaries = d.temporaries) : Wrote floor given d d' a b :=
  ⟨_, (Appended.straight hc hl).grown h fun _ _ => ht⟩

/-- One instruction that takes all the operands there are. -/
theorem instruction {i : Instruction} (hi : i.isQuiet = true) (ha : i.takes = a) (hb : i.gives = b)
    (hc : d'.code = d.code ++ [i]) (hl : d'.nextLabel = d.nextLabel)
    (ht : d'.temporaries = d.temporaries) : Wrote floor given d d' a b := by
  refine code (.quiet hi (Nat.le_of_eq ha) ?_) hc hl ht
  rw [ha, hb, Nat.sub_self, Nat.zero_add]
  exact .nil

theorem room {span : Nat} (h : Wrote floor given d d' a b) (hr : d.temporaries.Room floor span) :
    d'.temporaries.Room floor span := by
  intro k hk
  obtain ⟨x, hx⟩ := h
  rw [hx.temporaries k hk]
  exact hr k hk

/-- Code for a topmost operand other than null. -/
theorem orNull {mid : Draft}
    (h : Wrote floor given { d with
      code := d.code ++ [.dup, .jumpIfNull d.nextLabel], nextLabel := d.nextLabel + 1 } mid
      (a + 1) (a + 1))
    (hd : d' = { mid with
      code := mid.code ++
        [.jump mid.nextLabel, .label d.nextLabel, .pop, .pushNull, .label mid.nextLabel]
      nextLabel := mid.nextLabel + 1 }) :
    Wrote floor given d d' (a + 1) (a + 1) := by
  obtain ⟨x, hx⟩ := h
  refine ⟨_, (hx.appended.orNull hd).grown (.orNull hx.shape) fun k hk => ?_⟩
  rw [hd]
  exact hx.temporaries k hk

end Wrote

theorem Converts.wrote (h : Converts d d') (a : Nat) : Wrote floor given d d' (a + 1) (a + 1) := by
  obtain ⟨is, stack, hi, rfl, -⟩ := h
  exact .code (.converts hi a) rfl rfl rfl

/-- Whenever the step returns, and `span` slots are left when it starts, the draft has grown by
code that leaves `n` operands. -/
def Writes {α : Type} (floor : Option Nat) (given : List UInt16) (span : Nat) (step : Emit α)
    (n : Nat) : Prop :=
  ∀ d v d', Returns step d v d' → d.temporaries.Room floor span → Wrote floor given d d' 0 n

section

variable {span : Nat} {receiver : Emit Ty}

theorem Writes.mono {α : Type} {step : Emit α} {m n : Nat} (h : Writes floor given m step n)
    (hm : m ≤ span) : Writes floor given span step n :=
  fun d v d' hr hroom => h d v d' hr (hroom.mono hm)

theorem Writes.discard {step : Emit Ty} {n : Nat} (h : Writes floor given span step n) :
    Writes floor given span (discard step : Emit Unit) n := by
  intro d v d' hr hroom
  obtain ⟨ty, hr⟩ := returns_discard.mp hr
  exact h d ty d' hr hroom

private theorem pushNull_writes : Writes floor given span pushNull 1 := by
  intro d v d' h _
  rw [returns_pushNull.mp h]
  exact .instruction (i := .pushNull) rfl rfl rfl rfl rfl rfl

private theorem pushString_writes (text : String) :
    Writes floor given span (pushString text) 1 := by
  intro d v d' h _
  rw [returns_pushString.mp h]
  exact .instruction (i := .push (.string text)) rfl rfl rfl rfl rfl rfl

/-! ## Calls -/

private theorem arguments_writes {args : List (Emit Unit)} {params : List Ty}
    (ha : ∀ arg ∈ args, Writes floor given span arg 1) :
    Writes floor given span (arguments s args params) args.length := by
  induction args generalizing params with
  | nil =>
    intro d v d' h _
    obtain ⟨-, rfl⟩ := returns_pure.mp h
    exact .code .nil (List.append_nil _).symm rfl rfl
  | cons arg args ih =>
    intro d v d' h hroom
    obtain ⟨d₁, d₂, harg, hc, hrest⟩ := arguments_cons_inv h
    have hfirst : Wrote floor given d d₂ 0 1 :=
      (ha arg List.mem_cons_self d () d₁ harg hroom).trans (hc.wrote 0)
    have hargs := ih (fun a hm => ha a (List.mem_cons_of_mem arg hm)) d₂ () d' hrest
      (hfirst.room hroom)
    have hframe := hargs.frame 1
    rw [Nat.zero_add] at hframe
    exact hfirst.trans hframe

/-- The call instruction of a method that fits puts the result in place of the operands of the
call. -/
private theorem called_wrote {method : Method} {args : Nat} {mid : Draft} (below : Nat)
    (hn : s.table.NamesPlain) (hf : method.Fits args) :
    Wrote floor given mid (Draft.called s method below mid)
      (args + if method.takesReceiver then 1 else 0) 1 := by
  have hcount := Descriptor.argCount_methodDescriptor hn method.params method.returns
  have hvoid : Descriptor.returnsVoid _ = false :=
    Descriptor.returnsVoid_methodDescriptor (t := s.table) method.params hf.value
  have htakes : (invocation s method).takes = args + if method.takesReceiver then 1 else 0 := by
    rw [← hf.operands, ← hcount]
    unfold invocation
    cases method.isStatic with
    | true => rfl
    | false => cases (s.table.info method.owner).isInterface <;> rfl
  have hgives : (invocation s method).gives = 1 := by
    show (if Descriptor.returnsVoid _ then 0 else 1) = 1
    rw [hvoid]
    rfl
  have hquiet : (invocation s method).isQuiet = true := by
    rcases hf.name with hs | hname
    · unfold invocation
      rw [hs]
      rfl
    · exact Bool.or_eq_true_iff.mpr (Or.inr (bne_iff_ne.mpr hname))
  exact .instruction hquiet htakes hgives rfl rfl rfl

/-- A call of a method that fits leaves its result. -/
private theorem call_writes {method : Method} {args : List (Emit Unit)} {safe : Bool}
    (hn : s.table.NamesPlain) (hf : method.Fits args.length)
    (hr : method.takesReceiver = true → Writes floor given span receiver 1)
    (ha : ∀ arg ∈ args, Writes floor given span arg 1) :
    Writes floor given span (call s receiver method args safe) 1 := by
  intro d ty d' h hroom
  have hcalled : ∀ below mid, Wrote floor given mid (Draft.called s method below mid) _ 1 :=
    fun below mid => called_wrote below hn hf
  cases ht : method.takesReceiver with
  | false =>
    obtain ⟨mid, hargs, rfl, -⟩ := (returns_call_static ht).mp h
    rw [ht] at hcalled
    exact (arguments_writes ha d () mid hargs hroom).trans (hcalled _ mid)
  | true =>
    rw [ht, if_pos rfl] at hcalled
    have hself := hr ht
    cases safe with
    | false =>
      obtain ⟨self, d₁, d₂, d₃, hself', hc, hargs, rfl, -⟩ := (returns_call_plain ht).mp h
      have hfirst : Wrote floor given d d₂ 0 1 :=
        (hself d self d₁ hself' hroom).trans ((coerce_converts hc).wrote 0)
      have hargs := (arguments_writes ha d₂ () d₃ hargs (hfirst.room hroom)).frame 1
      rw [Nat.zero_add] at hargs
      exact (hfirst.trans hargs).trans (hcalled _ d₃)
    | true =>
      obtain ⟨self, d₁, d₂, d₃, d₄, hself', hc, hargs, hb, rfl, -⟩ := call_inv_safe ht h
      have hfirst : Wrote floor given d d₁ 0 1 := hself d self d₁ hself' hroom
      have hcoerce : Wrote floor given _ d₂ 1 1 := (coerce_converts hc).wrote 0
      have hargs := (arguments_writes ha d₂ () d₃ hargs
        (hcoerce.room (hfirst.room hroom))).frame 1
      rw [Nat.zero_add] at hargs
      have hbox : Wrote floor given _ d₄ 1 1 := (boxTop_converts hb).wrote 0
      have hbody := ((hcoerce.trans hargs).trans (hcalled _ d₃)).trans hbox
      exact hfirst.trans (.orNull hbody rfl)

/-! ## Loops -/

/-- A loop leaves the list it has made, if what it is written from leaves one operand each. -/
private theorem collect_writes {site : Site} {member : String} {component : Ty}
    {access : Site → Emit Ty}
    (hr : Writes (Temporaries.inner floor component) given span receiver 1)
    (ha : ∀ slot, Writes (Temporaries.inner floor component) [slot] span
      (access (elementSite site member component slot)) 1) :
    Writes floor given (Temporaries.loopWidth component + span)
      (collect s site member component receiver access) 1 := by
  intro d ty d' h hroom
  obtain ⟨listType, item, d₁, d₂, d₃, hlist, hitem, hbox, -, hrelease, -⟩ := collect_inv h
  have hinner := hroom.withLoop
  obtain ⟨x, hx⟩ := hr _ _ _ hlist hinner
  have hinner₁ : d₁.temporaries.Room (Temporaries.inner floor component) span :=
    Wrote.room ⟨x, hx⟩ hinner
  have helement : Wrote _ [d.temporaries.loopSlots.next] _ d₃ 0 1 :=
    (ha _ _ _ _ hitem hinner₁).trans ((boxTop_converts hbox).wrote 0)
  obtain ⟨y, hy⟩ := helement
  have htemporaries : ∀ k, floor = some k → d'.temporaries = d.temporaries := by
    intro k hk
    have hk' : Temporaries.inner floor component = some (k + Temporaries.loopWidth component) := by
      rw [hk]
      rfl
    obtain ⟨htop, hspan⟩ := hroom k hk
    have hlast : d₃.temporaries = d.temporaries.withLoop component :=
      (hy.temporaries _ hk').trans (hx.temporaries _ hk')
    have hfit : d.temporaries.top + Temporaries.loopWidth component ≤ 65536 := by omega
    refine Temporaries.release_withLoop hfit ?_ hrelease
    exact hlast
  obtain ⟨ts, hd'⟩ := forM_release_inv hrelease
  have hblock : Appended d d' (d.temporaries.loopSlots.collect d.nextLabel (d.nextLabel + 1)
      (s.table.internalTypeName component) x y) :=
    hx.appended.collect ⟨rfl, rfl⟩ hy.appended ⟨rfl, rfl⟩ (by rw [hd']; exact ⟨rfl, rfl⟩)
  refine ⟨_, hblock.grown (.collect (fun k hk => ?_) hx.shape hy.shape) htemporaries⟩
  obtain ⟨htop, hspan⟩ := hroom k hk
  have hfit : d.temporaries.top + Temporaries.loopWidth component ≤ 65536 := by omega
  obtain ⟨hresult, hiterator, hnext⟩ := Temporaries.loopSlots_eq hfit
  refine ⟨⟨by omega, by omega, by omega⟩, k + Temporaries.loopWidth component, ?_, ?_⟩
  · rw [hk]
    rfl
  · have hw := component.width_pos
    unfold Temporaries.loopWidth
    omega

/-! ## Properties -/

private theorem loadLocal_writes {slot : UInt16} (note : Note) (hs : slot ∈ given) :
    Writes floor given span (loadLocal s slot note) 1 := by
  intro d ty d' h _
  obtain ⟨-, rfl⟩ := returns_loadLocal.mp h
  exact .code (.load hs .nil) rfl rfl rfl

private theorem readField_writes {field : Field}
    (hr : field.isStatic = false → Writes floor given span receiver 1) :
    Writes floor given span (readField s receiver field) 1 := by
  intro d ty d' h hroom
  cases hs : field.isStatic with
  | true =>
    obtain ⟨-, rfl⟩ := readField_inv_static hs h
    exact .instruction (i := .getStatic (fieldRef s field)) rfl rfl rfl rfl rfl rfl
  | false =>
    obtain ⟨self, d₁, d₂, hself, hc, -, rfl⟩ := (returns_readField_instance hs).mp h
    have hself : Wrote floor given d d₂ 0 1 :=
      (hr hs d self d₁ hself hroom).trans ((castTo_converts hc).wrote 0)
    exact hself.trans (.instruction (i := .getField (fieldRef s field)) rfl rfl rfl rfl rfl rfl)

/-- What an access is bound to leaves one operand, if the methods in it fit. -/
private theorem bound_writes {binding : Binding} {site : Site} {member : String}
    {collected : Ty → Emit Ty} (hn : s.table.NamesPlain) (hf : binding.Fits)
    (hr : binding.evaluates = true → Writes floor given span receiver 1)
    (hc : ∀ c, binding = .eachElement c → Writes floor given span (collected c) 1) :
    Writes floor given span (bound s binding site member receiver collected) 1 := by
  intro d ty d' h hroom
  have hnone : ∀ arg ∈ ([] : List (Emit Unit)), Writes floor given span arg 1 := nofun
  have hone : ∀ {arg : Emit Unit}, Writes floor given span arg 1 →
      ∀ a ∈ [arg], Writes floor given span a 1 := by
    intro arg h a ha
    rw [List.mem_singleton.mp ha]
    exact h
  have hcall : ∀ {method : Method} {args safe},
      Returns (call s receiver method args safe) d ty d' → method.Fits args.length →
      (method.takesReceiver = true → Writes floor given span receiver 1) →
      (∀ arg ∈ args, Writes floor given span arg 1) → Wrote floor given d d' 0 1 :=
    fun h hf hr ha => call_writes hn hf hr ha d ty d' h hroom
  cases binding with
  | arrayLength =>
    obtain ⟨self, d₁, hself, -, rfl⟩ := bound_inv_arrayLength h
    exact (hr rfl d self d₁ hself hroom).trans
      (.instruction (i := .arrayLength) rfl rfl rfl rfl rfl rfl)
  | collectionSize =>
    exact hcall h ⟨Ty.noConfusion, rfl, Or.inr (by decide)⟩ (fun _ => hr rfl) hnone
  | getter method => exact hcall h hf hr hnone
  | field field =>
    refine readField_writes (fun hs => hr ?_) d ty d' h hroom
    show (!field.isStatic) = true
    rw [hs]
    rfl
  | bridge accessor fieldStatic =>
    have hpush : Writes floor given span (if fieldStatic then pushNull else discard receiver) 1 := by
      cases hf : fieldStatic with
      | true => exact pushNull_writes
      | false => exact (hr (by show (_ || !fieldStatic) = true; rw [hf, Bool.or_comm]; rfl)).discard
    refine hcall h hf (fun ht => hr ?_) (hone hpush)
    show (accessor.takesReceiver || !fieldStatic) = true
    rw [ht]
    rfl
  | enumConstant owner =>
    obtain ⟨-, rfl⟩ := bound_inv_enumConstant h
    exact .instruction (i := .getStatic _) rfl rfl rfl rfl rfl rfl
  | interfaceGetter method => exact hcall h hf hr hnone
  | extension method => exact hcall h hf hr hnone
  | mapEntry =>
    exact hcall h ⟨Ty.noConfusion, rfl, Or.inr (by decide)⟩ (fun _ => hr rfl)
      (hone (pushString_writes member))
  | eachElement component => exact hc component rfl d ty d' h hroom
  | dynamic property =>
    exact hcall h ⟨Ty.noConfusion, rfl, Or.inr (by decide)⟩ (fun _ => hr rfl)
      (hone (pushString_writes property))
  | unresolved =>
    exact pushNull_writes d () d' (bound_inv_unresolved h).2 hroom

/-- An access leaves one operand. -/
private theorem access_writes {site : Site} {collected : Ty → Emit Ty} (ht : s.table.Tame)
    (ho : s.table.Owned)
    (hr : (s.binding site).evaluates = true → Writes floor given span receiver 1)
    (hc : ∀ c, s.binding site = .eachElement c → Writes floor given span (collected c) 1) :
    Writes floor given span (access s site receiver collected) 1 := by
  intro d ty d' h hroom
  obtain ⟨diagnostics, hb, -⟩ := access_inv h
  have hf : (s.binding site).Fits := ClassTable.select_fits ht ho _
  exact (bound_writes ht.names hf hr hc _ ty d' hb hroom).of_eq rfl rfl rfl

/-- The access to an element, which is in one of the given slots. -/
private theorem elementAccess_writes (ht : s.table.Tame) (ho : s.table.Owned) (depth : Nat)
    {site : Site} {slot : UInt16} {note : Note} (hs : site.receiver = .localVar slot note)
    (hgiven : slot ∈ given) :
    Writes floor given (elementSlots s depth site) (elementAccess s depth site) 1 := by
  induction depth generalizing floor given site slot note with
  | zero => exact fun d v d' h _ => absurd h returns_throw
  | succ depth ih =>
    unfold elementAccess
    simp only [hs]
    refine access_writes ht ho (fun _ => loadLocal_writes note hgiven) fun component hb => ?_
    have hslots : elementSlots s (depth + 1) site = Temporaries.loopWidth component +
        elementSlots s depth (elementSite site site.member component 0) := by
      simp only [elementSlots, hb]
    rw [hslots]
    refine collect_writes (loadLocal_writes note hgiven) fun next => ?_
    rw [← elementSlots_elementSite s depth site site.member component next]
    exact ih rfl (List.mem_singleton_self next)

end

/-! ## Operators -/

private theorem boundOperator_writes {span : Nat} {binding : OperatorBinding}
    {receiver argument : Emit Ty} (hn : s.table.NamesPlain) (hf : binding.Fits)
    (hr : binding.evaluates = true → Writes floor given span receiver 1)
    (ha : Writes floor given span argument 1) :
    Writes floor given span (boundOperator s binding receiver argument) 1 := by
  intro d ty d' h hroom
  have hone : ∀ arg ∈ [(discard argument : Emit Unit)], Writes floor given span arg 1 := by
    intro arg harg
    rw [List.mem_singleton.mp harg]
    exact ha.discard
  cases hb : binding.callee? with
  | none =>
    obtain ⟨self, arg, d₁, d₂, d₃, d₄, i, hself, hc, harg, hc', ⟨hq, htakes, hgives⟩, rfl⟩ :=
      boundOperator_inv_pair hb h
    have he := OperatorBinding.evaluates_of_instruction hb
    have hfirst : Wrote floor given d d₂ 0 1 := (hr he d self d₁ hself hroom).trans (hc.wrote 0)
    have hsecond : Wrote floor given d₂ d₄ 1 2 :=
      ((ha d₂ arg d₃ harg (hfirst.room hroom)).frame 1).trans (hc'.wrote 1)
    exact (hfirst.trans hsecond).trans (.instruction hq htakes hgives rfl rfl rfl)
  | some method =>
    rw [OperatorBinding.evaluates_of_callee hb] at hr
    exact call_writes hn (hf.callee hb) hr hone d ty d' (boundOperator_inv_call hb h) hroom

/-- A written expression leaves one operand, and its code is a tree of the known shapes. -/
theorem expr_writes (ht : s.table.Tame) (ho : s.table.Owned) (e : Expr)
    (hgiven : ∀ slot ∈ e.slotsRead, slot ∈ given) :
    Writes floor given (e.slotsTaken s) (expr s e) 1 := by
  induction e generalizing floor with
  | this note =>
    intro d ty d' h _
    obtain ⟨-, rfl⟩ := expr_inv_this h
    exact .code (.load (hgiven 0 (List.mem_singleton_self 0)) .nil) rfl rfl rfl
  | localVar slot note => exact loadLocal_writes note (hgiven slot (List.mem_singleton_self slot))
  | classLiteral type note =>
    intro d ty d' h _
    obtain ⟨-, rfl⟩ := expr_inv_classLiteral h
    exact .instruction (i := .push _) rfl rfl rfl rfl rfl rfl
  | constant value note =>
    intro d ty d' h _
    obtain ⟨-, rfl⟩ := expr_inv_constant h
    have hcode : (constantCode value).isQuiet = true ∧ (constantCode value).takes = 0 ∧
        (constantCode value).gives = 1 := by
      cases value <;> exact ⟨rfl, rfl, rfl⟩
    exact .instruction hcode.1 hcode.2.1 hcode.2.2 rfl rfl rfl
  | property receiver access note ih =>
    refine access_writes ht ho (fun he => (ih hgiven).mono ?_) fun component hb => ?_
    · simp only [Expr.slotsTaken]
      split
      · exact Nat.le_add_left_of_le (Nat.le_max_left _ _)
      · exact Nat.le_of_eq (if_pos he).symm
    · simp only [Expr.slotsTaken, hb]
      refine collect_writes ((ih hgiven).mono (Nat.le_max_left _ _)) fun next => ?_
      rw [← elementSlots_elementSite s _ _ _ _ next]
      exact (elementAccess_writes ht ho _ rfl (List.mem_singleton_self next)).mono
        (Nat.le_max_right _ _)
  | operator left op right note ihl ihr =>
    intro d ty d' h hroom
    obtain ⟨binding, hb, hbound⟩ := operator_inv h
    have hslots : (Expr.operator left op right note).slotsTaken s =
        max (if binding.evaluates then left.slotsTaken s else 0) (right.slotsTaken s) := by
      simp only [Expr.slotsTaken, hb]
    have hf : binding.Fits := ClassTable.selectOperator_fits ht ho hb
    rw [hslots] at hroom
    refine boundOperator_writes ht.names hf (fun he => ?_) ?_ d ty d' hbound hroom
    · refine (ihl fun slot hs => hgiven slot (List.mem_append_left _ hs)).mono ?_
      rw [if_pos he]
      exact Nat.le_max_left _ _
    · exact (ihr fun slot hs => hgiven slot (List.mem_append_right _ hs)).mono
        (Nat.le_max_right _ _)

end Emit

end CallSite
