import CallSite.Proofs.Code.Shape
import CallSite.Proofs.Emission.Access

/-!
# Labels of the written code

Whatever the class table holds, code that is written binds and jumps to labels of its own: those
that are taken while it is written.
-/

namespace CallSite

/-- The instruction binds the label or jumps to it. -/
def Instruction.Names (i : Instruction) (l : Nat) : Prop := i.bound? = some l ∨ i.target? = some l

theorem Instruction.not_names_of_isPlain {i : Instruction} (h : i.isPlain = true) (l : Nat) :
    ¬ i.Names l := by
  rintro (hl | hl)
  · rw [bound?_of_isPlain h] at hl
    cases hl
  · rw [target?_of_isPlain h] at hl
    cases hl

namespace Emit

variable {s : Setting} {d d' mid : Draft} {lo : Nat}

/-- The draft has grown by code all whose labels lie between `lo` and the next free one. -/
structure Labelled (lo : Nat) (d d' : Draft) : Prop where
  later : d.nextLabel ≤ d'.nextLabel
  code : ∃ is, d'.code = d.code ++ is ∧ ∀ i ∈ is, ∀ l, i.Names l → lo ≤ l ∧ l < d'.nextLabel

namespace Labelled

theorem refl (lo : Nat) (d : Draft) : Labelled lo d d :=
  ⟨Nat.le_refl _, [], (List.append_nil _).symm, nofun⟩

theorem trans (h : Labelled lo d mid) (h' : Labelled lo mid d') : Labelled lo d d' := by
  obtain ⟨hlater, is, hcode, his⟩ := h
  obtain ⟨hlater', js, hcode', hjs⟩ := h'
  refine ⟨Nat.le_trans hlater hlater', is ++ js, ?_, fun i hi l hl => ?_⟩
  · rw [hcode', hcode, List.append_assoc]
  · rcases List.mem_append.mp hi with hi | hi
    · have hfresh := his i hi l hl
      omega
    · exact hjs i hi l hl

theorem mono {lo' : Nat} (h : Labelled lo d d') (hlo : lo' ≤ lo) : Labelled lo' d d' := by
  obtain ⟨hlater, is, hcode, his⟩ := h
  refine ⟨hlater, is, hcode, fun i hi l hl => ?_⟩
  have hfresh := his i hi l hl
  omega

/-- Labels that are taken later are free now. -/
theorem next (h : Labelled d.nextLabel d mid) (h' : Labelled mid.nextLabel mid d') :
    Labelled d.nextLabel d d' := h.trans (h'.mono h.later)

/-- Instructions whose labels have been taken before. -/
theorem append {is : List Instruction} (his : ∀ i ∈ is, ∀ l, i.Names l → lo ≤ l ∧ l < d.nextLabel)
    (hc : d'.code = d.code ++ is) (hl : d'.nextLabel = d.nextLabel) : Labelled lo d d' :=
  ⟨Nat.le_of_eq hl.symm, is, hc, hl ▸ his⟩

theorem plain {is : List Instruction} (his : ∀ i ∈ is, i.isPlain = true)
    (hc : d'.code = d.code ++ is) (hl : d'.nextLabel = d.nextLabel) : Labelled lo d d' :=
  .append (fun i hi l h => absurd h (Instruction.not_names_of_isPlain (his i hi) l)) hc hl

/-- One instruction without labels. -/
theorem one {i : Instruction} (hi : i.isPlain = true) (hc : d'.code = d.code ++ [i])
    (hl : d'.nextLabel = d.nextLabel) : Labelled lo d d' := by
  exact .plain (List.forall_mem_singleton.mpr hi) hc hl

end Labelled

theorem Converts.labelled (h : Converts d d') : Labelled lo d d' := by
  obtain ⟨is, stack, hi, rfl, -⟩ := h
  exact .plain (fun i h => Instruction.isPlain_of_isQuiet (hi i h).quiet) rfl rfl

/-- Whenever the step returns, the code that it wrote has labels of its own. -/
def OwnLabels {α : Type} (step : Emit α) : Prop :=
  ∀ d v d', Returns step d v d' → Labelled d.nextLabel d d'

/-! ## Calls and field reads -/

theorem labelled_pushString (text : String) : OwnLabels (pushString text) := by
  intro d v d' h
  rw [returns_pushString.mp h]
  exact .one rfl rfl rfl

theorem labelled_pushNull : OwnLabels pushNull := by
  intro d v d' h
  rw [returns_pushNull.mp h]
  exact .one rfl rfl rfl

theorem labelled_discard {α : Type} {step : Emit α} (h : OwnLabels step) :
    OwnLabels (discard step) := by
  intro d v d' hd
  obtain ⟨a, hd⟩ := returns_discard.mp hd
  exact h _ _ _ hd

theorem labelled_arguments {args : List (Emit Unit)} {params : List Ty}
    (hargs : ∀ arg ∈ args, OwnLabels arg) : OwnLabels (arguments s args params) := by
  intro d v d' h
  induction args generalizing d params with
  | nil =>
    rw [(returns_pure.mp h).2]
    exact .refl _ _
  | cons arg args ih =>
    obtain ⟨d₁, d₂, harg, hc, hrest⟩ := arguments_cons_inv h
    have hrest := ih (fun a ha => hargs a (List.mem_cons_of_mem _ ha)) _ hrest
    exact ((hargs arg List.mem_cons_self _ _ _ harg).trans hc.labelled).next hrest

theorem labelled_called (s : Setting) (method : Method) (below : Nat) :
    Labelled lo d (Draft.called s method below d) :=
  .one (by rfl) rfl rfl

/-- The code that makes a null result takes two labels of its own. -/
theorem labelled_orNull
    (h : Labelled (d.nextLabel + 1) { d with
      code := d.code ++ [.dup, .jumpIfNull d.nextLabel], nextLabel := d.nextLabel + 1 } mid)
    (hd : d' = { mid with
      code := mid.code ++
        [.jump mid.nextLabel, .label d.nextLabel, .pop, .pushNull, .label mid.nextLabel]
      nextLabel := mid.nextLabel + 1 }) : Labelled d.nextLabel d d' := by
  obtain ⟨hlater, is, hcode, his⟩ := h
  have hlater : d.nextLabel + 1 ≤ mid.nextLabel := hlater
  subst hd
  refine ⟨by show _ ≤ mid.nextLabel + 1; omega, [.dup, .jumpIfNull d.nextLabel] ++ is ++
    [.jump mid.nextLabel, .label d.nextLabel, .pop, .pushNull, .label mid.nextLabel], ?_, ?_⟩
  · show mid.code ++ _ = _
    rw [hcode]
    simp only [List.append_assoc]
  · intro i hi l hl
    show d.nextLabel ≤ l ∧ l < mid.nextLabel + 1
    simp only [List.mem_append, List.mem_cons, List.not_mem_nil, or_false] at hi
    rcases hi with ((rfl | rfl) | hi) | rfl | rfl | rfl | rfl | rfl
    · rcases hl with hl | hl <;> cases hl
    · rcases hl with hl | hl <;> cases hl
      omega
    · have hfresh := his i hi l hl
      omega
    all_goals rcases hl with hl | hl <;> cases hl
    all_goals omega

/-- What a safe call writes behind its receiver takes labels after that of the null result. -/
theorem call_inv_guarded {receiver : Emit Ty} {method : Method} {args : List (Emit Unit)} {ty : Ty}
    (ht : method.takesReceiver = true) (hargs : ∀ arg ∈ args, OwnLabels arg)
    (h : Returns (call s receiver method args true) d ty d') :
    ∃ self first last, Returns receiver d self first ∧
      Labelled (first.nextLabel + 1) { first with
        code := first.code ++ [.dup, .jumpIfNull first.nextLabel]
        nextLabel := first.nextLabel + 1 } last ∧
      d' = { last with
        code := last.code ++
          [.jump last.nextLabel, .label first.nextLabel, .pop, .pushNull, .label last.nextLabel]
        nextLabel := last.nextLabel + 1 } := by
  obtain ⟨self, d₁, d₂, d₃, d₄, hself, hc, ha, hb, hd, -⟩ := call_inv_safe ht h
  refine ⟨self, d₁, d₄, hself, ?_, hd⟩
  have hcast : Labelled (d₁.nextLabel + 1) _ d₂ := (coerce_converts hc).labelled
  have hargs : Labelled (d₁.nextLabel + 1) d₂ d₃ :=
    (labelled_arguments hargs _ _ _ ha).mono hcast.later
  exact ((hcast.trans hargs).trans (labelled_called s method _)).trans (boxTop_converts hb).labelled

theorem labelled_call {receiver : Emit Ty} {method : Method} {args : List (Emit Unit)} {safe : Bool}
    (hr : method.takesReceiver = true → OwnLabels receiver) (hargs : ∀ arg ∈ args, OwnLabels arg) :
    OwnLabels (call s receiver method args safe) := by
  intro d ty d' h
  have harguments : OwnLabels (arguments s args (argumentTypes method)) := labelled_arguments hargs
  cases ht : method.takesReceiver with
  | false =>
    obtain ⟨mid, ha, rfl, -⟩ := (returns_call_static ht).mp h
    exact (harguments _ _ _ ha).trans (labelled_called s method _)
  | true =>
    cases safe with
    | false =>
      obtain ⟨self, d₁, d₂, d₃, hself, hc, ha, rfl, -⟩ := (returns_call_plain ht).mp h
      have hreceiver := (hr ht _ _ _ hself).trans (coerce_converts hc).labelled
      exact (hreceiver.next (harguments _ _ _ ha)).trans (labelled_called s method _)
    | true =>
      obtain ⟨self, first, last, hself, hbody, hd⟩ := call_inv_guarded ht hargs h
      exact (hr ht _ _ _ hself).next (labelled_orNull hbody hd)

theorem labelled_readField {receiver : Emit Ty} {field : Field}
    (hr : field.isStatic = false → OwnLabels receiver) : OwnLabels (readField s receiver field) := by
  intro d ty d' h
  cases hs : field.isStatic with
  | true =>
    obtain ⟨-, rfl⟩ := readField_inv_static hs h
    exact .one rfl rfl rfl
  | false =>
    obtain ⟨self, d₁, d₂, hself, hc, -, rfl⟩ := (returns_readField_instance hs).mp h
    exact ((hr hs _ _ _ hself).trans (castTo_converts hc).labelled).trans (.one rfl rfl rfl)

/-! ## Loops -/

/-- What a loop writes between the list and the access to an element. -/
private theorem names_head {slots : LoopSlots} {test exit : Nat} {target : String} {i : Instruction}
    {l : Nat} (hi : i ∈ slots.start ++ .label test ::
      (slots.test ++ .jumpIfZero exit :: slots.advance target)) (hl : i.Names l) :
    l = test ∨ l = exit := by
  have hplain : ∀ {is : List Instruction}, is.all Instruction.isPlain = true → i ∉ is :=
    fun his hi => Instruction.not_names_of_isPlain (List.all_eq_true.mp his i hi) l hl
  rcases List.mem_append.mp hi with hi | hi
  · exact absurd hi (hplain rfl)
  · rcases List.mem_cons.mp hi with rfl | hi
    · rcases hl with hl | hl <;> cases hl
      exact Or.inl rfl
    · rcases List.mem_append.mp hi with hi | hi
      · exact absurd hi (hplain rfl)
      · rcases List.mem_cons.mp hi with rfl | hi
        · rcases hl with hl | hl <;> cases hl
          exact Or.inr rfl
        · exact absurd hi (hplain rfl)

/-- What a loop writes after the access to an element. -/
private theorem names_tail {slots : LoopSlots} {test exit : Nat} {i : Instruction} {l : Nat}
    (hi : i ∈ LoopSlots.add ++ [.jump test, .label exit, .load .reference slots.result])
    (hl : i.Names l) : l = test ∨ l = exit := by
  simp only [LoopSlots.add, List.cons_append, List.nil_append, List.mem_cons, List.not_mem_nil,
    or_false] at hi
  rcases hi with rfl | rfl | rfl | rfl | rfl
  all_goals rcases hl with hl | hl <;> cases hl
  · exact Or.inl rfl
  · exact Or.inr rfl

/-- What a loop writes behind the list names its two labels, and labels taken after those of the
list. -/
theorem collect_inv_names {site : Site} {member : String} {component : Ty} {receiver : Emit Ty}
    {access : Site → Emit Ty} {ty : Ty}
    (ha : ∀ slot, OwnLabels (access (elementSite site member component slot)))
    (h : Returns (collect s site member component receiver access) d ty d') :
    ∃ listType first rest,
      Returns receiver { d with
        temporaries := d.temporaries.withLoop component
        nextLabel := d.nextLabel + 2 } listType first ∧
      d'.code = first.code ++ (d.temporaries.loopSlots.start ++ rest) ∧
      first.nextLabel ≤ d'.nextLabel ∧
      ∀ i ∈ d.temporaries.loopSlots.start ++ rest, ∀ l, i.Names l →
        l = d.nextLabel ∨ l = d.nextLabel + 1 ∨ first.nextLabel ≤ l ∧ l < d'.nextLabel := by
  obtain ⟨listType, item, d₁, d₂, d₃, hlist, hitem, hbox, -, hrelease, -⟩ := collect_inv h
  obtain ⟨ts, rfl⟩ := forM_release_inv hrelease
  have helement : Labelled d₁.nextLabel _ d₃ :=
    (ha _ _ _ _ hitem).trans (boxTop_converts hbox).labelled
  obtain ⟨hlater, is, hcode, his⟩ := helement
  refine ⟨listType, d₁, .label d.nextLabel :: (d.temporaries.loopSlots.test ++
    .jumpIfZero (d.nextLabel + 1) ::
      d.temporaries.loopSlots.advance (s.table.internalTypeName component)) ++ (is ++
    (LoopSlots.add ++ [.jump d.nextLabel, .label (d.nextLabel + 1),
      .load .reference d.temporaries.loopSlots.result])), hlist, ?_, hlater, fun i hi l hl => ?_⟩
  · show d₃.code ++ _ = _
    rw [hcode]
    simp only [List.append_assoc, List.cons_append]
  · rw [← List.append_assoc] at hi
    rcases List.mem_append.mp hi with hi | hi
    · exact (names_head hi hl).imp_right Or.inl
    · rcases List.mem_append.mp hi with hi | hi
      · exact Or.inr (Or.inr (his i hi l hl))
      · exact (names_tail hi hl).imp_right Or.inl

theorem labelled_collect {site : Site} {member : String} {component : Ty} {receiver : Emit Ty}
    {access : Site → Emit Ty} (hr : OwnLabels receiver)
    (ha : ∀ slot, OwnLabels (access (elementSite site member component slot))) :
    OwnLabels (collect s site member component receiver access) := by
  intro d ty d' h
  obtain ⟨listType, first, rest, hlist, hcode, hlater, hnames⟩ := collect_inv_names ha h
  obtain ⟨htaken, is, hlistCode, his⟩ := hr _ _ _ hlist
  have htaken : d.nextLabel + 2 ≤ first.nextLabel := htaken
  refine ⟨by omega, is ++ (d.temporaries.loopSlots.start ++ rest), ?_, fun i hi l hl => ?_⟩
  · rw [hcode, hlistCode, List.append_assoc]
  · rcases List.mem_append.mp hi with hi | hi
    · have hfresh : d.nextLabel + 2 ≤ l ∧ l < first.nextLabel := his i hi l hl
      omega
    · have hfresh := hnames i hi l hl
      omega

/-! ## Accesses and operators -/

theorem labelled_bound {binding : Binding} {site : Site} {member : String} {receiver : Emit Ty}
    {collected : Ty → Emit Ty} (hr : OwnLabels receiver)
    (hc : ∀ component, binding = .eachElement component → OwnLabels (collected component)) :
    OwnLabels (bound s binding site member receiver collected) := by
  intro d ty d' h
  have hcall : ∀ {method : Method} {args safe}, (∀ arg ∈ args, OwnLabels arg) →
      Returns (call s receiver method args safe) d ty d' → Labelled d.nextLabel d d' :=
    fun hargs h => labelled_call (fun _ => hr) hargs _ _ _ h
  have hnone : ∀ arg ∈ ([] : List (Emit Unit)), OwnLabels arg := List.forall_mem_nil _
  cases binding with
  | arrayLength =>
    obtain ⟨self, d₁, hself, -, rfl⟩ := bound_inv_arrayLength h
    exact (hr _ _ _ hself).trans (.one (i := .arrayLength) rfl rfl rfl)
  | collectionSize => exact hcall hnone h
  | getter method => exact hcall hnone h
  | interfaceGetter method => exact hcall hnone h
  | extension method => exact hcall hnone h
  | field field => exact labelled_readField (fun _ => hr) _ _ _ h
  | bridge accessor fieldStatic =>
    refine hcall (List.forall_mem_singleton.mpr ?_) h
    cases fieldStatic with
    | true => exact labelled_pushNull
    | false => exact labelled_discard hr
  | enumConstant owner =>
    obtain ⟨-, rfl⟩ := bound_inv_enumConstant h
    exact .one rfl rfl rfl
  | mapEntry =>
    exact hcall (List.forall_mem_singleton.mpr (labelled_pushString member)) h
  | eachElement component => exact hc component rfl _ _ _ h
  | dynamic property =>
    exact hcall (List.forall_mem_singleton.mpr (labelled_pushString property)) h
  | unresolved =>
    exact labelled_pushNull _ _ _ (bound_inv_unresolved h).2

theorem labelled_loadLocal {slot : UInt16} {note : Note} : OwnLabels (loadLocal s slot note) := by
  intro d ty d' h
  obtain ⟨-, rfl⟩ := returns_loadLocal.mp h
  exact .one rfl rfl rfl

theorem labelled_access {site : Site} {receiver : Emit Ty} {collected : Ty → Emit Ty}
    (hr : OwnLabels receiver) (hc : ∀ component, OwnLabels (collected component)) :
    OwnLabels (access s site receiver collected) := by
  intro d ty d' h
  obtain ⟨diagnostics, hb, -⟩ := access_inv h
  obtain ⟨hlater, hcode⟩ := labelled_bound hr (fun component _ => hc component) _ _ _ hb
  exact ⟨hlater, hcode⟩

theorem labelled_boundOperator {binding : OperatorBinding} {receiver argument : Emit Ty}
    (hr : OwnLabels receiver) (ha : OwnLabels argument) :
    OwnLabels (boundOperator s binding receiver argument) := by
  intro d ty d' h
  have hargs : ∀ arg ∈ [(discard argument : Emit Unit)], OwnLabels arg :=
    List.forall_mem_singleton.mpr (labelled_discard ha)
  cases hb : binding.callee? with
  | none =>
    obtain ⟨self, arg, d₁, d₂, d₃, d₄, i, hself, hc, harg, hc', ⟨hq, -, -⟩, rfl⟩ :=
      boundOperator_inv_pair hb h
    have hfirst := ((hr _ _ _ hself).trans hc.labelled).next (ha _ _ _ harg)
    exact (hfirst.trans hc'.labelled).trans (.one (Instruction.isPlain_of_isQuiet hq) rfl rfl)
  | some method =>
    exact labelled_call (fun _ => hr) hargs _ _ _ (boundOperator_inv_call hb h)

/-! ## Expressions -/

theorem labelled_elementAccess (depth : Nat) (site : Site) : OwnLabels (elementAccess s depth site) := by
  induction depth generalizing site with
  | zero => exact fun _ _ _ h => absurd h returns_throw
  | succ depth ih =>
    refine labelled_access ?_ fun component => labelled_collect ?_ fun slot => ih _
    all_goals
      split
      · exact labelled_loadLocal
      · exact fun _ _ _ h => absurd h returns_throw

/-- The labels in the code of an expression are all taken while it is written. -/
theorem labelled_expr (s : Setting) (e : Expr) : OwnLabels (expr s e) := by
  induction e with
  | this note =>
    intro d ty d' h
    obtain ⟨-, rfl⟩ := expr_inv_this h
    exact .one rfl rfl rfl
  | localVar slot note => exact labelled_loadLocal
  | classLiteral type note =>
    intro d ty d' h
    obtain ⟨-, rfl⟩ := expr_inv_classLiteral h
    exact .one rfl rfl rfl
  | constant value note =>
    intro d ty d' h
    obtain ⟨-, rfl⟩ := expr_inv_constant h
    exact .one (by cases value <;> rfl) rfl rfl
  | property receiver access note ih =>
    exact labelled_access ih fun component =>
      labelled_collect ih fun slot => labelled_elementAccess _ _
  | operator left op right note ihl ihr =>
    intro d ty d' h
    obtain ⟨binding, -, hb⟩ := operator_inv h
    exact labelled_boundOperator ihl ihr _ _ _ hb

end Emit

end CallSite
