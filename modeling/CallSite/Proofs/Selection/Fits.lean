import CallSite.Proofs.ClassTable.Built
import CallSite.Proofs.Code.Descriptor
import CallSite.Proofs.Emission.Call
import CallSite.Proofs.Selection.Source

/-!
# Methods that fit their calls

An access or operator is bound to methods that take as many operands as the call has, if the table
has no method without a result, no bridge accessor of other than one parameter, and no member of the
extension holder that is called without a receiver.
-/

namespace CallSite

/-- A table without the members that calls are not written for. -/
structure ClassTable.Tame (t : ClassTable) : Prop where
  methods : ∀ c, ∀ m ∈ (t.info c).methods, m.returns ≠ .void
  properties : ∀ c, ∀ p ∈ (t.info c).properties, p.type ≠ .void
  bridges : ∀ c, ∀ b ∈ (t.info c).bridges,
    b.accessor.returns ≠ .void ∧ b.accessor.params.length = 1
  extensions : ∀ m ∈ t.extensions, m.returns ≠ .void
  names : t.NamesPlain
  holder : (t.info .extensions).methods = [] ∧ (t.info .extensions).bridges = [] ∧
    ∀ p ∈ (t.info .extensions).properties, p.isStatic = false

/-- A call of the method with `args` arguments is given the operands that the method takes, and
leaves a result. No method of an object is called `add`. -/
structure Method.Fits (m : Method) (args : Nat) : Prop where
  value : m.returns ≠ .void
  operands : m.params.length + (if m.isStatic then 0 else 1) =
    args + if m.takesReceiver then 1 else 0
  name : m.isStatic = true ∨ m.name ≠ "add"

/-- The methods of the binding fit the calls that are written for it. -/
def Binding.Fits : Binding → Prop
  | getter m | interfaceGetter m | extension m => m.Fits 0
  | bridge accessor _ => accessor.Fits 1
  | _ => True

/-- The methods of the binding fit the calls that are written for it. -/
def OperatorBinding.Fits : OperatorBinding → Prop
  | subscript m | extension m => m.Fits 1
  | _ => True

namespace ClassTable

variable {t : ClassTable}

/-! ## Members of a table -/

theorem fits_of_owner {m : Method} {args : Nat} (ho : m.owner ≠ .extensions)
    (hv : m.returns ≠ .void) (hp : m.params.length = args)
    (hn : m.isStatic = true ∨ m.name ≠ "add") : m.Fits args := by
  refine ⟨hv, ?_, hn⟩
  have he : Emit.isExtension m = false := beq_eq_false_iff_ne.mpr ho
  unfold Method.takesReceiver
  rw [he, hp]
  cases m.isStatic <;> rfl

theorem fits_of_extension {m : Method} {args : Nat} (ho : m.owner = .extensions)
    (hs : m.isStatic = true) (hv : m.returns ≠ .void) (hp : m.params.length = args + 1) :
    m.Fits args := by
  refine ⟨hv, ?_, Or.inl hs⟩
  have he : Emit.isExtension m = true := beq_iff_eq.mpr ho
  unfold Method.takesReceiver
  rw [he, hp, hs]
  rfl

/-- No method that a class lists belongs to the extension holder. -/
theorem Tame.owner_ne (ht : t.Tame) (ho : t.Owned) {c : ClassId} {m : Method}
    (hm : m ∈ (t.info c).methods) : m.owner ≠ .extensions := by
  rw [(ho.classes c).methods m hm]
  rintro rfl
  rw [ht.holder.1] at hm
  cases hm

private theorem getter_ne_add {m : Method} (h : m.IsGetter) : m.name ≠ "add" := by
  intro he
  have hnot : m.name ∉ ["add"] := h.name_notMem (by decide)
  exact hnot (he ▸ List.mem_singleton_self _)

/-! ## Getters and accessors -/

private theorem getter_fits (ht : t.Tame) (ho : t.Owned) {m : Method} (hg : m.IsGetter)
    {c : ClassId} (hm : m ∈ (t.info c).methods) : m.Fits 0 :=
  fits_of_owner (ht.owner_ne ho hm) (ht.methods c m hm) (by rw [hg.params]; rfl)
    (Or.inr (getter_ne_add hg))

/-- The getter of a property fits also on the extension holder, where it is called on a receiver. -/
private theorem propertyGetter_fits (ht : t.Tame) {c : ClassId} {p : Property}
    (hp : p ∈ (t.info c).properties) : (Rule.propertyGetter c p).Fits 0 := by
  have hname := getter_ne_add (propertyGetter_isGetter c p)
  refine ⟨ht.properties c p hp, ?_, Or.inr hname⟩
  by_cases hc : c = .extensions
  · rw [hc] at hp
    have hs : (Rule.propertyGetter c p).isStatic = false := ht.holder.2.2 p hp
    unfold Method.takesReceiver
    rw [hs, Bool.not_false, Bool.or_true]
    rfl
  · exact (fits_of_owner (m := Rule.propertyGetter c p) hc (ht.properties c p hp) rfl
      (Or.inr hname)).operands

private theorem getterAlong_fits (ht : t.Tame) (ho : t.Owned) {q : Query} {cs : List ClassId}
    {m : Method} (h : Rule.getterAlong t q cs = some m) : m.Fits 0 := by
  rcases getterAlong_cases h with ⟨c, hm⟩ | ⟨c, p, hp, rfl⟩
  · obtain ⟨hg, k, -, hk⟩ := declaredGetter?_cases hm
    exact getter_fits ht ho hg hk
  · exact propertyGetter_fits ht hp

/-- Of the extension methods, those that accept a call with `args` arguments have a parameter more. -/
private theorem extensionsFor_fits (ht : t.Tame) (ho : t.Owned) {receiver : Ty} {name : String}
    {args : List Ty} {m : Method} (h : m ∈ t.extensionsFor receiver name args) :
    m.Fits args.length := by
  obtain ⟨hm, ha⟩ := List.mem_filter.mp h
  have ha := (Bool.and_eq_true _ _ ▸ ha).2
  refine fits_of_extension (ho.extensions m hm).1 (ho.extensions m hm).2 (ht.extensions m hm) ?_
  unfold accepts at ha
  split at ha
  · cases ha
  · rename_i self params hp
    simp only [Bool.and_eq_true, beq_iff_eq] at ha
    rw [hp, List.length_cons, ha.1.1]

private theorem bridge?_fits (ht : t.Tame) (ho : t.Owned) {c : ClassId} {field : String} {m : Method}
    (h : t.bridge? c field = some m) : m.Fits 1 := by
  obtain ⟨b, hb, rfl⟩ := Option.map_eq_some_iff.mp h
  have hmem := List.mem_of_find?_eq_some hb
  obtain ⟨howner, hstatic⟩ := (ho.classes c).bridges b hmem
  obtain ⟨hvalue, hparams⟩ := ht.bridges c b hmem
  refine fits_of_owner ?_ hvalue hparams (Or.inl hstatic)
  rw [howner]
  rintro rfl
  rw [ht.holder.2.1] at hmem
  cases hmem

/-- Whatever rule binds an access, the methods it chooses fit their calls. -/
theorem select_fits (ht : t.Tame) (ho : t.Owned) (q : Query) : (q.select t).2.Fits := by
  have hchosen := select_chosen t q
  cases hb : (q.select t).2 with
  | getter m =>
    rw [hb] at hchosen
    obtain ⟨c, -, hm⟩ := hchosen
    exact getterAlong_fits ht ho hm
  | interfaceGetter m =>
    rw [hb] at hchosen
    obtain ⟨hg, k, hk⟩ := hchosen
    exact getter_fits ht ho hg hk
  | bridge accessor fieldStatic =>
    rw [hb] at hchosen
    obtain ⟨c, hm⟩ := hchosen
    exact bridge?_fits ht ho hm
  | extension m =>
    rw [hb] at hchosen
    obtain ⟨name, hm⟩ := hchosen
    exact extensionsFor_fits ht ho hm
  | _ => trivial

/-! ## Operators -/

private theorem primitiveOperator?_fits {options : Options} {receiver argument : Ty} {op : String}
    {binding : OperatorBinding}
    (h : t.primitiveOperator? options receiver argument op = some binding) : binding.Fits := by
  have hnone := method?_of_primitiveOperator? h
  cases binding with
  | subscript m => cases hnone
  | extension m => cases hnone
  | _ => trivial

private theorem declaredSubscript?_fits (ht : t.Tame) (ho : t.Owned) {receiver argument : Ty}
    {m : Method} (h : t.declaredSubscript? receiver argument = some m) : m.Fits 1 := by
  obtain ⟨c, -, h⟩ := Option.bind_eq_some_iff.mp h
  obtain ⟨k, -, h⟩ := List.exists_of_findSome?_eq_some h
  have hm := List.mem_of_find?_eq_some h
  have hg := List.find?_some h
  simp only [Bool.and_eq_true, beq_iff_eq] at hg
  refine fits_of_owner (ht.owner_ne ho hm) (ht.methods k m hm) ?_ (Or.inr ?_)
  · split at hg
    · rename_i hp
      rw [hp]
      rfl
    · cases hg.2
  · rw [hg.1]
    decide

/-- Whatever an operator is bound to, the method it chooses fits its call. -/
theorem selectOperator_fits (ht : t.Tame) (ho : t.Owned) {options : Options}
    {receiver argument : Ty} {op : String} {binding : OperatorBinding}
    (h : t.selectOperator options receiver argument op = some binding) : binding.Fits := by
  unfold selectOperator at h
  rcases of_orElse h with h | h
  · exact primitiveOperator?_fits h
  · rcases of_orElse h with h | h
    · obtain ⟨m, hm, rfl⟩ := Option.map_eq_some_iff.mp h
      exact declaredSubscript?_fits ht ho hm
    · rcases of_orElse h with h | h
      · obtain ⟨m, hm, rfl⟩ := Option.map_eq_some_iff.mp h
        exact extensionsFor_fits ht ho (mem_of_extensionOperator? hm)
      · split at h <;> cases h
        trivial

/-! ## The standard table -/

/-- The standard table has no member that calls are not written for. -/
theorem standard_tame : standard.Tame where
  methods c m hm := by
    by_cases hc : c.index < 24
    · have hall : ∀ i < 24, ∀ m ∈ (standard.info ⟨i⟩).methods, m.returns ≠ .void := by decide
      exact hall c.index hc m hm
    · rw [info_standard_of_le (Nat.le_of_not_lt hc)] at hm
      cases hm
  properties c p hp := by
    by_cases hc : c.index < 24
    · have hall : ∀ i < 24, (standard.info ⟨i⟩).properties = [] := by decide
      rw [hall c.index hc] at hp
      cases hp
    · rw [info_standard_of_le (Nat.le_of_not_lt hc)] at hp
      cases hp
  bridges c b hb := by
    by_cases hc : c.index < 24
    · have hall : ∀ i < 24, (standard.info ⟨i⟩).bridges = [] := by decide
      rw [hall c.index hc] at hb
      cases hb
    · rw [info_standard_of_le (Nat.le_of_not_lt hc)] at hb
      cases hb
  extensions := by decide
  names := by
    have hall : (standard.classes.all fun info =>
        info.name.toList.all fun c => c != ';' && c != ')') = true := by decide
    intro info hinfo c hc
    have hc' := List.all_eq_true.mp (List.all_eq_true.mp hall info hinfo) c hc
    rw [Bool.and_eq_true, bne_iff_ne, bne_iff_ne] at hc'
    exact hc'
  holder := ⟨rfl, rfl, nofun⟩

end ClassTable

end CallSite
