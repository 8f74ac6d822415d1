import CallSite.Proofs.Code.Shape

/-!
# Descriptors and operands

The number of operands that a call takes, and whether it leaves one, is read out of the text of a
descriptor. For the descriptors of methods it is the number of their parameters, if no class name
holds a character that ends a type or the parameters, and only `void` methods leave nothing.
-/

namespace CallSite

/-- No class name holds a character that descriptors use to end a part. -/
def ClassTable.NamesPlain (t : ClassTable) : Prop :=
  ∀ info ∈ t.classes, ∀ c ∈ info.name.toList, c ≠ ';' ∧ c ≠ ')'

instance (t : ClassTable) : Decidable t.NamesPlain :=
  have _ (info : ClassInfo) : Decidable (∀ c ∈ info.name.toList, c ≠ ';' ∧ c ≠ ')') :=
    List.decidableBAll (fun c => c ≠ ';' ∧ c ≠ ')') info.name.toList
  List.decidableBAll (fun info : ClassInfo => ∀ c ∈ info.name.toList, c ≠ ';' ∧ c ≠ ')') t.classes

namespace Descriptor

variable {t : ClassTable}

theorem mem_internalOf {name : String} {c : Char} (h : c ∈ (internalOf name).toList) :
    c = '/' ∨ c ∈ name.toList := by
  unfold internalOf replaceChar at h
  rw [String.toList_ofList, List.mem_map] at h
  obtain ⟨old, hold, rfl⟩ := h
  split
  · exact Or.inl rfl
  · exact Or.inr hold

private theorem internalName_plain (ht : t.NamesPlain) (cls : ClassId) {c : Char}
    (h : c ∈ (t.internalName cls).toList) : c ≠ ';' ∧ c ≠ ')' := by
  rcases mem_internalOf h with rfl | h
  · decide
  · unfold ClassTable.name ClassTable.info at h
    cases hi : t.classes[cls.index]? with
    | none => rw [hi] at h; cases h
    | some info =>
      rw [hi] at h
      exact ht info (List.mem_of_getElem? hi) c h

/-- A type counts once, whatever its name. -/
private theorem countTypes_inName {name : List Char} (rest : List Char) (h : ∀ c ∈ name, c ≠ ';') :
    countTypes true (name ++ ';' :: rest) = countTypes false rest := by
  induction name with
  | nil => rfl
  | cons c cs ih =>
    have hc : (c != ';') = true := bne_iff_ne.mpr (h c List.mem_cons_self)
    show countTypes (c != ';') (cs ++ ';' :: rest) = _
    rw [hc]
    exact ih fun d hd => h d (List.mem_cons_of_mem c hd)

private theorem countTypes_descriptor (ht : t.NamesPlain) (ty : Ty) (rest : List Char) :
    countTypes false (t.descriptorChars ty ++ rest) = countTypes false rest + 1 := by
  have hclass : ∀ cls, countTypes false ('L' :: (t.internalName cls).toList ++ [';'] ++ rest) =
      countTypes false rest + 1 := by
    intro cls
    have hname := countTypes_inName rest fun c hc => (internalName_plain ht cls hc).1
    rw [List.append_assoc, List.singleton_append, ← hname]
    rfl
  induction ty using ClassTable.descriptorChars.induct with
  | case1 => rfl
  | case2 p => cases p <;> rfl
  | case3 cls args => exact hclass cls
  | case4 component ih => exact ih
  | case5 name => exact hclass .object

private theorem descriptor_noClose (ht : t.NamesPlain) (ty : Ty) : ')' ∉ t.descriptorChars ty := by
  have hclass : ∀ cls, ')' ∉ 'L' :: (t.internalName cls).toList ++ [';'] := by
    intro cls h
    rcases List.mem_append.mp h with h | h
    · rcases List.mem_cons.mp h with h | h
      · cases h
      · exact (internalName_plain ht cls h).2 rfl
    · cases List.mem_singleton.mp h
  induction ty using ClassTable.descriptorChars.induct with
  | case1 => exact of_decide_eq_true rfl
  | case2 p => cases p <;> exact of_decide_eq_true rfl
  | case3 cls args => exact hclass cls
  | case4 component ih =>
    intro h
    rcases List.mem_cons.mp h with h | h
    · cases h
    · exact ih h
  | case5 name => exact hclass .object

/-- The parameters end at the first closing parenthesis. -/
theorem params?_append {params rest : List Char} (h : ')' ∉ params) :
    params? ('(' :: params ++ ')' :: rest) = some params := by
  have hcontains : (params ++ ')' :: rest).contains ')' = true := by simp
  have hall : ∀ c ∈ params, decide (c ≠ ')') = true := by
    intro c hc
    rw [decide_eq_true_eq]
    rintro rfl
    exact h hc
  show (if (params ++ ')' :: rest).contains ')' then
    some ((params ++ ')' :: rest).takeWhile (· ≠ ')')) else none) = _
  rw [if_pos hcontains, List.takeWhile_append_of_pos hall]
  simp

/-- The descriptor of a method that takes nothing, whatever classes are called. -/
theorem argCount_methodDescriptor_nil (returns : Ty) :
    argCount (t.methodDescriptor [] returns) = 0 := by
  have hparams : params? (t.methodDescriptorChars [] returns) = some [] :=
    params?_append List.not_mem_nil
  unfold argCount ClassTable.methodDescriptor
  rw [String.toList_ofList, hparams]
  rfl

/-- A method's descriptor counts its parameters. -/
theorem argCount_methodDescriptor (ht : t.NamesPlain) (params : List Ty) (returns : Ty) :
    argCount (t.methodDescriptor params returns) = params.length := by
  have hclose : ')' ∉ params.flatMap t.descriptorChars := by
    intro h
    obtain ⟨ty, -, hty⟩ := List.mem_flatMap.mp h
    exact descriptor_noClose ht ty hty
  have hcount : countTypes false (params.flatMap t.descriptorChars) = params.length := by
    clear hclose
    induction params with
    | nil => rfl
    | cons ty tys ih =>
      rw [List.flatMap_cons, countTypes_descriptor ht, ih, List.length_cons]
  unfold argCount ClassTable.methodDescriptor ClassTable.methodDescriptorChars
  rw [String.toList_ofList, params?_append hclose]
  exact hcount

/-- Only the descriptor of `void` ends like that of a method without a result. -/
private theorem not_void_prefix {ty : Ty} (h : ty ≠ .void) (rest : List Char) :
    ¬ ['V', ')'] <+: (t.descriptorChars ty).reverse ++ rest := by
  have hclass : ∀ cls rest, ¬ ['V', ')'] <+:
      ('L' :: (t.internalName cls).toList ++ [';']).reverse ++ rest := by
    rintro cls rest ⟨tail, h⟩
    rw [List.reverse_append] at h
    cases h
  induction ty using ClassTable.descriptorChars.induct generalizing rest with
  | case1 => exact absurd rfl h
  | case2 p => rintro ⟨tail, h⟩; cases p <;> cases h
  | case3 cls args => exact hclass cls rest
  | case4 component ih =>
    show ¬ _ <+: ('[' :: t.descriptorChars component).reverse ++ rest
    rw [List.reverse_cons, List.append_assoc]
    by_cases hv : component = .void
    · rintro ⟨tail, h⟩
      rw [hv] at h
      cases h
    · exact ih hv _
  | case5 name => exact hclass .object rest

theorem returnsVoid_methodDescriptor (params : List Ty) {returns : Ty} (h : returns ≠ .void) :
    returnsVoid (t.methodDescriptor params returns) = false := by
  rw [Bool.eq_false_iff]
  intro hv
  unfold returnsVoid ClassTable.methodDescriptor ClassTable.methodDescriptorChars at hv
  rw [String.toList_ofList, List.isSuffixOf_iff_suffix, ← List.reverse_prefix] at hv
  change ['V', ')'] <+: _ at hv
  rw [List.reverse_append, List.reverse_cons, List.append_assoc] at hv
  exact not_void_prefix h _ hv

theorem returnsVoid_methodDescriptor_void (params : List Ty) :
    returnsVoid (t.methodDescriptor params .void) = true := by
  unfold returnsVoid ClassTable.methodDescriptor ClassTable.methodDescriptorChars
  rw [String.toList_ofList, List.isSuffixOf_iff_suffix]
  exact List.suffix_append ('(' :: params.flatMap t.descriptorChars) [')', 'V']

/-- The descriptor of a method that takes nothing and gives a primitive. -/
theorem unboxing_counts (p : Primitive) :
    argCount ("()" ++ p.descriptor.toString) = 0 ∧
      returnsVoid ("()" ++ p.descriptor.toString) = false := by
  cases p <;> exact ⟨rfl, rfl⟩

/-- The descriptor of a method that takes a primitive and gives an object, whatever the class is
called. -/
theorem boxing_counts (p : Primitive) (owner : String) :
    argCount ("(" ++ p.descriptor.toString ++ ")L" ++ owner ++ ";") = 1 ∧
      returnsVoid ("(" ++ p.descriptor.toString ++ ")L" ++ owner ++ ";") = false := by
  have hlist : ("(" ++ p.descriptor.toString ++ ")L" ++ owner ++ ";").toList =
      '(' :: [p.descriptor] ++ ')' :: ('L' :: owner.toList ++ [';']) := by
    simp [String.toList_append]
  constructor
  · unfold argCount
    rw [hlist, params?_append (by cases p <;> decide)]
    cases p <;> rfl
  · unfold returnsVoid
    rw [hlist, Bool.eq_false_iff]
    intro hv
    rw [List.isSuffixOf_iff_suffix, ← List.reverse_prefix] at hv
    obtain ⟨tail, h⟩ := hv
    simp at h

/-- What is read out of a method's descriptor is the method's own: it takes as many arguments as the
method has parameters, and gives nothing exactly if the method returns `void`. So a call puts one
result or none in place of its arguments and, unless it is static, its receiver. -/
theorem methodDescriptor_readBack (ht : t.NamesPlain) (params : List Ty) (returns : Ty) :
    argCount (t.methodDescriptor params returns) = params.length ∧
      (returnsVoid (t.methodDescriptor params returns) = true ↔ returns = .void) ∧
      ∀ (m : Machine) (code : List Instruction) (heap : Heap) (frame : Frame) (dispatch : Dispatch)
        (owner name : String),
        let member : MemberRef := ⟨owner, name, t.methodDescriptor params returns⟩
        let count := params.length + if dispatch = .static then 0 else 1
        m.execute code heap frame (.invoke dispatch member) =
          if frame.stack.length < count then .error (.stackUnderflow frame.position)
          else (m.invoke heap dispatch member (frame.stack.take count).reverse).map
            fun (later, result) => (later, { frame with
              position := frame.position + 1
              stack := (if returns = .void then [] else [result.getD .null]) ++
                frame.stack.drop count }) := by
  have hcount := argCount_methodDescriptor ht params returns
  have hvoid : returnsVoid (t.methodDescriptor params returns) = true ↔ returns = .void := by
    by_cases hr : returns = .void
    · rw [hr]
      exact iff_of_true (returnsVoid_methodDescriptor_void params) rfl
    · rw [returnsVoid_methodDescriptor params hr]
      exact iff_of_false Bool.false_ne_true hr
  refine ⟨hcount, hvoid, ?_⟩
  intro m code heap frame dispatch owner name member count
  have htakes : (Instruction.invoke dispatch member).takes = count := by
    show argCount (t.methodDescriptor params returns) + _ = _
    rw [hcount]
  have hresults : ∀ result, callResults member result =
      if returns = .void then [] else [result.getD .null] :=
    fun result => if_congr hvoid rfl rfl
  rw [Machine.execute_invoke, htakes]
  simp only [hresults]
  cases m.invoke heap dispatch member (frame.stack.take count).reverse <;> rfl

/-- Arrays, type arguments, type variables and `void` among the parameters count once each. -/
theorem methodDescriptor_readBack_nested :
    let params : List Ty := [.int, .array (.array .long), .object .map [.ofClass .string, .var "T"],
      .array (.var "T"), .array .void, .void]
    ClassTable.standard.NamesPlain ∧
      argCount (ClassTable.standard.methodDescriptor params .void) = 6 ∧
      returnsVoid (ClassTable.standard.methodDescriptor params .void) = true ∧
      returnsVoid (ClassTable.standard.methodDescriptor params (.array .void)) = false := by
  intro params
  have ht : ClassTable.standard.NamesPlain := by decide
  obtain ⟨hcount, hvoid, -⟩ := methodDescriptor_readBack ht params .void
  obtain ⟨-, harray, -⟩ := methodDescriptor_readBack ht params (.array .void)
  exact ⟨ht, hcount, hvoid.mpr rfl, Bool.eq_false_iff.mpr fun h => nomatch harray.mp h⟩

end Descriptor

end CallSite
