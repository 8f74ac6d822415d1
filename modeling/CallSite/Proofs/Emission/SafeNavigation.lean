import CallSite.Proofs.Emission.Fragment
import CallSite.Proofs.Emission.Labels
import CallSite.Proofs.Machine.Boxing
import CallSite.Proofs.Machine.Null

/-!
# Safe navigation

On a null receiver `receiver?.member` gives null, if it is bound to a call that is told so. The
length of an array, a field, an entry of a map and a property of list elements are looked for in
null as if the access were not safe.
-/

namespace CallSite

/-- An access that is bound so gives null for a null receiver, if it is safe. -/
def Binding.guardsNull : Binding → Bool
  | collectionSize | dynamic _ => true
  | getter m | interfaceGetter m | extension m => m.takesReceiver
  | _ => false

/-- What fails when an access that is bound so comes to look into null. -/
def Binding.nullContext? (t : ClassTable) : Binding → Option String
  | arrayLength => some "arraylength"
  | field f =>
    if f.isStatic then none else some ("getfield " ++ t.internalName f.owner ++ "." ++ f.name)
  | mapEntry => some "java/util/Map.get"
  | eachElement _ => some "java/util/List.size"
  | _ => none

/-- What a property access on a receiver that can be asked at run time is bound to. -/
def Setting.dynamicBinding (s : Setting) (site : Site) : Binding :=
  ((Query.ofDynamicSite s.table site s.enclosing s.inClosure).selectDynamic s.table).2

/-- The draft in which an access that is bound so writes its receiver. -/
def Binding.receiverDraft (d : Draft) : Binding → Draft
  | eachElement component =>
    { d with temporaries := d.temporaries.withLoop component, nextLabel := d.nextLabel + 2 }
  | _ => d

namespace Emit

variable {s : Setting} {d d' : Draft} {ty : Ty} {own code : List Instruction} {m : Machine}
  {locals : List Value}

/-- The two ways to write a site, with what it is bound to. -/
inductive Written (s : Setting) (site : Site) : Binding → Emit Ty → Prop
  | property : Written s site (s.binding site) (propertySite s site)
  | dynamic : Written s site (s.dynamicBinding site) (dynamicSite s site)

theorem Written.bound {site : Site} {binding : Binding} {write : Emit Ty}
    (hw : Written s site binding write) (he : binding.evaluates = true)
    (h : Returns write d ty d') :
    ∃ member, Returns (bound s binding site member (expr s site.receiver)
      (collectProperty s site member (expr s site.receiver))) d ty d' := by
  cases hw with
  | property =>
    have hne : s.binding site ≠ .unresolved := by
      intro hb
      rw [hb] at he
      cases he
    exact ⟨site.member, ((returns_access_of_ne hne).mp h).1⟩
  | dynamic =>
    unfold dynamicSite at h
    simp only [returns_bind, returns_depth, returns_expectDepth, returns_pure, and_assoc,
      exists_and_left, exists_eq_left, exists_const] at h
    obtain ⟨_, _, hb, _, rfl, rfl⟩ := h
    exact ⟨_, hb⟩

/-! ## Guarded calls -/

/-- Code whose labels have been taken before those of the code behind it. -/
private theorem apart_of_labels {is rest : List Instruction} {n : Nat}
    (his : ∀ i ∈ is, ∀ l, i.Names l → l < n) (hrest : ∀ i ∈ rest, ∀ l, i.Names l → n ≤ l) :
    Apart is rest := by
  intro i hi l hl hmem
  obtain ⟨j, hj, hb⟩ := List.mem_filterMap.mp hmem
  have hbelow := his i hi l (Or.inr hl)
  have habove := hrest j hj l (Or.inl hb)
  omega

/-- A safe call leaves null when its receiver does. -/
theorem call_passes_null {receiver : Emit Ty} {method : Method} {args : List (Emit Unit)}
    (hr : OwnLabels receiver) (ht : method.takesReceiver = true)
    (hargs : ∀ arg ∈ args, OwnLabels arg)
    (h : Returns (call s receiver method args true) d ty d')
    (hown : (receiver d).2.code = d.code ++ own) (hcode : d'.code = d.code ++ code)
    (hnull : m.Leaves own locals .null) : m.Leaves code locals .null := by
  obtain ⟨self, first, last, hself, hbody, hd⟩ := call_inv_guarded ht hargs h
  obtain ⟨-, is, his, hisNames⟩ := hr _ _ _ hself
  obtain ⟨-, rest, hrest, hrestNames⟩ := labelled_orNull hbody hd
  obtain ⟨hlater, body, hbodyCode, -⟩ := hbody
  have hlater : first.nextLabel + 1 ≤ last.nextLabel := hlater
  have hfirst : first.code = d.code ++ own := by
    rw [← hown, show receiver d = (.ok self, first) from hself]
  obtain rfl : own = is := List.append_cancel_left (hfirst.symm.trans his)
  have hguard : d'.code = first.code ++ .dup :: .jumpIfNull first.nextLabel :: (body ++
      [.jump last.nextLabel, .label first.nextLabel, .pop, .pushNull, .label last.nextLabel]) := by
    rw [hd]
    show last.code ++ _ = _
    rw [hbodyCode]
    simp only [List.append_assoc, List.cons_append, List.nil_append]
  obtain rfl := List.append_cancel_left (hrest.symm.trans hguard)
  obtain rfl : code = own ++ _ := by
    rw [hguard, hfirst, List.append_assoc] at hcode
    exact List.append_cancel_left hcode.symm
  obtain ⟨heap, slots, below, hreaches⟩ := hnull
  have hapart := apart_of_labels (fun i hi l hl => (hisNames i hi l hl).2)
    fun i hi l hl => (hrestNames i hi l hl).1
  exact ⟨heap, slots, below, (hreaches.append hapart).trans (reaches_orNull (by omega))⟩

private theorem bound_passes_null {binding : Binding} {site : Site} {member : String}
    {receiver : Emit Ty} {collected : Ty → Emit Ty} (hg : binding.guardsNull = true)
    (hsafe : site.safe = true) (hr : OwnLabels receiver)
    (h : Returns (bound s binding site member receiver collected) d ty d')
    (hown : (receiver d).2.code = d.code ++ own) (hcode : d'.code = d.code ++ code)
    (hnull : m.Leaves own locals .null) : m.Leaves code locals .null := by
  have hcall : ∀ {method : Method} {args}, Returns (call s receiver method args site.safe) d ty d' →
      method.takesReceiver = true → (∀ arg ∈ args, OwnLabels arg) → m.Leaves code locals .null := by
    intro method args h ht hargs
    rw [hsafe] at h
    exact call_passes_null hr ht hargs h hown hcode hnull
  have hnone : ∀ arg ∈ ([] : List (Emit Unit)), OwnLabels arg := List.forall_mem_nil _
  cases binding with
  | collectionSize => exact hcall h rfl hnone
  | getter method => exact hcall h hg hnone
  | interfaceGetter method => exact hcall h hg hnone
  | extension method => exact hcall h hg hnone
  | dynamic property =>
    exact hcall h rfl (List.forall_mem_singleton.mpr (labelled_pushString property))
  | _ => cases hg

/-! ## Accesses that look into null -/

/-- A cast is one instruction or none. -/
theorem castTo_casts {target : Ty} {u : Unit} (h : Returns (castTo s target) d u d') :
    ∃ casts stack, CastsTo (s.table.internalTypeName target) casts ∧
      d' = { d with code := d.code ++ casts, stack } := by
  rcases castTo_inv h with rfl | rfl
  · exact ⟨[], _, List.forall_mem_nil _, by rw [List.append_nil]⟩
  · exact ⟨[_], _, List.forall_mem_singleton.mpr rfl, rfl⟩

/-- An operand that is no primitive is converted to a class by a cast, if at all. -/
theorem coerce_casts {c : ClassId} {u : Unit} (hp : ∀ p, d.stack.head? ≠ some (.prim p))
    (h : Returns (coerce s (.ofClass c)) d u d') :
    ∃ casts stack, CastsTo (s.table.internalName c) casts ∧
      d' = { d with code := d.code ++ casts, stack } := by
  have hnothing : Returns (pure () : Emit Unit) d u d' → ∃ casts stack,
      CastsTo (s.table.internalName c) casts ∧ d' = { d with code := d.code ++ casts, stack } := by
    intro h
    rw [← (returns_pure.mp h).2]
    exact ⟨[], _, List.forall_mem_nil _, by rw [List.append_nil]⟩
  unfold coerce at h
  simp only [returns_bind, returns_top?, and_assoc, exists_and_left, exists_eq_left] at h
  cases hs : d.stack.head? with
  | none =>
    rw [hs] at h
    exact hnothing h
  | some top =>
    rw [hs] at h
    cases top with
    | prim p => exact absurd hs (hp p)
    | void => exact hnothing h
    | _ => exact castTo_casts h

/-- Plain code behind null that fails makes the access fail. -/
private theorem ends_of_straight {js : List Instruction} {e : MachineError}
    (hplain : ∀ i ∈ js, i.isPlain = true)
    (hfails : ∀ heap slots below,
      m.straight js heap ⟨slots, .null :: below, own.length⟩ = .error e)
    (hnull : m.Leaves own locals .null) :
    m.Ends (own ++ js) locals fun _ result => result = .error e := by
  have hrest : Apart own (js ++ []) := by
    rw [List.append_nil]
    exact apart_of_plain hplain
  have hends := hnull.ends_error hrest hplain hfails
  rw [List.append_nil] at hends
  exact hends

theorem arrayLength_fails_null (hnull : m.Leaves own locals .null) :
    m.Ends (own ++ [.arrayLength]) locals fun _ result =>
      result = .error (.nullPointer "arraylength") :=
  ends_of_straight (by simp [Instruction.isPlain]) (fun _ _ _ => rfl) hnull

theorem readField_fails_null {receiver : Emit Ty} {field : Field} (hs : field.isStatic = false)
    (h : Returns (readField s receiver field) d ty d')
    (hown : (receiver d).2.code = d.code ++ own) (hcode : d'.code = d.code ++ code)
    (hnull : m.Leaves own locals .null) :
    m.Ends code locals fun _ result => result = .error (.nullPointer
      ("getfield " ++ s.table.internalName field.owner ++ "." ++ field.name)) := by
  obtain ⟨self, d₁, d₂, hself, hcast, -, rfl⟩ := (returns_readField_instance hs).mp h
  obtain ⟨casts, stack, hcasts, rfl⟩ := castTo_casts hcast
  rw [show receiver d = (.ok self, d₁) from hself] at hown
  obtain rfl : code = own ++ (casts ++ [.getField (fieldRef s field)]) := by
    have hwritten : (d₁.code ++ casts) ++ [.getField (fieldRef s field)] = d.code ++ code := hcode
    rw [hown] at hwritten
    simp only [List.append_assoc] at hwritten
    exact (List.append_cancel_left hwritten).symm
  refine ends_of_straight (List.forall_mem_append.mpr ⟨hcasts.plain, ?_⟩)
    (fun heap slots below => ?_) hnull
  · exact List.forall_mem_singleton.mpr rfl
  · rw [Machine.straight_casts_null hcasts]
    rfl

/-- The call that looks an entry up in a map. -/
private theorem invocation_mapGet (hb : s.table.Built) :
    ∃ dispatch, (dispatch = .dynamic ∨ dispatch = .interface) ∧
      invocation s mapGetMethod = .invoke dispatch
        ⟨"java/util/Map", "get", "(Ljava/lang/Object;)Ljava/lang/Object;"⟩ := by
  have howner : s.table.internalName .map = "java/util/Map" := by
    rw [hb.internalName_eq (by decide)]
    decide
  have hdescriptor : s.table.methodDescriptor [.ofClass .object] (.ofClass .object) =
      "(Ljava/lang/Object;)Ljava/lang/Object;" := by
    unfold ClassTable.methodDescriptor ClassTable.methodDescriptorChars
    simp only [ClassTable.descriptorChars, Ty.ofClass, hb.internalName_object, List.flatMap_cons,
      List.flatMap_nil]
    decide
  refine ⟨if (s.table.info .map).isInterface then .interface else .dynamic, ?_, ?_⟩
  · split
    · exact Or.inr rfl
    · exact Or.inl rfl
  · rw [← howner, ← hdescriptor]
    rfl

theorem mapEntry_fails_null {options : Options} {receiver : Emit Ty} {member : String}
    (hb : s.table.Built) (hm : m.functions = Helper.standard options)
    (h : Returns (call s receiver mapGetMethod [pushString member] false) d ty d')
    (hp : ∀ p, (receiver d).2.stack.head? ≠ some (.prim p))
    (hown : (receiver d).2.code = d.code ++ own) (hcode : d'.code = d.code ++ code)
    (hnull : m.Leaves own locals .null) :
    m.Ends code locals fun _ result => result = .error (.nullPointer "java/util/Map.get") := by
  obtain ⟨self, d₁, d₂, d₃, hself, hcast, hargs, rfl, -⟩ := (returns_call_plain rfl).mp h
  rw [show receiver d = (.ok self, d₁) from hself] at hown hp
  obtain ⟨casts, stack, hcasts, rfl⟩ := coerce_casts hp hcast
  have hparams : argumentTypes mapGetMethod = [.ofClass .object] := rfl
  rw [hparams] at hargs
  simp only [arguments, pushString, returns_bind, returns_emit, returns_push, returns_pure,
    exists_eq_left, exists_const] at hargs
  obtain ⟨u, d₄, hkey, -, rfl⟩ := hargs
  obtain ⟨casts', stack', hcasts', rfl⟩ := coerce_casts (by rintro p ⟨⟩) hkey
  obtain ⟨dispatch, hd, hinvocation⟩ := invocation_mapGet hb
  obtain rfl : code = own ++ (casts ++ .push (.string member) :: (casts' ++
      [.invoke dispatch ⟨"java/util/Map", "get", "(Ljava/lang/Object;)Ljava/lang/Object;"⟩])) := by
    have hwritten : d₁.code ++ casts ++ [.push (.string member)] ++ casts' ++
        [invocation s mapGetMethod] = d.code ++ code := hcode
    rw [show d₁.code = _ from hown, hinvocation] at hwritten
    simp only [List.append_assoc, List.cons_append, List.nil_append] at hwritten
    exact (List.append_cancel_left hwritten).symm
  rw [hb.internalName_object] at hcasts'
  refine ends_of_straight (fun i hi => ?_) (fun heap slots below => ?_) hnull
  · simp only [List.mem_append, List.mem_cons, List.not_mem_nil, or_false] at hi
    rcases hi with hi | rfl | hi | rfl
    · exact hcasts.plain i hi
    · rfl
    · exact hcasts'.plain i hi
    · rfl
  · rw [Machine.straight_casts_null hcasts]
    refine (Machine.straight_casts hcasts' rfl).trans ?_
    exact Machine.straight_call_null hm [.string member] hd (by decide)
      (show Descriptor.argCount "(Ljava/lang/Object;)Ljava/lang/Object;" = 1 by decide)

theorem collect_fails_null {options : Options} {site : Site} {member : String} {component : Ty}
    {receiver : Emit Ty} {access : Site → Emit Ty} (hm : m.functions = Helper.standard options)
    (hr : OwnLabels receiver)
    (ha : ∀ slot, OwnLabels (access (elementSite site member component slot)))
    (h : Returns (collect s site member component receiver access) d ty d')
    (hown : (receiver (Binding.receiverDraft d (.eachElement component))).2.code = d.code ++ own)
    (hcode : d'.code = d.code ++ code) (hnull : m.Leaves own locals .null) :
    m.Ends code locals fun _ result => result = .error (.nullPointer "java/util/List.size") := by
  obtain ⟨listType, first, rest, hlist, hrest, -, hnames⟩ := collect_inv_names ha h
  obtain ⟨-, is, his, hisNames⟩ := hr _ _ _ hlist
  have hfirst : receiver (Binding.receiverDraft d (.eachElement component)) = (.ok listType, first) :=
    hlist
  rw [hfirst] at hown
  obtain rfl : own = is := List.append_cancel_left (hown.symm.trans his)
  obtain rfl : code = own ++ (d.temporaries.loopSlots.start ++ rest) := by
    rw [hrest, show first.code = _ from hown, List.append_assoc] at hcode
    exact (List.append_cancel_left hcode).symm
  have hapart : Apart own (d.temporaries.loopSlots.start ++ rest) := by
    intro i hi l hl hmem
    obtain ⟨j, hj, hb⟩ := List.mem_filterMap.mp hmem
    have htaken : d.nextLabel + 2 ≤ l ∧ l < first.nextLabel := hisNames i hi l (Or.inr hl)
    have hloop := hnames j hj l (Or.inl hb)
    omega
  exact hnull.ends_error hapart (by simp [LoopSlots.start, Instruction.isPlain])
    fun _ _ _ => Machine.straight_start_null hm _

private theorem bound_fails_null {options : Options} {binding : Binding} {site : Site}
    {member context : String} {receiver : Emit Ty} (hb : s.table.Built)
    (hm : m.functions = Helper.standard options) (hc : binding.nullContext? s.table = some context)
    (hr : OwnLabels receiver)
    (h : Returns (bound s binding site member receiver (collectProperty s site member receiver))
      d ty d')
    (hp : ∀ p, (receiver d).2.stack.head? ≠ some (.prim p))
    (hown : (receiver (binding.receiverDraft d)).2.code = d.code ++ own)
    (hcode : d'.code = d.code ++ code) (hnull : m.Leaves own locals .null) :
    m.Ends code locals fun _ result => result = .error (.nullPointer context) := by
  cases binding with
  | arrayLength =>
    cases hc
    obtain ⟨self, first, hself, -, rfl⟩ := bound_inv_arrayLength h
    have hfirst : first.code = d.code ++ own := by
      rw [← hown, show receiver (Binding.receiverDraft d .arrayLength) = _ from hself]
    obtain rfl : code = own ++ [.arrayLength] := by
      have hwritten : first.code ++ [.arrayLength] = d.code ++ code := hcode
      rw [hfirst, List.append_assoc] at hwritten
      exact (List.append_cancel_left hwritten).symm
    exact arrayLength_fails_null hnull
  | field field =>
    cases hs : field.isStatic with
    | true =>
      rw [Binding.nullContext?, hs] at hc
      cases hc
    | false =>
      rw [Binding.nullContext?, hs] at hc
      cases hc
      exact readField_fails_null hs h hown hcode hnull
  | mapEntry =>
    cases hc
    exact mapEntry_fails_null hb hm h hp hown hcode hnull
  | eachElement component =>
    cases hc
    exact collect_fails_null hm hr (fun _ => labelled_elementAccess _ _) h hown hcode hnull
  | _ => cases hc

/-! ## Sites -/

private theorem call_evaluates {receiver : Emit Ty} {method : Method} {args : List (Emit Unit)}
    {safe : Bool} (ht : method.takesReceiver = true)
    (h : Returns (call s receiver method args safe) d ty d') :
    ∃ self first, Returns receiver d self first := by
  cases safe with
  | false =>
    obtain ⟨self, first, -, -, hself, -⟩ := (returns_call_plain ht).mp h
    exact ⟨self, first, hself⟩
  | true =>
    obtain ⟨self, first, -, -, -, hself, -⟩ := call_inv_safe ht h
    exact ⟨self, first, hself⟩

/-- The receiver is written first, if it is evaluated. -/
theorem bound_evaluates {binding : Binding} {site : Site} {member : String} {receiver : Emit Ty}
    (he : binding.evaluates = true)
    (h : Returns (bound s binding site member receiver (collectProperty s site member receiver))
      d ty d') :
    ∃ self first, Returns receiver (binding.receiverDraft d) self first := by
  cases binding with
  | arrayLength =>
    obtain ⟨_, first, hself, -⟩ := returns_bind.mp h
    obtain ⟨self, hself⟩ := returns_discard.mp hself
    exact ⟨self, first, hself⟩
  | collectionSize => exact call_evaluates rfl h
  | getter method => exact call_evaluates he h
  | interfaceGetter method => exact call_evaluates he h
  | extension method => exact call_evaluates he h
  | mapEntry => exact call_evaluates rfl h
  | dynamic property => exact call_evaluates rfl h
  | field field =>
    have hs : field.isStatic = false := by simpa [Binding.evaluates] using he
    obtain ⟨self, first, -, hself, -⟩ := (returns_readField_instance hs).mp h
    exact ⟨self, first, hself⟩
  | bridge accessor fieldStatic =>
    cases ht : accessor.takesReceiver with
    | true => exact call_evaluates ht h
    | false =>
      have hs : fieldStatic = false := by simpa [Binding.evaluates, ht] using he
      subst hs
      obtain ⟨mid, hargs, -⟩ := (returns_call_static ht).mp h
      obtain ⟨first, -, hself, -⟩ := arguments_cons_inv hargs
      obtain ⟨self, hself⟩ := returns_discard.mp hself
      exact ⟨self, first, hself⟩
  | eachElement component =>
    obtain ⟨self, first, -, hself, -⟩ :=
      collect_inv_names (fun _ => labelled_elementAccess _ _) h
    exact ⟨self, first, hself⟩
  | enumConstant owner => cases he
  | unresolved => cases he

/-- Of a safe site whose receiver is null, calls that are told so give null. The other accesses that
look into the receiver fail. -/
theorem safe_site_null {site : Site} {binding : Binding} {write : Emit Ty}
    (hw : Written s site binding write) (hsafe : site.safe = true)
    (he : binding.evaluates = true) (h : (write d).1 = .ok ty) :
    ∃ own code, (expr s site.receiver (binding.receiverDraft d)).2.code = d.code ++ own ∧
      (write d).2.code = d.code ++ code ∧
      ∀ (m : Machine) (locals : List Value), m.Leaves own locals .null →
        (binding.guardsNull = true → m.Ends code locals fun _ result => result = .ok .null) ∧
        ∀ (options : Options) (context : String), s.table.Built →
          m.functions = Helper.standard options →
          (∀ p, (expr s site.receiver d).2.stack.head? ≠ some (.prim p)) →
          binding.nullContext? s.table = some context →
          m.Ends code locals fun _ result => result = .error (.nullPointer context) := by
  have hr : OwnLabels (expr s site.receiver) := labelled_expr s site.receiver
  have hreturns : Returns write d ty (write d).2 := Prod.ext h rfl
  obtain ⟨member, hbound⟩ := hw.bound he hreturns
  obtain ⟨self, first, hself⟩ := bound_evaluates he hbound
  obtain ⟨-, own, hown, -⟩ := hr _ _ _ hself
  obtain ⟨-, code, hcode, -⟩ := labelled_bound hr (fun component _ =>
    labelled_collect hr fun _ => labelled_elementAccess _ _) _ _ _ hbound
  have hbefore : (binding.receiverDraft d).code = d.code := by cases binding <;> rfl
  have hfirst : (expr s site.receiver (binding.receiverDraft d)).2 = first := congrArg Prod.snd hself
  rw [← hfirst, hbefore] at hown
  refine ⟨own, code, hown, hcode, fun m locals hnull => ⟨fun hg => ?_, ?_⟩⟩
  · have hdraft : binding.receiverDraft d = d := by
      cases binding with
      | eachElement component => cases hg
      | _ => rfl
    rw [hdraft] at hown
    exact (bound_passes_null hg hsafe hr hbound hown hcode hnull).ends
  · intro options context hb hm hp hc
    exact bound_fails_null hb hm hc hr hbound hp hown hcode hnull

private theorem leaves_load (m : Machine) (value : Value) :
    m.Leaves [.load .reference 1] [.null, value] value :=
  ⟨_, _, [], .step .refl rfl rfl⟩

/-- `map?.name`, of a map in slot 1. -/
def mapName : Site :=
  { member := "name", safe := true, span := .none, receiver := .localVar 1 { type := .ofClass .map } }

/-- The entry of a map is looked for in null. -/
theorem safe_site_fails_mapName :
    mapName.safe = true ∧ (objectSetting.binding mapName).evaluates = true ∧
      (propertySite objectSetting mapName (.empty 2)).1 = .ok (.ofClass .object) ∧
      ∃ own code, (expr objectSetting mapName.receiver (.empty 2)).2.code = own ∧
        (propertySite objectSetting mapName (.empty 2)).2.code = code ∧
        ∃ (m : Machine) (locals : List Value), m.Leaves own locals .null ∧
          (m.run code locals).2 = .error (.nullPointer "java/util/Map.get") :=
  ⟨rfl, rfl, rfl, _, _, rfl, rfl, .new .standard .standard, [.null, .null], leaves_load _ .null, rfl⟩

/-- `text?.empty`, of a string in slot 1. -/
def textEmpty : Site :=
  { member := "empty", safe := true, span := .none
    receiver := .localVar 1 { type := .ofClass .string } }

theorem safe_site_null_textEmpty :
    (textEmpty.safe = true ∧ (objectSetting.binding textEmpty).evaluates = true ∧
        (propertySite objectSetting textEmpty (.empty 2)).1 =
          .ok (.ofClass (Primitive.wrapper .boolean))) ∧
      ∃ code, (propertySite objectSetting textEmpty (.empty 2)).2.code = code ∧
        (Machine.new .standard .standard).Ends code [.null, .null] fun _ result =>
          result = .ok .null := by
  obtain ⟨own, code, hown, hcode, hruns⟩ := safe_site_null
    (.property : Written objectSetting textEmpty _ _) rfl rfl
    (show (propertySite objectSetting textEmpty (.empty 2)).1 =
      .ok (.ofClass (Primitive.wrapper .boolean)) from rfl)
  obtain rfl : [.load .reference 1] = own := hown
  obtain ⟨hends, -⟩ := hruns (.new .standard .standard) [.null, .null] (leaves_load _ .null)
  exact ⟨⟨rfl, rfl, rfl⟩, code, hcode, hends rfl⟩

end Emit

end CallSite
