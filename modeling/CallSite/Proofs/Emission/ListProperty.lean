import CallSite.Proofs.Emission.Fragment
import CallSite.Proofs.Emission.Member
import CallSite.Proofs.Machine.Collecting

/-!
# Properties of list elements

`list.p` on a list that a local variable holds, where `p` is a getter or field of the elements. Its
code gives a new list of what the access to `p` by itself gives for every element, and fails like
that access for the first element for which it fails.
-/

namespace CallSite

namespace Emit

variable {s : Setting} {d d' : Draft} {ty : Ty}

/-- The code that reads a member of the element in a slot and boxes it. -/
def elementCode (s : Setting) (component : Ty) (reading : Reading) (slot : UInt16) :
    List Instruction :=
  .load .reference slot :: (reading.code s component ++ boxCode s reading.type)

section Written

variable {site : Site} {slot : UInt16} {note : Note} {c : ClassId} {args : List Ty}
  {reading : Reading}

/-- The access to one element is straight code. -/
private theorem element_code {component : Ty} {next : UInt16} (depth : Nat)
    (hcomponent : component = .object c args)
    (hmember : s.reading? (s.binding (elementSite site site.member component 0)) = some reading)
    (h : Returns (elementAccess s (depth + 1) (elementSite site site.member component next)) d ty d') :
    (s.binding (elementSite site site.member component 0)).Valued ∧ ty = reading.type ∧
      d' = { d with
        code := d.code ++ .load .reference next :: reading.code s component
        stack := ty :: d.stack } := by
  subst hcomponent
  exact (returns_access_member rfl hmember rfl).mp h

/-- The code of `list.p` is the loop over the list. -/
private theorem site_code (hreceiver : site.receiver = .localVar slot note)
    (hlist : s.binding site = .eachElement (.object c args))
    (hmember : s.reading? (s.binding (elementSite site site.member (.object c args) 0)) = some reading)
    (h : Returns (propertySite s site) d ty d') :
    (s.binding (elementSite site site.member (.object c args) 0)).Valued ∧
      ∃ kind, d'.code = d.code ++ Machine.listCode kind slot d.temporaries.loopSlots d.nextLabel
        (d.nextLabel + 1) (s.table.internalTypeName (.object c args))
        (elementCode s (.object c args) reading d.temporaries.loopSlots.next) := by
  obtain ⟨diagnostics, hbound, -⟩ := access_inv h
  rw [hlist] at hbound
  obtain ⟨listType, item, d₁, d₂, d₃, hr, ha, hbox, -, hrelease, -⟩ := collect_inv hbound
  rw [hreceiver] at hr
  have hload : d₁.code = d.code ++ [.load (.ofType listType) slot] :=
    congrArg Draft.code (returns_loadLocal.mp hr).2
  obtain ⟨hvalued, hitem, hread⟩ := element_code _ rfl hmember ha
  have hreadCode := congrArg Draft.code hread
  have hboxed := congrArg Draft.code ((returns_boxTop (congrArg Draft.stack hread)).mp hbox)
  obtain ⟨ts, hreleased⟩ := forM_release_inv hrelease
  have hlast := congrArg Draft.code hreleased
  refine ⟨hvalued, .ofType listType, hlast.trans ?_⟩
  show d₃.code ++ _ = _
  rw [hboxed, hreadCode, hitem]
  show d₁.code ++ _ ++ _ ++ _ ++ _ = _
  rw [hload]
  simp only [Machine.listCode, Machine.loopCode, Machine.turnCode, elementCode, List.append_assoc,
    List.cons_append, List.nil_append]

/-- The access to an element by itself is written whenever it has a value. -/
private theorem returns_elementSite
    (hmember : s.reading? (s.binding (elementSite site site.member (.object c args) 0)) = some reading)
    (hvalued : (s.binding (elementSite site site.member (.object c args) 0)).Valued) (d : Draft) :
    Returns (propertySite s (elementSite site site.member (.object c args) 0)) d reading.type { d with
      code := d.code ++ .load .reference 0 :: reading.code s (.object c args)
      stack := reading.type :: d.stack } :=
  (returns_access_member rfl hmember rfl).mpr ⟨hvalued, rfl, rfl⟩

end Written

/-! ## Running -/

section Run

variable {m : Machine} {options : Options} {component : Ty} {reading : Reading} {site : Site}

private theorem readingCode_plain (hmember : s.reading? (s.binding site) = some reading) :
    ∀ i ∈ reading.code s component, i.isPlain = true := by
  intro i hi
  rcases List.mem_append.mp hi with hi | hi
  · unfold castCode at hi
    split at hi
    · cases hi
    · rw [List.mem_singleton.mp hi]
      rfl
  · rw [List.mem_singleton.mp hi]
    rcases Setting.reading?_cases hmember with ⟨method, -, -, rfl⟩ | ⟨field, -, -, rfl⟩ <;> rfl

private theorem elementCode_plain (hmember : s.reading? (s.binding site) = some reading)
    (slot : UInt16) : ∀ i ∈ elementCode s component reading slot, i.isPlain = true := by
  intro i hi
  rcases List.mem_cons.mp hi with rfl | hi
  · rfl
  · rcases List.mem_append.mp hi with hi | hi
    · exact readingCode_plain hmember i hi
    · unfold boxCode at hi
      split at hi
      · rw [List.mem_singleton.mp hi]
        rfl
      · cases hi

/-- Run by itself with the item in slot 0, the access ends with what it reads. -/
private theorem alone_ends (hmember : s.reading? (s.binding site) = some reading) {item : Value}
    {r : Except MachineError Value} (hr : m.Reads m.heap item (reading.code s component) r) :
    m.Ends (.load .reference 0 :: reading.code s component) [item] fun _ result => result = r := by
  refine hr.gives.ends (fun i hi => ?_) rfl
  rcases List.mem_cons.mp hi with rfl | hi
  · rfl
  · exact readingCode_plain hmember i hi

/-- By itself, the access to a getter or field of an instance finds a field of it, or its class. -/
theorem elementSite_shows {c : ClassId} {args : List Ty} {itemTy : Ty}
    (hmember : (s.reading? (s.binding (elementSite site site.member (.object c args) 0))).isSome)
    (h : (propertySite s (elementSite site site.member (.object c args) 0) (.empty 1)).1 = .ok itemTy)
    (hm : m.functions = Helper.standard options) (hc : m.heap.Closed) {place : Nat} {cls : String}
    {fields : List (String × Value)} (ho : m.heap[place]? = some (.instance cls fields))
    {value : Value}
    (hends : m.Ends (propertySite s (elementSite site site.member (.object c args) 0)
      (.empty 1)).2.code [.ref place] fun _ result => result = .ok value) :
    Machine.Shows (.instance cls fields) value := by
  obtain ⟨reading, hreading⟩ := Option.isSome_iff_exists.mp hmember
  obtain ⟨hvalued, -, -⟩ := (returns_access_member rfl hreading rfl).mp (Prod.ext h rfl)
  have halone : propertySite s (elementSite site site.member (.object c args) 0) (.empty 1) = _ :=
    returns_elementSite hreading hvalued (.empty 1)
  obtain ⟨r, hr⟩ := reading_reads hm hreading hvalued hc (Value.ref_in ho) (.object c args)
  rw [halone] at hends
  obtain ⟨heap, result, rfl, rfl⟩ := (alone_ends hreading hr).both hends
  exact reading_shows hm hreading hvalued hc ho hr

/-- What the boxed member is, if the access finds a value of its type or fails. -/
private theorem boxed_reads (hb : s.table.Built) (hm : m.functions = Helper.standard options)
    {heap : Heap} {item : Value} {r : Except MachineError Value}
    (hr : m.Reads heap item (reading.code s component) r)
    (hfits : ∀ value, r = .ok value → reading.type.Admits value) :
    m.Reads heap item (reading.code s component ++ boxCode s reading.type)
      (r.map reading.type.boxed) := by
  have hmap : r.map reading.type.boxed = r >>= fun value => .ok (reading.type.boxed value) := by
    cases r <;> rfl
  rw [hmap]
  exact hr.append fun value hvalue => boxCode_reads hb hm (hfits value hvalue)

/-- Every element has its outcome. -/
private theorem exists_results {Finds : Value → Except MachineError Value → Prop}
    {items : List Value} (h : ∀ item ∈ items, ∃ r, Finds item r) :
    ∃ results, List.Forall₂ Finds items results := by
  induction items with
  | nil => exact ⟨[], .nil⟩
  | cons item items ih =>
    obtain ⟨r, hr⟩ := h item List.mem_cons_self
    obtain ⟨results, hresults⟩ := ih fun i hi => h i (List.mem_cons_of_mem item hi)
    exact ⟨r :: results, .cons hr hresults⟩

/-- The first outcome that is no value belongs to an element, and the values to those before it. -/
private theorem split_at_error {Finds : Value → Except MachineError Value → Prop}
    {items values : List Value} {e : MachineError} {rest : List (Except MachineError Value)}
    (h : List.Forall₂ Finds items (values.map .ok ++ .error e :: rest)) :
    ∃ before item after, items = before ++ item :: after ∧
      List.Forall₂ (fun i value => Finds i (.ok value)) before values ∧ Finds item (.error e) := by
  induction values generalizing items with
  | nil =>
    obtain ⟨item, after, hitem, -, rfl⟩ := List.forall₂_cons_right_iff.mp h
    exact ⟨[], item, after, rfl, .nil, hitem⟩
  | cons value values ih =>
    obtain ⟨first, others, hfirst, hothers, rfl⟩ := List.forall₂_cons_right_iff.mp h
    obtain ⟨before, item, after, rfl, hbefore, hitem⟩ := ih hothers
    exact ⟨first :: before, item, after, rfl, .cons hfirst hbefore, hitem⟩

/-- Values that are found in elements are kept boxed. -/
private theorem boxed_gives (hb : s.table.Built) (hm : m.functions = Helper.standard options)
    {heap : Heap} {items values : List Value} (slot : UInt16)
    (h : List.Forall₂ (fun item value => m.Reads heap item (reading.code s component) (.ok value))
      items values) (hfits : ∀ value ∈ values, reading.type.Admits value) :
    List.Forall₂ (fun item value =>
        m.Gives heap slot (elementCode s component reading slot) item (.ok value))
      items (values.map reading.type.boxed) := by
  induction h with
  | nil => exact .nil
  | @cons item value items values hitem _ ih =>
    refine .cons (Machine.Reads.gives (boxed_reads hb hm hitem fun v hv => ?_))
      (ih fun v hv => hfits v (List.mem_cons_of_mem value hv))
    rw [← Except.ok.inj hv]
    exact hfits value List.mem_cons_self

end Run

/-- On a list that a local variable holds, `list.p` collects `p`, a getter or field of the elements.
With steps enough, on a list whose elements are null or of the element class, the run ends with a
new list: what the access to `p` by itself finds in the elements, boxed if its type is primitive. If
that access fails for an element, the run fails as it does for the first such element. What the
access finds, for an instance a field of it (`elementSite_shows`), has to be of its type. -/
theorem propertySite_collects (s : Setting) (site : Site) (slot : UInt16) (note : Note)
    (c : ClassId) (args : List Ty) (d : Draft) (ty : Ty) (hb : s.table.Built)
    (hreceiver : site.receiver = .localVar slot note)
    (hlist : s.binding site = .eachElement (.object c args))
    (hmember : (s.reading? (s.binding (elementSite site site.member (.object c args) 0))).isSome)
    (h : (propertySite s site d).1 = .ok ty) (hroom : d.temporaries.top + 3 ≤ 65536) :
    let alone := propertySite s (elementSite site site.member (.object c args) 0) (.empty 1)
    ∃ code itemTy, (propertySite s site d).2.code = d.code ++ code ∧ alone.1 = .ok itemTy ∧
      ∀ (m : Machine) (options : Options) (locals : List Value) (place : Nat) (items : List Value),
        m.functions = Helper.standard options → m.heap.Closed →
        (Locals.ofValues locals).get? slot = some (.ref place) →
        m.heap[place]? = some (.list items) →
        (∀ item ∈ items,
          m.heap.instanceOf m.table item (s.table.internalTypeName (.object c args)) = true) →
        ∃ results : List (Except MachineError Value),
          List.Forall₂ (fun item r => m.Ends alone.2.code [item] fun _ result => result = r)
            items results ∧
          ((∀ value, .ok value ∈ results → itemTy.Admits value) →
            (∀ values : List Value, results = values.map .ok →
              m.Ends code locals fun heap result => ∃ p, m.heap.size ≤ p ∧ result = .ok (.ref p) ∧
                heap[p]? = some (.list (values.map itemTy.boxed))) ∧
            ∀ (values : List Value) e rest, results = values.map .ok ++ .error e :: rest →
              m.Ends code locals fun _ result => result = .error e) := by
  intro alone
  obtain ⟨reading, hreading⟩ := Option.isSome_iff_exists.mp hmember
  have hreturns : Returns (propertySite s site) d ty (propertySite s site d).2 := Prod.ext h rfl
  obtain ⟨hvalued, kind, hcode⟩ := site_code hreceiver hlist hreading hreturns
  have halone : alone = (.ok reading.type, _) := returns_elementSite hreading hvalued (.empty 1)
  refine ⟨_, reading.type, hcode, by rw [halone], ?_⟩
  intro m options locals place items hm hc hslot hitems hfits
  have hslots : d.temporaries.loopSlots.From d.temporaries.top := by
    obtain ⟨hresult, hiterator, hnext⟩ :=
      Temporaries.loopSlots_eq (show _ + Temporaries.loopWidth (.object c args) ≤ 65536 from hroom)
    exact ⟨by omega, by omega, by omega⟩
  have hin : ∀ item ∈ items, item.In m.heap := hc place _ hitems
  obtain ⟨results, hresults⟩ := exists_results fun item hitem =>
    reading_reads hm hreading hvalued hc (hin item hitem) (.object c args)
  have hall : ∀ item ∈ items, item.In m.heap ∧
      m.heap.instanceOf m.table item (s.table.internalTypeName (.object c args)) = true :=
    fun item hitem => ⟨hin item hitem, hfits item hitem⟩
  have hplain : ∀ i ∈ elementCode s (.object c args) reading d.temporaries.loopSlots.next,
      i.isPlain = true := elementCode_plain hreading _
  have hne : d.nextLabel ≠ d.nextLabel + 1 := (Nat.succ_ne_self _).symm
  refine ⟨results, ?_, fun hadmits => ⟨?_, ?_⟩⟩
  · rw [halone]
    exact hresults.imp fun item r hr => alone_ends hreading hr
  · rintro values rfl
    have hvalues := List.forall₂_map_right_iff.mp hresults
    have hgives := boxed_gives hb hm d.temporaries.loopSlots.next hvalues
      fun value hvalue => hadmits value (List.mem_map_of_mem hvalue)
    exact Machine.ends_collected hm hslots hplain hne hslot hitems hall hgives
  · rintro values e rest rfl
    obtain ⟨before, item, after, rfl, hbefore, hitem⟩ := split_at_error hresults
    have hgives := boxed_gives hb hm d.temporaries.loopSlots.next hbefore
      fun value hvalue => hadmits value (List.mem_append_left _ (List.mem_map_of_mem hvalue))
    have hfails : m.Reads m.heap item _ (.error e) := boxed_reads hb hm hitem nofun
    exact Machine.ends_failed hm hslots hplain hne hslot hitems hall hgives hfails.gives

/-- `strings.empty`, on a list of strings in slot 1. -/
def stringsSite : Site where
  member := "empty"
  span := .none
  receiver := .localVar 1 { type := .object .list [.ofClass .string] }

/-- The access to `empty` by itself. -/
private def emptyAlone : Except CompileError Ty × Draft :=
  propertySite objectSetting (elementSite stringsSite "empty" (.ofClass .string) 0) (.empty 1)

private theorem emptyAlone_ends (text : String) : stringsMachine.Ends emptyAlone.2.code
    [.string text] fun _ result => result = .ok (.ofBool text.isEmpty) := by
  refine ⟨3, fun limit hlimit => ?_⟩
  obtain ⟨k, rfl⟩ := Nat.exists_eq_add_of_le' hlimit
  rfl

theorem propertySite_collects_stringsSite :
    (objectSetting.table.Built ∧
        objectSetting.binding stringsSite = .eachElement (.ofClass .string) ∧
        (propertySite objectSetting stringsSite (.empty 2)).1 = .ok (.ofClass .arrayList) ∧
        (Draft.empty 2).temporaries.top + 3 ≤ 65536 ∧
        stringsMachine.functions = Helper.standard .standard ∧ stringsMachine.heap.Closed) ∧
      ∃ code, (propertySite objectSetting stringsSite (.empty 2)).2.code = code ∧
        stringsMachine.Ends code [.null, .ref 0] fun heap result =>
          ∃ p, 1 ≤ p ∧ result = .ok (.ref p) ∧
            heap[p]? = some (.list [.boxed (.boolean true), .boxed (.boolean false)]) := by
  have hclosed : stringsMachine.heap.Closed := by
    intro p object ho value hvalue place hplace
    subst hplace
    cases p with
    | zero =>
      cases ho
      change Value.ref place ∈ [Value.string "", Value.string "a"] at hvalue
      simp at hvalue
    | succ p => cases ho
  obtain ⟨code, itemTy, hcode, hitemTy, hruns⟩ := propertySite_collects objectSetting stringsSite 1
    { type := .object .list [.ofClass .string] } .string [] (.empty 2) (.ofClass .arrayList)
    .standard rfl rfl rfl rfl (by decide)
  obtain ⟨results, halone, hends⟩ := hruns stringsMachine .standard [.null, .ref 0] 0
    [.string "", .string "a"] rfl hclosed rfl rfl (by decide)
  have hresult : ∀ text r, (stringsMachine.Ends emptyAlone.2.code [.string text] fun _ result =>
      result = r) → r = .ok (.ofBool text.isEmpty) := by
    intro text r hr
    obtain ⟨heap, result, rfl, hresult⟩ := hr.both (emptyAlone_ends text)
    exact hresult
  have hresults : results = [.ok (.int 1), .ok (.int 0)] := by
    cases halone with
    | cons hfirst hrest =>
      cases hrest with
      | cons hsecond hnil =>
        cases hnil
        rw [hresult _ _ hfirst, hresult _ _ hsecond]
        rfl
  obtain rfl : itemTy = .boolean := Except.ok.inj (hitemTy.symm.trans rfl)
  have hadmits : ∀ value, .ok value ∈ results → Ty.boolean.Admits value := by
    intro value hvalue
    rw [hresults] at hvalue
    simp only [List.mem_cons, Except.ok.injEq, List.not_mem_nil, or_false] at hvalue
    rcases hvalue with rfl | rfl <;> rfl
  obtain ⟨hvalues, -⟩ := hends hadmits
  exact ⟨⟨.standard, rfl, rfl, by decide, rfl, hclosed⟩, code, hcode, hvalues [.int 1, .int 0] hresults⟩

end Emit

end CallSite
