import CallSite.Proofs.Code.Control
import CallSite.Proofs.Code.Shape
import CallSite.Proofs.Machine.Reading

/-!
# Running the loop over a list

What the parts of the loop do to a heap and to slots: the start makes the result and the iterator,
and every turn takes one element and adds one value to the result.
-/

namespace CallSite

namespace Machine

variable {m : Machine} {options : Options} {heap later : Heap} {locals : Locals}

/-! ## Instructions -/

section Instructions

variable {is : List Instruction} {below : List Value} {position : Nat}

theorem straight_newList :
    m.straight (.new "java/util/ArrayList" :: .dup :: is) heap ⟨locals, below, position⟩ =
      m.straight is (heap.push (.list []))
        ⟨locals, .ref heap.size :: .ref heap.size :: below, position + 1 + 1⟩ := rfl

/-- A call on an object of the heap is answered by the object. -/
private theorem callOn_object {place : Nat} {object : HeapObject} {member : MemberRef}
    {args : List Value} {r : Except MachineError (Heap × Value)} (ho : heap[place]? = some object)
    (hclass : member.name ≠ "getClass") (htext : member.name ≠ "toString")
    (hr : callObject heap place object member.name args = some r) :
    callOn heap member (.ref place) args = r := by
  unfold callOn
  simp only [Value.isNull, Bool.false_eq_true, if_false, if_neg hclass, if_neg htext, ho, hr,
    Option.getD_some]

/-- The methods that the loop calls, none of which is a helper. -/
private def called : List String := ["size", "iterator", "hasNext", "next", "add"]

/-- A method of an object, called with the arguments on top of it. -/
private theorem straight_call (hm : m.functions = Helper.standard options) {member : MemberRef}
    {place : Nat} {object : HeapObject} {result : Value} (args : List Value)
    (hname : member.name ∈ called) (hcount : Descriptor.argCount member.descriptor = args.length)
    (hvoid : Descriptor.returnsVoid member.descriptor = false) (ho : heap[place]? = some object)
    (h : callObject heap place object member.name args = some (.ok (later, result))) :
    m.straight (.invoke .interface member :: is) heap
        ⟨locals, args.reverse ++ .ref place :: below, position⟩ =
      m.straight is later ⟨locals, result :: below, position + 1⟩ := by
  have hother : ∀ name ∈ called, name ∉ Helper.names ∧ name ≠ "getClass" ∧ name ≠ "toString" := by
    decide
  obtain ⟨hhelper, hclass, htext⟩ := hother member.name hname
  have hfunction : m.functions.lookup (member.owner, member.name) = none := by
    rw [hm, Helper.lookup_standard options member.owner hhelper]
  rw [straight_invoke hfunction (Or.inr rfl) _ args hcount, callOn_object ho hclass htext h]
  unfold callResults
  rw [hvoid]
  rfl

/-- A constructor with one argument only looks at the object it is called on. -/
private theorem straight_construct {owner : String} {value : Value} {place : Nat}
    {object : HeapObject} (ho : heap[place]? = some object) :
    m.straight (.invoke .special ⟨owner, "<init>", "(I)V"⟩ :: is) heap
        ⟨locals, value :: .ref place :: below, position⟩ =
      m.straight is heap ⟨locals, below, position + 1⟩ := by
  have hinvoke : m.invoke heap .special ⟨owner, "<init>", "(I)V"⟩ [.ref place, value] =
      .ok (heap, none) := by
    unfold invoke construct Heap.deref
    simp only [List.head?_cons, Option.getD_some, ho, and_self, if_true]
    rfl
  have htakes : (Instruction.invoke .special ⟨owner, "<init>", "(I)V"⟩).takes = 2 := by
    have hcount : Descriptor.argCount "(I)V" = 1 := by decide
    show Descriptor.argCount "(I)V" + 1 = 2
    rw [hcount]
  have hvoid : Descriptor.returnsVoid "(I)V" = true := by decide
  show m.straight (_ :: is) heap ⟨locals, [.ref place, value].reverse ++ below, position⟩ = _
  rw [straight, execute_operands m [] heap locals [.ref place, value] htakes, hinvoke]
  simp only [Except.map, callResults, hvoid]
  rfl

end Instructions

/-! ## Parts of the loop -/

/-- After `k` elements: the result and the iterator are new objects at the end of the heap, and
their slots refer to them. -/
structure Collecting (heap : Heap) (slots : LoopSlots) (items results : List Value) (k : Nat)
    (later : Heap) (locals : Locals) : Prop where
  objects : later = (heap.push (.list results)).push (.iterator items k)
  result : locals.get? slots.result = some (.ref heap.size)
  iterator : locals.get? slots.iterator = some (.ref (heap.size + 1))

namespace Collecting

variable {slots : LoopSlots} {items results : List Value} {k first : Nat}

theorem list (h : Collecting heap slots items results k later locals) :
    later[heap.size]? = some (.list results) := by
  have hplace : heap.size < (heap.push (.list results)).size := by
    rw [Array.size_push]
    omega
  rw [h.objects, (Heap.extends_push _ _).objects _ hplace]
  exact Array.getElem?_push_size

theorem steps (h : Collecting heap slots items results k later locals) :
    later[heap.size + 1]? = some (.iterator items k) := by
  rw [h.objects]
  have hsize : (heap.push (.list results)).size = heap.size + 1 := Array.size_push _
  rw [← hsize]
  exact Array.getElem?_push_size

theorem grown (h : Collecting heap slots items results k later locals) : later.Extends heap := by
  rw [h.objects]
  exact (Heap.extends_push _ _).trans (Heap.extends_push _ _)

/-- The start of the loop, on a reference to the list. -/
theorem start (hm : m.functions = Helper.standard options) (hslots : slots.From first) {place : Nat}
    (hlist : heap[place]? = some (.list items)) (locals : Locals) (below : List Value)
    (position : Nat) :
    ∃ later locals', m.straight slots.start heap ⟨locals, .ref place :: below, position⟩ =
        .ok (later, ⟨locals', below, position + slots.start.length⟩) ∧
      Collecting heap slots items [] 0 later locals' := by
  have hne : slots.result ≠ slots.iterator := hslots.result_ne_iterator
  have hplace : place < heap.size := (Array.getElem?_eq_some_iff.mp hlist).1
  have hkept : (heap.push (.list []))[place]? = some (.list items) :=
    ((Heap.extends_push heap _).objects place hplace).trans hlist
  have hkeptSlot : ((locals.store slots.iterator (.ref place)).store slots.result
      (.ref heap.size)).get? slots.iterator = some (.ref place) := by
    rw [Locals.get?_store_ne _ _ hne.symm]
    exact Locals.get?_store_self _ _ _
  refine ⟨(heap.push (.list [])).push (.iterator items 0),
    ((locals.store slots.iterator (.ref place)).store slots.result (.ref heap.size)).store
      slots.iterator (.ref (heap.size + 1)), ?_, rfl, ?_, Locals.get?_store_self _ _ _⟩
  · unfold LoopSlots.start
    rw [straight_store, straight_newList, straight_load (Locals.get?_store_self _ _ _)]
    refine (straight_call hm [] (by decide) (by decide) (by decide) hkept rfl).trans ?_
    refine (straight_construct Array.getElem?_push_size).trans ?_
    rw [straight_store, straight_load hkeptSlot]
    refine (straight_call hm [] (by decide) (by decide) (by decide) hkept rfl).trans ?_
    rw [straight_store, Array.size_push]
    rfl
  · rw [Locals.get?_store_ne _ _ hne]
    exact Locals.get?_store_self _ _ _

/-- The test asks whether there is another element. -/
theorem test (hm : m.functions = Helper.standard options)
    (h : Collecting heap slots items results k later locals) (below : List Value) (position : Nat) :
    m.straight slots.test later ⟨locals, below, position⟩ =
      .ok (later, ⟨locals, .ofBool (k < items.length) :: below, position + slots.test.length⟩) := by
  unfold LoopSlots.test
  rw [straight_load h.iterator]
  exact straight_call hm [] (by decide) (by decide) (by decide) h.steps rfl

/-- The iterator takes a step. -/
private theorem stepped (h : Collecting heap slots items results k later locals) :
    later.setIfInBounds (heap.size + 1) (.iterator items (k + 1)) =
      (heap.push (.list results)).push (.iterator items (k + 1)) := by
  have hsize : (heap.push (.list results)).size = heap.size + 1 := Array.size_push _
  rw [h.objects, Array.setIfInBounds_def, dif_pos (by rw [Array.size_push, hsize]; omega),
    Array.set_push, dif_neg (by omega)]

/-- The result gets another value. -/
private theorem appended (h : Collecting heap slots items results k later locals) (value : Value) :
    later.setIfInBounds heap.size (.list (results ++ [value])) =
      (heap.push (.list (results ++ [value]))).push (.iterator items k) := by
  have hsize : (heap.push (.list results)).size = heap.size + 1 := Array.size_push _
  rw [h.objects, Array.setIfInBounds_def, dif_pos (by rw [Array.size_push, hsize]; omega),
    Array.set_push, dif_pos (by omega), Array.set_push, dif_neg (by omega)]

/-- The next element is taken, and the result put on the stack. -/
theorem advance (hm : m.functions = Helper.standard options) (hslots : slots.From first)
    (h : Collecting heap slots items results k later locals) {item : Value} {target : String}
    (hitem : items[k]? = some item) (hin : item.In heap)
    (hfits : heap.instanceOf m.table item target = true) (below : List Value) (position : Nat) :
    ∃ later' locals', m.straight (slots.advance target) later ⟨locals, below, position⟩ =
        .ok (later', ⟨locals', .ref heap.size :: below, position + (slots.advance target).length⟩) ∧
      Collecting heap slots items results (k + 1) later' locals' ∧
      locals'.get? slots.next = some item := by
  have hnext : Collecting heap slots items results (k + 1)
      (later.setIfInBounds (heap.size + 1) (.iterator items (k + 1)))
      (locals.store slots.next item) := by
    refine ⟨h.stepped, ?_, ?_⟩
    · rw [Locals.get?_store_ne _ _ hslots.result_ne_next]
      exact h.result
    · rw [Locals.get?_store_ne _ _ hslots.iterator_ne_next]
      exact h.iterator
  have hcall : callObject later (heap.size + 1) (.iterator items k) "next" [] =
      some (.ok (later.setIfInBounds (heap.size + 1) (.iterator items (k + 1)), item)) := by
    show callIterator later (heap.size + 1) items k "next" = _
    simp only [callIterator, hitem]
  have hcast := (Heap.instanceOf_extends hnext.grown m.table hin target).trans hfits
  refine ⟨_, _, ?_, hnext, Locals.get?_store_self _ _ _⟩
  unfold LoopSlots.advance
  rw [straight_load h.iterator]
  refine (straight_call hm [] (by decide) (by decide) (by decide) h.steps hcall).trans ?_
  rw [straight_checkCast hcast, straight_store, straight_load hnext.result]
  rfl

/-- A value is added to the result. -/
theorem add (hm : m.functions = Helper.standard options)
    (h : Collecting heap slots items results k later locals) (value : Value) (below : List Value)
    (position : Nat) :
    ∃ later', m.straight LoopSlots.add later ⟨locals, value :: .ref heap.size :: below, position⟩ =
        .ok (later', ⟨locals, below, position + LoopSlots.add.length⟩) ∧
      Collecting heap slots items (results ++ [value]) k later' locals := by
  have hcount : Descriptor.argCount "(Ljava/lang/Object;)Z" = 1 := by decide
  refine ⟨_, ?_, h.appended value, h.result, h.iterator⟩
  exact straight_call hm [value] (by decide) hcount (by decide) h.list rfl

end Collecting

/-! ## Turns -/

/-- In every later heap the instructions put the outcome `r` on the stack while the slot holds
`item`, and change nothing else. -/
def Gives (m : Machine) (heap : Heap) (slot : UInt16) (is : List Instruction) (item : Value)
    (r : Except MachineError Value) : Prop :=
  ∀ later : Heap, later.Extends heap → ∀ locals : Locals, locals.get? slot = some item →
    ∀ (below : List Value) (position : Nat), m.straight is later ⟨locals, below, position⟩ =
      r.map fun value => (later, ⟨locals, value :: below, position + is.length⟩)

theorem Reads.gives {kind : SlotKind} {slot : UInt16} {is : List Instruction} {item : Value}
    {r : Except MachineError Value} (h : m.Reads heap item is r) :
    m.Gives heap slot (.load kind slot :: is) item r := by
  intro later he locals hslot below position
  rw [straight_load hslot, h later he, List.length_cons, Nat.add_assoc, Nat.add_comm 1]

/-- Run by itself on the item, such code ends with the outcome. -/
theorem Gives.ends {slot : UInt16} {is : List Instruction} {item : Value} {locals : List Value}
    {r : Except MachineError Value} (h : m.Gives m.heap slot is item r)
    (hplain : ∀ i ∈ is, i.isPlain = true) (hslot : (Locals.ofValues locals).get? slot = some item) :
    m.Ends is locals fun _ result => result = r :=
  .of_straight hplain (h m.heap (.refl _) (.ofValues locals) hslot [] 0)

/-- The code of a turn. -/
def turnCode (slots : LoopSlots) (target : String) (element : List Instruction) : List Instruction :=
  slots.advance target ++ (element ++ LoopSlots.add)

/-- The code of the loop, from its first label to its last. -/
def loopCode (slots : LoopSlots) (test exit : Nat) (target : String) (element : List Instruction) :
    List Instruction :=
  .label test :: (slots.test ++
    .jumpIfZero exit :: (turnCode slots target element ++ [.jump test, .label exit]))

private theorem length_loopCode (slots : LoopSlots) (test exit : Nat) (target : String)
    (element : List Instruction) (start : Nat) :
    start + (loopCode slots test exit target element).length =
      start + 4 + (turnCode slots target element).length + 1 + 1 := by
  simp only [loopCode, LoopSlots.test, List.length_cons, List.length_append, List.length_nil]
  omega

section Turns

variable {slots : LoopSlots} {items results : List Value} {k first : Nat} {target : String} {element : List Instruction} {item : Value}

/-- A turn, apart from the code around it. -/
private theorem straight_turn (hm : m.functions = Helper.standard options)
    (hslots : slots.From first) (h : Collecting heap slots items results k later locals)
    (hitem : items[k]? = some item) (hin : item.In heap)
    (hfits : heap.instanceOf m.table item target = true) {r : Except MachineError Value}
    (hgives : m.Gives heap slots.next element item r) (below : List Value) (position : Nat) :
    (∀ value, r = .ok value → ∃ later' locals',
        m.straight (turnCode slots target element) later ⟨locals, below, position⟩ =
          .ok (later', ⟨locals', below, position + (turnCode slots target element).length⟩) ∧
        Collecting heap slots items (results ++ [value]) (k + 1) later' locals') ∧
      ∀ e, r = .error e →
        m.straight (turnCode slots target element) later ⟨locals, below, position⟩ = .error e := by
  obtain ⟨later₁, locals₁, hadvance, h₁, hnext⟩ :=
    h.advance hm hslots hitem hin hfits below position
  have helement := hgives later₁ h₁.grown locals₁ hnext (.ref heap.size :: below)
    (position + (slots.advance target).length)
  have hturn : m.straight (turnCode slots target element) later ⟨locals, below, position⟩ =
      m.straight (element ++ LoopSlots.add) later₁
        ⟨locals₁, .ref heap.size :: below, position + (slots.advance target).length⟩ := by
    unfold turnCode
    rw [straight_append, hadvance]
    rfl
  rw [hturn, straight_append, helement]
  constructor
  · rintro value rfl
    obtain ⟨later₂, hadd, h₂⟩ := h₁.add hm value below
      (position + (slots.advance target).length + element.length)
    refine ⟨later₂, locals₁, ?_, h₂⟩
    have hlength : position + (turnCode slots target element).length =
        position + (slots.advance target).length + element.length + LoopSlots.add.length := by
      unfold turnCode
      rw [List.length_append, List.length_append]
      omega
    rw [hlength, ← hadd]
    rfl
  · rintro e rfl
    rfl

section Placed

variable {code : List Instruction} {start test exit : Nat}

/-- The loop stands in code whose labels are bound once. -/
structure LoopAt (code : List Instruction) (start : Nat) (slots : LoopSlots) (test exit : Nat)
    (target : String) (element : List Instruction) : Prop where
  placed : Placed code start (loopCode slots test exit target element)
  plain : ∀ i ∈ element, i.isPlain = true
  labels : (code.filterMap Instruction.bound?).Nodup

namespace LoopAt

theorem turn_plain (hl : LoopAt code start slots test exit target element) :
    ∀ i ∈ turnCode slots target element, i.isPlain = true := by
  intro i hi
  unfold turnCode LoopSlots.advance LoopSlots.add at hi
  simp only [List.mem_append, List.mem_cons, List.not_mem_nil, or_false] at hi
  rcases hi with (rfl | rfl | rfl | rfl | rfl) | hi | rfl | rfl
  all_goals first | rfl | exact hl.plain i hi

private theorem placed_turn (hl : LoopAt code start slots test exit target element) :
    Placed code (start + 4) (turnCode slots target element ++ [.jump test, .label exit]) := by
  have hplaced : Placed code start ([.label test] ++ (slots.test ++ ([.jumpIfZero exit] ++
      (turnCode slots target element ++ [.jump test, .label exit])))) := hl.placed
  exact hplaced.right.right.right

private theorem placed_back (hl : LoopAt code start slots test exit target element) :
    Placed code (start + 4 + (turnCode slots target element).length) [.jump test, .label exit] :=
  hl.placed_turn.right

/-- Both labels are found where the loop binds them. -/
private theorem label_test (hl : LoopAt code start slots test exit target element) :
    labelFrom? test 0 code = some start := by
  rw [labelFrom?_of_nodup hl.labels hl.placed.head, Nat.zero_add]

private theorem label_exit (hl : LoopAt code start slots test exit target element) :
    labelFrom? exit 0 code = some (start + 4 + (turnCode slots target element).length + 1) := by
  rw [labelFrom?_of_nodup hl.labels hl.placed_back.tail.head, Nat.zero_add]

/-- From the first label the run comes to the jump out of the loop. -/
private theorem reaches_jump (hl : LoopAt code start slots test exit target element)
    (hm : m.functions = Helper.standard options)
    (h : Collecting heap slots items results k later locals) (below : List Value) :
    Reaches m code later ⟨locals, below, start⟩ later
        ⟨locals, .ofBool (k < items.length) :: below, start + 3⟩ ∧
      code[start + 3]? = some (.jumpIfZero exit) := by
  have hplaced : Placed code start ([.label test] ++ (slots.test ++ (.jumpIfZero exit ::
      (turnCode slots target element ++ [.jump test, .label exit])))) := hl.placed
  have hplain : ∀ i ∈ slots.test, i.isPlain = true := by
    intro i hi
    simp only [LoopSlots.test, List.mem_cons, List.not_mem_nil, or_false] at hi
    rcases hi with rfl | rfl <;> rfl
  have htest := h.test hm below (start + 1)
  have hreaches := (reaches_straight hplain (by exact hplaced.right.left) htest).1
  exact ⟨.head hl.placed.head rfl hreaches, hplaced.right.right.head⟩

/-- While there are elements the run comes to the turn. -/
private theorem reaches_body (hl : LoopAt code start slots test exit target element)
    (hm : m.functions = Helper.standard options)
    (h : Collecting heap slots items results k later locals) (hk : k < items.length)
    (below : List Value) :
    Reaches m code later ⟨locals, below, start⟩ later ⟨locals, below, start + 4⟩ := by
  obtain ⟨hreaches, hjump⟩ := hl.reaches_jump hm h below
  refine hreaches.step hjump ?_
  rw [decide_eq_true hk]
  rfl

/-- After the last element the run leaves the loop. -/
theorem reaches_exit (hl : LoopAt code start slots test exit target element)
    (hm : m.functions = Helper.standard options)
    (h : Collecting heap slots items results items.length later locals) (below : List Value) :
    Reaches m code later ⟨locals, below, start⟩ later
      ⟨locals, below, start + (loopCode slots test exit target element).length⟩ := by
  obtain ⟨hreaches, hjump⟩ := hl.reaches_jump hm h below
  have hout : m.execute code later ⟨locals, .ofBool (items.length < items.length) :: below, start + 3⟩
      (.jumpIfZero exit) = .ok (later, ⟨locals, below,
        start + 4 + (turnCode slots target element).length + 1⟩) := by
    rw [decide_eq_false (Nat.lt_irrefl _)]
    show (jumpTo code exit _).map _ = _
    unfold jumpTo
    rw [hl.label_exit]
    rfl
  rw [length_loopCode]
  exact (hreaches.step hjump hout).step hl.placed_back.tail.head rfl

/-- A turn that gives a value comes back to the first label. -/
theorem reaches_turn (hl : LoopAt code start slots test exit target element)
    (hm : m.functions = Helper.standard options) (hslots : slots.From first)
    (h : Collecting heap slots items results k later locals)
    (hitem : items[k]? = some item) (hin : item.In heap)
    (hfits : heap.instanceOf m.table item target = true) {value : Value}
    (hgives : m.Gives heap slots.next element item (.ok value)) (below : List Value) :
    ∃ later' locals', Reaches m code later ⟨locals, below, start⟩ later' ⟨locals', below, start⟩ ∧
      Collecting heap slots items (results ++ [value]) (k + 1) later' locals' := by
  have hk : k < items.length := (List.getElem?_eq_some_iff.mp hitem).1
  obtain ⟨later', locals', hturn, h'⟩ :=
    (straight_turn hm hslots h hitem hin hfits hgives below (start + 4)).1 value rfl
  have hbody := (reaches_straight hl.turn_plain hl.placed_turn.left hturn).1
  refine ⟨later', locals', ((hl.reaches_body hm h hk below).trans hbody).step hl.placed_back.head ?_, h'⟩
  show (jumpTo code test _).map _ = _
  unfold jumpTo
  rw [hl.label_test]
  rfl

/-- A turn that fails makes the run fail. -/
theorem fails_turn (hl : LoopAt code start slots test exit target element)
    (hm : m.functions = Helper.standard options) (hslots : slots.From first)
    (h : Collecting heap slots items results k later locals)
    (hitem : items[k]? = some item) (hin : item.In heap)
    (hfits : heap.instanceOf m.table item target = true) {e : MachineError}
    (hgives : m.Gives heap slots.next element item (.error e)) (below : List Value) :
    m.Fails code later ⟨locals, below, start⟩ e := by
  have hk : k < items.length := (List.getElem?_eq_some_iff.mp hitem).1
  have hturn := (straight_turn hm hslots h hitem hin hfits hgives below (start + 4)).2 e rfl
  exact .of_reaches (hl.reaches_body hm h hk below)
    (fails_straight hl.turn_plain hl.placed_turn.left hturn)

/-- As long as the turns give values, the run comes back to the first label with all of them
added to the result. -/
theorem reaches_turns (hl : LoopAt code start slots test exit target element)
    (hm : m.functions = Helper.standard options) (hslots : slots.From first)
    (hitems : ∀ item ∈ items, item.In heap ∧ heap.instanceOf m.table item target = true)
    (below : List Value) {rest more values : List Value}
    (hgives : List.Forall₂ (fun item value => m.Gives heap slots.next element item (.ok value))
      rest values)
    (hrest : items.drop k = rest ++ more) (h : Collecting heap slots items results k later locals) :
    ∃ later' locals', Reaches m code later ⟨locals, below, start⟩ later' ⟨locals', below, start⟩ ∧
      Collecting heap slots items (results ++ values) (k + rest.length) later' locals' := by
  induction hgives generalizing k results later locals with
  | nil =>
    rw [List.append_nil]
    exact ⟨later, locals, .refl, h⟩
  | @cons item value rest values hitem _ ih =>
    have hget : items[k]? = some item := by
      rw [← Nat.add_zero k, ← List.getElem?_drop, hrest]
      rfl
    obtain ⟨hin, hfits⟩ := hitems item (List.mem_of_getElem? hget)
    obtain ⟨later₁, locals₁, hturn, h₁⟩ := hl.reaches_turn hm hslots h hget hin hfits hitem below
    have hdrop : items.drop (k + 1) = rest ++ more := by
      rw [← List.drop_drop, hrest]
      rfl
    obtain ⟨later₂, locals₂, hturns, h₂⟩ := ih hdrop h₁
    refine ⟨later₂, locals₂, hturn.trans hturns, ?_⟩
    rw [List.append_assoc] at h₂
    rw [List.length_cons, Nat.add_comm rest.length 1, ← Nat.add_assoc]
    exact h₂

end LoopAt

end Placed

end Turns

/-! ## Whole runs -/

/-- The code that collects from the list in a slot. -/
def listCode (kind : SlotKind) (slot : UInt16) (slots : LoopSlots) (test exit : Nat)
    (target : String) (element : List Instruction) : List Instruction :=
  .load kind slot :: (slots.start ++
    (loopCode slots test exit target element ++ [.load .reference slots.result]))

section Whole

variable {kind : SlotKind} {slot : UInt16} {slots : LoopSlots} {test exit first : Nat}
  {target : String} {element : List Instruction} {values : List Value} {place : Nat}
  {items : List Value}

theorem loopAt_listCode (hplain : ∀ i ∈ element, i.isPlain = true) (hne : test ≠ exit) :
    LoopAt (listCode kind slot slots test exit target element) 11 slots test exit target element := by
  refine ⟨?_, hplain, ?_⟩
  · exact ⟨[.load .reference slots.result], rfl⟩
  · have helement : element.filterMap Instruction.bound? = [] :=
      List.filterMap_eq_nil_iff.mpr fun i hi => Instruction.bound?_of_isPlain (hplain i hi)
    have hbound : (listCode kind slot slots test exit target element).filterMap
        Instruction.bound? = [test, exit] := by
      simp only [listCode, loopCode, turnCode, LoopSlots.start, LoopSlots.test, LoopSlots.advance,
        LoopSlots.add, List.filterMap_append, List.filterMap_cons, List.filterMap_nil, helement,
        Instruction.bound?, List.nil_append, List.cons_append]
    rw [hbound]
    simp [hne]

private theorem reaches_start (hm : m.functions = Helper.standard options)
    (hslots : slots.From first) (hslot : locals.get? slot = some (.ref place))
    (hlist : heap[place]? = some (.list items)) :
    ∃ later locals', Reaches m (listCode kind slot slots test exit target element) heap
        ⟨locals, [], 0⟩ later ⟨locals', [], 11⟩ ∧ Collecting heap slots items [] 0 later locals' := by
  obtain ⟨later, locals', hstart, h⟩ := Collecting.start hm hslots hlist locals [] 1
  have hstraight : m.straight (.load kind slot :: slots.start) heap ⟨locals, [], 0⟩ =
      .ok (later, ⟨locals', [], 11⟩) := by
    rw [straight_load hslot, hstart]
    rfl
  have hplain : ∀ i ∈ Instruction.load kind slot :: slots.start, i.isPlain = true := by
    intro i hi
    simp only [LoopSlots.start, List.mem_cons, List.not_mem_nil, or_false] at hi
    rcases hi with rfl | rfl | rfl | rfl | rfl | rfl | rfl | rfl | rfl | rfl | rfl <;> rfl
  have hplaced : Placed (listCode kind slot slots test exit target element) 0
      (.load kind slot :: slots.start) :=
    ⟨loopCode slots test exit target element ++ [.load .reference slots.result], rfl⟩
  exact ⟨later, locals', (reaches_straight hplain (by exact hplaced) hstraight).1, h⟩

/-- If the element code gives a value for every element, the run ends with a new list of these. -/
theorem ends_collected (hm : m.functions = Helper.standard options) (hslots : slots.From first)
    (hplain : ∀ i ∈ element, i.isPlain = true) (hne : test ≠ exit) {locals : List Value}
    (hslot : (Locals.ofValues locals).get? slot = some (.ref place))
    (hlist : m.heap[place]? = some (.list items))
    (hitems : ∀ item ∈ items, item.In m.heap ∧ m.heap.instanceOf m.table item target = true)
    (hgives : List.Forall₂ (fun item value => m.Gives m.heap slots.next element item (.ok value))
      items values) :
    m.Ends (listCode kind slot slots test exit target element) locals fun later r =>
      ∃ p, m.heap.size ≤ p ∧ r = .ok (.ref p) ∧ later[p]? = some (.list values) := by
  have hl : LoopAt (listCode kind slot slots test exit target element) 11 slots test exit target
      element := loopAt_listCode hplain hne
  have hrest : items.drop 0 = items ++ [] := (List.append_nil items).symm
  obtain ⟨later₁, locals₁, hstart, h₁⟩ := reaches_start hm hslots hslot hlist
  obtain ⟨later₂, locals₂, hturns, h₂⟩ := hl.reaches_turns hm hslots hitems [] hgives hrest h₁
  rw [List.nil_append, Nat.zero_add] at h₂
  have hexit := hl.reaches_exit hm h₂ []
  have hload : (listCode kind slot slots test exit target element)[11 +
      (loopCode slots test exit target element).length]? = some (.load .reference slots.result) := by
    have hplaced : Placed (listCode kind slot slots test exit target element) 11
      (loopCode slots test exit target element ++ [.load .reference slots.result]) :=
        ⟨[], List.append_nil _⟩
    exact hplaced.right.head
  have hlast := ((hstart.trans hturns).trans hexit).step hload (execute_load h₂.result)
  refine .of_reaches hlast ?_ ⟨m.heap.size, Nat.le_refl _, rfl, h₂.list⟩
  refine List.getElem?_eq_none ?_
  show (listCode kind slot slots test exit target element).length ≤
    11 + (loopCode slots test exit target element).length + 1
  simp only [listCode, LoopSlots.start, List.length_cons, List.length_append, List.length_nil]
  omega

/-- If the element code fails for an element, and for none before it, the run fails alike. -/
theorem ends_failed (hm : m.functions = Helper.standard options) (hslots : slots.From first)
    (hplain : ∀ i ∈ element, i.isPlain = true) (hne : test ≠ exit) {locals : List Value}
    (hslot : (Locals.ofValues locals).get? slot = some (.ref place))
    {before after : List Value} {item : Value} {e : MachineError}
    (hlist : m.heap[place]? = some (.list (before ++ item :: after)))
    (hitems : ∀ i ∈ before ++ item :: after,
      i.In m.heap ∧ m.heap.instanceOf m.table i target = true)
    (hgives : List.Forall₂ (fun item value => m.Gives m.heap slots.next element item (.ok value))
      before values) (hfails : m.Gives m.heap slots.next element item (.error e)) :
    m.Ends (listCode kind slot slots test exit target element) locals fun _ r => r = .error e := by
  have hl : LoopAt (listCode kind slot slots test exit target element) 11 slots test exit target
      element := loopAt_listCode hplain hne
  obtain ⟨later₁, locals₁, hstart, h₁⟩ := reaches_start hm hslots hslot hlist
  obtain ⟨later₂, locals₂, hturns, h₂⟩ := hl.reaches_turns hm hslots hitems [] hgives rfl h₁
  have hget : (before ++ item :: after)[0 + before.length]? = some item := by
    rw [Nat.zero_add, List.getElem?_append_right (Nat.le_refl _), Nat.sub_self]
    rfl
  obtain ⟨hin, hfits⟩ := hitems item (List.mem_of_getElem? hget)
  have hfails := hl.fails_turn hm hslots h₂ hget hin hfits hfails []
  exact .of_fails (.of_reaches (hstart.trans hturns) hfails) fun _ => rfl

end Whole

end Machine

end CallSite
