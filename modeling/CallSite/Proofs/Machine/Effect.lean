import CallSite.Proofs.Machine.Step

/-!
# Effects on slots and objects

A store changes the slot it names. Calls change objects in two places: a list that is added to and
an iterator that moves on. All else leaves slots and objects as they are.
-/

namespace CallSite

namespace Locals

theorem get?_store_self (locals : Locals) (slot : UInt16) (value : Value) :
    (locals.store slot value).get? slot = some value := by
  unfold get? store
  simp only
  rw [Array.getElem?_setIfInBounds_self_of_lt]
  · rfl
  · rw [Array.size_append, Array.size_replicate]
    omega

theorem get?_store_ne (locals : Locals) {slot other : UInt16} (value : Value) (h : other ≠ slot) :
    (locals.store slot value).get? other = locals.get? other := by
  have hne : slot.toNat ≠ other.toNat := fun he => h (UInt16.toNat_inj.mp he.symm)
  unfold get? store
  simp only
  rw [Array.getElem?_setIfInBounds_ne hne, Array.getElem?_append]
  split
  · rfl
  · rename_i hsize
    rw [Array.getElem?_replicate]
    have hnone : locals[other.toNat]? = none := Array.getElem?_eq_none (Nat.le_of_not_lt hsize)
    rw [hnone]
    split <;> rfl

end Locals

/-- No function of the host touches the heap. -/
def Machine.Quiet (m : Machine) : Prop :=
  ∀ entry ∈ m.functions, ∀ heap args heap' result,
    entry.2 heap args = .ok (heap', result) → heap' = heap

/-- What a call of `name` on `args` may do to the heap. -/
inductive Touches (heap : Heap) (name : String) (args : List Value) : Heap → Prop
  | same : Touches heap name args heap
  | iterator {items} : name = "iterator" → Touches heap name args (heap.push (.iterator items 0))
  | next {place items k} : name = "next" → heap[place]? = some (.iterator items k) →
      Touches heap name args (heap.setIfInBounds place (.iterator items (k + 1)))
  | add {place items} (value) : name = "add" → args.head? = some (.ref place) →
      heap[place]? = some (.list items) →
      Touches heap name args (heap.setIfInBounds place (.list (items ++ [value])))

namespace Helper

private theorem onNumbers_quiet (op : String) {f : Boxed → Boxed → Except ArithmeticFault Boxed}
    {heap heap' : Heap} {args : List Value} {result : Option Value}
    (h : onNumbers op f heap args = .ok (heap', result)) : heap' = heap := by
  obtain ⟨⟨a, b⟩, -, h⟩ := exists_of_bind_eq_ok h
  simp only at h
  split at h <;> cases h
  rfl

private theorem exact_quiet (op : String) {whole : Int → Int → Int} {fraction}
    {heap heap' : Heap} {args : List Value} {result : Option Value}
    (h : exact op whole fraction heap args = .ok (heap', result)) : heap' = heap :=
  onNumbers_quiet op h

private theorem concat_quiet {heap heap' : Heap} {args : List Value} {result : Option Value}
    (h : concat heap args = .ok (heap', result)) : heap' = heap := by
  unfold concat at h
  split at h <;> cases h
  rfl

private theorem subscript_quiet {heap heap' : Heap} {args : List Value} {result : Option Value}
    (h : subscript heap args = .ok (heap', result)) : heap' = heap := by
  unfold subscript at h
  split at h
  · obtain ⟨index, -, h⟩ := exists_of_bind_eq_ok h
    obtain ⟨item, -, h⟩ := exists_of_bind_eq_ok h
    cases h
    rfl
  · obtain ⟨object, -, h⟩ := exists_of_bind_eq_ok h
    cases object with
    | list items =>
      obtain ⟨index, -, h⟩ := exists_of_bind_eq_ok h
      obtain ⟨item, -, h⟩ := exists_of_bind_eq_ok h
      cases h
      rfl
    | map entries => cases h; rfl
    | _ => cases h

/-- The helpers leave the heap as it is. -/
theorem standard_quiet (options : Options) {entry : (String × String) × HostFunction}
    (hentry : entry ∈ standard options) {heap heap' : Heap} {args : List Value}
    {result : Option Value} (h : entry.2 heap args = .ok (heap', result)) : heap' = heap := by
  simp only [standard, List.mem_cons, List.not_mem_nil, or_false] at hentry
  rcases hentry with rfl | rfl | rfl | rfl | rfl | rfl | rfl
  · exact subscript_quiet h
  · exact concat_quiet h
  · exact onNumbers_quiet "power" h
  · exact onNumbers_quiet "div" h
  · exact exact_quiet "multiply" h
  · exact exact_quiet "minus" h
  · exact exact_quiet "plus" h

end Helper

namespace Machine

variable {heap heap' : Heap} {result : Value}

private theorem callList_touches {place : Nat} {items : List Value} {name : String}
    {args : List Value} (hp : heap[place]? = some (.list items))
    (h : callList heap place items name args = some (.ok (heap', result))) :
    Touches heap name (.ref place :: args) heap' := by
  unfold callList at h
  split at h
  · cases h; exact .same
  · cases h; exact .same
  · obtain ⟨index, -, h⟩ := exists_of_bind_eq_ok (Option.some.inj h)
    obtain ⟨item, -, h⟩ := exists_of_bind_eq_ok h
    cases h
    exact .same
  · cases h; exact .iterator rfl
  · cases h; exact .add _ rfl rfl hp
  · cases h

private theorem callMap_touches {entries : List (Value × Value)} {name : String}
    {args : List Value} (h : callMap heap entries name args = some (.ok (heap', result))) :
    heap' = heap := by
  unfold callMap at h
  split at h <;> cases h <;> rfl

private theorem callIterator_touches {place : Nat} {items : List Value} {k : Nat} {name : String}
    {args : List Value} (hp : heap[place]? = some (.iterator items k))
    (h : callIterator heap place items k name = some (.ok (heap', result))) :
    Touches heap name args heap' := by
  unfold callIterator at h
  split at h
  · cases h; exact .same
  · split at h <;> cases h
    exact .next rfl hp
  · cases h

private theorem callInstance_touches {object : HeapObject} {name : String} {args : List Value}
    (h : callInstance heap object name args = some (.ok (heap', result))) : heap' = heap := by
  unfold callInstance at h
  split at h
  · split at h
    · split at h <;> cases h
      rfl
    · cases h
  · split at h
    · obtain ⟨value, -, hv⟩ := Option.map_eq_some_iff.mp h
      cases hv
      rfl
    · cases h

private theorem callObject_touches {place : Nat} {object : HeapObject} {name : String}
    {args : List Value} (hp : heap[place]? = some object)
    (h : callObject heap place object name args = some (.ok (heap', result))) :
    Touches heap name (.ref place :: args) heap' := by
  unfold callObject at h
  split at h
  · exact callList_touches hp h
  · rw [callMap_touches h]; exact .same
  · exact callIterator_touches hp h
  · split at h <;> cases h
    exact .same
  · rw [callInstance_touches h]; exact .same

private theorem callOn_touches {member : MemberRef} {receiver : Value} {args : List Value}
    (h : callOn heap member receiver args = .ok (heap', result)) :
    Touches heap member.name (receiver :: args) heap' := by
  unfold callOn at h
  simp only at h
  split at h
  · cases h
  · split at h
    · cases h; exact .same
    · split at h
      · cases h; exact .same
      · split at h
        · split at h <;> cases h
          exact .same
        · split at h
          · cases h
          · rename_i object hobject
            cases ho : callObject heap _ object member.name args with
            | none => rw [ho] at h; cases h
            | some r =>
              rw [ho] at h
              cases h
              exact callObject_touches hobject ho
        · split at h <;> cases h
          exact .same

/-- A static call touches nothing, any other call one object at most. -/
theorem invoke_touches {m : Machine} (hm : m.Quiet) {dispatch : Dispatch} {member : MemberRef}
    {args : List Value} {result : Option Value}
    (h : m.invoke heap dispatch member args = .ok (heap', result)) :
    Touches heap member.name args heap' ∧ (dispatch = .static → heap' = heap) := by
  unfold invoke at h
  split at h
  · obtain ⟨_, -, hr⟩ := exists_of_map_eq_ok h
    cases hr
    exact ⟨.same, fun _ => rfl⟩
  · split at h
    · rename_i function hf
      obtain ⟨before, after, hs, -⟩ := List.lookup_eq_some_iff.mp hf
      have hmem : ((member.owner, member.name), function) ∈ m.functions := by rw [hs]; simp
      have hheap := hm _ hmem _ _ _ _ h
      rw [hheap]
      exact ⟨.same, fun _ => rfl⟩
    · split at h
      · obtain ⟨_, -, hr⟩ := exists_of_map_eq_ok h
        cases hr
        exact ⟨.same, fun _ => rfl⟩
      · rename_i hd
        cases args with
        | nil => cases h
        | cons receiver args =>
          obtain ⟨⟨heap₁, value⟩, hc, hr⟩ := exists_of_map_eq_ok h
          cases hr
          exact ⟨callOn_touches hc, fun hs => absurd hs hd⟩

end Machine

end CallSite
