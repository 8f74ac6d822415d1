import CallSite.Machine.Run

/-!
# Structural errors

A run on ill-formed code can stop for want of an operand or of a label. No call gives such an error
by itself: it depends on the code alone.
-/

namespace CallSite

theorem exists_of_bind_eq_ok {ε α β : Type} {r : Except ε α} {f : α → Except ε β} {b : β}
    (h : r >>= f = .ok b) : ∃ a, r = .ok a ∧ f a = .ok b := by
  cases r with
  | ok a => exact ⟨a, rfl, h⟩
  | error e => cases h

theorem exists_of_map_eq_ok {ε α β : Type} {r : Except ε α} {f : α → β} {b : β}
    (h : r.map f = .ok b) : ∃ a, r = .ok a ∧ f a = b := by
  cases r with
  | ok a => cases h; exact ⟨a, rfl, rfl⟩
  | error e => cases h

/-- An error that only ill-formed code gives. -/
def MachineError.isStructural : MachineError → Bool
  | stackUnderflow _ | unknownLabel _ => true
  | _ => false

/-- The result is not a structural error. -/
def Sound {α : Type} (r : Except MachineError α) : Prop :=
  ∀ e, r = .error e → e.isStructural = false

namespace Sound

variable {α β : Type}

theorem ok (a : α) : Sound (.ok a : Except MachineError α) := fun _ h => by cases h

theorem error {e : MachineError} (h : e.isStructural = false) :
    Sound (.error e : Except MachineError α) := fun _ he => by cases he; exact h

theorem map {r : Except MachineError α} (h : Sound r) (f : α → β) : Sound (r.map f) := by
  cases r with
  | ok a => exact ok _
  | error e => exact error (h e rfl)

theorem bind {r : Except MachineError α} {f : α → Except MachineError β} (h : Sound r)
    (hf : ∀ a, Sound (f a)) : Sound (r >>= f) := by
  cases r with
  | ok a => exact hf a
  | error e => exact error (h e rfl)

end Sound

/-- No function of the host gives a structural error. -/
def Machine.Fair (m : Machine) : Prop :=
  ∀ entry ∈ m.functions, ∀ heap args, Sound (entry.2 heap args)

/-! ## Look-ups -/

theorem Heap.deref_sound (heap : Heap) (value : Value) (context : String) :
    Sound (heap.deref value context) := by
  unfold Heap.deref
  split
  · split
    · exact .ok _
    · exact .error rfl
  · exact .error rfl
  · exact .error rfl

theorem intArgument_sound (args : List Value) (position : Nat) :
    Sound (intArgument args position) := by
  unfold intArgument
  split
  · exact .ok _
  · exact .error rfl

theorem itemAt_sound (items : List Value) (index : Int) : Sound (itemAt items index) := by
  unfold itemAt
  simp only
  split
  · exact .ok _
  · exact .error rfl

namespace Helper

private theorem onNumbers_sound (op : String) (f : Boxed → Boxed → Except ArithmeticFault Boxed)
    (heap : Heap) (args : List Value) : Sound (onNumbers op f heap args) := by
  refine Sound.bind ?_ fun pair => ?_
  · unfold numberPair
    split
    · exact .error rfl
    · exact .error rfl
    · split
      · exact .ok _
      · exact .error rfl
    · exact .error rfl
  · simp only
    split
    · exact .ok _
    · exact .error rfl

private theorem exact_sound (op : String) (whole : Int → Int → Int)
    (fraction : Float → Float → Float) (heap : Heap) (args : List Value) :
    Sound (exact op whole fraction heap args) :=
  onNumbers_sound op _ heap args

private theorem concat_sound (heap : Heap) (args : List Value) : Sound (concat heap args) := by
  unfold concat
  split
  · exact .ok _
  all_goals exact .error rfl

private theorem subscript_sound (heap : Heap) (args : List Value) :
    Sound (subscript heap args) := by
  unfold subscript
  split
  · refine (intArgument_sound args 1).bind fun i => (itemAt_sound _ i).bind fun item => .ok _
  · refine (heap.deref_sound _ _).bind fun object => ?_
    split
    · exact (intArgument_sound args 1).bind fun i => (itemAt_sound _ i).bind fun item => .ok _
    · exact .ok _
    · exact .error rfl

/-- The helpers are fair. -/
theorem standard_sound (options : Options) {entry : (String × String) × HostFunction}
    (h : entry ∈ standard options) (heap : Heap) (args : List Value) :
    Sound (entry.2 heap args) := by
  simp only [standard, List.mem_cons, List.not_mem_nil, or_false] at h
  rcases h with rfl | rfl | rfl | rfl | rfl | rfl | rfl
  · exact subscript_sound heap args
  · exact concat_sound heap args
  · exact onNumbers_sound "power" _ heap args
  · exact onNumbers_sound "div" _ heap args
  · exact exact_sound "multiply" _ _ heap args
  · exact exact_sound "minus" _ _ heap args
  · exact exact_sound "plus" _ _ heap args

end Helper

/-! ## Calls -/

namespace Machine

private theorem readBridged_sound (m : Machine) (heap : Heap) (member : MemberRef) (field : String)
    (args : List Value) : Sound (m.readBridged heap member field args) := by
  unfold readBridged
  split
  · simp only [pure_bind]
    split
    · exact .ok _
    · exact .error rfl
  · simp only [pure_bind]
    split
    · exact .ok _
    · exact .error rfl
  · simp only [pure_bind]
    refine (heap.deref_sound _ _).bind fun object => ?_
    split
    · exact .ok _
    · exact .error rfl

private theorem callStatic_sound (m : Machine) (heap : Heap) (member : MemberRef)
    (args : List Value) : Sound (m.callStatic heap member args) := by
  unfold callStatic
  simp only
  split
  · exact .ok _
  · exact readBridged_sound m heap member _ args
  · split
    · exact .ok _
    · exact .error rfl

private theorem callList_sound {heap : Heap} {place : Nat} {items : List Value} {name : String}
    {args : List Value} {r} (h : callList heap place items name args = some r) : Sound r := by
  unfold callList at h
  split at h
  all_goals cases h
  · exact .ok _
  · exact .ok _
  · exact (intArgument_sound args 0).bind fun i => (itemAt_sound items i).bind fun item => .ok _
  · exact .ok _
  · exact .ok _

private theorem callMap_sound {heap : Heap} {entries : List (Value × Value)} {name : String}
    {args : List Value} {r} (h : callMap heap entries name args = some r) : Sound r := by
  unfold callMap at h
  split at h
  all_goals cases h
  all_goals exact .ok _

private theorem callIterator_sound {heap : Heap} {place : Nat} {items : List Value} {k : Nat}
    {name : String} {r} (h : callIterator heap place items k name = some r) : Sound r := by
  unfold callIterator at h
  split at h
  · cases h
    exact .ok _
  · split at h <;> cases h
    · exact .ok _
    · exact .error rfl
  · cases h

private theorem callInstance_sound {heap : Heap} {object : HeapObject} {name : String}
    {args : List Value} {r} (h : callInstance heap object name args = some r) : Sound r := by
  unfold callInstance at h
  split at h
  · split at h
    · split at h <;> cases h
      · exact .ok _
      · exact .error rfl
    · cases h
      exact .error rfl
  · split at h
    · obtain ⟨value, -, rfl⟩ := Option.map_eq_some_iff.mp h
      exact .ok _
    · cases h

private theorem callObject_sound {heap : Heap} {place : Nat} {object : HeapObject} {name : String}
    {args : List Value} {r} (h : callObject heap place object name args = some r) : Sound r := by
  unfold callObject at h
  split at h
  · exact callList_sound h
  · exact callMap_sound h
  · exact callIterator_sound h
  · split at h <;> cases h
    exact .ok _
  · exact callInstance_sound h

private theorem callOn_sound (heap : Heap) (member : MemberRef) (receiver : Value)
    (args : List Value) : Sound (callOn heap member receiver args) := by
  unfold callOn
  simp only
  split
  · exact .error rfl
  · split
    · exact .ok _
    · split
      · exact .ok _
      · split
        · split
          · exact .ok _
          · exact .error rfl
        · split
          · exact .error rfl
          · rename_i object _
            cases ho : callObject heap _ object member.name args with
            | none => exact .error rfl
            | some r => exact callObject_sound ho
        · split
          · exact .ok _
          · exact .error rfl

/-- A call that is given a receiver fails for reasons of its own only. -/
theorem invoke_sound {m : Machine} (hm : m.Fair) (heap : Heap) (dispatch : Dispatch)
    (member : MemberRef) {args : List Value} (ha : dispatch = .static ∨ args ≠ []) :
    Sound (m.invoke heap dispatch member args) := by
  unfold invoke
  split
  · exact ((heap.deref_sound _ _).map _).map _
  · split
    · rename_i function hf
      obtain ⟨before, after, hs, -⟩ := List.lookup_eq_some_iff.mp hf
      have hmem : ((member.owner, member.name), function) ∈ m.functions := by
        rw [hs]
        simp
      exact hm _ hmem heap args
    · split
      · exact (callStatic_sound m heap member args).map _
      · rename_i hd
        cases args with
        | nil => exact absurd rfl (ha.resolve_left hd)
        | cons receiver args => exact (callOn_sound heap member receiver args).map _

end Machine

end CallSite
