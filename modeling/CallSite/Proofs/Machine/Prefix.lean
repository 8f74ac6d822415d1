import CallSite.Proofs.Machine.Straight

/-!
# Code that goes on

Code runs in the same way when more code stands behind it, as long as that binds none of the labels
it jumps to. The code behind it takes over with the operands and slots that it has left.
-/

namespace CallSite

/-! ## Labels -/

/-- The code behind does not change where a label is found that it does not bind. -/
theorem labelFrom?_append {l start : Nat} {is rest : List Instruction}
    (h : l ∉ rest.filterMap Instruction.bound?) :
    labelFrom? l start (is ++ rest) = labelFrom? l start is := by
  induction is generalizing start with
  | nil => exact labelFrom?_eq_none h
  | cons i is ih => simp only [List.cons_append, labelFrom?, ih]

/-- The last binding of a label counts. -/
theorem labelFrom?_last {l start : Nat} {before after : List Instruction}
    (h : l ∉ after.filterMap Instruction.bound?) :
    labelFrom? l start (before ++ .label l :: after) = some (start + before.length) := by
  induction before generalizing start with
  | nil =>
    unfold labelFrom?
    simp only [List.nil_append, labelFrom?_eq_none h, if_true]
    rfl
  | cons i before ih =>
    unfold labelFrom?
    simp only [List.cons_append, ih, List.length_cons, Option.some.injEq]
    omega

variable {m : Machine} {heap heap' : Heap} {frame frame' : Frame} {is rest : List Instruction}

/-- The code behind binds no label that the code jumps to. -/
def Apart (is rest : List Instruction) : Prop :=
  ∀ i ∈ is, ∀ l, i.target? = some l → l ∉ rest.filterMap Instruction.bound?

/-- Code without labels stands apart from any code before it. -/
theorem apart_of_plain (h : ∀ i ∈ rest, i.isPlain = true) : Apart is rest := by
  intro _ _ l _
  rw [List.filterMap_eq_nil_iff.mpr fun i hi => Instruction.bound?_of_isPlain (h i hi)]
  exact List.not_mem_nil

namespace Machine

private theorem jumpTo_append {l : Nat} (h : l ∉ rest.filterMap Instruction.bound?) :
    jumpTo (is ++ rest) l frame = jumpTo is l frame := by
  unfold jumpTo
  rw [labelFrom?_append h]

private theorem execute_append (h : Apart is rest) {i : Instruction} (hi : i ∈ is) :
    m.execute (is ++ rest) heap frame i = m.execute is heap frame i := by
  cases i with
  | jumpIfZero l => simp only [execute, jumpTo_append (h _ hi l rfl)]
  | jumpIfNull l => simp only [execute, jumpTo_append (h _ hi l rfl)]
  | jump l => simp only [execute, jumpTo_append (h _ hi l rfl)]
  | _ => rfl

end Machine

/-- A run of the code is a run of the code with more behind it. -/
theorem Reaches.append (h : Reaches m is heap frame heap' frame') (hrest : Apart is rest) :
    Reaches m (is ++ rest) heap frame heap' frame' := by
  induction h with
  | refl => exact .refl
  | step _ hi he ih =>
    refine .step ih ?_ ((Machine.execute_append hrest (List.mem_of_getElem? hi)).trans he)
    rw [List.getElem?_append_left (List.getElem?_eq_some_iff.mp hi).1]
    exact hi

/-! ## Values left -/

/-- Run by itself on slots that hold `locals`, the code comes to its end and leaves `value` as the
topmost operand. -/
def Machine.Leaves (m : Machine) (is : List Instruction) (locals : List Value) (value : Value) :
    Prop :=
  ∃ heap slots below,
    Reaches m is m.heap ⟨.ofValues locals, [], 0⟩ heap ⟨slots, value :: below, is.length⟩

/-- Code that leaves a value ends with it. -/
theorem Machine.Leaves.ends {locals : List Value} {value : Value} (h : m.Leaves is locals value) :
    m.Ends is locals fun _ result => result = .ok value := by
  obtain ⟨heap, slots, below, h⟩ := h
  exact .of_reaches h (List.getElem?_eq_none (Nat.le_refl _)) rfl

/-- Straight code behind that fails makes the whole run fail. -/
theorem Machine.Leaves.ends_error {js : List Instruction} {locals : List Value} {value : Value}
    {e : MachineError} (h : m.Leaves is locals value) (hrest : Apart is (js ++ rest))
    (hplain : ∀ i ∈ js, i.isPlain = true)
    (hfails : ∀ heap slots below,
      m.straight js heap ⟨slots, value :: below, is.length⟩ = .error e) :
    m.Ends (is ++ (js ++ rest)) locals fun _ result => result = .error e := by
  obtain ⟨heap, slots, below, h⟩ := h
  refine .of_fails (.of_reaches (h.append hrest) (fails_straight hplain ?_ (hfails heap slots below)))
    fun _ => rfl
  show js <+: (is ++ (js ++ rest)).drop is.length
  rw [List.drop_left]
  exact List.prefix_append js rest

end CallSite
