import CallSite.Proofs.Machine.Ownership

/-!
# Straight code

Instructions that neither jump nor bind a label run one after another wherever they stand, so they
can be run apart from the code around them. Runs are put together from such pieces and the jumps
between them.
-/

namespace CallSite

/-- The instructions stand in the code from a position on. -/
def Placed (code : List Instruction) (position : Nat) (is : List Instruction) : Prop :=
  is <+: code.drop position

namespace Placed

variable {code : List Instruction} {position : Nat} {i : Instruction} {is js : List Instruction}

theorem head (h : Placed code position (i :: is)) : code[position]? = some i := by
  obtain ⟨rest, h⟩ := h
  have h0 : (code.drop position)[0]? = some i := by
    rw [← h]
    rfl
  rw [List.getElem?_drop] at h0
  exact h0

theorem left (h : Placed code position (is ++ js)) : Placed code position is :=
  (List.prefix_append is js).trans h

theorem right (h : Placed code position (is ++ js)) : Placed code (position + is.length) js := by
  obtain ⟨rest, hrest⟩ := h
  have hdrop := congrArg (List.drop is.length) hrest
  rw [List.append_assoc, List.drop_left, List.drop_drop] at hdrop
  exact ⟨rest, hdrop⟩

theorem tail (h : Placed code position (i :: is)) : Placed code (position + 1) is :=
  @right code position [i] is h

theorem getElem? {k : Nat} (h : Placed code position is) (hi : is[k]? = some i) :
    code[position + k]? = some i := by
  obtain ⟨rest, hrest⟩ := h
  rw [← List.getElem?_drop, ← hrest, List.getElem?_append_left]
  · exact hi
  · exact (List.getElem?_eq_some_iff.mp hi).1

end Placed

namespace Machine

variable {m : Machine} {code : List Instruction} {heap heap' : Heap} {frame frame' : Frame}

/-- Run instructions one after another. -/
def straight (m : Machine) : List Instruction → Heap → Frame → Except MachineError (Heap × Frame)
  | [], heap, frame => .ok (heap, frame)
  | i :: is, heap, frame =>
    match m.execute [] heap frame i with
    | .ok (heap, frame) => straight m is heap frame
    | .error e => .error e

theorem straight_append (m : Machine) (is js : List Instruction) (heap : Heap) (frame : Frame) :
    m.straight (is ++ js) heap frame =
      m.straight is heap frame >>= fun (heap, frame) => m.straight js heap frame := by
  induction is generalizing heap frame with
  | nil => rfl
  | cons i is ih =>
    rw [List.cons_append, straight, straight]
    cases m.execute [] heap frame i with
    | error e => rfl
    | ok next => exact ih next.1 next.2

section Instructions

variable {locals : Locals} {is : List Instruction} {below : List Value} {position : Nat}

theorem execute_load {code : List Instruction} {kind : SlotKind} {slot : UInt16}
    {value : Value} (h : locals.get? slot = some value) :
    m.execute code heap ⟨locals, below, position⟩ (.load kind slot) =
      .ok (heap, ⟨locals, value :: below, position + 1⟩) := by
  simp only [execute, h]

theorem straight_load {kind : SlotKind} {slot : UInt16} {value : Value}
    (h : locals.get? slot = some value) :
    m.straight (.load kind slot :: is) heap ⟨locals, below, position⟩ =
      m.straight is heap ⟨locals, value :: below, position + 1⟩ := by
  rw [straight, execute_load h]

theorem straight_store {kind : SlotKind} {slot : UInt16} {value : Value} :
    m.straight (.store kind slot :: is) heap ⟨locals, value :: below, position⟩ =
      m.straight is heap ⟨locals.store slot value, below, position + 1⟩ := rfl

theorem straight_checkCast {value : Value} {target : String}
    (h : heap.instanceOf m.table value target = true) :
    m.straight (.checkCast target :: is) heap ⟨locals, value :: below, position⟩ =
      m.straight is heap ⟨locals, value :: below, position + 1⟩ := by
  simp only [straight, execute, h, if_true]

end Instructions

/-- The code around a plain instruction does not matter. -/
private theorem execute_of_isPlain {i : Instruction} (hi : i.isPlain = true) :
    m.execute code heap frame i = m.execute [] heap frame i := by
  cases i <;> first | rfl | cases hi

/-- The run comes to a step that fails with `e`. -/
def Fails (m : Machine) (code : List Instruction) (heap : Heap) (frame : Frame) (e : MachineError) :
    Prop :=
  ∃ heap' frame' i, Reaches m code heap frame heap' frame' ∧
    code[frame'.position]? = some i ∧ m.execute code heap' frame' i = .error e

theorem Fails.of_reaches {heap₁ : Heap} {frame₁ : Frame} {e : MachineError}
    (h : Reaches m code heap frame heap₁ frame₁) (hf : m.Fails code heap₁ frame₁ e) :
    m.Fails code heap frame e := by
  obtain ⟨heap', frame', i, hr, hi, he⟩ := hf
  exact ⟨heap', frame', i, h.trans hr, hi, he⟩

/-- A plain instruction is followed by the next. -/
private theorem position_of_isPlain {i : Instruction} (hi : i.isPlain = true)
    (h : m.execute [] heap frame i = .ok (heap', frame')) :
    frame'.position = frame.position + 1 := by
  cases execute_steps h with
  | branch ht _ _ =>
    rw [Instruction.target?_of_isPlain hi] at ht
    cases ht
  | _ => rfl

/-- Straight code that succeeds leads the run behind it. -/
theorem reaches_straight {is : List Instruction} (hp : ∀ i ∈ is, i.isPlain = true)
    (hc : Placed code frame.position is) (h : m.straight is heap frame = .ok (heap', frame')) :
    Reaches m code heap frame heap' frame' ∧ frame'.position = frame.position + is.length := by
  induction is generalizing heap frame with
  | nil =>
    cases h
    exact ⟨.refl, rfl⟩
  | cons i is ih =>
    have hi := hp i List.mem_cons_self
    unfold straight at h
    cases he : m.execute [] heap frame i with
    | error e =>
      rw [he] at h
      cases h
    | ok next =>
      rw [he] at h
      have hposition := position_of_isPlain hi he
      have hrest := ih (fun j hj => hp j (List.mem_cons_of_mem i hj)) (hposition ▸ hc.tail) h
      refine ⟨.head hc.head ((execute_of_isPlain hi).trans he) hrest.1, ?_⟩
      rw [hrest.2, hposition, List.length_cons]
      omega

/-- Straight code that fails makes the run fail. -/
theorem fails_straight {is : List Instruction} {e : MachineError}
    (hp : ∀ i ∈ is, i.isPlain = true) (hc : Placed code frame.position is)
    (h : m.straight is heap frame = .error e) : m.Fails code heap frame e := by
  induction is generalizing heap frame with
  | nil => cases h
  | cons i is ih =>
    have hi := hp i List.mem_cons_self
    unfold straight at h
    cases he : m.execute [] heap frame i with
    | error e' =>
      rw [he] at h
      cases h
      exact ⟨heap, frame, i, .refl, hc.head, (execute_of_isPlain hi).trans he⟩
    | ok next =>
      rw [he] at h
      have hposition := position_of_isPlain hi he
      have hrest := ih (fun j hj => hp j (List.mem_cons_of_mem i hj)) (hposition ▸ hc.tail) h
      exact .of_reaches (.head hc.head ((execute_of_isPlain hi).trans he) .refl) hrest

/-! ## Runs with steps enough -/

/-- With any limit from some number of steps on, the run ends with a heap and a result that `P`
holds of. -/
def Ends (m : Machine) (code : List Instruction) (locals : List Value)
    (P : Heap → Except MachineError Value → Prop) : Prop :=
  ∃ enough, ∀ limit, enough ≤ limit →
    P ({ m with stepLimit := limit }.run code locals).1.heap
      ({ m with stepLimit := limit }.run code locals).2

/-- The step limit does not matter to a single step. -/
theorem execute_withLimit (limit : Nat) (i : Instruction) :
    { m with stepLimit := limit }.execute code heap frame i = m.execute code heap frame i := by
  cases i <;> rfl

/-- A run that is given more steps than it takes to a state goes on from there. -/
private theorem runFrom_of_reaches (h : Reaches m code heap frame heap' frame') :
    ∃ n, ∀ limit k, { m with stepLimit := limit }.runFrom code (n + k) heap frame =
      { m with stepLimit := limit }.runFrom code k heap' frame' := by
  induction h with
  | refl => exact ⟨0, fun limit k => by rw [Nat.zero_add]⟩
  | step _ hi he ih =>
    obtain ⟨n, hn⟩ := ih
    refine ⟨n + 1, fun limit k => ?_⟩
    rw [Nat.add_assoc, Nat.add_comm 1 k, hn, runFrom]
    simp only [hi, execute_withLimit, he]

theorem Ends.imp {locals : List Value} {P Q : Heap → Except MachineError Value → Prop}
    (h : m.Ends code locals P) (hPQ : ∀ heap r, P heap r → Q heap r) : m.Ends code locals Q := by
  obtain ⟨enough, h⟩ := h
  exact ⟨enough, fun limit hlimit => hPQ _ _ (h limit hlimit)⟩

theorem Ends.of_reaches {locals : List Value} {P : Heap → Except MachineError Value → Prop}
    (h : Reaches m code m.heap ⟨.ofValues locals, [], 0⟩ heap' frame')
    (hstop : code[frame'.position]? = none) (hP : P heap' (.ok (frame'.stack.head?.getD .null))) :
    m.Ends code locals P := by
  obtain ⟨n, hn⟩ := runFrom_of_reaches h
  refine ⟨n, fun limit hlimit => ?_⟩
  obtain ⟨k, rfl⟩ := Nat.exists_eq_add_of_le hlimit
  have hrun : { m with stepLimit := n + k }.runFrom code (n + k) m.heap ⟨.ofValues locals, [], 0⟩ =
      (heap', .ok (frame'.stack.head?.getD .null)) := by
    rw [hn]
    unfold runFrom
    rw [hstop]
  unfold run
  simp only [hrun]
  exact hP

theorem Ends.of_fails {locals : List Value} {e : MachineError}
    {P : Heap → Except MachineError Value → Prop}
    (h : m.Fails code m.heap ⟨.ofValues locals, [], 0⟩ e) (hP : ∀ heap, P heap (.error e)) :
    m.Ends code locals P := by
  obtain ⟨heap', frame', i, hr, hi, he⟩ := h
  obtain ⟨n, hn⟩ := runFrom_of_reaches hr
  refine ⟨n + 1, fun limit hlimit => ?_⟩
  obtain ⟨k, rfl⟩ := Nat.exists_eq_add_of_le hlimit
  have hrun : { m with stepLimit := n + 1 + k }.runFrom code (n + 1 + k) m.heap
      ⟨.ofValues locals, [], 0⟩ = (heap', .error e) := by
    rw [Nat.add_assoc, Nat.add_comm 1 k, hn]
    unfold runFrom
    simp only [hi, execute_withLimit, he]
  unfold run
  simp only [hrun]
  exact hP heap'

/-- Plain code by itself ends as it runs straight. -/
theorem Ends.of_straight {is : List Instruction} {locals : List Value}
    {r : Except MachineError Value} (hplain : ∀ i ∈ is, i.isPlain = true)
    (h : m.straight is m.heap ⟨.ofValues locals, [], 0⟩ =
      r.map fun value => (m.heap, ⟨.ofValues locals, [value], 0 + is.length⟩)) :
    m.Ends is locals fun _ result => result = r := by
  have hplaced : Placed is 0 is := List.prefix_rfl
  cases r with
  | error e => exact .of_fails (fails_straight hplain (by exact hplaced) h) fun _ => rfl
  | ok value =>
    refine .of_reaches (reaches_straight hplain (by exact hplaced) h).1 ?_ rfl
    exact List.getElem?_eq_none (Nat.le_add_left _ _)

/-- A run with steps enough ends in one way only. -/
theorem Ends.both {locals : List Value} {P Q : Heap → Except MachineError Value → Prop}
    (hp : m.Ends code locals P) (hq : m.Ends code locals Q) :
    ∃ heap result, P heap result ∧ Q heap result := by
  obtain ⟨enough, hp⟩ := hp
  obtain ⟨enough', hq⟩ := hq
  exact ⟨_, _, hp (enough + enough') (Nat.le_add_right _ _),
    hq (enough + enough') (Nat.le_add_left _ _)⟩

end Machine

end CallSite
