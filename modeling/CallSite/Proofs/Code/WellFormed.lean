import CallSite.Proofs.Code.Control
import CallSite.Proofs.Machine.Step

/-!
# Well-formed code

Code is well formed if the operand stack has one depth at every position, however control got
there, every label it jumps to is bound once, and no slot is loaded before it is stored, other than
those the code is given. A run on well-formed code finds every operand and every label.
-/

namespace CallSite

/-- `depth` gives every position of the code a stack depth: `d` at the start, `d + 1` at the end,
never below `d`, and the same along every path of control. -/
structure Depths (code : List Instruction) (d : Nat) (depth : Nat → Nat) : Prop where
  start : depth 0 = d
  stop : depth code.length = d + 1
  enough : ∀ p i, code[p]? = some i → d + i.takes ≤ depth p
  step : ∀ p q i, code[p]? = some i → Passes code p q → depth q = depth p - i.takes + i.gives

/-- Control can come to a position from the start of the code with nothing stored in `slot`. -/
inductive Unstored (code : List Instruction) (slot : UInt16) : Nat → Prop
  | start : Unstored code slot 0
  | step {p q i} : Unstored code slot p → code[p]? = some i →
      (∀ kind, i ≠ .store kind slot) → Passes code p q → Unstored code slot q

/-- The code leaves one operand on top of those it starts with, binds its labels, and loads only
slots that are given or that it has stored. -/
structure WellFormed (given : List UInt16) (code : List Instruction) : Prop where
  depths : ∀ d, ∃ depth, Depths code d depth
  bound : ∀ i ∈ code, ∀ l, i.target? = some l → (code.filterMap Instruction.bound?).count l = 1
  stored : ∀ slot ∉ given, ∀ p, Unstored code slot p → ∀ kind, code[p]? ≠ some (.load kind slot)

/-! ## Runs on well-formed code -/

theorem labelFrom?_of_mem {code : List Instruction} {l : Nat}
    (h : l ∈ code.filterMap Instruction.bound?) (start : Nat) :
    ∃ q, labelFrom? l start code = some q := by
  induction code generalizing start with
  | nil => cases h
  | cons i is ih =>
    unfold labelFrom?
    by_cases hl : l ∈ is.filterMap Instruction.bound?
    · obtain ⟨q, hq⟩ := ih hl (start + 1)
      exact ⟨q, by rw [hq]⟩
    · rw [labelFrom?_eq_none hl]
      cases i with
      | label m =>
        have hm : l = m := by
          rcases List.mem_cons.mp h with h | h
          · exact h
          · exact absurd h hl
        exact ⟨start, by simp only [hm, if_true]⟩
      | _ => exact absurd h hl

theorem WellFormed.labelFrom? {given : List UInt16} {code : List Instruction}
    (h : WellFormed given code) {i : Instruction} (hi : i ∈ code) {l : Nat}
    (hl : i.target? = some l) : ∃ q, labelFrom? l 0 code = some q := by
  refine labelFrom?_of_mem (List.count_pos_iff.mp ?_) 0
  rw [h.bound i hi l hl]
  exact Nat.one_pos

/-- The stack is as deep as the position says, after any number of steps. -/
private theorem WellFormed.runFrom_sound {given : List UInt16} {code : List Instruction}
    (h : WellFormed given code) {depth : Nat → Nat} (hd : Depths code 0 depth) {m : Machine}
    (hm : m.Fair) (steps : Nat) {heap : Heap} {frame : Frame}
    (hs : frame.stack.length = depth frame.position) :
    Sound (m.runFrom code steps heap frame).2 := by
  induction steps generalizing heap frame with
  | zero =>
    unfold Machine.runFrom
    cases code[frame.position]? with
    | none => exact .ok _
    | some i => exact .error rfl
  | succ steps ih =>
    unfold Machine.runFrom
    cases hi : code[frame.position]? with
    | none => exact .ok _
    | some i =>
      have henough : i.takes ≤ frame.stack.length := by
        have := hd.enough _ _ hi
        omega
      have hsound := Machine.execute_sound hm code heap henough
        fun l hl => h.labelFrom? (List.mem_of_getElem? hi) hl
      simp only
      cases he : m.execute code heap frame i with
      | error e => exact .error (hsound e he)
      | ok next =>
        obtain ⟨heap', frame'⟩ := next
        have hsteps := Machine.execute_steps he
        refine ih ?_
        rw [hsteps.length, hd.step _ _ _ hi (hsteps.passes hi), hs]

/-- A run on well-formed code never wants an operand or a label. -/
theorem WellFormed.run_sound {given : List UInt16} {code : List Instruction}
    (h : WellFormed given code) {m : Machine} (hm : m.Fair) (locals : List Value) :
    Sound (m.run code locals).2 := by
  obtain ⟨depth, hd⟩ := h.depths 0
  exact h.runFrom_sound hd hm m.stepLimit hd.start.symm

/-! ## Well-formed trees -/

/-- The instruction finds its operands on a stack of depth `a` and leaves it at depth `b`. -/
def DepthStep (a : Nat) (i : Instruction) (b : Nat) : Prop :=
  i.takes ≤ a ∧ b = a - i.takes + i.gives

/-- With the slots of `a` stored, the instruction loads one of them or none, and leaves those of
`b` stored. -/
def StoreStep (a : UInt16 → Prop) (i : Instruction) (b : UInt16 → Prop) : Prop :=
  (∀ kind slot, i = .load kind slot → a slot) ∧
    ∀ slot, b slot → a slot ∨ ∃ kind, i = .store kind slot

namespace Block

variable {x : Block}

theorem depths (h : Runs DepthStep 0 x 1) (hn : x.labels.Nodup) (d : Nat) :
    ∃ depth, Depths x.flatten d depth := by
  obtain ⟨depth, h0, hend, hs⟩ :=
    h.assigned (fun a l => ⟨Nat.zero_le a, rfl⟩) (fun a l => ⟨Nat.zero_le a, rfl⟩) hn
  have henough : ∀ p i, x.flatten[p]? = some i → i.takes ≤ depth p := by
    intro p i hi
    by_cases hf : i.falls = true
    · exact (hs p (p + 1) i hi (.next hi hf)).1
    · cases i with
      | jump l => exact Nat.zero_le _
      | _ => exact absurd rfl hf
  refine ⟨fun p => d + depth p, by rw [h0]; rfl, by rw [hend], ?_, ?_⟩
  · intro p i hi
    have := henough p i hi
    omega
  · intro p q i hi hpass
    have := henough p i hi
    have := (hs p q i hi hpass).2
    omega

theorem stored {given : List UInt16} {b : UInt16 → Prop} (h : Runs StoreStep (· ∈ given) x b)
    (hn : x.labels.Nodup) {slot : UInt16} (hg : slot ∉ given) {p : Nat}
    (hp : Unstored x.flatten slot p) (kind : SlotKind) :
    x.flatten[p]? ≠ some (.load kind slot) := by
  have hlabel : ∀ (a : UInt16 → Prop) l, StoreStep a (.label l) a :=
    fun a l => ⟨nofun, fun _ => Or.inl⟩
  have hjump : ∀ (a : UInt16 → Prop) l, StoreStep a (.jump l) a :=
    fun a l => ⟨nofun, fun _ => Or.inl⟩
  obtain ⟨state, h0, -, hs⟩ := h.assigned hlabel hjump hn
  have hnot : ¬ state p slot := by
    induction hp with
    | start => rw [h0]; exact hg
    | step _ hi hne hpass ih =>
      intro hq
      rcases (hs _ _ _ hi hpass).2 slot hq with h | ⟨kind, hk⟩
      · exact ih h
      · exact hne kind hk
  intro hi
  exact hnot ((hs p (p + 1) _ hi (.next hi rfl)).1 kind slot rfl)

/-- A tree whose parts agree in depth and in what is stored flattens to well-formed code. -/
theorem wellFormed {given : List UInt16} {b : UInt16 → Prop} (hd : Runs DepthStep 0 x 1)
    (hs : Runs StoreStep (· ∈ given) x b) (hn : x.labels.Nodup) : WellFormed given x.flatten where
  depths := depths hd hn
  bound := by
    intro i hi l hl
    rw [filterMap_bound?_flatten hd.plain]
    rw [hn.count, if_pos (target_mem_labels hd.plain hi hl)]
  stored slot hg p hp kind := stored hs hn hg hp kind

end Block

end CallSite
