import CallSite.Proofs.Machine.Step
import Mathlib.Data.List.Forall2

/-!
# Code that runs alike

Two codes that bind the same labels at the same places and do the same at every place run in the
same way, through loops and branches as well.
-/

namespace CallSite

/-- On `m` the second instruction does what the first does, wherever they stand. -/
structure Instruction.ActsAs (m : Machine) (i i' : Instruction) : Prop where
  bound : i'.bound? = i.bound?
  execute : ∀ code heap frame, m.execute code heap frame i' = m.execute code heap frame i

theorem Instruction.ActsAs.refl (m : Machine) (i : Instruction) : i.ActsAs m i :=
  ⟨rfl, fun _ _ _ => rfl⟩

/-- The last instruction that binds a label counts. -/
theorem labelFrom?_cons (l start : Nat) (i : Instruction) (is : List Instruction) :
    labelFrom? l start (i :: is) = (labelFrom? l (start + 1) is).or
      (if i.bound? = some l then some start else none) := by
  rw [labelFrom?.eq_def]
  dsimp only
  cases labelFrom? l (start + 1) is with
  | some position => rfl
  | none => cases i <;> simp [Instruction.bound?]

variable {m : Machine} {code code' : List Instruction}

private theorem labelFrom?_congr (h : List.Forall₂ (Instruction.ActsAs m) code code')
    (l start : Nat) : labelFrom? l start code' = labelFrom? l start code := by
  induction h generalizing start with
  | nil => rfl
  | cons hi _ ih => rw [labelFrom?_cons, labelFrom?_cons, ih, hi.bound]

/-- At every place there is nothing in either code, or instructions that act alike. -/
private theorem getElem?_congr (h : List.Forall₂ (Instruction.ActsAs m) code code')
    (position : Nat) : (code[position]? = none ∧ code'[position]? = none) ∨
      ∃ i i', code[position]? = some i ∧ code'[position]? = some i' ∧ i.ActsAs m i' := by
  by_cases hlt : position < code.length
  · have hlt' : position < code'.length := h.length_eq ▸ hlt
    exact Or.inr ⟨_, _, List.getElem?_eq_getElem hlt, List.getElem?_eq_getElem hlt', h.get hlt hlt'⟩
  · have hge : code.length ≤ position := Nat.le_of_not_lt hlt
    exact Or.inl ⟨List.getElem?_eq_none hge, List.getElem?_eq_none (h.length_eq ▸ hge)⟩

namespace Machine

private theorem execute_congr (h : List.Forall₂ (Instruction.ActsAs m) code code')
    {i i' : Instruction} (hi : i.ActsAs m i') (heap : Heap) (frame : Frame) :
    m.execute code' heap frame i' = m.execute code heap frame i := by
  have hjump : jumpTo code' = jumpTo code := by
    funext l frame
    unfold jumpTo
    rw [labelFrom?_congr h]
  rw [hi.execute]
  cases i with
  | jumpIfZero l => simp only [execute, hjump]
  | jumpIfNull l => simp only [execute, hjump]
  | jump l => simp only [execute, hjump]
  | _ => rfl

/-- The runs go step by step together, and so end together. -/
private theorem runFrom_congr (h : List.Forall₂ (Instruction.ActsAs m) code code') (steps : Nat)
    (heap : Heap) (frame : Frame) :
    m.runFrom code' steps heap frame = m.runFrom code steps heap frame := by
  induction steps generalizing heap frame with
  | zero =>
    unfold runFrom
    rcases getElem?_congr h frame.position with ⟨hi, hi'⟩ | ⟨i, i', hi, hi', -⟩
    · rw [hi, hi']
    · rw [hi, hi']
  | succ steps ih =>
    unfold runFrom
    rcases getElem?_congr h frame.position with ⟨hi, hi'⟩ | ⟨i, i', hi, hi', hacts⟩
    · rw [hi, hi']
    · simp only [hi, hi', execute_congr h hacts, ih]

theorem run_congr (h : List.Forall₂ (Instruction.ActsAs m) code code') (locals : List Value) :
    m.run code' locals = m.run code locals := by
  unfold run
  rw [runFrom_congr h]

end Machine

end CallSite
