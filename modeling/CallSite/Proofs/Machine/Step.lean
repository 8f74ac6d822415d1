import CallSite.Proofs.Code.Control
import CallSite.Proofs.Machine.Fault

/-!
# Steps

What one step can do, said once for every instruction, and when a step can end in a structural
error.
-/

namespace CallSite

/-- The instruction works on its operands alone: it reads and writes no local slot, makes no object,
calls nothing, jumps nowhere and copies no operand. -/
def Instruction.computes : Instruction → Bool
  | pushNull | push _ | getStatic _ | pop | checkCast _ | getField _ | arrayLength => true
  | arrayLoad _ | convert _ _ => true
  | _ => false

theorem Instruction.falls_of_computes {i : Instruction} (h : i.computes = true) :
    i.falls = true := by
  cases i <;> first | rfl | cases h

theorem Instruction.gives_of_target? {i : Instruction} {l : Nat} (h : i.target? = some l) :
    i.gives = 0 := by
  cases i <;> first | rfl | cases h

theorem Instruction.takes_of_target? {i : Instruction} {l : Nat} (h : i.target? = some l)
    (hf : i.falls = true) : i.takes = 1 := by
  cases i <;> first | rfl | (cases h; done) | cases hf

/-- What a call leaves on the operand stack. -/
def callResults (member : MemberRef) (result : Option Value) : List Value :=
  if Descriptor.returnsVoid member.descriptor then [] else [result.getD .null]

theorem length_callResults (dispatch : Dispatch) (member : MemberRef) (result : Option Value) :
    (callResults member result).length = (Instruction.invoke dispatch member).gives := by
  unfold callResults
  show _ = if Descriptor.returnsVoid member.descriptor then 0 else 1
  split <;> rfl

/-- What a step that succeeds does. -/
inductive Steps (m : Machine) (code : List Instruction) (heap : Heap) (frame : Frame) :
    Instruction → Heap → Frame → Prop
  | compute {i} (results : List Value) : i.computes = true → i.takes ≤ frame.stack.length →
      results.length = i.gives →
      Steps m code heap frame i heap { frame with
        position := frame.position + 1
        stack := results ++ frame.stack.drop i.takes }
  | label {l} : Steps m code heap frame (.label l) heap { frame with position := frame.position + 1 }
  | load {kind slot value} : frame.locals.get? slot = some value →
      Steps m code heap frame (.load kind slot) heap { frame with
        position := frame.position + 1
        stack := value :: frame.stack }
  | store {kind slot value below} : frame.stack = value :: below →
      Steps m code heap frame (.store kind slot) heap
        ⟨frame.locals.store slot value, below, frame.position + 1⟩
  | new {owner} :
      Steps m code heap frame (.new owner) (heap.push (Machine.blankObject owner)) { frame with
        position := frame.position + 1
        stack := .ref heap.size :: frame.stack }
  | dup {value below} : frame.stack = value :: below →
      Steps m code heap frame .dup heap { frame with
        position := frame.position + 1
        stack := value :: value :: below }
  | invoke {dispatch member heap' result} :
      (Instruction.invoke dispatch member).takes ≤ frame.stack.length →
      m.invoke heap dispatch member
        (frame.stack.take (Instruction.invoke dispatch member).takes).reverse =
          .ok (heap', result) →
      Steps m code heap frame (.invoke dispatch member) heap' { frame with
        position := frame.position + 1
        stack := callResults member result ++
          frame.stack.drop (Instruction.invoke dispatch member).takes }
  | pass {i l value below} : i.target? = some l → i.falls = true → frame.stack = value :: below →
      Steps m code heap frame i heap { frame with
        position := frame.position + 1
        stack := below }
  | branch {i l q} : i.target? = some l → labelFrom? l 0 code = some q →
      i.takes ≤ frame.stack.length →
      Steps m code heap frame i heap { frame with
        position := q
        stack := frame.stack.drop i.takes }

namespace Machine

variable {m : Machine} {code : List Instruction} {heap heap' : Heap} {frame frame' : Frame}
  {i : Instruction}

/-- A call takes its operands, runs the member on them and puts its result in their place. -/
theorem execute_invoke (m : Machine) (code : List Instruction) (heap : Heap) (frame : Frame)
    (dispatch : Dispatch) (member : MemberRef) :
    m.execute code heap frame (.invoke dispatch member) =
      if frame.stack.length < (Instruction.invoke dispatch member).takes then
        .error (.stackUnderflow frame.position)
      else match m.invoke heap dispatch member
          (frame.stack.take (Instruction.invoke dispatch member).takes).reverse with
        | .error e => .error e
        | .ok (heap', result) => .ok (heap', { frame with
            position := frame.position + 1
            stack := callResults member result ++
              frame.stack.drop (Instruction.invoke dispatch member).takes }) := by
  have ht : (Instruction.invoke dispatch member).takes =
      Descriptor.argCount member.descriptor + if dispatch = .static then 0 else 1 := rfl
  simp only [execute, ht, callResults]
  generalize (Descriptor.argCount member.descriptor + if dispatch = .static then 0 else 1) = count
  by_cases hlen : frame.stack.length < count
  · rw [if_pos hlen, if_pos hlen]
  · rw [if_neg hlen, if_neg hlen]
    generalize m.invoke heap dispatch member _ = r
    cases r with
    | error e => rfl
    | ok r => cases Descriptor.returnsVoid member.descriptor <;> rfl

/-- A call on operands that are on top of the stack, the first of them lowest. -/
theorem execute_operands (m : Machine) (code : List Instruction) (heap : Heap) (locals : Locals)
    {dispatch : Dispatch} {member : MemberRef} (operands : List Value)
    (htakes : (Instruction.invoke dispatch member).takes = operands.length) (below : List Value)
    (position : Nat) :
    m.execute code heap ⟨locals, operands.reverse ++ below, position⟩ (.invoke dispatch member) =
      (m.invoke heap dispatch member operands).map fun (later, result) =>
        (later, ⟨locals, callResults member result ++ below, position + 1⟩) := by
  have htakes' : (Instruction.invoke dispatch member).takes = operands.reverse.length :=
    htakes.trans List.length_reverse.symm
  have henough : ¬ (operands.reverse ++ below).length < operands.reverse.length := by
    rw [List.length_append]
    omega
  rw [execute_invoke, htakes']
  simp only [if_neg henough, List.take_left, List.drop_left, List.reverse_reverse]
  cases m.invoke heap dispatch member operands <;> rfl

private theorem steps_of_jumpTo {l : Nat} {frame₁ : Frame} (hl : i.target? = some l)
    (ht : i.takes ≤ frame.stack.length)
    (hf : frame₁ = { frame with
      position := frame.position + 1
      stack := frame.stack.drop i.takes })
    (h : (jumpTo code l frame₁).map (fun frame => (heap, frame)) = .ok (heap', frame')) :
    Steps m code heap frame i heap' frame' := by
  unfold jumpTo at h
  split at h
  · rename_i q hq
    cases h
    subst hf
    exact .branch hl hq ht
  · cases h

/-- A step that succeeds does one of the things a step can do. -/
theorem execute_steps (h : m.execute code heap frame i = .ok (heap', frame')) :
    Steps m code heap frame i heap' frame' := by
  obtain ⟨locals, stack, position⟩ := frame
  cases i with
  | label l => cases h; exact .label
  | pushNull => cases h; exact .compute [_] rfl (Nat.zero_le _) rfl
  | push literal => cases h; exact .compute [_] rfl (Nat.zero_le _) rfl
  | new owner => cases h; exact .new
  | load kind slot =>
    simp only [execute] at h
    split at h
    · rename_i hv
      cases h
      exact .load hv
    · cases h
  | store kind slot =>
    cases stack with
    | nil => cases h
    | cons value below => cases h; exact .store rfl
  | dup =>
    cases stack with
    | nil => cases h
    | cons value below => cases h; exact .dup rfl
  | pop =>
    cases stack with
    | nil => cases h
    | cons value below => cases h; exact .compute [] rfl (by simp [Instruction.takes]) rfl
  | checkCast target =>
    cases stack with
    | nil => cases h
    | cons value below =>
      simp only [execute] at h
      split at h
      · cases h
        exact .compute [value] rfl (by simp [Instruction.takes]) rfl
      · cases h
  | getField member =>
    cases stack with
    | nil => cases h
    | cons receiver below =>
      simp only [execute] at h
      cases ho : heap.deref receiver ("getfield " ++ member.owner ++ "." ++ member.name) with
      | error e => rw [ho] at h; cases h
      | ok object =>
        rw [ho] at h
        simp only [bind, Except.bind] at h
        split at h
        · cases h
          exact .compute [_] rfl (by simp [Instruction.takes]) rfl
        · cases h
  | getStatic member =>
    simp only [execute] at h
    split at h
    · cases h
      exact .compute [_] rfl (Nat.zero_le _) rfl
    · cases h
  | invoke dispatch member =>
    rw [execute_invoke] at h
    split at h
    · cases h
    · rename_i hlen
      split at h
      · cases h
      · rename_i hr
        cases h
        exact .invoke (Nat.le_of_not_lt hlen) hr
  | arrayLength =>
    cases stack with
    | nil => cases h
    | cons array below =>
      simp only [execute] at h
      cases ho : heap.deref array "arraylength" with
      | error e => rw [ho] at h; cases h
      | ok object =>
        rw [ho] at h
        simp only [bind, Except.bind] at h
        split at h
        · cases h
          exact .compute [_] rfl (by simp [Instruction.takes]) rfl
        · cases h
  | arrayLoad element =>
    match stack with
    | [] => cases h
    | [index] => cases h
    | index :: array :: below =>
      simp only [execute] at h
      cases ho : arrayElement heap array index with
      | error e => rw [ho] at h; cases h
      | ok item =>
        rw [ho] at h
        cases h
        exact .compute [_] rfl (by simp [Instruction.takes]) rfl
  | convert source target =>
    cases stack with
    | nil => cases h
    | cons value below =>
      simp only [execute] at h
      split at h
      · cases h
        exact .compute [_] rfl (by simp [Instruction.takes]) rfl
      · cases h
  | jumpIfZero l =>
    cases stack with
    | nil => cases h
    | cons value below =>
      simp only [execute] at h
      split at h
      · exact steps_of_jumpTo rfl (by simp [Instruction.takes]) rfl h
      · cases h
        exact .pass rfl rfl rfl
  | jumpIfNull l =>
    cases stack with
    | nil => cases h
    | cons value below =>
      simp only [execute] at h
      split at h
      · exact steps_of_jumpTo rfl (by simp [Instruction.takes]) rfl h
      · cases h
        exact .pass rfl rfl rfl
  | jump l => exact steps_of_jumpTo rfl (Nat.zero_le _) rfl h

end Machine

namespace Steps

variable {m : Machine} {code : List Instruction} {heap heap' : Heap} {frame frame' : Frame}
  {i : Instruction}

/-- The operands that an instruction takes are there. -/
theorem enough (h : Steps m code heap frame i heap' frame') : i.takes ≤ frame.stack.length := by
  cases h with
  | compute _ _ ht _ => exact ht
  | label => exact Nat.zero_le _
  | load _ => exact Nat.zero_le _
  | store hs => rw [hs]; exact Nat.succ_le_succ (Nat.zero_le _)
  | new => exact Nat.zero_le _
  | dup hs => rw [hs]; exact Nat.succ_le_succ (Nat.zero_le _)
  | invoke ht _ => exact ht
  | pass ht hf hs => rw [hs, Instruction.takes_of_target? ht hf]; exact Nat.succ_le_succ (Nat.zero_le _)
  | branch _ _ ht => exact ht

theorem length (h : Steps m code heap frame i heap' frame') :
    frame'.stack.length = frame.stack.length - i.takes + i.gives := by
  cases h with
  | compute _ _ _ hr => simp only [List.length_append, List.length_drop, hr]; omega
  | label => rfl
  | load _ => rfl
  | store hs => rw [hs]; rfl
  | new => rfl
  | dup hs => rw [hs]; rfl
  | invoke _ _ =>
    rename_i dispatch member result _ _
    simp only [List.length_append, List.length_drop, length_callResults dispatch member result]
    omega
  | pass ht hf hs =>
    rw [hs, Instruction.takes_of_target? ht hf, Instruction.gives_of_target? ht]
    rfl
  | branch ht _ _ =>
    rw [Instruction.gives_of_target? ht]
    simp only [List.length_drop]
    omega

/-- A step follows the code. -/
theorem passes (hi : code[frame.position]? = some i)
    (h : Steps m code heap frame i heap' frame') :
    Passes code frame.position frame'.position := by
  cases h with
  | compute _ hc _ _ => exact .next hi (Instruction.falls_of_computes hc)
  | pass _ hf _ => exact .next hi hf
  | branch ht hq _ => exact .jump hi ht hq
  | _ => exact .next hi rfl

end Steps

namespace Machine

private theorem jumpTo_sound {code : List Instruction} {l : Nat} (frame : Frame)
    (hl : ∃ q, labelFrom? l 0 code = some q) : Sound (jumpTo code l frame) := by
  obtain ⟨q, hq⟩ := hl
  unfold jumpTo
  rw [hq]
  exact .ok _

/-- With its operands on the stack and its labels bound, an instruction fails for reasons of its
own only. -/
theorem execute_sound {m : Machine} (hm : m.Fair) (code : List Instruction) (heap : Heap)
    {frame : Frame} {i : Instruction} (ht : i.takes ≤ frame.stack.length)
    (hl : ∀ l, i.target? = some l → ∃ q, labelFrom? l 0 code = some q) :
    Sound (m.execute code heap frame i) := by
  obtain ⟨locals, stack, position⟩ := frame
  cases i with
  | label | pushNull | push | new => exact .ok _
  | load kind slot =>
    simp only [execute]
    split
    · exact .ok _
    · exact .error rfl
  | store kind slot =>
    obtain ⟨value, below, rfl⟩ := List.length_pos_iff_exists_cons.mp ht
    exact .ok _
  | dup =>
    obtain ⟨value, below, rfl⟩ := List.length_pos_iff_exists_cons.mp ht
    exact .ok _
  | pop =>
    obtain ⟨value, below, rfl⟩ := List.length_pos_iff_exists_cons.mp ht
    exact .ok _
  | checkCast target =>
    obtain ⟨value, below, rfl⟩ := List.length_pos_iff_exists_cons.mp ht
    simp only [execute]
    split
    · exact .ok _
    · exact .error rfl
  | getField member =>
    obtain ⟨receiver, below, rfl⟩ := List.length_pos_iff_exists_cons.mp ht
    refine (heap.deref_sound receiver _).bind fun object => ?_
    split
    · exact .ok _
    · exact .error rfl
  | getStatic member =>
    simp only [execute]
    split
    · exact .ok _
    · exact .error rfl
  | invoke dispatch member =>
    rw [execute_invoke, if_neg (Nat.not_lt.mpr ht)]
    have hargs : dispatch = .static ∨
        (stack.take (Instruction.invoke dispatch member).takes).reverse ≠ [] := by
      by_cases hd : dispatch = .static
      · exact Or.inl hd
      · refine Or.inr fun hnil => ?_
        have hlen := congrArg List.length hnil
        rw [List.length_reverse, List.length_take, List.length_nil] at hlen
        simp only [Instruction.takes, if_neg hd] at hlen ht
        omega
    have hr := invoke_sound hm heap dispatch member hargs
    generalize m.invoke heap dispatch member _ = r at hr
    cases r with
    | ok r => exact .ok _
    | error e => exact .error (hr e rfl)
  | arrayLength =>
    obtain ⟨array, below, rfl⟩ := List.length_pos_iff_exists_cons.mp ht
    refine (heap.deref_sound array _).bind fun object => ?_
    split
    · exact .ok _
    · exact .error rfl
  | arrayLoad element =>
    match stack, ht with
    | index :: array :: below, _ =>
      refine Sound.bind ?_ fun item => .ok _
      unfold arrayElement
      split
      · refine (heap.deref_sound array _).bind fun object => ?_
        split
        · split
          · exact .ok _
          · exact .error rfl
        · exact .error rfl
      · exact .error rfl
  | convert source target =>
    obtain ⟨value, below, rfl⟩ := List.length_pos_iff_exists_cons.mp ht
    simp only [execute]
    split
    · exact .ok _
    · exact .error rfl
  | jumpIfZero l =>
    obtain ⟨value, below, rfl⟩ := List.length_pos_iff_exists_cons.mp ht
    simp only [execute]
    split
    · exact (jumpTo_sound _ (hl l rfl)).map _
    · exact .ok _
  | jumpIfNull l =>
    obtain ⟨value, below, rfl⟩ := List.length_pos_iff_exists_cons.mp ht
    simp only [execute]
    split
    · exact (jumpTo_sound _ (hl l rfl)).map _
    · exact .ok _
  | jump l => exact (jumpTo_sound _ (hl l rfl)).map _

end Machine

end CallSite
