import CallSite.Proofs.Machine.Effect
import CallSite.Proofs.Machine.Extension

/-!
# Ownership

Code that adds only to objects it has made itself changes no object that was there before. What
the code knows of its operands and slots is written down for every position; a step keeps it true.
-/

namespace CallSite

/-- The states of a run of `code` that starts in the first. -/
inductive Reaches (m : Machine) (code : List Instruction) (heap : Heap) (frame : Frame) :
    Heap → Frame → Prop
  | refl : Reaches m code heap frame heap frame
  | step {heap₁ frame₁ heap₂ frame₂ i} : Reaches m code heap frame heap₁ frame₁ →
      code[frame₁.position]? = some i → m.execute code heap₁ frame₁ i = .ok (heap₂, frame₂) →
      Reaches m code heap frame heap₂ frame₂

namespace Reaches

variable {m : Machine} {code : List Instruction}

theorem head {heap heap₁ heap₂ : Heap} {frame frame₁ frame₂ : Frame} {i : Instruction}
    (hi : code[frame.position]? = some i)
    (he : m.execute code heap frame i = .ok (heap₁, frame₁))
    (h : Reaches m code heap₁ frame₁ heap₂ frame₂) : Reaches m code heap frame heap₂ frame₂ := by
  induction h with
  | refl => exact .step .refl hi he
  | step _ hj hs ih => exact .step ih hj hs

theorem trans {heap heap₁ heap₂ : Heap} {frame frame₁ frame₂ : Frame}
    (h : Reaches m code heap frame heap₁ frame₁) (h' : Reaches m code heap₁ frame₁ heap₂ frame₂) :
    Reaches m code heap frame heap₂ frame₂ := by
  induction h' with
  | refl => exact h
  | step _ hi he ih => exact .step ih hi he

/-- However a run ends, its heap is that of a state it was in. -/
theorem of_runFrom (steps : Nat) (heap : Heap) (frame : Frame) :
    ∃ last, Reaches m code heap frame (m.runFrom code steps heap frame).1 last := by
  induction steps generalizing heap frame with
  | zero =>
    unfold Machine.runFrom
    cases code[frame.position]? with
    | none => exact ⟨frame, .refl⟩
    | some i => exact ⟨frame, .refl⟩
  | succ steps ih =>
    unfold Machine.runFrom
    cases hi : code[frame.position]? with
    | none => exact ⟨frame, .refl⟩
    | some i =>
      simp only
      cases he : m.execute code heap frame i with
      | error e => exact ⟨frame, .refl⟩
      | ok next =>
        obtain ⟨last, hl⟩ := ih next.1 next.2
        exact ⟨last, .head hi he hl⟩

end Reaches

/-! ## What is known at a position -/

/-- Which operands refer to objects made by the code itself, topmost first, and which slots do. -/
structure Holding where
  operands : List Bool
  slots : UInt16 → Prop

/-- The instruction leads from one holding to the next. It stores to no slot below `first`, and if
it adds to a list, the code has made that list. -/
inductive OwnStep (first : Nat) : Holding → Instruction → Holding → Prop
  | compute {ops slots i} : i.computes = true →
      OwnStep first ⟨ops, slots⟩ i ⟨List.replicate i.gives false ++ ops.drop i.takes, slots⟩
  | label {a l} : OwnStep first a (.label l) a
  | branch {ops slots i l} : i.target? = some l →
      OwnStep first ⟨ops, slots⟩ i ⟨ops.drop i.takes, slots⟩
  | load {ops slots slots' kind slot} {owned : Bool} : (owned = true → slots slot) →
      (∀ t, slots' t → slots t) →
      OwnStep first ⟨ops, slots⟩ (.load kind slot) ⟨owned :: ops, slots'⟩
  | store {ops slots slots' kind slot owned} : first ≤ slot.toNat →
      (∀ t, slots' t → if t = slot then owned = true else slots t) →
      OwnStep first ⟨owned :: ops, slots⟩ (.store kind slot) ⟨ops, slots'⟩
  | new {ops slots owner} : OwnStep first ⟨ops, slots⟩ (.new owner) ⟨true :: ops, slots⟩
  | dup {ops slots owned} :
      OwnStep first ⟨owned :: ops, slots⟩ .dup ⟨owned :: owned :: ops, slots⟩
  | invoke {ops slots dispatch member} :
      (dispatch = .static ∨ member.name ≠ "add" ∨
        ops[Descriptor.argCount member.descriptor]? = some true) →
      OwnStep first ⟨ops, slots⟩ (.invoke dispatch member)
        ⟨List.replicate (Instruction.invoke dispatch member).gives false ++
          ops.drop (Instruction.invoke dispatch member).takes, slots⟩

private theorem OwnStep.of_computes {first : Nat} {a b : Holding} {i : Instruction}
    (h : OwnStep first a i b) (hc : i.computes = true) :
    b = ⟨List.replicate i.gives false ++ a.operands.drop i.takes, a.slots⟩ := by
  cases h with
  | compute _ => rfl
  | branch ht => cases i <;> first | (cases hc; done) | cases ht
  | _ => cases hc

private theorem OwnStep.of_target? {first : Nat} {a b : Holding} {i : Instruction} {l : Nat}
    (h : OwnStep first a i b) (ht : i.target? = some l) :
    b = ⟨a.operands.drop i.takes, a.slots⟩ := by
  cases h with
  | compute hc => cases i <;> first | (cases hc; done) | cases ht
  | branch _ => rfl
  | _ => cases ht

/-- `value` refers to an object that `heap` does not have. -/
def Value.Beyond (heap : Heap) (value : Value) : Prop := ∃ p, value = .ref p ∧ heap.size ≤ p

/-- The operands that are said to be new refer to objects that `heap` does not have. -/
def NewOperands (heap : Heap) (ops : List Bool) (stack : List Value) : Prop :=
  ∀ k : Nat, ops[k]? = some true → ∃ value : Value, stack[k]? = some value ∧ value.Beyond heap

theorem NewOperands.cons {heap : Heap} {ops : List Bool} {stack : List Value} {owned : Bool}
    {value : Value} (h : NewOperands heap ops stack) (hv : owned = true → value.Beyond heap) :
    NewOperands heap (owned :: ops) (value :: stack) := by
  intro k hk
  cases k with
  | zero => exact ⟨value, rfl, hv (Option.some.inj hk)⟩
  | succ k => exact h k hk

theorem NewOperands.tail {heap : Heap} {ops : List Bool} {stack : List Value} {owned : Bool}
    {value : Value} (h : NewOperands heap (owned :: ops) (value :: stack)) :
    NewOperands heap ops stack := fun k hk => h (k + 1) hk

/-- Nothing is said of the results of a step. -/
theorem NewOperands.replaced {heap : Heap} {ops : List Bool} {stack : List Value}
    (h : NewOperands heap ops stack) (results : List Value) (n : Nat) :
    NewOperands heap (List.replicate results.length false ++ ops.drop n)
      (results ++ stack.drop n) := by
  intro k hk
  rw [List.getElem?_append, List.length_replicate] at hk
  rw [List.getElem?_append]
  split at hk
  · rename_i hlt
    rw [List.getElem?_replicate, if_pos hlt] at hk
    cases hk
  · rename_i hge
    rw [if_neg hge]
    rw [List.getElem?_drop] at hk ⊢
    exact h _ hk

/-- The state of a run that started with `heap₀` and `locals₀`: what was there then is there still,
and what `a` says to be new is new. -/
structure Keeps (heap₀ : Heap) (locals₀ : Locals) (first : Nat) (a : Holding) (heap : Heap)
    (frame : Frame) : Prop where
  objects : ∀ p, p < heap₀.size → heap[p]? = heap₀[p]?
  grown : heap₀.size ≤ heap.size
  slots : ∀ slot : UInt16, slot.toNat < first → frame.locals.get? slot = locals₀.get? slot
  newOperands : NewOperands heap₀ a.operands frame.stack
  newSlots : ∀ slot, a.slots slot →
    ∃ value : Value, frame.locals.get? slot = some value ∧ value.Beyond heap₀

namespace Keeps

variable {heap₀ : Heap} {locals₀ : Locals} {first : Nat} {a b : Holding} {heap heap' : Heap}
  {frame : Frame}

/-- New objects come after all others. -/
private theorem push (h : Keeps heap₀ locals₀ first a heap frame) (object : HeapObject) {p : Nat}
    (hp : p < heap₀.size) : (heap.push object)[p]? = heap₀[p]? := by
  have hlt : p < heap.size := Nat.lt_of_lt_of_le hp h.grown
  rw [(Heap.extends_push heap object).objects p hlt, h.objects p hp]

/-- A call touches no object of `heap₀`: iterators are new, since `heap₀` has none, and so is the
list that is added to. -/
private theorem touched (h : Keeps heap₀ locals₀ first a heap frame)
    (hno : ∀ (p : Nat) items k, heap₀[p]? ≠ some (.iterator items k)) {name : String} {args : List Value}
    (ht : Touches heap name args heap')
    (hadd : name = "add" → ∀ value, args.head? = some value → value.Beyond heap₀) :
    (∀ p, p < heap₀.size → heap'[p]? = heap₀[p]?) ∧ heap₀.size ≤ heap'.size := by
  cases ht with
  | same => exact ⟨h.objects, h.grown⟩
  | iterator _ =>
    refine ⟨fun p hp => h.push _ hp, ?_⟩
    rw [Array.size_push]
    exact Nat.le_succ_of_le h.grown
  | @next place items k _ hplace =>
    refine ⟨fun p hp => ?_, by rw [Array.size_setIfInBounds]; exact h.grown⟩
    have hne : place ≠ p := by
      rintro rfl
      exact hno place items k ((h.objects place hp).symm.trans hplace)
    rw [Array.getElem?_setIfInBounds_ne hne, h.objects p hp]
  | @add place items _ hname hhead _ =>
    refine ⟨fun p hp => ?_, by rw [Array.size_setIfInBounds]; exact h.grown⟩
    obtain ⟨q, hq, hbeyond⟩ := hadd hname _ hhead
    cases hq
    have hne : place ≠ p := by omega
    rw [Array.getElem?_setIfInBounds_ne hne, h.objects p hp]

/-- The receiver of a call lies below its arguments. -/
private theorem receiver_eq {stack : List Value} {dispatch : Dispatch} {member : MemberRef}
    (hd : dispatch ≠ .static)
    (hlen : (Instruction.invoke dispatch member).takes ≤ stack.length) :
    (stack.take (Instruction.invoke dispatch member).takes).reverse.head? =
      stack[Descriptor.argCount member.descriptor]? := by
  have ht : (Instruction.invoke dispatch member).takes =
      Descriptor.argCount member.descriptor + 1 := by
    simp only [Instruction.takes, if_neg hd]
  rw [ht] at hlen ⊢
  rw [List.head?_reverse, List.getLast?_eq_getElem?, List.length_take, Nat.min_eq_left hlen,
    Nat.add_sub_cancel, List.getElem?_take, if_pos (Nat.lt_succ_self _)]

/-- A step keeps what is known. -/
theorem step {m : Machine} {code : List Instruction} {i : Instruction} {frame' : Frame}
    (h : Keeps heap₀ locals₀ first a heap frame) (hm : m.Quiet)
    (hno : ∀ (p : Nat) items k, heap₀[p]? ≠ some (.iterator items k)) (ho : OwnStep first a i b)
    (hs : Steps m code heap frame i heap' frame') :
    Keeps heap₀ locals₀ first b heap' frame' := by
  obtain ⟨hobjects, hgrown, hslots, hoperands, hnew⟩ := id h
  cases hs with
  | @compute _ results hc _ hr =>
    rw [ho.of_computes hc, ← hr]
    exact ⟨hobjects, hgrown, hslots, hoperands.replaced results _, hnew⟩
  | label =>
    cases ho with
    | label => exact ⟨hobjects, hgrown, hslots, hoperands, hnew⟩
    | compute hc => cases hc
    | branch ht => cases ht
  | load hv =>
    cases ho with
    | load howned hsub =>
      refine ⟨hobjects, hgrown, hslots, hoperands.cons fun ht => ?_, fun t ht => hnew t (hsub t ht)⟩
      obtain ⟨value, hvalue, hbeyond⟩ := hnew _ (howned ht)
      cases hv.symm.trans hvalue
      exact hbeyond
    | compute hc => cases hc
    | branch ht => cases ht
  | @store kind slot value below hstack =>
    cases ho with
    | @store ops slots slots' _ _ owned hfirst hsub =>
      rw [hstack] at hoperands
      refine ⟨hobjects, hgrown, fun t ht => ?_, hoperands.tail, fun t ht => ?_⟩
      · have hne : t ≠ slot := by
          rintro rfl
          omega
        rw [Locals.get?_store_ne _ _ hne]
        exact hslots t ht
      · have hs := hsub t ht
        split at hs
        · rename_i he
          obtain ⟨first, hfirst, hbeyond⟩ := hoperands 0 (by rw [hs]; rfl)
          cases hfirst
          exact ⟨value, by rw [he, Locals.get?_store_self], hbeyond⟩
        · rename_i hne
          rw [Locals.get?_store_ne _ _ hne]
          exact hnew t hs
    | compute hc => cases hc
    | branch ht => cases ht
  | new =>
    cases ho with
    | new =>
      refine ⟨fun p hp => h.push _ hp, ?_, hslots, hoperands.cons fun _ => ?_, hnew⟩
      · rw [Array.size_push]
        exact Nat.le_succ_of_le hgrown
      · exact ⟨heap.size, rfl, hgrown⟩
    | compute hc => cases hc
    | branch ht => cases ht
  | @dup value below hstack =>
    cases ho with
    | @dup ops slots owned =>
      rw [hstack] at hoperands
      refine ⟨hobjects, hgrown, hslots, hoperands.cons fun ht => ?_, hnew⟩
      obtain ⟨first, hfirst, hbeyond⟩ := hoperands 0 (by rw [ht]; rfl)
      cases hfirst
      exact hbeyond
    | compute hc => cases hc
    | branch ht => cases ht
  | @invoke dispatch member heap' result hlen hr =>
    cases ho with
    | @invoke ops slots _ _ hadd =>
      obtain ⟨htouches, hstatic⟩ := Machine.invoke_touches hm hr
      have hheap : (∀ p, p < heap₀.size → heap'[p]? = heap₀[p]?) ∧ heap₀.size ≤ heap'.size := by
        by_cases hd : dispatch = .static
        · rw [hstatic hd]
          exact ⟨hobjects, hgrown⟩
        · refine h.touched hno htouches fun hname value hhead => ?_
          rw [receiver_eq hd hlen] at hhead
          have hmark := (hadd.resolve_left hd).resolve_left (fun hne => hne hname)
          obtain ⟨found, hfound, hbeyond⟩ := hoperands _ hmark
          cases hfound.symm.trans hhead
          exact hbeyond
      refine ⟨hheap.1, hheap.2, hslots, ?_, hnew⟩
      rw [← length_callResults dispatch member result]
      exact hoperands.replaced _ _
    | compute hc => cases hc
    | branch ht => cases ht
  | @pass _ _ value below ht hf hstack =>
    rw [ho.of_target? ht, Instruction.takes_of_target? ht hf]
    refine ⟨hobjects, hgrown, hslots, ?_, hnew⟩
    have hdrop := hoperands.replaced [] 1
    rw [hstack] at hdrop
    exact hdrop
  | branch ht _ _ =>
    rw [ho.of_target? ht]
    exact ⟨hobjects, hgrown, hslots, hoperands.replaced [] _, hnew⟩

end Keeps

/-! ## Runs -/

/-- Code with a holding at every position changes no old object and no slot below `first`. -/
theorem Assigned.keeps {first : Nat} {code : List Instruction} {state : Nat → Holding}
    (hc : Assigned (OwnStep first) code state) {m : Machine} (hm : m.Quiet) {heap : Heap}
    (hno : ∀ (p : Nat) items k, heap[p]? ≠ some (.iterator items k)) {frame : Frame}
    (h0 : Keeps heap frame.locals first (state frame.position) heap frame) {heap' : Heap}
    {frame' : Frame} (h : Reaches m code heap frame heap' frame') :
    Keeps heap frame.locals first (state frame'.position) heap' frame' := by
  induction h with
  | refl => exact h0
  | step _ hi he ih =>
    have hs := Machine.execute_steps he
    exact ih.step hm hno (hc _ _ _ hi (hs.passes hi)) hs

end CallSite
