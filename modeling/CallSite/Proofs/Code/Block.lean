import CallSite.Descriptor
import CallSite.Instruction

/-!
# Structured code

Written code jumps in two ways only: over the code for a null receiver, and around the loop that
collects from a list. A block is such code as a tree; `flatten` is the instruction list. What an
instruction takes from the operand stack and leaves there is read off the instruction alone.
-/

namespace CallSite

namespace Instruction

/-- The operands an instruction takes from the stack. -/
def takes : Instruction → Nat
  | label _ | pushNull | push _ | load _ _ | new _ | getStatic _ | jump _ => 0
  | store _ _ | dup | pop | checkCast _ | getField _ | arrayLength | convert _ _ => 1
  | jumpIfZero _ | jumpIfNull _ => 1
  | arrayLoad _ => 2
  | invoke dispatch member =>
    Descriptor.argCount member.descriptor + if dispatch = .static then 0 else 1

/-- The operands an instruction leaves in place of those it takes. -/
def gives : Instruction → Nat
  | label _ | store _ _ | pop | jumpIfZero _ | jumpIfNull _ | jump _ => 0
  | pushNull | push _ | load _ _ | new _ | getStatic _ => 1
  | checkCast _ | getField _ | arrayLength | arrayLoad _ | convert _ _ => 1
  | dup => 2
  | invoke _ member => if Descriptor.returnsVoid member.descriptor then 0 else 1

/-- The label that an instruction may jump to. -/
def target? : Instruction → Option Nat
  | jumpIfZero l | jumpIfNull l | jump l => some l
  | _ => none

/-- The label that an instruction binds. -/
def bound? : Instruction → Option Nat
  | label l => some l
  | _ => none

/-- The instruction after this one may be the next to run. -/
def falls : Instruction → Bool
  | jump _ => false
  | _ => true

/-- Neither a jump nor a label. -/
def isPlain : Instruction → Bool
  | label _ | jumpIfZero _ | jumpIfNull _ | jump _ => false
  | _ => true

theorem target?_of_isPlain {i : Instruction} (h : i.isPlain = true) : i.target? = none := by
  cases i <;> first | rfl | cases h

theorem bound?_of_isPlain {i : Instruction} (h : i.isPlain = true) : i.bound? = none := by
  cases i <;> first | rfl | cases h

end Instruction

/-- Code as a tree. -/
inductive Block where
  /-- Instructions that run one after another. -/
  | code (is : List Instruction)
  | seq (first second : Block)
  /-- `body` on a topmost operand other than null; null in place of null. -/
  | orNull (onNull done : Nat) (body : Block)
  /-- `head` leaves a truth value; `body` runs and the loop starts again while it is true. -/
  | loop (test exit : Nat) (head body : Block)

namespace Block

def flatten : Block → List Instruction
  | code is => is
  | seq x y => x.flatten ++ y.flatten
  | orNull onNull done body =>
    .dup :: .jumpIfNull onNull :: (body.flatten ++
      [.jump done, .label onNull, .pop, .pushNull, .label done])
  | loop test exit head body =>
    .label test :: (head.flatten ++
      .jumpIfZero exit :: (body.flatten ++ [.jump test, .label exit]))

/-- The labels of a block, in the order in which they are bound. -/
def labels : Block → List Nat
  | code _ => []
  | seq x y => x.labels ++ y.labels
  | orNull onNull done body => body.labels ++ [onNull, done]
  | loop test exit head body => test :: (head.labels ++ (body.labels ++ [exit]))

/-- The straight parts of the block hold neither jumps nor labels. -/
def Plain : Block → Prop
  | code is => ∀ i ∈ is, i.isPlain = true
  | seq x y => x.Plain ∧ y.Plain
  | orNull _ _ body => body.Plain
  | loop _ _ head body => head.Plain ∧ body.Plain

private theorem filterMap_bound?_of_plain {is : List Instruction}
    (h : ∀ i ∈ is, i.isPlain = true) : is.filterMap Instruction.bound? = [] := by
  rw [List.filterMap_eq_nil_iff]
  exact fun i hi => Instruction.bound?_of_isPlain (h i hi)

/-- A block binds its own labels and no others. -/
theorem filterMap_bound?_flatten {x : Block} (h : x.Plain) :
    x.flatten.filterMap Instruction.bound? = x.labels := by
  induction x with
  | code is => exact filterMap_bound?_of_plain h
  | seq x y ihx ihy =>
    simp only [flatten, labels, List.filterMap_append, ihx h.1, ihy h.2]
  | orNull onNull done body ih =>
    simp only [flatten, labels, List.filterMap_cons, List.filterMap_append, Instruction.bound?,
      List.filterMap_nil, ih h]
  | loop test exit head body ihh ihb =>
    simp only [flatten, labels, List.filterMap_cons, List.filterMap_append, Instruction.bound?,
      List.filterMap_nil, ihh h.1, ihb h.2]

/-- A block jumps to its own labels only. -/
theorem target_mem_labels {x : Block} (h : x.Plain) {i : Instruction} (hi : i ∈ x.flatten)
    {l : Nat} (hl : i.target? = some l) : l ∈ x.labels := by
  induction x with
  | code is => rw [Instruction.target?_of_isPlain (h i hi)] at hl; cases hl
  | seq x y ihx ihy =>
    rcases List.mem_append.mp hi with hi | hi
    · exact List.mem_append_left _ (ihx h.1 hi)
    · exact List.mem_append_right _ (ihy h.2 hi)
  | orNull onNull done body ih =>
    simp only [flatten, List.mem_cons, List.mem_append, List.not_mem_nil, or_false] at hi
    simp only [labels, List.mem_append, List.mem_cons, List.not_mem_nil, or_false]
    rcases hi with rfl | rfl | hi | rfl | rfl | rfl | rfl | rfl
    · cases hl
    · cases hl; simp
    · exact Or.inl (ih h hi)
    · cases hl; simp
    all_goals cases hl
  | loop test exit head body ihh ihb =>
    simp only [flatten, List.mem_cons, List.mem_append, List.not_mem_nil, or_false] at hi
    simp only [labels, List.mem_append, List.mem_cons, List.not_mem_nil, or_false]
    rcases hi with rfl | hi | rfl | hi | rfl | rfl
    · cases hl
    · exact Or.inr (Or.inl (ihh h.1 hi))
    · cases hl; simp
    · exact Or.inr (Or.inr (Or.inl (ihb h.2 hi)))
    · cases hl; simp
    · cases hl

end Block

end CallSite
