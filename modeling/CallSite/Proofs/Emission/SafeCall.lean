import CallSite.Proofs.Emission.Member
import CallSite.Proofs.Machine.Embedding
import CallSite.Proofs.Machine.Null

/-!
# Safe calls

A safe call is the plain call behind a guard, with its result boxed. The guard looks at the receiver
before anything else is done with it: over null the run goes past the conversion of the receiver,
the arguments and the call, and on any other value it does what the plain call does.
-/

namespace CallSite

open Instruction (relabelAll)

/-- The code of a call on a receiver, in parts. -/
structure CallCode where
  /-- Evaluates the receiver. -/
  receiver : List Instruction
  /-- Converts the receiver, evaluates the arguments and calls, with labels from 0 on. -/
  rest : List Instruction
  /-- Boxes the result. -/
  box : List Instruction
  /-- The first label that is free behind the receiver. -/
  base : Nat
  /-- The number of labels that `rest` takes. -/
  count : Nat

namespace CallCode

/-- The call as it stands. -/
def plain (c : CallCode) : List Instruction := c.receiver ++ relabelAll c.base c.rest

/-- What is done with a receiver other than null, and boxing. -/
def inner (c : CallCode) : List Instruction := c.rest ++ c.box

/-- The label behind a safe call. -/
def done (c : CallCode) : Nat := c.base + 1 + c.count

/-- The call behind a guard. -/
def safe (c : CallCode) : List Instruction :=
  c.receiver ++ .dup :: .jumpIfNull c.base :: (relabelAll (c.base + 1) c.inner ++
    [.jump c.done, .label c.base, .pop, .pushNull, .label c.done])

/-- The parts name labels of their own. -/
structure Tidy (c : CallCode) : Prop where
  receiver : ∀ i ∈ c.receiver, ∀ l, i.Names l → l < c.base
  rest : Sealed 0 c.count c.rest
  box : ∀ i ∈ c.box, i.isPlain = true

variable {c : CallCode}

theorem Tidy.inner (h : c.Tidy) : Sealed 0 c.count c.inner := h.rest.append (.plain h.box)

variable {m : Machine}

variable {heap heap' : Heap} {locals : Locals} {below : List Value} {frame : Frame}

section Runs

variable {value : Value} {start : Frame} {initial : Heap}

end Runs

end CallCode

/-! ## What a call writes -/

/-- An argument of a call. -/
inductive Argument where
  | expr (e : Expr)
  | string (text : String)
  | null

namespace Emit

variable {s : Setting} {d first last : Draft} {receiver : Emit Ty} {method : Method}
  {args : List (Emit Unit)}

def argument (s : Setting) : Argument → Emit Unit
  | .expr e => discard (expr s e)
  | .string text => pushString text
  | .null => pushNull

section Written

variable {α : Type} {step : Emit α}

/-- Code that can be written anywhere takes the labels that follow those that are taken. -/
theorem Portable.written (h : Portable step) (d : Draft) :
    (∃ e, (step d).1 = .error e) ∨ ∃ a is count last, Sealed 0 count is ∧ Returns step d a last ∧
      last.code = d.code ++ relabelAll d.nextLabel is ∧ last.nextLabel = d.nextLabel + count := by
  cases h d 0 (Nat.le_refl 0) with
  | fails e he => exact .inl ⟨e, he d.code d.nextLabel⟩
  | returns a is count last his _ hr =>
    rw [Nat.zero_add] at his hr
    exact .inr ⟨a, is, count, _, his, hr d.code d.nextLabel, rfl, rfl⟩

end Written

end Emit

end CallSite
