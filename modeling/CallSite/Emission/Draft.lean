import CallSite.CompileError
import CallSite.Instruction
import CallSite.Options
import CallSite.Temporaries

/-!
# Drafts

The code of one method while it is written: the instructions so far, the types of the operands
they leave on the stack, the live temporaries and the errors reported. A step that fails leaves
what it wrote.
-/

namespace CallSite

/-- What does not change while a method is written. -/
structure Setting where
  table : ClassTable
  /-- The class whose method is written. -/
  enclosing : ClassId
  options : Options
  /-- The code is the body of a closure. -/
  inClosure : Bool := false
deriving Repr

structure Draft where
  code : List Instruction
  /-- The types of the operands, topmost first. -/
  stack : List Ty
  temporaries : Temporaries
  diagnostics : List CompileError
  nextLabel : Nat
deriving Repr

/-- An empty draft whose first `maxLocals` slots belong to the method. -/
def Draft.empty (maxLocals : UInt16) : Draft := ⟨[], [], .above maxLocals, [], 0⟩

/-- A step that writes to the draft. -/
abbrev Emit := ExceptT CompileError (StateM Draft)

namespace Emit

def emit (i : Instruction) : Emit Unit := modify fun d => { d with code := d.code ++ [i] }

def push (ty : Ty) : Emit Unit := modify fun d => { d with stack := ty :: d.stack }

/-- Forget the `n` topmost operands. -/
def drop (n : Nat) : Emit Unit := modify fun d => { d with stack := d.stack.drop n }

/-- Put one operand of type `ty` in place of the `n` topmost. -/
def replace (n : Nat) (ty : Ty) : Emit Unit :=
  modify fun d => { d with stack := ty :: d.stack.drop n }

def top? : Emit (Option Ty) := return (← get).stack.head?

def depth : Emit Nat := return (← get).stack.length

def freshLabel : Emit Nat :=
  modifyGet fun d => (d.nextLabel, { d with nextLabel := d.nextLabel + 1 })

def report (e : CompileError) : Emit Unit :=
  modify fun d => { d with diagnostics := d.diagnostics ++ [e] }

def define (name : String) (ty : Ty) : Emit UInt16 :=
  modifyGet fun d =>
    (d.temporaries.freeSlot, { d with temporaries := d.temporaries.define name ty })

/-- Give back a temporary that must be live. -/
def release (slot : UInt16) : Emit Unit := do
  match (← get).temporaries.release? slot with
  | some temporaries => modify fun d => { d with temporaries }
  | none => throw (.internal (.notLive slot) .none)

/-- Check the number of operands after `what`. -/
def expectDepth (expected : Nat) (what : String) (span : Span) : Emit Unit := do
  let found ← depth
  if found ≠ expected then throw (.internal (.imbalance what expected found) span)

/-- Run `body` and then give back `slots`, also when it fails; its own error is then the result. -/
def releasing (slots : List UInt16) (body : Emit α) : Emit α := do
  let outcome ← tryCatch (Except.ok <$> body) (fun e => pure (.error e))
  match outcome with
  | .ok value =>
    slots.forM release
    return value
  | .error e =>
    tryCatch (slots.forM release) (fun _ => pure ())
    throw e

end Emit

end CallSite
