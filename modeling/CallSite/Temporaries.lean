import CallSite.Ty

/-!
# Temporaries

Local slots that emission takes for itself, above the slots of the method. Slot numbers have
sixteen bits.
-/

namespace CallSite

structure Temporary where
  name : String
  slot : UInt16
  type : Ty
deriving Repr, DecidableEq

/-- The first slot after the temporary. -/
def Temporary.next (t : Temporary) : UInt16 := t.slot + UInt16.ofNat t.type.width

/-- The live temporaries, oldest first, and the first slot that may be taken. -/
structure Temporaries where
  base : UInt16
  live : List Temporary
deriving Repr, DecidableEq

namespace Temporaries

/-- No temporary is live, and slots from `base` on are free. -/
def above (base : UInt16) : Temporaries := ⟨base, []⟩

/-- The slot that the next temporary gets: after every live one. -/
def freeSlot (ts : Temporaries) : UInt16 := ((ts.live.map Temporary.next).max?).getD ts.base

def define (ts : Temporaries) (name : String) (type : Ty) : Temporaries :=
  { ts with live := ts.live ++ [⟨name, ts.freeSlot, type⟩] }

/-- Give back the oldest temporary at `slot`, if there is one. -/
def release? (ts : Temporaries) (slot : UInt16) : Option Temporaries :=
  if ts.live.any (·.slot == slot) then
    some { ts with live := ts.live.eraseP (·.slot == slot) }
  else none

/-- The newest temporary of this name. -/
def find? (ts : Temporaries) (name : String) : Option Temporary :=
  ts.live.reverse.find? (·.name == name)

end Temporaries

end CallSite
