import CallSite.ClassTable.Conversion
import CallSite.Machine.Number
import CallSite.Proofs.ClassTable.Built

/-!
# Wrappers

The values that a type admits on the operand stack, and the objects that stand for them in
collections. The machine knows the wrapper classes by their names, which they keep in every table
that can be built.
-/

namespace CallSite

/-- The value is held on the operand stack as the primitive is. -/
def Primitive.Admits (p : Primitive) : Value → Prop
  | .int _ => p.stackKind = .int
  | .long _ => p = .long
  | .double _ => p = .float ∨ p = .double
  | _ => False

/-- The wrapper object of a primitive value. -/
def Primitive.wrap (p : Primitive) : Value → Value
  | .int v => .boxed (if p = .boolean then .boolean (v != 0) else .integer v)
  | .long v => .boxed (.long v)
  | .double v => .boxed (.double v)
  | value => value

/-- The value is one that the type admits. Of references nothing is asked. -/
def Ty.Admits : Ty → Value → Prop
  | .prim p, value => p.Admits value
  | _, _ => True

/-- The value as it is kept in a collection: boxed if it is primitive. -/
def Ty.boxed : Ty → Value → Value
  | .prim p, value => p.wrap value
  | _, value => value

private theorem toInt64_bne_zero (v : Int32) : (v.toInt64 != 0) = (v != 0) := by
  have hzero : v.toInt64 = 0 ↔ v = 0 := by
    constructor
    · intro h
      have h32 := congrArg Int64.toInt32 h
      rw [Int32.toInt32_toInt64] at h32
      exact h32
    · rintro rfl
      rfl
  by_cases hv : v = 0
  · rw [hv]
    rfl
  · rw [bne_iff_ne.mpr hv, bne_iff_ne.mpr (mt hzero.mp hv)]

/-- The internal names of the wrappers. -/
def Primitive.wrapperName : Primitive → String
  | .boolean => "java/lang/Boolean"
  | .byte => "java/lang/Byte"
  | .char => "java/lang/Character"
  | .short => "java/lang/Short"
  | .int => "java/lang/Integer"
  | .long => "java/lang/Long"
  | .float => "java/lang/Float"
  | .double => "java/lang/Double"

theorem internalName_wrapper {t : ClassTable} (ht : t.Built) (p : Primitive) :
    t.internalName p.wrapper = p.wrapperName := by
  rw [ht.internalName_eq (by cases p <;> decide)]
  cases p <;> decide

/-- The wrapper's own `valueOf` makes the wrapper object. -/
theorem boxAs_wrapper {t : ClassTable} (ht : t.Built) {p : Primitive} {value : Value}
    (hv : p.Admits value) :
    ∃ b, boxAs (t.internalName p.wrapper) value = some b ∧ p.wrap value = .boxed b := by
  rw [internalName_wrapper ht]
  cases value with
  | int v =>
    have hint : (Boxed.integer v).toInt64.toInt32 = v := Int32.toInt32_toInt64 v
    have hbool : ((Boxed.integer v).toInt64 != 0) = (v != 0) := toInt64_bne_zero v
    cases p with
    | boolean => exact ⟨.boolean (v != 0), by rw [← hbool]; rfl, rfl⟩
    | long => cases hv
    | float => cases hv
    | double => cases hv
    | _ =>
      refine ⟨.integer v, ?_, rfl⟩
      simp [boxAs, Primitive.wrapperName, hint]
  | long v =>
    obtain rfl : p = .long := hv
    exact ⟨.long v, rfl, rfl⟩
  | double v =>
    rcases hv with rfl | rfl
    · exact ⟨.double v, rfl, rfl⟩
    · exact ⟨.double v, rfl, rfl⟩
  | _ => exact hv.elim

end CallSite
