import CallSite.Proofs.Machine.Reading
import CallSite.Selection.Operator

/-!
# Exact arithmetic

What the helpers for sums, differences and products do with whole numbers: the result is the exact
one if it fits in 64 bits, and an error if it does not.
-/

namespace CallSite

/-- The integer is a signed integer of 64 bits. -/
def FitsLong (n : Int) : Prop := -9223372036854775808 ≤ n ∧ n ≤ 9223372036854775807

instance (n : Int) : Decidable (FitsLong n) :=
  inferInstanceAs (Decidable (-9223372036854775808 ≤ n ∧ n ≤ 9223372036854775807))

/-- The value is a number, boxed or not, that stands for the integer. -/
def Value.IsWhole (value : Value) (n : Int) : Prop :=
  ∃ b, value.number? = some b ∧ b.isIntegral = true ∧ b.toInt64.toInt = n

/-- The outcome of an operation whose exact result is `n`: a number that stands for it, or an
overflow if it does not fit. -/
def IsExact (op : String) (n : Int) (r : Except MachineError Value) : Prop :=
  if FitsLong n then ∃ value, r = .ok value ∧ value.IsWhole n
  else r = .error (.arithmetic (.overflow op))

theorem Value.isWhole_int (v : Int32) : (Value.int v).IsWhole v.toInt :=
  ⟨.integer v, rfl, rfl, Int32.toInt_toInt64 v⟩

theorem Value.isWhole_long (v : Int64) : (Value.long v).IsWhole v.toInt :=
  ⟨.long v, rfl, rfl, rfl⟩

/-! ## Numbers -/

theorem int64?_of_fits {n : Int} (h : FitsLong n) :
    int64? n = some (Int64.ofInt n) ∧ (Int64.ofInt n).toInt = n := by
  obtain ⟨hlow, hhigh⟩ := h
  refine ⟨if_pos ⟨?_, ?_⟩, Int64.toInt_ofInt_of_le (by omega) (by omega)⟩
  · rw [Int64.toInt_minValue]
    omega
  · rw [Int64.toInt_maxValue]
    omega

theorem int64?_of_not_fits {n : Int} (h : ¬ FitsLong n) : int64? n = none := by
  refine if_neg fun hrange => h ?_
  rw [Int64.toInt_minValue, Int64.toInt_maxValue] at hrange
  exact ⟨by omega, by omega⟩

theorem toInt64_of_int32? {v : Int64} {small : Int32} (h : int32? v.toInt = some small) :
    small.toInt64 = v := by
  obtain ⟨hrange, h⟩ := Option.ite_none_right_eq_some.mp h
  obtain rfl := Option.some.inj h
  rw [Int32.toInt_minValue, Int32.toInt_maxValue] at hrange
  apply Int64.toInt_inj.mp
  rw [Int32.toInt_toInt64, Int32.toInt_ofInt_of_le hrange.1 (by omega)]

namespace Boxed

/-- Whatever kind an integral result gets, it keeps its value. -/
theorem integralOf_whole (a b : Boxed) (v : Int64) :
    (integralOf a b v).isIntegral = true ∧ (integralOf a b v).toInt64 = v := by
  unfold integralOf
  split
  · exact ⟨rfl, rfl⟩
  · exact ⟨rfl, rfl⟩
  · exact ⟨rfl, rfl⟩
  · exact ⟨rfl, rfl⟩
  · split
    · rename_i small hsmall
      exact ⟨rfl, toInt64_of_int32? hsmall⟩
    · exact ⟨rfl, rfl⟩

variable {whole : Int → Int → Int} {a b : Boxed}

theorem combine_of_fits (fraction : Float → Float → Float) (ha : a.isIntegral = true) (hb : b.isIntegral = true)
    (h : FitsLong (whole a.toInt64.toInt b.toInt64.toInt)) :
    ∃ result, a.combine whole fraction b = some result ∧ result.isIntegral = true ∧
      result.toInt64.toInt = whole a.toInt64.toInt b.toInt64.toInt := by
  obtain ⟨hsome, hvalue⟩ := int64?_of_fits h
  obtain ⟨hintegral, hkeeps⟩ := integralOf_whole a b (.ofInt (whole a.toInt64.toInt b.toInt64.toInt))
  refine ⟨_, ?_, hintegral, (congrArg Int64.toInt hkeeps).trans hvalue⟩
  rw [combine, ha, hb, hsome]
  rfl

theorem combine_of_not_fits (fraction : Float → Float → Float) (ha : a.isIntegral = true) (hb : b.isIntegral = true)
    (h : ¬ FitsLong (whole a.toInt64.toInt b.toInt64.toInt)) :
    a.combine whole fraction b = none := by
  rw [combine, ha, hb, int64?_of_not_fits h]
  rfl

end Boxed

/-! ## Helpers -/

namespace Helper

variable {op : String} {whole : Int → Int → Int} {fraction : Float → Float → Float}

/-- What an operator that is exact on integers makes of two values. -/
def exactOn (op : String) (whole : Int → Int → Int) (fraction : Float → Float → Float)
    (x y : Value) : Except MachineError Value := do
  let (a, b) ← numberPair op [x, y]
  match a.combine whole fraction b with
  | some result => return .boxed result
  | none => throw (.arithmetic (.overflow op))

/-- The heap does not matter to the operator. -/
theorem exact_eq (heap : Heap) (x y : Value) :
    exact op whole fraction heap [x, y] =
      (exactOn op whole fraction x y).map fun value => (heap, some value) := by
  unfold exact onNumbers exactOn
  simp only [bind, Except.bind]
  cases numberPair op [x, y] with
  | error e => rfl
  | ok pair =>
    simp only
    cases pair.1.combine whole fraction pair.2 <;> rfl

private theorem numberPair_whole {x y : Value} {a b : Boxed} (hx : x.number? = some a)
    (hy : y.number? = some b) : numberPair op [x, y] = .ok (a, b) := by
  cases x with
  | null => cases hx
  | _ =>
    cases y with
    | null => cases hy
    | _ => simp only [numberPair, hx, hy]

/-- On whole numbers the operator is exact. -/
theorem exactOn_whole {x y : Value} {n k : Int} (hx : x.IsWhole n) (hy : y.IsWhole k) :
    IsExact op (whole n k) (exactOn op whole fraction x y) := by
  obtain ⟨a, hxa, ha, rfl⟩ := hx
  obtain ⟨b, hyb, hb, rfl⟩ := hy
  unfold IsExact exactOn
  rw [numberPair_whole hxa hyb]
  split
  · rename_i hfits
    obtain ⟨result, hresult, hintegral, hvalue⟩ := Boxed.combine_of_fits fraction ha hb hfits
    refine ⟨.boxed result, ?_, result, ?_, hintegral, hvalue⟩
    · simp only [bind, Except.bind, hresult]
      rfl
    · cases result <;> first | rfl | cases hintegral
  · rename_i hfits
    simp only [bind, Except.bind, Boxed.combine_of_not_fits fraction ha hb hfits]
    rfl

end Helper

/-! ## Code -/

/-- The operators that are exact on integers, as operations on integers. -/
def Arithmetic.whole? : Arithmetic → Option (Int → Int → Int)
  | plus => some (· + ·)
  | minus => some (· - ·)
  | multiply => some (· * ·)
  | div => none

namespace Machine

variable {m : Machine} {locals : Locals} {is js : List Instruction}
  {r r' : Except MachineError Value}

/-- Whatever the heap and the other operands are, the instructions put the outcome `r` on the stack
and change nothing else. -/
def Computes (m : Machine) (locals : Locals) (is : List Instruction)
    (r : Except MachineError Value) : Prop :=
  ∀ (heap : Heap) (below : List Value) (position : Nat),
    m.straight is heap ⟨locals, below, position⟩ =
      r.map fun value => (heap, ⟨locals, value :: below, position + is.length⟩)

/-- The value that has been computed is read on. -/
theorem Computes.reads {next : Value → Except MachineError Value} (h : m.Computes locals is r)
    (h' : ∀ value, r = .ok value → ∀ heap, m.Reads heap value js (next value)) :
    m.Computes locals (is ++ js) (r >>= next) := by
  intro heap below position
  rw [straight_append, h]
  cases r with
  | error e => rfl
  | ok value =>
    show m.straight js heap ⟨locals, value :: below, position + is.length⟩ = _
    rw [h' value rfl heap heap (.refl heap), List.length_append, Nat.add_assoc]
    rfl

/-- Two values are computed one after the other for an instruction that takes both. -/
theorem Computes.pair {i : Instruction} {f : Value → Value → Except MachineError Value}
    (h : m.Computes locals is r) (h' : m.Computes locals js r')
    (hi : ∀ heap below position x y, m.straight [i] heap ⟨locals, y :: x :: below, position⟩ =
      (f x y).map fun value => (heap, ⟨locals, value :: below, position + 1⟩)) :
    m.Computes locals (is ++ (js ++ [i])) (do let x ← r; let y ← r'; f x y) := by
  intro heap below position
  rw [straight_append, h]
  cases r with
  | error e => rfl
  | ok x =>
    show m.straight (js ++ [i]) heap ⟨locals, x :: below, position + is.length⟩ = _
    rw [straight_append, h']
    cases r' with
    | error e => rfl
    | ok y =>
      show m.straight [i] heap ⟨locals, y :: x :: below, position + is.length + js.length⟩ = _
      rw [hi, List.length_append, List.length_append, ← Nat.add_assoc, ← Nat.add_assoc]
      rfl

/-- Run by itself, the code ends with what it computes. -/
theorem Computes.ends {values : List Value} (h : m.Computes (.ofValues values) is r)
    (hplain : ∀ i ∈ is, i.isPlain = true) : m.Ends is values fun _ result => result = r :=
  .of_straight hplain (h m.heap [] 0)

/-- The call of a helper puts what it makes of the two topmost operands in their place. -/
theorem straight_arithmetic (hm : m.functions = Helper.standard .standard) {op : Arithmetic}
    {whole : Int → Int → Int} (hop : op.whole? = some whole) :
    ∃ fraction, ∀ heap locals below position x y,
      m.straight [.invoke .static ⟨Options.standard.numberHelperPackage ++ "/" ++ op.helper, op.name,
          numberPairDescriptor⟩] heap ⟨locals, y :: x :: below, position⟩ =
        (Helper.exactOn op.name whole fraction x y).map fun value =>
          (heap, ⟨locals, value :: below, position + 1⟩) := by
  have hlookup : ∃ fraction, m.functions.lookup
      (Options.standard.numberHelperPackage ++ "/" ++ op.helper, op.name) =
        some (Helper.exact op.name whole fraction) := by
    rw [hm]
    cases op with
    | div => cases hop
    | _ =>
      cases hop
      exact ⟨_, rfl⟩
  obtain ⟨fraction, hlookup⟩ := hlookup
  refine ⟨fraction, fun heap locals below position x y => ?_⟩
  have hcount : Descriptor.argCount numberPairDescriptor = 2 := by decide
  have hvoid : Descriptor.returnsVoid numberPairDescriptor = false := by decide
  have htakes : ∀ owner, (Instruction.invoke .static ⟨owner, op.name, numberPairDescriptor⟩).takes =
      [x, y].length := by
    intro owner
    show _ + 0 = 2
    rw [hcount]
  have hinvoke : m.invoke heap .static ⟨Options.standard.numberHelperPackage ++ "/" ++ op.helper,
      op.name, numberPairDescriptor⟩ [x, y] =
        (Helper.exactOn op.name whole fraction x y).map fun value => (heap, some value) := by
    unfold invoke
    rw [hlookup]
    exact Helper.exact_eq heap x y
  show m.straight [_] heap ⟨locals, [x, y].reverse ++ below, position⟩ = _
  rw [straight, execute_operands m [] heap locals [x, y] (htakes _), hinvoke]
  cases Helper.exactOn op.name whole fraction x y with
  | error e => rfl
  | ok value =>
    simp only [Except.map, callResults, hvoid]
    rfl

end Machine

end CallSite
