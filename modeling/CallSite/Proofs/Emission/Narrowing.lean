import CallSite.Proofs.Emission.Coercion
import CallSite.Proofs.Machine.Arithmetic
import Mathlib.Algebra.GroupWithZero.Nat

/-!
# Whole numbers converted

A conversion between primitive types of whole numbers cuts a number to the 32 or 64 bits that the
operand stack has for the target. A `byte`, `short` or `char` is held there as an `int`, and nothing
cuts a number to its width: what is left is a number of the type only if it was one before, or
happens to be after the cut.
-/

namespace CallSite

/-- Whole numbers of a fixed width, with a sign or without. -/
structure WholeFormat where
  bits : Nat
  signed : Bool
  pos : 0 < bits := by decide

namespace WholeFormat

variable {f k : WholeFormat} {m n : Int}

/-- The number is one of the format. -/
def Holds (f : WholeFormat) (n : Int) : Prop :=
  if f.signed then -(2 ^ (f.bits - 1) : Nat) ≤ n ∧ n < (2 ^ (f.bits - 1) : Nat)
  else 0 ≤ n ∧ n < (2 ^ f.bits : Nat)

instance (f : WholeFormat) (n : Int) : Decidable (f.Holds n) :=
  inferInstanceAs (Decidable (if f.signed then _ else _))

/-- The lowest bits of a number, read as the format reads them. -/
def cut (f : WholeFormat) (n : Int) : Int :=
  if f.signed then n.bmod (2 ^ f.bits) else n % (2 ^ f.bits : Nat)

/-- The first bit doubles the range. -/
private theorem two_pow_bits (f : WholeFormat) : 2 ^ f.bits = 2 ^ (f.bits - 1) * 2 :=
  (Nat.pow_pred_mul f.pos).symm

theorem cut_emod (f : WholeFormat) (n : Int) :
    f.cut n % (2 ^ f.bits : Nat) = n % (2 ^ f.bits : Nat) := by
  unfold cut
  split
  · exact Int.bmod_emod
  · exact Int.emod_emod_of_dvd n (Int.dvd_refl _)

/-- The lowest bits are all that counts. -/
theorem cut_congr (h : m % (2 ^ f.bits : Nat) = n % (2 ^ f.bits : Nat)) : f.cut m = f.cut n := by
  unfold cut
  rw [← Int.emod_bmod m, ← Int.emod_bmod n, h]

theorem holds_cut (f : WholeFormat) (n : Int) : f.Holds (f.cut n) := by
  have hpos : 0 < 2 ^ f.bits := Nat.two_pow_pos _
  unfold Holds cut
  split
  · have hlow := Int.le_bmod (x := n) hpos
    have hhigh := Int.bmod_lt (x := n) hpos
    rw [two_pow_bits] at hlow hhigh ⊢
    omega
  · exact ⟨Int.emod_nonneg n (by omega), Int.emod_lt_of_pos n (by omega)⟩

/-- A number of the format stays as it is. -/
theorem cut_of_holds (h : f.Holds n) : f.cut n = n := by
  unfold Holds at h
  unfold cut
  split at h
  · rw [if_pos ‹_›]
    refine Int.bmod_eq_of_le ?_ ?_
    · rw [two_pow_bits]
      omega
    · rw [two_pow_bits]
      omega
  · rw [if_neg ‹_›]
    exact Int.emod_eq_of_lt h.1 h.2

/-- Of two cuts one after the other, the narrower counts. -/
theorem cut_cut (h : f.bits ≤ k.bits) (n : Int) : f.cut (k.cut n) = f.cut n := by
  have hdvd : ((2 ^ f.bits : Nat) : Int) ∣ (2 ^ k.bits : Nat) :=
    Int.natCast_dvd_natCast.mpr (Nat.pow_dvd_pow 2 h)
  apply cut_congr
  rw [← Int.emod_emod_of_dvd _ hdvd, cut_emod, Int.emod_emod_of_dvd _ hdvd]

/-- A wider format cuts as much as a narrower one exactly if it leaves a number of the narrower. -/
theorem cut_eq_cut_iff (h : f.bits ≤ k.bits) : k.cut n = f.cut n ↔ f.Holds (k.cut n) := by
  constructor
  · intro heq
    rw [heq]
    exact holds_cut f n
  · intro hholds
    rw [← cut_cut h, cut_of_holds hholds]

end WholeFormat

namespace Primitive

variable {p q : Primitive} {f g : WholeFormat} {m n : Int}

/-- The whole numbers that are the values of the type. -/
def whole? : Primitive → Option WholeFormat
  | byte => some ⟨8, true, by decide⟩
  | short => some ⟨16, true, by decide⟩
  | char => some ⟨16, false, by decide⟩
  | int => some ⟨32, true, by decide⟩
  | long => some ⟨64, true, by decide⟩
  | _ => none

/-- The whole numbers that the operand stack has room for where it holds a value of the type. -/
def stackFormat : Primitive → WholeFormat
  | long => ⟨64, true, by decide⟩
  | _ => ⟨32, true, by decide⟩

/-- A whole number on the operand stack, cut to the room that there is for a value of the type. -/
def holding : Primitive → Int → Value
  | long, n => .long (.ofInt n)
  | _, n => .int (.ofInt n)

/-- The operand stack has room for all values of a type. -/
theorem stackFormat_of_whole? (hq : q.whole? = some g) :
    g.bits ≤ q.stackFormat.bits ∧ ∀ n, g.Holds n → q.stackFormat.Holds n := by
  cases q <;> cases hq <;> refine ⟨by decide, fun n hn => ?_⟩ <;>
    simp [WholeFormat.Holds, stackFormat] at hn ⊢ <;> omega

theorem holding_isWhole (q : Primitive) (n : Int) :
    (q.holding n).IsWhole (q.stackFormat.cut n) := by
  have hint : (Int32.ofInt n).toInt = n.bmod (2 ^ 32) := Int32.toInt_ofInt
  have hlong : (Int64.ofInt n).toInt = n.bmod (2 ^ 64) := Int64.toInt_ofInt
  cases q with
  | long =>
    show (Value.long (.ofInt n)).IsWhole (n.bmod (2 ^ 64))
    rw [← hlong]
    exact Value.isWhole_long _
  | _ =>
    show (Value.int (.ofInt n)).IsWhole (n.bmod (2 ^ 32))
    rw [← hint]
    exact Value.isWhole_int _

theorem holding_inj : q.holding m = q.holding n ↔ q.stackFormat.cut m = q.stackFormat.cut n := by
  have hint : ∀ n, (Int32.ofInt n).toInt = n.bmod (2 ^ 32) := fun _ => Int32.toInt_ofInt
  have hlong : ∀ n, (Int64.ofInt n).toInt = n.bmod (2 ^ 64) := fun _ => Int64.toInt_ofInt
  cases q with
  | long =>
    show Value.long (.ofInt m) = .long (.ofInt n) ↔ m.bmod (2 ^ 64) = n.bmod (2 ^ 64)
    rw [Value.long.injEq, ← Int64.toInt_inj, hlong, hlong]
  | _ =>
    show Value.int (.ofInt m) = .int (.ofInt n) ↔ m.bmod (2 ^ 32) = n.bmod (2 ^ 32)
    rw [Value.int.injEq, ← Int32.toInt_inj, hint, hint]

theorem stackKind_of_whole? (hq : q.whole? = some g) : q.stackKind = .int ∨ q = .long := by
  cases q <;> first | exact .inl rfl | exact .inr rfl | cases hq

theorem stackFormat_of_stackKind (h : q.stackKind = .int) :
    q.stackFormat = ⟨32, true, by decide⟩ := by
  cases q <;> first | rfl | cases h

theorem holding_of_stackKind (h : q.stackKind = .int) (n : Int) : q.holding n = .int (.ofInt n) := by
  cases q <;> first | rfl | cases h

/-- What is left on the operand stack is the number cut to the width of the type exactly if it is a
value of the type. -/
theorem holding_cut_iff (hq : q.whole? = some g) :
    q.holding n = q.holding (g.cut n) ↔ g.Holds (q.stackFormat.cut n) := by
  obtain ⟨hbits, hroom⟩ := stackFormat_of_whole? hq
  rw [holding_inj, WholeFormat.cut_of_holds (hroom _ (g.holds_cut n)),
    WholeFormat.cut_eq_cut_iff hbits]

end Primitive

/-- An `int` is widened with its sign, and of a `long` the lower half is kept. -/
theorem Machine.reads_convert (m : Machine) (heap : Heap) :
    (∀ v, m.Reads heap (.int v) [.convert .int .long] (.ok (.long v.toInt64))) ∧
      ∀ v, m.Reads heap (.long v) [.convert .long .int] (.ok (.int v.toInt32)) :=
  ⟨fun _ _ _ _ _ _ => rfl, fun _ _ _ _ _ _ => rfl⟩

namespace Emit

variable {p q : Primitive} {f g : WholeFormat} {n : Int}

/-- The code of a conversion leaves the number as the stack holds it for the target. -/
theorem reads_convertCode {m : Machine} (hp : p.whole? = some f) (hq : q.whole? = some g)
    (hn : f.Holds n) : m.Reads #[] (p.holding n) (convertCode p q) (.ok (q.holding n)) := by
  have hroom := (Primitive.stackFormat_of_whole? hp).2 n hn
  obtain ⟨hwiden, hnarrow⟩ := m.reads_convert #[]
  unfold convertCode
  rcases Primitive.stackKind_of_whole? hp with hpk | rfl <;>
    rcases Primitive.stackKind_of_whole? hq with hqk | rfl
  · rw [if_pos (hpk.trans hqk.symm), Primitive.holding_of_stackKind hpk,
      Primitive.holding_of_stackKind hqk]
    exact .nil
  · have hwidened : (Int32.ofInt n).toInt64 = Int64.ofInt n := by
      rw [Primitive.stackFormat_of_stackKind hpk] at hroom
      exact Int32.toInt64_ofInt hroom.1 (Int.lt_add_one_iff.mp hroom.2)
    rw [hpk, if_neg (by decide), Primitive.holding_of_stackKind hpk]
    show m.Reads #[] _ [.convert .int .long] (.ok (.long (.ofInt n)))
    rw [← hwidened]
    exact hwiden _
  · rw [hqk, if_neg (by decide), Primitive.holding_of_stackKind hqk, ← Int64.toInt32_ofInt]
    exact hnarrow _
  · rw [if_pos rfl]
    exact .nil

theorem convertCode_plain (p q : Primitive) : ∀ i ∈ convertCode p q, i.isPlain = true := by
  unfold convertCode
  split
  · exact nofun
  · exact List.forall_mem_singleton.mpr rfl

/-- A number of one type of whole numbers, converted to another. Run on it, the code leaves the number
cut to 32 bits, or to 64 for a `long`, and the operand passes for one of the target. It is the number
cut to the width of the target exactly if what is left is one of the target's numbers: always for
`int` and `long`, and for the types below if the number was one already. -/
theorem coerce_whole_iff (s : Setting) (hp : p.whole? = some f) (hq : q.whole? = some g)
    (hn : f.Holds n) :
    ∃ code,
      (∀ (d : Draft) (below : List Ty), d.stack = .prim p :: below →
        Returns (coerce s (.prim q)) d () { d with
          code := d.code ++ code
          stack := .prim q :: below }) ∧
      (∀ m : Machine, m.Reads #[] (p.holding n) code (.ok (q.holding n)) ∧
        m.Ends (.load (.ofType (.prim p)) 0 :: code) [p.holding n] fun _ result =>
          result = .ok (q.holding n)) ∧
      (q.holding n).IsWhole (q.stackFormat.cut n) ∧
      (q.holding n = q.holding (g.cut n) ↔ g.Holds (q.stackFormat.cut n)) ∧
      (q = .int ∨ q = .long ∨ g.Holds n → g.Holds (q.stackFormat.cut n)) := by
  refine ⟨convertCode p q, fun d below hd => (returns_coerce hd).mpr rfl, fun m => ?_,
    q.holding_isWhole n, Primitive.holding_cut_iff hq, ?_⟩
  · have hreads := reads_convertCode (m := m) hp hq hn
    exact ⟨hreads, ends_of_reads (convertCode_plain p q) hreads _⟩
  · rintro (rfl | rfl | hholds)
    · cases hq
      exact WholeFormat.holds_cut _ n
    · cases hq
      exact WholeFormat.holds_cut _ n
    · rw [WholeFormat.cut_of_holds ((Primitive.stackFormat_of_whole? hq).2 n hholds)]
      exact hholds

/-- Of a `long` that is no `int`, the lower half is left. -/
theorem coerce_whole_iff_upperHalf :
    let m := Machine.new .standard .standard
    (Primitive.long.whole? = some ⟨64, true, by decide⟩ ∧
        Primitive.int.whole? = some ⟨32, true, by decide⟩ ∧
        WholeFormat.Holds ⟨64, true, by decide⟩ 4294967301) ∧
      ∃ code, Returns (coerce objectSetting .int) { Draft.empty 1 with stack := [.long] } ()
          { Draft.empty 1 with code, stack := [.int] } ∧
        m.Ends (.load .long 0 :: code) [.long 4294967301] fun _ result => result = .ok (.int 5) := by
  intro m
  have hn : WholeFormat.Holds ⟨64, true, by decide⟩ 4294967301 := by decide
  obtain ⟨code, hwritten, hruns, -⟩ :=
    coerce_whole_iff (p := .long) (q := .int) objectSetting rfl rfl hn
  exact ⟨⟨rfl, rfl, hn⟩, code, hwritten _ [] rfl, (hruns m).2⟩

/-- `300` as a `byte` is `44`, but a `long` is only cut to an `int`. -/
theorem coerce_keeps_tooLarge :
    let d := { Draft.empty 1 with stack := [.long] }
    let written := coerce objectSetting (.prim .byte) d
    let byte : WholeFormat := ⟨8, true, by decide⟩
    (Primitive.byte.whole? = some byte ∧ written.1 = .ok () ∧ written.2.stack = [.prim .byte]) ∧
      byte.cut 300 = 44 ∧ ¬ byte.Holds 300 ∧
      ((Machine.new .standard .standard).run (.load .long 0 :: written.2.code) [.long 300]).2 =
        .ok (.int 300) :=
  ⟨⟨rfl, rfl, rfl⟩, by decide, by decide, rfl⟩

end Emit

end CallSite
