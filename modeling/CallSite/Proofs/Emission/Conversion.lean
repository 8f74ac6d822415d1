import CallSite.Proofs.Code.Descriptor
import CallSite.Proofs.Emission.Returns

/-!
# Conversions that return

A conversion of the topmost operand writes instructions that put one operand in place of another,
and changes no other entry of the operand stack.
-/

namespace CallSite

namespace Emit

variable {s : Setting} {d d' : Draft}

theorem castTo_inv {target : Ty} {u : Unit} (h : Returns (castTo s target) d u d') :
    d' = d ∨ d' = { d with
      code := d.code ++ [.checkCast (s.table.internalTypeName target)]
      stack := target :: d.stack.drop 1 } := by
  unfold castTo at h
  simp only [returns_bind, returns_top?] at h
  obtain ⟨_, _, ⟨rfl, rfl⟩, h⟩ := h
  split at h
  · exact Or.inl (returns_pure.mp h).2.symm
  · obtain ⟨_, _, he, hr⟩ := returns_bind.mp h
    rw [returns_emit] at he
    rw [returns_replace, he] at hr
    exact Or.inr hr

/-- The call that boxes a primitive. -/
def boxing (s : Setting) (p : Primitive) : Instruction :=
  .invoke .static ⟨s.table.internalName p.wrapper, "valueOf",
    "(" ++ p.descriptor.toString ++ ")L" ++ s.table.internalName p.wrapper ++ ";"⟩

theorem boxTop_inv {u : Unit} (h : Returns (boxTop s) d u d') :
    (d' = d ∧ ∀ p, d.stack.head? ≠ some (.prim p)) ∨
      ∃ p, d.stack.head? = some (.prim p) ∧ d' = { d with
        code := d.code ++ [boxing s p]
        stack := .ofClass p.wrapper :: d.stack.drop 1 } := by
  unfold boxTop at h
  simp only [returns_bind, returns_top?] at h
  obtain ⟨_, _, ⟨rfl, rfl⟩, h⟩ := h
  split at h
  · rename_i p hp
    simp only [returns_bind, returns_emit, returns_replace] at h
    obtain ⟨_, _, he, hr⟩ := h
    rw [he] at hr
    exact Or.inr ⟨p, hp, hr⟩
  · rename_i hp
    exact Or.inl ⟨(returns_pure.mp h).2.symm, hp⟩

/-- The call that takes a primitive out of `holder`. -/
def unboxing (s : Setting) (p : Primitive) (holder : ClassId) : Instruction :=
  .invoke .dynamic ⟨s.table.internalName holder, p.unboxing.2, "()" ++ p.descriptor.toString⟩

theorem unboxTop_inv {p : Primitive} {u : Unit} (h : Returns (unboxTop s p) d u d') :
    ∃ holder mid, Returns (castTo s (.ofClass holder)) d () mid ∧ d' = { mid with
      code := mid.code ++ [unboxing s p holder]
      stack := .prim p :: mid.stack.drop 1 } := by
  unfold unboxTop at h
  simp only [returns_bind, returns_top?, returns_emit, returns_replace] at h
  obtain ⟨_, _, ⟨rfl, rfl⟩, _, mid, hc, _, _, he, hr⟩ := h
  rw [he] at hr
  exact ⟨_, mid, hc, hr⟩

theorem convertTop_inv {p q : Primitive} {u : Unit} (h : Returns (convertTop p q) d u d') :
    ∃ is, (is = [] ∨ is = [.convert p.stackKind q.stackKind]) ∧ d' = { d with
      code := d.code ++ is
      stack := if p = q then d.stack else .prim q :: d.stack.drop 1 } := by
  unfold convertTop at h
  by_cases hk : p.stackKind ≠ q.stackKind
  · by_cases hp : p ≠ q
    · simp only [if_pos hk, if_pos hp, returns_bind, returns_emit, returns_replace] at h
      obtain ⟨_, _, rfl, h⟩ := h
      exact ⟨_, Or.inr rfl, by rw [h, if_neg hp]⟩
    · simp only [if_pos hk, if_neg hp, returns_bind, returns_emit, returns_pure] at h
      obtain ⟨_, _, rfl, -, h⟩ := h
      exact ⟨_, Or.inr rfl, by rw [← h, if_pos (Decidable.not_not.mp hp)]⟩
  · by_cases hp : p ≠ q
    · simp only [if_neg hk, if_pos hp, returns_replace] at h
      exact ⟨[], Or.inl rfl, by rw [h, if_neg hp, List.append_nil]⟩
    · simp only [if_neg hk, if_neg hp, returns_pure] at h
      exact ⟨[], Or.inl rfl, by rw [← h.2, if_pos (Decidable.not_not.mp hp), List.append_nil]⟩

/-- The topmost operand was converted: its code puts one operand in place of another, and if there
is an operand its type alone has changed. -/
def Converts (d d' : Draft) : Prop :=
  ∃ is stack, (∀ i ∈ is, i.Converts) ∧ d' = { d with code := d.code ++ is, stack } ∧
    ∀ ty rest, d.stack = ty :: rest → ∃ ty', stack = ty' :: rest

theorem Converts.refl (d : Draft) : Converts d d :=
  ⟨[], d.stack, nofun, by rw [List.append_nil], fun ty _ h => ⟨ty, h⟩⟩

theorem Converts.trans {d₁ d₂ d₃ : Draft} (h : Converts d₁ d₂) (h' : Converts d₂ d₃) :
    Converts d₁ d₃ := by
  obtain ⟨is, stack, hi, rfl, hs⟩ := h
  obtain ⟨js, stack', hj, rfl, hs'⟩ := h'
  refine ⟨is ++ js, stack', fun i h => ?_, by rw [List.append_assoc], fun ty rest h => ?_⟩
  · exact (List.mem_append.mp h).elim (hi i) (hj i)
  · obtain ⟨ty', h⟩ := hs ty rest h
    exact hs' ty' rest h

/-- One instruction that converts, with the type of the operand replaced. -/
theorem Converts.one {i : Instruction} (hi : i.Converts) (d : Draft) (ty : Ty) :
    Converts d { d with code := d.code ++ [i], stack := ty :: d.stack.drop 1 } := by
  refine ⟨[i], _, fun j hj => ?_, rfl, fun _ rest h => ⟨ty, by rw [h]; rfl⟩⟩
  rw [List.mem_singleton.mp hj]
  exact hi

theorem castTo_converts {target : Ty} {u : Unit} (h : Returns (castTo s target) d u d') :
    Converts d d' := by
  rcases castTo_inv h with rfl | rfl
  · exact .refl _
  · exact .one ⟨rfl, rfl, rfl⟩ d target

theorem boxing_converts (s : Setting) (p : Primitive) : (boxing s p).Converts := by
  obtain ⟨hcount, hvoid⟩ := Descriptor.boxing_counts p (s.table.internalName p.wrapper)
  refine ⟨rfl, ?_, ?_⟩
  · show Descriptor.argCount _ + 0 = 1
    rw [hcount]
  · show (if Descriptor.returnsVoid _ then 0 else 1) = 1
    rw [hvoid]
    rfl

theorem boxTop_converts {u : Unit} (h : Returns (boxTop s) d u d') : Converts d d' := by
  rcases boxTop_inv h with ⟨rfl, -⟩ | ⟨p, -, rfl⟩
  · exact .refl _
  · exact .one (boxing_converts s p) d _

private theorem unboxing_converts (p : Primitive) (holder : ClassId) :
    (unboxing s p holder).Converts := by
  obtain ⟨hcount, hvoid⟩ := Descriptor.unboxing_counts p
  refine ⟨by cases p <;> rfl, ?_, ?_⟩
  · show Descriptor.argCount _ + 1 = 1
    rw [hcount]
  · show (if Descriptor.returnsVoid _ then 0 else 1) = 1
    rw [hvoid]
    rfl

theorem coerce_converts {target : Ty} {u : Unit} (h : Returns (coerce s target) d u d') :
    Converts d d' := by
  unfold coerce at h
  simp only [returns_bind, returns_top?] at h
  obtain ⟨_, _, ⟨rfl, rfl⟩, h⟩ := h
  split at h
  · rw [(returns_pure.mp h).2]
    exact .refl _
  · rename_i p q hp
    obtain ⟨is, his, rfl⟩ := convertTop_inv h
    refine ⟨is, _, fun i hi => ?_, rfl, fun ty rest hs => ?_⟩
    · rcases his with rfl | rfl
      · cases hi
      · rw [List.mem_singleton.mp hi]
        exact ⟨rfl, rfl, rfl⟩
    · rw [hs]
      split
      · exact ⟨ty, rfl⟩
      · exact ⟨.prim q, rfl⟩
  · rw [(returns_pure.mp h).2]
    exact .refl _
  · obtain ⟨_, mid, hb, hc⟩ := returns_bind.mp h
    exact (boxTop_converts hb).trans (castTo_converts hc)
  · rw [(returns_pure.mp h).2]
    exact .refl _
  · obtain ⟨holder, mid, hc, rfl⟩ := unboxTop_inv h
    exact (castTo_converts hc).trans (.one (unboxing_converts _ holder) mid _)
  · rw [(returns_pure.mp h).2]
    exact .refl _
  · exact castTo_converts h

end Emit

end CallSite
