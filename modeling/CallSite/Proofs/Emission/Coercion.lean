import CallSite.Proofs.Emission.Operands
import CallSite.Proofs.Emission.Unboxing

/-!
# Operands converted

What a conversion writes for an operand of any type, and what it leaves of it. An operand that has
been converted can be used as the target, and is left as it is by another conversion to it.
-/

namespace CallSite

namespace ClassTable

variable {t : ClassTable} {ty target : Ty}

/-- Values of a type can be used as that type. -/
theorem assignable_refl (h : 0 < t.size) (ty : Ty) : t.assignable ty ty = true := by
  cases ty with
  | void => rfl
  | prim p => exact congrArg Option.isSome (if_pos rfl)
  | object c args => exact assignable_self h c args args
  | array component => exact congrArg Option.isSome (if_pos rfl)
  | var name => rfl

/-- A cast of a type that fits already changes nothing. -/
theorem castType_of_assignable (h : t.assignable ty target = true) : t.castType ty target = ty :=
  if_pos h

theorem isReference_castType (hty : ty.isReference = true) (ht : target.isReference = true) :
    (t.castType ty target).isReference = true := by
  unfold castType
  split
  · exact hty
  · exact ht

/-- Between reference types a conversion is a cast. -/
theorem coercedType_reference (hty : ty.isReference = true) (ht : target.isReference = true) :
    t.coercedType ty target = t.castType ty target := by
  cases ty with
  | void => cases hty
  | prim p => cases hty
  | _ =>
    cases target with
    | void => cases ht
    | prim q => cases ht
    | _ => rfl

/-- An operand that is converted to a reference type is of one. -/
theorem isReference_coercedType (hty : ty ≠ .void) (ht : target.isReference = true) :
    (t.coercedType ty target).isReference = true := by
  by_cases hr : ty.isReference = true
  · rw [coercedType_reference hr ht]
    exact isReference_castType hr ht
  · cases ty with
    | void => exact absurd rfl hty
    | prim p =>
      have hboxed : t.coercedType (.prim p) target = t.castType (.ofClass p.wrapper) target := by
        cases target <;> first | rfl | cases ht
      rw [hboxed]
      exact isReference_castType rfl ht
    | _ => exact absurd rfl hr

/-- Whatever a value is converted to, it can be used as. -/
theorem coercedType_assignable (h : 0 < t.size) (hty : ty ≠ .void) (ht : target ≠ .void) :
    t.assignable (t.coercedType ty target) target = true := by
  have hself := assignable_refl h target
  cases target with
  | void => exact absurd rfl ht
  | prim q =>
    rw [coercedType_prim.mpr hty]
    exact hself
  | _ =>
    cases ty with
    | void => exact absurd rfl hty
    | _ => exact assignable_castType hself

end ClassTable

namespace Emit

variable {s : Setting} {d d' : Draft} {ty target : Ty} {below : List Ty}

/-- The code that converts between primitive types. -/
def convertCode (p q : Primitive) : List Instruction :=
  if p.stackKind = q.stackKind then [] else [.convert p.stackKind q.stackKind]

/-- The code that converts an operand of type `ty` to `target`. -/
def coercionCode (s : Setting) : Ty → Ty → List Instruction
  | .prim p, .prim q => convertCode p q
  | .prim _, .void => []
  | .prim p, target => boxing s p :: castCode s (.ofClass p.wrapper) target
  | .void, _ => []
  | ty, .prim q => castCode s ty (.ofClass (holderOf ty q)) ++ [unboxing s q (holderOf ty q)]
  | _, .void => []
  | ty, target => castCode s ty target

theorem returns_convertTop {p q : Primitive} {u : Unit} (hd : d.stack = .prim p :: below) :
    Returns (convertTop p q) d u d' ↔ d' = { d with
      code := d.code ++ convertCode p q
      stack := .prim q :: below } := by
  have hretyped : ∀ mid : Draft, mid.stack = .prim p :: below →
      (Returns (if p ≠ q then replace 1 (.prim q) else pure ()) mid u d' ↔
        d' = { mid with stack := .prim q :: below }) := by
    intro mid hmid
    by_cases hpq : p = q
    · rw [if_neg (not_not_intro hpq), returns_pure, ← hpq, ← hmid]
      exact (and_iff_right rfl).trans eq_comm
    · rw [if_pos hpq, returns_replace, hmid]
      rfl
  unfold convertTop convertCode
  by_cases hk : p.stackKind = q.stackKind
  · simp only [if_neg (not_not_intro hk), if_pos hk, List.append_nil]
    exact hretyped d hd
  · simp only [if_pos hk, if_neg hk, returns_bind, returns_emit, exists_eq_left, exists_const]
    exact hretyped _ hd

private theorem returns_unchanged {u : Unit} (hd : d.stack = ty :: below) :
    Returns (pure u) d u d' ↔ d' = { d with code := d.code ++ [], stack := ty :: below } := by
  rw [returns_pure, List.append_nil, ← hd]
  exact (and_iff_right rfl).trans eq_comm

private theorem returns_boxed {p : Primitive} {u : Unit} (hd : d.stack = .prim p :: below) :
    Returns (do boxTop s; castTo s target) d u d' ↔ d' = { d with
      code := d.code ++ boxing s p :: castCode s (.ofClass p.wrapper) target
      stack := castType s (.ofClass p.wrapper) target :: below } := by
  simp only [returns_bind, returns_boxTop hd, exists_eq_left, exists_const]
  rw [returns_castTo rfl, List.append_assoc]
  rfl

/-- What a conversion does: its code puts one operand in place of another. -/
theorem returns_coerce {u : Unit} (hd : d.stack = ty :: below) :
    Returns (coerce s target) d u d' ↔ d' = { d with
      code := d.code ++ coercionCode s ty target
      stack := s.table.coercedType ty target :: below } := by
  by_cases hr : ty.isReference = true
  · cases target with
    | prim q =>
      rw [returns_coerce_unboxed hd hr]
      cases ty <;> first | rfl | cases hr
    | void =>
      unfold coerce
      simp only [returns_bind, returns_top?, and_assoc, exists_and_left, exists_eq_left, hd,
        List.head?_cons]
      cases ty <;> exact returns_unchanged hd
    | _ =>
      rw [returns_coerce_reference hd hr rfl, returns_castTo hd]
      cases ty <;> first | rfl | cases hr
  · unfold coerce
    simp only [returns_bind, returns_top?, and_assoc, exists_and_left, exists_eq_left, hd,
      List.head?_cons]
    cases ty with
    | void => exact returns_unchanged hd
    | prim p =>
      cases target with
      | void => exact returns_unchanged hd
      | prim q => exact returns_convertTop hd
      | _ => exact returns_boxed hd
    | _ => exact absurd rfl hr

/-- Where a reference can be used as the target, nothing is converted. -/
theorem coercionCode_reference (hty : ty.isReference = true) (ht : target.isReference = true)
    (ha : s.table.assignable ty target = true) : coercionCode s ty target = [] := by
  have hcast : castCode s ty target = [] := if_pos ha
  cases ty with
  | void => cases hty
  | prim p => cases hty
  | _ =>
    cases target with
    | void => cases ht
    | prim q => cases ht
    | _ => exact hcast

/-- An operand that was converted to the target is not converted to it again. -/
theorem coercionCode_coercedType (h : 0 < s.table.size) (hty : ty ≠ .void) (ht : target ≠ .void) :
    coercionCode s (s.table.coercedType ty target) target = [] ∧
      s.table.coercedType (s.table.coercedType ty target) target =
        s.table.coercedType ty target := by
  have ha := ClassTable.coercedType_assignable h hty ht
  by_cases hr : target.isReference = true
  · have htop := ClassTable.isReference_coercedType (t := s.table) hty hr
    refine ⟨coercionCode_reference htop hr ha, ?_⟩
    rw [ClassTable.coercedType_reference htop hr, ClassTable.castType_of_assignable ha]
  · cases target with
    | void => exact absurd rfl ht
    | prim q =>
      rw [ClassTable.coercedType_prim.mpr hty]
      exact ⟨if_pos rfl, rfl⟩
    | _ => exact absurd rfl hr

/-- After a conversion to a type other than `void`, the topmost operand can be used as that type and
nothing below it has changed. A second conversion to the type writes nothing, and so no cast. The
walks through the class table that decide which casts are written end if its `interfaces` lists name
interfaces only. -/
theorem coerce_settles (ht : s.table.Constructed) (hi : s.table.InterfacesOnly)
    (hd : d.stack = ty :: below) (hty : ty ≠ .void) (htarget : target ≠ .void) :
    s.table.WalksEnd ∧ ∃ code top,
      let converted := { d with code := d.code ++ code, stack := top :: below }
      Returns (coerce s target) d () converted ∧ s.table.assignable top target = true ∧
        Returns (coerce s target) converted () converted := by
  have hsize : 0 < s.table.size := ht.built.size_pos
  refine ⟨ht.consistent.linked.walksEnd hsize hi, coercionCode s ty target,
    s.table.coercedType ty target, (returns_coerce hd).mpr rfl,
    ClassTable.coercedType_assignable hsize hty htarget, (returns_coerce rfl).mpr ?_⟩
  obtain ⟨hcode, hstack⟩ := coercionCode_coercedType hsize hty htarget
  rw [hcode, hstack, List.append_nil]

/-- A number that is used as `p.Named` is boxed and cast once. -/
theorem coerce_settles_numberAsNamed :
    let s : Setting := ⟨.runAll .standard ClassTable.labelHistory, ⟨29⟩, .standard, false⟩
    let d := { Draft.empty 1 with stack := [.int, .ofClass .string] }
    let cast : Draft := { d with
      code := [.invoke .static ⟨"java/lang/Integer", "valueOf", "(I)Ljava/lang/Integer;"⟩,
        .checkCast "p/Named"]
      stack := [.ofClass ⟨24⟩, .ofClass .string] }
    (s.table.Constructed ∧ s.table.InterfacesOnly ∧ Ty.int ≠ .void ∧ Ty.ofClass ⟨24⟩ ≠ .void) ∧
      Returns (coerce s (.ofClass ⟨24⟩)) d () cast ∧
      s.table.assignable (.ofClass ⟨24⟩) (.ofClass ⟨24⟩) = true ∧
      Returns (coerce s (.ofClass ⟨24⟩)) cast () cast := by
  intro s d cast
  have ht : s.table.Constructed := ⟨ClassTable.labelHistory, by decide, rfl⟩
  have hi : s.table.InterfacesOnly := by decide
  have hnot : s.table.assignable (.ofClass .integer) (.ofClass ⟨24⟩) = false := by decide +kernel
  have hnamed : s.table.internalTypeName (.ofClass ⟨24⟩) = "p/Named" := by decide +kernel
  have hboxed : s.table.internalName .integer = "java/lang/Integer" := by decide +kernel
  have hcast : Returns (coerce s (.ofClass ⟨24⟩)) d () cast := by
    rw [returns_coerce rfl]
    show cast = { d with
      code := boxing s .int :: castCode s (.ofClass .integer) (.ofClass ⟨24⟩)
      stack := s.table.castType (.ofClass .integer) (.ofClass ⟨24⟩) :: [.ofClass .string] }
    unfold boxing castCode ClassTable.castType Primitive.wrapper
    rw [hnot, hnamed, hboxed]
    rfl
  obtain ⟨-, code, top, hfirst, ha, hagain⟩ :=
    coerce_settles ht hi (d := d) rfl nofun (show Ty.ofClass ⟨24⟩ ≠ .void from nofun)
  rw [hfirst.unique hcast] at hagain
  have htop : top = .ofClass ⟨24⟩ :=
    congrArg (fun draft : Draft => draft.stack.headD .void) (hfirst.unique hcast)
  exact ⟨⟨ht, hi, nofun, nofun⟩, hcast, htop ▸ ha, hagain⟩

end Emit

end CallSite
