import CallSite.Emission.Expr

/-!
# Steps that return

What is known of the draft when a step that writes to it returns, for every primitive step. A
sequence of steps returns if all of them do.
-/

namespace CallSite

namespace Emit

variable {α β : Type} {d d' : Draft}

/-- Started on `d`, the step returns `v` and leaves `d'`. -/
def Returns (step : Emit α) (d : Draft) (v : α) (d' : Draft) : Prop := step d = (.ok v, d')

theorem Returns.unique {step : Emit α} {v v' : α} {last : Draft} (h : Returns step d v d')
    (h' : Returns step d v' last) : d' = last := congrArg Prod.snd (h.symm.trans h')

@[simp] theorem returns_pure {a b : α} : Returns (pure a) d b d' ↔ a = b ∧ d = d' := by
  constructor
  · intro h
    cases h
    exact ⟨rfl, rfl⟩
  · rintro ⟨rfl, rfl⟩
    rfl

@[simp] theorem returns_throw {e : CompileError} {v : α} : ¬ Returns (throw e) d v d' := by
  intro h
  cases h

/-- A sequence stops at the first step that fails. -/
theorem bind_apply (step : Emit α) (next : α → Emit β) (d : Draft) :
    (step >>= next) d = match step d with
      | (.ok a, mid) => next a mid
      | (.error e, mid) => (.error e, mid) := by
  show ExceptT.bindCont next (step d).1 (step d).2 = _
  cases step d with
  | mk r mid => cases r <;> rfl

@[simp] theorem returns_bind {step : Emit α} {next : α → Emit β} {v : β} :
    Returns (step >>= next) d v d' ↔
      ∃ a mid, Returns step d a mid ∧ Returns (next a) mid v d' := by
  unfold Returns
  rw [bind_apply]
  constructor
  · intro h
    cases hs : step d with
    | mk r mid =>
      rw [hs] at h
      cases r with
      | error e => cases h
      | ok a => exact ⟨a, mid, rfl, h⟩
  · rintro ⟨a, mid, hs, hn⟩
    rw [hs]
    exact hn

@[simp] theorem returns_map {step : Emit α} {f : α → β} {v : β} :
    Returns (f <$> step) d v d' ↔ ∃ a, Returns step d a d' ∧ f a = v := by
  show Returns (step >>= fun a => pure (f a)) d v d' ↔ _
  rw [returns_bind]
  constructor
  · rintro ⟨a, mid, hs, hp⟩
    obtain ⟨hv, rfl⟩ := returns_pure.mp hp
    exact ⟨a, hs, hv⟩
  · rintro ⟨a, hs, hv⟩
    exact ⟨a, d', hs, returns_pure.mpr ⟨hv, rfl⟩⟩

@[simp] theorem returns_discard {step : Emit α} {u : PUnit} :
    Returns (discard step) d u d' ↔ ∃ a, Returns step d a d' := by
  show Returns ((fun _ => PUnit.unit) <$> step) d u d' ↔ _
  rw [returns_map]
  exact ⟨fun ⟨a, h, _⟩ => ⟨a, h⟩, fun ⟨a, h⟩ => ⟨a, h, rfl⟩⟩

/-! ## Primitive steps -/

@[simp] theorem returns_get {v : Draft} : Returns get d v d' ↔ v = d ∧ d' = d := by
  constructor
  · intro h
    cases h
    exact ⟨rfl, rfl⟩
  · rintro ⟨rfl, rfl⟩
    rfl

@[simp] theorem returns_modify {f : Draft → Draft} {u : PUnit} :
    Returns (modify f) d u d' ↔ d' = f d := by
  constructor
  · intro h
    cases h
    rfl
  · rintro rfl
    rfl

@[simp] theorem returns_emit {i : Instruction} {u : Unit} :
    Returns (emit i) d u d' ↔ d' = { d with code := d.code ++ [i] } := returns_modify

@[simp] theorem returns_push {ty : Ty} {u : Unit} :
    Returns (push ty) d u d' ↔ d' = { d with stack := ty :: d.stack } := returns_modify

@[simp] theorem returns_drop {n : Nat} {u : Unit} :
    Returns (drop n) d u d' ↔ d' = { d with stack := d.stack.drop n } := returns_modify

@[simp] theorem returns_replace {n : Nat} {ty : Ty} {u : Unit} :
    Returns (replace n ty) d u d' ↔ d' = { d with stack := ty :: d.stack.drop n } := returns_modify

@[simp] theorem returns_report {e : CompileError} {u : Unit} :
    Returns (report e) d u d' ↔ d' = { d with diagnostics := d.diagnostics ++ [e] } :=
  returns_modify

@[simp] theorem returns_top? {v : Option Ty} : Returns top? d v d' ↔ v = d.stack.head? ∧ d' = d := by
  constructor
  · intro h
    cases h
    exact ⟨rfl, rfl⟩
  · rintro ⟨rfl, rfl⟩
    rfl

@[simp] theorem returns_depth {n : Nat} : Returns depth d n d' ↔ n = d.stack.length ∧ d' = d := by
  constructor
  · intro h
    cases h
    exact ⟨rfl, rfl⟩
  · rintro ⟨rfl, rfl⟩
    rfl

@[simp] theorem returns_freshLabel {l : Nat} :
    Returns freshLabel d l d' ↔ l = d.nextLabel ∧ d' = { d with nextLabel := d.nextLabel + 1 } := by
  constructor
  · intro h
    cases h
    exact ⟨rfl, rfl⟩
  · rintro ⟨rfl, rfl⟩
    rfl

@[simp] theorem returns_define {name : String} {ty : Ty} {slot : UInt16} :
    Returns (define name ty) d slot d' ↔ slot = d.temporaries.freeSlot ∧
      d' = { d with temporaries := d.temporaries.define name ty } := by
  constructor
  · intro h
    cases h
    exact ⟨rfl, rfl⟩
  · rintro ⟨rfl, rfl⟩
    rfl

@[simp] theorem returns_release {slot : UInt16} {u : Unit} :
    Returns (release slot) d u d' ↔
      ∃ ts, d.temporaries.release? slot = some ts ∧ d' = { d with temporaries := ts } := by
  unfold release
  rw [returns_bind]
  constructor
  · rintro ⟨a, mid, hg, h⟩
    obtain ⟨rfl, rfl⟩ := returns_get.mp hg
    split at h
    · rename_i ts hts
      exact ⟨ts, hts, returns_modify.mp h⟩
    · exact absurd h returns_throw
  · rintro ⟨ts, hts, rfl⟩
    refine ⟨d, d, returns_get.mpr ⟨rfl, rfl⟩, ?_⟩
    rw [hts]
    exact returns_modify.mpr rfl

/-- Slots that are given back are all that changes. -/
theorem forM_release_inv {slots : List UInt16} {u : PUnit}
    (h : Returns (slots.forM release) d u d') : ∃ ts, d' = { d with temporaries := ts } := by
  induction slots generalizing d with
  | nil => exact ⟨_, (returns_pure.mp h).2.symm⟩
  | cons slot slots ih =>
    obtain ⟨_, mid, hr, hrest⟩ := returns_bind.mp h
    obtain ⟨ts, -, rfl⟩ := returns_release.mp hr
    obtain ⟨ts', rfl⟩ := ih hrest
    exact ⟨ts', rfl⟩

@[simp] theorem returns_expectDepth {expected : Nat} {what : String} {span : Span} {u : Unit} :
    Returns (expectDepth expected what span) d u d' ↔ d.stack.length = expected ∧ d' = d := by
  unfold expectDepth
  rw [returns_bind]
  constructor
  · rintro ⟨a, mid, hd, h⟩
    obtain ⟨rfl, rfl⟩ := returns_depth.mp hd
    split at h
    · exact absurd h returns_throw
    · rename_i hn
      obtain ⟨-, rfl⟩ := returns_pure.mp h
      exact ⟨Decidable.not_not.mp hn, rfl⟩
  · rintro ⟨hn, rfl⟩
    refine ⟨_, d', returns_depth.mpr ⟨rfl, rfl⟩, ?_⟩
    rw [if_neg (not_not_intro hn)]
    exact returns_pure.mpr ⟨rfl, rfl⟩

private theorem map_ok_apply (body : Emit α) (d : Draft) :
    (Except.ok <$> body : Emit (Except CompileError α)) d =
      ((body d).1.map .ok, (body d).2) := by
  show ExceptT.map Except.ok body d = _
  unfold ExceptT.map ExceptT.mk
  show StateT.bind body _ d = _
  unfold StateT.bind
  simp only [bind]
  cases body d with
  | mk r mid => cases r <;> rfl

/-- A step that fails inside counts as one that returns its error. -/
theorem caught_apply (body : Emit α) (d : Draft) :
    (tryCatch (Except.ok <$> body) fun e => pure (.error e) : Emit (Except CompileError α)) d =
      (.ok (body d).1, (body d).2) := by
  show ExceptT.tryCatch (Except.ok <$> body) _ d = _
  unfold ExceptT.tryCatch ExceptT.mk
  show StateT.bind (Except.ok <$> body : Emit (Except CompileError α)) _ d = _
  unfold StateT.bind
  rw [map_ok_apply]
  cases body d with
  | mk r mid => cases r <;> rfl

/-- Slots are given back after the step. -/
@[simp] theorem returns_releasing {slots : List UInt16} {body : Emit α} {v : α} :
    Returns (releasing slots body) d v d' ↔
      ∃ mid, Returns body d v mid ∧ Returns (slots.forM release) mid () d' := by
  unfold releasing
  rw [returns_bind]
  constructor
  · rintro ⟨outcome, mid, ho, h⟩
    have hb : outcome = (body d).1 ∧ mid = (body d).2 := by
      unfold Returns at ho
      rw [caught_apply] at ho
      cases ho
      exact ⟨rfl, rfl⟩
    obtain ⟨houtcome, rfl⟩ := hb
    cases outcome with
    | ok value =>
      obtain ⟨u, last, hr, hp⟩ := returns_bind.mp h
      obtain ⟨rfl, rfl⟩ := returns_pure.mp hp
      exact ⟨(body d).2, Prod.ext houtcome.symm rfl, hr⟩
    | error e =>
      obtain ⟨_, _, _, ht⟩ := returns_bind.mp h
      exact absurd ht returns_throw
  · rintro ⟨mid, hb, hr⟩
    refine ⟨.ok v, mid, ?_, returns_bind.mpr ⟨(), d', hr, returns_pure.mpr ⟨rfl, rfl⟩⟩⟩
    unfold Returns at hb ⊢
    rw [caught_apply, hb]

end Emit

end CallSite
