import CallSite.Proofs.Code.Shape
import CallSite.Proofs.Emission.Access

/-!
# Slots for temporaries

A loop takes three slots above all live ones and gives them back in the end. As long as there are
slots left, the loops inside it take theirs above these. How many slots an expression takes at a
time is read off the expression.
-/

namespace CallSite

theorem Ty.width_pos (ty : Ty) : 0 < ty.width := by
  cases ty with
  | prim p => cases p <;> decide
  | _ => exact Nat.one_pos

private instance lawfulMaxUInt16 : Std.LawfulOrderMax UInt16 where
  max_le_iff a b c := by
    show (if a ≤ b then b else a) ≤ c ↔ a ≤ c ∧ b ≤ c
    simp only [UInt16.le_iff_toNat_le]
    split <;> omega
  max_eq_or a b := by
    show (if a ≤ b then b else a) = a ∨ (if a ≤ b then b else a) = b
    split
    · exact Or.inr rfl
    · exact Or.inl rfl

namespace Temporaries

/-- The first slot above the live temporaries, as an unbounded number. -/
def top (ts : Temporaries) : Nat :=
  ((ts.live.map fun t => t.slot.toNat + t.type.width).max?).getD ts.base.toNat

variable {ts : Temporaries}

/-- Every live temporary ends at the top or below. -/
theorem le_top {t : Temporary} (h : t ∈ ts.live) : t.slot.toNat + t.type.width ≤ ts.top := by
  unfold top
  cases hm : (ts.live.map fun t => t.slot.toNat + t.type.width).max? with
  | none =>
    rw [List.max?_eq_none_iff, List.map_eq_nil_iff] at hm
    rw [hm] at h
    cases h
  | some n => exact (List.max?_eq_some_iff.mp hm).2 _ (List.mem_map_of_mem h)

/-- Below the last slot there is, the free slot is the top. -/
theorem toNat_freeSlot (h : ts.top < 65536) : ts.freeSlot.toNat = ts.top := by
  have hnext : ∀ t ∈ ts.live, t.next.toNat = t.slot.toNat + t.type.width := by
    intro t ht
    have hle := le_top ht
    unfold Temporary.next
    rw [UInt16.toNat_add, UInt16.toNat_ofNat']
    omega
  unfold top at h ⊢
  unfold freeSlot
  cases hm : (ts.live.map Temporary.next).max? with
  | none =>
    rw [List.max?_eq_none_iff, List.map_eq_nil_iff] at hm
    rw [hm]
    rfl
  | some slot =>
    obtain ⟨hmem, hmax⟩ := List.max?_eq_some_iff.mp hm
    obtain ⟨t, ht, rfl⟩ := List.mem_map.mp hmem
    have hsome : (ts.live.map fun t => t.slot.toNat + t.type.width).max? = some t.next.toNat := by
      refine List.max?_eq_some_iff.mpr ⟨?_, fun n hn => ?_⟩
      · rw [hnext t ht]
        exact List.mem_map_of_mem ht
      · obtain ⟨u, hu, rfl⟩ := List.mem_map.mp hn
        rw [← hnext u hu]
        exact UInt16.le_iff_toNat_le.mp (hmax _ (List.mem_map_of_mem hu))
    rw [hsome]
    rfl

/-- A temporary that is taken raises the top by its width. -/
theorem top_define (h : ts.top < 65536) (name : String) (ty : Ty) :
    (ts.define name ty).top = ts.top + ty.width := by
  have hsome : ((ts.define name ty).live.map fun t => t.slot.toNat + t.type.width).max? =
      some (ts.top + ty.width) := by
    refine List.max?_eq_some_iff.mpr ⟨?_, fun n hn => ?_⟩
    · rw [← toNat_freeSlot h]
      exact List.mem_map.mpr ⟨_, List.mem_append_right _ (List.mem_singleton_self _), rfl⟩
    · obtain ⟨u, hu, rfl⟩ := List.mem_map.mp hn
      rcases List.mem_append.mp hu with hu | hu
      · exact Nat.le_add_right_of_le (le_top hu)
      · rw [List.mem_singleton.mp hu]
        exact Nat.le_of_eq (congrArg (· + ty.width) (toNat_freeSlot h))
  show (((ts.define name ty).live.map _).max?).getD _ = _
  rw [hsome]
  rfl

/-- The temporary that was taken last can be given back, and no other is. -/
theorem release?_define (h : ts.top < 65536) (name : String) (ty : Ty) :
    (ts.define name ty).release? ts.freeSlot = some ts := by
  have hne : ∀ t ∈ ts.live, (t.slot == ts.freeSlot) = false := by
    intro t ht
    rw [beq_eq_false_iff_ne]
    rintro he
    have hle := le_top ht
    have hw := t.type.width_pos
    rw [he, toNat_freeSlot h] at hle
    omega
  unfold release? define
  rw [List.any_append]
  have hany : ([⟨name, ts.freeSlot, ty⟩] : List Temporary).any (·.slot == ts.freeSlot) = true := by
    simp
  rw [hany, Bool.or_true, if_pos rfl, List.eraseP_append_right]
  · simp
  · intro t ht
    rw [hne t ht]
    exact Bool.false_ne_true

/-- There is room for `span` slots above the live temporaries, if `floor` says where these end. -/
def Room (ts : Temporaries) (floor : Option Nat) (span : Nat) : Prop :=
  ∀ k, floor = some k → ts.top = k ∧ k + span ≤ 65536

theorem Room.mono {floor : Option Nat} {m n : Nat} (h : ts.Room floor n) (hm : m ≤ n) :
    ts.Room floor m := by
  intro k hk
  obtain ⟨htop, hroom⟩ := h k hk
  exact ⟨htop, by omega⟩

/-! ## Loops -/

/-- The slots that a loop over elements of a type takes. -/
def loopWidth (component : Ty) : Nat := 2 + component.width

/-- Inside a loop the live temporaries end after its slots. -/
def inner (floor : Option Nat) (component : Ty) : Option Nat :=
  floor.map (· + loopWidth component)

/-- The tops of the temporaries while a loop takes its slots. -/
private theorem top_loop {component : Ty} (h : ts.top + loopWidth component ≤ 65536) :
    ts.top < 65536 ∧ (ts.define "tmpList" (.ofClass .arrayList)).top = ts.top + 1 ∧
      ((ts.define "tmpList" (.ofClass .arrayList)).define "iterator" (.ofClass .iterator)).top =
        ts.top + 2 := by
  unfold loopWidth at h
  have hw := component.width_pos
  have h₀ : ts.top < 65536 := by omega
  have h₁ := top_define h₀ "tmpList" (.ofClass .arrayList)
  have h₂ := top_define (by rw [h₁]; show ts.top + 1 < _; omega) "iterator" (.ofClass .iterator)
  exact ⟨h₀, h₁, h₂.trans (by rw [h₁]; rfl)⟩

/-- The slots of a loop lie one after another above the live temporaries. -/
theorem loopSlots_eq {component : Ty} (h : ts.top + loopWidth component ≤ 65536) :
    ts.loopSlots.result.toNat = ts.top ∧ ts.loopSlots.iterator.toNat = ts.top + 1 ∧
      ts.loopSlots.next.toNat = ts.top + 2 := by
  obtain ⟨h₀, h₁, h₂⟩ := top_loop h
  unfold loopWidth at h
  have hw := component.width_pos
  refine ⟨toNat_freeSlot h₀, ?_, ?_⟩
  · rw [← h₁]
    exact toNat_freeSlot (by omega)
  · rw [← h₂]
    exact toNat_freeSlot (by omega)

theorem top_withLoop {component : Ty} (h : ts.top + loopWidth component ≤ 65536) :
    (ts.withLoop component).top = ts.top + loopWidth component := by
  obtain ⟨h₀, h₁, h₂⟩ := top_loop h
  unfold loopWidth at h ⊢
  have hw := component.width_pos
  have h₃ := top_define (by rw [h₂]; omega) "next" component
  unfold withLoop
  omega

theorem Room.withLoop {floor : Option Nat} {component : Ty} {span : Nat}
    (h : ts.Room floor (loopWidth component + span)) :
    (ts.withLoop component).Room (inner floor component) span := by
  intro k hk
  obtain ⟨n, hn, rfl⟩ := Option.map_eq_some_iff.mp hk
  obtain ⟨rfl, hroom⟩ := h n hn
  exact ⟨top_withLoop (by omega), by omega⟩

/-- A loop that gives its slots back leaves the temporaries as they were. -/
theorem returns_release_withLoop {component : Ty} (h : ts.top + loopWidth component ≤ 65536)
    {d : Draft} (hd : d.temporaries = ts.withLoop component) :
    Emit.Returns ([ts.loopSlots.next, ts.loopSlots.iterator, ts.loopSlots.result].forM Emit.release)
      d () { d with temporaries := ts } := by
  obtain ⟨h₀, h₁, h₂⟩ := top_loop h
  unfold loopWidth at h
  have hw := component.width_pos
  have hnext : d.temporaries.release? ts.loopSlots.next =
      some ((ts.define "tmpList" (.ofClass .arrayList)).define "iterator" (.ofClass .iterator)) := by
    rw [hd]
    exact release?_define (by omega) "next" component
  have hiterator : ((ts.define "tmpList" (.ofClass .arrayList)).define "iterator"
      (.ofClass .iterator)).release? ts.loopSlots.iterator =
      some (ts.define "tmpList" (.ofClass .arrayList)) := release?_define (by omega) "iterator" _
  have hresult := release?_define h₀ "tmpList" (.ofClass .arrayList)
  refine Emit.returns_bind.mpr ⟨(), _, Emit.returns_release.mpr ⟨_, hnext, rfl⟩, ?_⟩
  refine Emit.returns_bind.mpr ⟨(), _, Emit.returns_release.mpr ⟨_, hiterator, rfl⟩, ?_⟩
  refine Emit.returns_bind.mpr ⟨(), _, Emit.returns_release.mpr ⟨_, hresult, rfl⟩, ?_⟩
  exact Emit.returns_pure.mpr ⟨rfl, rfl⟩

theorem release_withLoop {component : Ty} (h : ts.top + loopWidth component ≤ 65536)
    {d d' : Draft} (hd : d.temporaries = ts.withLoop component)
    (hr : Emit.Returns ([ts.loopSlots.next, ts.loopSlots.iterator, ts.loopSlots.result].forM
      Emit.release) d () d') : d'.temporaries = ts := by
  rw [← (returns_release_withLoop h hd).unique hr]

end Temporaries

/-! ## Expressions -/

/-- The slots that the access to a list element takes at a time. -/
def elementSlots (s : Setting) : (depth : Nat) → Site → Nat
  | 0, _ => 0
  | depth + 1, site =>
    match s.binding site with
    | .eachElement component =>
      Temporaries.loopWidth component +
        elementSlots s depth (Emit.elementSite site site.member component 0)
    | _ => 0

/-- The slots for temporaries that the expression takes at a time. -/
def Expr.slotsTaken (s : Setting) : Expr → Nat
  | .property receiver access _ =>
    let site : Site := { access with receiver }
    match s.binding site with
    | .eachElement component =>
      Temporaries.loopWidth component + max (receiver.slotsTaken s)
        (elementSlots s (Emit.elementDepth component)
          (Emit.elementSite site site.member component 0))
    | binding => if binding.evaluates then receiver.slotsTaken s else 0
  | .operator left op right _ =>
    match s.operatorBinding? left op right with
    | some binding =>
      max (if binding.evaluates then left.slotsTaken s else 0) (right.slotsTaken s)
    | none => 0
  | _ => 0

/-- The slots that the expression reads as it is written; `this` is in slot 0. -/
def Expr.slotsRead : Expr → List UInt16
  | .this _ => [0]
  | .localVar slot _ => [slot]
  | .classLiteral _ _ | .constant _ _ => []
  | .property receiver _ _ => receiver.slotsRead
  | .operator left _ right _ => left.slotsRead ++ right.slotsRead

/-- It does not matter which slot holds the element. -/
theorem elementSlots_elementSite (s : Setting) (depth : Nat) (site : Site) (member : String)
    (component : Ty) (slot : UInt16) :
    elementSlots s depth (Emit.elementSite site member component slot) =
      elementSlots s depth (Emit.elementSite site member component 0) := by
  cases depth <;> rfl

end CallSite
