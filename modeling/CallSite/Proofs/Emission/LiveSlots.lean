import CallSite.Proofs.Emission.Slots
import Mathlib.Algebra.GroupWithZero.Nat

/-!
# Slots of live temporaries

A temporary is put after the live one that ends last, counted in sixteen bits. The temporaries are
above the slots of the method and do not overlap just as long as each new one fits there: a slot
that was given back below the others is not found again, and after one that ends with the last slot
the count starts over.
-/

namespace CallSite

/-- The first slot after the temporary, as an unbounded number. -/
def Temporary.stop (t : Temporary) : Nat := t.slot.toNat + t.type.width

theorem Ty.width_le (ty : Ty) : ty.width ≤ 2 := by
  cases ty with
  | prim p => cases p <;> decide
  | _ => exact Nat.le_succ 1

theorem Temporary.toNat_next (t : Temporary) : t.next.toNat = t.stop % 65536 := by
  have hw := t.type.width_le
  unfold Temporary.next Temporary.stop
  rw [UInt16.toNat_add, UInt16.toNat_ofNat']
  omega

namespace Temporaries

/-! ## What can be asked of the temporaries -/

inductive Call where
  | define (name : String) (type : Ty)
  | release (slot : UInt16)

/-- The temporaries after the call. To give back a slot that no live temporary has is refused, and
changes nothing. -/
def after (ts : Temporaries) : Call → Temporaries
  | .define name type => ts.define name type
  | .release slot => (ts.release? slot).getD ts

def afterAll (ts : Temporaries) (calls : List Call) : Temporaries := calls.foldl after ts

/-- The slots that the call takes. -/
def Call.width : Call → Nat
  | define _ type => type.width
  | release _ => 0

/-- The live temporaries are above the slots of the method and end with the last slot at most, and
no two of them overlap. -/
structure Sound (ts : Temporaries) : Prop where
  base_le : ∀ t ∈ ts.live, ts.base.toNat ≤ t.slot.toNat
  inside : ∀ t ∈ ts.live, t.stop ≤ 65536
  disjoint : ts.live.Pairwise fun t u => t.stop ≤ u.slot.toNat ∨ u.stop ≤ t.slot.toNat

instance (ts : Temporaries) : Decidable ts.Sound :=
  decidable_of_iff ((∀ t ∈ ts.live, ts.base.toNat ≤ t.slot.toNat) ∧
      (∀ t ∈ ts.live, t.stop ≤ 65536) ∧
        ts.live.Pairwise fun t u => t.stop ≤ u.slot.toNat ∨ u.stop ≤ t.slot.toNat)
    ⟨fun h => ⟨h.1, h.2.1, h.2.2⟩, fun h => ⟨h.base_le, h.inside, h.disjoint⟩⟩

theorem Sound.start (base : UInt16) : (above base).Sound := ⟨nofun, nofun, List.Pairwise.nil⟩

/-! ## Where a new temporary is put -/

/-- Where the live temporaries end, but for those that end with the last slot. -/
def floor (ts : Temporaries) : Nat :=
  if ts.live.isEmpty then ts.base.toNat
  else (((ts.live.map Temporary.stop).filter fun stop => stop < 65536).max?).getD 0

/-- Where the temporaries begin that end with the last slot. -/
def ceiling (ts : Temporaries) : Nat :=
  (((ts.live.filter fun t => t.stop = 65536).map fun t => t.slot.toNat).min?).getD 65536

/-- A temporary of this type fits between the live ones that end below the last slot and those that
end with it. -/
def Fits (ts : Temporaries) (type : Ty) : Prop :=
  ts.base.toNat ≤ ts.floor ∧ ts.floor + type.width ≤ ts.ceiling

instance (ts : Temporaries) (type : Ty) : Decidable (ts.Fits type) :=
  inferInstanceAs (Decidable (_ ∧ _))

/-- Every temporary fits that the calls take. -/
def AllFit (ts : Temporaries) : List Call → Prop
  | [] => True
  | .define name type :: calls => ts.Fits type ∧ AllFit (ts.define name type) calls
  | .release slot :: calls => AllFit (ts.after (.release slot)) calls

variable {ts : Temporaries} {t : Temporary} {n : Nat} {type : Ty} {calls : List Call}

theorem le_floor (ht : t ∈ ts.live) (hstop : t.stop < 65536) : t.stop ≤ ts.floor := by
  have hmem : t.stop ∈ (ts.live.map Temporary.stop).filter fun stop => stop < 65536 :=
    List.mem_filter.mpr ⟨List.mem_map_of_mem ht, decide_eq_true hstop⟩
  have hlive : ¬ ts.live.isEmpty = true := by
    rw [List.isEmpty_iff]
    exact List.ne_nil_of_mem ht
  unfold floor
  rw [if_neg hlive]
  cases hmax : ((ts.live.map Temporary.stop).filter fun stop => stop < 65536).max? with
  | none =>
    rw [List.max?_eq_none_iff.mp hmax] at hmem
    cases hmem
  | some m => exact (List.max?_eq_some_iff.mp hmax).2 _ hmem

/-- The floor is the base as long as nothing is live, and then the end of a live temporary, or 0. -/
theorem floor_cases (ts : Temporaries) : (ts.live = [] ∧ ts.floor = ts.base.toNat) ∨
    (∃ t ∈ ts.live, t.stop < 65536 ∧ t.stop = ts.floor) ∨
      (ts.live ≠ [] ∧ (∀ t ∈ ts.live, ¬ t.stop < 65536) ∧ ts.floor = 0) := by
  by_cases hlive : ts.live = []
  · exact .inl ⟨hlive, if_pos (List.isEmpty_iff.mpr hlive)⟩
  · have hfloor : ts.floor =
        (((ts.live.map Temporary.stop).filter fun stop => stop < 65536).max?).getD 0 :=
      if_neg (mt List.isEmpty_iff.mp hlive)
    cases hmax : ((ts.live.map Temporary.stop).filter fun stop => stop < 65536).max? with
    | none =>
      rw [hmax] at hfloor
      refine .inr (.inr ⟨hlive, fun t ht hstop => ?_, hfloor⟩)
      have hmem : t.stop ∈ (ts.live.map Temporary.stop).filter fun stop => stop < 65536 :=
        List.mem_filter.mpr ⟨List.mem_map_of_mem ht, decide_eq_true hstop⟩
      rw [List.max?_eq_none_iff.mp hmax] at hmem
      cases hmem
    | some m =>
      rw [hmax] at hfloor
      obtain ⟨hmem, hstop⟩ := List.mem_filter.mp (List.max?_eq_some_iff.mp hmax).1
      obtain ⟨t, ht, rfl⟩ := List.mem_map.mp hmem
      exact .inr (.inl ⟨t, ht, of_decide_eq_true hstop, hfloor.symm⟩)

theorem le_ceiling_iff : n ≤ ts.ceiling ↔
    n ≤ 65536 ∧ ∀ t ∈ ts.live, t.stop = 65536 → n ≤ t.slot.toNat := by
  have hmem : ∀ t, t ∈ ts.live.filter (fun t => t.stop = 65536) ↔ t ∈ ts.live ∧ t.stop = 65536 := by
    intro t
    rw [List.mem_filter, decide_eq_true_iff]
  unfold ceiling
  cases hmin : ((ts.live.filter fun t => t.stop = 65536).map fun t => t.slot.toNat).min? with
  | none =>
    rw [List.min?_eq_none_iff, List.map_eq_nil_iff] at hmin
    rw [hmin] at hmem
    exact ⟨fun h => ⟨h, fun t ht hstop => absurd ((hmem t).mpr ⟨ht, hstop⟩) List.not_mem_nil⟩,
      fun h => h.1⟩
  | some least =>
    obtain ⟨hleast, hle⟩ := List.min?_eq_some_iff.mp hmin
    obtain ⟨u, hu, rfl⟩ := List.mem_map.mp hleast
    obtain ⟨hlive, hstop⟩ := (hmem u).mp hu
    show n ≤ u.slot.toNat ↔ _
    constructor
    · intro h
      unfold Temporary.stop at hstop
      refine ⟨by omega, fun t ht hend => Nat.le_trans h ?_⟩
      exact hle _ (List.mem_map.mpr ⟨t, (hmem t).mpr ⟨ht, hend⟩, rfl⟩)
    · exact fun h => h.2 u hlive hstop

/-- A new temporary is put on the floor. One that ends with the last slot counts as if it ended at
slot 0. -/
theorem toNat_freeSlot_eq_floor (h : ∀ t ∈ ts.live, t.stop ≤ 65536) :
    ts.freeSlot.toNat = ts.floor := by
  unfold freeSlot
  cases hmax : (ts.live.map Temporary.next).max? with
  | none =>
    rw [List.max?_eq_none_iff, List.map_eq_nil_iff] at hmax
    exact (if_pos (List.isEmpty_iff.mpr hmax)).symm
  | some slot =>
    obtain ⟨hmem, hle⟩ := List.max?_eq_some_iff.mp hmax
    obtain ⟨t, ht, rfl⟩ := List.mem_map.mp hmem
    show t.next.toNat = ts.floor
    have hstop := h t ht
    have htoNat := t.toNat_next
    rcases ts.floor_cases with ⟨hnil, -⟩ | ⟨u, hu, hbelow, hfloor⟩ | ⟨-, hnone, hfloor⟩
    · rw [hnil] at ht
      cases ht
    · have hu' := UInt16.le_iff_toNat_le.mp (hle _ (List.mem_map_of_mem hu))
      rw [u.toNat_next] at hu'
      by_cases hlast : t.stop < 65536
      · have hle' := le_floor ht hlast
        omega
      · omega
    · have hlast := hnone t ht
      omega

/-! ## What a call preserves -/

/-- A new temporary keeps clear of the live ones just if it fits. -/
theorem Sound.define_iff (h : ts.Sound) (name : String) :
    (ts.define name type).Sound ↔ ts.Fits type := by
  have hslot := toNat_freeSlot_eq_floor h.inside
  have hnew : ∀ t ∈ [(⟨name, ts.freeSlot, type⟩ : Temporary)],
      t.slot.toNat = ts.floor ∧ t.stop = ts.floor + type.width := by
    intro t ht
    rw [List.mem_singleton.mp ht]
    exact ⟨hslot, congrArg (· + type.width) hslot⟩
  constructor
  · intro hs
    have hin : (⟨name, ts.freeSlot, type⟩ : Temporary) ∈ (ts.define name type).live :=
      List.mem_append_right _ List.mem_cons_self
    obtain ⟨-, -, hacross⟩ := List.pairwise_append.mp hs.disjoint
    have habove : ts.base.toNat ≤ ts.freeSlot.toNat := hs.base_le _ hin
    have hinside : ts.freeSlot.toNat + type.width ≤ 65536 := hs.inside _ hin
    refine ⟨hslot ▸ habove, le_ceiling_iff.mpr ⟨hslot ▸ hinside, fun t ht hstop => ?_⟩⟩
    have hapart : t.stop ≤ ts.freeSlot.toNat ∨ ts.freeSlot.toNat + type.width ≤ t.slot.toNat :=
      hacross t ht _ List.mem_cons_self
    have hw := type.width_pos
    omega
  · rintro ⟨hbase, hfit⟩
    obtain ⟨hlast, hclear⟩ := le_ceiling_iff.mp hfit
    refine ⟨fun t ht => ?_, fun t ht => ?_, ?_⟩
    · rcases List.mem_append.mp ht with ht | ht
      · exact h.base_le t ht
      · exact (hnew t ht).1.symm ▸ hbase
    · rcases List.mem_append.mp ht with ht | ht
      · exact h.inside t ht
      · exact (hnew t ht).2.symm ▸ hlast
    · refine List.pairwise_append.mpr ⟨h.disjoint, List.pairwise_singleton _ _, fun t ht u hu => ?_⟩
      obtain ⟨huslot, hustop⟩ := hnew u hu
      by_cases hstop : t.stop < 65536
      · have hle := le_floor ht hstop
        omega
      · have hinside := h.inside t ht
        have hle := hclear t ht (by omega)
        omega

/-- To give a slot back takes nothing. -/
theorem after_release (ts : Temporaries) (slot : UInt16) :
    (ts.after (.release slot)).base = ts.base ∧
      (ts.after (.release slot)).live.Sublist ts.live := by
  show ((ts.release? slot).getD ts).base = _ ∧ ((ts.release? slot).getD ts).live.Sublist _
  unfold release?
  by_cases hany : ts.live.any (·.slot == slot)
  · rw [if_pos hany]
    exact ⟨rfl, List.eraseP_sublist⟩
  · rw [if_neg hany]
    exact ⟨rfl, List.Sublist.refl _⟩

theorem Sound.release (h : ts.Sound) (slot : UInt16) : (ts.after (.release slot)).Sound := by
  obtain ⟨hbase, hfewer⟩ := ts.after_release slot
  refine ⟨fun t ht => ?_, fun t ht => h.inside t (hfewer.subset ht), h.disjoint.sublist hfewer⟩
  rw [hbase]
  exact h.base_le t (hfewer.subset ht)

/-! ## What a run preserves -/

/-- The temporaries are in order all along a run just if every new one fits. -/
theorem Sound.allFit_iff (h : ts.Sound) :
    (∀ done, done <+: calls → (ts.afterAll done).Sound) ↔ ts.AllFit calls := by
  induction calls generalizing ts with
  | nil =>
    refine iff_of_true (fun done hdone => ?_) trivial
    rw [List.prefix_nil.mp hdone]
    exact h
  | cons call calls ih =>
    have hall : (∀ done, done <+: call :: calls → (ts.afterAll done).Sound) ↔
        ∀ done, done <+: calls → ((ts.after call).afterAll done).Sound := by
      constructor
      · exact fun hs done hdone => hs (call :: done) ((List.prefix_cons_inj call).mpr hdone)
      · intro hs done hdone
        rcases List.prefix_cons_iff.mp hdone with rfl | ⟨rest, rfl, hrest⟩
        · exact h
        · exact hs rest hrest
    rw [hall]
    cases call with
    | define name type =>
      constructor
      · intro hs
        have hnext : (ts.define name type).Sound := hs [] List.nil_prefix
        exact ⟨(h.define_iff name).mp hnext, (ih hnext).mp hs⟩
      · rintro ⟨hfit, hrest⟩
        exact (ih ((h.define_iff name).mpr hfit)).mpr hrest
    | release slot => exact ih (h.release slot)

/-- If nothing ends with the last slot, the floor lies between the base and the last end. -/
private theorem floor_between (hbase : ts.base.toNat ≤ n)
    (hlive : ∀ t ∈ ts.live, ts.base.toNat ≤ t.slot.toNat ∧ t.stop ≤ n) (hn : n < 65536) :
    ts.base.toNat ≤ ts.floor ∧ ts.floor ≤ n := by
  rcases ts.floor_cases with ⟨-, hfloor⟩ | ⟨u, hu, -, hfloor⟩ | ⟨hne, hnone, -⟩
  · exact ⟨Nat.le_of_eq hfloor.symm, hfloor ▸ hbase⟩
  · obtain ⟨hslot, hstop⟩ := hlive u hu
    unfold Temporary.stop at hfloor hstop
    exact ⟨by omega, by omega⟩
  · obtain ⟨u, hu⟩ := List.exists_mem_of_ne_nil _ hne
    have hstop := (hlive u hu).2
    exact absurd (by omega) (hnone u hu)

/-- Every temporary fits if there are slots left for all that the calls take. -/
theorem allFit_of_sum_le (hbase : ts.base.toNat ≤ n)
    (hlive : ∀ t ∈ ts.live, ts.base.toNat ≤ t.slot.toNat ∧ t.stop ≤ n)
    (hsum : n + (calls.map Call.width).sum ≤ 65536) : ts.AllFit calls := by
  induction calls generalizing ts n with
  | nil => trivial
  | cons call calls ih =>
    rw [List.map_cons, List.sum_cons] at hsum
    cases call with
    | define name type =>
      have hwidth : (Call.define name type).width = type.width := rfl
      rw [hwidth] at hsum
      have hw := type.width_pos
      have hslot : ts.freeSlot.toNat = ts.floor := toNat_freeSlot_eq_floor fun t ht => by
        have hstop := (hlive t ht).2
        omega
      obtain ⟨hle, hge⟩ := floor_between hbase hlive (by omega)
      refine ⟨⟨hle, le_ceiling_iff.mpr ⟨by omega, fun t ht hstop => ?_⟩⟩, ?_⟩
      · have hend := (hlive t ht).2
        omega
      · refine ih (n := n + type.width) (Nat.le_add_right_of_le hbase) (fun t ht => ?_) (by omega)
        rcases List.mem_append.mp ht with ht | ht
        · exact ⟨(hlive t ht).1, Nat.le_add_right_of_le (hlive t ht).2⟩
        · rw [List.mem_singleton.mp ht]
          show ts.base.toNat ≤ ts.freeSlot.toNat ∧ ts.freeSlot.toNat + type.width ≤ n + type.width
          omega
    | release slot =>
      obtain ⟨hsame, hfewer⟩ := ts.after_release slot
      refine ih (n := n) (hsame ▸ hbase) (fun t ht => ?_) (by omega)
      rw [hsame]
      exact hlive t (hfewer.subset ht)

/-- From an unused method on, the live temporaries are above its slots, inside the range and apart
at every point of a run just if each new temporary fits between those that end below the last slot
and those that end with it. They are if there are slots for all that the run ever takes. -/
theorem sound_afterAll_iff (base : UInt16) (calls : List Call) :
    ((∀ done, done <+: calls → ((above base).afterAll done).Sound) ↔
      (above base).AllFit calls) ∧
      (base.toNat + (calls.map Call.width).sum ≤ 65536 →
        ∀ done, done <+: calls → ((above base).afterAll done).Sound) := by
  have hstart := Sound.start base
  exact ⟨hstart.allFit_iff,
    fun hsum => hstart.allFit_iff.mpr (allFit_of_sum_le (Nat.le_refl _) nofun hsum)⟩

/-- Three temporaries near the last slot, of which the first two are given back. -/
def nearLast : List Call :=
  [.define "a" (.prim .int), .define "b" (.prim .int), .define "c" (.prim .int), .release 65532,
    .release 65533]

theorem sound_afterAll_nearLast : (above 65532).AllFit nearLast ∧
    (∀ done, done <+: nearLast → ((above 65532).afterAll done).Sound) ∧
      65532 + (nearLast.map Call.width).sum ≤ 65536 := by
  have hfit : (above 65532).AllFit nearLast := ⟨by decide, by decide, by decide, trivial⟩
  exact ⟨hfit, (sound_afterAll_iff 65532 nearLast).1.mpr hfit, by decide⟩

/-- A new temporary for a `long` then reaches past the last slot, though the two slots that were
given back are free. -/
theorem define_past_last :
    let ts := (above 65532).afterAll nearLast
    ts.Sound ∧ ts.freeSlot = 65535 ∧ ¬ (ts.define "d" (.prim .long)).Sound ∧
      Sound { ts with live := ts.live ++ [⟨"d", 65532, .prim .long⟩] } := by
  decide

end Temporaries

end CallSite
