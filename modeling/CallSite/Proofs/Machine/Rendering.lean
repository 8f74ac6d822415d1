import CallSite.Proofs.Machine.Extension
import Mathlib.Data.Fintype.Card
import Mathlib.Data.Set.Finite.Basic
import Mathlib.Logic.Relation
import Mathlib.Order.WellFounded

/-!
# Texts that come to an end

The text of a collection shows the texts of what it holds, so a collection that holds itself has
none: whatever the depth, there is more to show. Every other text is found, and no deeper than there
are objects.
-/

namespace CallSite

namespace Heap

variable {heap other : Heap} {value : Value} {p q : Nat}

/-- The text of the object at `p` shows the object at `q`. -/
def Shows (heap : Heap) (p q : Nat) : Prop :=
  ∃ object, heap[p]? = some object ∧ Value.ref q ∈ object.parts

/-- No object is shown inside its own text. -/
def Acyclic (heap : Heap) : Prop := ∀ p, ¬ Relation.TransGen heap.Shows p p

/-! ## What has no text shows something that has none -/

private theorem exists_of_mapM_eq_none {α β : Type} {f : α → Option β} {xs : List α}
    (h : xs.mapM f = none) : ∃ x ∈ xs, f x = none := by
  induction xs with
  | nil => cases h
  | cons x xs ih =>
    cases hx : f x with
    | none => exact ⟨x, List.mem_cons_self, hx⟩
    | some b =>
      have hxs : xs.mapM f = none := by
        cases hxs : xs.mapM f with
        | none => rfl
        | some bs =>
          rw [List.mapM_cons, hx, hxs] at h
          cases h
      obtain ⟨y, hy, hnone⟩ := ih hxs
      exact ⟨y, List.mem_cons_of_mem x hy, hnone⟩

private theorem exists_part_of_textBy {inner : Value → Option String}
    (h : heap.textBy inner value = none) :
    ∃ p object w, value = .ref p ∧ heap[p]? = some object ∧ w ∈ object.parts ∧ inner w = none := by
  cases value with
  | ref p =>
    simp only [textBy] at h
    cases ho : heap[p]? with
    | none => rw [ho] at h; cases h
    | some object =>
      rw [ho] at h
      cases object with
      | list items =>
        obtain ⟨w, hw, hnone⟩ := exists_of_mapM_eq_none (Option.map_eq_none_iff.mp h)
        exact ⟨p, _, w, rfl, ho, hw, hnone⟩
      | array items =>
        obtain ⟨w, hw, hnone⟩ := exists_of_mapM_eq_none (Option.map_eq_none_iff.mp h)
        exact ⟨p, _, w, rfl, ho, hw, hnone⟩
      | map entries =>
        obtain ⟨⟨key, v⟩, hentry, hnone⟩ := exists_of_mapM_eq_none (Option.map_eq_none_iff.mp h)
        obtain ⟨hkey, hv⟩ := mem_parts_map hentry
        cases hk : inner key with
        | none => exact ⟨p, _, key, rfl, ho, hkey, hk⟩
        | some text =>
          refine ⟨p, _, v, rfl, ho, hv, ?_⟩
          cases hi : inner v with
          | none => rfl
          | some text' =>
            simp only [hk, hi] at hnone
            cases hnone
      | «instance» cls fields => cases h
      | iterator items position => cases h
  | _ => cases h

/-- A step in at which the texts of all depths agree. -/
private theorem exists_shown_of_textWithin {depth : Nat} (ha : heap.Agrees depth)
    (h : heap.textWithin depth (.ref p) = none) :
    ∃ q, heap.Shows p q ∧ heap.textWithin depth (.ref q) = none := by
  rw [← ha (.ref p)] at h
  obtain ⟨_, object, w, ⟨⟩, ho, hw, hnone⟩ := exists_part_of_textBy h
  obtain ⟨q, _, _, rfl, -⟩ : ∃ q object w', w = .ref q ∧ heap[q]? = some object ∧
      w' ∈ object.parts := by
    cases depth with
    | zero =>
      obtain ⟨q, object, w', hq, ho, hw', -⟩ := exists_part_of_textBy hnone
      exact ⟨q, object, w', hq, ho, hw'⟩
    | succ depth =>
      obtain ⟨q, object, w', hq, ho, hw', -⟩ := exists_part_of_textBy hnone
      exact ⟨q, object, w', hq, ho, hw'⟩
  exact ⟨q, ⟨object, ho, hw⟩, hnone⟩

/-! ## Circles -/

/-- From an object that leads to a circle the next one on the way leads to it too. -/
private theorem exists_shown_of_circle (hpq : Relation.ReflTransGen heap.Shows p q)
    (hq : Relation.TransGen heap.Shows q q) :
    ∃ p', heap.Shows p p' ∧ Relation.ReflTransGen heap.Shows p' q := by
  rcases hpq.cases_head with rfl | hnext
  · obtain ⟨r, hpr, hrp⟩ := Relation.TransGen.head'_iff.mp hq
    exact ⟨r, hpr, hrp⟩
  · exact hnext

/-- A text that leads to a circle goes on at every depth. -/
theorem textWithin_of_circle (hpq : Relation.ReflTransGen heap.Shows p q)
    (hq : Relation.TransGen heap.Shows q q) (depth : Nat) :
    heap.textWithin depth (.ref p) = none := by
  rw [← Option.not_isSome_iff_eq_none]
  induction depth generalizing p with
  | zero =>
    intro hsome
    obtain ⟨p', ⟨object, ho, hp'⟩, -⟩ := exists_shown_of_circle hpq hq
    cases isSome_of_textBy ho hsome _ hp'
  | succ depth ih =>
    intro hsome
    obtain ⟨p', ⟨object, ho, hp'⟩, hrest⟩ := exists_shown_of_circle hpq hq
    exact ih hrest (isSome_of_textBy ho hsome _ hp')

/-- A way that never comes to an end among finitely many objects comes round to one of them. -/
private theorem exists_circle (stuck : Nat → Prop) (hlt : ∀ p, stuck p → p < heap.size)
    (hnext : ∀ p, stuck p → ∃ q, heap.Shows p q ∧ stuck q) (hp : stuck p) :
    ∃ q, Relation.ReflTransGen heap.Shows p q ∧ Relation.TransGen heap.Shows q q := by
  by_contra hnone
  have hfree : ∀ q, Relation.ReflTransGen heap.Shows p q → ¬ Relation.TransGen heap.Shows q q :=
    fun q hpq hq => hnone ⟨q, hpq, hq⟩
  -- The stuck objects on the way from `p`, each below those that show it: the order has a minimum.
  let Met := { q : Nat // stuck q ∧ Relation.ReflTransGen heap.Shows p q }
  have hfinite : Finite Met := by
    refine Set.Finite.to_subtype (s := { q | stuck q ∧ Relation.ReflTransGen heap.Shows p q }) ?_
    exact (Set.finite_lt_nat heap.size).subset fun q hq => hlt q hq.1
  let below (a b : Met) : Prop := Relation.TransGen heap.Shows b.1 a.1
  have htrans : IsTrans Met below := ⟨fun _ _ _ hab hbc => hbc.trans hab⟩
  have hirrefl : Std.Irrefl below := ⟨fun a => hfree a.1 a.2.2⟩
  have hwf : WellFounded below := Finite.wellFounded_of_trans_of_irrefl below
  obtain ⟨⟨q, hq, hpq⟩, -, hmin⟩ := hwf.has_min Set.univ ⟨⟨p, hp, .refl⟩, trivial⟩
  obtain ⟨r, hqr, hr⟩ := hnext q hq
  exact hmin ⟨r, hr, hpq.tail hqr⟩ trivial (.single hqr)

/-- A text comes to an end exactly if it leads to no circle, and then it is the text of the value. -/
theorem text?_isSome_iff :
    (heap.text? value).isSome ↔ ∀ p q, value = .ref p → Relation.ReflTransGen heap.Shows p q →
      ¬ Relation.TransGen heap.Shows q q := by
  constructor
  · rintro hsome p q rfl hpq hq
    have hnone : heap.text? (.ref p) = none := textWithin_of_circle hpq hq heap.size
    rw [hnone] at hsome
    cases hsome
  · intro hfree
    by_contra hsome
    obtain ⟨depth, hdepth, hagrees⟩ := exists_agrees heap
    have hsize : heap.Agrees heap.size := hagrees.of_le hdepth
    have hnone : heap.textWithin heap.size value = none := Option.not_isSome_iff_eq_none.mp hsome
    have hlt : ∀ p, heap.textWithin heap.size (.ref p) = none → p < heap.size := by
      intro p hp
      obtain ⟨q, ⟨object, ho, -⟩, -⟩ := exists_shown_of_textWithin hsize hp
      exact (Array.getElem?_eq_some_iff.mp ho).1
    obtain ⟨p, object, w, rfl, -⟩ : ∃ p object w, value = .ref p ∧ heap[p]? = some object ∧
        w ∈ object.parts := by
      rw [← hsize value] at hnone
      obtain ⟨p, object, w, hp, ho, hw, -⟩ := exists_part_of_textBy hnone
      exact ⟨p, object, w, hp, ho, hw⟩
    obtain ⟨q, hpq, hq⟩ := exists_circle (fun p => heap.textWithin heap.size (.ref p) = none) hlt
      (fun p hp => exists_shown_of_textWithin hsize hp) hnone
    exact hfree p q rfl hpq hq

/-- A text that is found is found by any number of steps more. -/
private theorem textWithin_mono {depth depth' : Nat} (hle : depth ≤ depth')
    (h : (heap.textWithin depth value).isSome) :
    heap.textWithin depth' value = heap.textWithin depth value := by
  induction hle with
  | refl => rfl
  | step _ ih => rw [textWithin_succ (by rw [ih]; exact h), ih]

/-- A text that is found at some depth is the text of the value. -/
theorem text?_of_textWithin {depth : Nat} {text : String}
    (h : heap.textWithin depth value = some text) : heap.text? value = some text := by
  rcases Nat.le_total heap.size depth with hle | hle
  · rw [← textWithin_of_le hle, h]
  · exact (textWithin_mono hle (by rw [h]; rfl)).trans h

end Heap

end CallSite
