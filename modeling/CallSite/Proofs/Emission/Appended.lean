import CallSite.Proofs.Code.Shape
import CallSite.Proofs.Emission.Access

/-!
# Code with labels of its own

Code is written behind the code that is there, and takes its labels while it is written. So no
label is bound twice in the trees that are put together from such pieces.
-/

namespace CallSite

namespace Emit

/-- The draft has grown by the code of block `x`, whose labels were taken meanwhile. -/
structure Appended (d d' : Draft) (x : Block) : Prop where
  code : d'.code = d.code ++ x.flatten
  later : d.nextLabel ≤ d'.nextLabel
  nodup : x.labels.Nodup
  fresh : ∀ l ∈ x.labels, d.nextLabel ≤ l ∧ l < d'.nextLabel

namespace Appended

variable {d d' mid first last : Draft} {x y : Block} {test exit : Nat}

/-- Only the code and the labels of the first draft count. -/
theorem of_eq (h : Appended first d' x) (hc : first.code = d.code)
    (hl : first.nextLabel = d.nextLabel) : Appended d d' x where
  code := hc ▸ h.code
  later := hl ▸ h.later
  nodup := h.nodup
  fresh := hl ▸ h.fresh

/-- Straight code. -/
theorem straight {is : List Instruction} (hc : d'.code = d.code ++ is)
    (hl : d'.nextLabel = d.nextLabel) : Appended d d' (.code is) where
  code := hc
  later := Nat.le_of_eq hl.symm
  nodup := List.nodup_nil
  fresh := nofun

theorem seq (h : Appended d mid x) (h' : Appended mid d' y) : Appended d d' (.seq x y) := by
  have hx := h.later
  have hy := h'.later
  refine ⟨?_, Nat.le_trans hx hy, ?_, fun l hl => ?_⟩
  · rw [h'.code, h.code, List.append_assoc]
    rfl
  · refine List.nodup_append.mpr ⟨h.nodup, h'.nodup, fun l hl m hm => ?_⟩
    have hl' := h.fresh l hl
    have hm' := h'.fresh m hm
    omega
  · rcases List.mem_append.mp hl with hl | hl
    · have hl' := h.fresh l hl
      omega
    · have hl' := h'.fresh l hl
      omega

/-- Code for a topmost operand other than null. -/
theorem orNull
    (h : Appended { d with
      code := d.code ++ [.dup, .jumpIfNull d.nextLabel], nextLabel := d.nextLabel + 1 } last x)
    (hd : d' = { last with
      code := last.code ++
        [.jump last.nextLabel, .label d.nextLabel, .pop, .pushNull, .label last.nextLabel]
      nextLabel := last.nextLabel + 1 }) :
    Appended d d' (.orNull d.nextLabel last.nextLabel x) := by
  have hlater : d.nextLabel + 1 ≤ last.nextLabel := h.later
  have hfresh : ∀ l ∈ x.labels, d.nextLabel + 1 ≤ l ∧ l < last.nextLabel := h.fresh
  subst hd
  refine ⟨?_, by show d.nextLabel ≤ last.nextLabel + 1; omega, ?_, fun l hl => ?_⟩
  · show last.code ++ _ = _
    rw [h.code]
    simp only [Block.flatten, List.append_assoc, List.cons_append, List.nil_append]
  · refine List.nodup_append.mpr ⟨h.nodup, ?_, fun l hl m hm => ?_⟩
    · simp only [List.nodup_cons, List.mem_singleton, List.not_mem_nil, not_false_eq_true,
        List.nodup_nil, and_true]
      omega
    · have hl' := hfresh l hl
      simp only [List.mem_cons, List.not_mem_nil, or_false] at hm
      omega
  · show d.nextLabel ≤ l ∧ l < last.nextLabel + 1
    rcases List.mem_append.mp hl with hl | hl
    · have hl' := hfresh l hl
      omega
    · simp only [List.mem_cons, List.not_mem_nil, or_false] at hl
      omega

/-- The labels of a loop around the parts with labels `xs` and `ys`. -/
private theorem nodup_loop {xs ys : List Nat} {l n : Nat} (hx : xs.Nodup) (hy : ys.Nodup)
    (hxs : ∀ m ∈ xs, l + 2 ≤ m ∧ m < n) (hys : ∀ m ∈ ys, n ≤ m) (hn : l + 2 ≤ n) :
    (xs ++ l :: (ys ++ [l + 1])).Nodup := by
  have hexit : (ys ++ [l + 1]).Nodup := by
    refine List.nodup_append.mpr ⟨hy, List.pairwise_singleton _ _, fun m hm k hk => ?_⟩
    have hm' := hys m hm
    rw [List.mem_singleton.mp hk]
    omega
  have htest : l ∉ ys ++ [l + 1] := by
    intro hl
    rcases List.mem_append.mp hl with hl | hl
    · have hl' := hys l hl
      omega
    · have hl' := List.mem_singleton.mp hl
      omega
  refine List.nodup_append.mpr ⟨hx, List.nodup_cons.mpr ⟨htest, hexit⟩, fun m hm k hk => ?_⟩
  have hm' := hxs m hm
  simp only [List.mem_cons, List.mem_append, List.not_mem_nil, or_false] at hk
  rcases hk with rfl | hk | rfl
  · omega
  · have hk' := hys k hk
    omega
  · omega

/-- A loop takes its two labels before those of the list and of the element. -/
theorem collect {slots : LoopSlots} {target : String} {inside : Draft}
    (hx : Appended first mid x) (hfirst : first.code = d.code ∧ first.nextLabel = d.nextLabel + 2)
    (hy : Appended inside last y)
    (hinside : inside.code = mid.code ++ (slots.start ++ .label d.nextLabel :: (slots.test ++
        .jumpIfZero (d.nextLabel + 1) :: slots.advance target)) ∧
      inside.nextLabel = mid.nextLabel)
    (hd : d'.code = last.code ++ (LoopSlots.add ++
        [.jump d.nextLabel, .label (d.nextLabel + 1), .load .reference slots.result]) ∧
      d'.nextLabel = last.nextLabel) :
    Appended d d' (slots.collect d.nextLabel (d.nextLabel + 1) target x y) := by
  have hxl := hx.later
  have hyl := hy.later
  have hxf := hx.fresh
  have hyf := hy.fresh
  rw [hfirst.2] at hxl hxf
  rw [hinside.2] at hyl hyf
  have hlabels : (slots.collect d.nextLabel (d.nextLabel + 1) target x y).labels =
      x.labels ++ d.nextLabel :: (y.labels ++ [d.nextLabel + 1]) := by
    simp only [LoopSlots.collect, Block.labels, List.nil_append, List.append_nil]
  refine ⟨?_, ?_, ?_, fun l hl => ?_⟩
  · rw [hd.1, hy.code, hinside.1, hx.code, hfirst.1]
    simp only [LoopSlots.collect, Block.flatten, List.append_assoc, List.cons_append,
      List.nil_append]
  · rw [hd.2]
    omega
  · rw [hlabels]
    exact nodup_loop hx.nodup hy.nodup hxf (fun l hl => (hyf l hl).1) hxl
  · rw [hd.2]
    simp only [hlabels, List.mem_append, List.mem_cons, List.not_mem_nil, or_false] at hl
    rcases hl with hl | rfl | hl | rfl
    · have hl' := hxf l hl
      omega
    · omega
    · have hl' := hyf l hl
      omega
    · omega

end Appended

end Emit

end CallSite
