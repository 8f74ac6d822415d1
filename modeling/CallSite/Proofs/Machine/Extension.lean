import CallSite.Machine.Heap
import Mathlib.Data.Finset.Card

/-!
# Heaps that grow

What a heap tells of its values stays the same when objects are added to it: which class a value is
of, and its text. The text is found by following references as often as there are objects, which is
as often as can make a difference.
-/

namespace CallSite

/-- The value refers to an object of the heap, if it is a reference. -/
def Value.In (heap : Heap) (value : Value) : Prop := ∀ place, value = .ref place → place < heap.size

theorem Value.ref_in {heap : Heap} {place : Nat} {object : HeapObject}
    (h : heap[place]? = some object) : (ref place).In heap := by
  rintro p ⟨⟩
  exact (Array.getElem?_eq_some_iff.mp h).1

/-- The values that an object holds. -/
def HeapObject.values : HeapObject → List Value
  | .instance _ fields => fields.map Prod.snd
  | .list items | .iterator items _ | .array items => items
  | .map entries => entries.flatMap fun (key, value) => [key, value]

/-- The values that the text of an object shows. -/
def HeapObject.parts : HeapObject → List Value
  | .list items | .array items => items
  | .map entries => entries.flatMap fun (key, value) => [key, value]
  | .instance _ _ | .iterator _ _ => []

theorem HeapObject.mem_values_of_mem_parts {object : HeapObject} {value : Value}
    (h : value ∈ object.parts) : value ∈ object.values := by
  cases object <;> first | exact h | cases h

namespace Heap

/-- No object holds a reference to nothing. -/
def Closed (heap : Heap) : Prop :=
  ∀ (p : Nat) object, heap[p]? = some object → ∀ value ∈ object.values, value.In heap

/-- `later` is the heap with objects added. -/
structure Extends (later heap : Heap) : Prop where
  objects : ∀ p, p < heap.size → later[p]? = heap[p]?
  grown : heap.size ≤ later.size

variable {heap later : Heap}

theorem Extends.refl (heap : Heap) : heap.Extends heap := ⟨fun _ _ => rfl, Nat.le_refl _⟩

theorem Extends.trans {latest : Heap} (h : later.Extends heap) (h' : latest.Extends later) :
    latest.Extends heap := by
  refine ⟨fun p hp => ?_, Nat.le_trans h.grown h'.grown⟩
  rw [h'.objects p (Nat.lt_of_lt_of_le hp h.grown), h.objects p hp]

theorem extends_push (heap : Heap) (object : HeapObject) : Extends (heap.push object) heap := by
  refine ⟨fun p hp => ?_, ?_⟩
  · rw [Array.getElem?_push_lt hp]
    exact (Array.getElem?_eq_getElem hp).symm
  · rw [Array.size_push]
    omega

/-! ## Text -/

private theorem mapM_congr {α β : Type} {f g : α → Option β} {xs : List α}
    (h : ∀ x ∈ xs, f x = g x) : xs.mapM f = xs.mapM g := by
  induction xs with
  | nil => rfl
  | cons x xs ih =>
    rw [List.mapM_cons, List.mapM_cons, h x List.mem_cons_self,
      ih fun y hy => h y (List.mem_cons_of_mem x hy)]

private theorem isSome_of_mapM {α β : Type} {f : α → Option β} {xs : List α}
    (h : (xs.mapM f).isSome) : ∀ x ∈ xs, (f x).isSome := by
  induction xs with
  | nil => exact nofun
  | cons x xs ih =>
    rw [List.mapM_cons] at h
    cases hx : f x with
    | none =>
      rw [hx] at h
      cases h
    | some b =>
      cases hxs : xs.mapM f with
      | none =>
        rw [hx, hxs] at h
        cases h
      | some bs =>
        intro y hy
        rcases List.mem_cons.mp hy with rfl | hy
        · rw [hx]
          rfl
        · exact ih (by rw [hxs]; rfl) y hy

/-- The text of a list, from those of its items. -/
private def listText (texts : List String) : String := "[" ++ String.intercalate ", " texts ++ "]"

/-- The text of a map entry, that of the values in it being given. -/
private def entryText (inner : Value → Option String) : Value × Value → Option String :=
  fun (k, v) => do return (← inner k) ++ ":" ++ (← inner v)

theorem mem_parts_map {entries : List (Value × Value)} {entry : Value × Value}
    (h : entry ∈ entries) :
    entry.1 ∈ (HeapObject.map entries).parts ∧ entry.2 ∈ (HeapObject.map entries).parts :=
  ⟨List.mem_flatMap.mpr ⟨entry, h, List.mem_cons_self⟩,
    List.mem_flatMap.mpr ⟨entry, h, List.mem_cons_of_mem _ List.mem_cons_self⟩⟩

/-- The text of a value depends on its object and on the texts of the values shown in it. -/
theorem textBy_congr {inner inner' : Value → Option String} {value : Value}
    (hp : ∀ place, value = .ref place → later[place]? = heap[place]?)
    (hi : ∀ place object, value = .ref place → heap[place]? = some object →
      ∀ w ∈ object.parts, inner' w = inner w) :
    later.textBy inner' value = heap.textBy inner value := by
  cases value with
  | ref place =>
    simp only [textBy, hp place rfl]
    cases ho : heap[place]? with
    | none => rfl
    | some object =>
      have hv := hi place object rfl ho
      cases object with
      | list items => exact congrArg (Option.map listText) (mapM_congr hv)
      | array items => exact congrArg (Option.map listText) (mapM_congr hv)
      | map entries =>
        have hentries : ∀ entry ∈ entries, entryText inner' entry = entryText inner entry := by
          intro entry hentry
          obtain ⟨hkey, hvalue⟩ := mem_parts_map hentry
          simp only [entryText, hv _ hkey, hv _ hvalue]
        exact congrArg (Option.map listText) (mapM_congr hentries)
      | _ => rfl
  | _ => rfl

/-- What a text shows has a text. -/
theorem isSome_of_textBy {inner : Value → Option String} {place : Nat}
    {object : HeapObject} (ho : heap[place]? = some object)
    (h : (heap.textBy inner (.ref place)).isSome) : ∀ w ∈ object.parts, (inner w).isSome := by
  simp only [textBy, ho] at h
  cases object with
  | list items =>
    rw [Option.isSome_map] at h
    exact isSome_of_mapM h
  | array items =>
    rw [Option.isSome_map] at h
    exact isSome_of_mapM h
  | map entries =>
    rw [Option.isSome_map] at h
    have hentries : ∀ entry ∈ entries, (entryText inner entry).isSome := isSome_of_mapM h
    intro w hw
    obtain ⟨⟨key, value⟩, hentry, hmem⟩ := List.mem_flatMap.mp hw
    have hsome := hentries _ hentry
    simp only [entryText] at hsome
    cases hk : inner key with
    | none =>
      rw [hk] at hsome
      cases hsome
    | some text =>
      cases hv : inner value with
      | none =>
        rw [hk, hv] at hsome
        cases hsome
      | some text' =>
        rcases List.mem_cons.mp hmem with rfl | hmem
        · rw [hk]
          rfl
        · rw [List.mem_singleton.mp hmem, hv]
          rfl
  | _ => exact nofun

/-- The objects of the heap are read alike in later heaps, to any depth. -/
private theorem textWithin_extends (hc : heap.Closed) (he : later.Extends heap) (depth : Nat)
    {value : Value} (hv : value.In heap) :
    later.textWithin depth value = heap.textWithin depth value := by
  have hp : ∀ place, value = .ref place → later[place]? = heap[place]? :=
    fun place h => he.objects place (hv place h)
  induction depth generalizing value with
  | zero => exact textBy_congr hp fun _ _ _ _ _ _ => rfl
  | succ depth ih =>
    refine textBy_congr hp fun place object _ ho w hw => ?_
    have hin := hc place object ho w (HeapObject.mem_values_of_mem_parts hw)
    exact ih hin fun p hr => he.objects p (hin p hr)

/-- One more step into collections makes no difference. -/
def Agrees (heap : Heap) (depth : Nat) : Prop :=
  ∀ value : Value, heap.textWithin (depth + 1) value = heap.textWithin depth value

private theorem Agrees.succ {depth : Nat} (h : heap.Agrees depth) :
    heap.Agrees (depth + 1) := fun _ =>
  textBy_congr (fun _ _ => rfl) fun _ _ _ _ w _ => h w

theorem Agrees.of_le {first depth : Nat} (h : heap.Agrees first) (hle : first ≤ depth) :
    heap.Agrees depth := by
  induction hle with
  | refl => exact h
  | step _ ih => exact ih.succ

/-- A text that is found is found by more steps too. -/
theorem textWithin_succ {depth : Nat} {value : Value}
    (h : (heap.textWithin depth value).isSome) :
    heap.textWithin (depth + 1) value = heap.textWithin depth value := by
  induction depth generalizing value with
  | zero =>
    refine textBy_congr (fun _ _ => rfl) fun place object hv ho w hw => ?_
    subst hv
    cases isSome_of_textBy ho h w hw
  | succ depth ih =>
    refine textBy_congr (fun _ _ => rfl) fun place object hv ho w hw => ?_
    subst hv
    exact ih (isSome_of_textBy ho h w hw)

/-- The places whose objects have a text at this depth. -/
private def shownAt (heap : Heap) (depth : Nat) : Finset Nat :=
  (Finset.range heap.size).filter fun place => (heap.textWithin depth (.ref place)).isSome

private theorem shownAt_subset (depth : Nat) : heap.shownAt depth ⊆ heap.shownAt (depth + 1) := by
  intro place hplace
  unfold shownAt at hplace ⊢
  obtain ⟨hrange, hsome⟩ := Finset.mem_filter.mp hplace
  refine Finset.mem_filter.mpr ⟨hrange, ?_⟩
  rw [textWithin_succ hsome]
  exact hsome

/-- If one more step finds the text of no other object, it makes no difference. -/
private theorem agrees_of_shownAt {depth : Nat} (h : heap.shownAt (depth + 1) = heap.shownAt depth) :
    heap.Agrees depth := by
  intro value
  cases hs : (heap.textWithin depth value).isSome with
  | true => exact textWithin_succ hs
  | false =>
    have hnone := Option.not_isSome_iff_eq_none.mp (Bool.eq_false_iff.mp hs)
    cases value with
    | ref place =>
      -- A reference to nothing has a text at every depth.
      have hlt : place < heap.size := by
        refine Nat.lt_of_not_le fun hle => ?_
        have hdangling : heap[place]? = none := Array.getElem?_eq_none hle
        cases depth <;> simp only [textWithin, textBy, hdangling] at hnone <;> cases hnone
      have hrange := Finset.mem_range.mpr hlt
      have hnot : place ∉ heap.shownAt (depth + 1) := by
        rw [h]
        intro hmem
        have hsome := (Finset.mem_filter.mp hmem).2
        rw [hs] at hsome
        cases hsome
      rw [hnone]
      by_contra hsome
      refine hnot (Finset.mem_filter.mpr ⟨hrange, ?_⟩)
      exact Option.isSome_iff_ne_none.mpr hsome
    | _ => cases depth <;> rfl

/-- A step that makes no difference comes before there are more steps than objects. -/
theorem exists_agrees (heap : Heap) : ∃ depth, depth ≤ heap.size ∧ heap.Agrees depth := by
  by_contra hnone
  have hcard : ∀ depth, depth ≤ heap.size + 1 → depth ≤ (heap.shownAt depth).card := by
    intro depth
    induction depth with
    | zero => exact fun _ => Nat.zero_le _
    | succ depth ih =>
      intro hd
      have hle := ih (by omega)
      have hlt : (heap.shownAt depth).card < (heap.shownAt (depth + 1)).card := by
        refine Finset.card_lt_card (Finset.ssubset_iff_subset_ne.mpr ⟨shownAt_subset depth, ?_⟩)
        intro heq
        exact hnone ⟨depth, by omega, agrees_of_shownAt heq.symm⟩
      omega
  have hlast := hcard (heap.size + 1) (Nat.le_refl _)
  have hrange : (heap.shownAt (heap.size + 1)).card ≤ heap.size := by
    refine Nat.le_trans (Finset.card_le_card (t := Finset.range heap.size) ?_) ?_
    · exact Finset.filter_subset _ _
    · exact Nat.le_of_eq (Finset.card_range heap.size)
  omega

/-- More steps than objects find no other text. -/
theorem textWithin_of_le {depth : Nat} (h : heap.size ≤ depth) (value : Value) :
    heap.textWithin depth value = heap.text? value := by
  obtain ⟨first, hfirst, hagrees⟩ := exists_agrees heap
  unfold text?
  induction h with
  | refl => rfl
  | @step depth hle ih =>
    have hstep : heap.Agrees depth := hagrees.of_le (Nat.le_trans hfirst hle)
    rw [← ih]
    exact hstep value

/-- The text of a value is the same in later heaps. -/
theorem text_extends (hc : heap.Closed) (he : later.Extends heap) {value : Value}
    (hv : value.In heap) : later.text value = heap.text value := by
  unfold text
  show (later.textWithin later.size value).getD "" = _
  rw [textWithin_extends hc he _ hv, textWithin_of_le he.grown]

/-! ## Classes -/

theorem classOf_extends (he : later.Extends heap) {value : Value} (hv : value.In heap) :
    later.classOf value = heap.classOf value := by
  cases value with
  | ref place =>
    unfold classOf
    simp only [he.objects place (hv place rfl)]
  | _ => rfl

theorem instanceOf_extends (he : later.Extends heap) (t : ClassTable) {value : Value}
    (hv : value.In heap) (target : String) :
    later.instanceOf t value target = heap.instanceOf t value target := by
  have hclass := classOf_extends he hv
  cases value with
  | ref place =>
    unfold instanceOf
    simp only [he.objects place (hv place rfl), hclass]
  | _ => rfl

/-! ## Objects -/

theorem deref_extends (he : later.Extends heap) {value : Value} (hv : value.In heap)
    (context : String) : later.deref value context = heap.deref value context := by
  cases value with
  | ref place =>
    unfold deref
    simp only [he.objects place (hv place rfl)]
  | _ => rfl

end Heap

end CallSite
