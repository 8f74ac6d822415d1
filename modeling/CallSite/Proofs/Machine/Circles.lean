import CallSite.Proofs.Machine.Ownership
import CallSite.Proofs.Machine.Placing

/-!
# Circles among the objects

A value that is put on a heap holds only what was put there before it, so its text comes to an end.
Calls of `add` on a list are the one way to make an older object hold a younger one, or itself. From
the first call that closes a circle on, there are values whose text has no end; until then there are
none.
-/

namespace CallSite

open Relation

/-! ## One link more -/

section Link

variable {α : Type} {r : α → α → Prop} {a b x y : α}

/-- A way with one link more uses it or does not. -/
private theorem transGen_link (h : TransGen (fun x y => r x y ∨ x = a ∧ y = b) x y) :
    TransGen r x y ∨ ReflTransGen r x a ∧ ReflTransGen r b y := by
  induction h with
  | single hlink =>
    rcases hlink with hr | ⟨rfl, rfl⟩
    · exact Or.inl (.single hr)
    · exact Or.inr ⟨.refl, .refl⟩
  | tail _ hlink ih =>
    rcases hlink with hr | ⟨rfl, rfl⟩
    · rcases ih with hold | ⟨hxa, hb⟩
      · exact Or.inl (hold.tail hr)
      · exact Or.inr ⟨hxa, hb.tail hr⟩
    · rcases ih with hold | ⟨hxa, -⟩
      · exact Or.inr ⟨hold.to_reflTransGen, .refl⟩
      · exact Or.inr ⟨hxa, .refl⟩

/-- A link closes a circle exactly if there was a way back. -/
private theorem irrefl_link_iff :
    (∀ x, ¬ TransGen (fun x y => r x y ∨ x = a ∧ y = b) x x) ↔
      (∀ x, ¬ TransGen r x x) ∧ ¬ ReflTransGen r b a := by
  constructor
  · refine fun hfree => ⟨fun x hx => hfree x (TransGen.mono (fun _ _ => Or.inl) _ _ hx), ?_⟩
    intro hback
    exact hfree a (.head' (Or.inr ⟨rfl, rfl⟩) (ReflTransGen.mono (fun _ _ => Or.inl) _ _ hback))
  · rintro ⟨hfree, hback⟩ x hx
    rcases transGen_link hx with hold | ⟨hxa, hbx⟩
    · exact hfree x hold
    · exact hback (hbx.trans hxa)

end Link

namespace Heap

variable {heap later : Heap} {p q place : Nat} {items : List Value} {value : Value}

private theorem acyclic_congr (h : ∀ p q, later.Shows p q ↔ heap.Shows p q) :
    later.Acyclic ↔ heap.Acyclic := by
  have hshows : later.Shows = heap.Shows := funext fun p => funext fun q => propext (h p q)
  unfold Acyclic
  rw [hshows]

/-! ## Changes of the heap -/

/-- An object that shows nothing changes nothing in what is shown. -/
private theorem shows_push {object : HeapObject} (h : object.parts = []) :
    Shows (heap.push object) p q ↔ heap.Shows p q := by
  unfold Shows
  rw [Array.getElem?_push]
  split
  · rename_i hp
    have hnone : heap[p]? = none := Array.getElem?_eq_none (Nat.le_of_eq hp.symm)
    rw [hnone]
    constructor
    · rintro ⟨_, ⟨⟩, hq⟩
      rw [h] at hq
      cases hq
    · rintro ⟨_, ⟨⟩, -⟩
  · rfl

private theorem shows_next {k : Nat} (h : heap[place]? = some (.iterator items k)) :
    Shows (heap.setIfInBounds place (.iterator items (k + 1))) p q ↔ heap.Shows p q := by
  unfold Shows
  rcases eq_or_ne place p with rfl | hne
  · rw [Array.getElem?_setIfInBounds_self_of_lt (Array.getElem?_eq_some_iff.mp h).1, h]
    constructor <;> (rintro ⟨_, ⟨⟩, hq⟩; cases hq)
  · rw [Array.getElem?_setIfInBounds_ne hne]

/-- A list that is added to shows the new item besides the old. -/
private theorem shows_add (h : heap[place]? = some (.list items)) :
    Shows (heap.setIfInBounds place (.list (items ++ [value]))) p q ↔
      heap.Shows p q ∨ p = place ∧ value = .ref q := by
  unfold Shows
  rcases eq_or_ne place p with rfl | hne
  · rw [Array.getElem?_setIfInBounds_self_of_lt (Array.getElem?_eq_some_iff.mp h).1, h]
    constructor
    · rintro ⟨_, ⟨⟩, hq⟩
      rcases List.mem_append.mp hq with hold | hnew
      · exact Or.inl ⟨_, rfl, hold⟩
      · exact Or.inr ⟨rfl, (List.mem_singleton.mp hnew).symm⟩
    · rintro (⟨_, ⟨⟩, hq⟩ | ⟨-, rfl⟩)
      · exact ⟨_, rfl, List.mem_append.mpr (Or.inl hq)⟩
      · exact ⟨_, rfl, List.mem_append.mpr (Or.inr List.mem_cons_self)⟩
  · rw [Array.getElem?_setIfInBounds_ne hne]
    refine (or_iff_left ?_).symm
    rintro ⟨rfl, -⟩
    exact hne rfl

/-- Putting a value on a heap closes no circle. -/
theorem acyclic_place_iff (heap : Heap) (boxed : Bool) (spec : ValueSpec) :
    (heap.place boxed spec).1.Acyclic ↔ heap.Acyclic := by
  have hextends := place_extends heap boxed spec
  have hkept : ∀ p q, heap.Shows p q → (heap.place boxed spec).1.Shows p q := by
    rintro p q ⟨object, ho, hq⟩
    refine ⟨object, ?_, hq⟩
    rw [hextends.objects p (Array.getElem?_eq_some_iff.mp ho).1, ho]
  refine ⟨fun hfree p hp => hfree p (TransGen.mono hkept _ _ hp), fun hfree p hp => ?_⟩
  -- From a new object the way goes down among the new ones, so it never comes round, and no way
  -- that ends at an old object passes a new one.
  have hlink : ∀ p q, q < heap.size → (heap.place boxed spec).1.Shows p q →
      p < heap.size ∧ heap.Shows p q := by
    intro p q hq hshows
    have hp : p < heap.size := by
      refine Nat.lt_of_not_le fun hle => ?_
      have hback := place_shows hle hshows
      omega
    obtain ⟨object, ho, hpart⟩ := hshows
    exact ⟨hp, object, (hextends.objects p hp).symm.trans ho, hpart⟩
  have hold : ∀ p q, TransGen (heap.place boxed spec).1.Shows p q → q < heap.size →
      TransGen heap.Shows p q := by
    intro p q hway
    induction hway with
    | single hshows => exact fun hq => .single (hlink _ _ hq hshows).2
    | tail _ hshows ih =>
      intro hq
      obtain ⟨hmid, hshows⟩ := hlink _ _ hq hshows
      exact (ih hmid).tail hshows
  rcases Nat.lt_or_ge p heap.size with hlt | hge
  · exact hfree p (hold p p hp hlt)
  · exact Nat.lt_irrefl p (place_leads hge hp).2

/-- A step from `heap` to `later` closes a circle: a call of `add` puts at the end of the list at
`place` a reference to an object that leads to this list already. -/
def Closes (heap later : Heap) (i : Instruction) : Prop :=
  ∃ dispatch member place items item, i = .invoke dispatch member ∧ member.name = "add" ∧
    heap[place]? = some (.list items) ∧
    later = heap.setIfInBounds place (.list (items ++ [.ref item])) ∧
    ReflTransGen heap.Shows item place

private theorem getElem?_add (h : heap[place]? = some (.list items)) :
    (heap.setIfInBounds place (.list (items ++ [value])))[place]? =
      some (.list (items ++ [value])) :=
  Array.getElem?_setIfInBounds_self_of_lt (Array.getElem?_eq_some_iff.mp h).1

private theorem not_closes_self {i : Instruction} : ¬ heap.Closes heap i := by
  rintro ⟨_, _, place, items, item, -, -, hp, hlater, -⟩
  have hat : (heap.setIfInBounds place (.list (items ++ [.ref item])))[place]? =
      some (.list (items ++ [.ref item])) := getElem?_add hp
  rw [← hlater, hp] at hat
  have hlength := congrArg List.length (HeapObject.list.inj (Option.some.inj hat))
  rw [List.length_append, List.length_singleton] at hlength
  omega

/-- A list that is added to tells which list it is and what was added. -/
private theorem add_inj {place' : Nat} {items' : List Value} {value' : Value}
    (hp : heap[place]? = some (.list items)) (hp' : heap[place']? = some (.list items'))
    (h : heap.setIfInBounds place (.list (items ++ [value])) =
      heap.setIfInBounds place' (.list (items' ++ [value']))) : place' = place ∧ value' = value := by
  have hat : (heap.setIfInBounds place (.list (items ++ [value])))[place]? =
      some (.list (items ++ [value])) := getElem?_add hp
  rcases eq_or_ne place' place with rfl | hne
  · rw [h, getElem?_add hp'] at hat
    have hlast := (List.append_inj' (HeapObject.list.inj (Option.some.inj hat)) rfl).2
    exact ⟨rfl, (List.cons.inj hlast).1⟩
  · rw [h, Array.getElem?_setIfInBounds_ne hne, hp] at hat
    have hlength := congrArg List.length (HeapObject.list.inj (Option.some.inj hat))
    rw [List.length_append, List.length_singleton] at hlength
    omega

/-- A step that leaves what is shown as it is closes no circle. -/
private theorem acyclic_iff_of_shows {i : Instruction}
    (hshows : ∀ p q, later.Shows p q ↔ heap.Shows p q)
    (hadd : ∀ dispatch member, i = .invoke dispatch member → member.name ≠ "add") :
    later.Acyclic ↔ heap.Acyclic ∧ ¬ heap.Closes later i := by
  have hnot : ¬ heap.Closes later i := by
    rintro ⟨dispatch, member, _, _, _, hi, hname, -⟩
    exact hadd dispatch member hi hname
  rw [acyclic_congr hshows]
  exact (and_iff_left hnot).symm

private theorem acyclic_iff_of_add {i : Instruction} {dispatch : Dispatch} {member : MemberRef}
    (hi : i = .invoke dispatch member) (hname : member.name = "add")
    (hp : heap[place]? = some (.list items)) :
    Acyclic (heap.setIfInBounds place (.list (items ++ [value]))) ↔
      heap.Acyclic ∧ ¬ heap.Closes (heap.setIfInBounds place (.list (items ++ [value]))) i := by
  have hcloses : heap.Closes (heap.setIfInBounds place (.list (items ++ [value]))) i ↔
      ∃ item, value = .ref item ∧ ReflTransGen heap.Shows item place := by
    constructor
    · rintro ⟨_, _, place', items', item, -, -, hp', hlater, hway⟩
      obtain ⟨rfl, hvalue⟩ := add_inj hp hp' hlater
      exact ⟨item, hvalue.symm, hway⟩
    · rintro ⟨item, rfl, hway⟩
      exact ⟨dispatch, member, place, items, item, hi, hname, hp, rfl, hway⟩
  rw [hcloses]
  by_cases hvalue : ∃ item, value = .ref item
  · obtain ⟨item, rfl⟩ := hvalue
    have hshows : Shows (heap.setIfInBounds place (.list (items ++ [.ref item]))) =
        fun p q => heap.Shows p q ∨ p = place ∧ q = item := by
      funext p q
      rw [shows_add hp, Value.ref.injEq, eq_comm (a := item)]
    unfold Acyclic
    rw [hshows, irrefl_link_iff]
    refine and_congr_right fun _ => not_congr ⟨fun hway => ⟨item, rfl, hway⟩, ?_⟩
    rintro ⟨_, ⟨⟩, hway⟩
    exact hway
  · have hshows : ∀ p q, Shows (heap.setIfInBounds place (.list (items ++ [value]))) p q ↔
        heap.Shows p q := by
      intro p q
      rw [shows_add hp]
      exact or_iff_left fun h => hvalue ⟨q, h.2⟩
    rw [acyclic_congr hshows]
    exact (and_iff_left fun ⟨item, h, _⟩ => hvalue ⟨item, h⟩).symm

/-- After a step the heap has a circle if it had one before or the step closed one. -/
private theorem execute_acyclic_iff {m : Machine} (hm : m.Quiet) {code : List Instruction}
    {frame frame' : Frame} {i : Instruction}
    (h : m.execute code heap frame i = .ok (later, frame')) :
    later.Acyclic ↔ heap.Acyclic ∧ ¬ heap.Closes later i := by
  cases Machine.execute_steps h with
  | @invoke dispatch member later result _ hr =>
    obtain ⟨htouches, -⟩ := Machine.invoke_touches hm hr
    cases htouches with
    | same => exact (and_iff_left not_closes_self).symm
    | iterator hname =>
      refine acyclic_iff_of_shows (fun p q => shows_push rfl) ?_
      rintro _ _ ⟨⟩ hadd
      exact absurd (hname.symm.trans hadd) (by decide)
    | next hname hp =>
      refine acyclic_iff_of_shows (fun p q => shows_next hp) ?_
      rintro _ _ ⟨⟩ hadd
      exact absurd (hname.symm.trans hadd) (by decide)
    | add value hname _ hp => exact acyclic_iff_of_add rfl hname hp
  | @new owner =>
    have hblank : (Machine.blankObject owner).parts = [] := by
      unfold Machine.blankObject
      split
      · rfl
      · split <;> rfl
    exact acyclic_iff_of_shows (fun p q => shows_push hblank) (fun _ _ hi => nomatch hi)
  | _ => exact (and_iff_left not_closes_self).symm

end Heap

/-! ## Runs -/

namespace Machine

/-- One of the first `steps` steps of a run closes a circle. -/
def ClosesWithin (m : Machine) (code : List Instruction) : (steps : Nat) → Heap → Frame → Prop
  | 0, _, _ => False
  | steps + 1, heap, frame => ∃ i later frame', code[frame.position]? = some i ∧
      m.execute code heap frame i = .ok (later, frame') ∧
      (heap.Closes later i ∨ ClosesWithin m code steps later frame')

/-- After a run the heap has a circle if it had one before or a step of the run closed one. -/
private theorem runFrom_acyclic_iff {m : Machine} (hm : m.Quiet) (code : List Instruction)
    (steps : Nat) (heap : Heap) (frame : Frame) :
    (m.runFrom code steps heap frame).1.Acyclic ↔
      heap.Acyclic ∧ ¬ m.ClosesWithin code steps heap frame := by
  induction steps generalizing heap frame with
  | zero =>
    have hheap : (m.runFrom code 0 heap frame).1 = heap := by
      unfold runFrom
      cases code[frame.position]? <;> rfl
    rw [hheap]
    exact (and_iff_left id).symm
  | succ steps ih =>
    unfold runFrom ClosesWithin
    cases hi : code[frame.position]? with
    | none =>
      refine (and_iff_left ?_).symm
      rintro ⟨i, _, _, ⟨⟩, -⟩
    | some i =>
      simp only
      cases he : m.execute code heap frame i with
      | error e =>
        refine (and_iff_left ?_).symm
        rintro ⟨_, _, _, ⟨⟩, hok, -⟩
        cases he.symm.trans hok
      | ok next =>
        obtain ⟨later, frame'⟩ := next
        have hstep : (∃ j later₁ frame₁, some i = some j ∧ m.execute code heap frame j =
              .ok (later₁, frame₁) ∧ (heap.Closes later₁ j ∨
              m.ClosesWithin code steps later₁ frame₁)) ↔
            heap.Closes later i ∨ m.ClosesWithin code steps later frame' := by
          constructor
          · rintro ⟨_, _, _, ⟨⟩, hok, hcloses⟩
            cases he.symm.trans hok
            exact hcloses
          · exact fun hcloses => ⟨i, later, frame', rfl, he, hcloses⟩
        rw [hstep, ih, Heap.execute_acyclic_iff hm he, not_or, and_assoc]

end Machine

namespace Heap

/-- A heap that was made by putting values on it and by runs, each as far as it went at some time.
`closed` tells whether a step of one of the runs closed a circle. -/
inductive Made : Heap → (closed : Prop) → Prop
  | empty : Made #[] False
  | place {heap closed} (boxed : Bool) (spec : ValueSpec) : Made heap closed →
      Made (heap.place boxed spec).1 closed
  | run {heap closed} {m : Machine} (hm : m.Quiet) (code : List Instruction) (locals : List Value)
      (steps : Nat) : Made heap closed →
      Made (m.runFrom code steps heap ⟨.ofValues locals, [], 0⟩).1
        (closed ∨ m.ClosesWithin code steps heap ⟨.ofValues locals, [], 0⟩)

private theorem Made.acyclic_iff {heap : Heap} {closed : Prop} (h : Made heap closed) :
    heap.Acyclic ↔ ¬ closed := by
  induction h with
  | empty =>
    refine iff_of_true (fun p hp => ?_) id
    obtain ⟨_, ⟨_, ho, -⟩, -⟩ := TransGen.head'_iff.mp hp
    cases ho
  | place boxed spec _ ih => rw [acyclic_place_iff, ih]
  | run hm code locals steps _ ih => rw [Machine.runFrom_acyclic_iff hm, ih, not_or]

/-- On a heap made by putting values on it and by runs, the text of every value comes to an end
exactly as long as no step of a run has closed a circle by adding to a list an object that leads to
this list. Afterwards a text comes to an end unless it leads to a circle. A text that comes to an
end is what the value is shown as and what `toString` gives in a run. -/
theorem Made.texts_end_iff {heap : Heap} {closed : Prop} (h : Made heap closed) :
    ((∀ value, ∃ depth, (heap.textWithin depth value).isSome) ↔ ¬ closed) ∧
    (∀ value, (∃ depth, (heap.textWithin depth value).isSome) ↔ ∀ p q, value = .ref p →
      ReflTransGen heap.Shows p q → ¬ TransGen heap.Shows q q) ∧
    ∀ depth value text, heap.textWithin depth value = some text → heap.text value = text ∧
      ∀ (member : MemberRef) (args : List Value), member.name = "toString" →
        value.isNull = false → Machine.callOn heap member value args = .ok (heap, .string text) := by
  have hends : ∀ value, (∃ depth, (heap.textWithin depth value).isSome) ↔ ∀ p q, value = .ref p →
      ReflTransGen heap.Shows p q → ¬ TransGen heap.Shows q q := by
    intro value
    constructor
    · rintro ⟨depth, hdepth⟩
      obtain ⟨text, htext⟩ := Option.isSome_iff_exists.mp hdepth
      refine text?_isSome_iff.mp ?_
      rw [text?_of_textWithin htext]
      rfl
    · exact fun hfree => ⟨heap.size, text?_isSome_iff.mpr hfree⟩
  refine ⟨?_, hends, fun depth value text hd => ?_⟩
  · rw [← h.acyclic_iff]
    exact ⟨fun hall p hp => (hends (.ref p)).mp (hall _) p p rfl .refl hp,
      fun hfree value => (hends value).mpr fun p q _ _ => hfree q⟩
  · have htext : heap.text value = text := by
      unfold Heap.text
      rw [text?_of_textWithin hd]
      rfl
    refine ⟨htext, fun member args hname hnull => ?_⟩
    have hclass : member.name ≠ "getClass" := by
      rw [hname]
      decide
    unfold Machine.callOn
    simp only [hnull, Bool.false_eq_true, if_false, if_neg hclass, if_pos hname, htext]

/-- Code that makes a list, puts a new list into it and leaves it as the result. -/
def addToOther : List Instruction :=
  [.new "java/util/ArrayList", .dup, .new "java/util/ArrayList",
    .invoke .interface ⟨"java/util/Collection", "add", "(Ljava/lang/Object;)Z"⟩, .pop]

theorem Made.texts_end_iff_addToOther :
    let heap : Heap := #[.list [.ref 1], .list []]
    let closed := (Machine.new .standard .standard).ClosesWithin addToOther 5 #[]
      ⟨.ofValues [], [], 0⟩
    Made heap (False ∨ closed) ∧ (∀ value, ∃ depth, (heap.textWithin depth value).isSome) ∧
      ¬ (False ∨ closed) := by
  intro heap closed
  have hm : (Machine.new .standard .standard).Quiet :=
    fun _ he _ _ _ _ h => Helper.standard_quiet .standard he h
  have hmade : Made heap (False ∨ closed) := Made.empty.run hm addToOther [] 5
  have hends : ∀ value, ∃ depth, (heap.textWithin depth value).isSome := by
    intro value
    match value with
    | .ref 0 => exact ⟨1, rfl⟩
    | .ref 1 | .ref (_ + 2) | .null | .int _ | .long _ | .double _ => exact ⟨0, rfl⟩
    | .string _ | .boxed _ | .cls _ => exact ⟨0, rfl⟩
  exact ⟨hmade, hends, hmade.texts_end_iff.1.mp hends⟩

/-- Code that makes a list, adds it to itself and leaves it as the result. -/
def addToItself : List Instruction :=
  [.new "java/util/ArrayList", .dup, .dup,
    .invoke .interface ⟨"java/util/Collection", "add", "(Ljava/lang/Object;)Z"⟩, .pop]

/-- The text of a list that was added to itself has no end. -/
theorem text_endless_addToItself :
    let run := (Machine.new .standard .standard).run addToItself []
    run.2 = .ok (.ref 0) ∧ run.1.heap = #[.list [.ref 0]] ∧
      ∀ depth, run.1.heap.textWithin depth (.ref 0) = none := by
  intro run
  have hheap : run.1.heap = #[.list [.ref 0]] := rfl
  refine ⟨rfl, hheap, fun depth => ?_⟩
  rw [hheap]
  exact textWithin_of_circle .refl (.single ⟨.list [.ref 0], rfl, List.mem_cons_self⟩) depth

end Heap

end CallSite
