import CallSite.Fixture.Source
import CallSite.Proofs.Machine.Rendering

/-!
# Putting values on the heap

A value that is put on the heap leaves what is there alone. Its lists, arrays, maps and objects
follow in post-order, each right after what it holds, so they refer to each other only and only
backwards, and where they come to lie depends on nothing but the size of the heap.
-/

namespace CallSite

namespace ValueSpec

/-- The value is an object of its own: a list, an array, a map or an instance. -/
def isObject : ValueSpec → Bool
  | .list _ | .array _ | .map _ | .object _ _ => true
  | _ => false

/-- What the value holds, in the order of its items or entries. -/
def parts : ValueSpec → List ValueSpec
  | .list items | .array items => items
  | .map entries | .object _ entries => entries.map Prod.snd
  | _ => []

/-- The names or keys of what the value holds. -/
def keys : ValueSpec → List String
  | .map entries | .object _ entries => entries.map Prod.fst
  | _ => []

/-- Lists and maps box the numbers in them, arrays and instances do not. -/
def boxesParts : ValueSpec → Bool
  | .list _ | .map _ => true
  | _ => false

mutual

/-- The objects of a value, parts before the whole. -/
def objects : ValueSpec → List ValueSpec
  | .list items => objectsOf items ++ [.list items]
  | .array items => objectsOf items ++ [.array items]
  | .map entries => objectsOfNamed entries ++ [.map entries]
  | .object cls fields => objectsOfNamed fields ++ [.object cls fields]
  | _ => []

def objectsOf : List ValueSpec → List ValueSpec
  | [] => []
  | item :: items => objects item ++ objectsOf items

def objectsOfNamed : List (String × ValueSpec) → List ValueSpec
  | [] => []
  | (_, item) :: items => objects item ++ objectsOfNamed items

end

/-- The value whose objects start at place `first`. What is no object is the same everywhere. -/
def valueAt (first : Nat) (boxed : Bool) (spec : ValueSpec) : Value :=
  if spec.isObject then .ref (first + spec.objects.length - 1)
  else (Heap.place #[] boxed spec).2

/-- The values whose objects start at place `first`, those of one after those of the other. -/
def valuesAt (first : Nat) (boxed : Bool) : List ValueSpec → List Value
  | [] => []
  | item :: items => item.valueAt first boxed :: valuesAt (first + item.objects.length) boxed items

/-- The object that holds `values`. -/
def holding? (values : List Value) : ValueSpec → Option HeapObject
  | .list _ => some (.list values)
  | .array _ => some (.array values)
  | .map entries =>
    some (.map (((entries.map Prod.fst).zip values).map fun (key, value) => (.string key, value)))
  | .object cls fields => some (.instance (internalOf cls) ((fields.map Prod.fst).zip values))
  | _ => none

/-- The object at `place` whose parts lie right before it. -/
def objectAt? (place : Nat) (spec : ValueSpec) : Option HeapObject :=
  spec.holding? (valuesAt (place + 1 - spec.objects.length) spec.boxesParts spec.parts)

end ValueSpec

open ValueSpec

theorem ValueSpec.objectsOf_eq (items : List ValueSpec) :
    objectsOf items = items.flatMap objects := by
  induction items with
  | nil => rfl
  | cons item items ih => rw [objectsOf, ih, List.flatMap_cons]

theorem ValueSpec.objectsOfNamed_eq (entries : List (String × ValueSpec)) :
    objectsOfNamed entries = objectsOf (entries.map Prod.snd) := by
  induction entries with
  | nil => rfl
  | cons entry entries ih => rw [objectsOfNamed, ih, List.map_cons, objectsOf]

/-- The objects of an object are those of its parts, then itself. -/
theorem ValueSpec.objects_eq {spec : ValueSpec} (h : spec.isObject) :
    spec.objects = objectsOf spec.parts ++ [spec] := by
  cases spec with
  | list items => rw [objects, parts]
  | array items => rw [objects, parts]
  | map entries => rw [objects, parts, objectsOfNamed_eq]
  | object cls fields => rw [objects, parts, objectsOfNamed_eq]
  | _ => cases h

theorem ValueSpec.objects_of_not {spec : ValueSpec} (h : spec.isObject = false) :
    spec.objects = [] := by
  cases spec <;> first | rfl | cases h

/-! ## References among the values -/

/-- A reference among values whose objects start at `first` is to one of these. -/
theorem ValueSpec.valueAt_ref {first q : Nat} {boxed : Bool} {spec : ValueSpec}
    (h : spec.valueAt first boxed = .ref q) :
    first ≤ q ∧ q < first + spec.objects.length := by
  unfold valueAt at h
  split at h
  · rename_i hobject
    cases h
    rw [objects_eq hobject, List.length_append, List.length_singleton]
    omega
  · rename_i hobject
    cases spec <;> first | exact absurd rfl hobject | (cases boxed <;> cases h)

theorem ValueSpec.valuesAt_ref {first q : Nat} {boxed : Bool} {items : List ValueSpec}
    (h : .ref q ∈ valuesAt first boxed items) :
    first ≤ q ∧ q < first + (objectsOf items).length := by
  induction items generalizing first with
  | nil => cases h
  | cons item items ih =>
    rw [objectsOf, List.length_append]
    rcases List.mem_cons.mp h with hq | hq
    · obtain ⟨hle, hlt⟩ := valueAt_ref hq.symm
      omega
    · obtain ⟨hle, hlt⟩ := ih hq
      omega

/-- An object holds the values it is made of, and the strings that are its keys. -/
theorem ValueSpec.ref_of_holding? {values : List Value} {spec : ValueSpec} {object : HeapObject}
    {q : Nat} (h : spec.holding? values = some object) (hq : .ref q ∈ object.values) :
    .ref q ∈ values := by
  cases spec with
  | list items => cases h; exact hq
  | array items => cases h; exact hq
  | map entries =>
    cases h
    obtain ⟨_, hentry, hmem⟩ := List.mem_flatMap.mp hq
    obtain ⟨⟨key, value⟩, hzip, rfl⟩ := List.mem_map.mp hentry
    rcases List.mem_cons.mp hmem with hk | hv
    · cases hk
    · rw [List.mem_singleton.mp hv]
      exact (List.of_mem_zip hzip).2
  | object cls fields =>
    cases h
    obtain ⟨⟨name, value⟩, hentry, rfl⟩ := List.mem_map.mp hq
    exact (List.of_mem_zip hentry).2
  | _ => cases h

namespace Heap

/-- `later` is the heap with the objects of `nodes` put after its own. They refer to each other
only, and only backwards. -/
private structure Lays (heap later : Heap) (nodes : List ValueSpec) (new : List HeapObject) :
    Prop where
  eq : later = heap ++ new.toArray
  objects : new.map some = nodes.mapIdx fun k node => node.objectAt? (heap.size + k)
  backwards : ∀ k object, new[k]? = some object → ∀ q, .ref q ∈ object.values →
    heap.size ≤ q ∧ q < heap.size + k

namespace Lays

variable {heap mid later : Heap} {nodes nodes' : List ValueSpec} {new new' : List HeapObject}

private theorem length_eq (h : heap.Lays later nodes new) : new.length = nodes.length := by
  have hlength := congrArg List.length h.objects
  rwa [List.length_map, List.length_mapIdx] at hlength

private theorem size_eq (h : heap.Lays later nodes new) :
    later.size = heap.size + nodes.length := by
  rw [h.eq, Array.size_append, ← h.length_eq]
  rfl

private theorem nil (heap : Heap) : heap.Lays heap [] [] := by
  refine ⟨?_, rfl, nofun⟩
  exact (Array.append_empty).symm

private theorem append (h : heap.Lays mid nodes new) (h' : mid.Lays later nodes' new') :
    heap.Lays later (nodes ++ nodes') (new ++ new') := by
  refine ⟨?_, ?_, ?_⟩
  · rw [h'.eq, h.eq, Array.append_assoc]
    exact congrArg (heap ++ ·) (List.append_toArray new new')
  · rw [List.map_append, List.mapIdx_append, h.objects, h'.objects, h.size_eq]
    simp only [Nat.add_assoc, Nat.add_comm nodes.length]
  · intro k object hk q hq
    rcases Nat.lt_or_ge k new.length with hlt | hge
    · rw [List.getElem?_append_left hlt] at hk
      exact h.backwards k object hk q hq
    · rw [List.getElem?_append_right hge] at hk
      have hback := h'.backwards _ object hk q hq
      rw [h.size_eq, ← h.length_eq] at hback
      omega

/-- An object after its parts. -/
private theorem push {spec : ValueSpec} {object : HeapObject} (hspec : spec.isObject)
    (h : heap.Lays later (objectsOf spec.parts) new)
    (hobject : spec.holding? (valuesAt heap.size spec.boxesParts spec.parts) = some object) :
    heap.Lays (later.push object) spec.objects (new ++ [object]) := by
  refine ⟨?_, ?_, ?_⟩
  · rw [h.eq, Array.push_append]
    exact congrArg (heap ++ ·) (List.push_toArray new object)
  · have hfirst : heap.size + (0 + (objectsOf spec.parts).length) + 1 - spec.objects.length =
        heap.size := by
      rw [objects_eq hspec, List.length_append, List.length_singleton]
      omega
    have hlast : spec.objectAt? (heap.size + (0 + (objectsOf spec.parts).length)) = some object := by
      rw [objectAt?, hfirst, hobject]
    rw [List.map_append, h.objects, objects_eq hspec, List.mapIdx_append]
    exact congrArg (_ ++ ·) (congrArg (fun o => [o]) hlast.symm)
  · intro k object' hk q hq
    rcases Nat.lt_or_ge k new.length with hlt | hge
    · rw [List.getElem?_append_left hlt] at hk
      exact h.backwards k object' hk q hq
    · rw [List.getElem?_append_right hge] at hk
      obtain ⟨hk0, rfl⟩ : k - new.length = 0 ∧ object = object' := by
        rw [List.getElem?_singleton] at hk
        split at hk
        · exact ⟨‹_›, Option.some.inj hk⟩
        · cases hk
      have hbounds := valuesAt_ref (ref_of_holding? hobject hq)
      rw [← h.length_eq] at hbounds
      omega

/-- Making an object after its parts. -/
private theorem alloc {spec : ValueSpec} {object : HeapObject} (hspec : spec.isObject)
    (boxed : Bool) (h : ∃ new, heap.Lays later (objectsOf spec.parts) new)
    (hobject : spec.holding? (valuesAt heap.size spec.boxesParts spec.parts) = some object) :
    (∃ new, heap.Lays (later.alloc object).1 spec.objects new) ∧
      (later.alloc object).2 = spec.valueAt heap.size boxed := by
  obtain ⟨new, hnew⟩ := h
  refine ⟨⟨_, hnew.push hspec hobject⟩, ?_⟩
  rw [valueAt, if_pos hspec, objects_eq hspec, List.length_append, List.length_singleton,
    ← Nat.add_assoc, Nat.add_sub_cancel, ← hnew.size_eq]
  rfl

end Lays

mutual

private theorem lays_place (heap : Heap) (boxed : Bool) : (spec : ValueSpec) →
    (∃ new, heap.Lays (heap.place boxed spec).1 spec.objects new) ∧
      (heap.place boxed spec).2 = spec.valueAt heap.size boxed
  | .list items => by
    obtain ⟨hlays, hvalues⟩ := lays_placeAll heap true items
    exact Lays.alloc rfl boxed hlays (by rw [hvalues]; rfl)
  | .array items => by
    obtain ⟨hlays, hvalues⟩ := lays_placeAll heap false items
    exact Lays.alloc rfl boxed hlays (by rw [hvalues]; rfl)
  | .map entries => by
    obtain ⟨hlays, hvalues⟩ := lays_placeNamed heap true entries
    exact Lays.alloc rfl boxed hlays (by rw [hvalues]; rfl)
  | .object cls fields => by
    obtain ⟨hlays, hvalues⟩ := lays_placeNamed heap false fields
    exact Lays.alloc rfl boxed hlays (by rw [hvalues]; rfl)
  | .null => ⟨⟨[], .nil heap⟩, rfl⟩
  | .int _ => ⟨⟨[], .nil heap⟩, rfl⟩
  | .long _ => ⟨⟨[], .nil heap⟩, rfl⟩
  | .double _ => ⟨⟨[], .nil heap⟩, rfl⟩
  | .bool _ => ⟨⟨[], .nil heap⟩, rfl⟩
  | .string _ => ⟨⟨[], .nil heap⟩, rfl⟩
  | .integer _ => ⟨⟨[], .nil heap⟩, rfl⟩
  | .decimal _ => ⟨⟨[], .nil heap⟩, rfl⟩

private theorem lays_placeAll (heap : Heap) (boxed : Bool) : (items : List ValueSpec) →
    (∃ new, heap.Lays (heap.placeAll boxed items).1 (objectsOf items) new) ∧
      (heap.placeAll boxed items).2 = valuesAt heap.size boxed items
  | [] => ⟨⟨[], .nil heap⟩, rfl⟩
  | item :: items => by
    obtain ⟨⟨new, hnew⟩, hvalue⟩ := lays_place heap boxed item
    obtain ⟨⟨news, hnews⟩, hvalues⟩ := lays_placeAll (heap.place boxed item).1 boxed items
    refine ⟨⟨_, hnew.append hnews⟩, ?_⟩
    rw [hnew.size_eq] at hvalues
    rw [placeAll, valuesAt, ← hvalue, ← hvalues]

private theorem lays_placeNamed (heap : Heap) (boxed : Bool) :
    (entries : List (String × ValueSpec)) →
    (∃ new, heap.Lays (heap.placeNamed boxed entries).1 (objectsOf (entries.map Prod.snd)) new) ∧
      (heap.placeNamed boxed entries).2 =
        (entries.map Prod.fst).zip (valuesAt heap.size boxed (entries.map Prod.snd))
  | [] => ⟨⟨[], .nil heap⟩, rfl⟩
  | (name, item) :: entries => by
    obtain ⟨⟨new, hnew⟩, hvalue⟩ := lays_place heap boxed item
    obtain ⟨⟨news, hnews⟩, hvalues⟩ := lays_placeNamed (heap.place boxed item).1 boxed entries
    refine ⟨⟨_, hnew.append hnews⟩, ?_⟩
    rw [hnew.size_eq] at hvalues
    rw [placeNamed, List.map_cons, List.map_cons, valuesAt, List.zip_cons_cons, ← hvalue, ← hvalues]

end

/-! ## What is put on a heap -/

variable {heap other : Heap} {boxed : Bool} {spec : ValueSpec}

/-- A value leaves the objects that are there as they are. -/
theorem place_extends (heap : Heap) (boxed : Bool) (spec : ValueSpec) :
    Extends (heap.place boxed spec).1 heap := by
  obtain ⟨⟨new, hnew⟩, -⟩ := lays_place heap boxed spec
  rw [hnew.eq]
  refine ⟨fun p hp => Array.getElem?_append_left hp, ?_⟩
  rw [Array.size_append]
  exact Nat.le_add_right _ _

theorem size_place (heap : Heap) (boxed : Bool) (spec : ValueSpec) :
    (heap.place boxed spec).1.size = heap.size + spec.objects.length := by
  obtain ⟨⟨new, hnew⟩, -⟩ := lays_place heap boxed spec
  exact hnew.size_eq

theorem place_value (heap : Heap) (boxed : Bool) (spec : ValueSpec) :
    (heap.place boxed spec).2 = spec.valueAt heap.size boxed :=
  (lays_place heap boxed spec).2

/-- A number, a truth value, a string or null makes no objects. -/
private theorem place_of_not (heap : Heap) (boxed : Bool) {spec : ValueSpec}
    (h : spec.isObject = false) : (heap.place boxed spec).1 = heap := by
  cases spec with
  | list _ | array _ | map _ | object _ _ => cases h
  | _ => rfl

/-- The objects of a value follow those that are there. -/
theorem place_object {k : Nat} {node : ValueSpec} (h : spec.objects[k]? = some node) :
    ∃ object, node.objectAt? (heap.size + k) = some object ∧
      (heap.place boxed spec).1[heap.size + k]? = some object := by
  obtain ⟨⟨new, hnew⟩, -⟩ := lays_place heap boxed spec
  have hk : (new.map some)[k]? = some (node.objectAt? (heap.size + k)) := by
    rw [hnew.objects, List.getElem?_mapIdx, h]
    rfl
  obtain ⟨object, hobject, heq⟩ := Option.map_eq_some_iff.mp (List.getElem?_map .. ▸ hk)
  refine ⟨object, heq.symm, ?_⟩
  rw [hnew.eq, Array.getElem?_append_right (Nat.le_add_right _ _), Nat.add_sub_cancel_left,
    List.getElem?_toArray]
  exact hobject

/-- The objects of a value refer to each other only, and only backwards. -/
theorem place_backwards {p q : Nat} {object : HeapObject} (hp : heap.size ≤ p)
    (hobject : (heap.place boxed spec).1[p]? = some object) (hq : .ref q ∈ object.values) :
    heap.size ≤ q ∧ q < p := by
  obtain ⟨⟨new, hnew⟩, -⟩ := lays_place heap boxed spec
  rw [hnew.eq, Array.getElem?_append_right hp, List.getElem?_toArray] at hobject
  have hback := hnew.backwards _ object hobject q hq
  omega

/-- The same value put on two heaps of one size makes the same objects. -/
private theorem place_congr (hsize : other.size = heap.size) {p : Nat} (hp : heap.size ≤ p) :
    (other.place boxed spec).1[p]? = (heap.place boxed spec).1[p]? := by
  obtain ⟨⟨new, hnew⟩, -⟩ := lays_place heap boxed spec
  obtain ⟨⟨new', hnew'⟩, -⟩ := lays_place other boxed spec
  have hsame : new'.map some = new.map some := by rw [hnew.objects, hnew'.objects, hsize]
  have heq : new' = new := List.map_injective_iff.mpr (Option.some_injective _) hsame
  rw [hnew.eq, hnew'.eq, Array.getElem?_append_right hp,
    Array.getElem?_append_right (hsize ▸ hp), hsize, heq]

/-- A text depends only on the objects from `first` on if it leads to no other. -/
private theorem textWithin_above {first : Nat}
    (hobjects : ∀ p, first ≤ p → other[p]? = heap[p]?)
    (hshows : ∀ p q, first ≤ p → heap.Shows p q → first ≤ q) (depth : Nat) {value : Value}
    (hv : ∀ q, value = .ref q → first ≤ q) :
    other.textWithin depth value = heap.textWithin depth value := by
  have hp : ∀ place, value = .ref place → other[place]? = heap[place]? :=
    fun place h => hobjects place (hv place h)
  induction depth generalizing value with
  | zero => exact textBy_congr hp fun _ _ _ _ _ _ => rfl
  | succ depth ih =>
    refine textBy_congr hp fun place object h ho w hw => ?_
    have hw' : ∀ q, w = .ref q → first ≤ q := by
      rintro q rfl
      exact hshows place q (hv place h) ⟨object, ho, hw⟩
    exact ih hw' fun q h => hobjects q (hw' q h)

/-- What a new object shows comes before it, and is new too. -/
theorem place_shows {p q : Nat} (hp : heap.size ≤ p) (h : (heap.place boxed spec).1.Shows p q) :
    heap.size ≤ q ∧ q < p := by
  obtain ⟨object, ho, hq⟩ := h
  exact place_backwards hp ho (HeapObject.mem_values_of_mem_parts hq)

theorem place_ref {q : Nat} (h : (heap.place boxed spec).2 = .ref q) : heap.size ≤ q :=
  (valueAt_ref (place_value heap boxed spec ▸ h)).1

/-- From a new object the way goes down among the new ones. -/
theorem place_leads {p q : Nat} (hp : heap.size ≤ p)
    (h : Relation.TransGen (heap.place boxed spec).1.Shows p q) : heap.size ≤ q ∧ q < p := by
  induction h with
  | single hshows => exact place_shows hp hshows
  | tail _ hshows ih =>
    obtain ⟨hle, hlt⟩ := place_shows ih.1 hshows
    exact ⟨hle, Nat.lt_trans hlt ih.2⟩

/-- A value that was put on a heap has a text. -/
private theorem text?_place (heap : Heap) (boxed : Bool) (spec : ValueSpec) :
    ((heap.place boxed spec).1.text? (heap.place boxed spec).2).isSome := by
  refine text?_isSome_iff.mpr fun p q hp hpq hq => ?_
  have hnew : heap.size ≤ q := by
    rcases Relation.reflTransGen_iff_eq_or_transGen.mp hpq with rfl | hway
    · exact place_ref hp
    · exact (place_leads (place_ref hp) hway).1
  exact Nat.lt_irrefl q (place_leads hnew hq).2

/-- On heaps of one size the same value has the same text. -/
private theorem text?_place_congr (hsize : other.size = heap.size) :
    (other.place boxed spec).1.text? (other.place boxed spec).2 =
      (heap.place boxed spec).1.text? (heap.place boxed spec).2 := by
  have hvalue : (other.place boxed spec).2 = (heap.place boxed spec).2 := by
    rw [place_value, place_value, hsize]
  have hlater : (other.place boxed spec).1.size = (heap.place boxed spec).1.size := by
    rw [size_place, size_place, hsize]
  unfold text?
  rw [hvalue, hlater]
  exact textWithin_above (fun p hp => place_congr hsize hp) (fun p q hp h => (place_shows hp h).1) _
    fun q h => place_ref h

end Heap

/-! ## Values of fixture files -/

private theorem ValueSpec.sizeOf_part {part spec : ValueSpec} (h : part ∈ spec.parts) :
    sizeOf part < sizeOf spec := by
  cases spec with
  | list items =>
    have hlt : sizeOf part < sizeOf items := List.sizeOf_lt_of_mem h
    simp only [list.sizeOf_spec]
    omega
  | array items =>
    have hlt : sizeOf part < sizeOf items := List.sizeOf_lt_of_mem h
    simp only [array.sizeOf_spec]
    omega
  | map entries =>
    obtain ⟨⟨key, value⟩, hentry, rfl⟩ := List.mem_map.mp h
    have hlt := List.sizeOf_lt_of_mem hentry
    simp only [map.sizeOf_spec, Prod.mk.sizeOf_spec] at hlt ⊢
    omega
  | object cls fields =>
    obtain ⟨⟨key, value⟩, hentry, rfl⟩ := List.mem_map.mp h
    have hlt := List.sizeOf_lt_of_mem hentry
    simp only [object.sizeOf_spec, Prod.mk.sizeOf_spec] at hlt ⊢
    omega
  | _ => cases h

/-- What a value passes on to its parts it passes on to all its objects. -/
private theorem ValueSpec.forall_objects {P : ValueSpec → Prop}
    (hparts : ∀ spec, P spec → ∀ part ∈ spec.parts, P part) {spec node : ValueSpec} (h : P spec)
    (hnode : node ∈ spec.objects) : P node := by
  cases hobject : spec.isObject with
  | false =>
    rw [objects_of_not hobject] at hnode
    cases hnode
  | true =>
    rw [objects_eq hobject, objectsOf_eq] at hnode
    rcases List.mem_append.mp hnode with hin | hself
    · obtain ⟨part, hpart, hin⟩ := List.mem_flatMap.mp hin
      exact forall_objects hparts (hparts spec h part hpart) hin
    · rw [List.mem_singleton.mp hself]
      exact h
termination_by spec
decreasing_by exact sizeOf_part hpart

namespace Fixture

/-- The value can be read from a fixture file. -/
private def Readable (spec : ValueSpec) : Prop := ∃ toml, valueOf? toml = some spec

private theorem readable_of_valuesOf? {items : List Toml} {specs : List ValueSpec}
    (h : valuesOf? items = some specs) : ∀ part ∈ specs, Readable part := by
  induction items generalizing specs with
  | nil =>
    cases h
    exact nofun
  | cons item items ih =>
    obtain ⟨spec, hspec, h⟩ := Option.bind_eq_some_iff.mp h
    obtain ⟨rest, hrest, h⟩ := Option.bind_eq_some_iff.mp h
    cases h
    intro part hpart
    rcases List.mem_cons.mp hpart with rfl | hpart
    · exact ⟨item, hspec⟩
    · exact ih hrest part hpart

private theorem readable_of_entriesOf? {entries : List (String × Toml)}
    {specs : List (String × ValueSpec)} (h : entriesOf? entries = some specs) :
    ∀ part ∈ (sortEntries specs).map Prod.snd, Readable part := by
  have hspecs : ∀ entry ∈ specs, Readable entry.2 := by
    induction entries generalizing specs with
    | nil =>
      cases h
      exact nofun
    | cons entry entries ih =>
      obtain ⟨spec, hspec, h⟩ := Option.bind_eq_some_iff.mp h
      obtain ⟨rest, hrest, h⟩ := Option.bind_eq_some_iff.mp h
      cases h
      intro entry' hentry'
      rcases List.mem_cons.mp hentry' with rfl | hentry'
      · exact ⟨_, hspec⟩
      · exact ih hrest entry' hentry'
  intro part hpart
  obtain ⟨entry, hentry, rfl⟩ := List.mem_map.mp hpart
  exact hspecs entry ((List.mergeSort_perm _ _).mem_iff.mp hentry)

private theorem sortEntries_ascending {α : Type} (entries : List (String × α)) :
    ((sortEntries entries).map Prod.fst).Pairwise (· ≤ ·) := by
  rw [List.pairwise_map]
  have hsorted : (sortEntries entries).Pairwise fun a b => decide (a.1 ≤ b.1) = true := by
    refine List.pairwise_mergeSort (fun a b c hab hbc => ?_) (fun a b => ?_) entries
    · exact decide_eq_true (String.le_trans (of_decide_eq_true hab) (of_decide_eq_true hbc))
    · rcases String.le_total a.1 b.1 with h | h
      · rw [decide_eq_true h, Bool.true_or]
      · rw [decide_eq_true h, Bool.or_true]
  exact hsorted.imp of_decide_eq_true

/-- The parts of a value that was read were read, and its keys ascend. -/
private theorem parts_of_valueOf? {toml : Toml} {spec : ValueSpec} (h : valueOf? toml = some spec) :
    (∀ part ∈ spec.parts, Readable part) ∧ spec.keys.Pairwise (· ≤ ·) := by
  have hscalar : spec.isObject = false →
      (∀ part ∈ spec.parts, Readable part) ∧ spec.keys.Pairwise (· ≤ ·) := by
    intro hspec
    cases spec with
    | list _ | array _ | map _ | object _ _ => cases hspec
    | _ => exact ⟨nofun, .nil⟩
  have hobject : ∀ {cls : Toml} {entries : List (String × Toml)},
      (do return .object (← cls.string?) (sortEntries (← entriesOf? entries))) = some spec →
      (∀ part ∈ spec.parts, Readable part) ∧ spec.keys.Pairwise (· ≤ ·) := by
    intro cls entries h
    obtain ⟨name, -, h⟩ := Option.bind_eq_some_iff.mp h
    obtain ⟨fields, hfields, h⟩ := Option.bind_eq_some_iff.mp h
    cases h
    exact ⟨readable_of_entriesOf? hfields, sortEntries_ascending fields⟩
  have hempty : ∀ {cls : Toml}, (do return .object (← cls.string?) []) = some spec →
      (∀ part ∈ spec.parts, Readable part) ∧ spec.keys.Pairwise (· ≤ ·) := by
    intro cls h
    obtain ⟨name, -, h⟩ := Option.bind_eq_some_iff.mp h
    cases h
    exact ⟨nofun, .nil⟩
  unfold valueOf? at h
  split at h
  · cases h
    exact hscalar rfl
  · obtain ⟨items, hitems, rfl⟩ := Option.map_eq_some_iff.mp h
    exact ⟨readable_of_valuesOf? hitems, .nil⟩
  · obtain ⟨items, hitems, rfl⟩ := Option.map_eq_some_iff.mp h
    exact ⟨readable_of_valuesOf? hitems, .nil⟩
  · obtain ⟨entries, hentries, rfl⟩ := Option.map_eq_some_iff.mp h
    exact ⟨readable_of_entriesOf? hentries, sortEntries_ascending entries⟩
  · exact hobject h
  · exact hempty h
  · exact hempty h
  · exact hobject h
  · exact hobject h
  · refine hscalar ?_
    split at h
    · split at h <;> cases h
      rfl
    all_goals first
      | (obtain ⟨_, -, rfl⟩ := Option.map_eq_some_iff.mp h
         rfl)
      | cases h
  · cases h

/-- The keys of every map and the fields of every object of a value that was read ascend. -/
private theorem keys_of_valueOf? {toml : Toml} {spec node : ValueSpec}
    (h : valueOf? toml = some spec) (hnode : node ∈ spec.objects) :
    node.keys.Pairwise (· ≤ ·) := by
  have hparts : ∀ spec, Readable spec → ∀ part ∈ spec.parts, Readable part :=
    fun _ ⟨_, h⟩ => (parts_of_valueOf? h).1
  obtain ⟨_, hread⟩ := forall_objects hparts ⟨toml, h⟩ hnode
  exact (parts_of_valueOf? hread).2

end Fixture

namespace Heap

/-- A value that is put on a heap leaves the objects there as they are. Its lists, arrays, maps and
objects follow in post-order, from left to right or, as they are read from a file, in the order of
their keys. Each holds what its description says, and refers only to those of them that come before
it. The value is a reference to the last, or nothing was made at all. On every heap of this size the
value and its text are the same. -/
theorem place_postorder (heap : Heap) (boxed : Bool) (spec : ValueSpec) :
    Extends (heap.place boxed spec).1 heap ∧
    (heap.place boxed spec).1.size = heap.size + spec.objects.length ∧
    (∀ k node, spec.objects[k]? = some node → ∃ object, node.objectAt? (heap.size + k) = some object ∧
      (heap.place boxed spec).1[heap.size + k]? = some object) ∧
    (∀ p object q, heap.size ≤ p → (heap.place boxed spec).1[p]? = some object →
      .ref q ∈ object.values → heap.size ≤ q ∧ q < p) ∧
    (heap.place boxed spec).2 = spec.valueAt heap.size boxed ∧
    (spec.isObject → heap.size < (heap.place boxed spec).1.size ∧
      (heap.place boxed spec).2 = .ref ((heap.place boxed spec).1.size - 1)) ∧
    (spec.isObject = false → (heap.place boxed spec).1 = heap) ∧
    (∀ toml, Fixture.valueOf? toml = some spec → ∀ node ∈ spec.objects,
      node.keys.Pairwise (· ≤ ·)) ∧
    ∃ text, ∀ other : Heap, other.size = heap.size →
      (other.place boxed spec).2 = (heap.place boxed spec).2 ∧
      (other.place boxed spec).1.text? (other.place boxed spec).2 = some text := by
  have hsize := size_place heap boxed spec
  obtain ⟨text, htext⟩ := Option.isSome_iff_exists.mp (text?_place heap boxed spec)
  refine ⟨place_extends heap boxed spec, hsize, fun k node h => place_object h,
    fun p object q hp ho hq => place_backwards hp ho hq, place_value heap boxed spec,
    fun hspec => ?_, fun hspec => ?_, fun toml h node hnode => Fixture.keys_of_valueOf? h hnode,
    text, fun other hother => ⟨?_, ?_⟩⟩
  · have hpos : 0 < spec.objects.length := by
      rw [objects_eq hspec, List.length_append, List.length_singleton]
      exact Nat.succ_pos _
    refine ⟨by omega, ?_⟩
    rw [place_value, valueAt, if_pos hspec, hsize]
  · exact place_of_not heap boxed hspec
  · rw [place_value, place_value, hother]
  · rw [text?_place_congr hother, htext]

example : Heap.place #[] false (.list [.array [.int 1], .map [("a", .int 2)], .string "b"]) =
    (#[.array [.int 1], .map [(.string "a", .boxed (.integer 2))],
      .list [.ref 0, .ref 1, .string "b"]], .ref 2) := rfl

end Heap

end CallSite
