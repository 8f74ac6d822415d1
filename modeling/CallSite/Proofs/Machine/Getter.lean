import CallSite.Proofs.Machine.Null
import CallSite.Proofs.Selection.Source

/-!
# Getters of instances

A property gives its getter the name, and the machine works out from the name which field the getter
reads. The getter's name has the first letter of the property's as a capital. Taken apart again, it
gives the property, unless the second letter is a capital too.
-/

namespace CallSite

namespace Text

/-- The name begins with a small letter of the ASCII range. -/
def BeginsSmall (name : String) : Prop := name.toList.head?.any Char.isLower = true

instance (name : String) : Decidable (BeginsSmall name) :=
  inferInstanceAs (Decidable (_ = _))

/-- The second letter of the name is a capital. -/
def SecondCapital (name : String) : Prop := name.toList.tail.head?.any isUppercase = true

instance (name : String) : Decidable (SecondCapital name) :=
  inferInstanceAs (Decidable (_ = _))

private theorem raised_letters : ∀ n : Fin 26, let c := Char.ofNat (97 + n)
    toUppercase c = [c.toUpper] ∧ isUppercase c.toUpper = true ∧ toLowercase c.toUpper = [c] := by
  decide

/-- A small letter is the small form of its capital. -/
private theorem raised {c : Char} (h : c.isLower = true) :
    toUppercase c = [c.toUpper] ∧ isUppercase c.toUpper = true ∧ toLowercase c.toUpper = [c] := by
  have hrange : 97 ≤ c.toNat ∧ c.toNat ≤ 122 := by
    obtain ⟨hfirst, hlast⟩ := Bool.and_eq_true_iff.mp h
    exact ⟨UInt32.le_iff_toNat_le.mp (of_decide_eq_true hfirst),
      UInt32.le_iff_toNat_le.mp (of_decide_eq_true hlast)⟩
  have hletter := raised_letters ⟨c.toNat - 97, by omega⟩
  have hsame : Char.ofNat (97 + (c.toNat - 97)) = c := by
    rw [Nat.add_sub_cancel' hrange.1, Char.ofNat_toNat]
  simpa only [hsame] using hletter

variable {name : String}

/-- Lowering the first letter undoes raising it, unless the second is a capital. -/
private theorem decapitalize?_capitalize (h : BeginsSmall name) :
    (decapitalize? (capitalize name).toList).map String.ofList =
      some (if SecondCapital name then capitalize name else name) := by
  obtain ⟨c, rest, hname, hc⟩ : ∃ c rest, name.toList = c :: rest ∧ c.isLower = true := by
    unfold BeginsSmall at h
    cases hname : name.toList with
    | nil =>
      rw [hname] at h
      cases h
    | cons c rest =>
      rw [hname] at h
      exact ⟨c, rest, rfl, h⟩
  obtain ⟨hraise, hcapital, hlower⟩ := raised hc
  have hcapitalize : capitalize name = String.ofList (c.toUpper :: rest) := by
    unfold capitalize
    simp only [hname, hraise, List.singleton_append]
  have hsecond : SecondCapital name ↔ rest.head?.any isUppercase = true := by
    unfold SecondCapital
    rw [hname, List.tail_cons]
  have hsame : String.ofList (c :: rest) = name := by rw [← hname, String.ofList_toList]
  simp only [hcapitalize, hsecond, String.toList_ofList, decapitalize?, hcapital, hlower]
  cases rest with
  | nil => simp [hsame]
  | cons second rest => cases hs : isUppercase second <;> simp [hs, hsame]

/-- The property that the machine takes a getter's name to mean. -/
theorem propertyOf?_capitalize (h : BeginsSmall name) (boolean : Prop) [Decidable boolean] :
    propertyOf? ((if boolean then "is" else "get") ++ capitalize name) =
      some (if SecondCapital name then capitalize name else name) := by
  rw [← decapitalize?_capitalize h]
  by_cases hb : boolean <;> simp [propertyOf?, String.toList_append, dropLead?, hb]

end Text

namespace Machine

variable {m : Machine} {heap : Heap} {locals : List Value} {cls : String}
  {fields : List (String × Value)} {member : MemberRef}

/-! ## Code -/

/-- Run by itself on slots that hold `locals`, the code comes to its end and leaves a reference to
an instance. -/
def LeavesInstance (m : Machine) (is : List Instruction) (locals : List Value) (cls : String)
    (fields : List (String × Value)) : Prop :=
  ∃ heap slots below place, heap[place]? = some (.instance cls fields) ∧
    Reaches m is m.heap ⟨.ofValues locals, [], 0⟩ heap ⟨slots, .ref place :: below, is.length⟩

/-- A getter that is called behind the code gets the instance, if that is of the class that casts
in between ask for. -/
theorem LeavesInstance.ends_getter {is casts : List Instruction} {target : String}
    {r : Except MachineError Value} {dispatch : Dispatch}
    (h : m.LeavesInstance is locals cls fields) (hcasts : CastsTo target casts)
    (hfits : Heap.classFits m.table cls target = true)
    (hfunction : m.functions.lookup (member.owner, member.name) = none)
    (hd : dispatch = .dynamic ∨ dispatch = .interface)
    (hcount : Descriptor.argCount member.descriptor = 0)
    (hvoid : Descriptor.returnsVoid member.descriptor = false)
    (hcall : ∀ (heap : Heap) (place : Nat), heap[place]? = some (.instance cls fields) →
      callOn heap member (.ref place) [] = r.map fun result => (heap, result)) :
    m.Ends (is ++ (casts ++ [.invoke dispatch member])) locals fun _ result => result = r := by
  obtain ⟨heap, slots, below, place, ho, hreaches⟩ := h
  have hinstance : heap.instanceOf m.table (.ref place) target = true := by
    unfold Heap.instanceOf
    simp only [ho, Heap.classOf]
    exact hfits
  have hplain : ∀ i ∈ casts ++ [.invoke dispatch member], i.isPlain = true :=
    List.forall_mem_append.mpr ⟨hcasts.plain, List.forall_mem_singleton.mpr rfl⟩
  have hstraight : m.straight (casts ++ [.invoke dispatch member]) heap
      ⟨slots, .ref place :: below, is.length⟩ =
        r.map fun result => (heap, ⟨slots, result :: below, is.length + casts.length + 1⟩) := by
    rw [straight_casts hcasts hinstance]
    refine (straight_invoke hfunction hd (.ref place) [] hcount).trans ?_
    rw [hcall heap place ho]
    unfold callResults
    rw [hvoid]
    cases r <;> rfl
  have hwhole := hreaches.append (apart_of_plain hplain)
  have hplaced : Placed (is ++ (casts ++ [.invoke dispatch member])) is.length
      (casts ++ [.invoke dispatch member]) := by
    unfold Placed
    rw [List.drop_left]
  cases r with
  | error e =>
    exact .of_fails (.of_reaches hwhole (fails_straight hplain hplaced hstraight)) fun _ => rfl
  | ok result =>
    refine .of_reaches (hwhole.trans (reaches_straight hplain hplaced hstraight).1) ?_ rfl
    refine List.getElem?_eq_none (Nat.le_of_eq ?_)
    simp only [List.length_append, List.length_singleton]
    omega

end Machine

end CallSite
