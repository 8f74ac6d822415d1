import CallSite.Proofs.Machine.Collecting
import CallSite.Proofs.Machine.Prefix

/-!
# Null

What code does with null: a guard passes it on, casts let it pass, and whatever looks into an object
fails.
-/

namespace CallSite

variable {m : Machine} {heap : Heap}

/-- The label of a guard is bound behind the code that it guards. -/
theorem labelFrom?_orNull (before body : List Instruction) {onNull done : Nat}
    (hne : onNull ≠ done) :
    labelFrom? onNull 0 (before ++ .dup :: .jumpIfNull onNull ::
        (body ++ [.jump done, .label onNull, .pop, .pushNull, .label done])) =
      some (before.length + 1 + 1 + body.length + 1) := by
  have hcode : before ++ .dup :: .jumpIfNull onNull ::
      (body ++ [.jump done, .label onNull, .pop, .pushNull, .label done]) =
        (before ++ .dup :: .jumpIfNull onNull :: (body ++ [.jump done])) ++
          .label onNull :: [.pop, .pushNull, .label done] := by
    simp only [List.append_assoc, List.cons_append, List.nil_append]
  rw [hcode, labelFrom?_last]
  · simp only [List.length_append, List.length_cons, List.length_nil, Option.some.injEq]
    omega
  · simpa [Instruction.bound?] using hne.symm

/-- Null is left where it is by code for an operand other than null. -/
theorem reaches_orNull {before body : List Instruction} {onNull done : Nat} {slots : Locals}
    {below : List Value} (hne : onNull ≠ done) :
    let code := before ++ .dup :: .jumpIfNull onNull ::
      (body ++ [.jump done, .label onNull, .pop, .pushNull, .label done])
    Reaches m code heap ⟨slots, .null :: below, before.length⟩ heap
      ⟨slots, .null :: below, code.length⟩ := by
  intro code
  have hstart : Placed code before.length (.dup :: .jumpIfNull onNull ::
      (body ++ [.jump done, .label onNull, .pop, .pushNull, .label done])) := by
    unfold Placed
    rw [List.drop_left]
  have hnull := hstart.tail.tail.right.tail
  have hlabel : labelFrom? onNull 0 code = some (before.length + 1 + 1 + body.length + 1) :=
    labelFrom?_orNull before body hne
  have hjump : m.execute code heap ⟨slots, .null :: .null :: below, before.length + 1⟩
      (.jumpIfNull onNull) =
        .ok (heap, ⟨slots, .null :: below, before.length + 1 + 1 + body.length + 1⟩) := by
    simp only [Machine.execute, Machine.jumpTo, hlabel]
    rfl
  have htaken : Reaches m code heap ⟨slots, .null :: below, before.length⟩ heap
      ⟨slots, .null :: below, before.length + 1 + 1 + body.length + 1⟩ :=
    .step (.step .refl hstart.head rfl) hstart.tail.head hjump
  have hlast : Reaches m code heap ⟨slots, .null :: below, before.length⟩ heap
      ⟨slots, .null :: below, before.length + 1 + 1 + body.length + 1 + 1 + 1 + 1 + 1⟩ :=
    .step (.step (.step (.step htaken hnull.head rfl) hnull.tail.head rfl) hnull.tail.tail.head rfl)
      hnull.tail.tail.tail.head rfl
  have hlength : before.length + 1 + 1 + body.length + 1 + 1 + 1 + 1 + 1 = code.length := by
    simp only [code, List.length_append, List.length_cons, List.length_nil]
    omega
  rw [← hlength]
  exact hlast

/-- All that the code does is casts to one class. -/
def CastsTo (target : String) (is : List Instruction) : Prop := ∀ i ∈ is, i = .checkCast target

theorem CastsTo.plain {target : String} {is : List Instruction} (h : CastsTo target is) :
    ∀ i ∈ is, i.isPlain = true := by
  intro i hi
  rw [h i hi]
  rfl

namespace Machine

variable {locals : Locals} {below : List Value} {position : Nat} {is : List Instruction}

/-- Casts leave a value of their class as it is. -/
theorem straight_casts {casts : List Instruction} {target : String} {value : Value}
    (h : CastsTo target casts) (hv : heap.instanceOf m.table value target = true) :
    m.straight (casts ++ is) heap ⟨locals, value :: below, position⟩ =
      m.straight is heap ⟨locals, value :: below, position + casts.length⟩ := by
  induction casts generalizing position with
  | nil => rfl
  | cons i casts ih =>
    rw [h i List.mem_cons_self, List.cons_append, straight_checkCast hv,
      ih fun j hj => h j (List.mem_cons_of_mem _ hj), List.length_cons]
    congr 2
    omega

/-- Null is of every class. -/
theorem straight_casts_null {casts : List Instruction} {target : String}
    (h : CastsTo target casts) :
    m.straight (casts ++ is) heap ⟨locals, .null :: below, position⟩ =
      m.straight is heap ⟨locals, .null :: below, position + casts.length⟩ :=
  straight_casts h rfl

/-- A call of a method that no helper stands for fails on null. -/
theorem straight_call_null {options : Options} (hm : m.functions = Helper.standard options)
    {dispatch : Dispatch} {member : MemberRef} (args : List Value)
    (hd : dispatch = .dynamic ∨ dispatch = .interface) (hname : member.name ∉ Helper.names)
    (hcount : Descriptor.argCount member.descriptor = args.length) :
    m.straight (.invoke dispatch member :: is) heap
        ⟨locals, args.reverse ++ .null :: below, position⟩ =
      .error (.nullPointer (member.owner ++ "." ++ member.name)) := by
  have hfunction : m.functions.lookup (member.owner, member.name) = none := by
    rw [hm, Helper.lookup_standard options member.owner hname]
  rw [straight_invoke hfunction hd .null args hcount]
  rfl

/-- The loop over a list asks for the size of the list first. -/
theorem straight_start_null {options : Options} (hm : m.functions = Helper.standard options)
    (slots : LoopSlots) :
    m.straight slots.start heap ⟨locals, .null :: below, position⟩ =
      .error (.nullPointer "java/util/List.size") := by
  unfold LoopSlots.start
  rw [straight_store, straight_newList, straight_load (Locals.get?_store_self _ _ _)]
  exact straight_call_null hm [] (Or.inr rfl) (by decide) (by decide)

end Machine

end CallSite
