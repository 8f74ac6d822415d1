import CallSite.Proofs.Code.WellFormed
import CallSite.Proofs.Machine.Ownership

/-!
# The shape of written code

Expressions are written as trees of a few shapes: straight code, code for a null receiver, and the
loop that collects from a list into a new one. What a tree does to the depth of the stack, to the
slots and to the objects is found by induction on its shape.
-/

namespace CallSite

namespace Instruction

/-- The instruction neither touches a slot nor copies an operand, and adds to no list. -/
def isQuiet : Instruction → Bool
  | invoke dispatch member => dispatch == .static || member.name != "add"
  | i => i.computes

/-- The instruction puts one operand in place of another. -/
structure Converts (i : Instruction) : Prop where
  quiet : i.isQuiet = true
  takes : i.takes = 1
  gives : i.gives = 1

theorem isPlain_of_isQuiet {i : Instruction} (h : i.isQuiet = true) : i.isPlain = true := by
  cases i <;> first | rfl | cases h

end Instruction

/-- The slots that the loop over a list takes for itself: the result, the iterator and the
element. -/
structure LoopSlots where
  result : UInt16
  iterator : UInt16
  next : UInt16

namespace LoopSlots

/-- Store the list, make the result and start the iterator. -/
def start (s : LoopSlots) : List Instruction :=
  [.store .reference s.iterator, .new "java/util/ArrayList", .dup, .load .reference s.iterator,
    .invoke .interface ⟨"java/util/List", "size", "()I"⟩,
    .invoke .special ⟨"java/util/ArrayList", "<init>", "(I)V"⟩, .store .reference s.result,
    .load .reference s.iterator,
    .invoke .interface ⟨"java/util/List", "iterator", "()Ljava/util/Iterator;"⟩,
    .store .reference s.iterator]

/-- Ask the iterator for another element. -/
def test (s : LoopSlots) : List Instruction :=
  [.load .reference s.iterator, .invoke .interface ⟨"java/util/Iterator", "hasNext", "()Z"⟩]

/-- Store the next element, and put the result on the stack. -/
def advance (s : LoopSlots) (target : String) : List Instruction :=
  [.load .reference s.iterator,
    .invoke .interface ⟨"java/util/Iterator", "next", "()Ljava/lang/Object;"⟩, .checkCast target,
    .store .reference s.next, .load .reference s.result]

/-- Add a value to the result. -/
def add : List Instruction :=
  [.invoke .interface ⟨"java/util/List", "add", "(Ljava/lang/Object;)Z"⟩, .pop]

/-- The loop that puts what `element` leaves for every element into a new list. -/
def collect (s : LoopSlots) (test exit : Nat) (target : String) (receiver element : Block) :
    Block :=
  .seq receiver (.seq (.code s.start) (.seq
    (.loop test exit (.code s.test)
      (.seq (.code (s.advance target)) (.seq element (.code add))))
    (.code [.load .reference s.result])))

/-- The slots lie one after another from `k` on. -/
structure From (s : LoopSlots) (k : Nat) : Prop where
  result : k ≤ s.result.toNat
  iterator : s.result.toNat < s.iterator.toNat
  next : s.iterator.toNat < s.next.toNat

namespace From

variable {s : LoopSlots} {k : Nat}

theorem result_ne_iterator (h : s.From k) : s.result ≠ s.iterator := by
  intro he
  have hlt := h.iterator
  rw [he] at hlt
  omega

theorem iterator_ne_next (h : s.From k) : s.iterator ≠ s.next := by
  intro he
  have hlt := h.next
  rw [he] at hlt
  omega

theorem result_ne_next (h : s.From k) : s.result ≠ s.next := by
  intro he
  have hlt := Nat.lt_trans h.iterator h.next
  rw [he] at hlt
  omega

end From

end LoopSlots

/-- The code loads the slots of `given`, and leads from `a` operands to `b`. If `floor` is `some k`
it stores to slots from `k` on only, the inner of two loops to slots above those of the outer. -/
inductive Shape : (floor : Option Nat) → (given : List UInt16) → Nat → Block → Nat → Prop
  | nil {floor given a} : Shape floor given a (.code []) a
  | quiet {floor given a b i is} : i.isQuiet = true → i.takes ≤ a →
      Shape floor given (a - i.takes + i.gives) (.code is) b → Shape floor given a (.code (i :: is)) b
  | load {floor given a b kind slot is} : slot ∈ given → Shape floor given (a + 1) (.code is) b →
      Shape floor given a (.code (.load kind slot :: is)) b
  | seq {floor given a b c x y} : Shape floor given a x b → Shape floor given b y c →
      Shape floor given a (.seq x y) c
  | orNull {floor given a onNull done body} : Shape floor given (a + 1) body (a + 1) →
      Shape floor given (a + 1) (.orNull onNull done body) (a + 1)
  | collect {floor inner given a test exit target receiver element} {slots : LoopSlots} :
      (∀ k, floor = some k → slots.From k ∧ ∃ k', inner = some k' ∧ slots.next.toNat < k') →
      Shape inner given 0 receiver 1 → Shape inner [slots.next] 0 element 1 →
      Shape floor given a (slots.collect test exit target receiver element) (a + 1)

namespace Shape

variable {floor : Option Nat} {given : List UInt16} {a b : Nat} {x : Block}

/-- Operands below do not matter. -/
theorem frame (h : Shape floor given a x b) (c : Nat) : Shape floor given (a + c) x (b + c) := by
  induction h with
  | nil => exact .nil
  | @quiet _ _ a _ i _ hq ht _ ih =>
    have he : a - i.takes + i.gives + c = a + c - i.takes + i.gives := by omega
    rw [he] at ih
    exact .quiet hq (by omega) ih
  | load hs _ ih =>
    rw [Nat.add_right_comm] at ih
    exact .load hs ih
  | seq _ _ ihx ihy => exact .seq ihx ihy
  | orNull _ ih =>
    rw [Nat.add_right_comm] at ih ⊢
    exact .orNull ih
  | collect hf hr he _ _ =>
    rw [Nat.add_right_comm]
    exact .collect hf hr he

/-- Conversions of the topmost operand. -/
theorem converts {is : List Instruction} (h : ∀ i ∈ is, i.Converts) (a : Nat) :
    Shape floor given (a + 1) (.code is) (a + 1) := by
  induction is with
  | nil => exact .nil
  | cons i is ih =>
    have hi := h i List.mem_cons_self
    refine .quiet hi.quiet (by rw [hi.takes]; omega) ?_
    rw [hi.takes, hi.gives]
    exact ih fun j hj => h j (List.mem_cons_of_mem i hj)

/-! ## Depth -/

/-- The depth after straight code, if no instruction wants for an operand. -/
def depthAfter? : Nat → List Instruction → Option Nat
  | a, [] => some a
  | a, i :: is =>
    if i.isPlain ∧ i.takes ≤ a then depthAfter? (a - i.takes + i.gives) is else none

private theorem runs_of_depthAfter? {is : List Instruction} {a b : Nat}
    (h : depthAfter? a is = some b) : (Block.code is).Runs DepthStep a b := by
  induction is generalizing a with
  | nil => cases h; exact .nil
  | cons i is ih =>
    unfold depthAfter? at h
    split at h
    · rename_i hi
      exact .cons hi.1 ⟨hi.2, rfl⟩ (ih h)
    · cases h

private theorem depthStep_frame (c : Nat) {a b : Nat} {i : Instruction} (h : DepthStep a i b) :
    DepthStep (a + c) i (b + c) := by
  have ht := h.1
  have hb := h.2
  exact ⟨by omega, by omega⟩

/-- Every instruction finds its operands. -/
theorem depth (h : Shape floor given a x b) : x.Runs DepthStep a b := by
  induction h with
  | nil => exact .nil
  | quiet hq ht _ ih => exact .cons (Instruction.isPlain_of_isQuiet hq) ⟨ht, rfl⟩ ih
  | load _ _ ih => exact .cons rfl ⟨Nat.zero_le _, rfl⟩ ih
  | seq _ _ ihx ihy => exact .seq ihx ihy
  | @orNull _ _ a onNull _ _ _ ih =>
    have hdup : DepthStep (a + 1) .dup (a + 2) := ⟨Nat.le_add_left 1 a, rfl⟩
    have hnull : DepthStep (a + 2) (.jumpIfNull onNull) (a + 1) := ⟨Nat.le_add_left 1 _, rfl⟩
    have hpop : DepthStep (a + 1) .pop a := ⟨Nat.le_add_left 1 a, rfl⟩
    exact .orNull hdup hnull ih hpop ⟨Nat.zero_le _, rfl⟩
  | @collect _ _ _ a test exit target receiver element slots _ _ _ ihr ihe =>
    have hstart : (Block.code slots.start).Runs DepthStep 1 0 := runs_of_depthAfter? rfl
    have htest : (Block.code slots.test).Runs DepthStep 0 1 := runs_of_depthAfter? rfl
    have hadvance : (Block.code (slots.advance target)).Runs DepthStep 0 1 :=
      runs_of_depthAfter? rfl
    have hadd : (Block.code LoopSlots.add).Runs DepthStep 2 0 := runs_of_depthAfter? rfl
    have hload : (Block.code [.load .reference slots.result]).Runs DepthStep 0 1 :=
      runs_of_depthAfter? rfl
    have helement := ihe.map fun _ _ _ => depthStep_frame 1
    have hbody := Block.Runs.seq hadvance (.seq helement hadd)
    have hzero : DepthStep 1 (.jumpIfZero exit) 0 := ⟨Nat.le_refl 1, rfl⟩
    have hall : (slots.collect test exit target receiver element).Runs DepthStep 0 1 :=
      .seq ihr (.seq hstart (.seq (.loop htest hzero hbody) hload))
    have hframe := hall.map fun _ _ _ => depthStep_frame a
    rw [Nat.zero_add, Nat.add_comm] at hframe
    exact hframe

/-! ## Stored slots -/

private theorem storeStep_of_isQuiet {i : Instruction} (hi : i.isQuiet = true)
    (a : UInt16 → Prop) : StoreStep a i a := by
  refine ⟨fun kind slot he => ?_, fun _ => Or.inl⟩
  rw [he] at hi
  cases hi

private theorem storeStep_store {a b : UInt16 → Prop} {kind : SlotKind} {slot : UInt16}
    (h : ∀ t, b t → a t ∨ t = slot) : StoreStep a (.store kind slot) b := by
  refine ⟨nofun, fun t ht => ?_⟩
  rcases h t ht with h | rfl
  · exact Or.inl h
  · exact Or.inr ⟨kind, rfl⟩

private theorem storeStep_load {a b : UInt16 → Prop} {kind : SlotKind} {slot : UInt16}
    (hs : a slot) (h : ∀ t, b t → a t) : StoreStep a (.load kind slot) b :=
  ⟨fun _ _ he => Instruction.load.inj he |>.2 ▸ hs, fun t ht => Or.inl (h t ht)⟩

/-- The loop has stored its slots when it loads them, the element's also for the code of the
element. -/
theorem stores_collect {slots : LoopSlots} {test exit : Nat} {target : String}
    {receiver element : Block} {stored : UInt16 → Prop}
    (hr : receiver.Runs StoreStep stored stored)
    (he : ∀ inside : UInt16 → Prop, inside slots.next → element.Runs StoreStep inside inside) :
    (slots.collect test exit target receiver element).Runs StoreStep stored stored := by
  let listed : UInt16 → Prop := fun t => stored t ∨ t = slots.iterator
  let looping : UInt16 → Prop := fun t => listed t ∨ t = slots.result
  let inside : UInt16 → Prop := fun t => looping t ∨ t = slots.next
  have hcall : ∀ {dispatch member} c, StoreStep c (.invoke dispatch member) c :=
    fun _ => ⟨nofun, fun _ => Or.inl⟩
  have hiterator : looping slots.iterator := Or.inl (Or.inr rfl)
  have hstart : (Block.code slots.start).Runs StoreStep stored looping := by
    refine .cons rfl (storeStep_store (b := listed) fun _ => id) ?_
    refine .cons rfl ⟨nofun, fun _ => Or.inl⟩ (.cons rfl ⟨nofun, fun _ => Or.inl⟩ ?_)
    refine .cons rfl (storeStep_load (Or.inr rfl) fun _ => id) ?_
    refine .cons rfl (hcall _) (.cons rfl (hcall _) ?_)
    refine .cons rfl (storeStep_store (b := looping) fun _ => id) ?_
    refine .cons rfl (storeStep_load hiterator fun _ => id) (.cons rfl (hcall _) ?_)
    exact .cons rfl (storeStep_store fun _ => Or.inl) .nil
  have htest : (Block.code slots.test).Runs StoreStep looping looping :=
    .cons rfl (storeStep_load hiterator fun _ => id) (.cons rfl (hcall _) .nil)
  have hadvance : (Block.code (slots.advance target)).Runs StoreStep looping inside := by
    refine .cons rfl (storeStep_load hiterator fun _ => id) (.cons rfl (hcall _) ?_)
    refine .cons rfl (⟨nofun, fun _ => Or.inl⟩) (.cons rfl (storeStep_store (b := inside) fun _ => id) ?_)
    exact .cons rfl (storeStep_load (Or.inl (Or.inr rfl)) fun _ => id) .nil
  have helement : element.Runs StoreStep inside inside := he inside (Or.inr rfl)
  have hadd : (Block.code LoopSlots.add).Runs StoreStep inside looping :=
    .cons rfl (hcall _) (.cons rfl ⟨nofun, fun _ h => Or.inl (Or.inl h)⟩ .nil)
  have hload : (Block.code [.load .reference slots.result]).Runs StoreStep looping stored :=
    .cons rfl (storeStep_load (Or.inr rfl) fun _ h => Or.inl (Or.inl h)) .nil
  have hzero : StoreStep looping (.jumpIfZero exit) looping := ⟨nofun, fun _ => Or.inl⟩
  exact .seq hr (.seq hstart (.seq
    (.loop htest hzero (.seq hadvance (.seq helement hadd))) hload))

/-- A slot is loaded only if it is given or was stored before. -/
theorem stores (h : Shape floor given a x b) {stored : UInt16 → Prop}
    (hs : ∀ slot ∈ given, stored slot) : x.Runs StoreStep stored stored := by
  induction h generalizing stored with
  | nil => exact .nil
  | quiet hq _ _ ih =>
    exact .cons (Instruction.isPlain_of_isQuiet hq) (storeStep_of_isQuiet hq _) (ih hs)
  | load hslot _ ih => exact .cons rfl (storeStep_load (hs _ hslot) fun _ => id) (ih hs)
  | seq _ _ ihx ihy => exact .seq (ihx hs) (ihy hs)
  | orNull _ ih =>
    exact .orNull ⟨nofun, fun _ => Or.inl⟩ ⟨nofun, fun _ => Or.inl⟩ (ih hs) ⟨nofun, fun _ => Or.inl⟩
      ⟨nofun, fun _ => Or.inl⟩
  | collect _ _ _ ihr ihe =>
    refine stores_collect (ihr hs) fun inside hnext => ihe fun slot hslot => ?_
    rw [List.mem_singleton.mp hslot]
    exact hnext

/-! ## Ownership -/

/-- `n` operands of which nothing is known on top of `below`. -/
private def atop (n : Nat) (below : List Bool) : List Bool := List.replicate n false ++ below

private theorem atop_replaced {n t g : Nat} (ht : t ≤ n) (below : List Bool) :
    List.replicate g false ++ (atop n below).drop t = atop (n - t + g) below := by
  unfold atop
  rw [List.drop_append, List.drop_replicate, List.length_replicate, Nat.sub_eq_zero_of_le ht,
    List.drop_zero, ← List.append_assoc, List.replicate_append_replicate, Nat.add_comm g]

private theorem ownStep_quiet {first n : Nat} {below : List Bool} {slots : UInt16 → Prop}
    {i : Instruction} (hi : i.isQuiet = true) (ht : i.takes ≤ n) :
    OwnStep first ⟨atop n below, slots⟩ i ⟨atop (n - i.takes + i.gives) below, slots⟩ := by
  rw [← atop_replaced ht]
  cases i with
  | invoke dispatch member =>
    refine .invoke ?_
    simp only [Instruction.isQuiet, Bool.or_eq_true, beq_iff_eq, bne_iff_ne] at hi
    exact hi.imp id Or.inl
  | _ => exact .compute hi

private theorem ownStep_load {first n : Nat} {below : List Bool} {slots : UInt16 → Prop}
    {kind : SlotKind} {slot : UInt16} :
    OwnStep first ⟨atop n below, slots⟩ (.load kind slot) ⟨atop (n + 1) below, slots⟩ :=
  .load (nofun : false = true → _) fun _ => id

private theorem ownStep_store {first n : Nat} {below : List Bool} {slots : UInt16 → Prop}
    {kind : SlotKind} {slot : UInt16} (hf : first ≤ slot.toNat) (hs : ¬ slots slot) :
    OwnStep first ⟨atop (n + 1) below, slots⟩ (.store kind slot) ⟨atop n below, slots⟩ := by
  refine .store hf fun t ht => ?_
  by_cases he : t = slot
  · exact absurd (he ▸ ht) hs
  · rw [if_neg he]
    exact ht

/-- The code of the loop knows its result list, in its slot and when it adds to it. -/
private theorem owns_collect {k k' first : Nat} {ls : LoopSlots} {test exit : Nat} {target : String}
    {receiver element : Block} {below : List Bool} {slots : UInt16 → Prop} (hfrom : ls.From k)
    (hf : first ≤ k) (hs : ∀ t, slots t → t.toNat < k) (hk' : ls.next.toNat < k')
    (hr : receiver.Runs (OwnStep first) ⟨below, slots⟩ ⟨atop 1 below, slots⟩)
    (he : ∀ below slots, (∀ t, slots t → t.toNat < k') →
      element.Runs (OwnStep first) ⟨below, slots⟩ ⟨atop 1 below, slots⟩) :
    (ls.collect test exit target receiver element).Runs (OwnStep first) ⟨below, slots⟩
      ⟨atop 1 below, slots⟩ := by
  obtain ⟨hkr, hri, hin⟩ := hfrom
  let owned : UInt16 → Prop := fun t => slots t ∨ t = ls.result
  have hnot : ∀ t, ls.result.toNat < t.toNat → ¬ owned t := by
    rintro t ht (h | rfl)
    · have := hs t h
      omega
    · exact Nat.lt_irrefl _ ht
  have hiterator : ¬ owned ls.iterator := hnot _ hri
  have hnext : ¬ owned ls.next := hnot _ (Nat.lt_trans hri hin)
  have hstart : (Block.code ls.start).Runs (OwnStep first) ⟨atop 1 below, slots⟩
      ⟨below, owned⟩ := by
    refine .cons rfl (ownStep_store (n := 0) (by omega) fun h => hiterator (Or.inl h)) ?_
    refine .cons rfl .new (.cons rfl .dup (.cons rfl (ownStep_load (n := 0)) ?_))
    refine .cons rfl (ownStep_quiet (n := 1) rfl (Nat.le_refl 1)) ?_
    refine .cons rfl (.invoke (Or.inr (Or.inl (by decide)))) ?_
    refine .cons (b := ⟨below, owned⟩) rfl (.store (by omega) fun t ht => ?_) ?_
    · by_cases he : t = ls.result
      · rw [if_pos he]
      · rw [if_neg he]
        exact ht.resolve_right he
    refine .cons rfl (ownStep_load (n := 0)) ?_
    refine .cons rfl (ownStep_quiet (n := 1) rfl (Nat.le_refl 1)) ?_
    exact .cons rfl (ownStep_store (n := 0) (by omega) hiterator) .nil
  have htest : (Block.code ls.test).Runs (OwnStep first) ⟨below, owned⟩
      ⟨atop 1 below, owned⟩ := by
    refine .cons rfl (ownStep_load (n := 0)) (.cons rfl (ownStep_quiet (n := 1) rfl (Nat.le_refl 1)) ?_)
    exact .nil
  have hadvance : (Block.code (ls.advance target)).Runs (OwnStep first) ⟨below, owned⟩
      ⟨true :: below, owned⟩ := by
    refine .cons rfl (ownStep_load (n := 0)) ?_
    refine .cons rfl (ownStep_quiet (n := 1) rfl (Nat.le_refl 1)) ?_
    refine .cons rfl (ownStep_quiet (n := 1) rfl (Nat.le_refl 1)) ?_
    refine .cons rfl (ownStep_store (n := 0) (by omega) hnext) ?_
    exact .cons rfl (.load (fun _ => Or.inr rfl) fun _ => id) .nil
  have hadd : (Block.code LoopSlots.add).Runs (OwnStep first) ⟨atop 1 (true :: below), owned⟩
      ⟨below, owned⟩ :=
    .cons rfl (.invoke (Or.inr (Or.inr rfl))) (.cons rfl (.compute rfl) .nil)
  have hload : (Block.code [.load .reference ls.result]).Runs (OwnStep first) ⟨below, owned⟩
      ⟨atop 1 below, slots⟩ :=
    .cons rfl (.load (nofun : false = true → _) fun _ => Or.inl) .nil
  have helement := he (true :: below) owned fun t ht =>
    Nat.lt_of_not_le fun hle => hnot t (by omega) ht
  exact .seq hr (.seq hstart (.seq
      (.loop htest (.branch rfl) (.seq hadvance (.seq helement hadd))) hload))

/-- What the loop leaves on the stack is its own list, and it stores to slots from `first` on. -/
theorem owns {k first : Nat} (h : Shape floor given a x b) (hk : floor = some k) (hf : first ≤ k)
    (below : List Bool) {slots : UInt16 → Prop} (hs : ∀ t, slots t → t.toNat < k) :
    x.Runs (OwnStep first) ⟨atop a below, slots⟩ ⟨atop b below, slots⟩ := by
  induction h generalizing k below slots with
  | nil => exact .nil
  | quiet hq ht _ ih =>
    exact .cons (Instruction.isPlain_of_isQuiet hq) (ownStep_quiet hq ht) (ih hk hf below hs)
  | load _ _ ih => exact .cons rfl ownStep_load (ih hk hf below hs)
  | seq _ _ ihx ihy => exact .seq (ihx hk hf below hs) (ihy hk hf below hs)
  | orNull _ ih =>
    exact .orNull .dup (.branch rfl) (ih hk hf below hs) (.compute rfl) (.compute rfl)
  | @collect _ inner _ a test exit target receiver element ls hfrom _ _ ihr ihe =>
    obtain ⟨hls, k', hk', hnext⟩ := hfrom k hk
    have hkk' : k ≤ k' := by
      have := hls.result
      have := hls.iterator
      have := hls.next
      omega
    have hr := ihr hk' (Nat.le_trans hf hkk') (atop a below) fun t ht =>
      Nat.lt_of_lt_of_le (hs t ht) hkk'
    exact owns_collect hls hf hs hnext hr fun below slots hs =>
      ihe hk' (Nat.le_trans hf hkk') below hs

/-! ## Code of a shape -/

theorem wellFormed (h : Shape floor given 0 x 1) (hn : x.labels.Nodup) :
    WellFormed given x.flatten :=
  Block.wellFormed h.depth (h.stores fun _ => id) hn

/-- A run on the code leaves the objects and the slots below `k` as it finds them. -/
theorem keeps {k : Nat} (h : Shape (some k) given 0 x 1) (hn : x.labels.Nodup) {m : Machine}
    (hm : m.Quiet) {heap heap' : Heap} {frame frame' : Frame} (hstart : frame.position = 0)
    (hno : ∀ (p : Nat) items n, heap[p]? ≠ some (.iterator items n))
    (hr : Reaches m x.flatten heap frame heap' frame') :
    (∀ p, p < heap.size → heap'[p]? = heap[p]?) ∧
      ∀ slot : UInt16, slot.toNat < k → frame'.locals.get? slot = frame.locals.get? slot := by
  have hnone : ∀ t : UInt16, False → t.toNat < k := nofun
  have hruns := h.owns rfl (Nat.le_refl k) [] hnone
  obtain ⟨state, h0, -, hassigned⟩ := hruns.assigned (fun _ _ => .label) (fun _ _ => .branch rfl) hn
  have hkeeps : Keeps heap frame.locals k (state frame.position) heap frame := by
    rw [hstart, h0]
    exact ⟨fun _ _ => rfl, Nat.le_refl _, fun _ _ => rfl, nofun, fun _ h => h.elim⟩
  have hlast := hassigned.keeps hm hno hkeeps hr
  exact ⟨hlast.objects, hlast.slots⟩

end Shape

end CallSite
