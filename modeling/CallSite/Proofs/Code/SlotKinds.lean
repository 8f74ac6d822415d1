import CallSite.Proofs.Code.Shape
import CallSite.Proofs.Machine.Straight
import Mathlib.Logic.Relation

/-!
# Kinds of slots

What a slot was last stored as depends on the way that control has taken. Every position of the code
of a tree can be come to. In code that stores to a slot in the loops over lists only, the last store
was one of a reference on every way, so that the loads alone decide whether the kinds agree.
-/

namespace CallSite

/-! ## The last store on a way -/

/-- The kind of the last store to `slot` after the instruction, if it was `last` before. -/
def Instruction.lastStore (slot : UInt16) (last : Option SlotKind) :
    Instruction → Option SlotKind
  | store kind t => if t = slot then some kind else last
  | _ => last

/-- Control can come to a position from the start of the code in such a way that the last store to
`slot` was of the kind `last`, or that nothing was stored there. -/
inductive Arrives (code : List Instruction) (slot : UInt16) : Option SlotKind → Nat → Prop
  | start : Arrives code slot none 0
  | step {last p q i} : Arrives code slot last p → code[p]? = some i → Passes code p q →
      Arrives code slot (i.lastStore slot last) q

/-- Control can come from position `p` of the code to position `q`. -/
abbrev ComesTo (code : List Instruction) : Nat → Nat → Prop := Relation.ReflTransGen (Passes code)

variable {code : List Instruction} {slot : UInt16} {last : Option SlotKind} {p q : Nat}

theorem Passes.code_some (h : Passes code p q) : ∃ i, code[p]? = some i := by
  cases h with
  | next hi _ => exact ⟨_, hi⟩
  | jump hi _ _ => exact ⟨_, hi⟩

theorem Arrives.unstored (h : Arrives code slot last p) (hlast : last = none) :
    Unstored code slot p := by
  induction h with
  | start => exact .start
  | @step last p q i _ hi hpass ih =>
    have hkept : (∀ kind, i ≠ .store kind slot) ∧ i.lastStore slot last = last := by
      cases i with
      | store kind t =>
        by_cases ht : t = slot
        · rw [Instruction.lastStore, if_pos ht] at hlast
          cases hlast
        · refine ⟨fun kind' he => ht ?_, if_neg ht⟩
          exact (Instruction.store.inj he).2
      | _ => exact ⟨nofun, rfl⟩
    exact .step (ih (hkept.2.symm.trans hlast)) hi hkept.1 hpass

theorem Arrives.exists_of_comesTo (h : Arrives code slot last p) (hq : ComesTo code p q) :
    ∃ last', Arrives code slot last' q := by
  induction hq with
  | refl => exact ⟨last, h⟩
  | tail _ hpass ih =>
    obtain ⟨last', h'⟩ := ih
    obtain ⟨i, hi⟩ := hpass.code_some
    exact ⟨_, h'.step hi hpass⟩

/-- Control that meets no jump away comes by every store on its way. -/
theorem arrives_straight (code : List Instruction) (slot : UInt16) (n : Nat) (hn : n ≤ code.length)
    (hf : ∀ i ∈ code.take n, i.falls = true) :
    Arrives code slot ((code.take n).foldl (fun last i => i.lastStore slot last) none) n := by
  induction n with
  | zero => exact .start
  | succ n ih =>
    have hi : code[n]? = some code[n] := List.getElem?_eq_getElem hn
    have htake : code.take (n + 1) = code.take n ++ [code[n]] := List.take_succ_eq_append_getElem hn
    rw [htake] at hf ⊢
    have hbefore := ih (Nat.le_of_lt hn) fun i hi => hf i (List.mem_append_left _ hi)
    have hfalls := hf code[n] (List.mem_append_right _ (List.mem_singleton_self _))
    rw [List.foldl_append]
    exact hbefore.step hi (.next hi hfalls)

/-- The code stores references only. -/
def StoresReferences (code : List Instruction) : Prop :=
  ∀ kind slot, .store kind slot ∈ code → kind = .reference

namespace StoresReferences

theorem lastStore (hs : StoresReferences code) {i : Instruction} (hi : i ∈ code) :
    i.lastStore slot last = last ∨ i.lastStore slot last = some .reference := by
  cases i with
  | store kind t =>
    by_cases ht : t = slot
    · exact .inr ((if_pos ht).trans (congrArg some (hs kind t hi)))
    · exact .inl (if_neg ht)
  | _ => exact .inl rfl

theorem last_eq (hs : StoresReferences code) (h : Arrives code slot last p) :
    last = none ∨ last = some .reference := by
  induction h with
  | start => exact .inl rfl
  | step _ hi _ ih =>
    rcases hs.lastStore (List.mem_of_getElem? hi) with hkept | hstored
    · rw [hkept]
      exact ih
    · exact .inr hstored

/-- Where a reference was stored, one stays. -/
theorem arrives_of_comesTo (hs : StoresReferences code) (h : Arrives code slot (some .reference) p)
    (hq : ComesTo code p q) : Arrives code slot (some .reference) q := by
  induction hq with
  | refl => exact h
  | tail _ hpass ih =>
    obtain ⟨i, hi⟩ := hpass.code_some
    have hnext := ih.step hi hpass
    have hkept : i.lastStore slot (some .reference) = some .reference :=
      or_self_iff.mp (hs.lastStore (List.mem_of_getElem? hi))
    rwa [hkept] at hnext

end StoresReferences

/-! ## Ways through a tree -/

/-- Control comes through instructions that do not jump away. -/
private theorem comesTo_straight {is : List Instruction} {start : Nat} (h : Placed code start is)
    (hf : ∀ i ∈ is, i.falls = true) (hq : start ≤ q) (hend : q ≤ start + is.length) :
    ComesTo code start q := by
  induction is generalizing start with
  | nil =>
    obtain rfl := Nat.le_antisymm hq hend
    exact .refl
  | cons i is ih =>
    rcases Nat.eq_or_lt_of_le hq with rfl | hlt
    · exact .refl
    · rw [List.length_cons] at hend
      have hrest := ih h.tail (fun j hj => hf j (List.mem_cons_of_mem i hj)) hlt (by omega)
      exact .head (.next h.head (hf i List.mem_cons_self)) hrest

private theorem passes_jump {i : Instruction} {l : Nat}
    (hn : (code.filterMap Instruction.bound?).Nodup) (hi : code[p]? = some i)
    (hl : i.target? = some l) (hq : code[q]? = some (.label l)) : Passes code p q := by
  refine .jump hi hl ?_
  rw [labelFrom?_of_nodup hn hq, Nat.zero_add]

/-- The code for a null operand is come to by the jump over the body. -/
private theorem comesTo_orNull {onNull done start : Nat} {body : List Instruction}
    (hn : (code.filterMap Instruction.bound?).Nodup)
    (h : Placed code start (.dup :: .jumpIfNull onNull :: (body ++
      [.jump done, .label onNull, .pop, .pushNull, .label done])))
    (hbody : ∀ q, start + 2 ≤ q → q ≤ start + 2 + body.length → ComesTo code (start + 2) q)
    (hq : start ≤ q) (hend : q ≤ start + (body.length + 7)) : ComesTo code start q := by
  have hall : Placed code start ([.dup, .jumpIfNull onNull] ++ (body ++
      [.jump done, .label onNull, .pop, .pushNull, .label done])) := h
  have hguard : Placed code start [.dup, .jumpIfNull onNull] := hall.left
  have hfalls : ∀ i ∈ [Instruction.dup, .jumpIfNull onNull], i.falls = true := by
    simp [Instruction.falls]
  have hnull : Placed code (start + 2 + body.length + 1)
      [.label onNull, .pop, .pushNull, .label done] := h.tail.tail.right.tail
  by_cases hstart : q ≤ start + 2
  · exact comesTo_straight hguard hfalls hq hstart
  by_cases hin : q ≤ start + 2 + body.length
  · have hthrough : ComesTo code start (start + 2) :=
      comesTo_straight hguard hfalls (by omega) (Nat.le_refl _)
    exact hthrough.trans (hbody q (by omega) hin)
  · have hone : ComesTo code start (start + 1) := .single (.next h.head rfl)
    have hjump : Passes code (start + 1) (start + 2 + body.length + 1) :=
      passes_jump hn h.tail.head rfl hnull.head
    have hbehind : ComesTo code (start + 2 + body.length + 1) q :=
      comesTo_straight hnull (by simp [Instruction.falls]) (by omega) (by simp; omega)
    exact (hone.tail hjump).trans hbehind

/-- The end of a loop is come to by the jump out of it. -/
private theorem comesTo_loop {test exit start : Nat} {head body : List Instruction}
    (hn : (code.filterMap Instruction.bound?).Nodup)
    (h : Placed code start (.label test :: (head ++ .jumpIfZero exit :: (body ++
      [.jump test, .label exit]))))
    (hhead : ∀ q, start + 1 ≤ q → q ≤ start + 1 + head.length → ComesTo code (start + 1) q)
    (hbody : ∀ q, start + 1 + head.length + 1 ≤ q → q ≤ start + 1 + head.length + 1 + body.length →
      ComesTo code (start + 1 + head.length + 1) q)
    (hq : start ≤ q) (hend : q ≤ start + (head.length + body.length + 4)) :
    ComesTo code start q := by
  have htest : code[start + 1 + head.length]? = some (.jumpIfZero exit) := h.tail.right.head
  have hexit : code[start + 1 + head.length + 1 + body.length + 1]? = some (.label exit) :=
    h.tail.right.tail.right.tail.head
  have hfirst : ComesTo code start (start + 1) := .single (.next h.head rfl)
  have hout : ComesTo code start (start + 1 + head.length) :=
    hfirst.trans (hhead _ (by omega) (Nat.le_refl _))
  have hlabel : ComesTo code start (start + 1 + head.length + 1 + body.length + 1) :=
    hout.tail (passes_jump hn htest rfl hexit)
  rcases Nat.eq_or_lt_of_le hq with rfl | hlt
  · exact .refl
  by_cases hin : q ≤ start + 1 + head.length
  · exact hfirst.trans (hhead q hlt hin)
  by_cases hturn : q ≤ start + 1 + head.length + 1 + body.length
  · exact (hout.tail (.next htest rfl)).trans (hbody q (by omega) hturn)
  by_cases hlast : q = start + 1 + head.length + 1 + body.length + 1
  · rw [hlast]
    exact hlabel
  · obtain rfl : q = start + 1 + head.length + 1 + body.length + 1 + 1 := by omega
    exact hlabel.tail (.next hexit rfl)

/-- Control can come from the start of a tree to each of its positions and out at its end. -/
theorem Block.comesTo {x : Block} (hx : x.Plain) (hn : (code.filterMap Instruction.bound?).Nodup)
    {start : Nat} (h : Placed code start x.flatten) (hq : start ≤ q)
    (hend : q ≤ start + x.flatten.length) : ComesTo code start q := by
  induction x generalizing start q with
  | code is =>
    refine comesTo_straight h (fun i hi => ?_) hq hend
    have hplain := hx i hi
    cases i <;> first | rfl | cases hplain
  | seq x y ihx ihy =>
    have hlength : (seq x y).flatten.length = x.flatten.length + y.flatten.length :=
      List.length_append
    by_cases hin : q ≤ start + x.flatten.length
    · exact ihx hx.1 h.left hq hin
    · have hfirst := ihx hx.1 h.left (Nat.le_add_right start _) (Nat.le_refl _)
      exact hfirst.trans (ihy hx.2 h.right (by omega) (by omega))
  | orNull onNull done body ih =>
    have hlength : (orNull onNull done body).flatten.length = body.flatten.length + 7 := by
      simp [flatten]
    exact comesTo_orNull hn h (fun q => ih hx h.tail.tail.left) hq (hlength ▸ hend)
  | loop test exit head body ihh ihb =>
    have hlength : (loop test exit head body).flatten.length =
        head.flatten.length + body.flatten.length + 4 := by
      simp [flatten]
      omega
    exact comesTo_loop hn h (fun q => ihh hx.1 h.tail.left)
      (fun q => ihb hx.2 h.tail.right.tail.left) hq (hlength ▸ hend)

/-! ## Trees that store in loops only -/

namespace Instruction

/-- The instruction neither jumps nor stores, and loads slots of `given` only. -/
structure Reads (given : List UInt16) (i : Instruction) : Prop where
  plain : i.isPlain = true
  stores : ∀ kind slot, i ≠ .store kind slot
  loads : ∀ kind slot, i = .load kind slot → slot ∈ given

theorem reads_of_isQuiet {given : List UInt16} {i : Instruction} (h : i.isQuiet = true) :
    i.Reads given := by
  refine ⟨isPlain_of_isQuiet h, fun kind slot he => ?_, fun kind slot he => ?_⟩
  all_goals
    rw [he] at h
    cases h

theorem Reads.mono {given more : List UInt16} {i : Instruction} (h : i.Reads given)
    (hsub : given ⊆ more) : i.Reads more :=
  ⟨h.plain, h.stores, fun kind slot he => hsub (h.loads kind slot he)⟩

/-- The instruction loads a slot as a primitive. -/
def loadsPrimitive : Instruction → Bool
  | load kind _ => kind != .reference
  | _ => false

theorem loadsPrimitive_of_reads_nil {i : Instruction} (h : i.Reads []) :
    i.loadsPrimitive = false := by
  cases i with
  | load kind slot => exact absurd (h.loads kind slot rfl) List.not_mem_nil
  | _ => rfl

/-- If the instruction loads or stores a slot, it does so as a reference. -/
def keepsReference : Instruction → Bool
  | load kind _ | store kind _ => kind == .reference
  | _ => true

end Instruction

/-- The code loads the slots of `given`, and stores to slots in loops over lists only. With
`element` the slots of `given` hold elements of the loops around. The last flag is set just if an
element is loaded as a primitive somewhere. -/
inductive Kinded : (given : List UInt16) → (element : Bool) → Bool → Block → Prop
  | code {given element is} : (∀ i ∈ is, i.Reads given) →
      Kinded given element (element && is.any Instruction.loadsPrimitive) (.code is)
  | seq {given element mixed mixed' x y} : Kinded given element mixed x →
      Kinded given element mixed' y → Kinded given element (mixed || mixed') (.seq x y)
  | orNull {given element mixed onNull done body} : Kinded given element mixed body →
      Kinded given element mixed (.orNull onNull done body)
  | collect {given element mixed mixed' test exit target receiver body} {slots : LoopSlots} :
      Kinded given element mixed receiver → Kinded [slots.next] true mixed' body →
      Kinded given element (mixed || mixed') (slots.collect test exit target receiver body)

section

variable {slots : LoopSlots} {test exit : Nat} {target : String} {receiver body : Block}

/-- What a loop itself loads and stores are references. -/
private theorem mem_flatten_collect {i : Instruction}
    (hi : i ∈ (slots.collect test exit target receiver body).flatten) :
    i ∈ receiver.flatten ∨ i ∈ body.flatten ∨ i.keepsReference = true := by
  have hall : ∀ {is : List Instruction}, is.all Instruction.keepsReference = true → i ∈ is →
      i.keepsReference = true := fun his hi => List.all_eq_true.mp his i hi
  simp only [LoopSlots.collect, Block.flatten, List.mem_append, List.mem_cons, List.not_mem_nil,
    or_false] at hi
  rcases hi with hi | hi | (rfl | hi | rfl | (hi | hi | hi) | rfl | rfl) | rfl
  · exact .inl hi
  · exact .inr (.inr (hall rfl hi))
  · exact .inr (.inr rfl)
  · exact .inr (.inr (hall rfl hi))
  · exact .inr (.inr rfl)
  · exact .inr (.inr (hall rfl hi))
  · exact .inr (.inl hi)
  · exact .inr (.inr (hall rfl hi))
  all_goals exact .inr (.inr rfl)

private theorem receiver_infix_collect :
    receiver.flatten <:+: (slots.collect test exit target receiver body).flatten :=
  (List.prefix_append _ _).isInfix

/-- The code for an element follows the store of that element. -/
private theorem body_infix_collect :
    .store .reference slots.next :: .load .reference slots.result :: body.flatten <:+:
      (slots.collect test exit target receiver body).flatten := by
  refine ⟨receiver.flatten ++ (slots.start ++ (.label test :: (slots.test ++ .jumpIfZero exit ::
    (slots.advance target).take 3))), LoopSlots.add ++ [.jump test, .label exit,
      .load .reference slots.result], ?_⟩
  simp only [LoopSlots.collect, LoopSlots.advance, Block.flatten, List.take_succ_cons,
    List.take_zero, List.append_assoc, List.cons_append, List.nil_append]

end

/-- A slot of `given` is loaded as a primitive. -/
def LoadsPrimitive (given : List UInt16) (code : List Instruction) : Prop :=
  ∃ kind, kind ≠ .reference ∧ ∃ slot ∈ given, .load kind slot ∈ code

theorem LoadsPrimitive.mono {given : List UInt16} {is : List Instruction}
    (h : LoadsPrimitive given is) (hin : is <:+: code) : LoadsPrimitive given code := by
  obtain ⟨kind, hkind, slot, hslot, hmem⟩ := h
  exact ⟨kind, hkind, slot, hslot, hin.subset hmem⟩

/-- Somewhere in the code a reference is stored as an element that is loaded as a primitive behind
the store. -/
def Mixes (code : List Instruction) : Prop :=
  ∃ (next result : UInt16) (body : Block), body.Plain ∧ LoadsPrimitive [next] body.flatten ∧
    .store .reference next :: .load .reference result :: body.flatten <:+: code

theorem Mixes.mono {is : List Instruction} (h : Mixes is) (hin : is <:+: code) :
    Mixes code := by
  obtain ⟨next, result, body, hplain, hload, hbody⟩ := h
  exact ⟨next, result, body, hplain, hload, hbody.trans hin⟩

/-- Control that comes to such a store comes to the load. -/
theorem Mixes.arrives (h : Mixes code) (hs : StoresReferences code)
    (hn : (code.filterMap Instruction.bound?).Nodup)
    (hcomes : ∀ q, q ≤ code.length → ComesTo code 0 q) :
    ∃ slot p kind, Arrives code slot (some .reference) p ∧ code[p]? = some (.load kind slot) ∧
      kind ≠ .reference := by
  obtain ⟨next, result, body, hbody, ⟨kind, hkind, slot, hslot, hmem⟩, pre, post, hcode⟩ := h
  obtain rfl := List.mem_singleton.mp hslot
  have hplaced : Placed code pre.length
      (.store .reference slot :: .load .reference result :: body.flatten) :=
    ⟨post, by rw [← hcode, List.append_assoc, List.drop_left]⟩
  have hlength : pre.length ≤ code.length := by
    rw [← hcode]
    simp only [List.length_append]
    omega
  obtain ⟨last, harrives⟩ : ∃ last, Arrives code slot last pre.length :=
    Arrives.start.exists_of_comesTo (hcomes _ hlength)
  have hstored := harrives.step hplaced.head (.next hplaced.head rfl)
  rw [Instruction.lastStore, if_pos rfl] at hstored
  obtain ⟨k, hk⟩ := List.getElem?_of_mem hmem
  have hin : k < body.flatten.length := (List.getElem?_eq_some_iff.mp hk).1
  have hload : ComesTo code (pre.length + 1) (pre.length + 1 + 1 + k) :=
    .head (.next hplaced.tail.head rfl)
      (Block.comesTo hbody hn hplaced.tail.tail (Nat.le_add_right _ k) (by omega))
  exact ⟨slot, _, kind, hs.arrives_of_comesTo hstored hload, hplaced.tail.tail.getElem? hk, hkind⟩

namespace Kinded

variable {given : List UInt16} {element mixed : Bool} {x : Block}

private theorem runs_of_reads {is : List Instruction} (his : ∀ i ∈ is, i.Reads given)
    {stored : UInt16 → Prop} (hs : ∀ slot ∈ given, stored slot) :
    (Block.code is).Runs StoreStep stored stored := by
  induction is with
  | nil => exact .nil
  | cons i is ih =>
    have hi := his i List.mem_cons_self
    have hstep : StoreStep stored i stored :=
      ⟨fun kind slot he => hs slot (hi.loads kind slot he), fun _ => .inl⟩
    exact .cons hi.plain hstep (ih fun j hj => his j (List.mem_cons_of_mem i hj))

/-- A slot is loaded only if it is given or was stored before. -/
theorem stores (h : Kinded given element mixed x) {stored : UInt16 → Prop}
    (hs : ∀ slot ∈ given, stored slot) : x.Runs StoreStep stored stored := by
  induction h generalizing stored with
  | code his => exact runs_of_reads his hs
  | seq _ _ ihx ihy => exact .seq (ihx hs) (ihy hs)
  | orNull _ ih =>
    have hother : ∀ {i : Instruction}, (∀ kind slot, i ≠ .load kind slot) →
        StoreStep stored i stored :=
      fun hi => ⟨fun kind slot he => absurd he (hi kind slot), fun _ => .inl⟩
    exact .orNull (hother nofun) (hother nofun) (ih hs) (hother nofun) (hother nofun)
  | collect _ _ ihr ihb =>
    refine Shape.stores_collect (ihr hs) fun inside hnext => ihb fun slot hslot => ?_
    rw [List.mem_singleton.mp hslot]
    exact hnext

theorem plain (h : Kinded given element mixed x) : x.Plain := by
  have hruns : x.Runs StoreStep (fun _ => True) fun _ => True := h.stores fun _ _ => trivial
  exact hruns.plain

theorem storesReferences (h : Kinded given element mixed x) : StoresReferences x.flatten := by
  intro kind slot hmem
  induction h with
  | code his => exact absurd rfl ((his _ hmem).stores kind slot)
  | seq _ _ ihx ihy => exact (List.mem_append.mp hmem).elim ihx ihy
  | orNull _ ih =>
    simp only [Block.flatten, List.mem_cons, List.mem_append, List.not_mem_nil, reduceCtorEq,
      false_or, or_false] at hmem
    exact ih hmem
  | collect _ _ ihr ihb =>
    rcases mem_flatten_collect hmem with hmem | hmem | hkeeps
    · exact ihr hmem
    · exact ihb hmem
    · exact beq_iff_eq.mp hkeeps

/-- Without the flag all slots that loops store are loaded as references. -/
theorem loads_reference (h : Kinded given element mixed x) (hm : mixed = false) {kind : SlotKind}
    {slot : UInt16} (hmem : .load kind slot ∈ x.flatten) :
    kind = .reference ∨ element = false ∧ slot ∈ given := by
  induction h with
  | @code given element is his =>
    cases element with
    | false => exact .inr ⟨rfl, (his _ hmem).loads kind slot rfl⟩
    | true =>
      have hnone : (Instruction.load kind slot).loadsPrimitive = false := by
        have hall := List.any_eq_false.mp hm _ hmem
        exact Bool.not_eq_true _ ▸ hall
      exact .inl (by simpa [Instruction.loadsPrimitive] using hnone)
  | seq _ _ ihx ihy =>
    obtain ⟨hx, hy⟩ := Bool.or_eq_false_iff.mp hm
    exact (List.mem_append.mp hmem).elim (ihx hx) (ihy hy)
  | orNull _ ih =>
    simp only [Block.flatten, List.mem_cons, List.mem_append, List.not_mem_nil, reduceCtorEq,
      false_or, or_false] at hmem
    exact ih hm hmem
  | collect _ _ ihr ihb =>
    obtain ⟨hr, hb⟩ := Bool.or_eq_false_iff.mp hm
    rcases mem_flatten_collect hmem with hmem | hmem | hkeeps
    · exact ihr hr hmem
    · exact .inl ((ihb hb hmem).resolve_right fun hfalse => Bool.noConfusion hfalse.1)
    · exact .inl (beq_iff_eq.mp hkeeps)

private theorem mixes_or_mono {is code : List Instruction} {e : Prop}
    (h : Mixes is ∨ e ∧ LoadsPrimitive given is) (hin : is <:+: code) :
    Mixes code ∨ e ∧ LoadsPrimitive given code :=
  h.imp (·.mono hin) (And.imp_right (·.mono hin))

/-- With the flag an element is loaded as a primitive, of a loop in the code or of one around. -/
theorem mixes_or (h : Kinded given element mixed x) (hm : mixed = true) :
    Mixes x.flatten ∨ element = true ∧ LoadsPrimitive given x.flatten := by
  induction h with
  | @code given element is his =>
    obtain ⟨he, hany⟩ := Bool.and_eq_true_iff.mp hm
    obtain ⟨i, hi, hload⟩ := List.any_eq_true.mp hany
    cases i with
    | load kind slot =>
      exact .inr ⟨he, kind, bne_iff_ne.mp hload, slot, (his _ hi).loads kind slot rfl, hi⟩
    | _ => cases hload
  | seq _ _ ihx ihy =>
    rcases Bool.or_eq_true_iff.mp hm with hx | hy
    · exact mixes_or_mono (ihx hx) (List.prefix_append _ _).isInfix
    · exact mixes_or_mono (ihy hy) (List.suffix_append _ _).isInfix
  | @orNull _ _ _ onNull _ _ _ ih =>
    exact mixes_or_mono (ih hm) ⟨[.dup, .jumpIfNull onNull], _, rfl⟩
  | @collect _ _ _ _ _ _ _ _ body slots _ hbody ihr ihb =>
    rcases Bool.or_eq_true_iff.mp hm with hr | hb
    · exact mixes_or_mono (ihr hr) receiver_infix_collect
    · rcases ihb hb with hmixes | ⟨-, hload⟩
      · have hin : body.flatten <:+: [.store .reference slots.next,
            .load .reference slots.result] ++ body.flatten := (List.suffix_append _ _).isInfix
        exact .inl ((hmixes.mono hin).mono body_infix_collect)
      · exact .inl ⟨slots.next, slots.result, body, hbody.plain, hload, body_infix_collect⟩

/-- On every way each load of a slot that is not given comes behind a store, and the last store was
one of a reference. So the kinds agree unless the flag is set; and if it is, there is a way on which
they do not. -/
theorem loads_after_stores (h : Kinded given false mixed x) (hn : x.labels.Nodup) :
    (∀ slot ∉ given, ∀ last p kind, Arrives x.flatten slot last p →
        x.flatten[p]? = some (.load kind slot) →
          last = some .reference ∧ (kind = .reference ∨ mixed = true)) ∧
      (mixed = true → ∃ slot p kind, Arrives x.flatten slot (some .reference) p ∧
        x.flatten[p]? = some (.load kind slot) ∧ kind ≠ .reference) := by
  have hstores := h.storesReferences
  refine ⟨fun slot hslot last p kind harrives hload => ⟨?_, ?_⟩, fun hm => ?_⟩
  · refine (hstores.last_eq harrives).resolve_left fun hnone => ?_
    exact Block.stored (h.stores fun _ => id) hn hslot (harrives.unstored hnone) kind hload
  · cases mixed with
    | true => exact .inr rfl
    | false =>
      refine .inl ((h.loads_reference rfl (List.mem_of_getElem? hload)).resolve_right ?_)
      exact fun hgiven => hslot hgiven.2
  · have hmixes := (h.mixes_or hm).resolve_right fun hfalse => Bool.noConfusion hfalse.1
    have hlabels : (x.flatten.filterMap Instruction.bound?).Nodup :=
      (Block.filterMap_bound?_flatten h.plain).symm ▸ hn
    refine hmixes.arrives hstores hlabels fun q hq => ?_
    exact Block.comesTo h.plain hlabels List.prefix_rfl (Nat.zero_le q) (by omega)

end Kinded

end CallSite
