import CallSite.Proofs.Emission.Conversion

/-!
# Loops that return

The steps by which the loop over a list is written, read off a draft that came out of them.
-/

namespace CallSite

namespace Emit

variable {s : Setting} {d d' : Draft} {receiver : Emit Ty} {ty : Ty}

private theorem allocateResult_inv {result iterator : UInt16}
    (h : Returns (allocateResult receiver result iterator) d ty d') :
    ∃ mid, Returns receiver d ty mid ∧ d' = { mid with
      code := mid.code ++ [.store .reference iterator, .new "java/util/ArrayList", .dup,
        .load .reference iterator, .invoke .interface ⟨"java/util/List", "size", "()I"⟩,
        .invoke .special ⟨"java/util/ArrayList", "<init>", "(I)V"⟩, .store .reference result]
      stack := mid.stack.drop 1 } := by
  unfold allocateResult interfaceCall at h
  simp only [returns_bind, returns_emit, returns_push, returns_drop, returns_replace,
    returns_pure, exists_eq_left, exists_const] at h
  obtain ⟨_, mid, hr, rfl, rfl⟩ := h
  refine ⟨mid, hr, ?_⟩
  simp only [List.append_assoc, List.drop_succ_cons, List.drop_zero]
  rfl

private theorem startIterator_inv {iterator : UInt16} {u : Unit}
    (h : Returns (startIterator ty iterator) d u d') : d' = { d with
      code := d.code ++ [.load .reference iterator,
        .invoke .interface ⟨"java/util/List", "iterator", "()Ljava/util/Iterator;"⟩,
        .store .reference iterator] } := by
  unfold startIterator interfaceCall at h
  simp only [returns_bind, returns_emit, returns_push, returns_drop, returns_replace,
    exists_eq_left, exists_const] at h
  simp only [h, List.append_assoc, List.drop_succ_cons, List.drop_zero]
  rfl

private theorem testIterator_inv {iterator : UInt16} {exit : Nat} {u : Unit}
    (h : Returns (testIterator iterator exit) d u d') : d' = { d with
      code := d.code ++ [.load .reference iterator,
        .invoke .interface ⟨"java/util/Iterator", "hasNext", "()Z"⟩, .jumpIfZero exit] } := by
  unfold testIterator interfaceCall at h
  simp only [returns_bind, returns_emit, returns_push, returns_drop, returns_replace,
    exists_eq_left, exists_const] at h
  simp only [h, List.append_assoc, List.drop_succ_cons, List.drop_zero]
  rfl

private theorem nextElement_inv {component : Ty} {iterator next : UInt16} {u : Unit}
    (h : Returns (nextElement s component iterator next) d u d') : d' = { d with
      code := d.code ++ [.load .reference iterator,
        .invoke .interface ⟨"java/util/Iterator", "next", "()Ljava/lang/Object;"⟩,
        .checkCast (s.table.internalTypeName component), .store .reference next] } := by
  unfold nextElement interfaceCall at h
  simp only [returns_bind, returns_emit, returns_push, returns_drop, returns_replace,
    exists_eq_left, exists_const] at h
  simp only [h, List.append_assoc, List.drop_succ_cons, List.drop_zero]
  rfl

private theorem addToResult_inv {result : UInt16} {value : Emit Ty} {u : Unit}
    (h : Returns (addToResult s result value) d u d') :
    ∃ item mid last, Returns value { d with
        code := d.code ++ [.load .reference result]
        stack := .ofClass .arrayList :: d.stack } item mid ∧
      Returns (boxTop s) mid () last ∧
      d' = { last with code := last.code ++ LoopSlots.add, stack := last.stack.drop 2 } := by
  unfold addToResult interfaceCall at h
  simp only [returns_bind, returns_emit, returns_push, returns_drop, returns_replace,
    returns_discard, exists_eq_left, exists_const] at h
  obtain ⟨mid, ⟨item, hv⟩, _, last, hb, rfl⟩ := h
  refine ⟨item, mid, last, hv, hb, ?_⟩
  simp only [List.append_assoc, List.drop_succ_cons, List.drop_zero]
  rfl

end Emit

/-- With the three slots of a loop taken. -/
def Temporaries.withLoop (ts : Temporaries) (component : Ty) : Temporaries :=
  ((ts.define "tmpList" (.ofClass .arrayList)).define "iterator" (.ofClass .iterator)).define "next"
    component

/-- The slots that a loop takes. -/
def Temporaries.loopSlots (ts : Temporaries) : LoopSlots where
  result := ts.freeSlot
  iterator := (ts.define "tmpList" (.ofClass .arrayList)).freeSlot
  next := ((ts.define "tmpList" (.ofClass .arrayList)).define "iterator"
    (.ofClass .iterator)).freeSlot

namespace Emit

theorem collect_inv {site : Site} {member : String} {component : Ty} {access : Site → Emit Ty}
    (h : Returns (collect s site member component receiver access) d ty d') :
    let slots := d.temporaries.loopSlots
    ∃ listType item d₁ d₂ d₃,
      Returns receiver { d with
        temporaries := d.temporaries.withLoop component
        nextLabel := d.nextLabel + 2 } listType d₁ ∧
      Returns (access (elementSite site member component slots.next)) { d₁ with
        code := d₁.code ++ (slots.start ++ .label d.nextLabel :: (slots.test ++
          .jumpIfZero (d.nextLabel + 1) :: slots.advance (s.table.internalTypeName component)))
        stack := .ofClass .arrayList :: d₁.stack.drop 1 } item d₂ ∧
      Returns (boxTop s) d₂ () d₃ ∧
      (d₃.stack.drop 2).length = (d₁.stack.drop 1).length ∧
      Returns ([slots.next, slots.iterator, slots.result].forM release) { d₃ with
        code := d₃.code ++ (LoopSlots.add ++
          [.jump d.nextLabel, .label (d.nextLabel + 1), .load .reference slots.result])
        stack := .ofClass .arrayList :: d₃.stack.drop 2 } () d' ∧
      ty = .ofClass .arrayList := by
  unfold collect at h
  simp only [returns_bind, returns_define, returns_freshLabel, returns_releasing, returns_emit,
    returns_push, returns_depth, returns_expectDepth, returns_pure, and_assoc, exists_and_left,
    exists_eq_left, exists_const] at h
  obtain ⟨last, ⟨listType, _, hallocate, _, _, hstart, _, _, htest, _, _, hnext, _, _, hadd, hdepth,
    rfl, rfl⟩, hrelease⟩ := h
  obtain ⟨d₁, hr, rfl⟩ := allocateResult_inv hallocate
  obtain rfl := startIterator_inv hstart
  obtain rfl := testIterator_inv htest
  obtain rfl := nextElement_inv hnext
  obtain ⟨item, d₂, d₃, hv, hb, rfl⟩ := addToResult_inv hadd
  refine ⟨listType, item, d₁, d₂, d₃, hr, ?_, hb, hdepth, ?_, rfl⟩
  · simp only [List.append_assoc] at hv
    exact hv
  · simp only [List.append_assoc] at hrelease
    exact hrelease

end Emit

end CallSite
