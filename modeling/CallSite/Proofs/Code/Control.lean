import CallSite.Machine.Run
import CallSite.Proofs.Code.Block

/-!
# Control flow

Which positions of the code can follow one another, and assignments of a state to every position
that agree with what the instructions do. Such an assignment is found by one pass over the tree of
the code.
-/

namespace CallSite

/-! ## Labels -/

theorem getElem?_of_labelFrom? {l : Nat} {is : List Instruction} {start q : Nat}
    (h : labelFrom? l start is = some q) :
    ∃ k, q = start + k ∧ is[k]? = some (.label l) := by
  induction is generalizing start with
  | nil => cases h
  | cons i is ih =>
    unfold labelFrom? at h
    cases hr : labelFrom? l (start + 1) is with
    | some p =>
      rw [hr] at h
      cases h
      obtain ⟨k, rfl, hk⟩ := ih hr
      exact ⟨k + 1, by omega, hk⟩
    | none =>
      rw [hr] at h
      cases i with
      | label m =>
        simp only at h
        split at h
        · rename_i he
          cases h
          exact ⟨0, rfl, by rw [he]; rfl⟩
        · cases h
      | _ => cases h

theorem labelFrom?_eq_none {l : Nat} {is : List Instruction} {start : Nat}
    (h : l ∉ is.filterMap Instruction.bound?) : labelFrom? l start is = none := by
  cases hl : labelFrom? l start is with
  | none => rfl
  | some q =>
    obtain ⟨k, -, hk⟩ := getElem?_of_labelFrom? hl
    have hmem : l ∈ is.filterMap Instruction.bound? :=
      List.mem_filterMap.mpr ⟨_, List.mem_of_getElem? hk, rfl⟩
    exact absurd hmem h

/-- A label that is bound once is found where it is bound. -/
theorem labelFrom?_of_nodup {l : Nat} {is : List Instruction} {start k : Nat}
    (hn : (is.filterMap Instruction.bound?).Nodup) (hk : is[k]? = some (.label l)) :
    labelFrom? l start is = some (start + k) := by
  induction is generalizing start k with
  | nil => cases hk
  | cons i is ih =>
    have hrest : (is.filterMap Instruction.bound?).Nodup := by
      rw [List.filterMap_cons] at hn
      split at hn
      · exact hn
      · exact (List.nodup_cons.mp hn).2
    unfold labelFrom?
    cases k with
    | zero =>
      cases hk
      have hl : l ∉ is.filterMap Instruction.bound? := (List.nodup_cons.mp hn).1
      simp [labelFrom?_eq_none hl]
    | succ k =>
      rw [ih hrest hk]
      simp only [Option.some.injEq]
      omega

/-- Control may pass from position `p` of the code to position `q`. -/
inductive Passes (code : List Instruction) : Nat → Nat → Prop
  | next {p i} : code[p]? = some i → i.falls = true → Passes code p (p + 1)
  | jump {p i l q} :
    code[p]? = some i → i.target? = some l → labelFrom? l 0 code = some q → Passes code p q

/-! ## States at positions -/

section

variable {A : Type} (T : A → Instruction → A → Prop)

/-- A state for every position: control passes from state to state as `T` says. -/
def Assigned (code : List Instruction) (state : Nat → A) : Prop :=
  ∀ p q i, code[p]? = some i → Passes code p q → T (state p) i (state q)

/-- The same for a list of instructions in which the states at labels are given. -/
inductive Flow (at_ : Nat → A) : A → List Instruction → A → Prop
  | nil {a} : Flow at_ a [] a
  | cons {a b c i is} :
    (∀ l, i.bound? = some l → at_ l = a) → (∀ l, i.target? = some l → T a i (at_ l)) →
      (i.falls = true → T a i b) → Flow at_ b is c → Flow at_ a (i :: is) c

/-- The same for a tree. Labels and unconditional jumps leave the state as it is. -/
inductive Block.Runs : A → Block → A → Prop
  | nil {a} : Runs a (.code []) a
  | cons {a b c i is} : i.isPlain = true → T a i b → Runs b (.code is) c →
      Runs a (.code (i :: is)) c
  | seq {a b c x y} : Runs a x b → Runs b y c → Runs a (.seq x y) c
  | orNull {a a₁ a₂ a₃ b l l' body} : T a .dup a₁ → T a₁ (.jumpIfNull l) a₂ → Runs a₂ body b →
      T a₂ .pop a₃ → T a₃ .pushNull b → Runs a (.orNull l l' body) b
  | loop {a a₁ b t e head body} : Runs a head a₁ → T a₁ (.jumpIfZero e) b → Runs b body a →
      Runs a (.loop t e head body) b

variable {T}

theorem Flow.append {at_ : Nat → A} {a b c : A} {is js : List Instruction}
    (h : Flow T at_ a is b) (h' : Flow T at_ b js c) : Flow T at_ a (is ++ js) c := by
  induction h with
  | nil => exact h'
  | cons hb ht hf _ ih => exact .cons hb ht hf (ih h')

theorem Flow.plain {at_ : Nat → A} {a b c : A} {i : Instruction} {is : List Instruction}
    (hi : i.isPlain = true) (ht : T a i b) (h : Flow T at_ b is c) : Flow T at_ a (i :: is) c := by
  refine .cons ?_ ?_ (fun _ => ht) h
  · rw [Instruction.bound?_of_isPlain hi]
    exact fun _ hl => absurd hl (by simp)
  · rw [Instruction.target?_of_isPlain hi]
    exact fun _ hl => absurd hl (by simp)

theorem Flow.congr {at_ at' : Nat → A} {a b : A} {is : List Instruction}
    (h : Flow T at_ a is b)
    (he : ∀ i ∈ is, ∀ l, i.bound? = some l ∨ i.target? = some l → at_ l = at' l) :
    Flow T at' a is b := by
  induction h with
  | nil => exact .nil
  | @cons a b c i is hb ht hf _ ih =>
    have hi : i ∈ i :: is := List.mem_cons_self
    refine .cons ?_ ?_ hf (ih fun j hj => he j (List.mem_cons_of_mem _ hj))
    · exact fun l hl => he i hi l (Or.inl hl) ▸ hb l hl
    · exact fun l hl => he i hi l (Or.inr hl) ▸ ht l hl

/-- Only the states at a block's own labels count. -/
theorem Flow.congr_block {at_ at' : Nat → A} {a b : A} {x : Block}
    (h : Flow T at_ a x.flatten b) (hp : x.Plain) (he : ∀ l ∈ x.labels, at_ l = at' l) :
    Flow T at' a x.flatten b := by
  refine h.congr fun i hi l hl => he l ?_
  rcases hl with hl | hl
  · rw [← Block.filterMap_bound?_flatten hp]
    exact List.mem_filterMap.mpr ⟨i, hi, hl⟩
  · exact Block.target_mem_labels hp hi hl

theorem Block.Runs.plain {a b : A} {x : Block} (h : Runs T a x b) : x.Plain := by
  induction h with
  | nil => exact fun i hi => absurd hi (by simp)
  | cons hi _ _ ih =>
    intro j hj
    rcases List.mem_cons.mp hj with rfl | hj
    · exact hi
    · exact ih j hj
  | seq _ _ ihx ihy => exact ⟨ihx, ihy⟩
  | orNull _ _ _ _ _ ih => exact ih
  | loop _ _ _ ihh ihb => exact ⟨ihh, ihb⟩

theorem Block.Runs.map {B : Type} {T' : B → Instruction → B → Prop} {f : A → B} {a b : A}
    {x : Block} (h : Runs T a x b) (hf : ∀ a i b, T a i b → T' (f a) i (f b)) :
    Runs T' (f a) x (f b) := by
  induction h with
  | nil => exact .nil
  | cons hi ht _ ih => exact .cons hi (hf _ _ _ ht) ih
  | seq _ _ ihx ihy => exact .seq ihx ihy
  | orNull hdup hnull _ hpop hpush ih =>
    exact .orNull (hf _ _ _ hdup) (hf _ _ _ hnull) ih (hf _ _ _ hpop) (hf _ _ _ hpush)
  | loop _ hzero _ ihh ihb => exact .loop ihh (hf _ _ _ hzero) ihb

open Classical in
/-- The states found at the labels of two parts do not get in each other's way: distinct parts
have distinct labels. -/
theorem Block.Runs.flow {a b : A} {x : Block} (hl : ∀ a l, T a (.label l) a)
    (hj : ∀ a l, T a (.jump l) a) (h : Runs T a x b) (hn : x.labels.Nodup) :
    ∃ at_, Flow T at_ a x.flatten b := by
  induction h with
  | nil => exact ⟨fun _ => a, .nil⟩
  | cons hi ht _ ih =>
    obtain ⟨at_, hf⟩ := ih List.nodup_nil
    exact ⟨at_, .plain hi ht hf⟩
  | @seq a b c x y hx hy ihx ihy =>
    obtain ⟨hnx, hny, hd⟩ := List.nodup_append.mp hn
    obtain ⟨atx, hfx⟩ := ihx hnx
    obtain ⟨aty, hfy⟩ := ihy hny
    refine ⟨fun l => if l ∈ x.labels then atx l else aty l, .append (b := b) ?_ ?_⟩
    · exact hfx.congr_block hx.plain fun l hl => by rw [if_pos hl]
    · exact hfy.congr_block hy.plain fun l hl => by rw [if_neg fun hx => hd l hx l hl rfl]
  | @orNull a a₁ a₂ a₃ b l l' body hdup hnull hbody hpop hpush ih =>
    obtain ⟨hnb, hnl, hd⟩ := List.nodup_append.mp hn
    obtain ⟨at_, hf⟩ := ih hnb
    have hne : l ≠ l' := fun he => by simp [he] at hnl
    let at' : Nat → A := fun m => if m = l then a₂ else if m = l' then b else at_ m
    have hatl : at' l = a₂ := if_pos rfl
    have hatl' : at' l' = b := by simp only [at', if_neg hne.symm, if_true]
    have hbody' : Flow T at' a₂ body.flatten b := by
      refine hf.congr_block hbody.plain fun m hm => ?_
      have hml : m ≠ l := fun he => hd m hm l (by simp) he
      have hml' : m ≠ l' := fun he => hd m hm l' (by simp) he
      simp only [at', if_neg hml, if_neg hml']
    refine ⟨at', .plain rfl hdup (.cons (by simp [Instruction.bound?]) ?_ (fun _ => hnull)
      (hbody'.append (.cons (by simp [Instruction.bound?]) ?_ (b := a₂) (fun hf => by cases hf)
        (.cons ?_ (by simp [Instruction.target?]) (fun _ => hl _ _)
          (.plain rfl hpop (.plain rfl hpush
            (.cons ?_ (by simp [Instruction.target?]) (fun _ => hl _ _) .nil)))))))⟩
    · intro m hm; cases hm; rw [hatl]; exact hnull
    · intro m hm; cases hm; rw [hatl']; exact hj _ _
    · intro m hm; cases hm; exact hatl
    · intro m hm; cases hm; exact hatl'
  | @loop a a₁ b t e head body hhead hzero hbody ihh ihb =>
    obtain ⟨ht, hnr⟩ := List.nodup_cons.mp hn
    obtain ⟨hnh, hnbe, hd⟩ := List.nodup_append.mp hnr
    obtain ⟨hnb, hne, hde⟩ := List.nodup_append.mp hnbe
    obtain ⟨ath, hfh⟩ := ihh hnh
    obtain ⟨atb, hfb⟩ := ihb hnb
    have hte : t ≠ e := fun he => ht (by simp [he])
    let at' : Nat → A := fun m =>
      if m = t then a else if m = e then b else if m ∈ head.labels then ath m else atb m
    have hatt : at' t = a := if_pos rfl
    have hate : at' e = b := by simp only [at', if_neg hte.symm, if_true]
    have hhead' : Flow T at' a head.flatten a₁ := by
      refine hfh.congr_block hhead.plain fun m hm => ?_
      have hmt : m ≠ t := fun he => ht (by simp [← he, hm])
      have hme : m ≠ e := fun he => hd m hm e (by simp) he
      simp only [at', if_neg hmt, if_neg hme, if_pos hm]
    have hbody' : Flow T at' b body.flatten a := by
      refine hfb.congr_block hbody.plain fun m hm => ?_
      have hmt : m ≠ t := fun he => ht (by simp [← he, hm])
      have hme : m ≠ e := fun he => hde m hm e (by simp) he
      have hmh : m ∉ head.labels := fun h => hd m h m (by simp [hm]) rfl
      simp only [at', if_neg hmt, if_neg hme, if_neg hmh]
    refine ⟨at', .cons ?_ (by simp [Instruction.target?]) (fun _ => hl _ _)
      (hhead'.append (.cons (by simp [Instruction.bound?]) ?_ (fun _ => hzero)
        (hbody'.append (.cons (by simp [Instruction.bound?]) ?_ (b := b) (fun hf => by cases hf)
          (.cons ?_ (by simp [Instruction.target?]) (fun _ => hl _ _) .nil)))))⟩
    · intro m hm; cases hm; exact hatt
    · intro m hm; cases hm; rw [hate]; exact hzero
    · intro m hm; cases hm; rw [hatt]; exact hj _ _
    · intro m hm; cases hm; exact hate

private theorem Flow.states {at_ : Nat → A} {a b : A} {is : List Instruction}
    (h : Flow T at_ a is b) :
    ∃ state : Nat → A, state 0 = a ∧ state is.length = b ∧
      ∀ p i, is[p]? = some i →
        (∀ l, i.bound? = some l → at_ l = state p) ∧
        (∀ l, i.target? = some l → T (state p) i (at_ l)) ∧
        (i.falls = true → T (state p) i (state (p + 1))) := by
  induction h with
  | @nil a => exact ⟨fun _ => a, rfl, rfl, fun p i hi => by simp at hi⟩
  | @cons a b c i is hb ht hf _ ih =>
    obtain ⟨state, h0, hend, hs⟩ := ih
    refine ⟨fun p => Nat.casesOn p a state, rfl, hend, ?_⟩
    intro p j hj
    cases p with
    | zero =>
      cases hj
      refine ⟨hb, ht, fun hi => ?_⟩
      show T a i (state 0)
      rw [h0]
      exact hf hi
    | succ p => exact hs p j hj

/-- Code from a tree has a state for every position. -/
theorem Block.Runs.assigned {a b : A} {x : Block} (hl : ∀ a l, T a (.label l) a)
    (hj : ∀ a l, T a (.jump l) a) (h : Runs T a x b) (hn : x.labels.Nodup) :
    ∃ state : Nat → A, state 0 = a ∧ state x.flatten.length = b ∧
      Assigned T x.flatten state := by
  obtain ⟨at_, hf⟩ := h.flow hl hj hn
  obtain ⟨state, h0, hend, hs⟩ := hf.states
  refine ⟨state, h0, hend, ?_⟩
  intro p q i hi hpass
  cases hpass with
  | next hp hfalls =>
    cases hp.symm.trans hi
    exact (hs p i hi).2.2 hfalls
  | jump hp ht hq =>
    cases hp.symm.trans hi
    obtain ⟨k, rfl, hk⟩ := getElem?_of_labelFrom? hq
    rw [Nat.zero_add]
    exact (hs k _ hk).1 _ rfl ▸ (hs p i hi).2.1 _ ht

end

end CallSite
