import CallSite.Proofs.Emission.Labels
import CallSite.Proofs.Emission.Replay

/-!
# Code that can be written elsewhere

What a step writes does not depend on the code before it, and on the labels that are taken only in
that its own follow them. So a step that is put behind other code writes the same instructions, with
other labels, and fails on no other drafts. The jumps of what it writes stay inside. This holds
whatever the class table says, for steps that leave no operand as well.
-/

namespace CallSite

namespace Instruction

theorem relabel_relabel (k n : Nat) (i : Instruction) :
    (i.relabel n).relabel k = i.relabel (k + n) := by
  cases i <;> first | rfl | exact congrArg _ (Nat.add_assoc ..).symm

theorem bound?_relabel (k : Nat) (i : Instruction) :
    (i.relabel k).bound? = i.bound?.map (k + ·) := by
  cases i <;> rfl

theorem target?_relabel (k : Nat) (i : Instruction) :
    (i.relabel k).target? = i.target?.map (k + ·) := by
  cases i <;> rfl

theorem names_relabel {k l : Nat} {i : Instruction} (h : (i.relabel k).Names l) :
    ∃ l', i.Names l' ∧ k + l' = l := by
  unfold Names at h
  rw [bound?_relabel, target?_relabel, Option.map_eq_some_iff, Option.map_eq_some_iff] at h
  rcases h with ⟨l', hl, heq⟩ | ⟨l', hl, heq⟩
  · exact ⟨l', .inl hl, heq⟩
  · exact ⟨l', .inr hl, heq⟩

/-- The labels of the code follow `k` others. -/
def relabelAll (k : Nat) (is : List Instruction) : List Instruction := is.map (relabel k)

variable {k l n : Nat} {is js : List Instruction}

theorem relabelAll_append : relabelAll k (is ++ js) = relabelAll k is ++ relabelAll k js :=
  List.map_append

theorem relabelAll_relabelAll : relabelAll k (relabelAll n is) = relabelAll (k + n) is := by
  unfold relabelAll
  rw [List.map_map]
  exact congrArg (List.map · is) (funext (relabel_relabel k n))

theorem mem_bound_relabelAll (h : l ∈ is.filterMap bound?) :
    k + l ∈ (relabelAll k is).filterMap bound? := by
  obtain ⟨i, hi, hl⟩ := List.mem_filterMap.mp h
  refine List.mem_filterMap.mpr ⟨i.relabel k, List.mem_map_of_mem hi, ?_⟩
  rw [bound?_relabel, hl]
  rfl

end Instruction

open Instruction (relabelAll)

/-- The code names labels below `count` only, and it binds those that it jumps to, but for the first
`given` ones. -/
structure Sealed (given count : Nat) (is : List Instruction) : Prop where
  names : ∀ i ∈ is, ∀ l, i.Names l → l < count
  targets : ∀ i ∈ is, ∀ l, i.target? = some l → given ≤ l → l ∈ is.filterMap Instruction.bound?

namespace Sealed

variable {given given' count count' k : Nat} {is js : List Instruction}

theorem nil : Sealed given count [] := ⟨nofun, nofun⟩

theorem plain (h : ∀ i ∈ is, i.isPlain = true) : Sealed given count is where
  names i hi l hl := absurd hl (Instruction.not_names_of_isPlain (h i hi) l)
  targets i hi l hl := by
    rw [Instruction.target?_of_isPlain (h i hi)] at hl
    cases hl

theorem mono (h : Sealed given count is) (hg : given ≤ given') (hc : count ≤ count') :
    Sealed given' count' is where
  names i hi l hl := Nat.lt_of_lt_of_le (h.names i hi l hl) hc
  targets i hi l hl hle := h.targets i hi l hl (Nat.le_trans hg hle)

theorem append (h : Sealed given count is) (h' : Sealed given count js) :
    Sealed given count (is ++ js) where
  names i hi := (List.mem_append.mp hi).elim (h.names i) (h'.names i)
  targets i hi l hl hle := by
    rw [List.filterMap_append, List.mem_append]
    rcases List.mem_append.mp hi with hi | hi
    · exact .inl (h.targets i hi l hl hle)
    · exact .inr (h'.targets i hi l hl hle)

/-- With labels that follow others, the code jumps to the first `given` ones only if it binds them
itself. -/
theorem relabel (h : Sealed given count is)
    (hbound : ∀ l < given, l ∈ is.filterMap Instruction.bound?) :
    Sealed given' (k + count) (relabelAll k is) where
  names i hi l hl := by
    obtain ⟨j, hj, rfl⟩ := List.mem_map.mp hi
    obtain ⟨l', hl', rfl⟩ := Instruction.names_relabel hl
    exact Nat.add_lt_add_left (h.names j hj l' hl') k
  targets i hi l hl _ := by
    obtain ⟨j, hj, rfl⟩ := List.mem_map.mp hi
    rw [Instruction.target?_relabel, Option.map_eq_some_iff] at hl
    obtain ⟨l', hl', rfl⟩ := hl
    refine Instruction.mem_bound_relabelAll ?_
    by_cases hle : given ≤ l'
    · exact h.targets j hj l' hl' hle
    · exact hbound l' (by omega)

end Sealed

/-- The draft with other code and another next label. -/
def Draft.resume (d : Draft) (code : List Instruction) (next : Nat) : Draft :=
  { d with code, nextLabel := next }

namespace Emit

variable {α β : Type} {s : Setting} {given taken : Nat} {binds binds' : List Nat} {d d' : Draft}

/-- What a step does to a draft with any code and any labels taken, `taken` of them from `base` on.
Behind the code it writes more, with labels counted from `base`, of which it binds `binds`. -/
inductive Movable (given taken : Nat) (binds : List Nat) (step : Nat → Emit α) (d : Draft) : Prop
  | fails (e : CompileError) :
      (∀ code base, (step base (d.resume code (base + taken))).1 = .error e) →
      Movable given taken binds step d
  | returns (a : α) (is : List Instruction) (count : Nat) (d' : Draft) :
      Sealed given (taken + count) is → (∀ l ∈ binds, l ∈ is.filterMap Instruction.bound?) →
      (∀ code base, step base (d.resume code (base + taken)) =
        (.ok a, d'.resume (code ++ relabelAll base is) (base + (taken + count)))) →
      Movable given taken binds step d

/-- The step, which may jump to the labels `base`, `base + 1` .. before `base + given`, can be
written anywhere, and it binds `binds`. -/
def PortableFrom (given : Nat) (binds : List Nat) (step : Nat → Emit α) : Prop :=
  ∀ (d : Draft) (taken : Nat), given ≤ taken → Movable given taken binds step d

/-- The step can be written anywhere. -/
def Portable (step : Emit α) : Prop := PortableFrom 0 [] fun _ => step

/-- A step that knows no labels can be written where some are given. -/
theorem Portable.from {step : Emit α} (h : Portable step) :
    PortableFrom given [] fun _ => step := by
  intro d taken _
  cases h d taken (Nat.zero_le _) with
  | fails e he => exact .fails e he
  | returns a is count d' hs hb hr =>
    exact .returns a is count d' (hs.mono (Nat.zero_le _) (Nat.le_refl _)) hb hr

/-- A step that writes nothing and takes no labels. -/
theorem portableFrom_of_silent {step : Nat → Emit α}
    (h : ∀ d : Draft, (∃ e, ∀ code next base, (step base (d.resume code next)).1 = .error e) ∨
      ∃ (a : α) (d' : Draft), ∀ code next base,
        step base (d.resume code next) = (.ok a, d'.resume code next)) :
    PortableFrom given [] step := by
  intro d taken _
  rcases h d with ⟨e, he⟩ | ⟨a, d', hr⟩
  · exact .fails e fun code base => he code _ base
  · refine .returns a [] 0 d' .nil nofun fun code base => ?_
    rw [hr, Nat.add_zero]
    exact congrArg (fun code => (_, d'.resume code _)) (List.append_nil code).symm

theorem PortableFrom.bind {step : Nat → Emit α} {next : Nat → α → Emit β}
    (hs : PortableFrom given binds step)
    (hn : ∀ a, PortableFrom given binds' fun base => next base a) :
    PortableFrom given (binds ++ binds') fun base => step base >>= next base := by
  intro d taken hle
  cases hs d taken hle with
  | fails e he =>
    refine .fails e fun code base => ?_
    have hfails := he code base
    rw [bind_apply]
    cases hstep : step base (d.resume code (base + taken)) with
    | mk r mid =>
      rw [hstep] at hfails
      cases hfails
      rfl
  | returns a is count mid his hbinds hstep =>
    cases hn a mid (taken + count) (Nat.le_add_right_of_le hle) with
    | fails e he =>
      refine .fails e fun code base => ?_
      rw [bind_apply, hstep]
      exact he _ base
    | returns b js count' d' hjs hbinds' hnext =>
      rw [Nat.add_assoc] at hjs
      refine .returns b (is ++ js) (count + count') d'
        ((his.mono (Nat.le_refl _) (by omega)).append hjs) (fun l hl => ?_) fun code base => ?_
      · rw [List.filterMap_append]
        exact List.mem_append.mpr ((List.mem_append.mp hl).imp (hbinds l) (hbinds' l))
      · rw [bind_apply, hstep]
        show next base a _ = _
        rw [hnext, Instruction.relabelAll_append, List.append_assoc, Nat.add_assoc taken]

theorem portable_pure {a : α} : PortableFrom given [] fun _ => (pure a : Emit α) :=
  portableFrom_of_silent fun d => .inr ⟨a, d, fun _ _ _ => rfl⟩

theorem PortableFrom.discard {step : Nat → Emit α} (h : PortableFrom given [] step) :
    PortableFrom given [] fun base => discard (step base) := h.bind fun _ => portable_pure

theorem PortableFrom.ite {c : Prop} [Decidable c] {a b : Nat → Emit α}
    (ha : PortableFrom given binds a) (hb : PortableFrom given binds b) :
    PortableFrom given binds fun base => if c then a base else b base := by
  split
  · exact ha
  · exact hb

/-! ## Primitive steps -/

section Primitive

variable {n : Nat} {ty : Ty} {i : Instruction}

theorem portable_release {slot : UInt16} : PortableFrom given [] fun _ => release slot := by
  refine portableFrom_of_silent fun d => ?_
  cases hlive : d.temporaries.release? slot with
  | none =>
    refine .inl ⟨.internal (.notLive slot) .none, fun code next _ => ?_⟩
    have hsame : (d.resume code next).temporaries.release? slot = none := hlive
    rw [release_apply, hsame]
  | some ts =>
    refine .inr ⟨(), { d with temporaries := ts }, fun code next _ => ?_⟩
    have hsame : (d.resume code next).temporaries.release? slot = some ts := hlive
    rw [release_apply, hsame]
    rfl

theorem portable_forM_release (slots : List UInt16) :
    PortableFrom given [] fun _ => slots.forM release := by
  induction slots with
  | nil => exact portable_pure
  | cons slot slots ih => exact portable_release.bind fun _ => ih

/-- A step that fails gives its slots back and fails. -/
theorem PortableFrom.releasing {slots : List UInt16} {body : Nat → Emit α}
    (h : PortableFrom given binds body) :
    PortableFrom given binds fun base => releasing slots (body base) := by
  intro d taken hle
  cases h d taken hle with
  | fails e he =>
    refine .fails e fun code base => ?_
    rw [releasing_apply, he]
    rfl
  | returns a is count mid his hbinds hbody =>
    cases portable_forM_release slots mid (taken + count) (Nat.le_add_right_of_le hle) with
    | fails e he =>
      refine .fails e fun code base => ?_
      rw [releasing_apply, hbody, he]
      rfl
    | returns u js count' d' hjs _ hrelease =>
      rw [Nat.add_assoc] at hjs
      refine .returns a (is ++ js) (count + count') d'
        ((his.mono (Nat.le_refl _) (by omega)).append hjs) (fun l hl => ?_) fun code base => ?_
      · rw [List.filterMap_append]
        exact List.mem_append_left _ (hbinds l hl)
      · rw [releasing_apply, hbody, hrelease, Instruction.relabelAll_append, List.append_assoc,
          Nat.add_assoc taken]
        rfl

end Primitive

/-! ## Labels of its own -/

/-- A step that binds all the labels it is given takes them for itself. -/
private theorem movable_taking {step : Nat → Emit α} {count : Nat}
    (h : Movable count count binds step d) (hall : ∀ l < count, l ∈ binds) {step' : Emit α}
    (hstep : ∀ code base, step' (d'.resume code base) = step base (d.resume code (base + count))) :
    Movable given taken [] (fun _ => step') d' := by
  cases h with
  | fails e he =>
    refine .fails e fun code base => ?_
    rw [hstep]
    exact he code _
  | returns a is more last his hbinds hr =>
    refine .returns a (relabelAll taken is) (count + more) last
      (his.relabel fun l hl => hbinds l (hall l hl)) nofun fun code base => ?_
    rw [hstep, hr, Instruction.relabelAll_relabelAll, Nat.add_assoc base taken]

theorem PortableFrom.freshLabel {step : Nat → Emit α} (h : PortableFrom 1 binds step)
    (hbinds : 0 ∈ binds) : PortableFrom given [] fun _ => freshLabel >>= step := by
  intro d taken _
  refine movable_taking (h d 1 (Nat.le_refl 1)) (fun l hl => ?_) fun code base => rfl
  rw [Nat.lt_one_iff.mp hl]
  exact hbinds

/-! ## Conversions -/

section Conversions

variable {target : Ty} {p q : Primitive}

end Conversions

/-! ## Calls and field reads -/

section Calls

variable {receiver : Emit Ty} {method : Method} {args : List (Emit Unit)}

end Calls

/-! ## Loops -/

section Loops

variable {receiver element : Emit Ty} {component : Ty} {iterator slot : UInt16}

end Loops

/-! ## Accesses and operators -/

section Accesses

variable {receiver argument : Emit Ty} {site : Site}

end Accesses

/-! ## Expressions -/

end Emit

end CallSite
