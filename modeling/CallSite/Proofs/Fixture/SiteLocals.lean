import CallSite.Fixture.Run
import CallSite.Proofs.Emission.Request
import CallSite.Proofs.Machine.Ownership

/-!
# The locals of a site

The code of a site stores in the slots for its temporaries and in no others. Where the site does not
say how many slots are its own, the temporaries start right after `this`, so that a loop can
overwrite a local that is read later.
-/

namespace CallSite

/-- Slots that the code does not store in keep their values. -/
theorem Reaches.get?_locals {m : Machine} {code : List Instruction} {heap heap' : Heap}
    {frame frame' : Frame} {slot : UInt16} (h : Reaches m code heap frame heap' frame')
    (hs : ∀ kind, .store kind slot ∉ code) :
    frame'.locals.get? slot = frame.locals.get? slot := by
  induction h with
  | refl => rfl
  | step _ hi he ih =>
    rw [← ih]
    cases Machine.execute_steps he with
    | @store kind stored value below _ =>
      refine Locals.get?_store_ne _ value ?_
      rintro rfl
      exact hs kind (List.mem_of_getElem? hi)
    | _ => rfl

namespace Emit

/-- The temporaries are `ts`, and the code stores in slots from `first` to `last` only, `last` not
included. -/
def storing (first last : Nat) (ts : Temporaries) : Invariant where
  holds d := d.temporaries = ts ∧
    ∀ kind slot, .store kind slot ∈ d.code → first ≤ slot.toNat ∧ slot.toNat < last
  fails _ := True

variable {first last : Nat}

instance (ts : Temporaries) : (storing first last ts).Plain where
  emit {d i} hi h := by
    refine ⟨h.1, fun kind slot hm => ?_⟩
    rcases List.mem_append.mp hm with hm | hm
    · exact h.2 kind slot hm
    · rw [List.mem_singleton] at hm
      subst hm
      cases hi
  stack _ h := h
  report _ h := h
  label h := h
  imbalance _ _ _ _ := trivial
  notLive _ := trivial
  noOperator _ _ _ _ _ _ := trivial

/-- Loops take their slots above the live temporaries, if there is room below `last`. -/
theorem storing_scoped (hlast : last ≤ 65536) :
    Invariant.Scoped (storing first last) fun ts n => first ≤ ts.top ∧ ts.top + n ≤ last where
  plain _ := inferInstance
  mono h hroom := by omega
  inner hroom := by
    rw [Temporaries.top_withLoop (by omega)]
    omega
  fails _ := trivial
  enter _ hd := ⟨congrArg (Temporaries.withLoop · _) hd.1, hd.2⟩
  stores := by
    rintro ts component d hroom ⟨rfl, -⟩ mid slot hs ⟨htemps, hstores⟩
    have hfits : d.temporaries.top + Temporaries.loopWidth component ≤ 65536 := by omega
    obtain ⟨hresult, hiterator, hnext⟩ := Temporaries.loopSlots_eq hfits
    refine ⟨htemps, fun kind stored hm => ?_⟩
    rcases List.mem_append.mp hm with hm | hm
    · exact hstores kind stored hm
    · cases List.mem_singleton.mp hm
      have hw := component.width_pos
      unfold Temporaries.loopWidth at hroom
      simp only [List.mem_cons, List.not_mem_nil, or_false] at hs
      rcases hs with rfl | rfl | rfl <;> omega
  leave := by
    rintro ts component d mid hroom ⟨rfl, -⟩ ⟨htemps, hstores⟩
    rw [Temporaries.returns_release_withLoop (by omega) htemps]
    exact ⟨rfl, hstores⟩

end Emit

/-- What the site asks to write. -/
def SiteNode.request : SiteNode → Emit.Request
  | property site => .property site
  | dynamic site => .dynamic site
  | operator receiver op argument => .operator receiver op argument

/-- The slots that the site reads as it is written; `this` is in slot 0. -/
def SiteNode.slotsRead : SiteNode → List UInt16
  | property site | dynamic site => site.receiver.slotsRead
  | operator receiver _ argument => receiver.slotsRead ++ argument.slotsRead

namespace Fixture

/-- The slots for temporaries that the code of a site takes at a time. -/
def temporarySlots (f : Fixture) (site : FixtureSite) (options : Options) : Nat :=
  site.node.request.slotsTaken ⟨f.table, site.enclosing, options, site.inClosure⟩

/-- As long as slot numbers suffice, the code of a site stores in as many slots from its first
temporary on as it takes at a time. All other slots have the values that they were given in every
state of a run, on whatever machine. -/
theorem emit_stores (f : Fixture) (site : FixtureSite) (options : Options) (emitted : Emitted)
    (h : f.emit site options = .ok emitted)
    (hroom : (firstTemporary site).toNat + f.temporarySlots site options ≤ 65536) :
    let first := (firstTemporary site).toNat
    let last := first + f.temporarySlots site options
    (∀ kind slot, .store kind slot ∈ emitted.code → first ≤ slot.toNat ∧ slot.toNat < last) ∧
      ∀ (m : Machine) (locals : List Value) (heap : Heap) (frame : Frame),
        Reaches m emitted.code m.heap ⟨.ofValues locals, [], 0⟩ heap frame →
        ∀ slot : UInt16, slot.toNat < first ∨ last ≤ slot.toNat →
          frame.locals.get? slot = (Locals.ofValues locals).get? slot := by
  intro first last
  let s : Setting := ⟨f.table, site.enclosing, options, site.inClosure⟩
  have hwrite : writeSite s site.node = site.node.request.write s := by
    cases site.node <;> rfl
  have hstores : ∀ kind slot, .store kind slot ∈ emitted.code →
      first ≤ slot.toNat ∧ slot.toNat < last := by
    have hmaintains : Emit.Maintains (Emit.storing first last (.above (firstTemporary site)))
        (site.node.request.write s) :=
      Emit.maintains_request (.inr fun _ _ => trivial) (Emit.storing_scoped hroom) _
        ⟨Nat.le_refl _, Nat.le_refl _⟩
    have hdraft := (hmaintains (.empty (firstTemporary site)) ⟨rfl, nofun⟩).1.2
    obtain ⟨ty, -, rfl⟩ := exists_of_map_eq_ok h
    rw [← hwrite] at hdraft
    exact hdraft
  refine ⟨hstores, fun m locals heap frame hr slot hslot => hr.get?_locals fun kind hm => ?_⟩
  have hin := hstores kind slot hm
  omega

/-- A class of people, with their names and ages. -/
def people : Fixture where
  path := "people.toml"
  source := ""
  table :=
    match ClassTable.standard.declare "p.Person" .cls with
    | .ok (t, person) =>
      (t.addField person { name := "name", owner := person, type := .ofClass .string }).addField
        person { name := "age", owner := person, type := .int }
    | .error _ => .standard
  sites := []
  statics := []
  enumConstants := []

/-- `people.name.size + boss.age`, where `boss` is in the slot that is given. -/
def headcount (boss : UInt16) (maxLocals : Option UInt16) : FixtureSite where
  name := "headcount"
  enclosing := ⟨24⟩
  node :=
    let names : Expr :=
      .property (.localVar 1 { type := .object .list [.ofClass ⟨24⟩] })
        { member := "name", span := .none } { type := .ofClass .arrayList }
    let age : Expr :=
      .property (.localVar boss { type := .ofClass ⟨24⟩ }) { member := "age", span := .none }
        { type := .int }
    .operator (.property names { member := "size", span := .none } { type := .int }) "plus" age
  maxLocals
  inClosure := false
  span := .none
  this := none
  locals :=
    let person (name : String) (age : Int32) : ValueSpec :=
      .object "p.Person" [("name", .string name), ("age", .int age)]
    [(1, .list [person "a" 1, person "b" 2]), (boss, person "boss" 40)]

/-- The site does not say that slot 3 is its own, and the loop over the names overwrites the boss
there: the two people and the age of the last of them add up to 4. With four slots of its own the
site counts two people and the boss's age of 40. -/
theorem headcount_overwrites_boss :
    (∃ emitted, people.emit (headcount 3 none) .standard = .ok emitted ∧
      .store .reference 3 ∈ emitted.code ∧ 3 ∈ (headcount 3 none).node.slotsRead ∧
      3 ∈ (headcount 3 none).locals.map Prod.fst) ∧
    (people.run (headcount 3 none) .standard).toOption.map Prod.snd = some "4" ∧
    (people.run (headcount 3 (some 4)) .standard).toOption.map Prod.snd = some "42" :=
  ⟨⟨_, rfl, List.mem_of_getElem? (i := 18) rfl, by decide, by decide⟩, by decide +kernel,
    by decide +kernel⟩

/-- In slot 4, after the slots of the loop, the boss is safe. -/
theorem emit_stores_headcount :
    (∃ emitted, people.emit (headcount 4 none) .standard = .ok emitted ∧
        (firstTemporary (headcount 4 none)).toNat +
          people.temporarySlots (headcount 4 none) .standard ≤ 65536 ∧
        (∀ kind slot, .store kind slot ∈ emitted.code → 1 ≤ slot.toNat ∧ slot.toNat < 4) ∧
        let (m, locals) := people.prepare (.new people.table .standard) (headcount 4 none)
        ∀ heap frame, Reaches m emitted.code m.heap ⟨.ofValues locals, [], 0⟩ heap frame →
          frame.locals.get? 4 = some (.ref 3)) ∧
      (people.run (headcount 4 none) .standard).toOption.map Prod.snd = some "42" := by
  have hslots : people.temporarySlots (headcount 4 none) .standard = 3 := by decide +kernel
  have hroom : (firstTemporary (headcount 4 none)).toNat +
      people.temporarySlots (headcount 4 none) .standard ≤ 65536 := by
    rw [hslots]
    decide
  obtain ⟨emitted, h⟩ : ∃ emitted, people.emit (headcount 4 none) .standard = .ok emitted :=
    ⟨_, rfl⟩
  obtain ⟨hstores, hkeeps⟩ := emit_stores people (headcount 4 none) .standard emitted h hroom
  rw [hslots] at hstores hkeeps
  refine ⟨⟨emitted, h, hroom, hstores, fun heap frame hr => ?_⟩, by decide +kernel⟩
  exact hkeeps _ _ heap frame hr 4 (Or.inr (by decide))

end Fixture

end CallSite
