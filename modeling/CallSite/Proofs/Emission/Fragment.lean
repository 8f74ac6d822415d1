import CallSite.Proofs.Emission.Writes

/-!
# Fragments

The code that is written for an expression, apart from what was there before: it is well formed,
and running it changes nothing but what the run has made itself.
-/

namespace CallSite

/-- A machine with the helpers alone is fair. -/
theorem Machine.fair_of_standard {m : Machine} {options : Options}
    (hm : m.functions = Helper.standard options) : m.Fair := by
  intro entry hentry heap args
  rw [hm] at hentry
  exact Helper.standard_sound options hentry heap args

/-- A machine with the helpers alone is quiet. -/
theorem Machine.quiet_of_standard {m : Machine} {options : Options}
    (hm : m.functions = Helper.standard options) : m.Quiet := by
  intro entry hentry heap args heap' result h
  rw [hm] at hentry
  exact Helper.standard_quiet options hentry h

namespace Emit

variable {s : Setting} {e : Expr} {d : Draft} {ty : Ty}

/-- A written expression has grown the draft by the code of a tree with labels of its own. -/
private theorem expr_block {floor : Option Nat} (hb : s.table.Built) (ht : s.table.Tame)
    (h : (expr s e d).1 = .ok ty) (hroom : d.temporaries.Room floor (e.slotsTaken s)) :
    ∃ x, (expr s e d).2.code = d.code ++ x.flatten ∧ Shape floor e.slotsRead 0 x 1 ∧
      x.labels.Nodup := by
  have hreturns : Returns (expr s e) d ty (expr s e d).2 := Prod.ext h rfl
  obtain ⟨x, hx⟩ := expr_writes ht hb.owned e (fun _ => id) d ty _ hreturns hroom
  exact ⟨x, hx.code, hx.shape, hx.nodup⟩

/-- In a table that can be built, and that has no member that calls are not written for, the code
of an expression is well formed: whatever is on the operand stack when it starts, it leaves one
operand more on every path, its labels are bound, and it loads no slot that it has not stored,
other than those of the expression's own variables. No run on it wants an operand or a label. -/
theorem expr_wellFormed (s : Setting) (e : Expr) (d : Draft) (ty : Ty) (hb : s.table.Built)
    (ht : s.table.Tame) (h : (expr s e d).1 = .ok ty) :
    ∃ code, (expr s e d).2.code = d.code ++ code ∧ WellFormed e.slotsRead code ∧
      ∀ (m : Machine) (locals : List Value), m.Fair → Sound (m.run code locals).2 := by
  have hroom : d.temporaries.Room none (e.slotsTaken s) := nofun
  obtain ⟨x, hcode, hshape, hlabels⟩ := expr_block hb ht h hroom
  have hwell := hshape.wellFormed hlabels
  exact ⟨x.flatten, hcode, hwell, fun m locals hm => hwell.run_sound hm locals⟩

/-- Code of the standard table's root class. -/
def objectSetting : Setting where
  table := .standard
  enclosing := .object
  options := .standard

/-- `strings.empty`, which is a list of truth values. -/
def stringsEmpty : Expr :=
  .property (.localVar 1 { type := .object .list [.ofClass .string] })
    { member := "empty", span := .none } { type := .ofClass .arrayList }

theorem expr_wellFormed_stringsEmpty :
    (objectSetting.table.Built ∧ objectSetting.table.Tame ∧
        (expr objectSetting stringsEmpty (.empty 2)).1 = .ok (.ofClass .arrayList) ∧
        (Machine.new .standard .standard).Fair) ∧
      ∃ code, (expr objectSetting stringsEmpty (.empty 2)).2.code = code ∧ WellFormed [1] code ∧
        Sound ((Machine.new .standard .standard).run code [.null, .null]).2 := by
  have hfair : (Machine.new .standard .standard).Fair :=
    Machine.fair_of_standard (show _ = Helper.standard .standard from rfl)
  obtain ⟨code, hcode, hwell, hrun⟩ := expr_wellFormed objectSetting stringsEmpty (.empty 2)
    (.ofClass .arrayList) .standard ClassTable.standard_tame rfl
  exact ⟨⟨.standard, ClassTable.standard_tame, rfl, hfair⟩, code, hcode, hwell, hrun _ _ hfair⟩

/-- If what the expression reads lies below the first free slot, slot 0 of `this` included, each
load from there on finds what the code has stored. -/
theorem expr_temporaries_stored (s : Setting) (e : Expr) (d : Draft) (ty : Ty) (hb : s.table.Built)
    (ht : s.table.Tame) (h : (expr s e d).1 = .ok ty)
    (hbelow : ∀ slot ∈ e.slotsRead, slot < d.temporaries.freeSlot) :
    ∃ code, (expr s e d).2.code = d.code ++ code ∧
      ∀ slot, d.temporaries.freeSlot ≤ slot → ∀ p, Unstored code slot p →
        ∀ kind, code[p]? ≠ some (.load kind slot) := by
  have hroom : d.temporaries.Room none (e.slotsTaken s) := nofun
  obtain ⟨x, hcode, hshape, hlabels⟩ := expr_block hb ht h hroom
  refine ⟨x.flatten, hcode, fun slot hfree => ?_⟩
  have hown : slot ∉ e.slotsRead := fun hread => UInt16.not_lt.mpr hfree (hbelow slot hread)
  exact (hshape.wellFormed hlabels).stored slot hown

/-- In such a table the code of an expression aims what it changes at its own objects and slots.
While it runs, on a heap without iterators and with the standard helpers, every object that was
there before and every slot below the first free one stays as it was; so does the heap that the run
leaves, however it ends, and the static fields. -/
theorem expr_keeps (s : Setting) (e : Expr) (d : Draft) (ty : Ty) (hb : s.table.Built)
    (ht : s.table.Tame) (h : (expr s e d).1 = .ok ty)
    (hroom : d.temporaries.top + e.slotsTaken s ≤ 65536) :
    ∃ code, (expr s e d).2.code = d.code ++ code ∧
      ∀ (m : Machine) (options : Options) (locals : List Value),
        m.functions = Helper.standard options →
        (∀ (p : Nat) items k, m.heap[p]? ≠ some (.iterator items k)) →
        (∀ heap frame, Reaches m code m.heap ⟨.ofValues locals, [], 0⟩ heap frame →
          (∀ p, p < m.heap.size → heap[p]? = m.heap[p]?) ∧
            ∀ slot : UInt16, slot.toNat < d.temporaries.top →
              frame.locals.get? slot = (Locals.ofValues locals).get? slot) ∧
        (∀ p, p < m.heap.size → (m.run code locals).1.heap[p]? = m.heap[p]?) ∧
        (m.run code locals).1.statics = m.statics := by
  have hfloor : d.temporaries.Room (some d.temporaries.top) (e.slotsTaken s) := by
    intro k hk
    cases hk
    exact ⟨rfl, hroom⟩
  obtain ⟨x, hcode, hshape, hlabels⟩ := expr_block hb ht h hfloor
  refine ⟨x.flatten, hcode, fun m options locals hm hno => ?_⟩
  have hquiet := Machine.quiet_of_standard hm
  have hkeeps : ∀ heap frame, Reaches m x.flatten m.heap ⟨.ofValues locals, [], 0⟩ heap frame → _ :=
    fun heap frame hr => hshape.keeps hlabels hquiet rfl hno hr
  obtain ⟨last, hlast⟩ : ∃ last, Reaches m x.flatten m.heap ⟨.ofValues locals, [], 0⟩
      (m.run x.flatten locals).1.heap last := Reaches.of_runFrom m.stepLimit m.heap _
  exact ⟨hkeeps, (hkeeps _ last hlast).1, rfl⟩

/-- A machine with a list of two strings on its heap. -/
def stringsMachine : Machine :=
  { Machine.new .standard .standard with heap := #[.list [.string "", .string "a"]] }

theorem expr_keeps_stringsEmpty :
    (objectSetting.table.Built ∧ objectSetting.table.Tame ∧
        (expr objectSetting stringsEmpty (.empty 2)).1 = .ok (.ofClass .arrayList) ∧
        (Draft.empty 2).temporaries.top + stringsEmpty.slotsTaken objectSetting ≤ 65536 ∧
        stringsMachine.functions = Helper.standard .standard ∧
        ∀ (p : Nat) items k, stringsMachine.heap[p]? ≠ some (.iterator items k)) ∧
      ∃ code, (expr objectSetting stringsEmpty (.empty 2)).2.code = code ∧
        (∀ p, p < 1 → (stringsMachine.run code [.null, .ref 0]).1.heap[p]? =
          stringsMachine.heap[p]?) ∧
        (stringsMachine.run code [.null, .ref 0]).1.statics = [] := by
  have hno : ∀ (p : Nat) items k, stringsMachine.heap[p]? ≠ some (.iterator items k) := by
    intro p items k
    cases p with
    | zero => exact nofun
    | succ p => exact nofun
  have hroom : (Draft.empty 2).temporaries.top + stringsEmpty.slotsTaken objectSetting ≤ 65536 := by
    decide
  obtain ⟨code, hcode, hkeeps⟩ := expr_keeps objectSetting stringsEmpty (.empty 2)
    (.ofClass .arrayList) .standard ClassTable.standard_tame rfl hroom
  obtain ⟨-, hheap, hstatics⟩ := hkeeps stringsMachine .standard [.null, .ref 0] rfl hno
  exact ⟨⟨.standard, ClassTable.standard_tame, rfl, hroom, rfl, hno⟩, code, hcode, hheap, hstatics⟩

end Emit

end CallSite
