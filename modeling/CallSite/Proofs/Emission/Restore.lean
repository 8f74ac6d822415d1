import CallSite.Proofs.Emission.Fragment
import CallSite.Proofs.Emission.Request

/-!
# Temporaries are given back

Whatever is written, the temporaries that were live before are live afterwards, and no others. This
holds for a step that fails as well: a loop gives its three slots back in either case, and finds
them by their numbers, since they lie above all the others.
-/

namespace CallSite

namespace Emit

variable {α β : Type} {ts : Temporaries} {s : Setting}

/-- Started with the temporaries `ts`, the step ends with them, whether it returns or fails. -/
def Restores (ts : Temporaries) (step : Emit α) : Prop :=
  ∀ d : Draft, d.temporaries = ts → (step d).2.temporaries = ts

/-- The temporaries are `ts`. -/
def restoring (ts : Temporaries) : Invariant where
  holds d := d.temporaries = ts
  fails _ := True

instance (ts : Temporaries) : (restoring ts).Plain where
  emit _ h := h
  stack _ h := h
  report _ h := h
  label h := h
  imbalance _ _ _ _ := trivial
  notLive _ := trivial
  noOperator _ _ _ _ _ _ := trivial

/-- A loop whose three slots fit leaves the temporaries as they were. -/
theorem restoring_scoped : Invariant.Scoped restoring fun ts n => ts.top + n ≤ 65536 where
  plain _ := inferInstance
  mono h hroom := by omega
  inner hroom := by
    rw [Temporaries.top_withLoop (by omega)]
    omega
  fails _ := trivial
  enter _ hd := congrArg (Temporaries.withLoop · _) hd
  stores _ _ := fun _ _ _ h => h
  leave := by
    rintro ts component d mid hroom rfl hmid
    rw [Temporaries.returns_release_withLoop hroom hmid]
    rfl

theorem restores_iff {step : Emit α} : Restores ts step ↔ Maintains (restoring ts) step :=
  ⟨fun h d hd => ⟨h d hd, fun _ _ => trivial⟩, fun h d hd => (h d hd).1⟩

theorem restores_pure {a : α} : Restores ts (pure a : Emit α) := fun _ h => h

theorem Restores.bind {step : Emit α} {next : α → Emit β} (hs : Restores ts step)
    (hn : ∀ a, Restores ts (next a)) : Restores ts (step >>= next) :=
  restores_iff.mpr ((restores_iff.mp hs).bind fun a => restores_iff.mp (hn a))

theorem restores_depth : Restores ts depth := fun _ h => h

theorem restores_expectDepth {n : Nat} {what : String} {span : Span} :
    Restores ts (expectDepth n what span) := restores_iff.mpr maintains_expectDepth

theorem restores_access {site : Site} {receiver : Emit Ty} {collected : Ty → Emit Ty}
    (hb : Restores ts (bound s (s.binding site) site site.member receiver collected)) :
    Restores ts (access s site receiver collected) :=
  restores_iff.mpr (maintains_access (restores_iff.mp hb))

section Sites

variable {site : Site} {member : String}
  (hr : ∀ {ts}, ts.top + site.receiver.slotsTaken s ≤ 65536 → Restores ts (expr s site.receiver))

include hr

private theorem restores_collectProperty {component : Ty}
    (hroom : ts.top + listSlots s site member component ≤ 65536) :
    Restores ts (collectProperty s site member (expr s site.receiver) component) :=
  restores_iff.mpr (maintains_collectProperty (.inr fun _ _ => trivial) restoring_scoped
    (fun h => restores_iff.mp (hr h)) hroom)

private theorem restores_boundSite {binding : Binding}
    (hroom : ts.top + boundSlots s binding site member ≤ 65536) :
    Restores ts (bound s binding site member (expr s site.receiver)
      (collectProperty s site member (expr s site.receiver))) :=
  restores_iff.mpr (maintains_boundSite (.inr fun _ _ => trivial) restoring_scoped
    (fun h => restores_iff.mp (hr h)) hroom)

end Sites

theorem restores_expr (e : Expr) (hroom : ts.top + e.slotsTaken s ≤ 65536) :
    Restores ts (expr s e) :=
  restores_iff.mpr (maintains_expr (.inr fun _ _ => trivial) restoring_scoped e hroom)

/-- As long as the slots above the live temporaries suffice, the temporaries that are live after a
request are those that were live before, whether it returns or fails. -/
theorem request_restores (s : Setting) (r : Request) (d : Draft)
    (hroom : d.temporaries.top + r.slotsTaken s ≤ 65536) :
    (r.write s d).2.temporaries = d.temporaries := by
  suffices h : Restores d.temporaries (r.write s) from h d rfl
  cases r with
  | expr e => exact restores_expr e hroom
  | property site =>
    exact restores_access (restores_boundSite (restores_expr site.receiver) hroom)
  | dynamic site =>
    exact restores_depth.bind fun _ =>
      (restores_boundSite (restores_expr site.receiver) hroom).bind fun _ =>
        restores_expectDepth.bind fun _ => restores_pure
  | operator receiver op argument =>
    exact restores_depth.bind fun _ =>
      (restores_expr (.operator receiver op argument receiver.note) hroom).bind fun _ =>
        restores_expectDepth.bind fun _ => restores_pure
  | list site member component =>
    exact restores_collectProperty (restores_expr site.receiver) hroom

/-- The loop for a property of the elements of `this.spread(this)`, which nothing answers. -/
def unansweredList : Request :=
  let this : Expr := .this { type := .ofClass .object }
  .list { member := "empty", span := .none
          receiver := .operator this "spread" this { type := .ofClass .list } }
    "empty" (.ofClass .string)

/-- A draft with one live temporary. -/
def heldDraft : Draft := { Draft.empty 1 with temporaries := (Temporaries.above 1).define "held" .int }

theorem request_restores_unansweredList :
    (heldDraft.temporaries.top + unansweredList.slotsTaken objectSetting ≤ 65536 ∧
        ∃ e, (unansweredList.write objectSetting heldDraft).1 = .error e) ∧
      (unansweredList.write objectSetting heldDraft).2.temporaries.live = [⟨"held", 1, .int⟩] := by
  have hroom : heldDraft.temporaries.top + unansweredList.slotsTaken objectSetting ≤ 65536 := by
    decide
  refine ⟨⟨hroom, _, rfl⟩, ?_⟩
  rw [request_restores objectSetting unansweredList heldDraft hroom]
  rfl

end Emit

end CallSite
