import CallSite.Proofs.ClassTable.Chains

/-!
# Construction of class tables

A table is built by a history of calls that are given classes which the table has handed out.
After any such history the superclass links lead to the root class, the nesting links come to an
end, every name finds its class, and whatever the table refers to is one of its classes. A call that
the table refuses leaves it as it was, and it refuses just the names that are taken and the links
that would close a circle.
-/

namespace CallSite

namespace ClassTable

/-- The class `d` is the superclass of `c`. -/
def Extends (t : ClassTable) (c d : ClassId) : Prop := t.superclass? c = some d

/-- The class `c` is declared inside `d`. -/
def NestedIn (t : ClassTable) (c d : ClassId) : Prop := t.outer? c = some d

/-- What can be asked of a table that is being built. -/
inductive Call where
  | declare (name : String) (kind : ClassKind)
  | setSuperclass (c superclass : ClassId)
  | setOuter (c outer : ClassId)
  | addInterface (c interface : ClassId)
  | setUnit (c : ClassId) (unit : Nat)
  | markWithClosure (c : ClassId)
  | addField (c : ClassId) (field : Field)
  | addMethod (c : ClassId) (method : Method)
  | addProperty (c : ClassId) (property : Property)
  | addBridge (c : ClassId) (field : String) (accessor : Method)
  | allowBridges (a b : ClassId)
  | addExtension (method : Method)

namespace Call

/-- The classes that the call is given. -/
def classes : Call → List ClassId
  | declare _ _ | addExtension _ => []
  | setSuperclass c d | setOuter c d | addInterface c d | allowBridges c d => [c, d]
  | setUnit c _ | markWithClosure c | addField c _ | addMethod c _ | addProperty c _
  | addBridge c _ _ => [c]

/-- The table has handed out the classes that the call is given. -/
def Given (t : ClassTable) (call : Call) : Prop := ∀ c ∈ call.classes, c.index < t.size

instance (t : ClassTable) (call : Call) : Decidable (call.Given t) :=
  inferInstanceAs (Decidable (∀ c ∈ call.classes, c.index < t.size))

/-- The extended table, with the class that a declaration hands out. -/
def attempt (t : ClassTable) : Call → Except HierarchyFault (ClassTable × Option ClassId)
  | declare name kind => do
    let (t, c) ← t.declare name kind
    return (t, some c)
  | setSuperclass c superclass => return (← t.setSuperclass c superclass, none)
  | setOuter c outer => return (← t.setOuter c outer, none)
  | addInterface c interface => .ok (t.addInterface c interface, none)
  | setUnit c unit => .ok (t.setUnit c unit, none)
  | markWithClosure c => .ok (t.markWithClosure c, none)
  | addField c field => .ok (t.addField c field, none)
  | addMethod c method => .ok (t.addMethod c method, none)
  | addProperty c property => .ok (t.addProperty c property, none)
  | addBridge c field accessor => .ok (t.addBridge c field accessor, none)
  | allowBridges a b => .ok (t.allowBridges a b, none)
  | addExtension method => .ok (t.addExtension method, none)

/-- The table after the call, and what the call answers. -/
def run (t : ClassTable) (call : Call) : ClassTable × Except HierarchyFault (Option ClassId) :=
  match call.attempt t with
  | .ok (t', answer) => (t', .ok answer)
  | .error fault => (t, .error fault)

end Call

/-- The table after a history of calls. -/
def runAll (t : ClassTable) (calls : List Call) : ClassTable :=
  calls.foldl (fun t call => (call.run t).1) t

/-- Every call of the history is given classes that the table has handed out by then. -/
def Handed (t : ClassTable) : List Call → Prop
  | [] => True
  | call :: calls => call.Given t ∧ Handed (call.run t).1 calls

instance Handed.decidable : (t : ClassTable) → (calls : List Call) → Decidable (t.Handed calls)
  | _, [] => inferInstanceAs (Decidable True)
  | t, call :: calls =>
    have := decidable (call.run t).1 calls
    inferInstanceAs (Decidable (call.Given t ∧ Handed (call.run t).1 calls))

/-- The tables that calls build. -/
def Constructed (t : ClassTable) : Prop :=
  ∃ calls, standard.Handed calls ∧ standard.runAll calls = t

/-- Why a table refuses a call: the name is taken, or the link would close a circle. -/
inductive Refuses (t : ClassTable) : Call → HierarchyFault → Prop
  | taken (c : ClassId) (kind : ClassKind) : c.index < t.size →
      Refuses t (.declare (t.name c) kind) (.declaredTwice (t.name c))
  | inheritance (c superclass : ClassId) : Relation.ReflTransGen t.Extends superclass c →
      Refuses t (.setSuperclass c superclass) (.cyclicInheritance (t.name c) (t.name superclass))
  | nesting (c outer : ClassId) : Relation.ReflTransGen t.NestedIn outer c →
      Refuses t (.setOuter c outer) (.cyclicNesting (t.name c) (t.name outer))

/-- The names tell the classes apart. -/
def UniqueNames (t : ClassTable) : Prop :=
  ∀ c d : ClassId, c.index < t.size → d.index < t.size → t.name c = t.name d → c = d

/-- What every table satisfies that is built by calls. -/
structure Consistent (t : ClassTable) : Prop where
  size : 24 ≤ t.size
  linked : t.Linked
  names : t.UniqueNames
  interfaces : ∀ c, ∀ i ∈ (t.info c).interfaces, i.index < t.size
  bridgePairs : ∀ p ∈ t.bridgePairs, p.1.index < t.size ∧ p.2.index < t.size

variable {t t' : ClassTable} {c d : ClassId} {name : String}

/-! ## Names -/

theorem info_eq_getElem (h : c.index < t.classes.length) : t.info c = t.classes[c.index] := by
  have hget : t.classes[c.index]? = some t.classes[c.index] := List.getElem?_eq_getElem h
  unfold info
  rw [hget]
  rfl

/-- A name finds the first class that has it. -/
theorem lookup_eq_some_iff : t.lookup name = some c ↔
    c.index < t.size ∧ t.name c = name ∧ ∀ d : ClassId, d.index < c.index → t.name d ≠ name := by
  have hat : ∀ {i : Nat} (hi : i < t.classes.length),
      t.classes[i].name == name ↔ t.name ⟨i⟩ = name := by
    intro i hi
    rw [beq_iff_eq, ClassTable.name, info_eq_getElem (c := ⟨i⟩) hi]
  unfold lookup
  rw [Option.map_eq_some_iff]
  constructor
  · rintro ⟨i, hi, rfl⟩
    obtain ⟨hlt, hname, hbefore⟩ := List.findIdx?_eq_some_iff_getElem.mp hi
    exact ⟨hlt, (hat hlt).mp hname, fun d hd he =>
      hbefore d.index hd ((hat (Nat.lt_trans hd hlt)).mpr he)⟩
  · rintro ⟨hlt, hname, hbefore⟩
    refine ⟨c.index, List.findIdx?_eq_some_iff_getElem.mpr ⟨hlt, (hat hlt).mpr hname, ?_⟩, rfl⟩
    intro j hj he
    exact hbefore ⟨j⟩ hj ((hat (Nat.lt_trans hj hlt)).mp he)

theorem lookup_eq_none_iff :
    t.lookup name = none ↔ ∀ c : ClassId, c.index < t.size → t.name c ≠ name := by
  unfold lookup
  rw [Option.map_eq_none_iff, List.findIdx?_eq_none_iff]
  constructor
  · intro h c hc he
    rw [ClassTable.name, info_eq_getElem hc] at he
    exact absurd he (beq_eq_false_iff_ne.mp (h _ (List.getElem_mem hc)))
  · intro h info hinfo
    obtain ⟨i, hi, rfl⟩ := List.getElem_of_mem hinfo
    have hne := h ⟨i⟩ hi
    rw [ClassTable.name, info_eq_getElem (c := ⟨i⟩) hi] at hne
    exact beq_eq_false_iff_ne.mpr hne

theorem UniqueNames.lookup_name (h : t.UniqueNames) (hc : c.index < t.size) :
    t.lookup (t.name c) = some c := by
  refine lookup_eq_some_iff.mpr ⟨hc, rfl, fun d hd he => ?_⟩
  rw [h d c (Nat.lt_trans hd hc) hc he] at hd
  exact Nat.lt_irrefl _ hd

theorem UniqueNames.of_nodup (h : (t.classes.map ClassInfo.name).Nodup) : t.UniqueNames := by
  intro c d hc hd he
  rw [ClassTable.name, ClassTable.name, info_eq_getElem hc, info_eq_getElem hd] at he
  have hc' : c.index < (t.classes.map ClassInfo.name).length := by rwa [List.length_map]
  have hd' : d.index < (t.classes.map ClassInfo.name).length := by rwa [List.length_map]
  have hsame : (t.classes.map ClassInfo.name)[c.index] =
      (t.classes.map ClassInfo.name)[d.index] := by
    rw [List.getElem_map, List.getElem_map]
    exact he
  exact congrArg ClassId.mk (h.getElem_inj_iff.mp hsame)

theorem UniqueNames.standard : ClassTable.standard.UniqueNames := .of_nodup (by decide)

theorem UniqueNames.declare {kind : ClassKind} (hn : t.UniqueNames)
    (h : t.declare name kind = .ok (t', c)) : t'.UniqueNames := by
  have hnew : t'.name c = name := congrArg ClassInfo.name (info_declare_self h)
  have hold : ∀ {d : ClassId}, d.index < t.size → t'.name d = t.name d := fun hd =>
    congrArg ClassInfo.name (info_declare_of_lt h hd)
  have hfree := lookup_eq_none_iff.mp (declare_eq_ok h).1
  intro d e hd he hde
  rcases lt_or_eq_of_declare h hd with hd | rfl <;> rcases lt_or_eq_of_declare h he with he | rfl
  · rw [hold hd, hold he] at hde
    exact hn d e hd he hde
  · rw [hold hd, hnew] at hde
    exact absurd hde (hfree d hd)
  · rw [hold he, hnew] at hde
    exact absurd hde.symm (hfree e he)
  · rfl

/-! ## What calls preserve -/

namespace Consistent

theorem standard : ClassTable.standard.Consistent where
  size := by decide
  linked := .standard
  names := .standard
  interfaces c i hi := by
    have hall : ∀ j < 24, ∀ i ∈ (ClassTable.standard.info ⟨j⟩).interfaces, i.index < 24 := by decide
    by_cases hc : c.index < 24
    · exact hall c.index hc i hi
    · rw [info_standard_of_le (Nat.le_of_not_lt hc)] at hi
      cases hi
  bridgePairs := nofun

theorem declare (h : t.Consistent) {kind : ClassKind} (hd : t.declare name kind = .ok (t', c)) :
    t'.Consistent := by
  have hsize := size_declare hd
  have hgrow : ∀ {i : Nat}, i < t.size → i < t'.size := fun hi => hsize ▸ Nat.lt_succ_of_lt hi
  refine ⟨?_, h.linked.declare h.size hd, h.names.declare hd, fun k i hi => ?_, fun p hp => ?_⟩
  · rw [hsize]
    exact Nat.le_succ_of_le h.size
  · by_cases hk : k.index < t'.size
    · rcases lt_or_eq_of_declare hd hk with hk | rfl
      · rw [info_declare_of_lt hd hk] at hi
        exact hgrow (h.interfaces k i hi)
      · rw [info_declare_self hd] at hi
        cases hi
    · rw [info_of_le (Nat.le_of_not_lt hk)] at hi
      cases hi
  · have hold : t'.bridgePairs = t.bridgePairs := by rw [(declare_eq_ok hd).2.2]
    have hin := h.bridgePairs p (hold ▸ hp)
    exact ⟨hgrow hin.1, hgrow hin.2⟩

/-- A change of one class that keeps its name and lists interfaces of the table only. -/
private theorem of_update (h : t.Consistent) {change : ClassInfo → ClassInfo}
    (hl : (t.update c change).Linked) (hname : ∀ info, (change info).name = info.name)
    (hi : ∀ info, ∀ i ∈ (change info).interfaces, i ∈ info.interfaces ∨ i.index < t.size) :
    (t.update c change).Consistent := by
  have hsize := t.size_update c change
  refine ⟨hsize ▸ h.size, hl, ?_, fun k i hk => ?_, ?_⟩
  · intro d e hd he hde
    rw [hsize] at hd he
    have hsame := t.info_update_congr c ClassInfo.name hname
    exact h.names d e hd he ((hsame d).symm.trans (hde.trans (hsame e)))
  · rw [hsize]
    rcases t.info_update c k change with hinfo | ⟨-, hinfo⟩
    · rw [hinfo] at hk
      exact h.interfaces k i hk
    · rw [hinfo] at hk
      exact (hi _ i hk).elim (h.interfaces k i) id
  · rw [hsize]
    exact h.bridgePairs

/-- A change of what one class declares. -/
private theorem of_members (h : t.Consistent) (c : ClassId) {change : ClassInfo → ClassInfo}
    (hs : ∀ info, (change info).superclass = info.superclass)
    (ho : ∀ info, (change info).outer = info.outer)
    (hname : ∀ info, (change info).name = info.name)
    (hi : ∀ info, (change info).interfaces = info.interfaces) : (t.update c change).Consistent :=
  h.of_update (h.linked.update c hs ho) hname fun info _ hmem => .inl (hi info ▸ hmem)

theorem setSuperclass (h : t.Consistent) (hd : d.index < t.size)
    (hs : t.setSuperclass c d = .ok t') : t'.Consistent := by
  have hl := h.linked.setSuperclass hd hs
  obtain ⟨-, rfl⟩ := setSuperclass_eq_ok hs
  exact h.of_update hl (fun _ => rfl) fun _ _ => .inl

theorem setOuter (h : t.Consistent) (hd : d.index < t.size) (hs : t.setOuter c d = .ok t') :
    t'.Consistent := by
  have hl := h.linked.setOuter hd hs
  obtain ⟨-, rfl⟩ := setOuter_eq_ok hs
  exact h.of_update hl (fun _ => rfl) fun _ _ => .inl

theorem addInterface (h : t.Consistent) (hd : d.index < t.size) :
    (t.addInterface c d).Consistent := by
  refine h.of_update (h.linked.update c (fun info => ?_) fun info => ?_) (fun info => ?_) ?_
  · split <;> rfl
  · split <;> rfl
  · split <;> rfl
  · intro info i hi
    split at hi
    · exact .inl hi
    · refine (List.mem_append.mp hi).imp_right fun hi => ?_
      rw [List.mem_singleton.mp hi]
      exact hd

/-- Every call that is given classes of the table keeps it consistent. -/
theorem attempt (h : t.Consistent) {call : Call} {answer : Option ClassId} (hg : call.Given t)
    (ha : call.attempt t = .ok (t', answer)) : t'.Consistent := by
  have hlisted : ∀ {c d : ClassId}, call.classes = [c, d] → d.index < t.size := fun hc =>
    hg _ (hc ▸ .tail _ (.head _))
  cases call with
  | declare name kind =>
    cases hd : t.declare name kind with
    | error fault => rw [Call.attempt, hd] at ha; cases ha
    | ok declared => rw [Call.attempt, hd] at ha; cases ha; exact h.declare hd
  | setSuperclass c superclass =>
    cases hs : t.setSuperclass c superclass with
    | error fault => rw [Call.attempt, hs] at ha; cases ha
    | ok linked => rw [Call.attempt, hs] at ha; cases ha; exact h.setSuperclass (hlisted rfl) hs
  | setOuter c outer =>
    cases hs : t.setOuter c outer with
    | error fault => rw [Call.attempt, hs] at ha; cases ha
    | ok linked => rw [Call.attempt, hs] at ha; cases ha; exact h.setOuter (hlisted rfl) hs
  | addInterface c interface =>
    cases ha
    exact h.addInterface (hlisted rfl)
  | setUnit c _ | markWithClosure c | addField c _ | addMethod c _ | addProperty c _
  | addBridge c _ _ =>
    cases ha
    exact h.of_members c (fun _ => rfl) (fun _ => rfl) (fun _ => rfl) fun _ => rfl
  | allowBridges a b =>
    cases ha
    refine ⟨h.size, h.linked.of_links rfl (fun _ => rfl) fun _ => rfl, h.names, h.interfaces, ?_⟩
    intro p hp
    rcases List.mem_append.mp hp with hp | hp
    · exact h.bridgePairs p hp
    · rw [List.mem_singleton.mp hp]
      exact ⟨hg a (.head _), hlisted rfl⟩
  | addExtension method =>
    cases ha
    exact ⟨h.size, h.linked.of_links rfl (fun _ => rfl) fun _ => rfl, h.names, h.interfaces,
      h.bridgePairs⟩

theorem run (h : t.Consistent) {call : Call} (hg : call.Given t) : (call.run t).1.Consistent := by
  unfold Call.run
  split
  · exact h.attempt hg ‹_›
  · exact h

theorem runAll {calls : List Call} (h : t.Consistent) (hc : t.Handed calls) :
    (t.runAll calls).Consistent := by
  induction calls generalizing t with
  | nil => exact h
  | cons call calls ih => exact ih (h.run hc.1) hc.2

end Consistent

namespace Built

theorem attempt (h : t.Built) {call : Call} {answer : Option ClassId}
    (ha : call.attempt t = .ok (t', answer)) : t'.Built := by
  cases call with
  | declare name kind =>
    cases hd : t.declare name kind with
    | error fault => rw [Call.attempt, hd] at ha; cases ha
    | ok declared => rw [Call.attempt, hd] at ha; cases ha; exact .declare h hd
  | setSuperclass c superclass =>
    cases hs : t.setSuperclass c superclass with
    | error fault => rw [Call.attempt, hs] at ha; cases ha
    | ok linked => rw [Call.attempt, hs] at ha; cases ha; exact .setSuperclass h hs
  | setOuter c outer =>
    cases hs : t.setOuter c outer with
    | error fault => rw [Call.attempt, hs] at ha; cases ha
    | ok linked => rw [Call.attempt, hs] at ha; cases ha; exact .setOuter h hs
  | addInterface c interface => cases ha; exact .addInterface c interface h
  | setUnit c unit => cases ha; exact .setUnit c unit h
  | markWithClosure c => cases ha; exact .markWithClosure c h
  | addField c field => cases ha; exact .addField c field h
  | addMethod c method => cases ha; exact .addMethod c method h
  | addProperty c property => cases ha; exact .addProperty c property h
  | addBridge c field accessor => cases ha; exact .addBridge c field accessor h
  | allowBridges a b => cases ha; exact .allowBridges a b h
  | addExtension method => cases ha; exact .addExtension method h

theorem runAll {calls : List Call} (h : t.Built) : (t.runAll calls).Built := by
  induction calls generalizing t with
  | nil => exact h
  | cons call calls ih =>
    refine ih (?_ : (call.run t).1.Built)
    unfold Call.run
    split
    · exact h.attempt ‹_›
    · exact h

end Built

theorem Constructed.consistent (h : t.Constructed) : t.Consistent := by
  obtain ⟨calls, hc, rfl⟩ := h
  exact Consistent.standard.runAll hc

theorem Constructed.built (h : t.Constructed) : t.Built := by
  obtain ⟨calls, -, rfl⟩ := h
  exact Built.standard.runAll

/-! ## Refused calls -/

namespace Consistent

theorem mem_superclasses_iff (h : t.Consistent) (hc : c.index < t.size) :
    d ∈ t.superclasses c ↔ Relation.ReflTransGen t.Extends c d :=
  h.linked.superclasses.mem_chain_iff hc

theorem mem_outers_iff (h : t.Consistent) (hc : c.index < t.size) :
    d ∈ t.outers c ↔ Relation.ReflTransGen t.NestedIn c d :=
  h.linked.outers.mem_chain_iff hc

/-- Reading an answer off an operation refuses what the operation refuses. -/
private theorem bind_eq_error_iff {ε α β : Type} {r : Except ε α} {next : α → Except ε β} {e : ε}
    (hn : ∀ a, ∃ b, next a = .ok b) : r >>= next = .error e ↔ r = .error e := by
  cases r with
  | ok a =>
    obtain ⟨b, hb⟩ := hn a
    exact ⟨fun h => (by cases hb.symm.trans h), nofun⟩
  | error e' =>
    show (Except.error e' : Except ε β) = .error e ↔ _
    rw [Except.error.injEq, Except.error.injEq]

/-- A table refuses the names that are taken and the links that would close a circle, and nothing
else. -/
theorem attempt_eq_error_iff (h : t.Consistent) {call : Call} (hg : call.Given t)
    {fault : HierarchyFault} : call.attempt t = .error fault ↔ t.Refuses call fault := by
  have hlisted : ∀ {c d : ClassId}, call.classes = [c, d] → d.index < t.size := fun hc =>
    hg _ (hc ▸ .tail _ (.head _))
  cases call with
  | declare name kind =>
    refine (bind_eq_error_iff fun declared => ⟨_, rfl⟩).trans ⟨fun hd => ?_, fun hr => ?_⟩
    · unfold ClassTable.declare at hd
      split at hd
      · rename_i c hc
        cases hd
        obtain ⟨hlt, rfl, -⟩ := lookup_eq_some_iff.mp hc
        exact .taken c kind hlt
      · cases hd
    · cases hr with
      | taken c kind hc =>
        unfold ClassTable.declare
        rw [h.names.lookup_name hc]
  | setSuperclass c superclass =>
    have hmem := h.mem_superclasses_iff (d := c) (hlisted rfl)
    refine (bind_eq_error_iff fun linked => ⟨_, rfl⟩).trans ⟨fun hd => ?_, fun hr => ?_⟩
    · unfold ClassTable.setSuperclass at hd
      split at hd
      · rename_i hc
        cases hd
        exact .inheritance c superclass (hmem.mp (List.contains_iff_mem.mp hc))
      · cases hd
    · cases hr with
      | inheritance _ _ hc =>
        exact if_pos (List.contains_iff_mem.mpr (hmem.mpr hc))
  | setOuter c outer =>
    have hmem := h.mem_outers_iff (d := c) (hlisted rfl)
    refine (bind_eq_error_iff fun linked => ⟨_, rfl⟩).trans ⟨fun hd => ?_, fun hr => ?_⟩
    · unfold ClassTable.setOuter at hd
      split at hd
      · rename_i hc
        cases hd
        exact .nesting c outer (hmem.mp (List.contains_iff_mem.mp hc))
      · cases hd
    · cases hr with
      | nesting _ _ hc =>
        exact if_pos (List.contains_iff_mem.mpr (hmem.mpr hc))
  | _ => exact ⟨nofun, nofun⟩

theorem run_eq_error_iff (h : t.Consistent) {call : Call} (hg : call.Given t)
    {fault : HierarchyFault} :
    (call.run t).2 = .error fault ↔ t.Refuses call fault := by
  rw [← h.attempt_eq_error_iff hg]
  unfold Call.run
  cases call.attempt t with
  | ok extended => exact ⟨nofun, nofun⟩
  | error fault' =>
    show Except.error fault' = .error fault ↔ Except.error fault' = .error fault
    rw [Except.error.injEq, Except.error.injEq]

end Consistent

/-! ## Tables after any history -/

/-- A class in its table: where its links lead, what finds it, and what it owns. -/
structure WellPlaced (t : ClassTable) (c : ClassId) : Prop where
  /-- All superclasses are met on the way to the root class, each once. -/
  superclasses : (∃ n, Leads t.superclass? .object n c ∧ (t.superclasses c).length = n + 1) ∧
    (t.superclasses c).Nodup ∧ (t.superclasses c).getLast? = some .object
  /-- The classes around it come to an end, and none is met twice. -/
  outers : (∃ last n, Leads t.outer? last n c ∧ (t.outers c).length = n + 1) ∧ (t.outers c).Nodup
  lookup_name : t.lookup (t.name c) = some c
  superclass_lt : ∀ d, t.superclass? c = some d → d.index < t.size
  outer_lt : ∀ d, t.outer? c = some d → d.index < t.size
  interfaces_lt : ∀ i ∈ (t.info c).interfaces, i.index < t.size
  owned : (t.info c).OwnedBy c

theorem Consistent.wellPlaced (h : t.Consistent) (ho : t.Owned) (hc : c.index < t.size) :
    t.WellPlaced c := by
  have hs := h.linked.superclasses
  have hout := h.linked.outers
  obtain ⟨root, hroot, -, hlast, hnodup⟩ := hs.chain_ends hc
  obtain ⟨last, n, -, hn⟩ := hout.ends c hc
  refine ⟨⟨?_, hnodup, hroot ▸ hlast⟩, ⟨⟨last, n, hn, ?_⟩, hn.nodup_chain t.size⟩,
    h.names.lookup_name hc, hs.lt c, hout.lt c, h.interfaces c, ho.classes c⟩
  · obtain ⟨root, n, rfl, hn⟩ := hs.ends c hc
    exact ⟨n, hn, (hn.chain_reaches (hn.lt_size hs.lt hc)).1⟩
  · exact (hn.chain_reaches (hn.lt_size hout.lt hc)).1

/-- After any history of calls that are given classes of the table, its classes are in order and no
two share a name, and its extensions and bridge pairs name classes that it has. The next call is
refused just for a name that is taken or a link that would close a circle, and a refused call
changes nothing. -/
theorem runAll_wellPlaced (calls : List Call) (h : standard.Handed calls) :
    let t := standard.runAll calls
    (∀ c : ClassId, c.index < t.size → t.WellPlaced c) ∧ t.UniqueNames ∧
      (∀ m ∈ t.extensions, m.owner.index < t.size) ∧
      (∀ p ∈ t.bridgePairs, p.1.index < t.size ∧ p.2.index < t.size) ∧
      ∀ (call : Call) (fault : HierarchyFault), call.Given t →
        ((call.run t).2 = .error fault ↔ t.Refuses call fault) ∧
          ((call.run t).2 = .error fault → (call.run t).1 = t) := by
  intro t
  have hbuilt : t.Constructed := ⟨calls, h, rfl⟩
  have ht := hbuilt.consistent
  have ho := hbuilt.built.owned
  refine ⟨fun c hc => ht.wellPlaced ho hc, ht.names, fun m hm => ?_, ht.bridgePairs, ?_⟩
  · rw [(ho.extensions m hm).1]
    exact Nat.lt_of_lt_of_le (by decide) ht.size
  · intro call fault hg
    refine ⟨ht.run_eq_error_iff hg, fun he => ?_⟩
    unfold Call.run at he ⊢
    cases ha : call.attempt t with
    | ok extended =>
      rw [ha] at he
      cases he
    | error fault' => rfl

/-- Numbers are put under a declared class, and the class tries to extend a number. -/
def numberHistory : List Call :=
  [.declare "p.Amount" .cls, .declare "p.Amount" .enum, .declare "p.Unit" .interface,
    .setSuperclass .number ⟨24⟩, .setSuperclass ⟨24⟩ .integer, .addInterface ⟨25⟩ ⟨25⟩,
    .setOuter ⟨25⟩ ⟨24⟩, .setOuter ⟨24⟩ ⟨25⟩, .setSuperclass .object ⟨25⟩,
    .addField ⟨24⟩ ⟨"unit", .object, .ofClass ⟨25⟩, false, .owner⟩,
    .addBridge ⟨24⟩ "unit"
      ⟨"unitOf", .object, [.ofClass ⟨24⟩], .ofClass ⟨25⟩, false, .world, false⟩,
    .allowBridges ⟨25⟩ .number]

theorem runAll_wellPlaced_numbers :
    let t := standard.runAll numberHistory
    standard.Handed numberHistory ∧ t.superclasses .integer = [.integer, .number, ⟨24⟩, .object] ∧
      t.WellPlaced .integer ∧
      ((Call.setSuperclass ⟨24⟩ .integer).run t).1 = t ∧
        t.Refuses (.setSuperclass ⟨24⟩ .integer)
          (.cyclicInheritance "p.Amount" "java.lang.Integer") := by
  intro t
  have hh : standard.Handed numberHistory := by decide
  obtain ⟨hplaced, -, -, -, hcalls⟩ := runAll_wellPlaced numberHistory hh
  have hr : ((Call.setSuperclass ⟨24⟩ .integer).run t).2 =
    .error (.cyclicInheritance "p.Amount" "java.lang.Integer") := by decide
  obtain ⟨hiff, hsame⟩ := hcalls (.setSuperclass ⟨24⟩ .integer) _ (by decide)
  exact ⟨hh, by decide, hplaced .integer (by decide), hsame hr, hiff.mp hr⟩

end ClassTable

end CallSite
