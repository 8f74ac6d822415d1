import CallSite.Fixture.Load
import CallSite.Proofs.ClassTable.Chains

/-!
# Tables of fixtures

The table of a fixture that loads is linked without circles, and the standard classes in it are
those of the standard table: a fixture only changes classes that it declares itself.
-/

namespace CallSite

/-- If there is a result, it has the property. -/
def Gives {ε α : Type} (P : α → Prop) (r : Except ε α) : Prop := ∀ a, r = .ok a → P a

namespace Gives

variable {ε ε' α β : Type} {P : α → Prop} {Q : β → Prop}

theorem pure {a : α} (h : P a) : Gives P (Pure.pure a : Except ε α) := by
  rintro _ ⟨⟩
  exact h

theorem error {e : ε} : Gives P (.error e : Except ε α) := nofun

theorem bind {r : Except ε α} {next : α → Except ε β} (h : Gives P r)
    (hn : ∀ a, P a → Gives Q (next a)) : Gives Q (r >>= next) := by
  cases r with
  | ok a => exact hn a (h a rfl)
  | error e => exact error

theorem trivial (r : Except ε α) : Gives (fun _ => True) r := fun _ _ => True.intro

theorem mapError {r : Except ε α} {f : ε → ε'} (h : Gives P r) : Gives P (r.mapError f) := by
  cases r with
  | ok a => rintro _ ⟨⟩; exact h a rfl
  | error e => exact error

/-- What every step preserves holds in the end. -/
theorem foldlM {step : α → β → Except ε α} {bs : List β} {a : α} (ha : P a)
    (hs : ∀ b ∈ bs, ∀ a, P a → Gives P (step a b)) : Gives P (bs.foldlM step a) := by
  induction bs generalizing a with
  | nil => exact pure ha
  | cons b bs ih =>
    rw [List.foldlM_cons]
    exact (hs b List.mem_cons_self a ha).bind fun a' ha' =>
      ih ha' fun b' hb => hs b' (List.mem_cons_of_mem b hb)

end Gives

namespace ClassTable

/-- A table with the standard classes as they are and with links that end. -/
structure Loaded (t : ClassTable) : Prop where
  size : 24 ≤ t.size
  linked : t.Linked
  standard : ∀ c, c.index < 24 → t.info c = ClassTable.standard.info c

namespace Loaded

variable {t : ClassTable} {c : ClassId}

theorem of_standard : ClassTable.standard.Loaded := ⟨by decide, .standard, fun _ _ => rfl⟩

/-- The classes that a fixture declares come after the standard ones. -/
theorem declare (h : t.Loaded) (name : String) (kind : ClassKind) :
    Gives (fun declared => declared.1.Loaded ∧ 24 ≤ declared.2.index) (t.declare name kind) := by
  rintro ⟨t', c⟩ hd
  refine ⟨⟨?_, h.linked.declare h.size hd, fun k hk => ?_⟩, ?_⟩
  · rw [size_declare hd]
    exact Nat.le_succ_of_le h.size
  · rw [info_declare_of_lt hd (Nat.lt_of_lt_of_le hk h.size), h.standard k hk]
  · rw [(declare_eq_ok hd).2.1]
    exact h.size

/-- A change of a declared class that keeps the table linked. -/
private theorem of_update (h : t.Loaded) (hc : 24 ≤ c.index) {change : ClassInfo → ClassInfo}
    (hl : (t.update c change).Linked) : (t.update c change).Loaded := by
  refine ⟨?_, hl, fun k hk => ?_⟩
  · rw [t.size_update]
    exact h.size
  · rw [t.info_update_ne change, h.standard k hk]
    rintro rfl
    exact absurd hk (Nat.not_lt_of_le hc)

/-- Changing what a declared class lists changes no link and no standard class. -/
theorem update (h : t.Loaded) (hc : 24 ≤ c.index) {change : ClassInfo → ClassInfo}
    (hs : ∀ info, (change info).superclass = info.superclass)
    (ho : ∀ info, (change info).outer = info.outer) : (t.update c change).Loaded :=
  h.of_update hc (h.linked.update c hs ho)

theorem setSuperclass (h : t.Loaded) (hc : 24 ≤ c.index) {superclass : ClassId}
    (hin : superclass.index < t.size) : Gives Loaded (t.setSuperclass c superclass) := by
  intro t' hs
  have hlinked := h.linked.setSuperclass hin hs
  obtain ⟨-, rfl⟩ := setSuperclass_eq_ok hs
  exact h.of_update hc hlinked

theorem setOuter (h : t.Loaded) (hc : 24 ≤ c.index) {outer : ClassId}
    (hin : outer.index < t.size) : Gives Loaded (t.setOuter c outer) := by
  intro t' hs
  have hlinked := h.linked.setOuter hin hs
  obtain ⟨-, rfl⟩ := setOuter_eq_ok hs
  exact h.of_update hc hlinked

theorem addInterface (h : t.Loaded) (hc : 24 ≤ c.index) (interface : ClassId) :
    (t.addInterface c interface).Loaded := by
  refine h.update hc (fun info => ?_) fun info => ?_
  all_goals split <;> rfl

/-- What stands beside the classes does not matter. -/
theorem of_classes {t' : ClassTable} (h : t.Loaded) (hc : t'.classes = t.classes) : t'.Loaded := by
  have hinfo : t'.info = t.info := by
    unfold info
    rw [hc]
  have hsize : t'.size = t.size := congrArg List.length hc
  refine ⟨hsize ▸ h.size, h.linked.of_links hsize (fun c => ?_) fun c => ?_, fun c hk => ?_⟩
  · exact congrArg ClassInfo.superclass (congrFun hinfo c)
  · exact congrArg ClassInfo.outer (congrFun hinfo c)
  · rw [hinfo]
    exact h.standard c hk

end Loaded

/-- A look-up only finds classes of the table. -/
theorem index_lt_of_lookup {t : ClassTable} {name : String} {c : ClassId}
    (h : t.lookup name = some c) : c.index < t.size := by
  obtain ⟨i, hi, rfl⟩ := Option.map_eq_some_iff.mp h
  exact (List.findIdx?_eq_some_iff_findIdx_eq.mp hi).1

end ClassTable

namespace Fixture

variable {t : ClassTable} {c : ClassId}

theorem gives_classNamed (t : ClassTable) (name : String) :
    Gives (fun c => c.index < t.size) (classNamed t name) := by
  refine Gives.mapError fun c h => ?_
  unfold ClassTable.classNamed at h
  dsimp only at h
  split at h
  · rename_i found hfound
    cases h
    split at hfound
    · exact ClassTable.index_lt_of_lookup hfound
    · cases hl : t.lookup name with
      | some found =>
        rw [hl] at hfound
        exact Option.some.inj hfound ▸ ClassTable.index_lt_of_lookup hl
      | none =>
        rw [hl] at hfound
        obtain ⟨package, -, h⟩ := List.exists_of_findSome?_eq_some hfound
        exact ClassTable.index_lt_of_lookup h
  · cases h

theorem gives_declareAll (h : t.Loaded) (classes : List ClassSource) :
    Gives (fun d => d.1.Loaded ∧ ∀ p ∈ d.2, 24 ≤ p.2.index) (declareAll t classes) := by
  refine Gives.foldlM ⟨h, nofun⟩ fun source _ d hd => ?_
  obtain ⟨t, declared⟩ := d
  refine (hd.1.declare source.name _).bind fun new hnew => ?_
  obtain ⟨t', c⟩ := new
  refine Gives.pure ⟨hnew.1, fun p hp => ?_⟩
  rcases List.mem_append.mp hp with hp | hp
  · exact hd.2 p hp
  · rw [List.mem_singleton.mp hp]
    exact hnew.2

theorem gives_linkClass (h : t.Loaded) (hc : 24 ≤ c.index) (source : ClassSource) :
    Gives ClassTable.Loaded (linkClass t source c) := by
  have hunit : ∀ {t : ClassTable}, t.Loaded → Gives ClassTable.Loaded (Pure.pure
      (if source.withClosure = true then (t.setUnit c source.unit).markWithClosure c
        else t.setUnit c source.unit) : Except LinkFault ClassTable) := by
    intro t ht
    have hu : (t.setUnit c source.unit).Loaded := ht.update hc (fun _ => rfl) fun _ => rfl
    refine Gives.pure ?_
    split
    · exact hu.update hc (fun _ => rfl) fun _ => rfl
    · exact hu
  have hnamed : ∀ (t : ClassTable) (name : String), Gives (fun c => c.index < t.size)
      ((classNamed t name).mapError LinkFault.name) := fun t name =>
    (gives_classNamed t name).mapError
  have hinterfaces : ∀ {next : ClassTable → Except LinkFault ClassTable},
      (∀ t : ClassTable, t.Loaded → Gives ClassTable.Loaded (next t)) →
      ∀ t : ClassTable, t.Loaded → Gives ClassTable.Loaded (source.interfaces.foldlM (fun t name =>
        return t.addInterface c (← (classNamed t name).mapError LinkFault.name)) t >>= next) :=
    fun hnext t ht =>
    (Gives.foldlM ht fun name _ t ht => (hnamed t name).bind fun i _ =>
      Gives.pure (ht.addInterface hc i)).bind hnext
  unfold linkClass
  dsimp only
  cases source.superclass with
  | none =>
    refine (Gives.pure h).bind (hinterfaces fun t ht => ?_)
    cases source.outer with
    | none => exact (Gives.pure ht).bind fun t => hunit
    | some name =>
      exact (hnamed t name).bind fun outer hin => (ht.setOuter hc hin).mapError.bind fun t => hunit
  | some name =>
    refine (hnamed t name).bind fun parent hin =>
      (h.setSuperclass hc hin).mapError.bind (hinterfaces fun t ht => ?_)
    cases source.outer with
    | none => exact (Gives.pure ht).bind fun t => hunit
    | some name =>
      exact (hnamed t name).bind fun outer hin => (ht.setOuter hc hin).mapError.bind fun t => hunit

theorem gives_addField (m : Members) (h : m.table.Loaded) (hc : 24 ≤ c.index)
    (source : FieldSource) : Gives (·.table.Loaded) (addField c m source) := by
  refine (Gives.trivial _).bind fun type _ => ?_
  have ht : ∀ field, (m.table.addField c field).Loaded := fun _ =>
    h.update hc (fun _ => rfl) fun _ => rfl
  dsimp only
  split
  · exact Gives.pure (ht _)
  · split
    · exact Gives.pure (ht _)
    · exact Gives.error

theorem gives_addMethod (m : Members) (h : m.table.Loaded) (hc : 24 ≤ c.index)
    (source : MethodSource) : Gives (·.table.Loaded) (addMethod c m source) :=
  (Gives.trivial _).bind fun _ _ => Gives.pure (h.update hc (fun _ => rfl) fun _ => rfl)

theorem gives_addProperty (m : Members) (h : m.table.Loaded) (hc : 24 ≤ c.index)
    (source : PropertySource) : Gives (·.table.Loaded) (addProperty c m source) :=
  (Gives.trivial _).bind fun _ _ => Gives.pure (h.update hc (fun _ => rfl) fun _ => rfl)

theorem gives_addBridge (m : Members) (h : m.table.Loaded) (hc : 24 ≤ c.index)
    (source : BridgeSource) : Gives (·.table.Loaded) (addBridge c m source) := by
  have hadded : ∀ accessor, (m.table.addBridge c source.field accessor).Loaded := fun _ =>
    h.update hc (fun _ => rfl) fun _ => rfl
  unfold addBridge
  cases source.params with
  | none =>
    exact (Gives.trivial _).bind fun params _ => (Gives.trivial _).bind fun returns _ =>
      Gives.pure (hadded _)
  | some params =>
    exact (Gives.trivial _).bind fun params _ => (Gives.trivial _).bind fun returns _ =>
      Gives.pure (hadded _)

theorem gives_addConstants (m : Members) (h : m.table.Loaded) (constants : List String) :
    Gives (·.table.Loaded) (addConstants c m constants) := by
  unfold addConstants
  split
  · exact Gives.pure h
  · split
    · exact Gives.pure h
    · exact Gives.error

theorem gives_addMembers (m : Members) (h : m.table.Loaded) (hc : 24 ≤ c.index)
    (source : ClassSource) : Gives (·.table.Loaded) (addMembers m source c) := by
  have hall : ∀ {α : Type} {add : Members → α → Except FixtureFault Members} {sources : List α},
      (∀ m source, m.table.Loaded → Gives (·.table.Loaded) (add m source)) →
      ∀ m : Members, m.table.Loaded → Gives (·.table.Loaded) (sources.foldlM add m) :=
    fun hadd _ hm => Gives.foldlM hm fun source _ m hm => hadd m source hm
  refine Gives.mapError ?_
  refine (hall (fun m source h => gives_addField m h hc source) m h).bind fun m h => ?_
  refine (hall (fun m source h => gives_addMethod m h hc source) m h).bind fun m h => ?_
  refine (hall (fun m source h => gives_addProperty m h hc source) m h).bind fun m h => ?_
  refine (hall (fun m source h => gives_addBridge m h hc source) m h).bind fun m h => ?_
  exact gives_addConstants m h source.constants

theorem gives_addExtension (h : t.Loaded) (source : MethodSource) :
    Gives ClassTable.Loaded (addExtension t source) := by
  refine (Gives.trivial _).bind fun method _ => ?_
  dsimp only
  split
  · exact Gives.error
  · exact Gives.pure (h.of_classes rfl)

theorem gives_addBridgePair (h : t.Loaded) (pair : String × String) :
    Gives ClassTable.Loaded (addBridgePair t pair) :=
  (Gives.trivial _).bind fun _ _ => (Gives.trivial _).bind fun _ _ => Gives.pure (h.of_classes rfl)

/-- The table of a fixture that loads is linked, and has the standard classes as they are. -/
theorem table_loaded {source : Source} {text path : String} {f : Fixture}
    (h : ofSource source text path = .ok f) : f.table.Loaded := by
  suffices hgives : Gives (·.table.Loaded) (ofSource source text path) from hgives f h
  refine (gives_declareAll .of_standard source.classes).mapError.bind fun d hd => ?_
  obtain ⟨t, declared⟩ := d
  refine (Gives.mapError (Gives.foldlM hd.1 fun p hp t ht =>
    gives_linkClass ht (hd.2 p hp) p.1)).bind fun t ht => Gives.mapError ?_
  refine Gives.bind (P := (·.table.Loaded)) (Gives.foldlM ht fun p hp m hm =>
    gives_addMembers m hm (hd.2 p hp) p.1) fun m hm => ?_
  refine (Gives.foldlM hm fun source _ t ht => gives_addExtension ht source).bind fun t ht => ?_
  refine (Gives.foldlM ht fun pair _ t ht => gives_addBridgePair ht pair).bind fun t ht => ?_
  exact (Gives.trivial _).bind fun sites _ => Gives.pure ht

end Fixture

end CallSite
