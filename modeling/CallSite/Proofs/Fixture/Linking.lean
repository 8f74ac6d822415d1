import CallSite.Proofs.Fixture.Declared
import CallSite.Proofs.Fixture.Loaded

/-!
# Linking the classes of a fixture

The tables that the loading of a fixture goes through: all classes are declared, and then one after
the other gets its links. A class that is refused closes a circle in the table as it is by then.
-/

namespace CallSite

namespace Fixture

open ClassTable Relation

/-! ## The tables on the way -/

/-- The standard table with more classes. -/
def tableOf (infos : List ClassInfo) : ClassTable :=
  { ClassTable.standard with classes := standardClasses ++ infos }

/-- A class of the file as it is declared. -/
def freshOf (source : ClassSource) : ClassInfo :=
  fresh source.name (source.kind.getD .cls)

/-- A class of the file with its links. -/
def linkedOf (known : List String) (source : ClassSource) : ClassInfo :=
  { freshOf source with
    superclass := source.superclass.elim (freshOf source).superclass (numberOf known)
    interfaces := (source.interfaces.filterMap (numberOf known)).eraseDups
    outer := source.outer.bind (numberOf known)
    unit := source.unit
    withClosure := source.withClosure }

/-- The classes with the numbers from `n` on. -/
def numbered (n : Nat) (sources : List ClassSource) : List (ClassSource × ClassId) :=
  (sources.zipIdx n).map fun p => (p.1, ⟨p.2⟩)

section Tables

variable {before after : List ClassInfo} {info : ClassInfo}

theorem length_standard_append (infos : List ClassInfo) :
    (standardClasses ++ infos).length = 24 + infos.length := List.length_append

theorem size_tableOf (infos : List ClassInfo) : (tableOf infos).size = 24 + infos.length :=
  length_standard_append infos

theorem info_tableOf_standard (infos : List ClassInfo) {c : ClassId} (hc : c.index < 24) :
    (tableOf infos).info c = ClassTable.standard.info c := by
  have hget : (standardClasses ++ infos)[c.index]? = standardClasses[c.index]? :=
    List.getElem?_append_left hc
  show ((standardClasses ++ infos)[c.index]?).getD _ = _
  rw [hget]
  rfl

theorem info_tableOf_mid {c : ClassId} (hc : c.index = 24 + before.length) :
    (tableOf (before ++ info :: after)).info c = info := by
  have hget : (standardClasses ++ (before ++ info :: after))[c.index]? = some info := by
    rw [hc, ← length_standard_append, ← List.append_assoc,
      List.getElem?_append_right (Nat.le_refl _), Nat.sub_self]
    rfl
  show ((standardClasses ++ (before ++ info :: after))[c.index]?).getD _ = _
  rw [hget]
  rfl

theorem update_tableOf {c : ClassId} (hc : c.index = 24 + before.length)
    (change : ClassInfo → ClassInfo) : (tableOf (before ++ info :: after)).update c change =
      tableOf (before ++ change info :: after) := by
  have hlist : ∀ (lead rest : List ClassInfo), (lead ++ info :: rest).modify lead.length change =
      lead ++ change info :: rest := by
    intro lead rest
    induction lead with
    | nil => rfl
    | cons first lead ih => simp [ih]
  have hlength : c.index = (standardClasses ++ before).length :=
    hc.trans (length_standard_append before).symm
  unfold update tableOf
  rw [hlength, ← List.append_assoc, hlist, List.append_assoc]

/-- A class behind the standard ones is one of the others. -/
theorem info_tableOf_mem {infos : List ClassInfo} {c : ClassId} (hc : 24 ≤ c.index)
    (hlt : c.index < (tableOf infos).size) : (tableOf infos).info c ∈ infos := by
  have hlt' : c.index - 24 < infos.length := by
    rw [size_tableOf] at hlt
    omega
  have hget : (standardClasses ++ infos)[c.index]? = some infos[c.index - 24] := by
    rw [List.getElem?_append_right hc]
    exact List.getElem?_eq_getElem hlt'
  show ((standardClasses ++ infos)[c.index]?).getD _ ∈ _
  rw [hget]
  exact List.getElem_mem hlt'

theorem names_tableOf {infos : List ClassInfo} {entries : List ClassSource}
    (h : infos.map ClassInfo.name = entries.map ClassSource.name) :
    (tableOf infos).classes.map ClassInfo.name = knownNames entries := by
  unfold tableOf knownNames
  rw [List.map_append, h]

end Tables

/-! ## Linking one class -/

/-- Set a link of class `c` to the class of a name, if there is one. -/
private def linkNamed (set : ClassTable → ClassId → ClassId → Except HierarchyFault ClassTable)
    (t : ClassTable) (c : ClassId) : Option String → Except LinkFault ClassTable
  | some name => do
    (set t c (← (classNamed t name).mapError LinkFault.name)).mapError LinkFault.hierarchy
  | none => pure t

private def linkInterfaces (t : ClassTable) (c : ClassId) (names : List String) :
    Except LinkFault ClassTable :=
  names.foldlM (fun t name =>
    return t.addInterface c (← (classNamed t name).mapError LinkFault.name)) t

/-- The remarks on a class that are no links. -/
private def remark (t : ClassTable) (c : ClassId) (source : ClassSource) : ClassTable :=
  if source.withClosure then (t.setUnit c source.unit).markWithClosure c
  else t.setUnit c source.unit

private theorem linkClass_eq (t : ClassTable) (source : ClassSource) (c : ClassId) :
    linkClass t source c = (do
      let t ← linkNamed setSuperclass t c source.superclass
      let t ← linkInterfaces t c source.interfaces
      let t ← linkNamed setOuter t c source.outer
      return remark t c source) := by
  unfold linkClass linkNamed
  cases source.superclass <;> cases source.outer <;> simp only [bind_assoc, pure_bind] <;> rfl

theorem eraseDups_concat {α : Type} [DecidableEq α] (as : List α) (a : α) :
    (as ++ [a]).eraseDups = if a ∈ as then as.eraseDups else as.eraseDups ++ [a] := by
  rw [List.eraseDups_append, List.cons_removeAll]
  by_cases ha : a ∈ as <;> simp [ha, List.eraseDups_cons]

section Link

variable {before after : List ClassInfo} {info : ClassInfo} {entries : List ClassSource}
  {c : ClassId}

private theorem linkNamed_some {t : ClassTable}
    (set : ClassTable → ClassId → ClassId → Except HierarchyFault ClassTable)
    (hnames : t.classes.map ClassInfo.name = knownNames entries) {name : String} {d : ClassId}
    (hd : numberOf (knownNames entries) name = some d) :
    linkNamed set t c (some name) = (set t c d).mapError LinkFault.hierarchy := by
  rw [linkNamed, classNamed_eq hnames hd]
  rfl

/-- A link is set by putting the other class `place`d into the class's entry, unless the links of
this kind already lead from the other class back. -/
private def SetsLink (set : ClassTable → ClassId → ClassId → Except HierarchyFault ClassTable)
    (place : ClassInfo → ClassId → ClassInfo) (Link : ClassTable → ClassId → ClassId → Prop) :
    Prop :=
  ∀ t c d, set t c d = .ok (t.update c (place · d)) ∨
    ∃ fault, set t c d = .error fault ∧ ReflTransGen (Link t) d c

/-- The chain of the other class is searched for the class before its entry is changed. -/
private theorem setsLink_of_chain
    {set : ClassTable → ClassId → ClassId → Except HierarchyFault ClassTable}
    {place : ClassInfo → ClassId → ClassInfo} {next : ClassTable → ClassId → Option ClassId}
    {circle : ClassTable → ClassId → ClassId → HierarchyFault}
    (hset : ∀ t c d, set t c d = if (chain (next t) t.size d).contains c then .error (circle t c d)
      else .ok (t.update c (place · d))) :
    SetsLink set place fun t c d => next t c = some d := by
  intro t c d
  rw [hset]
  split
  · rename_i hmet
    exact .inr ⟨_, rfl, reflTransGen_of_mem_chain (List.contains_iff_mem.mp hmet)⟩
  · exact .inl rfl

private theorem setsLink_superclass :
    SetsLink setSuperclass (fun info d => { info with superclass := some d }) Extends :=
  setsLink_of_chain fun _ _ _ => rfl

private theorem setsLink_outer :
    SetsLink setOuter (fun info d => { info with outer := some d }) NestedIn :=
  setsLink_of_chain fun _ _ _ => rfl

private theorem linkNamed_outcome
    {set : ClassTable → ClassId → ClassId → Except HierarchyFault ClassTable}
    {place : ClassInfo → ClassId → ClassInfo} {Link : ClassTable → ClassId → ClassId → Prop}
    (hset : SetsLink set place Link) (hc : c.index = 24 + before.length)
    (hnames : (tableOf (before ++ info :: after)).classes.map ClassInfo.name = knownNames entries)
    (named : Option String)
    (hnamed : ∀ name ∈ named, (qualify (knownNames entries) name).isSome) :
    linkNamed set (tableOf (before ++ info :: after)) c named =
        .ok (tableOf (before ++
          (named.bind (numberOf (knownNames entries))).elim info (place info) :: after)) ∨
      ∃ d fault, named.bind (numberOf (knownNames entries)) = some d ∧
        ReflTransGen (Link (tableOf (before ++ info :: after))) d c ∧
        linkNamed set (tableOf (before ++ info :: after)) c named =
          .error (.hierarchy fault) := by
  cases named with
  | none => exact .inl rfl
  | some name =>
    obtain ⟨d, hd⟩ := exists_numberOf (hnamed name rfl)
    rw [linkNamed_some _ hnames hd, Option.bind_some, hd]
    rcases hset (tableOf (before ++ info :: after)) c d with hok | ⟨fault, herror, hway⟩
    · left
      rw [hok, update_tableOf hc]
      rfl
    · exact .inr ⟨d, fault, rfl, hway, congrArg (Except.mapError LinkFault.hierarchy) herror⟩

/-- Every name is listed once. -/
private theorem linkInterfaces_eq (hc : c.index = 24 + before.length)
    (hnames : (tableOf (before ++ info :: after)).classes.map ClassInfo.name = knownNames entries)
    (names : List String) (hnamed : ∀ name ∈ names, (qualify (knownNames entries) name).isSome)
    (listed : List ClassId) (hlisted : info.interfaces = listed.eraseDups) :
    linkInterfaces (tableOf (before ++ info :: after)) c names =
      .ok (tableOf (before ++ { info with
        interfaces := (listed ++ names.filterMap (numberOf (knownNames entries))).eraseDups } ::
          after)) := by
  induction names generalizing info listed with
  | nil =>
    rw [List.filterMap_nil, List.append_nil, ← hlisted]
    rfl
  | cons name names ih =>
    obtain ⟨i, hi⟩ := exists_numberOf (hnamed name List.mem_cons_self)
    have hadd : (tableOf (before ++ info :: after)).addInterface c i =
        tableOf (before ++ { info with interfaces := (listed ++ [i]).eraseDups } :: after) := by
      unfold addInterface
      rw [update_tableOf hc, eraseDups_concat]
      by_cases hin : i ∈ listed
      · rw [if_pos hin, hlisted, List.contains_iff_mem.mpr (List.mem_eraseDups.mpr hin), if_pos rfl,
          ← hlisted]
      · simp [hlisted, hin]
    have hstep : linkInterfaces (tableOf (before ++ info :: after)) c (name :: names) =
        linkInterfaces ((tableOf (before ++ info :: after)).addInterface c i) c names := by
      unfold linkInterfaces
      rw [List.foldlM_cons, classNamed_eq hnames hi]
      rfl
    have hnames' : (tableOf (before ++ { info with interfaces := (listed ++ [i]).eraseDups } ::
        after)).classes.map ClassInfo.name = knownNames entries := by
      rw [← hnames]
      simp [tableOf]
    rw [hstep, hadd, ih hnames' (fun n hn => hnamed n (List.mem_cons_of_mem _ hn)) _ rfl,
      List.filterMap_cons_some hi, List.append_assoc]
    rfl

private theorem remark_tableOf (hc : c.index = 24 + before.length) (source : ClassSource)
    (hfresh : info.withClosure = false) :
    remark (tableOf (before ++ info :: after)) c source = tableOf (before ++
      { info with unit := source.unit, withClosure := source.withClosure } :: after) := by
  unfold remark setUnit markWithClosure
  cases hw : source.withClosure with
  | true =>
    rw [if_pos rfl, update_tableOf hc, update_tableOf hc]
  | false =>
    rw [if_neg Bool.false_ne_true, update_tableOf hc, ← hfresh]

/-- A change that keeps the enclosing class of a class adds no way among enclosing classes. -/
private theorem nestedIn_of_change (hc : c.index = 24 + before.length)
    (change : ClassInfo → ClassInfo) (ho : ∀ info, (change info).outer = info.outer) {d : ClassId}
    (h : ReflTransGen (tableOf (before ++ change info :: after)).NestedIn d c) :
    ReflTransGen (tableOf (before ++ info :: after)).NestedIn d c := by
  rw [← update_tableOf hc] at h
  exact ReflTransGen.mono
    (fun k l hkl => (info_update_congr _ c ClassInfo.outer ho k).symm.trans hkl) _ _ h

/-- A class keeps its superclass where the entry names none. -/
private theorem placed_superclass (known : List String) {superclass : Option String}
    (hnamed : ∀ name ∈ superclass, (qualify known name).isSome) (info : ClassInfo) :
    (superclass.bind (numberOf known)).elim info (fun d => { info with superclass := some d }) =
      { info with superclass := superclass.elim info.superclass (numberOf known) } := by
  cases superclass with
  | none => rfl
  | some name =>
    obtain ⟨d, hd⟩ := exists_numberOf (hnamed name rfl)
    rw [Option.bind_some, Option.elim_some, hd]
    rfl

private theorem placed_outer {info : ClassInfo} (hfresh : info.outer = none)
    (outer : Option ClassId) :
    outer.elim info (fun d => { info with outer := some d }) = { info with outer } := by
  cases outer with
  | none => rw [Option.elim_none, ← hfresh]
  | some d => rfl

/-- A class is linked as its entry says, unless the table already leads from the class that it is
to be put under to the class itself. -/
theorem linkClass_outcome {source : ClassSource} (hc : c.index = 24 + before.length)
    (hnames : (tableOf (before ++ freshOf source :: after)).classes.map ClassInfo.name =
      knownNames entries)
    (hnamed : ∀ name ∈ source.references, (qualify (knownNames entries) name).isSome) :
    linkClass (tableOf (before ++ freshOf source :: after)) source c =
        .ok (tableOf (before ++ linkedOf (knownNames entries) source :: after)) ∨
      ∃ fault, linkClass (tableOf (before ++ freshOf source :: after)) source c =
          .error (.hierarchy fault) ∧
        ((∃ d, source.superclass.bind (numberOf (knownNames entries)) = some d ∧
            ReflTransGen (tableOf (before ++ freshOf source :: after)).Extends d c) ∨
          ∃ d, source.outer.bind (numberOf (knownNames entries)) = some d ∧
            ReflTransGen (tableOf (before ++ freshOf source :: after)).NestedIn d c) := by
  have hrenamed : ∀ info : ClassInfo, info.name = source.name →
      (tableOf (before ++ info :: after)).classes.map ClassInfo.name = knownNames entries := by
    intro info hinfo
    rw [← hnames]
    simp [tableOf, hinfo, freshOf, fresh]
  let parented (info : ClassInfo) : ClassInfo := { info with
    superclass := source.superclass.elim info.superclass (numberOf (knownNames entries)) }
  let listed (info : ClassInfo) : ClassInfo := { parented info with
    interfaces := ([] ++ source.interfaces.filterMap (numberOf (knownNames entries))).eraseDups }
  have hinterfaces := linkInterfaces_eq hc (hrenamed (parented (freshOf source)) rfl)
    source.interfaces (fun name hname => hnamed name (by simp [ClassSource.references, hname]))
    [] rfl
  have hsupers : ∀ name ∈ source.superclass, (qualify (knownNames entries) name).isSome :=
    fun name hname => hnamed name (by simp [ClassSource.references, Option.mem_def.mp hname])
  have hsuper := linkNamed_outcome setsLink_superclass hc hnames source.superclass hsupers
  rw [placed_superclass _ hsupers] at hsuper
  have houter := linkNamed_outcome setsLink_outer hc (hrenamed (listed (freshOf source)) rfl)
    source.outer
    fun name hname => hnamed name (by simp [ClassSource.references, Option.mem_def.mp hname])
  rw [placed_outer rfl] at houter
  rw [linkClass_eq]
  rcases hsuper with hsuper | ⟨d, fault, hd, hway, hsuper⟩
  swap
  · exact .inr ⟨fault, by rw [hsuper]; rfl, .inl ⟨d, hd, hway⟩⟩
  rw [hsuper]
  show (linkInterfaces _ _ _ >>= _) = _ ∨ ∃ fault, (linkInterfaces _ _ _ >>= _) = _ ∧ _
  rw [hinterfaces]
  show (linkNamed setOuter _ _ _ >>= _) = _ ∨ ∃ fault, (linkNamed setOuter _ _ _ >>= _) = _ ∧ _
  rcases houter with houter | ⟨d, fault, hd, hway, houter⟩
  · rw [houter]
    exact .inl (congrArg Except.ok (remark_tableOf hc source rfl))
  · rw [houter]
    exact .inr ⟨fault, rfl, .inr ⟨d, hd, nestedIn_of_change hc listed (fun _ => rfl) hway⟩⟩

end Link

/-! ## Declaring, linking and completing -/

/-- The table in which the first classes of a file are linked, and the others just declared. -/
def halfLinked (done rest : List ClassSource) : ClassTable :=
  tableOf (done.map (linkedOf (knownNames (done ++ rest))) ++ rest.map freshOf)

theorem names_halfLinked (done rest : List ClassSource) :
    (halfLinked done rest).classes.map ClassInfo.name = knownNames (done ++ rest) := by
  refine names_tableOf ?_
  rw [List.map_append, List.map_append, List.map_map, List.map_map]
  rfl

theorem numbered_cons (n : Nat) (source : ClassSource) (sources : List ClassSource) :
    numbered n (source :: sources) = (source, ⟨n⟩) :: numbered (n + 1) sources := rfl

/-- Names that are not taken yet are all declared, in their order. -/
theorem declareAll_eq (done rest : List ClassSource)
    (hdistinct : ((done ++ rest).map ClassSource.name).Nodup)
    (hnew : ∀ source ∈ rest, source.name ∉ standardClasses.map ClassInfo.name) :
    rest.foldlM (fun (t, declared) source => do
        let (t, c) ← t.declare source.name (source.kind.getD .cls)
        return (t, declared ++ [(source, c)])) (tableOf (done.map freshOf), numbered 24 done) =
      .ok (tableOf ((done ++ rest).map freshOf), numbered 24 (done ++ rest)) := by
  induction rest generalizing done with
  | nil =>
    rw [List.append_nil]
    rfl
  | cons source rest ih =>
    have hsplit : done ++ source :: rest = (done ++ [source]) ++ rest := by simp
    have hfree : (tableOf (done.map freshOf)).lookup source.name = none := by
      have hnames : (tableOf (done.map freshOf)).classes.map ClassInfo.name = knownNames done :=
        names_tableOf (by rw [List.map_map]; rfl)
      refine lookup_eq_none hnames fun hmem => ?_
      rcases List.mem_append.mp hmem with hmem | hmem
      · exact hnew source List.mem_cons_self hmem
      · rw [List.map_append, List.map_cons] at hdistinct
        exact List.disjoint_of_nodup_append hdistinct hmem List.mem_cons_self
    have hnumber : numbered 24 done ++ [(source, ⟨24 + done.length⟩)] =
        numbered 24 (done ++ [source]) := by
      unfold numbered
      rw [List.zipIdx_append, List.map_append]
      rfl
    have hdeclare : (tableOf (done.map freshOf)).declare source.name (source.kind.getD .cls) =
        .ok (tableOf ((done ++ [source]).map freshOf), ⟨24 + done.length⟩) := by
      unfold declare
      rw [hfree, size_tableOf, List.length_map, List.map_append]
      rfl
    rw [List.foldlM_cons, hsplit]
    show (tableOf (done.map freshOf)).declare source.name (source.kind.getD .cls) >>= _ >>= _ = _
    rw [hdeclare]
    show List.foldlM _ (_, numbered 24 done ++ [(source, ⟨24 + done.length⟩)]) rest = _
    rw [hnumber]
    exact ih _ (hsplit ▸ hdistinct) fun s hs => hnew s (List.mem_cons_of_mem _ hs)

/-- Classes without members add nothing. -/
theorem addMembers_eq {source : ClassSource} (h : source.fields = [] ∧
    source.methods = [] ∧ source.properties = [] ∧ source.bridges = [] ∧ source.constants = [])
    (m : Members) (c : ClassId) : addMembers m source c = .ok m := by
  obtain ⟨hf, hm, hp, hb, hc⟩ := h
  unfold addMembers addConstants
  rw [hf, hm, hp, hb, hc]
  rfl

/-- Steps that change nothing. -/
private theorem foldlM_same {ε α β : Type} {step : α → β → Except ε α} {bs : List β} {a : α}
    (h : ∀ b ∈ bs, step a b = .ok a) : bs.foldlM step a = .ok a := by
  induction bs with
  | nil => rfl
  | cons b bs ih =>
    rw [List.foldlM_cons, h b List.mem_cons_self]
    exact ih fun b hb => h b (List.mem_cons_of_mem _ hb)

theorem complete_eq {entries : List ClassSource} (h : LinksOnly entries) (n : Nat)
    (text path : String) (t : ClassTable) :
    complete (classFile entries) text path t (numbered n entries) =
      .ok ⟨path, text, t, [], [], []⟩ := by
  unfold complete
  rw [foldlM_same]
  · rfl
  · intro p hp
    obtain ⟨⟨source, i⟩, hin, rfl⟩ := List.mem_map.mp hp
    exact addMembers_eq (h.memberless source (List.fst_mem_of_mem_zipIdx hin)) _ _

end Fixture

end CallSite
