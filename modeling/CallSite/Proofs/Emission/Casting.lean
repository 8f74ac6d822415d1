import CallSite.Proofs.ClassTable.Subtyping
import CallSite.Proofs.Emission.Member

/-!
# Casts that are left out

A cast is left out where the tracked type is assignable to the target. The machine finds classes by
name and accepts what it does not know, while assignability is a cost that is worked out from the
table; still, a value that it accepts as an instance of the tracked type is one of the target too.
-/

namespace CallSite

namespace ClassTable

/-- No class name holds a slash or looks like an array. -/
def NamesQualified (t : ClassTable) : Prop :=
  ∀ info ∈ t.classes, '/' ∉ info.name.toList ∧ info.name.toList.head? ≠ some '['

instance (t : ClassTable) : Decidable t.NamesQualified :=
  inferInstanceAs (Decidable (∀ info ∈ t.classes, _))

variable {t : ClassTable} {c d k : ClassId}

/-! ## Names -/

theorem qualifiedOf_internalOf {name : String} (h : '/' ∉ name.toList) :
    qualifiedOf (internalOf name) = name := by
  unfold qualifiedOf internalOf replaceChar
  rw [String.toList_ofList, List.map_map]
  have hsame : name.toList.map ((fun c => if c = '/' then '.' else c) ∘
      fun c => if c = '.' then '/' else c) = name.toList.map id := by
    refine List.map_congr_left fun c hc => ?_
    show (if (if c = '.' then '/' else c) = '/' then '.' else if c = '.' then '/' else c) = c
    by_cases hdot : c = '.'
    · rw [if_pos hdot, if_pos rfl, hdot]
    · have hslash : c ≠ '/' := fun heq => h (heq ▸ hc)
      rw [if_neg hdot, if_neg hslash]
  rw [hsame, List.map_id, String.ofList_toList]

theorem NamesQualified.name (h : t.NamesQualified) (hc : c.index < t.size) :
    '/' ∉ (t.name c).toList ∧ (t.name c).toList.head? ≠ some '[' := by
  unfold ClassTable.name
  rw [info_eq_getElem hc]
  exact h _ (List.getElem_mem hc)

/-- The machine finds a class by its internal name. -/
theorem NamesQualified.lookup_internalName (h : t.NamesQualified) (ht : t.Constructed)
    (hc : c.index < t.size) : t.lookup (qualifiedOf (t.internalName c)) = some c := by
  unfold internalName
  rw [qualifiedOf_internalOf (h.name hc).1]
  exact ht.consistent.names.lookup_name hc

/-- Only the root class has its name. -/
theorem NamesQualified.eq_object (h : t.NamesQualified) (ht : t.Constructed) (hc : c.index < t.size)
    (hname : t.internalName c = "java/lang/Object") : c = .object := by
  have hroot : t.lookup (qualifiedOf (t.internalName .object)) = some .object :=
    h.lookup_internalName ht ht.built.size_pos
  have hfound := h.lookup_internalName ht hc
  rw [hname, ← ht.built.internalName_object, hroot] at hfound
  exact (Option.some.inj hfound).symm

private theorem head?_replaceChar (old new : Char) (text : String) :
    (replaceChar old new text).toList.head? =
      text.toList.head?.map fun c => if c = old then new else c := by
  unfold replaceChar
  rw [String.toList_ofList, List.head?_map]

private theorem isPrefixOf_bracket {cs : List Char} : ['['].isPrefixOf cs = true ↔ cs.head? = some '[' := by
  cases cs with
  | nil => exact ⟨nofun, nofun⟩
  | cons c cs =>
    show (('[' == c) && true) = true ↔ some c = some '['
    rw [Bool.and_true, beq_iff_eq, Option.some.injEq, eq_comm]

/-- The name of a class is not that of an array. -/
theorem NamesQualified.not_bracket (h : t.NamesQualified) (hc : c.index < t.size) :
    ['['].isPrefixOf (t.internalName c).toList = false := by
  rw [← Bool.not_eq_true, isPrefixOf_bracket]
  unfold internalName internalOf
  rw [head?_replaceChar, Option.map_eq_some_iff]
  rintro ⟨c', hhead, heq⟩
  split at heq
  · cases heq
  · exact (h.name hc).2 (heq ▸ hhead)

/-- No class has the name of an array. -/
theorem NamesQualified.lookup_array (h : t.NamesQualified) (ty : Ty) :
    t.lookup (qualifiedOf (t.descriptor (.array ty))) = none := by
  cases hfound : t.lookup (qualifiedOf (t.descriptor (.array ty))) with
  | none => rfl
  | some k =>
    obtain ⟨hk, hname, -⟩ := lookup_eq_some_iff.mp hfound
    refine absurd ?_ (h.name hk).2
    rw [hname]
    unfold qualifiedOf
    rw [head?_replaceChar]
    unfold descriptor
    rw [String.toList_ofList]
    rfl

/-! ## Ways to be assignable -/

/-- Reference types are assignable to the root class, between arrays, and along the links between
classes. -/
theorem assignable_cases {source target : Ty} (hs : source.isReference = true)
    (ht : target.isReference = true) (ha : t.assignable source target = true) :
    t.internalTypeName target = t.internalName .object ∨
      (∃ component, target = .array component) ∨
      ∃ c as d bs, source = .object c as ∧ target = .object d bs ∧ d ≠ .object ∧ t.LeadsTo c d := by
  cases target with
  | void => cases ht
  | prim p => cases ht
  | var name => exact .inl rfl
  | array component => exact .inr (.inl ⟨component, rfl⟩)
  | object d bs =>
    by_cases hd : d = .object
    · rw [hd]
      exact .inl rfl
    · refine .inr (.inr ?_)
      cases source with
      | void => cases hs
      | prim p => cases hs
      | array component =>
        have hnone : t.distance (.array component) (.object d bs) = none := if_neg hd
        unfold assignable at ha
        rw [hnone] at ha
        cases ha
      | var name =>
        have hnone : t.distance (.var name) (.object d bs) = none := if_neg hd
        unfold assignable at ha
        rw [hnone] at ha
        cases ha
      | object c as =>
        obtain ⟨n, hn⟩ := Option.isSome_iff_exists.mp ha
        exact ⟨c, as, d, bs, rfl, rfl, hd, leadsTo_of_classDistance hd hn⟩

end ClassTable

/-! ## Values -/

namespace Heap

variable {t : ClassTable} {heap : Heap} {v : Value} {c d : ClassId} {cls name : String}

/-- What the machine accepts is null, an array, or checked by its class. -/
theorem instanceOf_cases (h : heap.instanceOf t v name = true) :
    (∀ target, heap.instanceOf t v target = true) ∨
      (∀ target, heap.instanceOf t v target =
        (['['].isPrefixOf target.toList || target == "java/lang/Object")) ∨
      ∀ target, heap.instanceOf t v target = classFits t (heap.classOf v) target := by
  cases v with
  | null => exact .inl fun _ => rfl
  | int _ => cases h
  | long _ => cases h
  | double _ => cases h
  | string _ => exact .inr (.inr fun _ => rfl)
  | boxed _ => exact .inr (.inr fun _ => rfl)
  | cls _ => exact .inr (.inr fun _ => rfl)
  | ref place =>
    rcases hobject : heap[place]? with _ | object
    · exact .inr (.inr fun _ => by simp only [instanceOf, hobject])
    · cases object with
      | array items => exact .inr (.inl fun _ => by simp only [instanceOf, hobject])
      | _ => exact .inr (.inr fun _ => by simp only [instanceOf, hobject])

theorem classFits_object (t : ClassTable) (cls : String) :
    classFits t cls "java/lang/Object" = true := by
  unfold classFits
  rw [beq_self_eq_true, Bool.or_true, Bool.true_or]

theorem classFits_array (hn : t.NamesQualified) (cls : String) (component : Ty) :
    classFits t cls (t.descriptor (.array component)) = true := by
  unfold classFits
  rw [hn.lookup_array]
  cases t.lookup (qualifiedOf cls) <;> exact Bool.or_true _

/-- An object whose class is as good as `c` is as good as all that `c` leads to. -/
theorem classFits_of_leadsTo (ht : t.Constructed) (hu : t.InterfacesUnderRoot)
    (hn : t.NamesQualified) (hc : c.index < t.size) (hd : d ≠ .object) (hleads : t.LeadsTo c d)
    (h : classFits t cls (t.internalName c) = true) :
    classFits t cls (t.internalName d) = true := by
  have hlookup := hn.lookup_internalName ht hc
  have hlookup' := hn.lookup_internalName ht (ht.consistent.index_lt_of_leadsTo hc hleads)
  unfold classFits at h ⊢
  rw [hlookup] at h
  rw [hlookup']
  cases hk : t.lookup (qualifiedOf cls) with
  -- An unknown class is accepted as anything.
  | none => exact Bool.or_true _
  | some k =>
    have hsize : k.index < t.size := (ClassTable.lookup_eq_some_iff.mp hk).1
    have hiff := fun d => ClassTable.derives_or_implements_iff (d := d) ht hu.interfacesOnly hsize
    have hkc : t.LeadsTo k c := by
      rw [hk, Bool.or_eq_true, Bool.or_eq_true, beq_iff_eq, beq_iff_eq] at h
      rcases h with (hname | hname) | hfits
      · rw [hname, hlookup] at hk
        cases hk
        exact ⟨c, .refl, .refl⟩
      · cases hn.eq_object ht hc hname
        exact absurd (hu.eq_object_of_leadsTo ht hleads) hd
      · exact (hiff c).mp hfits
    show (_ || (t.derivesFrom k d || t.implements k d)) = true
    rw [(hiff d).mpr (hu.leadsTo_trans ht hkc hleads hd), Bool.or_true]

/-- What an array is accepted as does not lead to other classes. -/
theorem not_array_of_leadsTo (ht : t.Constructed) (hu : t.InterfacesUnderRoot)
    (hn : t.NamesQualified) (hc : c.index < t.size) (hd : d ≠ .object) (hleads : t.LeadsTo c d) :
    (['['].isPrefixOf (t.internalName c).toList || t.internalName c == "java/lang/Object") =
      false := by
  rw [hn.not_bracket hc, Bool.false_or, beq_eq_false_iff_ne]
  intro hname
  cases hn.eq_object ht hc hname
  exact hd (hu.eq_object_of_leadsTo ht hleads)

/-- A value that is accepted as the source of a conversion is accepted as its target. -/
theorem instanceOf_target (ht : t.Constructed) (hu : t.InterfacesUnderRoot)
    (hn : t.NamesQualified) {source target : Ty} (hs : source.isReference = true)
    (hr : target.isReference = true) (ha : t.assignable source target = true)
    (hv : heap.instanceOf t v (t.internalTypeName source) = true) :
    heap.instanceOf t v (t.internalTypeName target) = true := by
  have hkind := instanceOf_cases hv
  rcases ClassTable.assignable_cases hs hr ha with
    hroot | ⟨component, rfl⟩ | ⟨c, as, d, bs, rfl, rfl, hd, hleads⟩
  · rw [hroot, ht.built.internalName_object]
    rcases hkind with hnull | harray | hclass
    · exact hnull _
    · rw [harray, beq_self_eq_true, Bool.or_true]
    · rw [hclass, classFits_object]
  · rcases hkind with hnull | harray | hclass
    · exact hnull _
    · rw [harray]
      show (['['].isPrefixOf (t.descriptor (.array component)).toList || _) = true
      unfold ClassTable.descriptor
      rw [String.toList_ofList]
      rfl
    · rw [hclass]
      exact classFits_array hn _ component
  -- A class that leads to another one is in the table, so that its name finds it.
  · by_cases hcd : c = d
    · cases hcd
      exact hv
    · have hc := hleads.index_lt hcd
      rcases hkind with hnull | harray | hclass
      · exact hnull _
      · rw [harray] at hv
        exact absurd (hv.symm.trans (not_array_of_leadsTo ht hu hn hc hd hleads)) nofun
      · rw [hclass] at hv ⊢
        exact classFits_of_leadsTo ht hu hn hc hd hleads hv

end Heap

/-! ## Conversions without a cast -/

namespace Emit

variable {s : Setting} {d : Draft} {source target : Ty} {below : List Ty}

/-- A conversion to a type that the tracked one is assignable to writes nothing. -/
theorem returns_castTo_assignable (hd : d.stack = source :: below)
    (ha : s.table.assignable source target = true) : Returns (castTo s target) d () d := by
  rw [returns_castTo hd]
  unfold castCode castType
  rw [if_pos ha, if_pos ha, List.append_nil, ← hd]

/-- A field of a class that the tracked type is assignable to is read without a cast. -/
theorem returns_readField_assignable {receiver : Emit Ty} {field : Field} {d' : Draft} {ty : Ty}
    (hf : field.isStatic = false) (hreceiver : Returns receiver d ty d')
    (hd : d'.stack = source :: below)
    (ha : s.table.assignable source (.ofClass field.owner) = true) :
    Returns (readField s receiver field) d field.type { d' with
      code := d'.code ++ [.getField (fieldRef s field)]
      stack := field.type :: below } := by
  refine (returns_readField_instance hf).mpr
    ⟨ty, d', d', hreceiver, returns_castTo_assignable hd ha, rfl, ?_⟩
  rw [hd]
  rfl

/-- Leaving out a cast is sound. If a value that the machine accepts as the tracked type is on top,
and the tracked type is assignable to the target, then the machine accepts it as the target: the
conversions and field reads write no cast, and a cast in their place would succeed and change
nothing. -/
theorem omitted_cast_succeeds {t : ClassTable} (ht : t.Constructed) (hu : t.InterfacesUnderRoot)
    (hn : t.NamesQualified) (heap : Heap) (v : Value) (hs : source.isReference = true)
    (hr : target.isReference = true) (ha : t.assignable source target = true)
    (hv : heap.instanceOf t v (t.internalTypeName source) = true) :
    heap.instanceOf t v (t.internalTypeName target) = true ∧
      (∀ (s : Setting) (d : Draft) (below : List Ty), s.table = t → d.stack = source :: below →
        Returns (coerce s target) d () d ∧
        ∀ (field : Field) (receiver : Emit Ty) (ty : Ty) (before : Draft),
          target = .ofClass field.owner → field.isStatic = false → Returns receiver before ty d →
            Returns (readField s receiver field) before field.type { d with
              code := d.code ++ [.getField (fieldRef s field)]
              stack := field.type :: below }) ∧
      ∀ (m : Machine) (code : List Instruction) (frame : Frame), m.table = t →
        frame.stack.head? = some v →
          m.execute code heap frame (.checkCast (t.internalTypeName target)) =
            .ok (heap, { frame with position := frame.position + 1 }) := by
  have hfits := Heap.instanceOf_target ht hu hn hs hr ha hv
  refine ⟨hfits, fun s d below hst hd => ?_, fun m code frame hm htop => ?_⟩
  · subst hst
    refine ⟨(returns_coerce_reference hd hs hr).mpr (returns_castTo_assignable hd ha), ?_⟩
    rintro field receiver ty before rfl hf hreceiver
    exact returns_readField_assignable hf hreceiver hd ha
  · obtain ⟨locals, stack, position⟩ := frame
    obtain ⟨below, rfl⟩ := List.head?_eq_some_iff.mp htop
    subst hm
    simp only [Machine.execute, hfits, if_true]

theorem omitted_cast_succeeds_editor :
    let t := ClassTable.standard.runAll ClassTable.labelHistory
    let heap : Heap := #[.instance "p/Editor" []]
    let draft : Draft := { Draft.empty 1 with stack := [.ofClass ⟨27⟩] }
    t.Constructed ∧ t.InterfacesUnderRoot ∧ t.NamesQualified ∧
      t.assignable (.ofClass ⟨27⟩) (.ofClass ⟨24⟩) = true ∧
      heap.instanceOf t (.ref 0) "p/Author" = true ∧ heap.instanceOf t (.ref 0) "p/Named" = true ∧
      Returns (coerce ⟨t, ⟨29⟩, .standard, false⟩ (.ofClass ⟨24⟩)) draft () draft ∧
      (Machine.new t .standard).execute [] heap ⟨#[], [.ref 0], 0⟩ (.checkCast "p/Named") =
        .ok (heap, ⟨#[], [.ref 0], 1⟩) := by
  intro t heap draft
  have ht : t.Constructed := ⟨ClassTable.labelHistory, by decide, rfl⟩
  have hu : t.InterfacesUnderRoot := by decide
  have hn : t.NamesQualified := by decide
  have ha : t.assignable (.ofClass ⟨27⟩) (.ofClass ⟨24⟩) = true := by decide
  have hauthor : t.internalTypeName (.ofClass ⟨27⟩) = "p/Author" := by decide
  have hnamed : t.internalTypeName (.ofClass ⟨24⟩) = "p/Named" := by decide
  have hv : heap.instanceOf t (.ref 0) "p/Author" = true := by decide
  obtain ⟨hfits, hwritten, hexecuted⟩ :=
    omitted_cast_succeeds ht hu hn heap (.ref 0) rfl rfl ha (hauthor ▸ hv)
  rw [hnamed] at hfits hexecuted
  exact ⟨ht, hu, hn, ha, hv, hfits,
    (hwritten ⟨t, ⟨29⟩, .standard, false⟩ draft [] rfl rfl).1,
    hexecuted (Machine.new t .standard) [] ⟨#[], [.ref 0], 0⟩ rfl rfl⟩

end Emit

end CallSite
