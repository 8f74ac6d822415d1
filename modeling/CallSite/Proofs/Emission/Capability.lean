import CallSite.Proofs.Emission.Casting
import CallSite.Proofs.Emission.Labels
import CallSite.Proofs.Selection.Order

/-!
# Receivers that are selected by capability

An access is bound to the size of a collection, an entry of a map or the elements of a list because
the receiver's class derives from or implements the interface. A conversion to the interface is
written after another test, which works out a cost. Both tests come to the same, so that a receiver
with the type that it was selected by is used as it is.
-/

namespace CallSite

/-- The interface that the receiver must have for an access to be bound so. -/
def Binding.capability? : Binding → Option ClassId
  | collectionSize => some .collection
  | mapEntry => some .map
  | eachElement _ => some .list
  | _ => none

namespace ClassTable

variable {t : ClassTable} {q : Query}

/-- What an access is bound to by capability, the receiver has. -/
theorem hasCapability_of_select {k : ClassId} (h : (q.select t).2.capability? = some k) :
    t.hasCapability q.receiver k = true := by
  cases hb : (q.select t).2 with
  | collectionSize =>
    rw [hb] at h
    cases h
    have htitle : (q.select t).2.title = "CollectionSize" := congrArg Binding.title hb
    have happly : Rule.collectionSize.apply t q = _ :=
      apply_of_name (by simp [Rule.forProperties]) (name_of_title (by decide) htitle)
    obtain ⟨hsize, -⟩ := Option.ite_none_right_eq_some.mp happly
    exact (Bool.and_eq_true_iff.mp hsize).1
  | mapEntry =>
    rw [hb] at h
    cases h
    exact select_mapEntry hb
  | eachElement component =>
    rw [hb] at h
    cases h
    exact (select_eachElement hb).1
  | _ =>
    rw [hb] at h
    cases h

end ClassTable

namespace Emit

variable {s : Setting} {d d' : Draft} {ty : Ty} {site : Site} {receiver : Emit Ty}

/-- A receiver that is selected by capability can be used as the interface. -/
theorem assignable_of_binding (ht : s.table.Constructed) (hi : s.table.InterfacesOnly) {k : ClassId}
    (h : (s.binding site).capability? = some k) :
    ∃ c args, (Query.ofSite site s.enclosing).receiver = .object c args ∧
      s.table.assignable (.object c args) (.ofClass k) = true := by
  have hcapability := ClassTable.hasCapability_of_select h
  cases hreceiver : (Query.ofSite site s.enclosing).receiver with
  | object c args =>
    rw [hreceiver, ClassTable.hasCapability_iff ht hi] at hcapability
    exact ⟨c, args, rfl, (ClassTable.assignable_object_iff ht).mpr hcapability⟩
  | _ =>
    rw [hreceiver] at hcapability
    cases hcapability

/-- An operand that can be used as a class is not converted to it. -/
theorem coerce_inv_assignable {c k : ClassId} {args : List Ty} {u : Unit}
    (h : Returns (coerce s (.ofClass k)) d u d') (htop : d.stack.head? = some (.object c args))
    (ha : s.table.assignable (.object c args) (.ofClass k) = true) : d' = d := by
  obtain ⟨below, hd⟩ := List.head?_eq_some_iff.mp htop
  exact h.unique ((returns_coerce_reference hd rfl rfl).mpr (returns_castTo_assignable hd ha))

/-- The code behind a collection whose size is taken. In a safe access `label` is the first label
that is free. -/
def sizeCode (s : Setting) (safe : Bool) (label : Nat) : List Instruction :=
  if safe then
    [.dup, .jumpIfNull label, invocation s collectionSizeMethod, boxing s .int, .jump (label + 1),
      .label label, .pop, .pushNull, .label (label + 1)]
  else [invocation s collectionSizeMethod]

/-- The size of a collection is taken right behind it. -/
theorem code_collectionSize {safe : Bool}
    (h : Returns (call s receiver collectionSizeMethod [] safe) d ty d') :
    ∃ self held, Returns receiver d self held ∧ ∀ c args,
      held.stack.head? = some (.object c args) →
      s.table.assignable (.object c args) (.ofClass .collection) = true →
      d'.code = held.code ++ sizeCode s safe held.nextLabel := by
  cases safe with
  | false =>
    obtain ⟨self, held, d₂, d₃, hr, hc, hargs, rfl, -⟩ := (returns_call_plain rfl).mp h
    obtain ⟨-, rfl⟩ := returns_pure.mp hargs
    refine ⟨self, held, hr, fun c args htop ha => ?_⟩
    obtain rfl := coerce_inv_assignable hc htop ha
    rfl
  | true =>
    obtain ⟨self, held, d₂, d₃, d₄, hr, hc, hargs, hbox, rfl, -⟩ := call_inv_safe rfl h
    obtain ⟨-, rfl⟩ := returns_pure.mp hargs
    refine ⟨self, held, hr, fun c args htop ha => ?_⟩
    obtain rfl := coerce_inv_assignable hc htop ha
    obtain ⟨-, hprim⟩ | ⟨p, hp, rfl⟩ := boxTop_inv hbox
    · exact absurd rfl (hprim .int)
    · cases hp
      simp only [sizeCode, if_true, Draft.called, List.append_assoc]
      rfl

theorem assignable_string_object (ht : s.table.Constructed) :
    s.table.assignable (.ofClass .string) (.ofClass .object) = true := by
  have hin : ClassId.string.index < s.table.size :=
    Nat.lt_of_lt_of_le (by decide) ht.consistent.size
  have hroot := ClassTable.object_mem_superclasses ht hin
  exact (ClassTable.assignable_object_iff ht).mpr
    ⟨.object, (ht.consistent.mem_superclasses_iff hin).mp hroot, .refl⟩

/-- An entry of a map is taken right behind the map and its key. -/
theorem code_mapEntry (ht : s.table.Constructed) {key : String}
    (h : Returns (call s receiver mapGetMethod [pushString key] false) d ty d') :
    ∃ self held, Returns receiver d self held ∧ ∀ c args,
      held.stack.head? = some (.object c args) →
      s.table.assignable (.object c args) (.ofClass .map) = true →
      d'.code = held.code ++ [.push (.string key), invocation s mapGetMethod] := by
  obtain ⟨self, held, d₂, d₃, hr, hc, hargs, rfl, -⟩ := (returns_call_plain rfl).mp h
  refine ⟨self, held, hr, fun c args htop ha => ?_⟩
  obtain rfl := coerce_inv_assignable hc htop ha
  obtain ⟨_, mid, hpush, hrest⟩ := returns_bind.mp hargs
  obtain ⟨_, last, hconvert, hend⟩ := returns_bind.mp hrest
  obtain ⟨-, rfl⟩ := returns_pure.mp hend
  obtain rfl := returns_pushString.mp hpush
  obtain rfl := coerce_inv_assignable hconvert rfl (assignable_string_object ht)
  show _ ++ _ ++ _ = _
  rw [List.append_assoc]
  rfl

/-- The test for capabilities by which receivers are selected and the test for conversions come to the
same for all classes. So a receiver with the type that it was selected by is used as it is: the call
or the loop comes right behind it, without a cast. -/
theorem selected_receiver_uncast {t : ClassTable} (ht : t.Constructed) (hi : t.InterfacesOnly) :
    (∀ c k args args', t.hasCapability (.object c args) k =
      t.assignable (.object c args) (.object k args')) ∧
    ∀ (s : Setting) (site : Site) (d d' : Draft) (ty : Ty), s.table = t →
      Returns (propertySite s site) d ty d' →
      let selected := (Query.ofSite site s.enclosing).receiver
      (s.binding site = .collectionSize → ∃ self held, Returns (expr s site.receiver) d self held ∧
        (held.stack.head? = some selected →
          d'.code = held.code ++ sizeCode s site.safe held.nextLabel)) ∧
      (s.binding site = .mapEntry → ∃ self held, Returns (expr s site.receiver) d self held ∧
        (held.stack.head? = some selected →
          d'.code = held.code ++ [.push (.string site.member), invocation s mapGetMethod])) ∧
      ∀ component, s.binding site = .eachElement component → ∃ self held rest,
        Returns (expr s site.receiver) { d with
          temporaries := d.temporaries.withLoop component
          nextLabel := d.nextLabel + 2 } self held ∧
        d'.code = held.code ++ (d.temporaries.loopSlots.start ++ rest) := by
  refine ⟨fun c k args args' => ?_, ?_⟩
  · rw [Bool.eq_iff_iff, ClassTable.hasCapability_iff ht hi, ClassTable.assignable_object_iff ht]
  rintro s site d d' ty rfl h selected
  have hbound : ∀ {binding}, s.binding site = binding → binding ≠ .unresolved →
      Returns (bound s binding site site.member (expr s site.receiver)
        (collectProperty s site site.member (expr s site.receiver))) d ty d' := by
    rintro _ rfl hb
    exact ((returns_access_of_ne hb).mp h).1
  refine ⟨fun hb => ?_, fun hb => ?_, fun component hb => ?_⟩
  · obtain ⟨c, args, hselected, ha⟩ := assignable_of_binding ht hi (congrArg Binding.capability? hb)
    obtain ⟨self, held, hr, hcode⟩ := code_collectionSize (hbound hb nofun)
    exact ⟨self, held, hr, fun htop => hcode c args (htop.trans (congrArg some hselected)) ha⟩
  · obtain ⟨c, args, hselected, ha⟩ := assignable_of_binding ht hi (congrArg Binding.capability? hb)
    obtain ⟨self, held, hr, hcode⟩ := code_mapEntry ht (hbound hb nofun)
    exact ⟨self, held, hr, fun htop => hcode c args (htop.trans (congrArg some hselected)) ha⟩
  · obtain ⟨self, held, rest, hr, hcode, -⟩ :=
      collect_inv_names (fun _ => labelled_elementAccess _ _) (hbound hb nofun)
    exact ⟨self, held, rest, hr, hcode⟩

/-- Two interfaces extend each other, one of them is a list, and a shelf implements the other. -/
def shelfHistory : List ClassTable.Call :=
  [.declare "p.Left" .interface, .declare "p.Right" .interface, .declare "p.Shelf" .cls,
    .addInterface ⟨24⟩ ⟨25⟩, .addInterface ⟨25⟩ ⟨24⟩, .addInterface ⟨25⟩ .list,
    .addInterface ⟨26⟩ ⟨24⟩]

/-- The size of a shelf in a slot. -/
def shelfSite : Site :=
  { member := "size", span := .none, receiver := .localVar 1 { type := .ofClass ⟨26⟩ } }

theorem selected_receiver_uncast_shelf :
    let t := ClassTable.standard.runAll shelfHistory
    let s : Setting := ⟨t, ⟨26⟩, .standard, false⟩
    t.Constructed ∧ t.InterfacesOnly ∧ t.hasCapability (.ofClass ⟨26⟩) .collection = true ∧
      t.assignable (.ofClass ⟨26⟩) (.ofClass .collection) = true ∧
      s.binding shelfSite = .collectionSize ∧
      ∃ d', Returns (propertySite s shelfSite) (.empty 2) .int d' ∧
        d'.code = [.load .reference 1, invocation s collectionSizeMethod] := by
  intro t s
  have ht : t.Constructed := ⟨shelfHistory, by decide, rfl⟩
  have hi : t.InterfacesOnly := by decide
  have hcapability : t.hasCapability (.ofClass ⟨26⟩) .collection = true := by decide
  have hb : s.binding shelfSite = .collectionSize := by decide
  obtain ⟨hsame, hcode⟩ := selected_receiver_uncast ht hi
  have ha : t.assignable (.ofClass ⟨26⟩) (.ofClass .collection) = true :=
    (hsame ..).symm.trans hcapability
  let mid : Draft := { Draft.empty 2 with
    code := [.load .reference 1]
    stack := [.ofClass ⟨26⟩] }
  have hload : Returns (expr s shelfSite.receiver) (.empty 2) (.ofClass ⟨26⟩) mid :=
    returns_loadLocal.mpr ⟨rfl, rfl⟩
  have hcoerce : Returns (coerce s (.ofClass .collection)) mid () mid :=
    (returns_coerce_reference rfl rfl rfl).mpr (returns_castTo_assignable rfl ha)
  have hwritten : Returns (propertySite s shelfSite) (.empty 2) .int
      (Draft.called s collectionSizeMethod 0 mid) := by
    refine (returns_access_of_ne (by rw [hb]; nofun)).mpr ⟨?_, rfl⟩
    rw [hb]
    exact (returns_call_plain rfl).mpr
      ⟨_, mid, mid, mid, hload, hcoerce, returns_pure.mpr ⟨rfl, rfl⟩, rfl, rfl⟩
  obtain ⟨self, held, hr, hsize⟩ := (hcode s shelfSite _ _ _ rfl hwritten).1 hb
  obtain ⟨rfl, rfl⟩ := returns_loadLocal.mp hr
  exact ⟨ht, hi, hcapability, ha, hb, _, hwritten, hsize rfl⟩

end Emit

end CallSite
