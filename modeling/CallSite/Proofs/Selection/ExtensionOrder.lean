import CallSite.Proofs.ClassTable.Growth
import CallSite.Proofs.Selection.Dependence
import CallSite.Selection.Operator

/-!
# The order of extension methods

Extension methods are told apart by what a call of them costs, and a property access that several of
the cheapest methods fit is bound to none of them. So the order in which they were registered does
not matter. Operators on maps and lists take the first of the cheapest methods; for them the order
decides among these, and nothing else.
-/

namespace CallSite

namespace ClassTable

/-- The table with these extension methods. -/
def withExtensions (t : ClassTable) (extensions : List Method) : ClassTable := { t with extensions }

variable {t : ClassTable} {extensions : List Method} {receiver argument : Ty} {args : List Ty}
  {op : String}

/-- All but the extension methods is as it was. -/
theorem alike_withExtensions (hi : t.InterfacesOnly) (extensions : List Method) :
    Alike t (t.withExtensions extensions) (fun _ => True) fun _ => True where
  name _ _ := rfl
  superclasses _ _ := rfl
  outers _ _ := rfl
  allInterfaces _ _ := allInterfaces_eq (fun _ => True) hi (Nat.le_refl _) (fun _ _ => rfl)
    (fun _ _ _ _ => trivial) (fun _ _ => trivial) rfl
  linkCost? _ _ target := by
    have hheader : ∀ c, True → ((t.withExtensions extensions).info c).header = (t.info c).header :=
      fun _ _ => rfl
    exact linkCost?_eq (fun _ => True) hheader (fun _ _ _ _ => trivial) trivial target
  bridgePairs := rfl
  info _ _ := rfl
  known_superclasses _ _ _ _ := trivial
  known_wrapper _ := trivial
  known_of_seen _ _ := trivial
  seen_superclasses _ _ _ _ := trivial
  seen_interfaces _ _ _ _ := trivial

/-! ## The cheapest methods -/

private theorem min?_perm {xs ys : List Nat} (h : xs.Perm ys) : xs.min? = ys.min? := by
  refine Option.ext fun n => ?_
  rw [List.min?_eq_some_iff, List.min?_eq_some_iff]
  simp only [h.mem_iff]

/-- Another order of the candidates is another order of the cheapest of them. -/
theorem bestOverloads_perm {candidates candidates' : List Method}
    (h : candidates'.Perm candidates) :
    (t.bestOverloads receiver candidates' args).Perm (t.bestOverloads receiver candidates args) := by
  have hmin := min?_perm (h.filterMap fun m => t.callCost? m receiver args)
  unfold bestOverloads
  rw [hmin]
  split
  · exact .refl _
  · exact h.filter _

/-- The cheapest extension methods for a call. -/
def cheapest (t : ClassTable) (receiver : Ty) (name : String) (args : List Ty) : List Method :=
  t.bestOverloads receiver (t.extensionsFor receiver name args) args

theorem cheapest_perm (hi : t.InterfacesOnly) (h : extensions.Perm t.extensions) (receiver : Ty)
    (name : String) (args : List Ty) :
    ((t.withExtensions extensions).cheapest receiver name args).Perm
      (t.cheapest receiver name args) := by
  have halike := alike_withExtensions hi extensions
  have hr : ∀ c ∈ receiver.classes, True := fun _ _ => trivial
  have ha : ∀ arg ∈ args, ∀ c ∈ arg.classes, True := fun _ _ _ _ => trivial
  have hfound : ((t.withExtensions extensions).extensionsFor receiver name args).Perm
      (t.extensionsFor receiver name args) := by
    simp only [extensionsFor, halike.accepts hr ha]
    exact h.filter _
  unfold cheapest
  rw [halike.bestOverloads hr ha]
  exact bestOverloads_perm hfound

/-- In another order the same methods are found, and in the same way if there are not several. -/
theorem cheapest_eq_or (hi : t.InterfacesOnly) (h : extensions.Perm t.extensions) (receiver : Ty)
    (name : String) (args : List Ty) :
    (t.withExtensions extensions).cheapest receiver name args = t.cheapest receiver name args ∨
      ∃ m n rest m' n' rest', t.cheapest receiver name args = m :: n :: rest ∧
        (t.withExtensions extensions).cheapest receiver name args = m' :: n' :: rest' ∧
          m' ∈ m :: n :: rest := by
  have hperm := cheapest_perm hi h receiver name args
  generalize (t.withExtensions extensions).cheapest receiver name args = found' at hperm ⊢
  generalize t.cheapest receiver name args = found at hperm ⊢
  cases found with
  | nil => exact .inl hperm.eq_nil
  | cons m rest =>
    cases rest with
    | nil => exact .inl (List.perm_singleton.mp hperm)
    | cons n rest =>
      have hlength := hperm.length_eq
      rw [List.length_cons, List.length_cons] at hlength
      cases found' with
      | nil => cases hlength
      | cons m' rest' =>
        cases rest' with
        | nil => cases Nat.succ.inj hlength
        | cons n' rest' =>
          exact .inr ⟨m, n, rest, m', n', rest', rfl, rfl, hperm.subset List.mem_cons_self⟩

/-! ## Property accesses -/

/-- Of several cheapest methods none is chosen, in whatever order they are. -/
theorem extensionGetter_withExtensions (hi : t.InterfacesOnly) (h : extensions.Perm t.extensions)
    (q : Query) : Rule.extensionGetter.apply (t.withExtensions extensions) q =
      Rule.extensionGetter.apply t q := by
  have hfound := cheapest_eq_or hi h q.receiver ("get" ++ Text.capitalize q.member) []
  unfold cheapest at hfound
  obtain hsame | ⟨m, n, rest, m', n', rest', hbest, hbest', -⟩ := hfound
  · simp only [Rule.extensionGetter, hsame]
  · simp only [Rule.extensionGetter, hbest, hbest']

theorem select_withExtensions (hi : t.InterfacesOnly) (h : extensions.Perm t.extensions)
    (q : Query) :
    q.select (t.withExtensions extensions) = q.select t :=
  (alike_withExtensions hi extensions).select
    ⟨fun _ _ => trivial, trivial, fun _ _ => trivial, fun _ _ => trivial, trivial, trivial⟩
    (extensionGetter_withExtensions hi h q)

/-! ## Operators -/

/-- Several extension methods share the lowest cost, and the receiver is a map or a list. -/
def FirstDecides (t : ClassTable) (receiver argument : Ty) (op : String) : Prop :=
  (t.hasCapability receiver .map = true ∨ t.hasCapability receiver .list = true) ∧
    2 ≤ (t.cheapest receiver op [argument]).length

instance (t : ClassTable) (receiver argument : Ty) (op : String) :
    Decidable (t.FirstDecides receiver argument op) :=
  inferInstanceAs (Decidable (_ ∧ _))

theorem declaredSubscript?_withExtensions (hi : t.InterfacesOnly) (extensions : List Method) :
    (t.withExtensions extensions).declaredSubscript? receiver argument =
      t.declaredSubscript? receiver argument := by
  have hfits : (t.withExtensions extensions).assignable argument = t.assignable argument :=
    funext fun param => (alike_withExtensions hi extensions).assignable (fun _ _ => trivial) param
  unfold declaredSubscript?
  rw [hfits]
  rfl

theorem extensionOperator?_withExtensions (hi : t.InterfacesOnly)
    (h : extensions.Perm t.extensions) (receiver argument : Ty) (op : String) :
    (t.withExtensions extensions).extensionOperator? receiver argument op =
        t.extensionOperator? receiver argument op ∨
      t.FirstDecides receiver argument op ∧
        ∃ m ∈ t.cheapest receiver op [argument], ∃ m' ∈ t.cheapest receiver op [argument],
          t.extensionOperator? receiver argument op = some m ∧
            (t.withExtensions extensions).extensionOperator? receiver argument op = some m' := by
  have hcapability : ∀ d, (t.withExtensions extensions).hasCapability receiver d =
      t.hasCapability receiver d := fun d =>
    (alike_withExtensions hi extensions).hasCapability fun _ _ => trivial
  unfold extensionOperator?
  rw [hcapability, hcapability]
  obtain hsame | ⟨m, n, rest, m', n', rest', hbest, hbest', hmem⟩ :=
    cheapest_eq_or hi h receiver op [argument]
  · unfold cheapest at hsame
    exact .inl (by rw [hsame])
  · have hseveral : 1 < (t.cheapest receiver op [argument]).length := by simp [hbest]
    have hin : m ∈ t.cheapest receiver op [argument] := hbest ▸ List.mem_cons_self
    have hin' : m' ∈ t.cheapest receiver op [argument] := hbest ▸ hmem
    unfold cheapest at hbest hbest'
    rw [hbest, hbest']
    by_cases hfirst : (t.hasCapability receiver .map || t.hasCapability receiver .list) = true
    · refine .inr ⟨⟨by simpa using hfirst, hseveral⟩, m, hin, m', hin', ?_⟩
      exact ⟨if_pos hfirst, if_pos hfirst⟩
    · exact .inl ((if_neg hfirst).trans (if_neg hfirst).symm)

theorem selectOperator_withExtensions (hi : t.InterfacesOnly) (h : extensions.Perm t.extensions)
    (options : Options) (receiver argument : Ty) (op : String) :
    (t.withExtensions extensions).selectOperator options receiver argument op =
        t.selectOperator options receiver argument op ∨
      t.FirstDecides receiver argument op ∧
        ∃ m ∈ t.cheapest receiver op [argument], ∃ m' ∈ t.cheapest receiver op [argument],
          t.selectOperator options receiver argument op = some (.extension m) ∧
            (t.withExtensions extensions).selectOperator options receiver argument op =
              some (.extension m') := by
  have hprimitive : (t.withExtensions extensions).primitiveOperator? options receiver argument op =
      t.primitiveOperator? options receiver argument op := rfl
  have hmap : (t.withExtensions extensions).hasCapability receiver .map =
      t.hasCapability receiver .map :=
    (alike_withExtensions hi extensions).hasCapability fun _ _ => trivial
  unfold selectOperator
  rw [hprimitive, declaredSubscript?_withExtensions hi, hmap]
  cases t.primitiveOperator? options receiver argument op with
  | some binding => exact .inl rfl
  | none =>
    cases t.declaredSubscript? receiver argument with
    | some method => exact .inl rfl
    | none =>
      obtain hsame | ⟨hfirst, m, hm, m', hm', hchosen, hchosen'⟩ :=
        extensionOperator?_withExtensions hi h receiver argument op
      · exact .inl (by rw [hsame])
      · exact .inr ⟨hfirst, m, hm, m', hm', by rw [hchosen]; rfl, by rw [hchosen']; rfl⟩

/-- The order in which extension methods were registered does not matter to a property access: it
is bound by the same rule to the same member. It does not matter to an operator either, unless the
receiver is a map or a list and several extension methods share the lowest cost. Where it does
matter, one of these is called in both orders. -/
theorem select_order_irrelevant (hi : t.InterfacesOnly) (h : extensions.Perm t.extensions) :
    (∀ (site : Site) (enclosing : ClassId),
      (Query.ofSite site enclosing).select (t.withExtensions extensions) =
        (Query.ofSite site enclosing).select t) ∧
    ∀ (options : Options) (receiver argument : Ty) (op : String),
      (¬ t.FirstDecides receiver argument op →
        (t.withExtensions extensions).selectOperator options receiver argument op =
          t.selectOperator options receiver argument op) ∧
      ((t.withExtensions extensions).selectOperator options receiver argument op =
          t.selectOperator options receiver argument op ∨
        ∃ m ∈ t.cheapest receiver op [argument], ∃ m' ∈ t.cheapest receiver op [argument],
          t.selectOperator options receiver argument op = some (.extension m) ∧
            (t.withExtensions extensions).selectOperator options receiver argument op =
              some (.extension m')) := by
  refine ⟨fun _ _ => select_withExtensions hi h _, fun options receiver argument op => ?_⟩
  obtain hsame | ⟨hfirst, hchosen⟩ :=
    selectOperator_withExtensions hi h options receiver argument op
  · exact ⟨fun _ => hsame, .inl hsame⟩
  · exact ⟨fun hnot => absurd hfirst hnot, .inr hchosen⟩

/-- The access to the label of an editor in a slot. -/
def labelSite : Site :=
  { member := "label", span := .none, receiver := .localVar 1 { type := .ofClass ⟨29⟩ } }

theorem select_order_irrelevant_editor :
    let t := standard.runAll labelHistory
    t.InterfacesOnly ∧ t.extensions.reverse.Perm t.extensions ∧
      t.extensions.reverse ≠ t.extensions ∧
      (Query.ofSite labelSite ⟨24⟩).select (t.withExtensions t.extensions.reverse) =
        ("extension-getter", .extension (label ⟨25⟩)) ∧
      (t.withExtensions t.extensions.reverse).selectOperator .standard (.ofClass .list) .int "getAt" =
        t.selectOperator .standard (.ofClass .list) .int "getAt" := by
  intro t
  have hi : t.InterfacesOnly := by decide
  have hperm : t.extensions.reverse.Perm t.extensions := t.extensions.reverse_perm
  obtain ⟨hselect, hoperator⟩ := select_order_irrelevant hi hperm
  refine ⟨hi, hperm, by decide, (hselect labelSite ⟨24⟩).trans (by decide), ?_⟩
  exact (hoperator .standard (.ofClass .list) .int "getAt").1 (by decide +kernel)

/-- The second `getAt` for lists is found only if it comes first. -/
example :
    let t := standard.runAll [.addExtension
      { name := "getAt", owner := .extensions, params := [.ofClass .list, .int],
        returns := .ofClass .string }]
    (t.withExtensions t.extensions.reverse).selectOperator .standard (.ofClass .list) .int "getAt" ≠
      t.selectOperator .standard (.ofClass .list) .int "getAt" := by
  decide +kernel

end ClassTable

end CallSite
