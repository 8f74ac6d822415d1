import CallSite.Proofs.ClassTable.Cost
import CallSite.Proofs.Selection.Source

/-!
# What a selection depends on

Two tables may differ and still bind an access alike. The rules look for members on the classes that
superclass and `interfaces` links lead to from three classes: the receiver's, the one that a class
literal names, and `java.lang.Class`. Of all other classes that they come upon, which are those of
extension parameters and the enclosing ones, only names, kinds and links matter.
-/

namespace CallSite

mutual

/-- The classes that a type mentions. -/
def Ty.classes : Ty → List ClassId
  | .void | .prim _ | .var _ => []
  | .object c args => c :: Ty.classesAll args
  | .array component => component.classes

def Ty.classesAll : List Ty → List ClassId
  | [] => []
  | ty :: tys => ty.classes ++ Ty.classesAll tys

end

theorem Ty.mem_classes_of_class? {ty : Ty} {c : ClassId} (h : ty.class? = some c) :
    c ∈ ty.classes := by
  cases ty <;> simp_all [Ty.class?, Ty.classes]

theorem findSome?_congr {α β : Type} {f g : α → Option β} {xs : List α}
    (h : ∀ x ∈ xs, f x = g x) : xs.findSome? f = xs.findSome? g := by
  induction xs with
  | nil => rfl
  | cons x xs ih =>
    rw [List.findSome?_cons, List.findSome?_cons, h x List.mem_cons_self,
      ih fun y hy => h y (List.mem_cons_of_mem x hy)]

theorem foldlM_congr {α β : Type} {f g : β → α → Option β} {xs : List α} {b : β}
    (h : ∀ x ∈ xs, ∀ b, f b x = g b x) : xs.foldlM f b = xs.foldlM g b := by
  induction xs generalizing b with
  | nil => rfl
  | cons x xs ih =>
    rw [List.foldlM_cons, List.foldlM_cons, h x List.mem_cons_self]
    exact congrArg _ (funext fun b => ih fun y hy => h y (List.mem_cons_of_mem x hy))

namespace ClassTable

/-- The tables have in common what the classes in `known` are called and linked to, and all of the
classes in `seen`. -/
structure Alike (t t' : ClassTable) (known seen : ClassId → Prop) : Prop where
  name : ∀ c, known c → t'.name c = t.name c
  superclasses : ∀ c, known c → t'.superclasses c = t.superclasses c
  outers : ∀ c, known c → t'.outers c = t.outers c
  allInterfaces : ∀ c, known c → t'.allInterfaces c = t.allInterfaces c
  linkCost? : ∀ c, known c → ∀ target, t'.linkCost? target c = t.linkCost? target c
  bridgePairs : t'.bridgePairs = t.bridgePairs
  info : ∀ c, seen c → t'.info c = t.info c
  known_superclasses : ∀ c, known c → ∀ k ∈ t.superclasses c, known k
  known_wrapper : ∀ p : Primitive, known p.wrapper
  known_of_seen : ∀ c, seen c → known c
  seen_superclasses : ∀ c, seen c → ∀ k ∈ t.superclasses c, seen k
  seen_interfaces : ∀ c, seen c → ∀ i ∈ t.allInterfaces c, seen i

namespace Alike

variable {t t' : ClassTable} {known seen : ClassId → Prop} {c d : ClassId} {ty receiver : Ty}
  {args : List Ty} {q : Query}

/-! ## Links -/

theorem derivesFrom (h : Alike t t' known seen) (hc : known c) :
    t'.derivesFrom c d = t.derivesFrom c d := by
  rw [ClassTable.derivesFrom, h.superclasses c hc, ClassTable.derivesFrom]

theorem implements (h : Alike t t' known seen) (hc : known c) :
    t'.implements c d = t.implements c d := by
  rw [ClassTable.implements, h.allInterfaces c hc, ClassTable.implements]

theorem hasCapability (h : Alike t t' known seen) (hty : ∀ c ∈ ty.classes, known c) :
    t'.hasCapability ty d = t.hasCapability ty d := by
  unfold ClassTable.hasCapability
  cases hc : ty.class? with
  | none => rfl
  | some c =>
    have hknown := hty c (Ty.mem_classes_of_class? hc)
    simp only [h.derivesFrom hknown, h.implements hknown]

theorem bridgeAllowed (h : Alike t t' known seen) (hc : known c) (hd : known d) :
    t'.bridgeAllowed c d = t.bridgeAllowed c d := by
  simp only [ClassTable.bridgeAllowed, h.bridgePairs, h.outers c hc, h.outers d hd]

theorem samePackage (h : Alike t t' known seen) (hc : known c) (hd : known d) :
    t'.samePackage c d = t.samePackage c d := by
  have hname : ∀ {k}, known k → (t'.info k).package? = (t.info k).package? := by
    intro k hk
    have heq : (t'.info k).name = (t.info k).name := h.name k hk
    simp only [ClassInfo.package?, heq]
  simp only [ClassTable.samePackage, hname hc, hname hd]

mutual

theorem typeChars (h : Alike t t' known seen) :
    ∀ {ty : Ty}, (∀ c ∈ ty.classes, known c) → t'.typeChars ty = t.typeChars ty
  | .void, _ | .prim _, _ | .var _, _ => by simp only [ClassTable.typeChars]
  | .object c [], hty => by
    simp only [ClassTable.typeChars, h.name c (hty c List.mem_cons_self)]
  | .object c (arg :: args), hty => by
    have harg : ∀ d ∈ arg.classes, known d := fun d hd =>
      hty d (List.mem_cons_of_mem c (List.mem_append_left _ hd))
    have hargs : ∀ d ∈ Ty.classesAll args, known d := fun d hd =>
      hty d (List.mem_cons_of_mem c (List.mem_append_right _ hd))
    simp only [ClassTable.typeChars, h.name c (hty c List.mem_cons_self), h.typeChars harg,
      h.moreTypeChars hargs]
  | .array component, hty => by
    have hcomponent : ∀ c ∈ component.classes, known c := hty
    simp only [ClassTable.typeChars, h.typeChars hcomponent]

theorem moreTypeChars (h : Alike t t' known seen) :
    ∀ {args : List Ty}, (∀ c ∈ Ty.classesAll args, known c) →
      t'.moreTypeChars args = t.moreTypeChars args
  | [], _ => by simp only [ClassTable.moreTypeChars]
  | arg :: args, hargs => by
    have harg : ∀ d ∈ arg.classes, known d := fun d hd => hargs d (List.mem_append_left _ hd)
    have hrest : ∀ d ∈ Ty.classesAll args, known d := fun d hd =>
      hargs d (List.mem_append_right _ hd)
    simp only [ClassTable.moreTypeChars, h.typeChars harg, h.moreTypeChars hrest]

end

theorem describe (h : Alike t t' known seen) (hty : ∀ c ∈ ty.classes, known c) :
    t'.describe ty = t.describe ty := by
  rw [ClassTable.describe, h.typeChars hty, ClassTable.describe]

/-! ## Conversions and overloads -/

theorem classDistance (h : Alike t t' known seen) (hc : known c) (target : ClassId) :
    t'.classDistance c target = t.classDistance c target := by
  unfold ClassTable.classDistance
  rw [h.superclasses c hc, h.allInterfaces c hc]
  have hlinks : ∀ p ∈ (t.superclasses c).zipIdx, (t'.linkCost? target p.1).map (2 * p.2 + ·) =
      (t.linkCost? target p.1).map (2 * p.2 + ·) := by
    intro p hp
    have hmem := List.mem_of_getElem? (List.mem_zipIdx_iff_getElem?.mp hp)
    rw [h.linkCost? _ (h.known_superclasses c hc _ hmem)]
  rw [List.filterMap_congr hlinks]

theorem distance (h : Alike t t' known seen) :
    ∀ {ty : Ty}, (∀ c ∈ ty.classes, known c) → ∀ target, t'.distance ty target = t.distance ty target
  | .prim p, _, target => by
    cases target <;> simp only [ClassTable.distance, h.classDistance (h.known_wrapper p)]
  | .object c args, hty, target => by
    have hc := hty c List.mem_cons_self
    cases target <;> simp only [ClassTable.distance, h.classDistance hc]
  | .array component, hty, target => by
    have hcomponent : ∀ c ∈ component.classes, known c := hty
    cases target <;> simp only [ClassTable.distance, h.distance hcomponent]
  | .void, _, target => by cases target <;> simp only [ClassTable.distance]
  | .var name, _, target => by cases target <;> simp only [ClassTable.distance]

theorem assignable (h : Alike t t' known seen) (hty : ∀ c ∈ ty.classes, known c) (target : Ty) :
    t'.assignable ty target = t.assignable ty target := by
  rw [ClassTable.assignable, h.distance hty, ClassTable.assignable]

section

variable (hr : ∀ c ∈ receiver.classes, known c) (ha : ∀ arg ∈ args, ∀ c ∈ arg.classes, known c)

include hr ha

theorem accepts (h : Alike t t' known seen) (m : Method) :
    t'.accepts m receiver args = t.accepts m receiver args := by
  unfold ClassTable.accepts
  cases m.params with
  | nil => rfl
  | cons self params =>
    have hargs : ∀ p ∈ args.zip params, t'.assignable p.1 p.2 = t.assignable p.1 p.2 :=
      fun p hp => h.assignable (ha _ (List.of_mem_zip hp).1) p.2
    have hall : (args.zip params).all (fun p => t'.assignable p.1 p.2) =
        (args.zip params).all fun p => t.assignable p.1 p.2 := by
      rw [Bool.eq_iff_iff, List.all_eq_true, List.all_eq_true]
      exact forall₂_congr fun p hp => by rw [hargs p hp]
    simp only [h.assignable hr, hall]

theorem callCost? (h : Alike t t' known seen) (m : Method) :
    t'.callCost? m receiver args = t.callCost? m receiver args := by
  unfold ClassTable.callCost?
  cases m.params with
  | nil => rfl
  | cons self params =>
    simp only [h.distance hr]
    refine congrArg _ (funext fun base => foldlM_congr fun p hp cost => ?_)
    rw [h.distance (ha _ (List.of_mem_zip hp).1)]

theorem bestOverloads (h : Alike t t' known seen) (candidates : List Method) :
    t'.bestOverloads receiver candidates args = t.bestOverloads receiver candidates args := by
  unfold ClassTable.bestOverloads
  simp only [h.callCost? hr ha]

theorem extensionsFor (h : Alike t t' known seen) (hext : t'.extensions = t.extensions)
    (name : String) : t'.extensionsFor receiver name args = t.extensionsFor receiver name args := by
  simp only [ClassTable.extensionsFor, hext, h.accepts hr ha]

end

/-! ## Members -/

theorem getter? (h : Alike t t' known seen) (hc : seen c) (name : String) :
    t'.getter? c name = t.getter? c name := by
  unfold ClassTable.getter?
  rw [h.superclasses c (h.known_of_seen c hc)]
  exact findSome?_congr fun k hk => by rw [h.info k (h.seen_superclasses c hc k hk)]

theorem getterAlong (h : Alike t t' known seen) {cs : List ClassId} (hcs : ∀ c ∈ cs, seen c) :
    Rule.getterAlong t' q cs = Rule.getterAlong t q cs := by
  induction cs with
  | nil => rfl
  | cons c cs ih =>
    have hc := hcs c List.mem_cons_self
    have hproperty : t'.property? c q.member = t.property? c q.member := by
      rw [ClassTable.property?, h.info c hc, ClassTable.property?]
    have hdeclared : Rule.declaredGetter? t' q c = Rule.declaredGetter? t q c := by
      simp only [Rule.declaredGetter?, h.getter? hc]
    rw [Rule.getterAlong, hdeclared, hproperty, ih fun k hk => hcs k (List.mem_cons_of_mem c hk),
      Rule.getterAlong]

theorem getterOn (h : Alike t t' known seen) (hc : seen c) :
    Rule.getterOn t' q c = Rule.getterOn t q c := by
  rw [Rule.getterOn, h.superclasses c (h.known_of_seen c hc), Rule.getterOn]
  exact h.getterAlong (h.seen_superclasses c hc)

theorem fieldOn (h : Alike t t' known seen) (hc : seen c) (hu : known q.enclosing)
    (samePackage : Bool) : Rule.fieldOn t' q c samePackage = Rule.fieldOn t q c samePackage := by
  have hfield : (t'.superclasses c).findSome? (fun k => t'.field? k q.member) =
      (t.superclasses c).findSome? fun k => t.field? k q.member := by
    rw [h.superclasses c (h.known_of_seen c hc)]
    refine findSome?_congr fun k hk => ?_
    rw [ClassTable.field?, h.info k (h.seen_superclasses c hc k hk), ClassTable.field?]
  simp only [Rule.fieldOn, hfield, Rule.readable, h.outers _ hu]

end Alike

/-- The classes that a query mentions are known, and those where its rules start to look for members
are seen. -/
structure Covers (known seen : ClassId → Prop) (q : Query) : Prop where
  receiver : ∀ c ∈ q.receiver.classes, known c
  enclosing : known q.enclosing
  receiver_seen : ∀ c, q.receiver.class? = some c → seen c
  literal_seen : ∀ c, q.literal.bind Ty.class? = some c → seen c
  cls_seen : seen .cls
  object_seen : seen .object

namespace Alike

variable {t t' : ClassTable} {known seen : ClassId → Prop} {q : Query}

/-- What is asked of the receiver's class itself. -/
theorem any_info (h : Alike t t' known seen) (hq : Covers known seen q) (p : ClassInfo → Bool) :
    q.receiver.class?.any (fun c => p (t'.info c)) = q.receiver.class?.any fun c => p (t.info c) := by
  cases hc : q.receiver.class? with
  | none => rfl
  | some c => simp only [Option.any_some, h.info c (hq.receiver_seen c hc)]

theorem onLiteral (h : Alike t t' known seen) (hq : Covers known seen q) :
    Rule.onLiteral t' q = Rule.onLiteral t q := by
  unfold Rule.onLiteral
  split
  · rename_i literal c hliteral hc
    have hknown := h.known_of_seen c (hq.receiver_seen c hc)
    rw [h.derivesFrom hknown, h.allInterfaces c hknown]
  · rfl

theorem bridgeAccessor (h : Alike t t' known seen) (hq : Covers known seen q) :
    Rule.bridgeAccessor.apply t' q = Rule.bridgeAccessor.apply t q := by
  simp only [Rule.bridgeAccessor]
  refine Option.bind_congr fun c hc => ?_
  have hseen := hq.receiver_seen c hc
  have hknown := h.known_of_seen c hseen
  rw [ClassTable.field?, ClassTable.bridge?, h.info c hseen, h.bridgeAllowed hknown hq.enclosing,
    h.bridgeAllowed hq.enclosing hknown]
  rfl

theorem interfaceGetter (h : Alike t t' known seen) (hq : Covers known seen q) :
    Rule.interfaceGetter.apply t' q = Rule.interfaceGetter.apply t q := by
  have hkind : q.isInterface t' = q.isInterface t := h.any_info hq ClassInfo.isInterface
  simp only [Rule.interfaceGetter]
  rw [hkind]
  refine ite_congr rfl (fun _ => Option.bind_congr fun c hc => ?_) fun _ => rfl
  have hseen := hq.receiver_seen c hc
  have hfound := findSome?_congr (f := fun i => t'.getter? i ("get" ++ Text.capitalize q.member))
    fun i hi => h.getter? (h.seen_interfaces c hseen i hi) _
  rw [h.allInterfaces c (h.known_of_seen c hseen), hfound, h.getter? hq.object_seen]

/-- The same extension methods are chosen alike. -/
theorem extensionGetter (h : Alike t t' known seen) (hr : ∀ c ∈ q.receiver.classes, known c)
    (hext : t'.extensions = t.extensions) :
    Rule.extensionGetter.apply t' q = Rule.extensionGetter.apply t q := by
  have ha : ∀ arg ∈ ([] : List Ty), ∀ c ∈ arg.classes, known c := nofun
  simp only [Rule.extensionGetter, h.extensionsFor hr ha hext, h.bestOverloads hr ha]

/-- Where extension methods are chosen alike, every rule answers alike. -/
theorem apply (h : Alike t t' known seen) (hq : Covers known seen q)
    (hext : Rule.extensionGetter.apply t' q = Rule.extensionGetter.apply t q) :
    ∀ rule ∈ Rule.forProperties, rule.apply t' q = rule.apply t q := by
  have hcollection : q.isCollection t' = q.isCollection t := h.hasCapability hq.receiver
  have hmap : q.isMap t' = q.isMap t := h.hasCapability hq.receiver
  have hlist : q.isList t' = q.isList t := h.hasCapability hq.receiver
  have henum : q.isEnum t' = q.isEnum t := h.any_info hq ClassInfo.isEnum
  intro rule hrule
  simp only [Rule.forProperties, List.mem_cons, List.not_mem_nil, or_false] at hrule
  rcases hrule with rfl | rfl | rfl | rfl | rfl | rfl | rfl | rfl | rfl | rfl | rfl
  · rfl
  · simp only [Rule.collectionSize]
    rw [hcollection]
  · simp only [Rule.getter]
    refine Option.bind_congr fun c hc => ?_
    rw [h.getterOn (hq.receiver_seen c hc)]
  · simp only [Rule.field]
    refine Option.bind_congr fun c hc => ?_
    have hseen := hq.receiver_seen c hc
    rw [h.fieldOn hseen hq.enclosing, h.samePackage (h.known_of_seen c hseen) hq.enclosing]
  · simp only [Rule.enumConstant]
    rw [henum]
  · simp only [Rule.classLiteral]
    refine Option.bind_congr fun c hc => ?_
    have hseen := hq.literal_seen c hc
    rw [h.fieldOn hseen hq.enclosing, h.getterOn hseen,
      h.samePackage (h.known_of_seen c hseen) hq.enclosing]
  · simp only [Rule.classReceiver, h.getterOn hq.cls_seen, h.fieldOn hq.cls_seen hq.enclosing]
  · exact h.bridgeAccessor hq
  · exact h.interfaceGetter hq
  · exact hext
  · simp only [Rule.mapOrList]
    rw [h.onLiteral hq, hmap, hlist]

/-- The access is bound by the same rule to the same member. -/
theorem select (h : Alike t t' known seen) (hq : Covers known seen q)
    (hext : Rule.extensionGetter.apply t' q = Rule.extensionGetter.apply t q) :
    q.select t' = q.select t := by
  have hfirst : Rule.first? Rule.forProperties t' q = Rule.first? Rule.forProperties t q :=
    findSome?_congr fun rule hrule => by rw [h.apply hq hext rule hrule]
  rw [Query.select, hfirst, Query.select]

end Alike

end ClassTable

end CallSite
