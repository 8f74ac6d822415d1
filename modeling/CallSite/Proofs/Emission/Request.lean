import CallSite.Proofs.Emission.Invariant

/-!
# Requests

Whatever can be asked for is written by the same steps. An invariant that loops maintain with
their slots taken is maintained by every request.
-/

namespace CallSite

/-- The accesses to list elements that the access `site` leads to end after `n` of them, itself
counted. -/
inductive Setting.Nests (s : Setting) : Nat → Site → Prop
  | intro {n : Nat} {site : Site} {slot : UInt16} {note : Note} :
    site.receiver = .localVar slot note →
    (∀ component slot, s.binding site = .eachElement component →
      s.Nests n (Emit.elementSite site site.member component slot)) → s.Nests (n + 1) site

namespace Emit

variable {s : Setting}

/-- The slots that the loop for `list.member` takes at a time. -/
def listSlots (s : Setting) (site : Site) (member : String) (component : Ty) : Nat :=
  Temporaries.loopWidth component + max (site.receiver.slotsTaken s)
    (elementSlots s (elementDepth component) (elementSite site member component 0))

/-- The slots that an access takes at a time when it is bound so. -/
def boundSlots (s : Setting) (binding : Binding) (site : Site) (member : String) : Nat :=
  match binding with
  | .eachElement component => listSlots s site member component
  | binding => if binding.evaluates then site.receiver.slotsTaken s else 0

theorem slotsTaken_property (receiver : Expr) (access : Access) (note : Note) :
    (Expr.property receiver access note).slotsTaken s =
      boundSlots s (s.binding { access with receiver }) { access with receiver } access.member := by
  cases hb : s.binding { access with receiver } <;>
    simp only [Expr.slotsTaken, boundSlots, listSlots, hb]

/-- What can be asked for by itself: an expression, a site of any kind, or the loop for a property
of list elements. -/
inductive Request where
  | expr (e : Expr)
  | property (site : Site)
  | dynamic (site : Site)
  | operator (receiver : Expr) (op : String) (argument : Expr)
  | list (site : Site) (member : String) (component : Ty)

namespace Request

def write (s : Setting) : Request → Emit Ty
  | expr e => Emit.expr s e
  | property site => propertySite s site
  | dynamic site => dynamicSite s site
  | operator receiver op argument => operatorSite s receiver op argument
  | list site member component =>
    collectProperty s site member (Emit.expr s site.receiver) component

/-- The slots for temporaries that the request takes at a time. -/
def slotsTaken (s : Setting) : Request → Nat
  | expr e => e.slotsTaken s
  | property site => boundSlots s (s.binding site) site site.member
  | dynamic site =>
    let query := Query.ofDynamicSite s.table site s.enclosing s.inClosure
    boundSlots s (query.selectDynamic s.table).2 site query.member
  | operator receiver op argument => (Expr.operator receiver op argument receiver.note).slotsTaken s
  | list site member component => listSlots s site member component

end Request

/-! ## Invariants across loops -/

/-- Invariants for all states of the temporaries, which loops lead in and out of where there is
room for their slots. -/
structure Invariant.Scoped (I : Temporaries → Invariant) (room : Temporaries → Nat → Prop) :
    Prop where
  plain : ∀ ts, (I ts).Plain
  mono : ∀ {ts m n}, m ≤ n → room ts n → room ts m
  inner : ∀ {ts component n}, room ts (Temporaries.loopWidth component + n) →
    room (ts.withLoop component) n
  fails : ∀ {ts component e}, (I (ts.withLoop component)).fails e → (I ts).fails e
  enter : ∀ {ts component d}, room ts (Temporaries.loopWidth component) → (I ts).holds d →
    (I (ts.withLoop component)).holds { d with
      temporaries := d.temporaries.withLoop component
      nextLabel := d.nextLabel + 2 }
  stores : ∀ {ts component d}, room ts (Temporaries.loopWidth component) → (I ts).holds d →
    (I (ts.withLoop component)).Stores [d.temporaries.loopSlots.next,
      d.temporaries.loopSlots.iterator, d.temporaries.loopSlots.result]
  leave : ∀ {ts component d mid}, room ts (Temporaries.loopWidth component) → (I ts).holds d →
    (I (ts.withLoop component)).holds mid →
    (I ts).holds ([d.temporaries.loopSlots.next, d.temporaries.loopSlots.iterator,
      d.temporaries.loopSlots.result].forM release mid).2

section Requests

variable {I : Temporaries → Invariant} {room : Temporaries → Nat → Prop} {ts : Temporaries}

theorem maintains_collect (hI : Invariant.Scoped I room) {site : Site} {member : String}
    {component : Ty} {receiver : Emit Ty} {access : Site → Emit Ty}
    (hroom : room ts (Temporaries.loopWidth component))
    (hr : Maintains (I (ts.withLoop component)) receiver)
    (ha : ∀ slot, Maintains (I (ts.withLoop component))
      (access (elementSite site member component slot))) :
    Maintains (I ts) (collect s site member component receiver access) := by
  intro d hd
  have := hI.plain ts
  have := hI.plain (ts.withLoop component)
  rw [collect_apply]
  exact (maintains_loopBody (hI.stores hroom hd) hr (ha _)).releasing (hI.enter hroom hd)
    (fun _ => hI.fails) fun _ => hI.leave hroom hd

/-- The accesses to the elements of a list, and to the elements of its elements. -/
theorem maintains_elementAccess (hI : Invariant.Scoped I room) (depth : Nat) (site : Site)
    (hend : s.Nests depth site ∨ ∀ ts span, (I ts).fails (.internal .endlessElements span))
    (hroom : room ts (elementSlots s depth site)) :
    Maintains (I ts) (elementAccess s depth site) := by
  induction depth generalizing ts site with
  | zero =>
    rcases hend with h | h
    · cases h
    · exact maintains_throw (h ts site.span)
  | succ depth ih =>
    have hreceiver : ∀ ts, Maintains (I ts) (elementReceiver s site) := by
      intro ts
      have := hI.plain ts
      cases hend with
      | inl h =>
        cases h with
        | intro hlocal _ =>
          unfold elementReceiver
          rw [hlocal]
          exact maintains_loadLocal
      | inr h =>
        rcases elementReceiver_cases s site with ⟨slot, note, hr⟩ | hr
        · rw [hr]
          exact maintains_loadLocal
        · rw [hr]
          exact maintains_throw (h ts site.span)
    have := hI.plain ts
    rw [elementAccess_succ]
    refine maintains_access (maintains_bound (fun _ _ => hreceiver ts) fun component hb => ?_)
    unfold elementSlots at hroom
    rw [hb] at hroom
    refine maintains_collect hI (hI.mono (Nat.le_add_right ..) hroom) (hreceiver _) fun slot =>
      ih _ ?_ ?_
    · refine hend.imp_left fun h => ?_
      cases h with
      | intro _ hnext => exact hnext component slot hb
    · rw [elementSlots_elementSite]
      exact hI.inner hroom

variable (hend : (∀ site member component slot,
    s.Nests (elementDepth component) (elementSite site member component slot)) ∨
  ∀ ts span, (I ts).fails (.internal .endlessElements span))

include hend

theorem maintains_collectProperty (hI : Invariant.Scoped I room) {site : Site} {member : String}
    {component : Ty}
    (hr : ∀ {ts}, room ts (site.receiver.slotsTaken s) → Maintains (I ts) (expr s site.receiver))
    (hroom : room ts (listSlots s site member component)) :
    Maintains (I ts) (collectProperty s site member (expr s site.receiver) component) := by
  have hin := hI.inner hroom
  refine maintains_collect hI (hI.mono (Nat.le_add_right ..) hroom)
    (hr (hI.mono (Nat.le_max_left ..) hin)) fun slot => maintains_elementAccess hI _ _ ?_ ?_
  · exact hend.imp_left fun h => h site member component slot
  · rw [elementSlots_elementSite]
    exact hI.mono (Nat.le_max_right ..) hin

theorem maintains_boundSite (hI : Invariant.Scoped I room) {site : Site} {member : String}
    {binding : Binding}
    (hr : ∀ {ts}, room ts (site.receiver.slotsTaken s) → Maintains (I ts) (expr s site.receiver))
    (hroom : room ts (boundSlots s binding site member)) :
    Maintains (I ts) (bound s binding site member (expr s site.receiver)
      (collectProperty s site member (expr s site.receiver))) := by
  have := hI.plain ts
  refine maintains_bound (fun hne he => hr ?_) fun component hb =>
    maintains_collectProperty hend hI hr ?_
  · rw [boundSlots, if_pos he] at hroom
    · exact hroom
    · exact hne
  · rw [hb] at hroom
    exact hroom

theorem maintains_expr (hI : Invariant.Scoped I room) (e : Expr)
    (hroom : room ts (e.slotsTaken s)) : Maintains (I ts) (expr s e) := by
  have := hI.plain ts
  induction e generalizing ts with
  | this note =>
    exact (maintains_emit rfl).bind fun _ => maintains_push.bind fun _ => maintains_pure
  | localVar slot note => exact maintains_loadLocal
  | classLiteral ty note =>
    exact (maintains_emit rfl).bind fun _ => maintains_push.bind fun _ => maintains_pure
  | constant value note =>
    have hcode : (constantCode value).isStore = false := by cases value <;> rfl
    exact (maintains_emit hcode).bind fun _ => maintains_push.bind fun _ => maintains_pure
  | property receiver access note ih =>
    rw [slotsTaken_property] at hroom
    exact maintains_access (maintains_boundSite hend hI (fun h => ih h (hI.plain _)) hroom)
  | operator left op right note ihl ihr =>
    refine maintains_operator fun binding hb => maintains_boundOperator (fun he => ihl ?_ this)
      (ihr ?_ this)
    all_goals
      rw [Expr.slotsTaken, hb] at hroom
      dsimp only at hroom
    · rw [if_pos he] at hroom
      exact hI.mono (Nat.le_max_left ..) hroom
    · exact hI.mono (Nat.le_max_right ..) hroom

/-- A request maintains the invariant, if there is room for the slots that it takes. -/
theorem maintains_request (hI : Invariant.Scoped I room) (r : Request)
    (hroom : room ts (r.slotsTaken s)) : Maintains (I ts) (r.write s) := by
  have := hI.plain ts
  cases r with
  | expr e => exact maintains_expr hend hI e hroom
  | property site =>
    exact maintains_access
      (maintains_boundSite hend hI (maintains_expr hend hI site.receiver) hroom)
  | dynamic site =>
    exact maintains_depth.bind fun _ =>
      (maintains_boundSite hend hI (maintains_expr hend hI site.receiver) hroom).bind fun _ =>
        maintains_expectDepth.bind fun _ => maintains_pure
  | operator receiver op argument =>
    exact maintains_depth.bind fun _ =>
      (maintains_expr hend hI (.operator receiver op argument receiver.note) hroom).bind fun _ =>
        maintains_expectDepth.bind fun _ => maintains_pure
  | list site member component =>
    exact maintains_collectProperty hend hI (maintains_expr hend hI site.receiver) hroom

end Requests

end Emit

end CallSite
