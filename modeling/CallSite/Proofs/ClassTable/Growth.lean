import CallSite.Proofs.ClassTable.Cost

/-!
# Tables that grow

A table that gets more classes, or more members in classes that are there, says of the old classes
what it has said before: links and names stay, and the searches that follow the links come to the
same end, though they now have more room.
-/

namespace CallSite

/-! ## Chains and searches with more room -/

theorem chain_congr {next next' : ClassId → Option ClassId} {limit : Nat} {c : ClassId}
    (h : ∀ k ∈ chain next limit c, next' k = next k) : chain next' limit c = chain next limit c := by
  induction limit generalizing c with
  | zero => rfl
  | succ limit ih =>
    have hc : next' c = next c := h c List.mem_cons_self
    rw [chain, chain, hc]
    cases hd : next c with
    | none => rfl
    | some d =>
      refine congrArg (c :: ·) (ih fun k hk => h k ?_)
      rw [chain, hd]
      exact List.mem_cons_of_mem c hk

/-- More room lets a chain be as it was, if its links are. -/
theorem Grounded.chain_eq {size size' : Nat} {next next' : ClassId → Option ClassId}
    {root : ClassId → Prop} {c : ClassId} (h : Grounded size next root) (hsize : size ≤ size')
    (hnext : ∀ k : ClassId, k.index < size → next' k = next k) (hc : c.index < size) :
    chain next' size' c = chain next size c := by
  obtain ⟨last, n, -, hn⟩ := h.ends c hc
  have hin : ∀ {limit}, ∀ k ∈ chain next limit c, next' k = next k := fun k hk =>
    hnext k (index_lt_of_mem_chain h.lt hc hk)
  have hlt := hn.lt_size h.lt hc
  rw [chain_congr hin]
  exact hn.chain_eq (by omega) hlt

theorem foldlM_eq_some {α β : Type} {f g : β → α → Option β} {xs : List α} {b b' : β}
    (h : ∀ x ∈ xs, ∀ b b', f b x = some b' → g b x = some b') (hf : xs.foldlM f b = some b') :
    xs.foldlM g b = some b' := by
  induction xs generalizing b with
  | nil => exact hf
  | cons x xs ih =>
    rw [List.foldlM_cons] at hf ⊢
    obtain ⟨mid, hmid, hrest⟩ := Option.bind_eq_some_iff.mp hf
    rw [h x List.mem_cons_self b mid hmid]
    exact ih (fun y hy => h y (List.mem_cons_of_mem x hy)) hrest

/-! ## Tables -/

/-- What a class is called and linked to. -/
def ClassInfo.header (info : ClassInfo) : ClassInfo :=
  { info with fields := [], methods := [], properties := [], bridges := [] }

/-- What can be read off the header is the same where the headers are. -/
theorem ClassInfo.eq_of_header {α : Type} {info info' : ClassInfo} (f : ClassInfo → α)
    (hf : ∀ info, f info.header = f info) (h : info.header = info'.header) : f info = f info' := by
  rw [← hf info, h, hf]

namespace ClassTable

/-- The classes of `t` keep their headers in `t'`, and those in `kept` keep all that they have. -/
structure Keeps (t t' : ClassTable) (kept : ClassId → Prop) : Prop where
  size : t.size ≤ t'.size
  header : ∀ c, c.index < t.size → (t'.info c).header = (t.info c).header
  info : ∀ c, c.index < t.size → kept c → t'.info c = t.info c
  extensions : t'.extensions = t.extensions
  bridgePairs : t'.bridgePairs = t.bridgePairs

variable {t t' t'' : ClassTable} {kept known : ClassId → Prop} {c k : ClassId}

namespace Keeps

theorem refl (t : ClassTable) (kept : ClassId → Prop) : Keeps t t kept :=
  ⟨Nat.le_refl _, fun _ _ => rfl, fun _ _ _ => rfl, rfl, rfl⟩

theorem trans (h : Keeps t t' kept) (h' : Keeps t' t'' kept) : Keeps t t'' kept where
  size := Nat.le_trans h.size h'.size
  header c hc := (h'.header c (Nat.lt_of_lt_of_le hc h.size)).trans (h.header c hc)
  info c hc hk := (h'.info c (Nat.lt_of_lt_of_le hc h.size) hk).trans (h.info c hc hk)
  extensions := h'.extensions.trans h.extensions
  bridgePairs := h'.bridgePairs.trans h.bridgePairs

theorem declare {name : String} {kind : ClassKind} (h : t.declare name kind = .ok (t', c)) :
    Keeps t t' kept := by
  have hold : ∀ d : ClassId, d.index < t.size → t'.info d = t.info d := fun d =>
    info_declare_of_lt h
  have hsize : t.size ≤ t'.size := by
    rw [size_declare h]
    omega
  obtain ⟨-, -, rfl⟩ := declare_eq_ok h
  exact ⟨hsize, fun d hd => congrArg _ (hold d hd), fun d hd _ => hold d hd, rfl, rfl⟩

/-- A class that is not kept may get members. -/
theorem update {change : ClassInfo → ClassInfo} (hc : ¬ kept c)
    (hchange : ∀ info, (change info).header = info.header) : Keeps t (t.update c change) kept where
  size := (t.size_update c change).ge
  header := fun d _ => t.info_update_congr c ClassInfo.header hchange d
  info := fun _ _ hd => t.info_update_ne change fun he => hc (he ▸ hd)
  extensions := rfl
  bridgePairs := rfl

theorem eq_of_header {α : Type} (h : Keeps t t' kept) (f : ClassInfo → α)
    (hf : ∀ info, f info.header = f info) (hc : c.index < t.size) : f (t'.info c) = f (t.info c) :=
  ClassInfo.eq_of_header f hf (h.header c hc)

end Keeps

/-! ## Interfaces -/

theorem lists_of_header {i : ClassId} (h : (t'.info c).header = (t.info c).header)
    (hi : t.Lists c i) : t'.Lists c i := by
  have heq := ClassInfo.eq_of_header ClassInfo.interfaces (fun _ => rfl) h
  rw [Lists, heq]
  exact hi

section

variable (hheader : ∀ c, known c → (t'.info c).header = (t.info c).header)
  (hclosed : ∀ c, known c → ∀ i, t.Lists c i → known i)

include hheader hclosed

/-- A visit that has ended ends in the same way with more room. -/
theorem visitInterfaces_of_le {depth depth' : Nat} {found found' : List ClassId} (hc : known c)
    (hle : depth ≤ depth') (h : t.visitInterfaces depth found c = some found') :
    t'.visitInterfaces depth' found c = some found' := by
  induction depth generalizing depth' found found' c with
  | zero => cases h
  | succ depth ih =>
    obtain ⟨room, rfl⟩ : ∃ room, depth' = room + 1 := ⟨depth' - 1, by omega⟩
    have hkind : (t'.info c).kind = (t.info c).kind :=
      ClassInfo.eq_of_header ClassInfo.kind (fun _ => rfl) (hheader c hc)
    have hlists : (t'.info c).interfaces = (t.info c).interfaces :=
      ClassInfo.eq_of_header ClassInfo.interfaces (fun _ => rfl) (hheader c hc)
    rw [visitInterfaces] at h ⊢
    rw [ClassInfo.isInterface, hkind, hlists]
    refine foldlM_eq_some (fun i hi b b' hb => ?_) h
    by_cases hin : b.contains i = true
    · rw [if_pos hin] at hb ⊢
      exact hb
    · rw [if_neg hin] at hb ⊢
      exact ih (hclosed c hc i hi) (by omega) hb

theorem links_lists {n : Nat} (h : Links t.Lists n c k) (hc : known c) : Links t'.Lists n c k := by
  induction h with
  | here => exact .here
  | next hlists _ ih =>
    exact .next (lists_of_header (hheader _ hc) hlists) (ih (hclosed _ hc _ hlists))

end

/-- The interfaces of a class, where the lists that name them are the same. -/
theorem allInterfaces_eq (known : ClassId → Prop) (hi : t.InterfacesOnly) (hsize : t.size ≤ t'.size)
    (hheader : ∀ c, known c → (t'.info c).header = (t.info c).header)
    (hclosed : ∀ c, known c → ∀ i, t.Lists c i → known i)
    (hknown : ∀ k ∈ t.superclasses c, known k) (hs : t'.superclasses c = t.superclasses c) :
    t'.allInterfaces c = t.allInterfaces c := by
  obtain ⟨found, hfound⟩ := Option.isSome_iff_exists.mp (interfaceSearch_isSome hi c)
  have hdepth : t.interfaceDepth ≤ t'.interfaceDepth :=
    Nat.mul_le_mul (Nat.succ_le_succ hsize) (Nat.succ_le_succ hsize)
  have hfound' : t'.interfaceSearch c = some found := by
    rw [interfaceSearch, hs]
    exact foldlM_eq_some (fun k hk b b' hb =>
      visitInterfaces_of_le hheader hclosed (hknown k hk) hdepth hb) hfound
  rw [allInterfaces, hfound', allInterfaces, hfound]

/-- The cost of interface links, where the lists are the same. -/
theorem linkCost?_eq (known : ClassId → Prop)
    (hheader : ∀ c, known c → (t'.info c).header = (t.info c).header)
    (hclosed : ∀ c, known c → ∀ i, t.Lists c i → known i) (hc : known c) (target : ClassId) :
    t'.linkCost? target c = t.linkCost? target c := by
  have hclosed' : ∀ c, known c → ∀ i, t'.Lists c i → known i := fun c hc i hlists =>
    hclosed c hc i (lists_of_header (hheader c hc).symm hlists)
  have hsets : {m | Links t'.Lists m c target} = {m | Links t.Lists m c target} :=
    Set.ext fun m => ⟨fun h => links_lists (fun c hc => (hheader c hc).symm) hclosed' h hc,
      fun h => links_lists hheader hclosed h hc⟩
  refine Option.ext fun m => ?_
  rw [linkCost?_eq_some_iff, linkCost?_eq_some_iff, hsets]

end ClassTable

end CallSite
