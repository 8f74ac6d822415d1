import CallSite.Proofs.Fixture.Linking

/-!
# The hierarchy of a fixture

The classes of a fixture are linked one after the other, while the later ones still extend what
they were declared with, and a link is refused if it closes a circle in the table as it is by then.
The outcome is still that of the file as a whole: the table is linked just if neither the
superclasses nor the enclosing classes that the file declares form a circle, in whatever order the
classes come, and every link of the table is then a declared one.
-/

namespace CallSite

namespace Fixture

open ClassTable Relation

/-! ## The verdict of the whole file -/

/-- A link that stands in the entries and in the classes that are made from them. -/
private structure Mirrors (known : List String) (next : ClassInfo → Option ClassId)
    (link : ClassSource → Option String) : Prop where
  blank : next ⟨"", .cls, none, [], none, [], [], [], [], 0, false⟩ = none
  standard : ∀ info ∈ standardClasses, ∀ d ∈ next info, d.index < 24
  fresh : ∀ source d, next (freshOf source) = some d → d.index < 24
  linked : ∀ source d, next (linkedOf known source) = some d →
    d.index < 24 ∨ (link source).bind (numberOf known) = some d
  declared : ∀ source d, (link source).bind (numberOf known) = some d →
    next (linkedOf known source) = some d

private theorem mirrors_superclass (known : List String) :
    Mirrors known ClassInfo.superclass ClassSource.superclass := by
  have hfresh : ∀ source d, (freshOf source).superclass = some d → d.index < 24 := by
    rintro source d ⟨⟩
    split <;> decide
  refine ⟨rfl, by decide, hfresh, fun source d hd => ?_, fun source d hd => ?_⟩
  · unfold linkedOf at hd
    cases hs : source.superclass with
    | none =>
      rw [hs] at hd
      exact .inl (hfresh source d hd)
    | some name =>
      rw [hs] at hd
      exact .inr hd
  · unfold linkedOf
    cases hs : source.superclass with
    | none =>
      rw [hs] at hd
      cases hd
    | some name =>
      rw [hs] at hd
      exact hd

private theorem mirrors_outer (known : List String) :
    Mirrors known ClassInfo.outer ClassSource.outer :=
  ⟨rfl, by decide, nofun, fun _ _ hd => .inr hd, fun _ _ hd => hd⟩

section Verdict

variable {done rest : List ClassSource} {next : ClassInfo → Option ClassId}
  {link : ClassSource → Option String} {c d : ClassId}

/-- A link to a class of the file comes from a class of the file, which declares it. The classes
that are not linked yet extend standard ones, so that they add no link among those of the file. -/
private theorem declares_of_next (hm : Mirrors (knownNames (done ++ rest)) next link)
    (h : next ((halfLinked done rest).info c) = some d) (hd : 24 ≤ d.index) :
    24 ≤ c.index ∧ Declares (done ++ rest) link ((halfLinked done rest).name c)
      ((halfLinked done rest).name d) := by
  have hlt := index_lt_of_link next hm.blank h
  have hc : 24 ≤ c.index := by
    refine Nat.le_of_not_lt fun hc =>
      Nat.not_lt_of_le hd (hm.standard _ ?_ d (Option.mem_def.mpr h))
    rw [halfLinked, info_tableOf_standard _ hc, info_eq_getElem hc]
    exact List.getElem_mem hc
  refine ⟨hc, ?_⟩
  rcases List.mem_append.mp (info_tableOf_mem hc hlt) with hin | hin
  · obtain ⟨source, hin, hinfo⟩ := List.mem_map.mp hin
    rw [← halfLinked] at hinfo
    rw [← hinfo] at h
    have hlink := (hm.linked source d h).resolve_left (Nat.not_lt_of_le hd)
    refine ⟨source, List.mem_append_left _ hin, congrArg ClassInfo.name hinfo, ?_⟩
    rw [← map_name_bind (names_halfLinked done rest), hlink]
    rfl
  · obtain ⟨source, -, hinfo⟩ := List.mem_map.mp hin
    rw [← halfLinked] at hinfo
    rw [← hinfo] at h
    exact absurd (hm.fresh source d h) (Nat.not_lt_of_le hd)

/-- A way through the half-linked table to a class of the file is declared there. -/
private theorem declares_of_way (hm : Mirrors (knownNames (done ++ rest)) next link)
    (h : ReflTransGen (fun c d => next ((halfLinked done rest).info c) = some d) d c)
    (hc : 24 ≤ c.index) : 24 ≤ d.index ∧ ReflTransGen (Declares (done ++ rest) link)
      ((halfLinked done rest).name d) ((halfLinked done rest).name c) := by
  induction h using ReflTransGen.head_induction_on with
  | refl => exact ⟨hc, .refl⟩
  | head hlink _ ih =>
    obtain ⟨hd, hway⟩ := ih
    obtain ⟨hc, hdeclared⟩ := declares_of_next hm hlink hd
    exact ⟨hc, .head hdeclared hway⟩

/-- A link that the table refuses closes a circle that the file declares. -/
private theorem not_circleless_of_way (hm : Mirrors (knownNames (done ++ rest)) next link)
    {source : ClassSource} (hsource : source ∈ done ++ rest)
    (hname : (halfLinked done rest).name c = source.name) (hc : 24 ≤ c.index)
    (hd : (link source).bind (numberOf (knownNames (done ++ rest))) = some d)
    (h : ReflTransGen (fun c d => next ((halfLinked done rest).info c) = some d) d c) :
    ¬ Circleless (done ++ rest) link := by
  intro hfree
  have hlink : Declares (done ++ rest) link ((halfLinked done rest).name c)
      ((halfLinked done rest).name d) := by
    refine ⟨source, hsource, hname.symm, ?_⟩
    rw [← map_name_bind (names_halfLinked done rest), hd]
    rfl
  exact hfree _ (.head' hlink (declares_of_way hm h hc).2)

/-- The rest of the file is linked, unless the file declares a circle. -/
private theorem linkAll_outcome (done rest : List ClassSource)
    (hnamed : ∀ source ∈ done ++ rest, ∀ name ∈ source.references,
      (qualify (knownNames (done ++ rest)) name).isSome) :
    linkAll (halfLinked done rest) (numbered (24 + done.length) rest) =
        .ok (halfLinked (done ++ rest) []) ∨
      (∃ fault, linkAll (halfLinked done rest) (numbered (24 + done.length) rest) =
          .error (.hierarchy fault)) ∧
        ¬ (Circleless (done ++ rest) ClassSource.superclass ∧
          Circleless (done ++ rest) ClassSource.outer) := by
  induction rest generalizing done with
  | nil =>
    left
    rw [List.append_nil]
    rfl
  | cons source rest ih =>
    have hsplit : done ++ source :: rest = (done ++ [source]) ++ rest := by simp
    have hsource : source ∈ done ++ source :: rest :=
      List.mem_append_right _ List.mem_cons_self
    have hc : (⟨24 + done.length⟩ : ClassId).index =
        24 + (done.map (linkedOf (knownNames (done ++ source :: rest)))).length := by
      rw [List.length_map]
    have hstep := linkClass_outcome hc (names_halfLinked done (source :: rest)) (hnamed _ hsource)
    have hrun : linkAll (halfLinked done (source :: rest))
        (numbered (24 + done.length) (source :: rest)) =
          linkClass (halfLinked done (source :: rest)) source ⟨24 + done.length⟩ >>= fun t =>
            linkAll t (numbered (24 + (done ++ [source]).length) rest) := by
      rw [List.length_append, numbered_cons]
      rfl
    rw [hrun]
    rcases hstep with hok | ⟨fault, hfault, hway⟩
    · have hnext : linkClass (halfLinked done (source :: rest)) source ⟨24 + done.length⟩ =
          .ok (halfLinked (done ++ [source]) rest) := by
        refine hok.trans (congrArg (Except.ok ∘ tableOf) ?_)
        simp
      rw [hnext, hsplit]
      exact ih _ (hsplit ▸ hnamed)
    · refine .inr ⟨⟨fault, ?_⟩, ?_⟩
      · exact congrArg (· >>= fun t =>
          linkAll t (numbered (24 + (done ++ [source]).length) rest)) hfault
      · have hname : (halfLinked done (source :: rest)).name ⟨24 + done.length⟩ = source.name :=
          congrArg ClassInfo.name (info_tableOf_mid hc)
        rintro ⟨hsuper, houter⟩
        rcases hway with ⟨d, hd, hway⟩ | ⟨d, hd, hway⟩
        · exact not_circleless_of_way (mirrors_superclass _) hsource hname (Nat.le_add_right ..) hd
            hway hsuper
        · exact not_circleless_of_way (mirrors_outer _) hsource hname (Nat.le_add_right ..) hd
            hway houter

end Verdict

/-- A file of links is loaded with all of them, or refused for a circle. -/
private theorem ofSource_outcome {entries : List ClassSource} (h : LinksOnly entries)
    (text path : String) :
    ofSource (classFile entries) text path =
        .ok ⟨path, text, halfLinked entries [], [], [], []⟩ ∨
      (∃ fault, ofSource (classFile entries) text path = .error (.hierarchy fault)) ∧
        ¬ (Circleless entries ClassSource.superclass ∧ Circleless entries ClassSource.outer) := by
  have hdeclare : declareAll .standard (classFile entries).classes =
      .ok (halfLinked [] entries, numbered 24 entries) := declareAll_eq [] entries h.distinct h.new
  unfold ofSource
  rw [hdeclare]
  rcases linkAll_outcome [] entries h.named with hok | ⟨⟨fault, hfault⟩, hcircle⟩
  · left
    have hok : linkAll (halfLinked [] entries) (numbered 24 entries) =
        .ok (halfLinked entries []) := hok
    show ((linkAll _ _).mapError _ >>= _) = _
    rw [hok]
    show (complete _ text path _ (numbered 24 entries)).mapError _ = _
    rw [complete_eq h]
    rfl
  · refine .inr ⟨⟨fault, ?_⟩, hcircle⟩
    have hfault : linkAll (halfLinked [] entries) (numbered 24 entries) =
        .error (.hierarchy fault) := hfault
    show ((linkAll _ _).mapError _ >>= _) = _
    rw [hfault]
    rfl

/-! ## The table of a file that is loaded -/

private theorem map_eraseDups {α β : Type} [DecidableEq α] [DecidableEq β] {f : α → β}
    (as : List α) (hf : ∀ a ∈ as, ∀ b ∈ as, f a = f b → a = b) :
    as.eraseDups.map f = (as.map f).eraseDups := by
  induction as using List.reverseRecOn with
  | nil => rfl
  | append_singleton as a ih =>
    have hmem : f a ∈ as.map f ↔ a ∈ as := by
      refine ⟨fun h => ?_, List.mem_map_of_mem⟩
      obtain ⟨b, hb, hab⟩ := List.mem_map.mp h
      rwa [← hf b (List.mem_append_left _ hb) a (List.mem_append_right _ List.mem_cons_self) hab]
    have ih := ih fun x hx y hy =>
      hf x (List.mem_append_left _ hx) y (List.mem_append_left _ hy)
    rw [eraseDups_concat, List.map_append, List.map_singleton, eraseDups_concat]
    by_cases ha : a ∈ as
    · rw [if_pos ha, if_pos (hmem.mpr ha), ih]
    · rw [if_neg ha, if_neg fun h => ha (hmem.mp h), List.map_append, ih, List.map_singleton]

section Loaded

variable {entries : List ClassSource} {next : ClassInfo → Option ClassId}
  {link : ClassSource → Option String} {name : String} {source : ClassSource}

private theorem names_linked (entries : List ClassSource) :
    (halfLinked entries []).classes.map ClassInfo.name = knownNames entries := by
  rw [names_halfLinked, List.append_nil]

private theorem LinksOnly.uniqueNames (h : LinksOnly entries) :
    (halfLinked entries []).UniqueNames := by
  refine .of_nodup ?_
  rw [names_linked]
  refine List.nodup_append.mpr ⟨by decide, h.distinct, fun a ha b hb hab => ?_⟩
  obtain ⟨source, hin, rfl⟩ := List.mem_map.mp hb
  exact h.new source hin (hab ▸ ha)

/-- The class of an entry is found by its name. -/
private theorem LinksOnly.lookup_name (h : LinksOnly entries) (hs : source ∈ entries) :
    ∃ c, (halfLinked entries []).lookup source.name = some c ∧
      (halfLinked entries []).info c = linkedOf (knownNames entries) source := by
  obtain ⟨before, after, rfl⟩ := List.append_of_mem hs
  have hinfo : (halfLinked (before ++ source :: after) []).info ⟨24 + before.length⟩ =
      linkedOf (knownNames (before ++ source :: after)) source := by
    unfold halfLinked
    rw [List.append_nil, List.map_nil, List.append_nil, List.map_append, List.map_cons]
    exact info_tableOf_mid (by rw [List.length_map])
  have hsize : (halfLinked (before ++ source :: after) []).size =
      24 + (before ++ source :: after).length := by
    unfold halfLinked
    rw [size_tableOf]
    simp
  have hlt : 24 + before.length < (halfLinked (before ++ source :: after) []).size := by
    rw [hsize, List.length_append, List.length_cons]
    omega
  refine ⟨⟨24 + before.length⟩, ?_, hinfo⟩
  have hname : (halfLinked (before ++ source :: after) []).name ⟨24 + before.length⟩ =
      source.name := congrArg ClassInfo.name hinfo
  rw [← hname]
  exact h.uniqueNames.lookup_name hlt

/-- What a file declares is linked in the table, so that a table without a circle comes from a file
without one. -/
private theorem circleless_of_grounded (h : LinksOnly entries)
    (hm : Mirrors (knownNames entries) next link) {root : ClassId → Prop}
    (hg : Grounded (halfLinked entries []).size
      (fun c => next ((halfLinked entries []).info c)) root) : Circleless entries link := by
  let number (name : String) : ClassId := ((halfLinked entries []).lookup name).getD .object
  let linked (c d : ClassId) : Prop := next ((halfLinked entries []).info c) = some d
  have hlinks : ∀ a b, Declares entries link a b → linked (number a) (number b) := by
    rintro a b ⟨source, hs, rfl, hb⟩
    obtain ⟨c, hc, hinfo⟩ := h.lookup_name hs
    rw [← map_name_bind (names_linked entries), Option.map_eq_some_iff] at hb
    obtain ⟨d, hd, rfl⟩ := hb
    have hnext : next ((halfLinked entries []).info c) = some d := by
      rw [hinfo]
      exact hm.declared source d hd
    have hlookup := h.uniqueNames.lookup_name (hg.lt c d hnext)
    simp only [linked, number, hc, hlookup, Option.getD_some]
    exact hnext
  intro a hcircle
  have hcircle := TransGen.lift (p := linked) number hlinks a a hcircle
  obtain ⟨d, hd, -⟩ := TransGen.head'_iff.mp hcircle
  exact hg.not_transGen_self (index_lt_of_link next hm.blank hd) hcircle

private theorem map_name_superclass (entries : List ClassSource) (source : ClassSource) :
    (linkedOf (knownNames entries) source).superclass.map (halfLinked entries []).name =
      (source.links (knownNames entries)).superclass := by
  unfold linkedOf ClassSource.links
  cases source.superclass with
  | some name => exact map_name_numberOf (names_linked entries) name
  | none =>
    have hobject : (halfLinked entries []).name .object = "java.lang.Object" :=
      congrArg ClassInfo.name (info_tableOf_standard _ (by decide))
    have henum : (halfLinked entries []).name .enum = "java.lang.Enum" :=
      congrArg ClassInfo.name (info_tableOf_standard _ (by decide))
    unfold freshOf fresh
    cases source.kind with
    | none => exact congrArg some hobject
    | some kind =>
      cases kind with
      | enum => exact congrArg some henum
      | cls | interface => exact congrArg some hobject

/-- Different classes have different names, so that a class is listed twice just if its name is. -/
private theorem map_name_interfaces (h : LinksOnly entries) (source : ClassSource) :
    (linkedOf (knownNames entries) source).interfaces.map (halfLinked entries []).name =
      (source.links (knownNames entries)).interfaces := by
  have hnames := names_linked entries
  have hlt : ∀ {name : String} {c : ClassId}, numberOf (knownNames entries) name = some c →
      c.index < (halfLinked entries []).size := by
    intro name c hc
    have hlt := lt_of_numberOf hc
    rwa [← hnames, List.length_map] at hlt
  show (source.interfaces.filterMap (numberOf (knownNames entries))).eraseDups.map _ = _
  rw [map_eraseDups, List.map_filterMap]
  · simp only [map_name_numberOf hnames]
    rfl
  · intro i hi j hj
    obtain ⟨_, _, hi⟩ := List.mem_filterMap.mp hi
    obtain ⟨_, _, hj⟩ := List.mem_filterMap.mp hj
    exact h.uniqueNames i j (hlt hi) (hlt hj)

/-- An entry has the links that it declares. -/
private theorem linksIn_of_mem (h : LinksOnly entries) (hs : source ∈ entries) :
    linksIn (halfLinked entries []) source.name = some (source.links (knownNames entries)) := by
  obtain ⟨c, hc, hinfo⟩ := h.lookup_name hs
  have houter : (linkedOf (knownNames entries) source).outer.map (halfLinked entries []).name =
      (source.links (knownNames entries)).outer := map_name_bind (names_linked entries) source.outer
  unfold linksIn superclass? outer?
  rw [hc]
  show some (ClassLinks.mk _ _ _) = _
  rw [hinfo, map_name_superclass, map_name_interfaces h, houter]

private theorem lookup_of_not_mem (hname : ∀ source ∈ entries, source.name ≠ name) :
    (halfLinked entries []).lookup name = ClassTable.standard.lookup name := by
  have hnone : (entries.map ClassSource.name).idxOf? name = none := by
    refine List.idxOf?_eq_none_iff.mpr fun hmem => ?_
    obtain ⟨source, hin, hsame⟩ := List.mem_map.mp hmem
    exact hname source hin hsame
  have happend : (knownNames entries).idxOf? name =
      (standardClasses.map ClassInfo.name).idxOf? name := by
    unfold List.idxOf? at hnone
    unfold List.idxOf? knownNames
    rw [List.findIdx?_append, hnone]
    exact Option.or_none
  rw [lookup_eq (names_linked entries), lookup_eq (t := .standard) rfl, happend]
  rfl

/-- The standard classes keep their links. -/
private theorem linksIn_of_not_mem (hname : ∀ source ∈ entries, source.name ≠ name) :
    linksIn (halfLinked entries []) name = linksIn .standard name := by
  have hin := Consistent.standard
  have hinfo : ∀ c : ClassId, c.index < 24 →
      (halfLinked entries []).info c = ClassTable.standard.info c := fun c =>
    info_tableOf_standard _
  have hsame : ∀ c : ClassId, c.index < 24 →
      (halfLinked entries []).name c = ClassTable.standard.name c := fun c hc =>
    congrArg ClassInfo.name (hinfo c hc)
  unfold linksIn superclass? outer?
  rw [lookup_of_not_mem hname]
  refine Option.map_congr fun c hc => ?_
  rw [hinfo c (index_lt_of_lookup hc)]
  have hsuper := Option.map_congr fun d hd => hsame d (hin.linked.superclasses.lt c d hd)
  have houter := Option.map_congr fun d hd => hsame d (hin.linked.outers.lt c d hd)
  have hinterfaces := List.map_congr_left fun i hi => hsame i (hin.interfaces c i hi)
  unfold superclass? at hsuper
  unfold outer? at houter
  rw [hsuper, houter, hinterfaces]

private theorem linksIn_eq (h : LinksOnly entries) (name : String) :
    linksIn (halfLinked entries []) name = declaredLinks entries name := by
  unfold declaredLinks
  cases hfind : entries.find? (·.name == name) with
  | some source =>
    have hname : source.name = name := by simpa using List.find?_some hfind
    rw [← hname]
    exact linksIn_of_mem h (List.mem_of_find?_eq_some hfind)
  | none =>
    refine linksIn_of_not_mem fun source hs => ?_
    simpa using List.find?_eq_none.mp hfind source hs

/-- The file has no circle if its table is linked. -/
private theorem circleless_of_ok (h : LinksOnly entries) {text path : String} {f : Fixture}
    (hf : ofSource (classFile entries) text path = .ok f) :
    Circleless entries ClassSource.superclass ∧ Circleless entries ClassSource.outer := by
  have hlinked := (table_loaded hf).linked
  rcases ofSource_outcome h text path with hok | ⟨⟨fault, hfault⟩, -⟩
  · cases hok.symm.trans hf
    exact ⟨circleless_of_grounded h (mirrors_superclass _) hlinked.superclasses,
      circleless_of_grounded h (mirrors_outer _) hlinked.outers⟩
  · cases hfault.symm.trans hf

private theorem ofSource_ok_iff (h : LinksOnly entries) (text path : String) :
    (∃ f, ofSource (classFile entries) text path = .ok f) ↔
      Circleless entries ClassSource.superclass ∧ Circleless entries ClassSource.outer := by
  refine ⟨fun ⟨f, hf⟩ => circleless_of_ok h hf, fun hfree => ?_⟩
  rcases ofSource_outcome h text path with hok | ⟨-, hcircle⟩
  · exact ⟨_, hok⟩
  · exact absurd hfree hcircle

private theorem ofSource_error_iff (h : LinksOnly entries) (text path : String) :
    (∃ fault, ofSource (classFile entries) text path = .error (.hierarchy fault)) ↔
      ¬ (Circleless entries ClassSource.superclass ∧ Circleless entries ClassSource.outer) := by
  refine ⟨fun ⟨fault, hfault⟩ hfree => ?_, fun hcircle => ?_⟩
  · obtain ⟨f, hf⟩ := (ofSource_ok_iff h text path).mpr hfree
    cases hfault.symm.trans hf
  · rcases ofSource_outcome h text path with hok | ⟨hfault, -⟩
    · exact absurd (circleless_of_ok h hok) hcircle
    · exact hfault

private theorem linksIn_of_ok (h : LinksOnly entries) {text path : String} {f : Fixture}
    (hf : ofSource (classFile entries) text path = .ok f) (name : String) :
    linksIn f.table name = declaredLinks entries name := by
  rcases ofSource_outcome h text path with hok | ⟨⟨fault, hfault⟩, -⟩
  · cases hok.symm.trans hf
    exact linksIn_eq h name
  · cases hfault.symm.trans hf

end Loaded

/-- A file is loaded just if neither its superclasses nor its enclosing classes form a circle, and
is refused for its hierarchy otherwise. The links of the table are the declared ones, and neither
they nor the verdict depend on the order of the entries. -/
theorem ofSource_ok_iff_circleless {entries : List ClassSource} (h : LinksOnly entries)
    (text path : String) :
    ((∃ f, ofSource (classFile entries) text path = .ok f) ↔
      Circleless entries ClassSource.superclass ∧ Circleless entries ClassSource.outer) ∧
    ((∃ fault, ofSource (classFile entries) text path = .error (.hierarchy fault)) ↔
      ¬ (Circleless entries ClassSource.superclass ∧ Circleless entries ClassSource.outer)) ∧
    (∀ f, ofSource (classFile entries) text path = .ok f →
      ∀ name, linksIn f.table name = declaredLinks entries name) ∧
    ∀ entries', entries.Perm entries' →
      ((∃ f, ofSource (classFile entries') text path = .ok f) ↔
        ∃ f, ofSource (classFile entries) text path = .ok f) ∧
      ((∃ fault, ofSource (classFile entries') text path = .error (.hierarchy fault)) ↔
        ∃ fault, ofSource (classFile entries) text path = .error (.hierarchy fault)) ∧
      ∀ f f', ofSource (classFile entries) text path = .ok f →
        ofSource (classFile entries') text path = .ok f' →
        ∀ name, linksIn f'.table name = linksIn f.table name := by
  have hok := ofSource_ok_iff h text path
  have herror := ofSource_error_iff h text path
  refine ⟨hok, herror, fun f => linksIn_of_ok h, fun entries' hp => ?_⟩
  have hok' := ofSource_ok_iff (h.perm hp) text path
  have herror' := ofSource_error_iff (h.perm hp) text path
  rw [Circleless.perm hp, Circleless.perm hp] at hok' herror'
  refine ⟨hok'.trans hok.symm, herror'.trans herror.symm, fun f f' hf hf' name => ?_⟩
  rw [linksIn_of_ok (h.perm hp) hf', linksIn_of_ok h hf, declaredLinks_perm hp h]

/-- An entry that gives nothing but links. -/
private def linkEntry (name : String) (superclass outer : Option String) (interfaces : List String)
    (kind : Option ClassKind) : ClassSource :=
  ⟨name, kind, superclass, interfaces, outer, 0, false, [], [], [], [], []⟩

/-- Entries whose classes come before the classes that they extend and stand in. -/
def shopEntries : List ClassSource :=
  [ linkEntry "shop.Line" (some "shop.Item") (some "shop.Order")
      ["List", "java.util.List", "Iterable"] none,
    linkEntry "shop.State" none (some "shop.Line") [] (some .enum),
    linkEntry "shop.Order" (some "Number") none [] none,
    linkEntry "shop.Item" (some "shop.Order") none [] none ]

/-- Two classes that extend each other. -/
def mutualEntries : List ClassSource :=
  [ linkEntry "a.A" (some "a.B") none [] none, linkEntry "a.B" (some "a.A") none [] none ]

theorem ofSource_ok_iff_circleless_shop :
    LinksOnly shopEntries ∧ LinksOnly mutualEntries ∧
    (∃ f f', ofSource (classFile shopEntries) "" "shop.toml" = .ok f ∧
      ofSource (classFile shopEntries.reverse) "" "shop.toml" = .ok f' ∧
      linksIn f.table "shop.Line" = some
        ⟨some "shop.Item", ["java.util.List", "java.lang.Iterable"], some "shop.Order"⟩ ∧
      linksIn f'.table "shop.State" = some ⟨some "java.lang.Enum", [], some "shop.Line"⟩) ∧
    ∃ fault, ofSource (classFile mutualEntries) "" "a.toml" = .error (.hierarchy fault) := by
  have hshop : LinksOnly shopEntries :=
    ⟨by decide, by decide, by simp [shopEntries, linkEntry], by decide⟩
  have hmutual : LinksOnly mutualEntries :=
    ⟨by decide, by decide, by simp [mutualEntries, linkEntry], by decide⟩
  obtain ⟨-, -, hlinks, horder⟩ := ofSource_ok_iff_circleless hshop "" "shop.toml"
  obtain ⟨hsame, -, hlinks'⟩ := horder _ (List.reverse_perm shopEntries).symm
  obtain ⟨f, hf⟩ : ∃ f, ofSource (classFile shopEntries) "" "shop.toml" = .ok f := ⟨_, rfl⟩
  obtain ⟨f', hf'⟩ := hsame.mpr ⟨f, hf⟩
  refine ⟨hshop, hmutual, ⟨f, f', hf, hf', (hlinks f hf _).trans (by decide), ?_⟩, ?_⟩
  · rw [hlinks' f f' hf hf', hlinks f hf]
    decide
  · obtain ⟨-, hrefused, -⟩ := ofSource_ok_iff_circleless hmutual "" "a.toml"
    have hab : Declares mutualEntries ClassSource.superclass "a.A" "a.B" :=
      ⟨_, .head _, rfl, by decide⟩
    have hba : Declares mutualEntries ClassSource.superclass "a.B" "a.A" :=
      ⟨_, .tail _ (.head _), rfl, by decide⟩
    exact hrefused.mpr fun ⟨hsuper, _⟩ => hsuper "a.A" (.tail (.single hab) hba)

end Fixture

end CallSite
