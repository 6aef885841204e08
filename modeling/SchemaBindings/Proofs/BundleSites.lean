import SchemaBindings.Proofs.BundleEnds

/-! # What stands at the places of a bundle

A place is given before there is anything at it: the path to it is put together
on the way down, and the tree around it on the way back. When the bundle is
there, every place leads to what the run on its node came to. The documents of
the bundle have their places from the start, so a reference to one of them is
never copied, in whatever way it spells the path. -/

namespace SchemaBindings.Bundle

open DocumentCache (Sound Within)

variable {t : FileTree} {follow : Follow} {doc : Path} {here : Pointer}

/-! ## Entries and the references in them -/

theorem runEntries_forall₂ {acts : List (String × BundleM Json)} {s s' : State} {ns : Members}
    (h : Runs (runEntries acts) s ns s') :
    List.Forall₂ (fun a e => e.1 = a.1 ∧ ∃ u u', Runs a.2 u e.2 u') acts ns := by
  induction acts generalizing s s' ns with
  | nil =>
    obtain ⟨rfl, -⟩ := h.pure
    exact .nil
  | cons a acts ih =>
    obtain ⟨w, u, hw, hrest⟩ := h.bind
    obtain ⟨ws, u', hws, hpure⟩ := hrest.bind
    obtain ⟨rfl, -⟩ := hpure.pure
    exact .cons ⟨rfl, s, u, hw⟩ (ih hws)

/-- A schema whose reference leads to a place stays where it is, and its reference is written as that
place. -/
theorem relocateNode_of_placed {ms : Members} {reference : String} {l : Pointer} {s s' : State}
    {w : Json} (href : refText? (.object ms) = some reference)
    (hplaced : ∀ spot outcome u, Runs (follow reference doc spot) s outcome u → outcome = .placed l)
    (hrun : Runs (relocateNode follow doc here (.object ms)) s w s') :
    ∃ ns : Members, w = .object ns ∧ ns.names = ms.names ∧
      ns.get? "$ref" = some (.string l.fragment) := by
  have hget := refText?_eq_some.mp href
  rw [relocateNode.eq_def] at hrun
  dsimp only at hrun
  rw [hget] at hrun
  obtain ⟨outcome, u, hout, hrest⟩ := hrun.bind
  obtain rfl := hplaced _ _ _ hout
  obtain ⟨ns, u', hns, hpure⟩ := hrest.bind
  obtain ⟨rfl, -⟩ := hpure.pure
  rw [relocateMembers_eq_map, substitute_map] at hns
  let R (e : String × Json) (x : Json) : Prop := ∃ u u', Runs
    (if e.1 = "$ref" then pure (.string l.fragment) else relocateMember follow doc here e) u x u'
  have hentries : List.Forall₂ (fun e x => x.1 = e.1 ∧ R e x.2) ms ns :=
    List.forall₂_map_left_iff.mp (runEntries_forall₂ hns)
  have hnames : ns.names = ms.names := names_of_forall₂ (R := R) hentries
  obtain ⟨text, htext⟩ := exists_get?_of_names hnames hget
  obtain ⟨v, v', hv⟩ := get?_of_forall₂ (R := R) hentries hget htext
  rw [if_pos rfl] at hv
  exact ⟨ns, rfl, hnames, hv.pure.1 ▸ htext⟩

/-! ## The documents of a bundle -/

/-- A document of a bundle has a place from the start: that of a member of the same file. -/
theorem exists_place_of_mem {ds : List SchemaDocument} {d : SchemaDocument} (hd : d ∈ ds) :
    ∃ d' ∈ ds, (documentKey t d'.path).steps = (documentKey t d.path).steps ∧
      placeOf? (begun t ds).sites (documentKey t d.path) .root =
        some (BundleMember.ofFile d'.fileName).location := by
  have hseeded := seeded_knownFrom t ds
  have hplace : (placeOf? (begun t ds).sites (documentKey t d.path) .root).isSome = true := by
    refine placeOf?_isSome.mpr ⟨⟨documentKey t d.path, .root, (BundleMember.ofFile d.fileName).location⟩,
      ?_, rfl, rfl⟩
    rw [begun, enterAll_eq]
    exact List.mem_append_left _
      (List.mem_reverse.mpr (List.mem_map_of_mem (List.mem_mergeSort.mpr hd)))
  obtain ⟨l, hl⟩ := Option.isSome_iff_exists.mp hplace
  obtain ⟨part, hpart, rfl, hsteps, -⟩ := hseeded.paired _ _ hl
  obtain ⟨d', hd', rfl⟩ := List.mem_map.mp hpart
  exact ⟨d', List.mem_mergeSort.mp hd', hsteps, hl⟩

/-- A reference to a document of the bundle leads on from its place, whatever else has one. -/
theorem followRef_of_member (ht : t.Real) {ds : List SchemaDocument} {member : Path} {l : Pointer}
    (hl : placeOf? (begun t ds).sites member .root = some l) {s s' : State}
    (hs : Grown (begun t ds).sites s.sites) {reference : String} {target : RefTarget}
    (hparse : RefTarget.parse reference = .ok target)
    (hdocument : (targetDocument t doc target).steps = member.steps) {depth : Nat} {spot : Pointer}
    {outcome : Outcome} (hrun : Runs (followRef t depth reference doc spot) s outcome s') :
    outcome = .placed (l.append target.pointer.tokens) ∧ s' = s := by
  cases depth with
  | zero => exact absurd hrun Runs.not_throw
  | succ depth =>
    obtain ⟨target', hparse', htarget⟩ := followRef_runs ht hrun
    cases hparse.symm.trans hparse'
    have hsite : site? s.sites (targetDocument t doc target) target.pointer =
        some (l.append target.pointer.tokens) := by
      refine hs _ _ _ (site?_eq_of_atRoot (seeded_knownFrom t ds).atRoot ?_ _)
      exact (placeOf?_same hdocument).trans hl
    rcases followTarget_runs htarget with ⟨l', hl', rfl, rfl⟩ | ⟨hnone, -⟩
    · rw [hsite] at hl'
      cases hl'
      exact ⟨rfl, rfl⟩
    · rw [hsite] at hnone
      cases hnone

/-! ## Whole bundles -/

theorem relocateParts_append {depth : Nat} {s s' : State} {earlier later : List Part} {part : Part}
    {definitions : Members}
    (h : relocateParts t depth s (earlier ++ part :: later) = .ok (definitions, s')) :
    ∃ ws u w u', relocateParts t depth s earlier = .ok (ws, u) ∧
      Runs (relocateNode (followRef t depth) part.document part.member.location
        (withoutRootKeywords part.source.value)) u w u' ∧ (part.member.key, w) ∈ definitions := by
  induction earlier generalizing s definitions with
  | nil =>
    rw [List.nil_append, relocateParts] at h
    split at h
    · cases h
    · rename_i w u' hw
      split at h
      · cases h
      · cases h
        exact ⟨[], s, w, u', rfl, hw, List.mem_cons_self ..⟩
  | cons first earlier ih =>
    rw [List.cons_append, relocateParts] at h
    split at h
    · cases h
    · rename_i w' u hfirst
      split at h
      · cases h
      · rename_i ws' u' hrest
        cases h
        obtain ⟨ws, v, w, v', hok, hrun, hmem⟩ := ih hrest
        refine ⟨(first.member.key, w') :: ws, v, w, v', ?_, hrun, List.mem_cons_of_mem _ hmem⟩
        rw [relocateParts, hfirst]
        dsimp only
        rw [hok]

/-- The place of a document of a bundle, and what the run on the document came to. -/
def Entered (t : FileTree) (ds : List SchemaDocument) (doc : Path) (p l : Pointer) (w : Json) : Prop :=
  p = .root ∧ ∃ part s s', Comes t ds part s s' ∧ part.document.steps = doc.steps ∧
    part.member.location = l ∧ Runs (partRun t ds part) s w s'

/-- The place of a node that was copied in, and what the run on the node came to. -/
def Copied (t : FileTree) (ds : List SchemaDocument) (sites : List Site) (doc : Path) (p l : Pointer)
    (w : Json) : Prop :=
  ∃ x n, x.document.steps = doc.steps ∧ x.pointer = p ∧ x.location = l ∧
    Original t (knownFrom t ds) x.document p n ∧
    Made t (knownFrom t ds) (begun t ds).sites sites x n w

/-- Every place leads, written as a text and read again, to what the run on its node came to. -/
theorem places_filled (ht : t.Real) {ds : List SchemaDocument} {a : Assembly}
    (hproper : ∀ v ∈ DocumentCache.inReach t (knownFrom t ds), v.Proper)
    (hstems : (ds.map fun d => schemaStem d.fileName).Nodup) (h : assemble t ds = .ok a) {p l : Pointer}
    (hplace : placeOf? a.sites doc p = some l) :
    Pointer.ofText? l.text = some l ∧ ∃ w, a.bundle.document.at? l = some w ∧
      (Entered t ds doc p l w ∨ Copied t ds a.sites doc p l w) := by
  obtain ⟨definitions, s', hrun, hdocument, hsites⟩ := assemble_eq_ok h
  have hseeded := seeded_knownFrom t ds
  have hsettles := relocateParts_settles ht (fun doc v hv => hproper v hv.mem_inReach)
    (fun part hpart => hproper _ (mem_inReach_of_part hpart)) (.refl t (knownFrom t ds))
    hseeded.known hrun
  have hd := distinct_of_relocateParts hstems hrun
  rw [hsites] at hplace ⊢
  rw [hdocument]
  obtain ⟨x, hx, hdoc, hp, hl⟩ := mem_of_placeOf? hplace
  rcases hsettles.placed x hx with hx | ⟨rel, n, y, hrel, hspelled, horiginal, hheld, hmade, -⟩
  · obtain ⟨rfl, hroot⟩ := hseeded.placeOf?_eq hsettles.grown hx hdoc hp hplace
    obtain ⟨part, hpart, rfl, hsteps, -⟩ := hseeded.paired _ _ hroot
    obtain ⟨earlier, later, hsplit⟩ := List.append_of_mem hpart
    rw [hsplit] at hrun
    obtain ⟨ws, u, w, u', hok, hw, hmem⟩ := relocateParts_append hrun
    have hlocation : part.member.location =
        definitionsPlace.append [Pointer.escapeToken part.member.key] := rfl
    refine ⟨?_, w, ?_, .inl ⟨rfl, part, u, u', ⟨⟨earlier, later, ws, hsplit, hok⟩, ?_⟩, hsteps, rfl, hw⟩⟩
    · rw [hlocation]
      exact Pointer.ofText?_text (spelled_definitionsPlace.append (Pointer.spelled_name _))
    · rw [hlocation, at?_documentOf hd, Json.at?_entry hd hmem]
      rfl
    · exact congrArg Prod.snd hw
  · subst hl hp
    refine ⟨?_, y, ?_, .inr ⟨x, n, hdoc, rfl, rfl, horiginal, hmade⟩⟩
    · rw [hrel]
      exact Pointer.ofText?_text (spelled_definitionsPlace.append hspelled)
    · rw [hrel, at?_documentOf hd]
      exact hheld.at? hd

/-- Every place that was given leads to what the run on its node came to. The documents that were
copied in are none of the bundle: a reference to a document of the bundle, in whatever way it spells the
path, is kept as a pointer that leads on from the place of the document's member. -/
theorem places_hold (ht : t.Real) {ds : List SchemaDocument} {a : Assembly}
    (hproper : ∀ v ∈ DocumentCache.inReach t (knownFrom t ds), v.Proper)
    (hstems : (ds.map fun d => schemaStem d.fileName).Nodup) (h : assemble t ds = .ok a) :
    (∀ doc p l, placeOf? a.sites doc p = some l → Pointer.ofText? l.text = some l ∧
      ∃ w, a.bundle.document.at? l = some w ∧
        (Entered t ds doc p l w ∨ Copied t ds a.sites doc p l w)) ∧
    CopiedOnce t ds a.sites ∧
    ∀ d ∈ ds, ∃ d' ∈ ds, (documentKey t d'.path).steps = (documentKey t d.path).steps ∧
      placeOf? a.sites (documentKey t d.path) .root =
        some (BundleMember.ofFile d'.fileName).location ∧
      ∀ doc reference target s, RefTarget.parse reference = .ok target →
        (targetDocument t doc target).steps = (documentKey t d.path).steps →
        Grown (begun t ds).sites s.sites →
        (∀ depth spot outcome s', Runs (followRef t depth reference doc spot) s outcome s' →
          outcome = .placed ((BundleMember.ofFile d'.fileName).location.append target.pointer.tokens) ∧
            s' = s) ∧
        ∀ depth here (ms : Members) w s', refText? (.object ms) = some reference →
          Runs (relocateNode (followRef t depth) doc here (.object ms)) s w s' →
            ∃ ns : Members, w = .object ns ∧ ns.names = ms.names ∧
              ns.get? "$ref" = some (.string ((BundleMember.ofFile d'.fileName).reference ++
                Text.Percent.encodeFragment target.pointer.text)) := by
  obtain ⟨definitions, s', hrun, -, hsites⟩ := assemble_eq_ok h
  have hkeyed : ∀ v ∈ DocumentCache.inReach t (knownFrom t ds), v.Keyed :=
    fun v hv => (hproper v hv).keyed
  have hinlines := (passed_of_relocateParts ht hkeyed (fun _ hp => hp) hrun).inlines
  refine ⟨fun doc p l hplace => places_filled ht hproper hstems h hplace,
    hsites ▸ copiedOnce_of_inlines hinlines, fun d hd => ?_⟩
  obtain ⟨d', hd', hsteps, hplace⟩ := exists_place_of_mem (t := t) hd
  refine ⟨d', hd', hsteps, ?_, fun doc reference target s hparse hdocument hs => ⟨?_, ?_⟩⟩
  · rw [hsites]
    exact hinlines.placeOf?_eq hplace
  · intro depth spot outcome s' hrun
    exact followRef_of_member ht hplace hs hparse hdocument hrun
  · intro depth here ms w s' href hrun
    obtain ⟨ns, hw, hnames, htext⟩ := relocateNode_of_placed href
      (fun spot outcome u hout => (followRef_of_member ht hplace hs hparse hdocument hout).1) hrun
    refine ⟨ns, hw, hnames, htext.trans ?_⟩
    rw [Pointer.fragment_append]
    rfl

/-- The name of a person is copied into the first arm of an `allOf`. -/
theorem places_hold_person : ∃ a, assemble namesFolder [person] = .ok a ∧
    placeOf? a.sites ⟨"/name.json"⟩ .root =
      some ⟨["$defs", "person", "properties", "first", "allOf", "0"]⟩ ∧
    ∃ w, a.bundle.document.at? ⟨["$defs", "person", "properties", "first", "allOf", "0"]⟩ = some w ∧
      (Entered namesFolder [person] ⟨"/name.json"⟩ .root
          ⟨["$defs", "person", "properties", "first", "allOf", "0"]⟩ w ∨
        Copied namesFolder [person] a.sites ⟨"/name.json"⟩ .root
          ⟨["$defs", "person", "properties", "first", "allOf", "0"]⟩ w) := by
  have hrun : (assemble namesFolder [person]).toOption.any (fun a =>
      decide (placeOf? a.sites ⟨"/name.json"⟩ .root =
        some ⟨["$defs", "person", "properties", "first", "allOf", "0"]⟩)) = true := by decide +kernel
  obtain ⟨a, hsome, hplace⟩ := (Option.any_eq_true _ _).mp hrun
  have ha := toOption_eq_some.mp hsome
  have hplace := of_decide_eq_true hplace
  have hholds := places_hold (by decide +kernel) (by decide +kernel) (by decide +kernel) ha
  exact ⟨a, ha, hplace, (hholds.1 _ _ _ hplace).2⟩

end SchemaBindings.Bundle
