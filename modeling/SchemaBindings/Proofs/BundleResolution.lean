import SchemaBindings.Proofs.BundleReferences
import SchemaBindings.Proofs.SchemaMentions

/-! # The references that a bundling has looked up

A run goes through every schema of a bundle and through every node that is
copied in, and treats each reference there. A reference whose target gets a
place of its own is resolved. One whose target lies below a node that has a
place is not: it is written as that place with the rest of its pointer behind
it, and nobody looks whether the rest leads anywhere. -/

namespace SchemaBindings.Bundle

open DocumentCache (Sound Within)

variable {t : FileTree} {known : DocumentCache} {follow : Follow} {α : Type}

/-! ## A run treats every reference -/

/-- A relation between the states before and after parts of a run. -/
structure Lasting (P : State → State → Prop) : Prop where
  refl : ∀ s, P s s
  trans : ∀ s u s', P s u → P u s' → P s s'

/-- Between two states a reference in a document is followed. -/
def Asked (P : State → State → Prop) (follow : Follow) (doc : Path) (reference : String)
    (s s' : State) : Prop :=
  ∃ spot u outcome u', P s u ∧ Runs (follow reference doc spot) u outcome u' ∧ P u' s'

/-- A computation relates its states, and follows some references on the way. -/
def Asks (P : State → State → Prop) (follow : Follow) (doc : Path) (refs : String → Prop)
    (act : BundleM α) : Prop :=
  ∀ s a s', Runs act s a s' → P s s' ∧ ∀ reference, refs reference → Asked P follow doc reference s s'

section

variable {P : State → State → Prop} {doc : Path} {refs refs' : String → Prop}

theorem Asks.imp {act : BundleM α} (h : Asks P follow doc refs act)
    (hrefs : ∀ reference, refs' reference → refs reference) : Asks P follow doc refs' act := by
  intro s a s' hrun
  obtain ⟨hp, hall⟩ := h s a s' hrun
  exact ⟨hp, fun reference hr => hall reference (hrefs reference hr)⟩

theorem asks_pure (hP : Lasting P) {a : α} : Asks P follow doc (fun _ => False) (pure a) := by
  intro s b s' hrun
  obtain ⟨rfl, rfl⟩ := hrun.pure
  exact ⟨hP.refl _, fun _ hr => hr.elim⟩

/-- What one part asks and what the next one asks is asked by both, one after the other. -/
theorem asks_bind (hP : Lasting P) {β : Type} {act : BundleM α} {next : α → BundleM β}
    (h : Asks P follow doc refs act) (h' : ∀ a, Asks P follow doc refs' (next a)) :
    Asks P follow doc (fun reference => refs reference ∨ refs' reference) (act >>= next) := by
  intro s b s' hrun
  obtain ⟨a, u, hact, hnext⟩ := hrun.bind
  obtain ⟨hfirst, hasked⟩ := h s a u hact
  obtain ⟨hrest, hasked'⟩ := h' a u b s' hnext
  refine ⟨hP.trans _ _ _ hfirst hrest, fun reference hr => ?_⟩
  rcases hr with hr | hr
  · obtain ⟨spot, v, outcome, v', hbefore, hfollow, hafter⟩ := hasked reference hr
    exact ⟨spot, v, outcome, v', hbefore, hfollow, hP.trans _ _ _ hafter hrest⟩
  · obtain ⟨spot, v, outcome, v', hbefore, hfollow, hafter⟩ := hasked' reference hr
    exact ⟨spot, v, outcome, v', hP.trans _ _ _ hfirst hbefore, hfollow, hafter⟩

theorem asks_map (hP : Lasting P) {β : Type} {act : BundleM α} {f : α → β}
    (h : Asks P follow doc refs act) : Asks P follow doc refs (do return f (← act)) :=
  (asks_bind hP h fun _ => asks_pure hP).imp fun _ hr => Or.inl hr

theorem runEntries_asks (hP : Lasting P) {act : String × Json → BundleM Json}
    (refs : String × Json → String → Prop) {ms : List (String × Json)}
    (hact : ∀ e ∈ ms, Asks P follow doc (refs e) (act e)) :
    Asks P follow doc (fun reference => ∃ e ∈ ms, refs e reference)
      (runEntries (ms.map fun e => (e.1, act e))) := by
  induction ms with
  | nil =>
    refine (asks_pure hP).imp ?_
    rintro reference ⟨e, he, -⟩
    cases he
  | cons e ms ih =>
    have hfirst := hact e (List.mem_cons_self ..)
    have hothers := ih fun e he => hact e (List.mem_cons_of_mem _ he)
    refine (asks_bind hP hfirst fun _ => asks_map hP hothers).imp fun reference hr => ?_
    obtain ⟨x, hx, hr⟩ := hr
    rcases List.mem_cons.mp hx with rfl | hx
    · exact Or.inl hr
    · exact Or.inr ⟨x, hx, hr⟩

/-- A run on a node relates its states and follows all references in the node. -/
def NodeAsks (P : State → State → Prop) (follow : Follow) (doc : Path) (v : Json) : Prop :=
  ∀ here, Asks P follow doc (Mentions .schema v) (relocateNode follow doc here v)

theorem relocateItems_asks (hP : Lasting P) {here : Pointer} {index : Nat} {xs : List Json}
    (hnode : ∀ x ∈ xs, NodeAsks P follow doc x) :
    Asks P follow doc (fun reference => ∃ x ∈ xs, Mentions .schema x reference)
      (relocateItems follow doc here index xs) := by
  induction xs generalizing index with
  | nil =>
    rw [relocateItems]
    refine (asks_pure hP).imp ?_
    rintro reference ⟨x, hx, -⟩
    cases hx
  | cons x xs ih =>
    rw [relocateItems]
    have hfirst := hnode x (List.mem_cons_self ..) (here.item index)
    have hothers : Asks P follow doc (fun reference => ∃ x ∈ xs, Mentions .schema x reference)
        (relocateItems follow doc here (index + 1) xs) :=
      ih fun x hx => hnode x (List.mem_cons_of_mem _ hx)
    refine (asks_bind hP hfirst fun _ => asks_map hP hothers).imp fun reference hr => ?_
    obtain ⟨y, hy, hr⟩ := hr
    rcases List.mem_cons.mp hy with rfl | hy
    · exact Or.inl hr
    · exact Or.inr ⟨y, hy, hr⟩

/-- The nodes right below an object, and those that one of these names, follow their references. -/
def BelowAsks (P : State → State → Prop) (follow : Follow) (doc : Path) (ms : Members) : Prop :=
  ∀ e ∈ ms, NodeAsks P follow doc e.2 ∧
    ∀ named, e.2 = .object named → ∀ x ∈ named, NodeAsks P follow doc x.2

theorem relocateMember_asks (hP : Lasting P) {here : Pointer} {ms : Members}
    (hbelow : BelowAsks P follow doc ms) {e : String × Json} (he : e ∈ ms) :
    Asks P follow doc (Mentions (kindOf e.1 e.2) e.2) (relocateMember follow doc here e) := by
  obtain ⟨hnode, hnamed⟩ := hbelow e he
  obtain ⟨key, v⟩ := e
  unfold relocateMember kindOf
  dsimp only at hnode hnamed ⊢
  cases childKind key with
  | data => exact (asks_pure hP).imp fun _ h => Mentions.not_data h
  | schema => exact hnode (here.child key)
  | namedSchemas =>
    cases v with
    | object named =>
      dsimp only
      rw [relocateNamed_eq_map]
      have hentries := runEntries_asks hP (fun x => Mentions .schema x.2)
        fun x hx => hnamed named rfl x hx ((here.child key).child x.1)
      refine (asks_map hP hentries).imp fun reference h => ?_
      cases h with
      | named hv h => exact ⟨_, hv, h⟩
    | _ => exact hnode (here.child key)

/-- The computations for members, with the reference of the schema left to itself. -/
theorem siblings_ask (hP : Lasting P) {here : Pointer} {ms : Members}
    (hbelow : BelowAsks P follow doc ms) (location : Pointer) :
    Asks P follow doc
        (fun reference => ∃ e ∈ ms, e.1 ≠ "$ref" ∧ Mentions (kindOf e.1 e.2) e.2 reference)
        (runEntries (substitute (relocateMembers follow doc here ms) "$ref"
          (pure (.string location.fragment)))) ∧
      Asks P follow doc
        (fun reference => ∃ e ∈ ms, e.1 ≠ "$ref" ∧ Mentions (kindOf e.1 e.2) e.2 reference)
        (runEntries (OrderedMap.remove (relocateMembers follow doc here ms) "$ref")) := by
  constructor
  · rw [relocateMembers_eq_map, substitute_map]
    refine runEntries_asks hP
      (fun e reference => e.1 ≠ "$ref" ∧ Mentions (kindOf e.1 e.2) e.2 reference) fun e he => ?_
    split
    · rename_i hkey
      exact (asks_pure hP).imp fun _ h => h.1 hkey
    · exact (relocateMember_asks hP hbelow he).imp fun _ h => h.2
  · rw [relocateMembers_eq_map, OrderedMap.remove_map]
    refine (runEntries_asks hP (fun e => Mentions (kindOf e.1 e.2) e.2) fun e he =>
      relocateMember_asks hP hbelow (OrderedMap.mem_of_mem_remove he)).imp fun reference h => ?_
    obtain ⟨e, he, hne, h⟩ := h
    exact ⟨e, OrderedMap.mem_remove_of_ne he hne, h⟩

theorem reference_asks (hP : Lasting P)
    (hkeeps : ∀ reference spot s outcome s', Runs (follow reference doc spot) s outcome s' → P s s')
    {ms : Members} (hd : ms.Distinct) (hbelow : BelowAsks P follow doc ms) {reference : String}
    (href : refText? (.object ms) = some reference) : NodeAsks P follow doc (.object ms) := by
  intro here s w s' hrun
  rw [relocateNode.eq_def] at hrun
  dsimp only at hrun
  rw [refText?_eq_some.mp href] at hrun
  obtain ⟨outcome, u, hout, hrest⟩ := hrun.bind
  have hfirst := hkeeps _ _ _ _ _ hout
  suffices hothers : P u s' ∧ ∀ other,
      (∃ e ∈ ms, e.1 ≠ "$ref" ∧ Mentions (kindOf e.1 e.2) e.2 other) →
        Asked P follow doc other u s' by
    refine ⟨hP.trans _ _ _ hfirst hothers.1, fun other hm => ?_⟩
    rcases hm.member_cases hd href with rfl | hm
    · exact ⟨_, s, outcome, u, hP.refl _, hout, hothers.1⟩
    · obtain ⟨spot, v, out, v', hbefore, hfollow, hafter⟩ := hothers.2 other hm
      exact ⟨spot, v, out, v', hP.trans _ _ _ hfirst hbefore, hfollow, hafter⟩
  cases outcome with
  | placed location => exact asks_map hP (siblings_ask hP hbelow location).1 u w s' hrest
  | copied c =>
    dsimp only at hrest
    by_cases halone : ms.length = 1
    · rw [if_pos halone] at hrest
      obtain ⟨rfl, rfl⟩ := hrest.pure
      obtain ⟨e, rfl⟩ := List.length_eq_one_iff.mp halone
      obtain rfl := List.mem_singleton.mp (OrderedMap.mem_of_get? (refText?_eq_some.mp href))
      refine ⟨hP.refl _, ?_⟩
      rintro other ⟨x, hx, hne, -⟩
      rw [List.mem_singleton.mp hx] at hne
      exact absurd rfl hne
    · rw [if_neg halone] at hrest
      exact asks_map hP (siblings_ask hP hbelow .root).2 u w s' hrest

theorem plain_asks (hP : Lasting P) {ms : Members} (hbelow : BelowAsks P follow doc ms)
    (href : refText? (.object ms) = none) : NodeAsks P follow doc (.object ms) := by
  intro here s w s' hrun
  have hplain : Runs (do return .object (← runEntries (relocateMembers follow doc here ms)))
      s w s' := by
    rw [relocateNode.eq_def] at hrun
    dsimp only at hrun
    split at hrun
    · rename_i reference hget
      rw [refText?_eq_some.mpr hget] at href
      cases href
    · exact hrun
  rw [relocateMembers_eq_map] at hplain
  have hentries : Asks P follow doc _ (runEntries
      (ms.map fun e => (e.1, relocateMember follow doc here e))) :=
    runEntries_asks hP (fun e => Mentions (kindOf e.1 e.2) e.2) fun e he =>
      relocateMember_asks hP hbelow he
  refine ((asks_map hP hentries).imp fun other hm => ?_) s w s' hplain
  cases hm with
  | here h => cases h.symm.trans href
  | member hv h => exact ⟨_, hv, h⟩

/-- If following references relates the states, a run on a node does so and follows all references
in the node. -/
theorem relocateNode_asks (hP : Lasting P)
    (hkeeps : ∀ reference spot s outcome s', Runs (follow reference doc spot) s outcome s' → P s s')
    (v : Json) (hv : v.Proper) : NodeAsks P follow doc v := by
  induction v using Json.byParts with
  | object ms ih =>
    have hbelow : BelowAsks P follow doc ms := by
      intro e he
      have hp : e.2.Proper := hv.of_mem (Json.member_mem_nodes he)
      refine ⟨(ih e he).1 hp, fun named hnamed x hx => (ih e he).2 named hnamed x hx ?_⟩
      rw [hnamed] at hp
      exact hp.of_mem (Json.member_mem_nodes hx)
    cases href : refText? (.object ms) with
    | none => exact plain_asks hP hbelow href
    | some reference => exact reference_asks hP hkeeps hv.distinct hbelow href
  | array xs ih =>
    intro here
    rw [relocateNode.eq_def]
    have hitems : Asks P follow doc _ (relocateItems follow doc here 0 xs) :=
      relocateItems_asks hP fun x hx => ih x hx (hv.of_mem (Json.item_mem_nodes hx))
    refine (asks_map hP hitems).imp fun other hm => ?_
    cases hm with
    | here h => cases h
    | item hx h => exact ⟨_, hx, h⟩
  | leaf v hm hi =>
    intro here
    rw [relocateNode_leaf hm hi]
    exact (asks_pure hP).imp fun other h => Mentions.not_leaf hm hi h

end

/-! ## What a reference was found to be -/

theorem placeOf?_isSome {sites : List Site} {doc : Path} {p : Pointer} :
    (placeOf? sites doc p).isSome = true ↔
      ∃ x ∈ sites, x.document.steps = doc.steps ∧ x.pointer = p := by
  unfold placeOf?
  rw [Option.isSome_map, List.find?_isSome]
  simp only [Bool.and_eq_true, same_iff, decide_eq_true_eq]

/-- The document of a reference's target is known, and in it a node that has a place: the target or
one above it. -/
def Answered (t : FileTree) (s : State) (doc : Path) (reference : String) : Prop :=
  ∃ target v above below, RefTarget.parse reference = .ok target ∧
    target.pointer.tokens = above ++ below ∧
    s.cache.find? (targetDocument t doc target) = some v ∧ (v.at? ⟨above⟩).isSome = true ∧
    (placeOf? s.sites (targetDocument t doc target) ⟨above⟩).isSome = true

/-- The documents that are known are sources, and the nodes that have a place are nodes of them. -/
structure Sane (t : FileTree) (known : DocumentCache) (s : State) : Prop where
  sound : Sound t known s.cache
  placed : ∀ x ∈ s.sites, ∃ v, s.cache.find? x.document = some v ∧ (v.at? x.pointer).isSome = true

/-- What a part of a run does: what was known and placed stays so, and the references in a node that
is given a place are answered. -/
structure Advances (t : FileTree) (known : DocumentCache) (s s' : State) : Prop where
  sane : Sane t known s'
  within : Within s.cache s'.cache
  sites : ∀ x ∈ s.sites, x ∈ s'.sites
  filled : ∀ x ∈ s'.sites, x ∈ s.sites ∨ ∀ n reference, Original t known x.document x.pointer n →
    Mentions .schema n reference → Answered t s' x.document reference

namespace Answered

variable {s s' : State} {doc doc' : Path} {reference : String}

theorem mono (h : Answered t s doc reference) (hwithin : Within s.cache s'.cache)
    (hsites : ∀ x ∈ s.sites, x ∈ s'.sites) : Answered t s' doc reference := by
  obtain ⟨target, v, above, below, hparse, htokens, hfound, hat, hplace⟩ := h
  refine ⟨target, v, above, below, hparse, htokens, hwithin _ _ hfound, hat, ?_⟩
  obtain ⟨x, hx, hdoc, hp⟩ := placeOf?_isSome.mp hplace
  exact placeOf?_isSome.mpr ⟨x, hsites x hx, hdoc, hp⟩

/-- How the path of the document is spelled does not matter. -/
theorem congr (h : Answered t s doc reference) (hdoc : doc.steps = doc'.steps) :
    Answered t s doc' reference := by
  obtain ⟨target, v, above, below, hparse, htokens, hfound, hat, hplace⟩ := h
  have htarget := targetDocument_congr (t := t) hdoc target
  refine ⟨target, v, above, below, hparse, htokens, ?_, hat, ?_⟩
  · rwa [← DocumentCache.find?_congr s.cache htarget]
  · rwa [← placeOf?_same htarget]

end Answered

theorem Advances.refl {s : State} (hs : Sane t known s) : Advances t known s s :=
  ⟨hs, fun _ _ h => h, fun _ h => h, fun _ hx => Or.inl hx⟩

theorem Advances.trans {s u s' : State} (h : Advances t known s u) (h' : Advances t known u s') :
    Advances t known s s' where
  sane := h'.sane
  within := h.within.trans h'.within
  sites x hx := h'.sites x (h.sites x hx)
  filled x hx := by
    rcases h'.filled x hx with hx | hfilled
    · refine (h.filled x hx).imp_right fun hfilled n reference hn hm => ?_
      exact (hfilled n reference hn hm).mono h'.within h'.sites
    · exact Or.inr hfilled

/-- A part of a run on a document advances from any sane state in which the document is known. -/
def Advancing (t : FileTree) (known : DocumentCache) (doc : Path) (s s' : State) : Prop :=
  Sane t known s → (s.cache.find? doc).isSome = true → Advances t known s s'

theorem advancing_lasting (doc : Path) : Lasting (Advancing t known doc) where
  refl s hs _ := .refl hs
  trans s u s' h h' hs hdoc := by
    have hfirst := h hs hdoc
    exact hfirst.trans (h' hfirst.sane (find?_isSome_of_within hfirst.within hdoc))

/-- References are answered when they are followed in a document that is known. -/
def Answers (t : FileTree) (known : DocumentCache) (follow : Follow) : Prop :=
  ∀ reference doc spot s outcome s', Sane t known s → (s.cache.find? doc).isSome = true →
    Runs (follow reference doc spot) s outcome s' →
    Advances t known s s' ∧ Answered t s' doc reference

/-- If references are answered when they are followed, those of a node are after a run on it. -/
theorem relocateNode_answers (hfollow : Answers t known follow) {doc : Path} {here : Pointer}
    {v w : Json} (hv : v.Proper) {s s' : State} (hs : Sane t known s)
    (hdoc : (s.cache.find? doc).isSome = true) (hrun : Runs (relocateNode follow doc here v) s w s') :
    Advances t known s s' ∧ ∀ reference, Mentions .schema v reference →
      Answered t s' doc reference := by
  have hkeeps : ∀ reference spot s outcome s', Runs (follow reference doc spot) s outcome s' →
      Advancing t known doc s s' := fun reference spot s outcome s' hrun hs hdoc =>
    (hfollow reference doc spot s outcome s' hs hdoc hrun).1
  obtain ⟨hadvances, hasked⟩ :=
    relocateNode_asks (advancing_lasting doc) hkeeps v hv here s w s' hrun
  refine ⟨hadvances hs hdoc, fun reference hm => ?_⟩
  obtain ⟨spot, u, outcome, u', hbefore, hrun, hafter⟩ := hasked reference hm
  have hfirst := hbefore hs hdoc
  have hdoc := find?_isSome_of_within hfirst.within hdoc
  obtain ⟨hnext, hanswered⟩ := hfollow reference doc spot u outcome u' hfirst.sane hdoc hrun
  have hlast := hafter hnext.sane (find?_isSome_of_within hnext.within hdoc)
  exact hanswered.mono hlast.within hlast.sites

theorem Original.unique (ht : t.Real) {doc : Path} {p : Pointer} {n n' : Json}
    (h : Original t known doc p n) (h' : Original t known doc p n') : n = n' := by
  obtain ⟨v, u, hv, hu, rfl⟩ := h
  obtain ⟨v', u', hv', hu', rfl⟩ := h'
  obtain rfl := hv.eq ht hv' rfl
  cases hu.symm.trans hu'
  rfl

/-- A target that stands somewhere has a place above it, and one that is copied gets a place. -/
theorem followTarget_answers (ht : t.Real) (hsource : ∀ doc v, Source t known doc v → v.Proper)
    (hfollow : Answers t known follow) {reference : String} {doc : Path} {spot : Pointer}
    {target : RefTarget} (hparse : RefTarget.parse reference = .ok target) {s s' : State}
    {outcome : Outcome} (hs : Sane t known s) (hdoc : (s.cache.find? doc).isSome = true)
    (hrun : Runs (followTarget t follow reference doc spot target (targetDocument t doc target))
      s outcome s') : Advances t known s s' ∧ Answered t s' doc reference := by
  rcases followTarget_runs hrun with ⟨l, hsite, rfl, rfl⟩ | ⟨hsite, key, node, c, w, hresolve, hw, rfl⟩
  · refine ⟨.refl hs, ?_⟩
    obtain ⟨above, below, place, htokens, hplace, -⟩ := site?_eq_some hsite
    obtain ⟨x, hx, hsteps, hp, -⟩ := mem_of_placeOf? hplace
    obtain ⟨v, hfound, hat⟩ := hs.placed x hx
    refine ⟨target, v, above, below, hparse, htokens, ?_, hp ▸ hat, by rw [hplace]; rfl⟩
    rwa [← DocumentCache.find?_congr s'.cache hsteps]
  · obtain ⟨rfl, hsound, hwithin, v, hfound, hnode⟩ :=
      DocumentCache.resolve_runs ht hs.sound hdoc hresolve
    have hat : (v.at? target.pointer).isSome = true := by rw [hnode]; rfl
    have horiginal : Original t known (targetDocument t doc target) target.pointer
        (goneThrough target node) := ⟨v, node, hsound.source _ _ hfound, hnode, rfl⟩
    -- The new place is there before the copy is gone through.
    have hsane : Sane t known ⟨c, ⟨targetDocument t doc target, target.pointer, spot⟩ :: s.sites⟩ := by
      refine ⟨hsound, fun x hx => ?_⟩
      rcases List.mem_cons.mp hx with rfl | hx
      · exact ⟨v, hfound, hat⟩
      · obtain ⟨v', hfound', hat'⟩ := hs.placed x hx
        exact ⟨v', hwithin _ _ hfound', hat'⟩
    obtain ⟨hcopy, hanswered⟩ := relocateNode_answers hfollow (horiginal.proper hsource) hsane
      (by rw [hfound]; rfl) hw
    refine ⟨⟨hcopy.sane, hwithin.trans hcopy.within,
      fun x hx => hcopy.sites x (List.mem_cons_of_mem _ hx), fun x hx => ?_⟩, ?_⟩
    · rcases hcopy.filled x hx with hx | hfilled
      · rcases List.mem_cons.mp hx with rfl | hx
        · refine Or.inr fun n reference hn hm => ?_
          cases hn.unique ht horiginal
          exact hanswered reference hm
        · exact Or.inl hx
      · exact Or.inr hfilled
    · refine ⟨target, v, target.pointer.tokens, [], hparse, (List.append_nil _).symm,
        hcopy.within _ _ hfound, hat, placeOf?_isSome.mpr ?_⟩
      exact ⟨_, hcopy.sites _ (List.mem_cons_self ..), rfl, rfl⟩

theorem followRef_answers (ht : t.Real) (hsource : ∀ doc v, Source t known doc v → v.Proper)
    (depth : Nat) : Answers t known (followRef t depth) := by
  induction depth with
  | zero => exact fun _ _ _ _ _ _ _ _ hrun => absurd hrun Runs.not_throw
  | succ depth ih =>
    intro reference doc spot s outcome s' hs hdoc hrun
    obtain ⟨target, hparse, htarget⟩ := followRef_runs ht hrun
    exact followTarget_answers ht hsource ih hparse hs hdoc htarget

/-! ## Whole bundles -/

theorem relocateParts_answers (ht : t.Real) (hsource : ∀ doc v, Source t known doc v → v.Proper)
    {depth : Nat} {parts : List Part} (hparts : ∀ part ∈ parts, part.source.value.Proper)
    {s s' : State} {definitions : Members} (hs : Sane t known s)
    (hknown : ∀ part ∈ parts, (s.cache.find? part.document).isSome = true)
    (hrun : relocateParts t depth s parts = .ok (definitions, s')) :
    Advances t known s s' ∧ ∀ part ∈ parts, ∀ reference,
      Mentions .schema (withoutRootKeywords part.source.value) reference →
        Answered t s' part.document reference := by
  induction parts generalizing s definitions with
  | nil =>
    cases hrun
    exact ⟨.refl hs, fun _ hp => absurd hp List.not_mem_nil⟩
  | cons part parts ih =>
    rw [relocateParts] at hrun
    split at hrun
    · cases hrun
    · rename_i w u hw
      split at hrun
      · cases hrun
      · rename_i ws u' hws
        cases hrun
        have hproper := proper_withoutRootKeywords (hparts part (List.mem_cons_self ..))
        obtain ⟨hfirst, hanswered⟩ := relocateNode_answers (followRef_answers ht hsource depth)
          hproper hs (hknown part (List.mem_cons_self ..)) hw
        obtain ⟨hothers, hall⟩ := ih (fun p hp => hparts p (List.mem_cons_of_mem _ hp)) hfirst.sane
          (fun p hp => find?_isSome_of_within hfirst.within (hknown p (List.mem_cons_of_mem _ hp)))
          hws
        refine ⟨hfirst.trans hothers, fun p hp reference hm => ?_⟩
        rcases List.mem_cons.mp hp with rfl | hp
        · exact (hanswered reference hm).mono hothers.within hothers.sites
        · exact hall p hp reference hm

/-- A failure is put on one of the parts. -/
theorem relocateParts_error {depth : Nat} {parts : List Part} {s : State} {e : GenerationError}
    (h : relocateParts t depth s parts = .error e) :
    ∃ part ∈ parts, ∃ cause, e = .unresolved part.source.fileName cause := by
  induction parts generalizing s with
  | nil => cases h
  | cons part parts ih =>
    rw [relocateParts] at h
    split at h
    · rename_i cause _ _
      exact ⟨part, List.mem_cons_self .., cause, (Except.error.inj h).symm⟩
    · split at h
      · rename_i hrest
        cases h
        obtain ⟨p, hp, cause, he⟩ := ih hrest
        exact ⟨p, List.mem_cons_of_mem _ hp, cause, he⟩
      · cases h

theorem sane_of_seeded {s : State} {parts : List Part} (h : Seeded parts s) :
    Sane t s.cache s where
  sound := .refl t s.cache
  placed x hx := by
    have hroot := h.atRoot x hx
    have hsome := placeOf?_isSome.mpr ⟨x, hx, rfl, hroot⟩
    obtain ⟨l, hl⟩ := Option.isSome_iff_exists.mp hsome
    obtain ⟨part, -, -, -, hfound⟩ := h.paired _ _ hl
    exact ⟨_, hfound, by rw [hroot]; rfl⟩

/-- A reference stands in a member, or in a node that has a place, as those do that were copied
in. -/
def Met (t : FileTree) (known : DocumentCache) (sites : List Site) (ds : List SchemaDocument)
    (doc : Path) (reference : String) : Prop :=
  (∃ d ∈ ds, doc = documentKey t d.path ∧ Mentions .schema (withoutRootKeywords d.value) reference) ∨
    ∃ p n, (placeOf? sites doc p).isSome = true ∧ Original t known doc p n ∧
      Mentions .schema n reference

/-- Some documents being known, a reference leads to a node of one of them. -/
def Resolves (t : FileTree) (c : DocumentCache) (doc : Path) (reference : String)
    (target : RefTarget) : Prop :=
  ∃ node, Runs (DocumentCache.resolve t reference doc target) c
    (targetDocument t doc target, node) c

/-- The pointer of a reference goes on below a node that has a place. -/
def GoesOn (t : FileTree) (c : DocumentCache) (sites : List Site) (doc : Path) (reference : String)
    (target : RefTarget) : Prop :=
  ∃ above token below, target.pointer.tokens = above ++ token :: below ∧
    (placeOf? sites (targetDocument t doc target) ⟨above⟩).isSome = true ∧
    Resolves t c doc reference ⟨target.file?, ⟨above⟩⟩

theorem Answered.resolves {s : State} {doc : Path} {reference : String}
    (h : Answered t s doc reference) : ∃ target, RefTarget.parse reference = .ok target ∧
      (Resolves t s.cache doc reference target ∨
        GoesOn t s.cache s.sites doc reference target) := by
  obtain ⟨target, v, above, below, hparse, htokens, hfound, hat, hplace⟩ := h
  obtain ⟨node, hnode⟩ := Option.isSome_iff_exists.mp hat
  have habove : Resolves t s.cache doc reference ⟨target.file?, ⟨above⟩⟩ :=
    ⟨node, DocumentCache.resolve_of_find? hfound hnode⟩
  refine ⟨target, hparse, ?_⟩
  cases below with
  | nil =>
    rw [List.append_nil] at htokens
    left
    rw [← htokens] at habove
    exact habove
  | cons token below => exact Or.inr ⟨above, token, below, htokens, hplace, habove⟩

/-- What a run on the parts of a bundle has met it has answered. -/
theorem answered_of_met {s s' : State} {ds : List SchemaDocument}
    (hseeded : Seeded (ds.map (partOf t)) s) (hadvances : Advances t s.cache s s')
    (hparts : ∀ part ∈ ds.map (partOf t), ∀ reference,
      Mentions .schema (withoutRootKeywords part.source.value) reference →
        Answered t s' part.document reference)
    (ht : t.Real) {doc : Path} {reference : String}
    (h : Met t s.cache s'.sites ds doc reference) : Answered t s' doc reference := by
  rcases h with ⟨d, hd, rfl, hm⟩ | ⟨p, n, hplace, hn, hm⟩
  · exact hparts _ (List.mem_map_of_mem hd) reference hm
  · obtain ⟨x, hx, hdoc, rfl⟩ := placeOf?_isSome.mp hplace
    rcases hadvances.filled x hx with hx | hfilled
    · -- The node is a document that was there from the start.
      have hroot := hseeded.atRoot x hx
      obtain ⟨l, hl⟩ := Option.isSome_iff_exists.mp (placeOf?_isSome.mpr ⟨x, hx, hdoc, hroot⟩)
      obtain ⟨part, hpart, -, hsteps, hfound⟩ := hseeded.paired _ _ hl
      rw [hroot] at hn
      have hn' : Original t s.cache doc .root (withoutRootKeywords part.source.value) :=
        ⟨_, _, Or.inl hfound, rfl, rfl⟩
      cases hn.unique ht hn'
      exact (hparts part hpart reference hm).congr hsteps
    · obtain ⟨v, u, hv, hu, rfl⟩ := hn
      exact (hfilled _ reference ⟨v, u, Source.congr hv hdoc.symm, hu, rfl⟩ hm).congr hdoc

/-- A bundling fails on a member, or every reference that it met leads to a node; but for those that
go on below a node that has a place: where these lead was not looked at. -/
theorem references_resolved (ht : t.Real) {ds : List SchemaDocument}
    (hproper : ∀ v ∈ DocumentCache.inReach t (knownFrom t ds), v.Proper) :
    (∃ d ∈ ds, ∃ cause, ofDocuments t ds = .error (.unresolved d.fileName cause)) ∨
    ∃ b sites c, ofDocuments t ds = .ok b ∧ assemble t ds = .ok ⟨b, sites⟩ ∧
      Sound t (knownFrom t ds) c ∧
      ∀ doc reference, Met t (knownFrom t ds) sites ds doc reference →
        ∃ target, RefTarget.parse reference = .ok target ∧
          (Resolves t c doc reference target ∨ GoesOn t c sites doc reference target) := by
  have hsource : ∀ doc v, Source t (knownFrom t ds) doc v → v.Proper :=
    fun doc v hv => hproper v hv.mem_inReach
  have hseeded := seeded_knownFrom t ds
  have hmem {part : Part} (hpart : part ∈ (sortDocuments ds).map (partOf t)) :
      ∃ d ∈ ds, part.source = d := by
    obtain ⟨d, hd, rfl⟩ := List.mem_map.mp hpart
    exact ⟨d, (List.mergeSort_perm ds _).mem_iff.mp hd, rfl⟩
  unfold ofDocuments
  cases hrun : relocateParts t ((knownFrom t ds).allowance t)
      (enterAll t ⟨.empty, []⟩ (sortDocuments ds)).2 ((sortDocuments ds).map (partOf t)) with
  | error e =>
    left
    obtain ⟨part, hpart, cause, rfl⟩ := relocateParts_error hrun
    obtain ⟨d, hd, hsame⟩ := hmem hpart
    exact ⟨d, hd, cause, by rw [assemble_eq, hrun, hsame]; rfl⟩
  | ok result =>
    right
    obtain ⟨definitions, s'⟩ := result
    obtain ⟨hadvances, hparts⟩ := relocateParts_answers ht hsource
      (fun part hpart => hproper _ (mem_inReach_of_part hpart)) (sane_of_seeded hseeded)
      hseeded.known hrun
    refine ⟨_, s'.sites, s'.cache, by rw [assemble_eq, hrun]; rfl, by rw [assemble_eq, hrun]; rfl,
      hadvances.sane.sound, fun doc reference hm => ?_⟩
    refine (answered_of_met hseeded hadvances hparts ht (?_ : Met t (knownFrom t ds) s'.sites
      (sortDocuments ds) doc reference)).resolves
    refine hm.imp_left ?_
    rintro ⟨d, hd, hdoc, hm⟩
    exact ⟨d, (List.mergeSort_perm ds _).mem_iff.mpr hd, hdoc, hm⟩

/-! ## References in two schemas -/

theorem references_resolved_person :
    ∃ c target, RefTarget.parse "../name.json" = .ok target ∧
      Resolves namesFolder c ⟨"s/person.schema.json"⟩ "../name.json" target := by
  have hrun : (ofDocuments namesFolder [person]).toOption.isSome = true := by decide +kernel
  obtain ⟨b, hb⟩ := Option.isSome_iff_exists.mp hrun
  have hok := toOption_eq_some.mp hb
  have hproper : ∀ v ∈ DocumentCache.inReach namesFolder (knownFrom namesFolder [person]),
      v.Proper := by decide +kernel
  rcases references_resolved (by decide +kernel) hproper with
    ⟨d, -, cause, herror⟩ | ⟨b', sites, c, -, -, -, hmet⟩
  · cases hok.symm.trans herror
  · have href : refText? (.object [("$ref", .string "../name.json"),
        ("properties", .object [("nick", .object [("type", .string "string")])])]) =
          some "../name.json" := by decide +kernel
    have hmember : Met namesFolder (knownFrom namesFolder [person]) sites [person]
        ⟨"s/person.schema.json"⟩ "../name.json" := by
      refine Or.inl ⟨person, List.mem_singleton_self _, by decide +kernel, ?_⟩
      refine .member (List.mem_singleton_self _) ?_
      exact .named (List.mem_cons_self ..) (.here href)
    obtain ⟨target, hparse, hresolves⟩ := hmet _ _ hmember
    refine ⟨c, target, hparse, hresolves.resolve_right ?_⟩
    rintro ⟨above, token, below, htokens, -⟩
    have hroot : (RefTarget.parse "../name.json").toOption.any (·.pointer.tokens.isEmpty) = true := by
      decide +kernel
    rw [hparse] at hroot
    have hnil : target.pointer.tokens = [] := List.isEmpty_iff.mp hroot
    rw [hnil] at htokens
    exact absurd htokens.symm (List.append_ne_nil_of_right_ne_nil _ (List.cons_ne_nil _ _))

/-- A schema that is but a reference to a definition that it does not have. -/
def undefinedName : SchemaDocument :=
  .ofPath ⟨"a.schema.json"⟩ (.object [("$ref", .string "#/$defs/Absent")])

/-- The bundle is made although the reference leads to no node of the schema. -/
theorem bundled_undefinedName :
    ∃ b sites, assemble namesFolder [undefinedName] = .ok ⟨b, sites⟩ ∧
      Met namesFolder (knownFrom namesFolder [undefinedName]) sites [undefinedName]
        ⟨"a.schema.json"⟩ "#/$defs/Absent" ∧
      ∃ target, RefTarget.parse "#/$defs/Absent" = .ok target ∧
        targetDocument namesFolder ⟨"a.schema.json"⟩ target = ⟨"a.schema.json"⟩ ∧
        undefinedName.value.at? target.pointer = none := by
  have hrun : (assemble namesFolder [undefinedName]).toOption.isSome = true := by decide +kernel
  obtain ⟨⟨b, sites⟩, ha⟩ := Option.isSome_iff_exists.mp hrun
  have hparse : (RefTarget.parse "#/$defs/Absent").toOption =
      some ⟨none, ⟨["$defs", "Absent"]⟩⟩ := by decide +kernel
  refine ⟨b, sites, toOption_eq_some.mp ha, Or.inl ⟨undefinedName, List.mem_singleton_self _, ?_, ?_⟩,
    _, toOption_eq_some.mp hparse, rfl, by decide +kernel⟩
  · decide +kernel
  · exact .here (by decide +kernel)

end SchemaBindings.Bundle
