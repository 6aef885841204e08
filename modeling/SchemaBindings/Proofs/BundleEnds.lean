import SchemaBindings.Proofs.BundleResolution
import SchemaBindings.Proofs.RelatedBundling

/-! # A bundling comes to an end

A run opens one target within another, and each has its place before its content
is gone through. So no target is opened twice, and there are fewer than the run
may open: the first thing that goes wrong is a reference that cannot be read or
leads to no node. The places tell what was copied: they are only added, each for
a node that stood nowhere, and a member's document stands somewhere from the
start. -/

namespace SchemaBindings

variable {σ α β : Type}

/-- A computation fails and leaves a state. -/
def Stops (act : ExceptT ResolveError (StateM σ) α) (s : σ) (e : ResolveError) (s' : σ) : Prop :=
  act.run s = (.error e, s')

namespace Stops

variable {act : ExceptT ResolveError (StateM σ) α} {s s' : σ} {e : ResolveError}

theorem bind {next : α → ExceptT ResolveError (StateM σ) β} (h : Stops (act >>= next) s e s') :
    Stops act s e s' ∨ ∃ a u, Runs act s a u ∧ Stops (next a) u e s' := by
  unfold Stops at h ⊢
  change (match act.run s with
    | (x, u) => ExceptT.bindCont next x u) = (.error e, s') at h
  cases hact : act.run s with
  | mk x u =>
    rw [hact] at h
    cases x with
    | error e' =>
      cases h
      exact .inl rfl
    | ok a => exact .inr ⟨a, u, hact, h⟩

theorem andThen {next : α → ExceptT ResolveError (StateM σ) β} {a : α} {u : σ}
    (h : Runs act s a u) (h' : Stops (next a) u e s') : Stops (act >>= next) s e s' :=
  h.run_bind.trans h'

theorem first {next : α → ExceptT ResolveError (StateM σ) β} (h : Stops act s e s') :
    Stops (act >>= next) s e s' := by
  unfold Stops at h ⊢
  change (match act.run s with
    | (x, u) => ExceptT.bindCont next x u) = (.error e, s')
  rw [h]
  rfl

theorem not_pure {a : α} : ¬ Stops (pure a : ExceptT ResolveError (StateM σ) α) s e s' :=
  fun h => by cases h

theorem map {f : α → β} (h : Stops (do return f (← act)) s e s') : Stops act s e s' := by
  rcases h.bind with h | ⟨_, _, _, h⟩
  · exact h
  · exact absurd h not_pure

theorem throw {e' : ResolveError}
    (h : Stops (throw e' : ExceptT ResolveError (StateM σ) α) s e s') : e = e' ∧ s' = s := by
  cases h
  exact ⟨rfl, rfl⟩

end Stops

/-- A computation comes to a result or fails. -/
theorem runs_or_stops (act : ExceptT ResolveError (StateM σ) α) (s : σ) :
    (∃ a s', Runs act s a s') ∨ ∃ e s', Stops act s e s' := by
  unfold Runs Stops
  rcases act.run s with ⟨_ | _, _⟩
  · exact .inr ⟨_, _, rfl⟩
  · exact .inl ⟨_, _, rfl⟩

namespace Bundle

open DocumentCache (Sound Within)
open Dereference (Chains Located Opened Points documentsInReach mem_documentsInReach)

variable {follow : Follow} {doc : Path}

/-! ## What a run keeps, and how it fails -/

/-- A condition on states that parts of a run keep, how they pass on, and what a failure on a
reference is. A failure after a part of a run is one of the whole. -/
structure Course (Ready : State → Prop) (Passes : State → State → Prop)
    (Fails : State → String → ResolveError → State → Prop) : Prop where
  refl : ∀ s, Ready s → Passes s s
  trans : ∀ s u s', Passes s u → Passes u s' → Passes s s'
  ready : ∀ s s', Ready s → Passes s s' → Ready s'
  fails : ∀ s u s' reference e, Passes s u → Fails u reference e s' → Fails s reference e s'

/-- A computation passes on, or fails on one of some references. -/
structure Treats (Ready : State → Prop) (Passes : State → State → Prop)
    (Fails : State → String → ResolveError → State → Prop) (refs : String → Prop)
    (act : BundleM α) : Prop where
  passes : ∀ {s a s'}, Ready s → Runs act s a s' → Passes s s'
  fails : ∀ {s e s'}, Ready s → Stops act s e s' → ∃ reference, refs reference ∧ Fails s reference e s'

section

variable {Ready : State → Prop} {Passes : State → State → Prop}
  {Fails : State → String → ResolveError → State → Prop} {refs refs' : String → Prop}

theorem treats_pure (hc : Course Ready Passes Fails) {a : α} :
    Treats Ready Passes Fails refs (pure a) where
  passes hs hrun := by
    obtain ⟨-, rfl⟩ := hrun.pure
    exact hc.refl _ hs
  fails _ hstop := absurd hstop Stops.not_pure

theorem Treats.imp {act : BundleM α} (h : Treats Ready Passes Fails refs act)
    (hrefs : ∀ reference, refs reference → refs' reference) :
    Treats Ready Passes Fails refs' act where
  passes := h.passes
  fails hs hstop := by
    obtain ⟨reference, hr, hf⟩ := h.fails hs hstop
    exact ⟨reference, hrefs reference hr, hf⟩

theorem treats_bind (hc : Course Ready Passes Fails) {act : BundleM α} {next : α → BundleM β}
    (h : Treats Ready Passes Fails refs act) (h' : ∀ a, Treats Ready Passes Fails refs (next a)) :
    Treats Ready Passes Fails refs (act >>= next) where
  passes hs hrun := by
    obtain ⟨a, u, hact, hnext⟩ := hrun.bind
    have hu := h.passes hs hact
    exact hc.trans _ _ _ hu ((h' a).passes (hc.ready _ _ hs hu) hnext)
  fails hs hstop := by
    rcases hstop.bind with hstop | ⟨a, u, hact, hstop⟩
    · exact h.fails hs hstop
    · have hu := h.passes hs hact
      obtain ⟨reference, hr, hf⟩ := (h' a).fails (hc.ready _ _ hs hu) hstop
      exact ⟨reference, hr, hc.fails _ _ _ _ _ hu hf⟩

theorem chains_treats (hc : Course Ready Passes Fails) :
    Chains BundleM fun {_} act _ => Treats Ready Passes Fails refs act where
  pure _ := treats_pure hc
  bind h h' := treats_bind hc h h'

/-- A run on a node does to states what following the references in it does. -/
theorem relocateNode_treats (hc : Course Ready Passes Fails) (v : Json)
    (hfollow : ∀ reference, Mentions .schema v reference → ∀ spot,
      Treats Ready Passes Fails refs (follow reference doc spot)) (here : Pointer) :
    Treats Ready Passes Fails refs (relocateNode follow doc here v) := by
  have hnode : NodeRelated (fun act _ => Treats Ready Passes Fails refs act) follow follow doc v :=
    relocateNode_related (chains_treats hc) v
  exact hnode hfollow here

end

/-! ## Following a reference -/

variable {t : FileTree} {known : DocumentCache} {reference : String} {spot : Pointer}

theorem withCache_stops {act : CacheM α} {s s' : State} {e : ResolveError}
    (h : Stops (withCache act) s e s') : ∃ c, Stops act s.cache e c ∧ s' = ⟨c, s.sites⟩ := by
  unfold withCache at h
  rcases h.bind with h | ⟨_, _, hget, h⟩
  · cases h
  cases hget
  cases hact : act.run s.cache with
  | mk result c =>
    rw [hact] at h
    dsimp only at h
    rcases h.bind with h | ⟨_, _, hset, h⟩
    · cases h
    cases hset
    cases result with
    | error e' =>
      obtain ⟨rfl, rfl⟩ := h.throw
      exact ⟨c, hact, rfl⟩
    | ok b => exact absurd h Stops.not_pure

theorem liftExcept_stops {result : Except ResolveError α} {c c' : DocumentCache} {e : ResolveError}
    (h : Stops (DocumentCache.resolve.liftExcept result) c e c') : result = .error e ∧ c' = c := by
  cases result with
  | error e' =>
    cases h
    exact ⟨rfl, rfl⟩
  | ok a => cases h

/-- Some documents being known, a reference cannot be read or leads to no node. -/
def Unresolvable (t : FileTree) (c : DocumentCache) (doc : Path) (reference : String)
    (e : ResolveError) : Prop :=
  RefTarget.parse reference = .error e ∨ ∃ target c', RefTarget.parse reference = .ok target ∧
    Stops (DocumentCache.resolve t reference doc target) c e c'

theorem followTarget_stops {target : RefTarget} {document : Path} {s s' : State} {e : ResolveError}
    (h : Stops (followTarget t follow reference doc spot target document) s e s') :
    site? s.sites document target.pointer = none ∧
    ((∃ c, Stops (DocumentCache.resolve t reference doc target) s.cache e c ∧ s' = ⟨c, s.sites⟩) ∨
      ∃ key node c, Runs (DocumentCache.resolve t reference doc target) s.cache (key, node) c ∧
        Stops (relocateNode follow document spot (goneThrough target node))
          ⟨c, ⟨document, target.pointer, spot⟩ :: s.sites⟩ e s') := by
  unfold followTarget at h
  rcases h.bind with h | ⟨_, _, hget, hrest⟩
  · cases h
  clear h
  cases hget
  cases hsite : site? s.sites document target.pointer with
  | some l =>
    rw [hsite] at hrest
    exact absurd hrest Stops.not_pure
  | none =>
    rw [hsite] at hrest
    refine ⟨rfl, ?_⟩
    rcases hrest.bind with hcache | ⟨⟨key, node⟩, u, hcache, hplace⟩
    · exact .inl (withCache_stops hcache)
    · obtain ⟨c, hresolve, rfl⟩ := withCache_runs hcache
      rcases hplace.bind with hmodify | ⟨_, _, hmodify, hcopied⟩
      · cases hmodify
      · cases hmodify
        exact .inr ⟨key, node, c, hresolve, hcopied.map⟩

/-- A file that is not located cannot be resolved. -/
theorem resolve_stops {c : DocumentCache} {target : RefTarget} {file : String} {e : ResolveError}
    (hfile : target.file? = some file)
    (h : DocumentCache.locate t c reference doc file = .error e) :
    Stops (DocumentCache.resolve t reference doc target) c e c := by
  unfold DocumentCache.resolve
  rw [hfile]
  refine Stops.andThen (a := c) rfl (Stops.first ?_)
  rw [h]
  rfl

/-- What is located stays where it is. -/
theorem locate_of_within {c c' : DocumentCache} (h : Within c c') {file : String} {p : Path}
    (hp : DocumentCache.locate t c reference doc file = .ok p) :
    DocumentCache.locate t c' reference doc file = .ok p := by
  unfold DocumentCache.locate at hp ⊢
  dsimp only at hp ⊢
  split at hp
  · exact hp
  · split at hp
    · rename_i hknown
      rw [if_pos (find?_isSome_of_within h hknown)]
      exact hp
    · cases hp

/-- A fetching that fails leaves sources known, and fails again with them. -/
theorem fetchNode_stopped {c c' : DocumentCache} (hc : Sound t known c) {p : Pointer} {key : Path}
    {e : ResolveError} (hkey : t.canonical? key = some key ∨ (c.find? key).isSome = true)
    (h : Stops (DocumentCache.fetchNode t reference p key) c e c') :
    Sound t known c' ∧ Within c c' ∧ Stops (DocumentCache.fetchNode t reference p key) c' e c' := by
  rcases h.bind with hstop | ⟨v, u, hrun, hrest⟩
  · have hsame : c' = c := by
      unfold DocumentCache.fetch at hstop
      rcases hstop.bind with hget | ⟨_, _, hget, hstop⟩
      · cases hget
      cases hget
      split at hstop
      · exact absurd hstop Stops.not_pure
      · split at hstop
        · exact hstop.throw.2
        · rcases hstop.bind with hput | ⟨_, _, -, hpure⟩
          · cases hput
          · exact absurd hpure Stops.not_pure
    subst hsame
    exact ⟨hc, fun _ _ h => h, h⟩
  · obtain ⟨hsound, hwithin, hfound⟩ := DocumentCache.fetch_runs hc hkey hrun
    cases hat : v.at? p with
    | some n =>
      rw [hat] at hrest
      exact absurd hrest Stops.not_pure
    | none =>
      rw [hat] at hrest
      obtain ⟨rfl, rfl⟩ := hrest.throw
      refine ⟨hsound, hwithin, Stops.andThen (DocumentCache.fetch_of_find? hfound) ?_⟩
      rw [hat]
      rfl

/-- What was not resolved cannot be resolved with the documents that are known then. -/
theorem resolve_stopped (ht : t.Real) {c c' : DocumentCache} (hc : Sound t known c)
    {target : RefTarget} {e : ResolveError} (hdoc : (c.find? doc).isSome = true)
    (h : Stops (DocumentCache.resolve t reference doc target) c e c') :
    Sound t known c' ∧ Within c c' ∧ Stops (DocumentCache.resolve t reference doc target) c' e c' := by
  unfold DocumentCache.resolve at h ⊢
  cases hfile : target.file? with
  | none =>
    rw [hfile] at h
    rcases h.bind with h | ⟨_, _, hkey, h⟩
    · exact absurd h Stops.not_pure
    cases hkey
    obtain ⟨hsound, hwithin, hagain⟩ := fetchNode_stopped hc (.inr hdoc) h
    exact ⟨hsound, hwithin, Stops.andThen (a := doc) rfl hagain⟩
  | some file =>
    rw [hfile] at h
    rcases h.bind with hget | ⟨_, _, hget, hrest⟩
    · cases hget
    clear h
    cases hget
    rcases hrest.bind with hlift | ⟨key, u, hlift, hfetch⟩
    · obtain ⟨hlocate, rfl⟩ := liftExcept_stops hlift
      exact ⟨hc, fun _ _ h => h, Stops.andThen (a := c') rfl (Stops.first (by rw [hlocate]; rfl))⟩
    · obtain ⟨hlocate, rfl⟩ := DocumentCache.liftExcept_runs hlift
      obtain ⟨-, -, hthere⟩ := DocumentCache.locate_eq_ok ht hlocate
      obtain ⟨hsound, hwithin, hagain⟩ := fetchNode_stopped hc hthere hfetch
      refine ⟨hsound, hwithin, Stops.andThen (a := c') rfl (Stops.andThen (a := key) (u := c') ?_ hagain)⟩
      rw [locate_of_within hwithin hlocate]
      rfl

/-- Following a reference fails because it cannot be resolved, or when its target is treated. -/
theorem followRef_stops (ht : t.Real) {depth : Nat} {s s' : State} {e : ResolveError}
    (h : Stops (followRef t (depth + 1) reference doc spot) s e s') :
    Unresolvable t s.cache doc reference e ∧ s' = s ∨
    ∃ target, RefTarget.parse reference = .ok target ∧
      Stops (followTarget t (followRef t depth) reference doc spot target
        (targetDocument t doc target)) s e s' := by
  rw [followRef_succ] at h
  rcases h.bind with h | ⟨target, u, hcache, hrest⟩
  · obtain ⟨c, hlift, rfl⟩ := withCache_stops h
    obtain ⟨hparse, rfl⟩ := liftExcept_stops hlift
    exact .inl ⟨.inl hparse, rfl⟩
  obtain ⟨c, hlift, rfl⟩ := withCache_runs hcache
  obtain ⟨hparse, rfl⟩ := DocumentCache.liftExcept_runs hlift
  cases hfile : target.file? with
  | none =>
    have hdocument : targetDocument t doc target = doc := by
      unfold targetDocument
      rw [hfile]
    rw [hfile] at hrest
    exact .inr ⟨target, hparse, hdocument.symm ▸ hrest⟩
  | some file =>
    have hdocument : targetDocument t doc target = documentKey t (doc.directory.join file) := by
      unfold targetDocument
      rw [hfile]
    rw [hfile] at hrest
    rcases hrest.bind with hlocated | ⟨document, u, hlocated, htarget⟩
    · obtain ⟨c, hwithin, rfl⟩ := withCache_stops hlocated
      rcases hwithin.bind with hget | ⟨_, _, hget, hlift⟩
      · cases hget
      cases hget
      obtain ⟨hlocate, rfl⟩ := liftExcept_stops hlift.map
      exact .inl ⟨.inr ⟨target, _, hparse, resolve_stops hfile hlocate⟩, rfl⟩
    · obtain ⟨c, hwithin, rfl⟩ := withCache_runs hlocated
      obtain ⟨_, _, hget, hlift⟩ := hwithin.bind
      cases hget
      obtain ⟨p, _, hp, hpure⟩ := hlift.bind
      obtain ⟨hlocate, rfl⟩ := DocumentCache.liftExcept_runs hp
      obtain ⟨rfl, rfl⟩ := hpure.pure
      obtain ⟨hkey, hself, -⟩ := DocumentCache.locate_eq_ok ht hlocate
      rw [hself, hkey] at htarget
      exact .inr ⟨target, hparse, hdocument.symm ▸ htarget⟩

/-! ## Places are only added -/

/-- Places are added one after the other, each for a node that stands nowhere yet. -/
inductive Inlines (sites : List Site) : List Site → Prop where
  | refl : Inlines sites sites
  | add {later : List Site} {x : Site} (h : Inlines sites later)
      (hnone : site? later x.document x.pointer = none) : Inlines sites (x :: later)

namespace Inlines

variable {sites later : List Site}

theorem trans {last : List Site} (h : Inlines sites later) (h' : Inlines later last) :
    Inlines sites last := by
  induction h' with
  | refl => exact h
  | add _ hnone ih => exact ih.add hnone

theorem grown (h : Inlines sites later) : Grown sites later := by
  induction h with
  | refl => exact .refl _
  | add _ hnone ih => exact ih.trans (.cons hnone)

theorem subset (h : Inlines sites later) : sites ⊆ later := by
  induction h with
  | refl => exact List.Subset.refl _
  | add _ _ ih => exact List.Subset.trans ih (List.subset_cons_self ..)

end Inlines

/-- A node that is placed stands somewhere. -/
theorem placeOf?_eq_none_of_site? {sites : List Site} {p : Pointer} (h : site? sites doc p = none) :
    placeOf? sites doc p = none := by
  cases hplace : placeOf? sites doc p with
  | none => rfl
  | some l =>
    rw [site?_of_placeOf? hplace] at h
    cases h

/-- A node that is placed keeps its place. -/
theorem Inlines.placeOf?_eq {sites later : List Site} (h : Inlines sites later) {p l : Pointer}
    (hl : placeOf? sites doc p = some l) : placeOf? later doc p = some l := by
  induction h with
  | refl => exact hl
  | @add later x _ hnone ih =>
    rw [placeOf?_cons, if_neg]
    · exact ih
    · rintro ⟨hdoc, rfl⟩
      rw [← placeOf?_same hdoc, placeOf?_eq_none_of_site? hnone] at ih
      cases ih

theorem course_inlines : Course (fun _ => True) (fun s s' => Inlines s.sites s'.sites)
    (fun s _ _ s' => Inlines s.sites s'.sites) where
  refl _ _ := .refl
  trans _ _ _ h h' := h.trans h'
  ready _ _ _ _ := trivial
  fails _ _ _ _ _ h h' := h.trans h'

/-- Following a reference only adds places, for nodes that stand nowhere, whether it fails or
not. -/
theorem followRef_inlines (ht : t.Real) (depth : Nat) (reference : String) (doc : Path)
    (spot : Pointer) : Treats (fun _ => True) (fun s s' => Inlines s.sites s'.sites)
      (fun s _ _ s' => Inlines s.sites s'.sites) (fun _ => True) (followRef t depth reference doc spot) := by
  induction depth generalizing reference doc spot with
  | zero =>
    refine ⟨fun _ hrun => absurd hrun Runs.not_throw, fun _ hstop => ?_⟩
    obtain ⟨-, rfl⟩ := hstop.throw
    exact ⟨reference, trivial, .refl⟩
  | succ depth ih =>
    have hnode (doc : Path) (spot : Pointer) (v : Json) := relocateNode_treats course_inlines v
      (fun reference _ spot => ih reference doc spot) spot
    refine ⟨fun {s outcome s'} _ hrun => ?_, fun {s e s'} _ hstop => ?_⟩
    · obtain ⟨target, -, hrun⟩ := followRef_runs ht hrun
      rcases followTarget_runs hrun with ⟨_, _, _, rfl⟩ | ⟨hnone, key, node, c, w, -, hw, -⟩
      · exact .refl
      · exact (Inlines.refl.add hnone).trans ((hnode _ _ _).passes trivial hw)
    · refine ⟨reference, trivial, ?_⟩
      rcases followRef_stops ht hstop with ⟨-, rfl⟩ | ⟨target, -, hstop⟩
      · exact .refl
      obtain ⟨hnone, ⟨c, -, rfl⟩ | ⟨key, node, c, -, hstop⟩⟩ := followTarget_stops hstop
      · exact .refl
      · obtain ⟨_, _, hinlines⟩ := (hnode _ _ _).fails trivial hstop
        exact (Inlines.refl.add hnone).trans hinlines

/-- A run on a node only adds places, whether it fails or not. -/
theorem relocateNode_inlines (ht : t.Real) {depth : Nat} {v : Json} {s s' : State} :
    (∀ w, Runs (relocateNode (followRef t depth) doc spot v) s w s' → Inlines s.sites s'.sites) ∧
      ∀ e, Stops (relocateNode (followRef t depth) doc spot v) s e s' → Inlines s.sites s'.sites := by
  have hnode := relocateNode_treats course_inlines v
    (fun reference _ spot => followRef_inlines ht depth reference doc spot) spot
  refine ⟨fun w hrun => hnode.passes trivial hrun, fun e hstop => ?_⟩
  obtain ⟨_, _, hinlines⟩ := hnode.fails trivial hstop
  exact hinlines

/-! ## Targets that are open -/

/-- A reference in a node that was copied in. -/
def CopiedIn (t : FileTree) (known : DocumentCache) (old sites : List Site) (doc : Path)
    (reference : String) : Prop :=
  ∃ x ∈ sites, x ∉ old ∧ x.document = doc ∧
    ∃ n, Original t known doc x.pointer n ∧ Mentions .schema n reference

/-- A failure on a reference: on itself, or on one in a node that was copied in. It cannot be resolved
with the documents that are known then. -/
def Faulty (t : FileTree) (known : DocumentCache) (old : List Site) (doc : Path)
    (_ : State) (reference : String) (e : ResolveError) (s' : State) : Prop :=
  ∃ doc' other, Sound t known s'.cache ∧ (s'.cache.find? doc').isSome = true ∧
    Unresolvable t s'.cache doc' other e ∧
    (doc' = doc ∧ other = reference ∨ CopiedIn t known old s'.sites doc' other)

/-- A state of a run on a document that was begun with some places. The open targets have theirs. -/
structure Underway (t : FileTree) (known : DocumentCache) (old : List Site) (doc : Path)
    (stack : List Target) (s : State) : Prop where
  sound : Sound t known s.cache
  found : (s.cache.find? doc).isSome = true
  inlines : Inlines old s.sites
  opened : ∀ frame ∈ stack, (placeOf? s.sites frame.document frame.pointer).isSome = true

/-- What a part of a run leaves. -/
structure Passed (t : FileTree) (known : DocumentCache) (s s' : State) : Prop where
  sound : Sound t known s'.cache
  within : Within s.cache s'.cache
  inlines : Inlines s.sites s'.sites

variable {old : List Site} {stack : List Target} {s s' : State}

theorem placeOf?_isSome_of_subset {sites later : List Site} {p : Pointer} (h : sites ⊆ later)
    (hp : (placeOf? sites doc p).isSome = true) : (placeOf? later doc p).isSome = true := by
  obtain ⟨x, hx, hdoc, hpointer⟩ := placeOf?_isSome.mp hp
  exact placeOf?_isSome.mpr ⟨x, h hx, hdoc, hpointer⟩

theorem Passed.trans {u : State} (h : Passed t known s u) (h' : Passed t known u s') :
    Passed t known s s' :=
  ⟨h'.sound, h.within.trans h'.within, h.inlines.trans h'.inlines⟩

theorem course_underway (t : FileTree) (known : DocumentCache) (old : List Site) (doc : Path)
    (stack : List Target) :
    Course (Underway t known old doc stack) (Passed t known) (Faulty t known old doc) where
  refl _ hs := ⟨hs.sound, fun _ _ h => h, .refl⟩
  trans _ _ _ h h' := h.trans h'
  ready _ _ hs h := {
    sound := h.sound
    found := find?_isSome_of_within h.within hs.found
    inlines := hs.inlines.trans h.inlines
    opened := fun frame hf => placeOf?_isSome_of_subset h.inlines.subset (hs.opened frame hf) }
  fails _ _ _ _ _ _ h := h

/-- What stands nowhere is none of the targets that are open. -/
theorem Underway.not_open (h : Underway t known old doc stack s) {x : Target}
    (hnone : site? s.sites x.document x.pointer = none) :
    ∀ frame ∈ stack, frame.same x = false := by
  intro frame hf
  rw [← Bool.not_eq_true]
  intro hsame
  obtain ⟨hdoc, hpointer⟩ := Target.same_iff.mp hsame
  have hplace := h.opened frame hf
  rw [placeOf?_same hdoc, hpointer, placeOf?_eq_none_of_site? hnone] at hplace
  cases hplace

theorem Mentions.of_goneThrough {target : RefTarget} {node : Json} (hv : node.Keyed)
    (h : Mentions .schema (goneThrough target node) reference) : Mentions .schema node reference := by
  unfold goneThrough at h
  split at h
  · exact Mentions.of_withoutRootKeywords hv h
  · exact h

/-- A target that stands nowhere is another one than those that are open, and is opened. -/
theorem Underway.resolved (ht : t.Real) (hsource : ∀ doc v, Source t known doc v → v.Keyed)
    {start : Path} {v : Json} {links : List (List PathStep × String)} {n : Json}
    (hs : Underway t known old doc stack s) (h : Opened t known start v stack links doc n)
    (hm : Mentions .schema n reference) {target : RefTarget}
    (hparse : RefTarget.parse reference = .ok target) {x : Site}
    (hx : x = ⟨targetDocument t doc target, target.pointer, spot⟩)
    (hnone : site? s.sites x.document x.pointer = none) {key : Path} {node : Json}
    {c : DocumentCache}
    (hresolve : Runs (DocumentCache.resolve t reference doc target) s.cache (key, node) c) :
    Opened t known start v (stack ++ [⟨x.document, x.pointer⟩]) (links ++ [(doc.steps, reference)])
        x.document node ∧
      node.Keyed ∧ Original t known x.document x.pointer (goneThrough target node) ∧
      Passed t known s ⟨c, x :: s.sites⟩ ∧
      Underway t known old x.document (stack ++ [⟨x.document, x.pointer⟩]) ⟨c, x :: s.sites⟩ := by
  obtain ⟨rfl, hsound, hwithin, whole, hfound, hnode⟩ :=
    DocumentCache.resolve_runs ht hs.sound hs.found hresolve
  subst hx
  have hwhole := hsound.source _ _ hfound
  refine ⟨h.more hm ⟨target, whole, hparse, rfl, hwhole, hnode⟩ (hs.not_open hnone),
    (hsource _ _ hwhole).of_mem (Json.at?_mem_nodes hnode), ⟨whole, node, hwhole, hnode, rfl⟩,
    ⟨hsound, hwithin, .add .refl hnone⟩, hsound, by rw [hfound]; rfl, hs.inlines.add hnone, ?_⟩
  intro frame hf
  rcases List.mem_append.mp hf with hf | hf
  · exact placeOf?_isSome_of_subset (List.subset_cons_self ..) (hs.opened frame hf)
  · rw [List.mem_singleton.mp hf]
    exact placeOf?_isSome.mpr ⟨_, List.mem_cons_self .., rfl, rfl⟩

/-- What stands nowhere has no place from the start. -/
theorem Underway.not_mem_old (hs : Underway t known old doc stack s) {x : Site}
    (hnone : site? s.sites x.document x.pointer = none) : x ∉ old := by
  intro hx
  have hplace := placeOf?_isSome.mpr ⟨x, hs.inlines.subset hx, rfl, rfl⟩
  rw [placeOf?_eq_none_of_site? hnone] at hplace
  cases hplace

/-- Within the targets that are open, a reference is followed to the end, or some reference cannot be
resolved: one more target is opened, and there are fewer than may be. -/
theorem followRef_treats (ht : t.Real) (hsource : ∀ doc v, Source t known doc v → v.Keyed)
    {start : Path} {v : Json} (hv : (start.steps, v) ∈ documentsInReach t known) {depth : Nat}
    {links : List (List PathStep × String)} {n : Json} (h : Opened t known start v stack links doc n)
    (hdepth : depth + stack.length = known.allowance t) (hm : Mentions .schema n reference)
    (spot : Pointer) : Treats (Underway t known old doc stack) (Passed t known)
      (Faulty t known old doc) (· = reference) (followRef t depth reference doc spot) := by
  induction depth generalizing stack links doc n reference spot with
  | zero =>
    have hlt := h.length_lt ht hv
    omega
  | succ depth ih =>
    have hnode {x : Site} {m node : Json}
        (hopened : Opened t known start v (stack ++ [⟨x.document, x.pointer⟩])
          (links ++ [(doc.steps, reference)]) x.document m)
        (hmentions : ∀ other, Mentions .schema node other → Mentions .schema m other) :
        Treats (Underway t known old x.document (stack ++ [⟨x.document, x.pointer⟩]))
          (Passed t known) (Faulty t known old x.document) (Mentions .schema node)
          (relocateNode (followRef t depth) x.document spot node) := by
      refine relocateNode_treats (course_underway ..) node (fun other hother spot => ?_) spot
      refine (ih hopened ?_ (hmentions other hother) spot).imp fun _ heq => heq ▸ hother
      rw [List.length_append, List.length_singleton]
      omega
    refine ⟨fun {s outcome s'} hs hrun => ?_, fun {s e s'} hs hstop => ⟨reference, rfl, ?_⟩⟩
    · obtain ⟨target, hparse, hrun⟩ := followRef_runs ht hrun
      rcases followTarget_runs hrun with ⟨_, _, _, rfl⟩ | ⟨hnone, key, node, c, w, hresolve, hw, -⟩
      · exact (course_underway ..).refl _ hs
      · obtain ⟨hopened, hkeyed, -, hpassed, hunder⟩ :=
          hs.resolved ht hsource h hm hparse rfl hnone hresolve
        exact hpassed.trans ((hnode hopened fun _ => Mentions.of_goneThrough hkeyed).passes hunder hw)
    · rcases followRef_stops ht hstop with ⟨hunresolvable, rfl⟩ | ⟨target, hparse, hstop⟩
      · exact ⟨doc, reference, hs.sound, hs.found, hunresolvable, .inl ⟨rfl, rfl⟩⟩
      obtain ⟨hnone, ⟨c, hfails, rfl⟩ | ⟨key, node, c, hresolve, hfails⟩⟩ :=
        followTarget_stops hstop
      · obtain ⟨hsound, hwithin, hagain⟩ := resolve_stopped ht hs.sound hs.found hfails
        exact ⟨doc, reference, hsound, find?_isSome_of_within hwithin hs.found,
          .inr ⟨target, c, hparse, hagain⟩, .inl ⟨rfl, rfl⟩⟩
      · obtain ⟨hopened, hkeyed, horiginal, -, hunder⟩ :=
          hs.resolved ht hsource h hm hparse rfl hnone hresolve
        obtain ⟨other, hother, doc', blamed, hsound, hfound, hunresolvable, hwhere⟩ :=
          (hnode hopened fun _ => Mentions.of_goneThrough hkeyed).fails hunder hfails
        refine ⟨doc', blamed, hsound, hfound, hunresolvable, .inr ?_⟩
        rcases hwhere with ⟨rfl, rfl⟩ | hcopied
        · exact ⟨_, ((relocateNode_inlines ht).2 e hfails).subset (List.mem_cons_self ..),
            hs.not_mem_old hnone, rfl, _, horiginal, hother⟩
        · exact hcopied

/-! ## What cannot be resolved -/

/-- Whether an error is one of a single reference: it does not lead back to where it came from, and is
not nested too deeply. -/
def isOwnError : ResolveError → Bool
  | .cycle _ => false
  | .exhausted _ => false
  | _ => true

theorem parse_isOwnError {e : ResolveError} (h : RefTarget.parse reference = .error e) :
    isOwnError e = true := by
  unfold RefTarget.parse at h
  split at h
  · cases h
    rfl
  · dsimp only at h
    split at h
    · cases h
    · split at h
      · cases h
        rfl
      · split at h
        · cases h
        · cases h
          rfl

theorem locate_isOwnError {c : DocumentCache} {file : String} {e : ResolveError}
    (h : DocumentCache.locate t c reference doc file = .error e) : isOwnError e = true := by
  unfold DocumentCache.locate at h
  dsimp only at h
  split at h
  · cases h
  · split at h
    · cases h
    · cases h
      rfl

theorem fetchNode_isOwnError {p : Pointer} {key : Path} {c c' : DocumentCache} {e : ResolveError}
    (h : Stops (DocumentCache.fetchNode t reference p key) c e c') : isOwnError e = true := by
  unfold DocumentCache.fetchNode DocumentCache.fetch at h
  rcases h.bind with h | ⟨v, u, -, h⟩
  · rcases h.bind with h | ⟨known, u, -, h⟩
    · cases h
    · split at h
      · exact absurd h Stops.not_pure
      · split at h
        · obtain ⟨rfl, -⟩ := h.throw
          rfl
        · rcases h.bind with h | ⟨_, _, -, h⟩
          · cases h
          · exact absurd h Stops.not_pure
  · split at h
    · exact absurd h Stops.not_pure
    · obtain ⟨rfl, -⟩ := h.throw
      rfl

theorem Unresolvable.isOwnError {c : DocumentCache} {e : ResolveError}
    (h : Unresolvable t c doc reference e) : isOwnError e = true := by
  rcases h with h | ⟨target, c', -, h⟩
  · exact parse_isOwnError h
  · unfold DocumentCache.resolve at h
    cases hfile : target.file? with
    | none =>
      rw [hfile] at h
      rcases h.bind with h | ⟨_, _, -, h⟩
      · exact absurd h Stops.not_pure
      · exact fetchNode_isOwnError h
    | some file =>
      rw [hfile] at h
      rcases h.bind with h | ⟨_, _, -, h⟩
      · cases h
      · rcases h.bind with h | ⟨_, _, -, h⟩
        · exact locate_isOwnError (liftExcept_stops h).1
        · exact fetchNode_isOwnError h

/-- A reference that is located and leads to a node can be resolved, whatever else is known. -/
theorem not_unresolvable (ht : t.Real) (hlocated : Located t known doc reference)
    (hp : ∃ x n, Points t known doc reference x n) {c : DocumentCache} (hc : Sound t known c)
    (hdoc : (c.find? doc).isSome = true) (e : ResolveError) : ¬ Unresolvable t c doc reference e := by
  obtain ⟨x, n, target, v, hparse, rfl, hv, hn⟩ := hp
  rintro (h | ⟨target', c', hparse', hstop⟩)
  · cases hparse.symm.trans h
  · cases hparse.symm.trans hparse'
    obtain ⟨c'', hrun, -⟩ := Dereference.resolve_ends ht hlocated hparse hv hn hc hdoc
    unfold Runs at hrun
    unfold Stops at hstop
    rw [hrun] at hstop
    cases hstop

/-! ## Whole bundles -/

/-- No two of the places that were added are for one node, and none is for a node that stood somewhere
before. -/
theorem Inlines.exists_new {sites later : List Site} (h : Inlines sites later) :
    ∃ new, later = new ++ sites ∧
      new.Pairwise (fun x y => ¬ (x.document.steps = y.document.steps ∧ x.pointer = y.pointer)) ∧
      ∀ x ∈ new, site? sites x.document x.pointer = none := by
  induction h with
  | refl => exact ⟨[], rfl, .nil, fun _ hx => absurd hx List.not_mem_nil⟩
  | @add later x h hnone ih =>
    obtain ⟨new, rfl, hpairwise, hnew⟩ := ih
    refine ⟨x :: new, rfl, List.pairwise_cons.mpr ⟨fun y hy hsame => ?_, hpairwise⟩, fun y hy => ?_⟩
    · have hplace := placeOf?_isSome.mpr
        ⟨y, List.mem_append_left sites hy, hsame.1.symm, hsame.2.symm⟩
      rw [placeOf?_eq_none_of_site? hnone] at hplace
      cases hplace
    · rcases List.mem_cons.mp hy with rfl | hy
      · rw [Option.eq_none_iff_forall_ne_some]
        intro l hl
        rw [h.grown _ _ _ hl] at hnone
        cases hnone
      · exact hnew y hy

/-- The state in which a bundling begins. -/
def begun (t : FileTree) (ds : List SchemaDocument) : State :=
  (enterAll t ⟨.empty, []⟩ (sortDocuments ds)).2

/-- What a bundling does for one of its parts. -/
def partRun (t : FileTree) (ds : List SchemaDocument) (part : Part) : BundleM Json :=
  relocateNode (followRef t ((knownFrom t ds).allowance t)) part.document part.member.location
    (withoutRootKeywords part.source.value)

/-- A bundling comes to one of its parts, and does not fail before it. The states are those before and
after the part, whose own run may fail. -/
structure Comes (t : FileTree) (ds : List SchemaDocument) (part : Part) (s s' : State) : Prop where
  before : ∃ earlier later definitions, (sortDocuments ds).map (partOf t) = earlier ++ part :: later ∧
    relocateParts t ((knownFrom t ds).allowance t) (begun t ds) earlier = .ok (definitions, s)
  after : ((partRun t ds part).run s).2 = s'

/-- A reference that a bundling comes to: in one of its parts, or in a node that was copied in until
that part was gone through. -/
def Meets (t : FileTree) (ds : List SchemaDocument) (doc : Path) (reference : String) : Prop :=
  ∃ part s s', Comes t ds part s s' ∧
    (doc = part.document ∧ Mentions .schema (withoutRootKeywords part.source.value) reference ∨
      CopiedIn t (knownFrom t ds) (begun t ds).sites s'.sites doc reference)

/-- Some nodes were copied in, no two of them the same and none of a document of the bundle. -/
def CopiedOnce (t : FileTree) (ds : List SchemaDocument) (sites : List Site) : Prop :=
  ∃ copies, sites = copies ++ (begun t ds).sites ∧
    copies.Pairwise (fun x y => ¬ (x.document.steps = y.document.steps ∧ x.pointer = y.pointer)) ∧
    ∀ x ∈ copies, ∀ d ∈ ds, x.document.steps ≠ (documentKey t d.path).steps

theorem copiedOnce_of_inlines {ds : List SchemaDocument} {sites : List Site}
    (h : Inlines (begun t ds).sites sites) : CopiedOnce t ds sites := by
  obtain ⟨copies, hsites, hpairwise, hnew⟩ := h.exists_new
  refine ⟨copies, hsites, hpairwise, fun x hx d hd hsteps => ?_⟩
  have hroot : (placeOf? (begun t ds).sites x.document .root).isSome = true := by
    refine placeOf?_isSome.mpr ⟨⟨documentKey t d.path, .root, (BundleMember.ofFile d.fileName).location⟩,
      ?_, hsteps.symm, rfl⟩
    rw [begun, enterAll_eq]
    exact List.mem_append_left _
      (List.mem_reverse.mpr (List.mem_map_of_mem (List.mem_mergeSort.mpr hd)))
  have hsome := site?_isSome_of_root hroot x.pointer
  rw [hnew x hx] at hsome
  cases hsome

theorem mem_documentsInReach_of_part {ds : List SchemaDocument} {part : Part}
    (h : part ∈ (sortDocuments ds).map (partOf t)) :
    (part.document.steps, part.source.value) ∈ documentsInReach t (knownFrom t ds) := by
  obtain ⟨d, hd, rfl⟩ := List.mem_map.mp h
  unfold documentsInReach
  rw [documents_knownFrom]
  exact List.mem_append_left _ (List.mem_reverse.mpr (List.mem_map.mpr ⟨d, hd, rfl⟩))

/-- A part of a bundle is gone through to the end, or some reference cannot be resolved. -/
theorem partRun_treats (ht : t.Real) {ds : List SchemaDocument}
    (hkeyed : ∀ v ∈ DocumentCache.inReach t (knownFrom t ds), v.Keyed) {part : Part}
    (hpart : part ∈ (sortDocuments ds).map (partOf t)) :
    Treats (Underway t (knownFrom t ds) old part.document []) (Passed t (knownFrom t ds))
      (Faulty t (knownFrom t ds) old part.document)
      (Mentions .schema (withoutRootKeywords part.source.value)) (partRun t ds part) := by
  refine relocateNode_treats (course_underway ..) _ (fun reference hm spot => ?_) _
  have hmentions := Mentions.of_withoutRootKeywords
    (hkeyed _ (mem_inReach_of_part hpart)) hm
  exact (followRef_treats ht (fun doc v hv => hkeyed v hv.mem_inReach)
    (mem_documentsInReach_of_part hpart) .none rfl hmentions spot).imp fun _ heq => heq ▸ hm

/-- Parts are gone through one after the other, up to the first that fails. -/
theorem relocateParts_runs_or_stops (t : FileTree) (depth : Nat) (s : State) (parts : List Part) :
    (∃ definitions s', relocateParts t depth s parts = .ok (definitions, s')) ∨
    ∃ earlier part later definitions u e s', parts = earlier ++ part :: later ∧
      relocateParts t depth s earlier = .ok (definitions, u) ∧
      Stops (relocateNode (followRef t depth) part.document part.member.location
        (withoutRootKeywords part.source.value)) u e s' ∧
      relocateParts t depth s parts = .error (.unresolved part.source.fileName e) := by
  induction parts generalizing s with
  | nil => exact .inl ⟨_, _, rfl⟩
  | cons part parts ih =>
    have hpart := runs_or_stops (relocateNode (followRef t depth) part.document part.member.location
      (withoutRootKeywords part.source.value)) s
    rcases hpart with ⟨w, u, hrun⟩ | ⟨e, s', hstop⟩
    · rcases ih u with ⟨definitions, s', hok⟩ | ⟨earlier, failing, later, definitions, u', e, s', rfl,
        hok, hstop, herror⟩
      · refine .inl ⟨(part.member.key, w) :: definitions, s', ?_⟩
        rw [relocateParts, hrun]
        dsimp only
        rw [hok]
      · refine .inr ⟨part :: earlier, failing, later, (part.member.key, w) :: definitions, u', e, s',
          rfl, ?_, hstop, ?_⟩
        · rw [relocateParts, hrun]
          dsimp only
          rw [hok]
        · rw [relocateParts, hrun]
          dsimp only
          rw [herror]
    · refine .inr ⟨[], part, parts, [], s, e, s', rfl, rfl, hstop, ?_⟩
      rw [relocateParts, hstop]

theorem relocateParts_passes {depth : Nat} {parts : List Part} {s s' : State} {definitions : Members}
    (hs : Sound t known s.cache)
    (hfound : ∀ part ∈ parts, (s.cache.find? part.document).isSome = true)
    (hinlines : Inlines old s.sites)
    (hparts : ∀ part ∈ parts, ∀ s w s', Underway t known old part.document [] s →
      Runs (relocateNode (followRef t depth) part.document part.member.location
        (withoutRootKeywords part.source.value)) s w s' → Passed t known s s')
    (hrun : relocateParts t depth s parts = .ok (definitions, s')) : Passed t known s s' := by
  induction parts generalizing s definitions with
  | nil =>
    cases hrun
    exact ⟨hs, fun _ _ h => h, .refl⟩
  | cons part parts ih =>
    rw [relocateParts] at hrun
    split at hrun
    · cases hrun
    · rename_i w u hw
      split at hrun
      · cases hrun
      · rename_i ws u' hws
        cases hrun
        have hfirst := hparts part (List.mem_cons_self ..) s w u
          ⟨hs, hfound part (List.mem_cons_self ..), hinlines, fun _ hf => absurd hf List.not_mem_nil⟩ hw
        refine hfirst.trans (ih hfirst.sound (fun p hp => ?_) (hinlines.trans hfirst.inlines)
          (fun p hp => hparts p (List.mem_cons_of_mem _ hp)) hws)
        exact find?_isSome_of_within hfirst.within (hfound p (List.mem_cons_of_mem _ hp))

/-- What a bundling has done when it comes to a part, or to its end. -/
theorem passed_of_relocateParts (ht : t.Real) {ds : List SchemaDocument}
    (hkeyed : ∀ v ∈ DocumentCache.inReach t (knownFrom t ds), v.Keyed) {parts : List Part}
    (hparts : ∀ part ∈ parts, part ∈ (sortDocuments ds).map (partOf t)) {definitions : Members}
    (hrun : relocateParts t ((knownFrom t ds).allowance t) (begun t ds) parts =
      .ok (definitions, s)) : Passed t (knownFrom t ds) (begun t ds) s := by
  refine relocateParts_passes (Sound.refl t (knownFrom t ds)) (fun part hp => (seeded_knownFrom t ds).known part (hparts part hp))
    .refl (fun part hp s w s' hs hw => ?_) hrun
  exact (partRun_treats ht hkeyed (hparts part hp)).passes hs hw

/-- A bundling that comes to a part is under way there. -/
theorem Comes.underway (ht : t.Real) {ds : List SchemaDocument}
    (hkeyed : ∀ v ∈ DocumentCache.inReach t (knownFrom t ds), v.Keyed) {part : Part}
    (h : Comes t ds part s s') : part ∈ (sortDocuments ds).map (partOf t) ∧
      Underway t (knownFrom t ds) (begun t ds).sites part.document [] s := by
  obtain ⟨earlier, later, definitions, hsplit, hrun⟩ := h.before
  have hmem : part ∈ (sortDocuments ds).map (partOf t) := by
    rw [hsplit]
    exact List.mem_append_right _ (List.mem_cons_self ..)
  have hpassed := passed_of_relocateParts ht hkeyed (fun p hp => by
    rw [hsplit]
    exact List.mem_append_left _ hp) hrun
  have hfound := (seeded_knownFrom t ds).known part hmem
  exact ⟨hmem, hpassed.sound, find?_isSome_of_within hpassed.within hfound, hpassed.inlines,
    fun _ hf => absurd hf List.not_mem_nil⟩

/-- Whether the run on a part fails or not, it copies each node once. -/
theorem Comes.copiedOnce (ht : t.Real) {ds : List SchemaDocument}
    (hkeyed : ∀ v ∈ DocumentCache.inReach t (knownFrom t ds), v.Keyed) {part : Part}
    (h : Comes t ds part s s') : CopiedOnce t ds s'.sites := by
  obtain ⟨-, hunder⟩ := h.underway ht hkeyed
  have hafter := h.after
  refine copiedOnce_of_inlines (hunder.inlines.trans ?_)
  rcases runs_or_stops (partRun t ds part) s with ⟨w, u, hrun⟩ | ⟨e, u, hstop⟩
  · rw [hrun] at hafter
    subst hafter
    exact (relocateNode_inlines ht).1 w hrun
  · rw [hstop] at hafter
    subst hafter
    exact (relocateNode_inlines ht).2 e hstop

/-- A bundling comes to an end, whatever leads back to where it came from: every schema is there, or a
reference that it met cannot be resolved. -/
theorem assemble_ends_or_unresolvable (ht : t.Real) {ds : List SchemaDocument}
    (hkeyed : ∀ v ∈ DocumentCache.inReach t (knownFrom t ds), v.Keyed) :
    (∃ a, assemble t ds = .ok a) ∨
    ∃ d ∈ ds, ∃ s s' e doc reference, Comes t ds (partOf t d) s s' ∧
      assemble t ds = .error (.unresolved d.fileName e) ∧ isOwnError e = true ∧
      Meets t ds doc reference ∧ Sound t (knownFrom t ds) s'.cache ∧
      (s'.cache.find? doc).isSome = true ∧ Unresolvable t s'.cache doc reference e := by
  rcases relocateParts_runs_or_stops t ((knownFrom t ds).allowance t) (begun t ds)
    ((sortDocuments ds).map (partOf t)) with ⟨definitions, s', hok⟩ | ⟨earlier, part, later, definitions,
      s, e, s', hsplit, hok, hstop, herror⟩
  · left
    unfold begun at hok
    rw [assemble_eq, hok]
    exact ⟨_, rfl⟩
  · have hcomes : Comes t ds part s s' :=
      ⟨⟨earlier, later, definitions, hsplit, hok⟩, congrArg Prod.snd hstop⟩
    obtain ⟨hmem, hunder⟩ := hcomes.underway ht hkeyed
    obtain ⟨reference, hm, doc, other, hsound, hfound, hunresolvable, hwhere⟩ :=
      (partRun_treats ht hkeyed hmem).fails hunder hstop
    obtain ⟨d, hd, rfl⟩ := List.mem_map.mp hmem
    refine .inr ⟨d, List.mem_mergeSort.mp hd, s, s', e, doc, other, hcomes, ?_,
      hunresolvable.isOwnError, ⟨partOf t d, s, s', hcomes, ?_⟩, hsound, hfound, hunresolvable⟩
    · unfold begun at herror
      rw [assemble_eq, herror]
      rfl
    · exact hwhere.imp_left fun ⟨hdoc, href⟩ => ⟨hdoc, href ▸ hm⟩

/-- A reference is found to stand somewhere and nothing changes, or its target, which stood nowhere, is
copied in and gets the first of the places that are added. -/
theorem followRef_copies (ht : t.Real) {depth : Nat} {outcome : Outcome}
    (h : Runs (followRef t depth reference doc spot) s outcome s') :
    (∃ l, outcome = .placed l ∧ s' = s) ∨
    ∃ target w, RefTarget.parse reference = .ok target ∧ outcome = .copied w ∧
      site? s.sites (targetDocument t doc target) target.pointer = none ∧
      Inlines (⟨targetDocument t doc target, target.pointer, spot⟩ :: s.sites) s'.sites := by
  cases depth with
  | zero => exact absurd h Runs.not_throw
  | succ depth =>
    obtain ⟨target, hparse, hrun⟩ := followRef_runs ht h
    rcases followTarget_runs hrun with ⟨l, -, rfl, rfl⟩ | ⟨hnone, key, node, c, w, -, hw, rfl⟩
    · exact .inl ⟨l, rfl, rfl⟩
    · exact .inr ⟨target, w, hparse, rfl, hnone, (relocateNode_inlines ht).1 w hw⟩

/-- A bundling comes to an end. It fails only on a reference that it met and that cannot be resolved, and
so never because something leads back to where it came from. No node is copied in twice, whether it
fails or not. -/
theorem assemble_ends (ht : t.Real) (ds : List SchemaDocument)
    (hproper : ∀ v ∈ DocumentCache.inReach t (knownFrom t ds), v.Proper) :
    ((∃ a, assemble t ds = .ok a) ∨
      ∃ d ∈ ds, ∃ s s' e doc reference, Comes t ds (partOf t d) s s' ∧
        assemble t ds = .error (.unresolved d.fileName e) ∧ isOwnError e = true ∧
        Meets t ds doc reference ∧ Sound t (knownFrom t ds) s'.cache ∧
        (s'.cache.find? doc).isSome = true ∧ Unresolvable t s'.cache doc reference e) ∧
    ((∀ doc reference, Meets t ds doc reference →
        Located t (knownFrom t ds) doc reference ∧ ∃ x n, Points t (knownFrom t ds) doc reference x n) →
      ∃ a, assemble t ds = .ok a) ∧
    (∀ a, assemble t ds = .ok a → CopiedOnce t ds a.sites) ∧
    (∀ part s s', Comes t ds part s s' → CopiedOnce t ds s'.sites) ∧
    ∀ depth reference doc spot s outcome s', Runs (followRef t depth reference doc spot) s outcome s' →
      (∃ l, outcome = .placed l ∧ s' = s) ∨
      ∃ target w, RefTarget.parse reference = .ok target ∧ outcome = .copied w ∧
        site? s.sites (targetDocument t doc target) target.pointer = none ∧
        Inlines (⟨targetDocument t doc target, target.pointer, spot⟩ :: s.sites) s'.sites := by
  have hkeyed : ∀ v ∈ DocumentCache.inReach t (knownFrom t ds), v.Keyed :=
    fun v hv => (hproper v hv).keyed
  have hends := assemble_ends_or_unresolvable ht hkeyed
  refine ⟨hends, fun hmeets => ?_, fun a ha => ?_, fun part s s' hcomes => hcomes.copiedOnce ht hkeyed,
    fun _ _ _ _ _ _ _ hrun => followRef_copies ht hrun⟩
  · rcases hends with hok | ⟨d, -, s, s', e, doc, reference, -, -, -, hmet, hsound, hfound, hunresolvable⟩
    · exact hok
    · obtain ⟨hlocated, hpoints⟩ := hmeets doc reference hmet
      exact absurd hunresolvable (not_unresolvable ht hlocated hpoints hsound hfound e)
  · obtain ⟨definitions, s', hrun, -, hsites⟩ := assemble_eq_ok ha
    rw [hsites]
    exact copiedOnce_of_inlines (passed_of_relocateParts ht hkeyed (fun _ hp => hp) hrun).inlines

/-! ## Files that lead back to each other -/

/-- A disk with two files that refer to each other, and one of them to itself. -/
def circle : FileTree where
  entries := [
    ([.text "x.json"], .file (.text "\x7b\"anyOf\": [\x7b\"$ref\": \"y.json\"\x7d, \x7b\"$ref\": \"#\"\x7d]\x7d")),
    ([.text "y.json"], .file (.text "\x7b\"$ref\": \"x.json\"\x7d"))]
  workingPlace := []

/-- A schema that is one of the two files. -/
def intoCircle : SchemaDocument :=
  .ofPath ⟨"a.schema.json"⟩ (.object [("$ref", .string "x.json")])

/-- The bundle is made, and each of the two files is copied in once. -/
theorem assemble_ends_circle : ∃ a, assemble circle [intoCircle] = .ok a ∧ a.sites.length = 3 ∧
    CopiedOnce circle [intoCircle] a.sites := by
  have hrun : (assemble circle [intoCircle]).toOption.any (fun a => decide (a.sites.length = 3)) =
      true := by decide +kernel
  obtain ⟨a, hsome, hlength⟩ := (Option.any_eq_true _ _).mp hrun
  have ha := toOption_eq_some.mp hsome
  exact ⟨a, ha, of_decide_eq_true hlength,
    (assemble_ends (by decide +kernel) [intoCircle] (by decide +kernel)).2.2.1 a ha⟩

end Bundle

end SchemaBindings
