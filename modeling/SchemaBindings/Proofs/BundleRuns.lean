import SchemaBindings.Proofs.BundleForms
import SchemaBindings.Proofs.BundlePlaces
import SchemaBindings.Proofs.RealTrees

/-! # What a run of the bundling leaves

A run on a node that is to stand at a place leaves its form, and places below
that place for the nodes that were copied on the way, each with its own form
there. `Settles` says so of any part of a run, and parts are put together
member by member and item by item. Documents that are known stay known, and are
those that were given or what the disk holds. -/

namespace SchemaBindings

variable {σ α β : Type}

/-- A computation that may fail comes to a result and a state. -/
def Runs (act : ExceptT ResolveError (StateM σ) α) (s : σ) (a : α) (s' : σ) : Prop :=
  act.run s = (.ok a, s')

namespace Runs

variable {act : ExceptT ResolveError (StateM σ) α} {s s' : σ}

theorem bind {next : α → ExceptT ResolveError (StateM σ) β} {b : β}
    (h : Runs (act >>= next) s b s') : ∃ a u, Runs act s a u ∧ Runs (next a) u b s' := by
  unfold Runs at h ⊢
  change (match act.run s with
    | (x, u) => ExceptT.bindCont next x u) = (.ok b, s') at h
  cases hact : act.run s with
  | mk x u =>
    rw [hact] at h
    cases x with
    | error e => cases h
    | ok a => exact ⟨a, u, rfl, h⟩

theorem run_bind {next : α → ExceptT ResolveError (StateM σ) β} {a : α} {u : σ}
    (h : Runs act s a u) : (act >>= next).run s = (next a).run u := by
  unfold Runs at h
  change (match act.run s with
    | (x, u) => ExceptT.bindCont next x u) = (next a).run u
  rw [h]
  rfl

theorem andThen {next : α → ExceptT ResolveError (StateM σ) β} {a : α} {b : β} {u : σ}
    (h : Runs act s a u) (h' : Runs (next a) u b s') : Runs (act >>= next) s b s' :=
  h.run_bind.trans h'

theorem pure {a b : α} (h : Runs (Pure.pure a : ExceptT ResolveError (StateM σ) α) s b s') :
    b = a ∧ s' = s := by
  cases h
  exact ⟨rfl, rfl⟩

theorem not_throw {e : ResolveError} {a : α} :
    ¬ Runs (throw e : ExceptT ResolveError (StateM σ) α) s a s' := fun h => by cases h

end Runs

namespace DocumentCache

/-- What is known: all that was known from the start, and nothing but sources. -/
structure Sound (t : FileTree) (known c : DocumentCache) : Prop where
  kept : ∀ doc v, known.find? doc = some v → c.find? doc = some v
  source : ∀ doc v, c.find? doc = some v → Bundle.Source t known doc v

/-- What is known stays known. -/
def Within (c c' : DocumentCache) : Prop := ∀ doc v, c.find? doc = some v → c'.find? doc = some v

variable {t : FileTree} {known c c' : DocumentCache} {reference : String}

theorem Within.trans {c'' : DocumentCache} (h : Within c c') (h' : Within c' c'') : Within c c'' :=
  fun doc v hv => h' doc v (h doc v hv)

theorem find?_congr (c : DocumentCache) {p q : Path} (h : p.steps = q.steps) :
    c.find? p = c.find? q := by
  unfold find?
  rw [h]

theorem find?_put (c : DocumentCache) (p doc : Path) (v : Json) :
    (c.put p v).find? doc = if doc.steps = p.steps then some v else c.find? doc := by
  unfold find? put
  rw [List.lookup_cons]
  by_cases h : doc.steps = p.steps
  · simp [h]
  · have hb : (doc.steps == p.steps) = false := by simpa using h
    rw [hb, if_neg h]

theorem find?_put_self (c : DocumentCache) (p : Path) (v : Json) : (c.put p v).find? p = some v :=
  (find?_put ..).trans (if_pos rfl)

/-- At the start, nothing is known but what is known from the start. -/
theorem Sound.refl (t : FileTree) (known : DocumentCache) : Sound t known known where
  kept _ _ h := h
  source _ _ h := .inl h

theorem liftExcept_runs {result : Except ResolveError α} {a : α}
    (h : Runs (resolve.liftExcept result) c a c') : result = .ok a ∧ c' = c := by
  cases result with
  | error e => cases h
  | ok b =>
    cases h
    exact ⟨rfl, rfl⟩

/-- A document that is located is known, or its path is the one path of a file. -/
theorem locate_eq_ok (ht : t.Real) {referrer p : Path} {file : String}
    (h : locate t c reference referrer file = .ok p) :
    p = documentKey t (referrer.directory.join file) ∧ documentKey t p = p ∧
      (t.canonical? p = some p ∨ (c.find? p).isSome = true) := by
  unfold locate at h
  unfold documentKey
  dsimp only at h
  split at h
  · rename_i q hq
    cases h
    have hself := FileTree.canonical?_canonical ht hq
    rw [hq, hself]
    exact ⟨rfl, rfl, Or.inl rfl⟩
  · rename_i hnone
    split at h
    · rename_i hknown
      cases h
      rw [hnone]
      exact ⟨rfl, rfl, Or.inr hknown⟩
    · cases h

theorem Within.put {key : Path} {v : Json} (hnone : c.find? key = none) :
    Within c (c.put key v) := by
  intro doc w hw
  rw [find?_put, if_neg fun hdoc => ?_]
  · exact hw
  · rw [find?_congr c hdoc, hnone] at hw
    cases hw

/-- A document that is not known yet may be read. -/
theorem Sound.put (hc : Sound t known c) {key : Path} {v : Json} (hnone : c.find? key = none)
    (hcanonical : t.canonical? key = some key) (hread : readDocument t key = .ok v) :
    Sound t known (c.put key v) where
  kept doc w hw := Within.put hnone doc w (hc.kept doc w hw)
  source doc w hw := by
    rw [find?_put] at hw
    split at hw
    · rename_i hdoc
      cases hw
      refine Or.inr ⟨?_, key, hdoc.symm, hcanonical, hread⟩
      cases hknown : known.find? doc with
      | none => rfl
      | some u =>
        have hkept := hc.kept doc u hknown
        rw [find?_congr c hdoc, hnone] at hkept
        cases hkept
    · exact hc.source doc w hw

/-- Fetching a document gives a source, which is known from then on. -/
theorem fetch_runs (hc : Sound t known c) {key : Path} {v : Json}
    (hkey : t.canonical? key = some key ∨ (c.find? key).isSome = true)
    (h : Runs (fetch t reference key) c v c') :
    Sound t known c' ∧ Within c c' ∧ c'.find? key = some v := by
  unfold fetch at h
  obtain ⟨_, _, hget, hrun⟩ := h.bind
  clear h
  cases hget
  cases hfind : c.find? key with
  | some w =>
    rw [hfind] at hrun
    obtain ⟨rfl, rfl⟩ := hrun.pure
    exact ⟨hc, fun _ _ h => h, hfind⟩
  | none =>
    rw [hfind] at hrun hkey
    dsimp only at hrun
    have hcanonical : t.canonical? key = some key := hkey.resolve_right Bool.false_ne_true
    cases hread : readDocument t key with
    | error cause =>
      rw [hread] at hrun
      exact absurd hrun Runs.not_throw
    | ok w =>
      rw [hread] at hrun
      obtain ⟨_, _, hmodify, hrun⟩ := hrun.bind
      cases hmodify
      obtain ⟨rfl, rfl⟩ := hrun.pure
      exact ⟨hc.put hfind hcanonical hread, .put hfind, by rw [find?_put, if_pos rfl]⟩

/-- Fetches a document and takes a node of it. -/
def fetchNode (t : FileTree) (reference : String) (p : Pointer) (key : Path) :
    CacheM (Path × Json) := do
  let document ← fetch t reference key
  match document.at? p with
  | some node => return (key, node)
  | none => throw (.pointerNotFound reference p.text)

theorem fetchNode_runs (hc : Sound t known c) {p : Pointer} {key key' : Path} {node : Json}
    (hkey : t.canonical? key' = some key' ∨ (c.find? key').isSome = true)
    (h : Runs (fetchNode t reference p key') c (key, node) c') :
    key = key' ∧ Sound t known c' ∧ Within c c' ∧ ∃ v, c'.find? key = some v ∧ v.at? p = some node := by
  obtain ⟨v, u, hfetch, hrest⟩ := h.bind
  obtain ⟨hsound, hwithin, hfound⟩ := fetch_runs hc hkey hfetch
  cases hat : v.at? p with
  | none =>
    rw [hat] at hrest
    exact absurd hrest Runs.not_throw
  | some n =>
    rw [hat] at hrest
    cases hrest.pure.1
    cases hrest.pure.2
    exact ⟨rfl, hsound, hwithin, v, hfound, hat⟩

/-- The node that a reference leads to is a node of a source, which is known from then on. -/
theorem resolve_runs (ht : t.Real) (hc : Sound t known c) {referrer : Path} {target : RefTarget}
    {key : Path} {node : Json} (hreferrer : (c.find? referrer).isSome = true)
    (h : Runs (resolve t reference referrer target) c (key, node) c') :
    key = Bundle.targetDocument t referrer target ∧ Sound t known c' ∧ Within c c' ∧
      ∃ v, c'.find? key = some v ∧ v.at? target.pointer = some node := by
  unfold resolve at h
  unfold Bundle.targetDocument
  cases hfile : target.file? with
  | none =>
    rw [hfile] at h
    obtain ⟨_, _, hkey, hrun⟩ := h.bind
    cases hkey
    exact fetchNode_runs hc (Or.inr hreferrer) hrun
  | some file =>
    rw [hfile] at h
    obtain ⟨_, _, hget, hlift⟩ := h.bind
    cases hget
    obtain ⟨key', _, hkey, hrun⟩ := hlift.bind
    obtain ⟨hlocate, rfl⟩ := liftExcept_runs hkey
    obtain ⟨hp, -, hthere⟩ := locate_eq_ok ht hlocate
    obtain ⟨rfl, hrest⟩ := fetchNode_runs hc hthere hrun
    exact ⟨hp, hrest⟩

theorem fetch_of_find? {key : Path} {v : Json} (h : c.find? key = some v) :
    Runs (fetch t reference key) c v c := by
  unfold fetch
  refine Runs.andThen (a := c) rfl ?_
  rw [h]
  rfl

theorem fetchNode_of_find? {p : Pointer} {key : Path} {v node : Json}
    (hfound : c.find? key = some v) (hnode : v.at? p = some node) :
    Runs (fetchNode t reference p key) c (key, node) c := by
  refine (fetch_of_find? hfound).andThen ?_
  rw [hnode]
  rfl

/-- The document that a file name leads to is located if it is known. -/
theorem locate_of_find? (reference : String) {referrer : Path} {file : String}
    (h : (c.find? (documentKey t (referrer.directory.join file))).isSome = true) :
    locate t c reference referrer file = .ok (documentKey t (referrer.directory.join file)) := by
  unfold documentKey at h ⊢
  unfold locate
  dsimp only
  cases hcanonical : t.canonical? (referrer.directory.join file) with
  | some p => rfl
  | none =>
    rw [hcanonical] at h
    exact if_pos h

/-- A reference into a document that is known is resolved there, and nothing is read. -/
theorem resolve_of_find? {referrer : Path} {target : RefTarget} {v node : Json}
    (hfound : c.find? (Bundle.targetDocument t referrer target) = some v)
    (hnode : v.at? target.pointer = some node) :
    Runs (resolve t reference referrer target) c (Bundle.targetDocument t referrer target, node) c := by
  have hfetch : Runs (fetchNode t reference target.pointer (Bundle.targetDocument t referrer target))
      c (Bundle.targetDocument t referrer target, node) c := fetchNode_of_find? hfound hnode
  unfold resolve
  unfold Bundle.targetDocument at hfound hfetch ⊢
  cases hfile : target.file? with
  | none =>
    rw [hfile] at hfetch
    exact Runs.andThen (a := referrer) rfl hfetch
  | some file =>
    rw [hfile] at hfound hfetch
    have hlocate := locate_of_find? reference (Option.isSome_iff_exists.mpr ⟨v, hfound⟩)
    refine Runs.andThen (a := c) rfl ?_
    refine Runs.andThen (a := documentKey t (referrer.directory.join file)) ?_ hfetch
    rw [hlocate]
    rfl

end DocumentCache

namespace Bundle

open DocumentCache (Sound Within liftExcept_runs locate_eq_ok resolve_runs)

variable {t : FileTree} {known : DocumentCache}

theorem withCache_runs {act : CacheM α} {s s' : State} {a : α} (h : Runs (withCache act) s a s') :
    ∃ c, Runs act s.cache a c ∧ s' = ⟨c, s.sites⟩ := by
  unfold withCache at h
  obtain ⟨_, _, hget, hrun⟩ := h.bind
  clear h
  cases hget
  cases hact : act.run s.cache with
  | mk result c =>
    rw [hact] at hrun
    dsimp only at hrun
    obtain ⟨_, _, hset, hrun⟩ := hrun.bind
    cases hset
    cases result with
    | error e => exact absurd hrun Runs.not_throw
    | ok b =>
      obtain ⟨rfl, rfl⟩ := hrun.pure
      exact ⟨c, hact, rfl⟩

theorem withCache_of_runs {act : CacheM α} {s : State} {a : α} {c : DocumentCache}
    (h : Runs act s.cache a c) : Runs (withCache act) s a ⟨c, s.sites⟩ := by
  unfold withCache
  refine Runs.andThen (a := s) rfl ?_
  have hrun : act.run s.cache = (.ok a, c) := h
  rw [hrun]
  rfl

/-! ## Parts of a run -/

/-- A kept reference leads to where its target stands. -/
def Leads (t : FileTree) (sites : List Site) (doc : Path) (reference : String) (l : Pointer) : Prop :=
  ∃ target, RefTarget.parse reference = .ok target ∧
    site? sites (targetDocument t doc target) target.pointer = some l

/-- What is made of a node is what the run on it came to, which began right after the node was given its
place. There were some places before, and others later. -/
def Made (t : FileTree) (known : DocumentCache) (before later : List Site) (x : Site) (n y : Json) :
    Prop :=
  ∃ sites depth c u, before <:+ sites ∧ x :: sites <:+ later ∧ Sound t known c ∧
    Runs (relocateNode (followRef t depth) x.document x.location n) ⟨c, x :: sites⟩ y u ∧
    u.sites <:+ later

theorem Made.mono {before before' later later' : List Site} {x : Site} {n y : Json}
    (h : Made t known before later x n y) (hbefore : before' <:+ before) (hlater : later <:+ later') :
    Made t known before' later' x n y := by
  obtain ⟨sites, depth, c, u, hsites, hx, hsound, hrun, hu⟩ := h
  exact ⟨sites, depth, c, u, hbefore.trans hsites, hx.trans hlater, hsound, hrun, hu.trans hlater⟩

/-- What a part of a run at a place leaves. `Holds` says what it leads to by tokens from there, and
`Form` what it has made, once the places of the whole run are known. -/
structure Settles (t : FileTree) (known : DocumentCache) (here : Pointer)
    (Holds : List String → Json → Prop) (Form : List Site → Prop) (s s' : State) : Prop where
  sound : Sound t known s'.cache
  within : Within s.cache s'.cache
  grown : Grown s.sites s'.sites
  added : s.sites <:+ s'.sites
  form : ∀ sites, Grown s'.sites sites → Form sites
  placed : ∀ x ∈ s'.sites, x ∈ s.sites ∨ ∃ rel n y, x.location = here.append rel ∧
    (Pointer.mk rel).Spelled ∧ Original t known x.document x.pointer n ∧ Holds rel y ∧
    Made t known s.sites s'.sites x n y ∧
    ∀ sites, Grown s'.sites sites → Becomes t known (Leads t sites) .schema x.document n y

namespace Settles

variable {here : Pointer} {Holds Holds' : List String → Json → Prop}
  {Form Form' : List Site → Prop} {s s' s'' : State}

theorem refl (hs : Sound t known s.cache) (h : ∀ sites, Grown s.sites sites → Form sites) :
    Settles t known here Holds Form s s :=
  ⟨hs, fun _ _ h => h, .refl _, List.suffix_refl _, h, fun _ hx => Or.inl hx⟩

theorem imp (h : Settles t known here Holds Form s s')
    (hholds : ∀ rel y, Holds rel y → Holds' rel y) (hform : ∀ sites, Form sites → Form' sites) :
    Settles t known here Holds' Form' s s' where
  sound := h.sound
  within := h.within
  grown := h.grown
  added := h.added
  form sites hg := hform sites (h.form sites hg)
  placed x hx := (h.placed x hx).imp_right fun ⟨rel, n, y, hl, hr, ho, hy, hm, hb⟩ =>
    ⟨rel, n, y, hl, hr, ho, hholds rel y hy, hm, hb⟩

theorem trans (h : Settles t known here Holds Form s s')
    (h' : Settles t known here Holds' Form' s' s'') :
    Settles t known here (fun rel y => Holds rel y ∨ Holds' rel y)
      (fun sites => Form sites ∧ Form' sites) s s'' where
  sound := h'.sound
  within := h.within.trans h'.within
  grown := h.grown.trans h'.grown
  added := h.added.trans h'.added
  form sites hg := ⟨h.form sites (h'.grown.trans hg), h'.form sites hg⟩
  placed x hx := by
    rcases h'.placed x hx with hx | ⟨rel, n, y, hl, hr, ho, hy, hm, hb⟩
    · refine (h.placed x hx).imp_right fun ⟨rel, n, y, hl, hr, ho, hy, hm, hb⟩ => ?_
      exact ⟨rel, n, y, hl, hr, ho, Or.inl hy, hm.mono (List.suffix_refl _) h'.added,
        fun sites hg => hb sites (h'.grown.trans hg)⟩
    · exact Or.inr ⟨rel, n, y, hl, hr, ho, Or.inr hy, hm.mono h.added (List.suffix_refl _), hb⟩

/-- What a part leaves at a place below is left, with the tokens in between, at the place. -/
theorem below {more : List String} (hmore : (Pointer.mk more).Spelled)
    (h : Settles t known (here.append more) Holds Form s s') :
    Settles t known here (fun rel y => ∃ rest, rel = more ++ rest ∧ Holds rest y) Form s s' where
  sound := h.sound
  within := h.within
  grown := h.grown
  added := h.added
  form := h.form
  placed x hx := (h.placed x hx).imp_right fun ⟨rel, n, y, hl, hr, ho, hy, hm, hb⟩ =>
    ⟨more ++ rel, n, y, hl.trans (by simp [Pointer.append]), Pointer.Spelled.append hmore hr, ho,
      ⟨rel, rfl, hy⟩, hm, hb⟩

end Settles

/-- A run on a document that is known, from any state, leaves at a place what it makes there. -/
def Settling (t : FileTree) (known : DocumentCache) (doc : Path) (here : Pointer)
    (Form : List Site → Json → Prop) (act : BundleM Json) : Prop :=
  ∀ s w s', Sound t known s.cache → (s.cache.find? doc).isSome = true → Runs act s w s' →
    Settles t known here (fun rel y => w.at? ⟨rel⟩ = some y) (fun sites => Form sites w) s s'

theorem find?_isSome_of_within {c c' : DocumentCache} {doc : Path} (h : Within c c')
    (hdoc : (c.find? doc).isSome = true) : (c'.find? doc).isSome = true := by
  obtain ⟨v, hv⟩ := Option.isSome_iff_exists.mp hdoc
  rw [h doc v hv]
  rfl

theorem settling_pure {doc : Path} {here : Pointer} {Form : List Site → Json → Prop} {v : Json}
    (h : ∀ sites, Form sites v) : Settling t known doc here Form (pure v) := by
  intro s w s' hs _ hrun
  obtain ⟨rfl, rfl⟩ := hrun.pure
  exact .refl hs fun sites _ => h sites

/-- What some tokens lead to in entries: by the name of one, and on from there. -/
def HeldBy (ns : Members) (rel : List String) (y : Json) : Prop :=
  ∃ e ∈ ns, ∃ rest, rel = [Pointer.escapeToken e.1] ++ rest ∧ e.2.at? ⟨rest⟩ = some y

theorem HeldBy.at? {ns : Members} (hd : ns.Distinct) {rel : List String} {y : Json}
    (h : HeldBy ns rel y) : (Json.object ns).at? ⟨rel⟩ = some y := by
  obtain ⟨e, he, rest, rfl, hy⟩ := h
  exact (Json.at?_entry hd he rest).trans hy

/-- An entry that is left at the place that its name tells, and others after it. -/
theorem Settles.entry {here : Pointer} {Form Form' : List Site → Prop} {key : String} {w : Json}
    {ws : Members} {s u s' : State}
    (hfirst : Settles t known (here.child key) (fun rel y => w.at? ⟨rel⟩ = some y) Form s u)
    (hothers : Settles t known here (HeldBy ws) Form' u s') :
    Settles t known here (HeldBy ((key, w) :: ws)) (fun sites => Form sites ∧ Form' sites) s s' := by
  have hbelow : Settles t known here _ _ s u := hfirst.below (Pointer.spelled_name key)
  refine (hbelow.trans hothers).imp ?_ fun _ h => h
  rintro rel y (⟨rest, rfl, hy⟩ | ⟨e, he, rest, rfl, hy⟩)
  · exact ⟨(key, w), List.mem_cons_self .., rest, rfl, hy⟩
  · exact ⟨e, List.mem_cons_of_mem _ he, rest, rfl, hy⟩

/-- Entries that are run in order leave each its own, at the place that its name tells. -/
theorem runEntries_settles {doc : Path} {here : Pointer} {act : String × Json → BundleM Json}
    {Form : String × Json → List Site → Json → Prop} {ms : List (String × Json)}
    (hact : ∀ e ∈ ms, Settling t known doc (here.child e.1) (Form e) (act e)) {s s' : State}
    {ns : Members} (hs : Sound t known s.cache) (hdoc : (s.cache.find? doc).isSome = true)
    (hrun : Runs (runEntries (ms.map fun e => (e.1, act e))) s ns s') :
    Settles t known here (HeldBy ns)
      (fun sites => List.Forall₂ (fun e x => x.1 = e.1 ∧ Form e sites x.2) ms ns) s s' := by
  induction ms generalizing s ns with
  | nil =>
    obtain ⟨rfl, rfl⟩ := hrun.pure
    exact .refl hs fun _ _ => .nil
  | cons e ms ih =>
    rw [List.map_cons, runEntries] at hrun
    obtain ⟨w, u, hw, hrest⟩ := hrun.bind
    obtain ⟨ws, u', hws, hpure⟩ := hrest.bind
    obtain ⟨rfl, rfl⟩ := hpure.pure
    have hfirst := hact e (List.mem_cons_self ..) s w u hs hdoc hw
    have hothers := ih (fun e he => hact e (List.mem_cons_of_mem _ he)) hfirst.sound
      (find?_isSome_of_within hfirst.within hdoc) hws
    refine (hfirst.entry hothers).imp (fun _ _ h => h) ?_
    rintro sites ⟨hform, hforms⟩
    exact .cons ⟨rfl, hform⟩ hforms

/-- What a run on a node leaves: its form, as a schema. -/
def NodeSettles (t : FileTree) (known : DocumentCache) (follow : Follow) (v : Json) : Prop :=
  ∀ doc here, Settling t known doc here
    (fun sites w => Becomes t known (Leads t sites) .schema doc v w) (relocateNode follow doc here v)

variable {follow : Follow}

theorem relocateItems_settles {doc : Path} {here : Pointer} {xs ys : List Json} {index : Nat}
    (hnode : ∀ x ∈ xs, NodeSettles t known follow x) {s s' : State}
    (hs : Sound t known s.cache) (hdoc : (s.cache.find? doc).isSome = true)
    (hrun : Runs (relocateItems follow doc here index xs) s ys s') :
    Settles t known here
      (fun rel y => ∃ i x rest, rel = [toString (index + i)] ++ rest ∧ ys[i]? = some x ∧
        x.at? ⟨rest⟩ = some y)
      (fun sites => List.Forall₂ (fun x y => Becomes t known (Leads t sites) .schema doc x y) xs ys)
      s s' := by
  induction xs generalizing index s ys with
  | nil =>
    rw [relocateItems] at hrun
    obtain ⟨rfl, rfl⟩ := hrun.pure
    exact .refl hs fun _ _ => .nil
  | cons x xs ih =>
    rw [relocateItems] at hrun
    obtain ⟨w, u, hw, hrest⟩ := hrun.bind
    obtain ⟨ws, u', hws, hpure⟩ := hrest.bind
    obtain ⟨rfl, rfl⟩ := hpure.pure
    have hfirst := hnode x (List.mem_cons_self ..) doc (here.item index) s w u hs hdoc hw
    have hothers := ih (fun e he => hnode e (List.mem_cons_of_mem _ he)) hfirst.sound
      (find?_isSome_of_within hfirst.within hdoc) hws
    have hbelow : Settles t known here _ _ s u := hfirst.below (Pointer.spelled_index index)
    refine (hbelow.trans hothers).imp ?_ ?_
    · rintro rel y (⟨rest, rfl, hy⟩ | ⟨i, x, rest, rfl, hx, hy⟩)
      · exact ⟨0, w, rest, rfl, rfl, hy⟩
      · exact ⟨i + 1, x, rest, by rw [show index + (i + 1) = index + 1 + i by omega], hx, hy⟩
    · rintro sites ⟨hform, hforms⟩
      exact .cons hform hforms

/-- How one member of a schema comes to stand in the bundle. -/
def relocateMember (follow : Follow) (doc : Path) (here : Pointer) (e : String × Json) :
    BundleM Json :=
  match childKind e.1, e.2 with
  | .data, v => pure v
  | .namedSchemas, .object named => do
    return .object (← runEntries (relocateNamed follow doc (here.child e.1) named))
  | _, v => relocateNode follow doc (here.child e.1) v

theorem relocateMembers_eq_map (doc : Path) (here : Pointer) (ms : List (String × Json)) :
    relocateMembers follow doc here ms =
      ms.map fun e => (e.1, relocateMember follow doc here e) := by
  induction ms with
  | nil => rw [relocateMembers, List.map_nil]
  | cons e ms ih =>
    obtain ⟨key, v⟩ := e
    rw [List.map_cons, ← ih]
    refine (relocateMembers.eq_def ..).trans ?_
    refine congrArg (fun act => (key, act) :: relocateMembers follow doc here ms) ?_
    unfold relocateMember
    cases childKind key <;> cases v <;> rfl

theorem relocateNamed_eq_map (doc : Path) (here : Pointer) (ms : List (String × Json)) :
    relocateNamed follow doc here ms =
      ms.map fun e => (e.1, relocateNode follow doc (here.child e.1) e.2) := by
  induction ms with
  | nil => rw [relocateNamed, List.map_nil]
  | cons e ms ih => rw [relocateNamed, ih, List.map_cons]

theorem names_of_forall₂ {α : Type} {key : α → String} {R : α → Json → Prop} {xs : List α}
    {ns : Members} (h : List.Forall₂ (fun x e => e.1 = key x ∧ R x e.2) xs ns) :
    ns.names = xs.map key := by
  induction h with
  | nil => rfl
  | cons he _ ih => exact congrArg₂ List.cons he.1 ih

theorem get?_of_forall₂ {R : String × Json → Json → Prop} {ms ns : Members}
    (h : List.Forall₂ (fun e x => x.1 = e.1 ∧ R e x.2) ms ns) {key : String} {v w : Json}
    (hv : ms.get? key = some v) (hw : ns.get? key = some w) : R (key, v) w := by
  induction h with
  | nil => cases hv
  | @cons e x ms ns he _ ih =>
    rw [OrderedMap.get?_cons] at hv hw
    rw [he.1] at hw
    split at hv
    · rename_i hkey
      rw [if_pos hkey] at hw
      cases hv
      cases hw
      exact hkey ▸ he.2
    · rename_i hkey
      rw [if_neg hkey] at hw
      exact ih hv hw

/-- Entries that are made into an object. -/
theorem Settles.object {here : Pointer} {ms ns : Members}
    {R : List Site → String × Json → Json → Prop} {Form : List Site → Prop} {s s' : State}
    (hd : ms.Distinct)
    (h : Settles t known here (HeldBy ns)
      (fun sites => List.Forall₂ (fun e x => x.1 = e.1 ∧ R sites e x.2) ms ns) s s')
    (hform : ∀ sites, ns.names = ms.names →
      (∀ key v w, ms.get? key = some v → ns.get? key = some w → R sites (key, v) w) →
      Form sites) :
    Settles t known here (fun rel y => (Json.object ns).at? ⟨rel⟩ = some y) Form s s' := by
  have hnames : ns.names = ms.names := names_of_forall₂ (h.form _ (.refl _))
  have hdistinct : ns.Distinct := by
    unfold OrderedMap.Distinct at hd ⊢
    rwa [hnames]
  refine h.imp (fun rel y hy => hy.at? hdistinct) fun sites hforms => ?_
  exact hform sites hnames fun key v w hv hw => get?_of_forall₂ hforms hv hw

theorem relocateMember_settles {doc : Path} {here : Pointer} {e : String × Json}
    (hp : e.2.Proper) (hnode : NodeSettles t known follow e.2)
    (hnamed : ∀ named, e.2 = .object named → ∀ x ∈ named, NodeSettles t known follow x.2) :
    Settling t known doc (here.child e.1)
      (fun sites w => Becomes t known (Leads t sites) (kindOf e.1 e.2) doc e.2 w)
      (relocateMember follow doc here e) := by
  obtain ⟨key, v⟩ := e
  unfold relocateMember kindOf
  dsimp only at hp hnode hnamed ⊢
  cases childKind key with
  | data => exact settling_pure fun _ => .data
  | schema => exact hnode doc (here.child key)
  | namedSchemas =>
    cases v with
    | object named =>
      intro s w s' hs hdoc hrun
      obtain ⟨ns, u, hns, hpure⟩ := hrun.bind
      obtain ⟨rfl, rfl⟩ := hpure.pure
      rw [relocateNamed_eq_map] at hns
      have hentries := runEntries_settles
        (fun x hx => hnamed named rfl x hx doc ((here.child key).child x.1)) hs hdoc hns
      exact hentries.object hp.distinct fun sites hnames hforms => .named hnames hforms
    | _ => exact hnode doc (here.child key)

/-- A reference was followed: it leads to a place, or the copy of its target is at the place that
was named for it. -/
def Followed (t : FileTree) (known : DocumentCache) (reference : String) (doc : Path)
    (spot : Pointer) (s s' : State) : Outcome → Prop
  | .placed l => ∀ here, Settles t known here (fun _ _ => False)
      (fun sites => Leads t sites doc reference l) s s'
  | .copied w => ∃ target n, RefTarget.parse reference = .ok target ∧
      Original t known (targetDocument t doc target) target.pointer n ∧
      Settles t known spot (fun rel y => w.at? ⟨rel⟩ = some y)
        (fun sites => Becomes t known (Leads t sites) .schema (targetDocument t doc target) n w) s s'

/-- References are followed from any state in which their document is known. -/
def Follows (t : FileTree) (known : DocumentCache) (follow : Follow) : Prop :=
  ∀ reference doc spot s outcome s', Sound t known s.cache → (s.cache.find? doc).isSome = true →
    Runs (follow reference doc spot) s outcome s' → Followed t known reference doc spot s s' outcome

theorem substitute_map (ms : List (String × Json)) (act : String × Json → BundleM Json)
    (name : String) (new : BundleM Json) :
    substitute (ms.map fun e => (e.1, act e)) name new =
      ms.map fun e => (e.1, if e.1 = name then new else act e) := by
  unfold substitute
  rw [List.map_map]
  refine List.map_congr_left fun e _ => ?_
  rw [Function.comp_apply]
  split
  · rename_i h
    rw [h]
  · rfl

theorem arm_eq (here : Pointer) (index : Nat) :
    arm here index = here.append ["allOf", toString index] := by
  have hall : Pointer.escapeToken "allOf" = "allOf" := by decide +kernel
  simp [arm, Pointer.child, Pointer.item, Pointer.append, hall]

theorem spelled_arm (index : Nat) : (Pointer.mk ["allOf", toString index]).Spelled :=
  Pointer.Spelled.append (Pointer.spelled_name "allOf") (Pointer.spelled_index index)

/-- The nodes right below an object, and those that one of these names, settle. -/
def BelowSettles (t : FileTree) (known : DocumentCache) (follow : Follow) (ms : Members) : Prop :=
  ∀ e ∈ ms, e.2.Proper ∧ NodeSettles t known follow e.2 ∧
    ∀ named, e.2 = .object named → ∀ x ∈ named, NodeSettles t known follow x.2

/-- What becomes of a member of a schema whose reference is kept. -/
def KeptMember (t : FileTree) (known : DocumentCache) (doc : Path) (location : Pointer)
    (e : String × Json) (sites : List Site) (w : Json) : Prop :=
  if e.1 = "$ref" then w = .string location.fragment
  else Becomes t known (Leads t sites) (kindOf e.1 e.2) doc e.2 w

/-- A reference is kept, and what stands beside it settles in its place. -/
theorem kept_settles {doc : Path} {here location : Pointer} {ms : Members} {reference : String}
    (hd : ms.Distinct) (hbelow : BelowSettles t known follow ms)
    (href : refText? (.object ms) = some reference) {s u s' : State} {ns : Members}
    (hdoc : (s.cache.find? doc).isSome = true)
    (hplaced : Settles t known here (fun _ _ => False)
      (fun sites => Leads t sites doc reference location) s u)
    (hrun : Runs (runEntries (substitute (relocateMembers follow doc here ms) "$ref"
      (pure (.string location.fragment)))) u ns s') :
    Settles t known here (fun rel y => (Json.object ns).at? ⟨rel⟩ = some y)
      (fun sites => Becomes t known (Leads t sites) .schema doc (.object ms) (.object ns)) s s' := by
  have hact : ∀ e ∈ ms, Settling t known doc (here.child e.1) (KeptMember t known doc location e)
      (if e.1 = "$ref" then pure (.string location.fragment)
        else relocateMember follow doc here e) := by
    intro e he
    unfold KeptMember
    split
    · exact settling_pure fun _ => rfl
    · obtain ⟨hp, hnode, hnamed⟩ := hbelow e he
      exact relocateMember_settles hp hnode hnamed
  rw [relocateMembers_eq_map, substitute_map] at hrun
  have hentries := runEntries_settles hact hplaced.sound
    (find?_isSome_of_within hplaced.within hdoc) hrun
  have hobject : Settles t known here (fun rel y => (Json.object ns).at? ⟨rel⟩ = some y)
      (fun sites => Leads t sites doc reference location →
        Becomes t known (Leads t sites) .schema doc (.object ms) (.object ns)) u s' := by
    refine hentries.object hd (R := fun sites e w => KeptMember t known doc location e sites w)
      fun sites hnames hforms hleads => ?_
    obtain ⟨text, htext⟩ := exists_get?_of_names hnames (refText?_eq_some.mp href)
    have hkept := hforms _ _ _ (refText?_eq_some.mp href) htext
    rw [KeptMember, if_pos rfl] at hkept
    refine .kept href hleads hnames (hkept ▸ htext) fun key v w hne hv hw => ?_
    have hform := hforms key v w hv hw
    rwa [KeptMember, if_neg hne] at hform
  exact (hplaced.trans hobject).imp (fun rel y h => h.resolve_left id) fun sites h => h.2 h.1

/-- A copy stands in the place of a reference, and what stood beside it settles in the second
arm. -/
theorem beside_settles {doc : Path} {here : Pointer} {ms : Members} {reference : String}
    {target : RefTarget} {n w : Json} (hd : ms.Distinct) (hbelow : BelowSettles t known follow ms)
    (href : refText? (.object ms) = some reference) (hmore : 1 < ms.length)
    (hparse : RefTarget.parse reference = .ok target)
    (hn : Original t known (targetDocument t doc target) target.pointer n) {s u s' : State}
    {ns : Members} (hdoc : (s.cache.find? doc).isSome = true)
    (hcopy : Settles t known (arm here 0) (fun rel y => w.at? ⟨rel⟩ = some y)
      (fun sites => Becomes t known (Leads t sites) .schema (targetDocument t doc target) n w) s u)
    (hrun : Runs (runEntries
      (OrderedMap.remove (relocateMembers follow doc (arm here 1) ms) "$ref")) u ns s') :
    Settles t known here
      (fun rel y => (Json.object [("allOf", .array [w, .object ns])]).at? ⟨rel⟩ = some y)
      (fun sites => Becomes t known (Leads t sites) .schema doc (.object ms)
        (.object [("allOf", .array [w, .object ns])])) s s' := by
  have hact : ∀ e ∈ OrderedMap.remove ms "$ref", Settling t known doc ((arm here 1).child e.1)
      (fun sites w => Becomes t known (Leads t sites) (kindOf e.1 e.2) doc e.2 w)
      (relocateMember follow doc (arm here 1) e) := fun e he => by
    obtain ⟨hp, hnode, hnamed⟩ := hbelow e (OrderedMap.mem_of_mem_remove he)
    exact relocateMember_settles hp hnode hnamed
  rw [relocateMembers_eq_map, OrderedMap.remove_map] at hrun
  have hentries := runEntries_settles hact hcopy.sound
    (find?_isSome_of_within hcopy.within hdoc) hrun
  have hsiblings := hentries.object (hd.remove "$ref") fun sites hnames hforms =>
    And.intro hnames hforms
  rw [arm_eq] at hcopy hsiblings
  refine ((hcopy.below (spelled_arm 0)).trans (hsiblings.below (spelled_arm 1))).imp ?_ ?_
  · rintro rel y (⟨rest, rfl, hy⟩ | ⟨rest, rfl, hy⟩)
    · exact (at?_arms w (.object ns) rest).1.trans hy
    · exact (at?_arms w (.object ns) rest).2.trans hy
  · rintro sites ⟨hform, hnames, hforms⟩
    exact .beside href hmore hparse hn hform hnames hforms

/-- A schema with a reference settles as following the reference has it. -/
theorem reference_settles (hfollow : Follows t known follow) {doc : Path} {here : Pointer}
    {ms : Members} {reference : String} (hd : ms.Distinct)
    (hbelow : BelowSettles t known follow ms) (href : refText? (.object ms) = some reference) :
    Settling t known doc here
      (fun sites w => Becomes t known (Leads t sites) .schema doc (.object ms) w)
      (relocateNode follow doc here (.object ms)) := by
  intro s w s' hs hdoc hrun
  rw [relocateNode.eq_def] at hrun
  dsimp only at hrun
  rw [refText?_eq_some.mp href] at hrun
  obtain ⟨outcome, u, hout, hrest⟩ := hrun.bind
  have hoffer := hfollow reference doc _ s outcome u hs hdoc hout
  cases outcome with
  | placed location =>
    obtain ⟨ns, u', hns, hpure⟩ := hrest.bind
    obtain ⟨rfl, rfl⟩ := hpure.pure
    exact kept_settles hd hbelow href hdoc (hoffer here) hns
  | copied c =>
    obtain ⟨target, n, hparse, hn, hcopy⟩ := hoffer
    dsimp only at hrest
    by_cases halone : ms.length = 1
    · rw [if_pos halone] at hrest hcopy
      obtain ⟨rfl, rfl⟩ := hrest.pure
      obtain ⟨e, rfl⟩ := List.length_eq_one_iff.mp halone
      obtain rfl := List.mem_singleton.mp (OrderedMap.mem_of_get? (refText?_eq_some.mp href))
      exact hcopy.imp (fun _ _ h => h) fun sites h => .copied hparse hn h
    · rw [if_neg halone] at hrest hcopy
      have hmore : 1 < ms.length := by
        have hpos := List.length_pos_of_mem (OrderedMap.mem_of_get? (refText?_eq_some.mp href))
        omega
      obtain ⟨ns, u', hns, hpure⟩ := hrest.bind
      obtain ⟨rfl, rfl⟩ := hpure.pure
      exact beside_settles hd hbelow href hmore hparse hn hdoc hcopy hns

theorem array_settles {doc : Path} {here : Pointer} {xs : List Json} (hlen : xs.length ≤ Pointer.indexLimit)
    (hnode : ∀ x ∈ xs, NodeSettles t known follow x) :
    Settling t known doc here
      (fun sites w => Becomes t known (Leads t sites) .schema doc (.array xs) w)
      (relocateNode follow doc here (.array xs)) := by
  intro s w s' hs hdoc hrun
  rw [relocateNode.eq_def] at hrun
  obtain ⟨ys, u, hys, hpure⟩ := hrun.bind
  obtain ⟨rfl, rfl⟩ := hpure.pure
  have hitems := relocateItems_settles hnode hs hdoc hys
  have hsame : xs.length = ys.length := (hitems.form _ (.refl _)).length_eq
  refine hitems.imp ?_ fun sites hforms => .array hsame.symm fun i x y hx hy => ?_
  · rintro rel y ⟨i, x, rest, rfl, hx, hy⟩
    have hi : i ≤ Pointer.indexLimit := by
      obtain ⟨hlt, -⟩ := List.getElem?_eq_some_iff.mp hx
      omega
    change (Json.array ys).at? ⟨toString (0 + i) :: rest⟩ = some y
    rw [Nat.zero_add, Json.at?_cons, Pointer.step?_toString hi, hx, Option.bind_some, hy]
  · obtain ⟨hlt, rfl⟩ := List.getElem?_eq_some_iff.mp hx
    obtain ⟨hlt', rfl⟩ := List.getElem?_eq_some_iff.mp hy
    exact (List.forall₂_iff_get.mp hforms).2 i hlt hlt'

theorem plain_settles {doc : Path} {here : Pointer} {ms : Members} (hd : ms.Distinct)
    (hbelow : BelowSettles t known follow ms) (href : refText? (.object ms) = none) :
    Settling t known doc here
      (fun sites w => Becomes t known (Leads t sites) .schema doc (.object ms) w)
      (relocateNode follow doc here (.object ms)) := by
  have hact : ∀ e ∈ ms, Settling t known doc (here.child e.1)
      (fun sites w => Becomes t known (Leads t sites) (kindOf e.1 e.2) doc e.2 w)
      (relocateMember follow doc here e) := fun e he => by
    obtain ⟨hp, hnode, hnamed⟩ := hbelow e he
    exact relocateMember_settles hp hnode hnamed
  intro s w s' hs hdoc hrun
  have hplain : Runs (do return .object (← runEntries (relocateMembers follow doc here ms)))
      s w s' := by
    rw [relocateNode.eq_def] at hrun
    dsimp only at hrun
    split at hrun
    · rename_i reference hget
      rw [refText?_eq_some.mpr hget] at href
      cases href
    · exact hrun
  obtain ⟨ns, u, hns, hpure⟩ := hplain.bind
  obtain ⟨rfl, rfl⟩ := hpure.pure
  rw [relocateMembers_eq_map] at hns
  have hentries := runEntries_settles hact hs hdoc hns
  exact hentries.object hd fun sites hnames hforms => .plain href hnames hforms

theorem relocateNode_leaf {doc : Path} {here : Pointer} {v : Json} (hm : v.members? = none)
    (hi : v.items? = none) : relocateNode follow doc here v = pure v := by
  rw [relocateNode.eq_def]
  cases v with
  | object ms => cases hm
  | array xs => cases hi
  | _ => rfl

/-- A run on a node leaves its form there, if following references leaves what it should. -/
theorem relocateNode_settles (hfollow : Follows t known follow) (v : Json) (hv : v.Proper) :
    NodeSettles t known follow v := by
  induction v using Json.byParts with
  | object ms ih =>
    have hbelow : BelowSettles t known follow ms := by
      intro e he
      have hp : e.2.Proper := hv.of_mem (Json.member_mem_nodes he)
      refine ⟨hp, (ih e he).1 hp, fun named hnamed x hx => (ih e he).2 named hnamed x hx ?_⟩
      rw [hnamed] at hp
      exact hp.of_mem (Json.member_mem_nodes hx)
    intro doc here
    cases href : refText? (.object ms) with
    | none => exact plain_settles hv.distinct hbelow href
    | some reference => exact reference_settles hfollow hv.distinct hbelow href
  | array xs ih =>
    intro doc here
    exact array_settles hv.length_le fun x hx => ih x hx (hv.of_mem (Json.item_mem_nodes hx))
  | leaf v hm hi =>
    intro doc here
    rw [relocateNode_leaf hm hi]
    exact settling_pure fun _ => .leaf hm hi

/-! ## Following references -/

theorem proper_withoutRootKeywords {v : Json} (hv : v.Proper) : (withoutRootKeywords v).Proper := by
  cases v with
  | object ms => exact (hv.remove "$schema").remove "$id"
  | _ => exact hv

theorem Original.proper (hsource : ∀ doc v, Source t known doc v → v.Proper) {doc : Path}
    {p : Pointer} {n : Json} (h : Original t known doc p n) : n.Proper := by
  obtain ⟨v, u, hv, hu, rfl⟩ := h
  have hp : u.Proper := (hsource doc v hv).of_mem (Json.at?_mem_nodes hu)
  split
  · exact proper_withoutRootKeywords hp
  · exact hp

/-- How a reference whose target is known is treated. -/
def followTarget (t : FileTree) (follow : Follow) (reference : String) (doc : Path) (spot : Pointer)
    (target : RefTarget) (document : Path) : BundleM Outcome := do
  match site? (← get).sites document target.pointer with
  | some location => return .placed location
  | none =>
    let (_, node) ← withCache (DocumentCache.resolve t reference doc target)
    let node := if target.pointer.isRoot then withoutRootKeywords node else node
    modify fun s => { s with sites := ⟨document, target.pointer, spot⟩ :: s.sites }
    return .copied (← relocateNode follow document spot node)

theorem followRef_succ (t : FileTree) (depth : Nat) (reference : String) (doc : Path)
    (spot : Pointer) : followRef t (depth + 1) reference doc spot = (do
      let target ← withCache (DocumentCache.resolve.liftExcept (RefTarget.parse reference))
      match target.file? with
      | none => followTarget t (followRef t depth) reference doc spot target doc
      | some file => do
        let document ← withCache do
          let p ← DocumentCache.resolve.liftExcept
            (DocumentCache.locate t (← get) reference doc file)
          return documentKey t p
        followTarget t (followRef t depth) reference doc spot target document) := by
  rfl

/-- A target that is gone through: a whole document without its root keywords. -/
def goneThrough (target : RefTarget) (node : Json) : Json :=
  if target.pointer.isRoot then withoutRootKeywords node else node

/-- A target that stands somewhere is left there. Any other one is resolved, and given the place
that was named before it is gone through. -/
theorem followTarget_runs {reference : String} {doc document : Path} {spot : Pointer}
    {target : RefTarget} {s s' : State} {outcome : Outcome}
    (h : Runs (followTarget t follow reference doc spot target document) s outcome s') :
    (∃ l, site? s.sites document target.pointer = some l ∧ outcome = .placed l ∧ s' = s) ∨
    site? s.sites document target.pointer = none ∧ ∃ key node c w,
      Runs (DocumentCache.resolve t reference doc target) s.cache (key, node) c ∧
      Runs (relocateNode follow document spot (goneThrough target node))
        ⟨c, ⟨document, target.pointer, spot⟩ :: s.sites⟩ w s' ∧ outcome = .copied w := by
  unfold followTarget at h
  obtain ⟨_, _, hget, hrest⟩ := h.bind
  clear h
  cases hget
  cases hsite : site? s.sites document target.pointer with
  | some l =>
    rw [hsite] at hrest
    obtain ⟨rfl, rfl⟩ := hrest.pure
    exact .inl ⟨l, rfl, rfl, rfl⟩
  | none =>
    rw [hsite] at hrest
    obtain ⟨⟨key, node⟩, u, hcache, hplace⟩ := hrest.bind
    obtain ⟨c, hresolve, rfl⟩ := withCache_runs hcache
    obtain ⟨_, u', hmodify, hcopied⟩ := hplace.bind
    cases hmodify
    obtain ⟨w, u', hw, hpure⟩ := hcopied.bind
    obtain ⟨rfl, rfl⟩ := hpure.pure
    exact .inr ⟨rfl, key, node, c, w, hresolve, hw, rfl⟩

/-- A target that stands somewhere is found there. -/
theorem followTarget_of_site? {reference : String} {doc document : Path} {spot l : Pointer}
    {target : RefTarget} {s : State} (h : site? s.sites document target.pointer = some l) :
    Runs (followTarget t follow reference doc spot target document) s (.placed l) s := by
  unfold followTarget
  refine Runs.andThen (a := s) rfl ?_
  rw [h]
  rfl

/-- A target that stands nowhere is copied in if it is resolved and gone through. -/
theorem followTarget_of_runs {reference : String} {doc document key : Path} {spot : Pointer}
    {target : RefTarget} {s s' : State} {node w : Json} {c : DocumentCache}
    (h : site? s.sites document target.pointer = none)
    (hresolve : Runs (DocumentCache.resolve t reference doc target) s.cache (key, node) c)
    (hw : Runs (relocateNode follow document spot (goneThrough target node))
      ⟨c, ⟨document, target.pointer, spot⟩ :: s.sites⟩ w s') :
    Runs (followTarget t follow reference doc spot target document) s (.copied w) s' := by
  unfold followTarget
  refine Runs.andThen (a := s) rfl ?_
  rw [h]
  refine (withCache_of_runs hresolve).andThen ?_
  refine Runs.andThen (a := ()) (u := ⟨c, ⟨document, target.pointer, spot⟩ :: s.sites⟩) rfl ?_
  exact hw.andThen rfl

/-- A reference whose target stands somewhere leads there; otherwise the target is given the place
that was named, and is gone through there. -/
theorem followTarget_follows (ht : t.Real) (hsource : ∀ doc v, Source t known doc v → v.Proper)
    {depth : Nat} (hfollow : Follows t known (followRef t depth)) {reference : String} {doc : Path}
    {spot : Pointer} {target : RefTarget} (hparse : RefTarget.parse reference = .ok target)
    {s s' : State} {outcome : Outcome} (hs : Sound t known s.cache)
    (hdoc : (s.cache.find? doc).isSome = true)
    (hrun : Runs (followTarget t (followRef t depth) reference doc spot target
      (targetDocument t doc target)) s outcome s') :
    Followed t known reference doc spot s s' outcome := by
  rcases followTarget_runs hrun with ⟨l, hsite, rfl, rfl⟩ | ⟨hsite, key, node, c, w, hresolve, hw, rfl⟩
  · exact fun here => .refl hs fun sites hg => ⟨target, hparse, hg _ _ _ hsite⟩
  · obtain ⟨rfl, hsound, hwithin, v, hfound, hnode⟩ := resolve_runs ht hs hdoc hresolve
    have horiginal : Original t known (targetDocument t doc target) target.pointer
        (goneThrough target node) := ⟨v, node, hsound.source _ _ hfound, hnode, rfl⟩
    have hcopy := relocateNode_settles hfollow _ (horiginal.proper hsource) _ _ _ _ _ hsound
      (by rw [hfound]; rfl) hw
    refine ⟨target, _, hparse, horiginal, hcopy.sound, hwithin.trans hcopy.within,
      (Grown.cons hsite).trans hcopy.grown, (List.suffix_cons ..).trans hcopy.added, hcopy.form,
      fun x hx => ?_⟩
    rcases hcopy.placed x hx with hx | hx
    · rcases List.mem_cons.mp hx with rfl | hx
      · refine Or.inr ⟨[], _, w, ?_, fun _ h => (by cases h), horiginal, rfl,
          ⟨_, depth, c, s', List.suffix_refl _, hcopy.added, hsound, hw, List.suffix_refl _⟩,
          hcopy.form⟩
        simp [Pointer.append]
      · exact Or.inl hx
    · obtain ⟨rel, n, y, hl, hr, ho, hy, hm, hb⟩ := hx
      exact Or.inr ⟨rel, n, y, hl, hr, ho, hy, hm.mono (List.suffix_cons ..) (List.suffix_refl _), hb⟩

/-- A reference that is followed is read and located, and its target is treated. -/
theorem followRef_runs_iff (ht : t.Real) {depth : Nat} {reference : String} {doc : Path}
    {spot : Pointer} {s s' : State} {outcome : Outcome} :
    Runs (followRef t (depth + 1) reference doc spot) s outcome s' ↔
      ∃ target, RefTarget.parse reference = .ok target ∧
        (∀ file, target.file? = some file →
          ∃ p, DocumentCache.locate t s.cache reference doc file = .ok p) ∧
        Runs (followTarget t (followRef t depth) reference doc spot target
          (targetDocument t doc target)) s outcome s' := by
  have hdocument (target : RefTarget) : targetDocument t doc target = (match target.file? with
      | none => doc
      | some file => documentKey t (doc.directory.join file)) := rfl
  rw [followRef_succ]
  constructor
  · intro hrun
    obtain ⟨target, u, hcache, hrest⟩ := hrun.bind
    obtain ⟨c, hlift, rfl⟩ := withCache_runs hcache
    obtain ⟨hparse, rfl⟩ := liftExcept_runs hlift
    refine ⟨target, hparse, ?_⟩
    rw [hdocument]
    cases hfile : target.file? with
    | none =>
      rw [hfile] at hrest
      exact ⟨fun _ h => (by cases h), hrest⟩
    | some file =>
      rw [hfile] at hrest
      obtain ⟨document, u, hlocated, htarget⟩ := hrest.bind
      obtain ⟨c, hwithin, rfl⟩ := withCache_runs hlocated
      obtain ⟨_, _, hget, hlift⟩ := hwithin.bind
      cases hget
      obtain ⟨p, _, hp, hpure⟩ := hlift.bind
      obtain ⟨hlocate, rfl⟩ := liftExcept_runs hp
      obtain ⟨rfl, rfl⟩ := hpure.pure
      obtain ⟨hkey, hself, -⟩ := locate_eq_ok ht hlocate
      rw [hself, hkey] at htarget
      refine ⟨fun other hother => ?_, htarget⟩
      cases hother
      exact ⟨p, hlocate⟩
  · rintro ⟨target, hparse, hlocated, htarget⟩
    refine (withCache_of_runs (c := s.cache) (a := target) ?_).andThen ?_
    · rw [hparse]
      rfl
    · rw [hdocument] at htarget
      cases hfile : target.file? with
      | none =>
        rw [hfile] at htarget
        exact htarget
      | some file =>
        rw [hfile] at htarget
        obtain ⟨p, hlocate⟩ := hlocated file hfile
        obtain ⟨hkey, hself, -⟩ := locate_eq_ok ht hlocate
        refine (withCache_of_runs (c := s.cache) (a := documentKey t p) ?_).andThen ?_
        · refine Runs.andThen (a := s.cache) rfl (Runs.andThen (a := p) (u := s.cache) ?_ rfl)
          rw [hlocate]
          rfl
        · rw [hself, hkey]
          exact htarget

theorem followRef_runs (ht : t.Real) {depth : Nat} {reference : String} {doc : Path}
    {spot : Pointer} {s s' : State} {outcome : Outcome}
    (hrun : Runs (followRef t (depth + 1) reference doc spot) s outcome s') :
    ∃ target, RefTarget.parse reference = .ok target ∧
      Runs (followTarget t (followRef t depth) reference doc spot target
        (targetDocument t doc target)) s outcome s' := by
  obtain ⟨target, hparse, -, htarget⟩ := (followRef_runs_iff ht).mp hrun
  exact ⟨target, hparse, htarget⟩

/-- Following a reference leaves what it should, however many targets may be opened. -/
theorem followRef_follows (ht : t.Real) (hsource : ∀ doc v, Source t known doc v → v.Proper)
    (depth : Nat) : Follows t known (followRef t depth) := by
  induction depth with
  | zero => exact fun _ _ _ _ _ _ _ _ hrun => absurd hrun Runs.not_throw
  | succ depth ih =>
    intro reference doc spot s outcome s' hs hdoc hrun
    obtain ⟨target, hparse, htarget⟩ := followRef_runs ht hrun
    exact followTarget_follows ht hsource ih hparse hs hdoc htarget

end Bundle

end SchemaBindings
