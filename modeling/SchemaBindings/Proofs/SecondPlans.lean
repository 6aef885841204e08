import SchemaBindings.Proofs.BundleEnds
import SchemaBindings.Proofs.DereferenceEnds
import SchemaBindings.Proofs.LeftReferences
import SchemaBindings.Proofs.RepeatedWrites

/-! # Plans made from the same files

A plan depends on the disk by the files that it was made from: the schemas, and
the documents that references reached from them lead to. Where these have the
same texts on a second disk, on which all that was there can still be reached,
a dereferencing and a bundling take the same course there, step by step. Only
the count of targets that may be opened is another one, and it does not matter. -/

namespace SchemaBindings

open SchemaBindings.Bundle (Source targetDocument find?_isSome_of_within)
open DocumentCache (Sound Within fetchNode liftExcept_runs)
open Dereference (Chains Points Reached expandNode expandRef)
open FileTree (Stays canonical?_eq_some isDirectoryAt isDirectoryAt_of_endsIdle readText_canonical
  readText_eq_ok resolve_of_steps resolve_path resolve_reaches)

variable {t t' : FileTree} {c c' : DocumentCache} {doc : Path} {v : Json} {reference : String}
  {ds : List SchemaDocument}

/-! ## Documents on two disks -/

theorem readDocument_eq_ok {p : Path} :
    readDocument t p = .ok v ↔ ∃ s, t.readText p = .ok s ∧ Json.read s = .ok v := by
  unfold readDocument
  constructor
  · intro h
    split at h
    · cases h
    · rename_i s hs
      split at h
      · cases h
      · rename_i hread
        cases h
        exact ⟨s, hs, hread⟩
  · rintro ⟨s, hs, hread⟩
    rw [hs]
    dsimp only
    rw [hread]

/-- A document that is read has one path, and is read by that too. -/
theorem readDocument_canonical (ht : t.Real) {p : Path} (h : readDocument t p = .ok v) :
    t.canonical? p = some (documentKey t p) ∧ t.canonical? (documentKey t p) = some (documentKey t p) ∧
      readDocument t (documentKey t p) = .ok v := by
  obtain ⟨s, hs, hread⟩ := readDocument_eq_ok.mp h
  obtain ⟨q, hq, hs'⟩ := readText_canonical ht hs
  have hkey : documentKey t p = q := by
    unfold documentKey
    rw [hq]
    rfl
  rw [hkey]
  exact ⟨hq, FileTree.canonical?_canonical ht hq, readDocument_eq_ok.mpr ⟨s, hs', hread⟩⟩

theorem canonical?_of_readDocument {p : Path} (h : readDocument t p = .ok v) :
    (t.canonical? p).isSome = true := by
  obtain ⟨s, hs, -⟩ := readDocument_eq_ok.mp h
  obtain ⟨place, hplace, -⟩ := readText_eq_ok.mp hs
  rw [canonical?_eq_some.mpr ⟨place, hplace, rfl⟩, Option.isSome_some]

/-- A document is read however the steps of its path are spelled, unless the spelling asks for a
directory. That spelling leads nowhere. -/
theorem readDocument_of_steps {p q : Path} (hsteps : p.steps = q.steps)
    (h : readDocument t q = .ok v) :
    (p.endsIdle = false → readDocument t p = .ok v) ∧
      (p.endsIdle = true → t.canonical? p = none) := by
  obtain ⟨s, hs, hread⟩ := readDocument_eq_ok.mp h
  obtain ⟨place, hplace, hentry⟩ := readText_eq_ok.mp hs
  constructor
  · intro hidle
    have hresolved := resolve_of_steps hsteps (fun hp => by rw [hidle] at hp; cases hp) hplace
    exact readDocument_eq_ok.mpr ⟨s, readText_eq_ok.mpr ⟨place, hresolved, hentry⟩, hread⟩
  · intro hidle
    rw [Option.eq_none_iff_forall_ne_some]
    intro r hr
    obtain ⟨place', hplace', -⟩ := canonical?_eq_some.mp hr
    have hdir := isDirectoryAt_of_endsIdle hplace' hidle
    cases (resolve_of_steps hsteps.symm (fun _ => hidle) hplace').symm.trans hplace
    unfold isDirectoryAt at hdir
    rw [hentry] at hdir
    simp at hdir

theorem FileTree.Stays.canonical? (h : Stays t t') {p q : Path} (hp : t.canonical? p = some q) :
    t'.canonical? p = some q := by
  obtain ⟨place, hr, hpath⟩ := canonical?_eq_some.mp hp
  exact canonical?_eq_some.mpr ⟨place, h.resolve hr, hpath⟩

/-- With nothing known, a source is a document on the disk. -/
theorem Source.on_disk (h : Source t .empty doc v) :
    ∃ p : Path, p.steps = doc.steps ∧ t.canonical? p = some p ∧ readDocument t p = .ok v :=
  (h.resolve_left fun hknown => by cases hknown).2

/-- The documents that are known are on both of two disks. -/
structure OnBoth (t t' : FileTree) (c : DocumentCache) : Prop where
  left : Sound t .empty c
  right : Sound t' .empty c

/-- A file name leads to the same document on both disks. -/
theorem locate_again (hstays : Stays t t') (hc : OnBoth t t' c) {file : String} {p : Path}
    (h : DocumentCache.locate t c reference doc file = .ok p) :
    DocumentCache.locate t' c reference doc file = .ok p := by
  unfold DocumentCache.locate at h ⊢
  dsimp only at h ⊢
  generalize doc.directory.join file = joined at h ⊢
  cases hcanonical : t.canonical? joined with
  | some q =>
    rw [hcanonical] at h
    rw [hstays.canonical? hcanonical]
    exact h
  | none =>
    rw [hcanonical] at h
    dsimp only at h
    have hknown : (c.find? joined).isSome = true := by
      by_contra hunknown
      rw [if_neg hunknown] at h
      cases h
    have hnone : t'.canonical? joined = none := by
      obtain ⟨w, hw⟩ := Option.isSome_iff_exists.mp hknown
      -- The document is known under a path that leads to it; this one asks for a directory.
      obtain ⟨q, hsteps, -, hread⟩ := Source.on_disk (hc.left.source _ _ hw)
      obtain ⟨q', hsteps', -, hread'⟩ := Source.on_disk (hc.right.source _ _ hw)
      refine (readDocument_of_steps hsteps'.symm hread').2 ?_
      by_contra hidle
      have hthere := canonical?_of_readDocument
        ((readDocument_of_steps hsteps.symm hread).1 (Bool.eq_false_iff.mpr hidle))
      rw [hcanonical] at hthere
      cases hthere
    rw [hnone]
    exact h

/-- A document is fetched from the second disk as from the first, if it is the same there. -/
theorem fetch_again (hstays : Stays t t') (hc : OnBoth t t' c) {key : Path}
    (hkey : t.canonical? key = some key ∨ (c.find? key).isSome = true)
    (hkept : ∀ w, readDocument t key = .ok w → readDocument t' key = .ok w)
    (h : Runs (DocumentCache.fetch t reference key) c v c') :
    Runs (DocumentCache.fetch t' reference key) c v c' ∧ Sound t' .empty c' := by
  unfold DocumentCache.fetch at h
  obtain ⟨_, _, hget, hrun⟩ := h.bind
  clear h
  cases hget
  cases hfind : c.find? key with
  | some w =>
    rw [hfind] at hrun
    obtain ⟨rfl, rfl⟩ := hrun.pure
    exact ⟨DocumentCache.fetch_of_find? hfind, hc.right⟩
  | none =>
    rw [hfind] at hrun hkey
    dsimp only at hrun
    have hcanonical := hstays.canonical? (hkey.resolve_right Bool.false_ne_true)
    cases hread : readDocument t key with
    | error cause =>
      rw [hread] at hrun
      exact absurd hrun Runs.not_throw
    | ok w =>
      rw [hread] at hrun
      have hread' := hkept w hread
      obtain ⟨_, _, hmodify, hrun⟩ := hrun.bind
      cases hmodify
      obtain ⟨rfl, rfl⟩ := hrun.pure
      refine ⟨?_, hc.right.put hfind hcanonical hread'⟩
      unfold DocumentCache.fetch
      refine Runs.andThen (a := c) rfl ?_
      rw [hfind]
      dsimp only
      rw [hread']
      rfl

theorem fetchNode_again (hstays : Stays t t') (hc : OnBoth t t' c) {key : Path}
    (hkey : t.canonical? key = some key ∨ (c.find? key).isSome = true)
    (hkept : ∀ w, readDocument t key = .ok w → readDocument t' key = .ok w) {p : Pointer}
    {found : Path × Json} (h : Runs (fetchNode t reference p key) c found c') :
    Runs (fetchNode t' reference p key) c found c' ∧ Sound t' .empty c' := by
  obtain ⟨w, u, hfetch, hrest⟩ := h.bind
  obtain ⟨hfetch', hu⟩ := fetch_again hstays hc hkey hkept hfetch
  have hsame : c' = u := by
    split at hrest
    · exact hrest.pure.2
    · exact absurd hrest Runs.not_throw
  exact ⟨hfetch'.andThen hrest, hsame ▸ hu⟩

/-- A file that is located is the target's document on both disks. -/
theorem targetDocument_again (ht : t.Real) (ht' : t'.Real) (hstays : Stays t t')
    (hc : OnBoth t t' c) {target : RefTarget}
    (hlocated : ∀ file, target.file? = some file →
      ∃ p, DocumentCache.locate t c reference doc file = .ok p) :
    targetDocument t' doc target = targetDocument t doc target := by
  unfold targetDocument
  cases hfile : target.file? with
  | none => rfl
  | some file =>
    obtain ⟨p, hlocate⟩ := hlocated file hfile
    obtain ⟨hp, -⟩ := DocumentCache.locate_eq_ok ht hlocate
    obtain ⟨hp', -⟩ := DocumentCache.locate_eq_ok ht' (locate_again hstays hc hlocate)
    exact hp'.symm.trans hp

/-- A reference is resolved on the second disk as on the first, if the document that it leads to is
the same there. -/
theorem resolve_again (ht : t.Real) (hstays : Stays t t') (hc : OnBoth t t' c)
    (hdoc : (c.find? doc).isSome = true) {target : RefTarget} {key : Path} {node : Json}
    (hkept : ∀ w, readDocument t (targetDocument t doc target) = .ok w →
      readDocument t' (targetDocument t doc target) = .ok w)
    (h : Runs (DocumentCache.resolve t reference doc target) c (key, node) c') :
    Runs (DocumentCache.resolve t' reference doc target) c (key, node) c' ∧ OnBoth t t' c' := by
  obtain ⟨-, hleft, -⟩ := DocumentCache.resolve_runs ht hc.left hdoc h
  have hwhole : Runs (DocumentCache.resolve t' reference doc target) c (key, node) c' ∧
      Sound t' .empty c' := by
    unfold DocumentCache.resolve at h ⊢
    unfold targetDocument at hkept
    cases hfile : target.file? with
    | none =>
      rw [hfile] at h hkept
      obtain ⟨_, _, hkey, hrun⟩ := h.bind
      cases hkey
      obtain ⟨hrun', hright⟩ := fetchNode_again hstays hc (.inr hdoc) hkept hrun
      exact ⟨Runs.andThen (a := doc) rfl hrun', hright⟩
    | some file =>
      rw [hfile] at h hkept
      obtain ⟨_, _, hget, hlift⟩ := h.bind
      cases hget
      obtain ⟨p, _, hp, hrun⟩ := hlift.bind
      obtain ⟨hlocate, rfl⟩ := liftExcept_runs hp
      obtain ⟨rfl, -, hthere⟩ := DocumentCache.locate_eq_ok ht hlocate
      obtain ⟨hrun', hright⟩ := fetchNode_again hstays hc hthere hkept hrun
      refine ⟨Runs.andThen (a := _) rfl (Runs.andThen ?_ hrun'), hright⟩
      rw [locate_again hstays hc hlocate]
      rfl
  exact ⟨hwhole.1, hleft, hwhole.2⟩

/-! ## Runs that come again -/

/-- What a computation comes to when the documents that are known are on two disks, another one comes
to as well, and the documents that are known then are on both disks. -/
def Again {σ : Type} (known : σ → DocumentCache) (t t' : FileTree) (doc : Path) {α : Type}
    (act act' : ExceptT ResolveError (StateM σ) α) : Prop :=
  ∀ s a s', OnBoth t t' (known s) → ((known s).find? doc).isSome = true → Runs act s a s' →
    Runs act' s a s' ∧ OnBoth t t' (known s') ∧ Within (known s) (known s')

theorem chains_again {σ : Type} {known : σ → DocumentCache} :
    Chains (ExceptT ResolveError (StateM σ)) fun {_} act act' => Again known t t' doc act act' where
  pure a s b s' hs _ hrun := by
    obtain ⟨rfl, rfl⟩ := hrun.pure
    exact ⟨rfl, hs, fun _ _ h => h⟩
  bind h h' s b s' hs hdoc hrun := by
    obtain ⟨a, u, hact, hnext⟩ := hrun.bind
    obtain ⟨hact', hu, hwithin⟩ := h s a u hs hdoc hact
    obtain ⟨hnext', hs', hwithin'⟩ := h' a u b s' hu (find?_isSome_of_within hwithin hdoc) hnext
    exact ⟨hact'.andThen hnext', hs', hwithin.trans hwithin'⟩

/-- The documents that references reached from a value lead to are the same on a second disk. -/
def Kept (t t' : FileTree) (start : Path) (v : Json) : Prop :=
  ∀ doc reference x n, Reached t .empty start v doc reference → Points t .empty doc reference x n →
    ∀ w, readDocument t x.document = .ok w → readDocument t' x.document = .ok w

/-- A target that was resolved is one that the reference points to. -/
theorem points_of_resolve (ht : t.Real) (hc : Sound t .empty c) (hdoc : (c.find? doc).isSome = true)
    {target : RefTarget} (hparse : RefTarget.parse reference = .ok target) {key : Path} {node : Json}
    (h : Runs (DocumentCache.resolve t reference doc target) c (key, node) c') :
    Points t .empty doc reference ⟨targetDocument t doc target, target.pointer⟩ node := by
  obtain ⟨rfl, hsound, -, whole, hfound, hnode⟩ := DocumentCache.resolve_runs ht hc hdoc h
  exact ⟨target, whole, hparse, rfl, hsound.source _ _ hfound, hnode⟩

/-- A reference that was reached is resolved on the second disk as on the first. -/
theorem Kept.resolve {start : Path} (hkept : Kept t t' start v) (ht : t.Real) (hstays : Stays t t')
    (hr : Reached t .empty start v doc reference) (hc : OnBoth t t' c)
    (hdoc : (c.find? doc).isSome = true) {target : RefTarget}
    (hparse : RefTarget.parse reference = .ok target) {key : Path} {node : Json}
    (h : Runs (DocumentCache.resolve t reference doc target) c (key, node) c') :
    Runs (DocumentCache.resolve t' reference doc target) c (key, node) c' ∧ OnBoth t t' c' := by
  have hp := points_of_resolve ht hc.left hdoc hparse h
  have hsame (w : Json) (hw : readDocument t (targetDocument t doc target) = .ok w) :
      readDocument t' (targetDocument t doc target) = .ok w := hkept _ _ _ _ hr hp w hw
  exact resolve_again ht hstays hc hdoc hsame h

namespace Dereference

variable {start : Path}

/-- With the same targets open, a reference is followed on the second disk as on the first. -/
theorem expandRef_again (ht : t.Real) (hstays : Stays t t') (hkept : Kept t t' start v) (depth : Nat)
    (stack : List Target) (hr : Reached t .empty start v doc reference) :
    Again id t t' doc (expandRef t depth stack reference doc)
      (expandRef t' depth stack reference doc) := by
  induction depth generalizing stack doc reference with
  | zero => exact fun _ _ _ _ _ hrun => absurd hrun Runs.not_throw
  | succ depth ih =>
    intro c u c' (hc : OnBoth t t' c) (hdoc : (c.find? doc).isSome = true) hrun
    rw [expandRef_succ] at hrun ⊢
    unfold followOnce at hrun ⊢
    obtain ⟨target, c₁, hlift, hrest⟩ := hrun.bind
    obtain ⟨hparse, rfl⟩ := liftExcept_runs hlift
    obtain ⟨⟨document, node⟩, c₂, hresolve, hopen⟩ := hrest.bind
    have hp := points_of_resolve ht hc.left hdoc hparse hresolve
    obtain ⟨hresolve', hc₂⟩ := hkept.resolve ht hstays hr hc hdoc hparse hresolve
    obtain ⟨rfl, -, hwithin, whole, hfound, -⟩ := DocumentCache.resolve_runs ht hc.left hdoc hresolve
    dsimp only at hopen
    split at hopen
    · rename_i hloop
      obtain ⟨w, c₃, hw, hpure⟩ := hopen.bind
      obtain ⟨rfl, rfl⟩ := hpure.pure
      have hnode : Again id t t' (targetDocument t doc target)
          (expandNode (expandRef t depth (stack ++ [⟨targetDocument t doc target, target.pointer⟩]))
            (targetDocument t doc target) node)
          (expandNode (expandRef t' depth (stack ++ [⟨targetDocument t doc target, target.pointer⟩]))
            (targetDocument t doc target) node) :=
        expandNode_related chains_again node fun other hm => ih _ (hr.next hp hm)
      obtain ⟨hw', hc₃, hwithin'⟩ := hnode c₂ w c' hc₂ (Option.isSome_iff_exists.mpr ⟨_, hfound⟩) hw
      refine ⟨hlift.andThen (hresolve'.andThen ?_), hc₃, hwithin.trans hwithin'⟩
      dsimp only
      rw [if_pos hloop]
      exact hw'.andThen rfl
    · exact absurd hopen Runs.not_throw

end Dereference

/-! ## Schemas that persist -/

/-- A schema of the disk that is the same on a second one, with all that its references lead to. -/
structure Persists (t t' : FileTree) (d : SchemaDocument) : Prop where
  read : readDocument t d.path = .ok d.value
  again : readDocument t' (documentKey t d.path) = .ok d.value
  kept : Kept t t' (documentKey t d.path) d.value

namespace Persists

variable {d : SchemaDocument}

theorem documentKey_eq (ht : t.Real) (hstays : Stays t t') (h : Persists t t' d) :
    documentKey t' d.path = documentKey t d.path := by
  have hcanonical := hstays.canonical? (readDocument_canonical ht h.read).1
  rw [documentKey, hcanonical]
  rfl

/-- A schema that persists can be read where it was. -/
theorem read_again (ht : t.Real) (hstays : Stays t t') (h : Persists t t' d) :
    readDocument t' d.path = .ok d.value := by
  obtain ⟨s, hs, -⟩ := readDocument_eq_ok.mp h.read
  obtain ⟨place, hplace, -⟩ := readText_eq_ok.mp hs
  have hkey : documentKey t d.path = place.path := by
    rw [documentKey, canonical?_eq_some.mpr ⟨place, hplace, rfl⟩]
    rfl
  obtain ⟨s', hs', hread⟩ := readDocument_eq_ok.mp h.again
  obtain ⟨place', hplace', hentry⟩ := readText_eq_ok.mp hs'
  obtain ⟨htext, hthere⟩ := resolve_reaches ht hplace
  have hpath := hstays.resolve (resolve_path ht htext hthere)
  rw [← hkey] at hpath
  cases hpath.symm.trans hplace'
  exact readDocument_eq_ok.mpr ⟨s', readText_eq_ok.mpr ⟨place, hstays.resolve hplace, hentry⟩, hread⟩

/-- Documents that persist are known from both disks. -/
theorem onBoth (ht : t.Real) (hstays : Stays t t')
    (h : ∀ doc v, c.find? doc = some v → ∃ d, Persists t t' d ∧ v = d.value ∧
      (documentKey t d.path).steps = doc.steps) : OnBoth t t' c := by
  refine ⟨⟨fun _ _ hnone => (by cases hnone), fun doc v hv => ?_⟩,
    ⟨fun _ _ hnone => (by cases hnone), fun doc v hv => ?_⟩⟩
  all_goals
    obtain ⟨d, hd, rfl, hsteps⟩ := h doc v hv
    obtain ⟨-, hself, hread⟩ := readDocument_canonical ht hd.read
  · exact .inr ⟨rfl, _, hsteps, hself, hread⟩
  · exact .inr ⟨rfl, _, hsteps, hstays.canonical? hself, hd.again⟩

theorem onBoth_seededWith (ht : t.Real) (hstays : Stays t t') (h : Persists t t' d) :
    OnBoth t t' (Dereference.seededWith t d.value d.path) := by
  refine onBoth ht hstays fun doc v hv => ⟨d, h, ?_⟩
  rw [Dereference.seededWith, DocumentCache.seed, DocumentCache.find?_put] at hv
  split at hv
  · rename_i hsteps
    exact ⟨(Option.some.inj hv).symm, hsteps.symm⟩
  · cases hv

/-- A schema that persists is dereferenced on the second disk as on the first. -/
theorem dereferenceValue_again (ht : t.Real) (ht' : t'.Real) (hstays : Stays t t')
    (h : Persists t t' d) {w : Json} (hw : dereferenceValue t d.value d.path = .ok w) :
    dereferenceValue t' d.value d.path = .ok w := by
  have hkey := h.documentKey_eq ht hstays
  have hseeded : Dereference.seededWith t' d.value d.path =
      Dereference.seededWith t d.value d.path := by
    unfold Dereference.seededWith DocumentCache.seed
    rw [hkey]
  have hfind := Dereference.find?_seededWith t d.value d.path
  -- Both counts may be taken as high as the higher one.
  have hfinishes := Dereference.finishes_of_find? ht hfind
  have hfinishes' :=
    Dereference.finishes_of_find? ht' (Dereference.find?_seededWith t' d.value d.path)
  obtain ⟨depth, hdeep, hdeep'⟩ : ∃ depth,
      (Dereference.seededWith t d.value d.path).allowance t ≤ depth ∧
        (Dereference.seededWith t d.value d.path).allowance t' ≤ depth :=
    ⟨_, Nat.le_max_left _ _, Nat.le_max_right _ _⟩
  have hnode : Again id t t' (documentKey t d.path)
      (expandNode (expandRef t depth []) (documentKey t d.path) d.value)
      (expandNode (expandRef t' depth []) (documentKey t d.path) d.value) :=
    Dereference.expandNode_related chains_again d.value fun reference hm =>
      Dereference.expandRef_again ht hstays h.kept depth [] (.here hm)
  have hrun : ((expandNode (expandRef t depth []) (documentKey t d.path) d.value).run
      (Dereference.seededWith t d.value d.path)).1 = .ok w := (hfinishes.deeper depth hdeep).trans hw
  obtain ⟨hrun', -⟩ := hnode _ w _ (h.onBoth_seededWith ht hstays)
    (Option.isSome_iff_exists.mpr ⟨_, hfind⟩) (Prod.ext hrun rfl)
  refine (hfinishes'.deeper depth (by rwa [hseeded])).symm.trans ?_
  rw [hkey, hseeded]
  exact congrArg Prod.fst hrun'

theorem dereferenceDocument_eq (ht : t.Real) (ht' : t'.Real) (hstays : Stays t t')
    (h : Persists t t' d) {w : Json} (hw : dereferenceDocument t d = .ok w) :
    dereferenceDocument t' d = .ok w := by
  unfold dereferenceDocument at hw ⊢
  cases hvalue : dereferenceValue t d.value d.path with
  | error e =>
    rw [hvalue] at hw
    cases hw
  | ok u =>
    rw [hvalue] at hw
    rw [h.dereferenceValue_again ht ht' hstays hvalue]
    exact hw

end Persists

namespace Bundle

/-! ## Bundling again -/

variable {start : Path} {spot : Pointer} {s s' : State}

theorem followRef_again (ht : t.Real) (ht' : t'.Real) (hstays : Stays t t')
    (hkept : Kept t t' start v) (depth : Nat) (hr : Dereference.Reached t .empty start v doc reference)
    (spot : Pointer) :
    Again State.cache t t' doc (followRef t depth reference doc spot)
      (followRef t' depth reference doc spot) := by
  induction depth generalizing doc reference spot with
  | zero => exact fun _ _ _ _ _ hrun => absurd hrun Runs.not_throw
  | succ depth ih =>
    intro s outcome s' hs hdoc hrun
    obtain ⟨target, hparse, hlocated, htarget⟩ := (followRef_runs_iff ht).mp hrun
    have hlocated' (file : String) (hfile : target.file? = some file) :
        ∃ p, DocumentCache.locate t' s.cache reference doc file = .ok p :=
      (hlocated file hfile).imp fun _ hp => locate_again hstays hs hp
    have hagain {s' : State} {outcome : Outcome}
        (h : Runs (followTarget t' (followRef t' depth) reference doc spot target
          (targetDocument t doc target)) s outcome s') :
        Runs (followRef t' (depth + 1) reference doc spot) s outcome s' := by
      refine (followRef_runs_iff ht').mpr ⟨target, hparse, hlocated', ?_⟩
      rwa [targetDocument_again ht ht' hstays hs hlocated]
    rcases followTarget_runs htarget with
      ⟨l, hsite, rfl, rfl⟩ | ⟨hnone, key, node, c, w, hresolve, hw, rfl⟩
    · exact ⟨hagain (followTarget_of_site? hsite), hs, fun _ _ h => h⟩
    · have hp := points_of_resolve ht hs.left hdoc hparse hresolve
      obtain ⟨hresolve', hc⟩ := hkept.resolve ht hstays hr hs hdoc hparse hresolve
      obtain ⟨-, -, hwithin, whole, hfound, -⟩ := DocumentCache.resolve_runs ht hs.left hdoc hresolve
      obtain ⟨rfl, -⟩ := DocumentCache.resolve_runs ht hs.left hdoc hresolve
      have hkeyed : node.Keyed :=
        hp.keyed fun _ _ h => Dereference.source_keyed (fun _ _ h => by cases h) h
      have hnode : Again State.cache t t' (targetDocument t doc target)
          (relocateNode (followRef t depth) (targetDocument t doc target) spot (goneThrough target node))
          (relocateNode (followRef t' depth) (targetDocument t doc target) spot
            (goneThrough target node)) :=
        relocateNode_related chains_again _
          (fun other hm spot => ih (hr.next hp (Mentions.of_goneThrough hkeyed hm)) spot) spot
      obtain ⟨hw', hs', hwithin'⟩ := hnode _ w s' hc (Option.isSome_iff_exists.mpr ⟨_, hfound⟩) hw
      exact ⟨hagain (followTarget_of_runs hnone hresolve' hw'), hs', hwithin.trans hwithin'⟩

/-- Parts whose documents persist are gone through on the second disk as on the first. -/
theorem relocateParts_again (ht : t.Real) (ht' : t'.Real) (hstays : Stays t t') {depth : Nat}
    {parts : List Part} {definitions : Members} (hs : OnBoth t t' s.cache)
    (hparts : ∀ part ∈ parts, (s.cache.find? part.document).isSome = true ∧
      part.source.value.Keyed ∧ Kept t t' part.document part.source.value)
    (h : relocateParts t depth s parts = .ok (definitions, s')) :
    relocateParts t' depth s parts = .ok (definitions, s') := by
  induction parts generalizing s definitions with
  | nil => exact h
  | cons part parts ih =>
    rw [relocateParts] at h ⊢
    obtain ⟨hdoc, hkeyed, hkept⟩ := hparts part (List.mem_cons_self ..)
    have hnode : Again State.cache t t' part.document
        (relocateNode (followRef t depth) part.document part.member.location
          (withoutRootKeywords part.source.value))
        (relocateNode (followRef t' depth) part.document part.member.location
          (withoutRootKeywords part.source.value)) :=
      relocateNode_related chains_again _ (fun other hm spot => followRef_again ht ht' hstays hkept
        depth (.here (Mentions.of_withoutRootKeywords hkeyed hm)) spot) _
    split at h
    · cases h
    · rename_i w u hw
      obtain ⟨hw', hu, hwithin⟩ := hnode s w u hs hdoc hw
      split at h
      · cases h
      · rename_i ws u' hws
        cases h
        have hrest := ih hu (fun p hp => ?_) hws
        · have hw' : (relocateNode (followRef t' depth) part.document part.member.location
            (withoutRootKeywords part.source.value)).run s = (.ok w, u) := hw'
          rw [hw']
          dsimp only
          rw [hrest]
        · obtain ⟨hfound, hothers⟩ := hparts p (List.mem_cons_of_mem _ hp)
          exact ⟨find?_isSome_of_within hwithin hfound, hothers⟩

/-! ## The count of targets -/

/-- Two computations do the same, unless the first runs out of depth. -/
def SameUnlessExhausted {σ α : Type} (act act' : ExceptT ResolveError (StateM σ) α) : Prop :=
  ∀ s, act.run s = act'.run s ∨ ∃ reference s', Stops act s (.exhausted reference) s'

theorem sameUnlessExhausted_refl {σ α : Type} (act : ExceptT ResolveError (StateM σ) α) :
    SameUnlessExhausted act act := fun _ => .inl rfl

theorem chains_sameUnlessExhausted {σ : Type} : Chains (ExceptT ResolveError (StateM σ))
    fun {_} act act' => SameUnlessExhausted act act' where
  pure a := sameUnlessExhausted_refl (pure a)
  bind {_ _ act act' _ _} h h' s := by
    rcases h s with hsame | ⟨reference, s', hstop⟩
    · rcases runs_or_stops act s with ⟨a, u, hact⟩ | ⟨e, u, hact⟩
      · have hact' : Runs act' s a u := hsame.symm.trans hact
        rcases h' a u with hsame' | ⟨reference, s', hstop⟩
        · exact .inl (hact.run_bind.trans (hsame'.trans hact'.run_bind.symm))
        · exact .inr ⟨reference, s', Stops.andThen hact hstop⟩
      · have hact' : Stops act' s e u := hsame.symm.trans hact
        exact .inl (hact.first.trans hact'.first.symm)
    · exact .inr ⟨reference, s', hstop.first⟩

theorem followRef_deeper {depth depth' : Nat} (h : depth ≤ depth') (reference : String) (doc : Path)
    (spot : Pointer) :
    SameUnlessExhausted (followRef t depth reference doc spot)
      (followRef t depth' reference doc spot) := by
  induction depth generalizing depth' reference doc spot with
  | zero => exact fun s => .inr ⟨reference, s, rfl⟩
  | succ depth ih =>
    obtain ⟨deep, rfl⟩ : ∃ deep, depth' = deep + 1 := ⟨depth' - 1, by omega⟩
    have htarget (target : RefTarget) (document : Path) : SameUnlessExhausted
        (followTarget t (followRef t depth) reference doc spot target document)
        (followTarget t (followRef t deep) reference doc spot target document) := by
      unfold followTarget
      refine chains_sameUnlessExhausted.bind (sameUnlessExhausted_refl _) fun s => ?_
      cases site? s.sites document target.pointer with
      | some l => exact sameUnlessExhausted_refl _
      | none =>
        refine chains_sameUnlessExhausted.bind (sameUnlessExhausted_refl _) fun ⟨_, node⟩ => ?_
        refine chains_sameUnlessExhausted.bind (sameUnlessExhausted_refl _) fun _ => ?_
        have hnode := relocateNode_related chains_sameUnlessExhausted (goneThrough target node)
          (fun other _ spot => ih (Nat.le_of_succ_le_succ h) other document spot) spot
        exact chains_sameUnlessExhausted.bind hnode fun w => sameUnlessExhausted_refl _
    rw [followRef_succ, followRef_succ]
    refine chains_sameUnlessExhausted.bind (sameUnlessExhausted_refl _) fun target => ?_
    cases target.file? with
    | none => exact htarget target doc
    | some file =>
      exact chains_sameUnlessExhausted.bind (sameUnlessExhausted_refl _) fun document =>
        htarget target document

/-- With a higher count the parts come out the same, unless the lower one is used up. -/
theorem relocateParts_deeper {depth depth' : Nat} (h : depth ≤ depth') (s : State)
    (parts : List Part) :
    relocateParts t depth s parts = relocateParts t depth' s parts ∨
      ∃ name reference, relocateParts t depth s parts =
        .error (.unresolved name (.exhausted reference)) := by
  induction parts generalizing s with
  | nil => exact .inl rfl
  | cons part parts ih =>
    have hnode := relocateNode_related chains_sameUnlessExhausted
      (withoutRootKeywords part.source.value)
      (fun other _ spot => followRef_deeper (t := t) h other part.document spot) part.member.location
    rw [relocateParts, relocateParts]
    rcases hnode s with hsame | ⟨reference, u, hstop⟩
    · rw [hsame]
      split
      · exact .inl rfl
      · rename_i u _
        rcases ih u with hrest | ⟨name, reference, hrest⟩
        · rw [hrest]
          exact .inl rfl
        · rw [hrest]
          exact .inr ⟨name, reference, rfl⟩
    · refine .inr ⟨part.source.fileName, reference, ?_⟩
      rw [hstop]

/-- Documents that can be read have distinct keys. -/
theorem keyed_of_mem_inReach (hknown : ∀ e ∈ c.documents, e.2.Keyed) :
    ∀ v ∈ DocumentCache.inReach t c, v.Keyed := by
  intro v hv
  rcases List.mem_append.mp hv with hv | hv
  · obtain ⟨e, he, rfl⟩ := List.mem_map.mp hv
    exact hknown e he
  · obtain ⟨e, -, he⟩ := List.mem_filterMap.mp hv
    split at he
    · exact Json.read_keyed (toOption_eq_some.mp he)
    · cases he

/-- A bundling that comes to its end with a higher count comes to the same end. -/
theorem assemble_of_deeper (ht : t.Real) (hkeyed : ∀ d ∈ ds, d.value.Keyed) {depth : Nat}
    (hdepth : (knownFrom t ds).allowance t ≤ depth) : assemble t ds =
      (relocateParts t depth (begun t ds) ((sortDocuments ds).map (partOf t))).map
        fun made => ⟨⟨documentOf made.1, ((sortDocuments ds).map (partOf t)).map (·.member)⟩,
          made.2.sites⟩ := by
  have hreach : ∀ v ∈ DocumentCache.inReach t (knownFrom t ds), v.Keyed := by
    refine keyed_of_mem_inReach fun e he => ?_
    rw [documents_knownFrom, List.mem_reverse] at he
    obtain ⟨d, hd, rfl⟩ := List.mem_map.mp he
    exact hkeyed d (List.mem_mergeSort.mp hd)
  rcases relocateParts_deeper hdepth (begun t ds) ((sortDocuments ds).map (partOf t)) with
    hsame | ⟨name, reference, hexhausted⟩
  · rw [← hsame]
    exact assemble_eq t ds
  · -- The count is not used up.
    have herror : assemble t ds = .error (.unresolved name (.exhausted reference)) := by
      unfold begun at hexhausted
      rw [assemble_eq, hexhausted]
      rfl
    rcases assemble_ends_or_unresolvable ht hreach with
      ⟨a, ha⟩ | ⟨d, -, _, _, e, _, _, -, hfails, hown, -⟩
    · cases herror.symm.trans ha
    · cases herror.symm.trans hfails
      cases hown

/-- Schemas that persist are bundled on the second disk as on the first. -/
theorem assemble_again (ht : t.Real) (ht' : t'.Real) (hstays : Stays t t')
    (hds : ∀ d ∈ ds, Persists t t' d) {a : Assembly} (h : assemble t ds = .ok a) :
    assemble t' ds = .ok a := by
  have hkey (d : SchemaDocument) (hd : d ∈ sortDocuments ds) :
      documentKey t' d.path = documentKey t d.path :=
    (hds d (List.mem_mergeSort.mp hd)).documentKey_eq ht hstays
  have hparts : (sortDocuments ds).map (partOf t') = (sortDocuments ds).map (partOf t) := by
    refine List.map_congr_left fun d hd => ?_
    rw [partOf, partOf, hkey d hd]
  have hbegun : begun t' ds = begun t ds := by
    have hdocuments : ((sortDocuments ds).map fun d => ((documentKey t' d.path).steps, d.value)) =
        (sortDocuments ds).map fun d => ((documentKey t d.path).steps, d.value) :=
      List.map_congr_left fun d hd => by rw [hkey d hd]
    have hsites : ((sortDocuments ds).map fun d =>
          Site.mk (documentKey t' d.path) .root (BundleMember.ofFile d.fileName).location) =
        (sortDocuments ds).map fun d =>
          ⟨documentKey t d.path, .root, (BundleMember.ofFile d.fileName).location⟩ :=
      List.map_congr_left fun d hd => by rw [hkey d hd]
    rw [begun, begun, enterAll_eq, enterAll_eq, hdocuments, hsites]
  have hkeyed (d : SchemaDocument) (hd : d ∈ ds) : d.value.Keyed :=
    Dereference.keyed_of_readDocument (hds d hd).read
  have hboth : OnBoth t t' (begun t ds).cache := by
    refine Persists.onBoth ht hstays fun doc v hv => ?_
    obtain ⟨before, after, hsplit, -⟩ := List.lookup_eq_some_iff.mp hv
    have hmem : (doc.steps, v) ∈ (knownFrom t ds).documents := by
      refine hsplit ▸ List.mem_append_right _ (List.mem_cons_self ..)
    rw [documents_knownFrom, List.mem_reverse] at hmem
    obtain ⟨d, hd, heq⟩ := List.mem_map.mp hmem
    obtain ⟨hsteps, rfl⟩ := Prod.ext_iff.mp heq
    exact ⟨d, hds d (List.mem_mergeSort.mp hd), rfl, hsteps⟩
  obtain ⟨depth, hdeep, hdeep'⟩ : ∃ depth, (knownFrom t ds).allowance t ≤ depth ∧
      (knownFrom t' ds).allowance t' ≤ depth := ⟨_, Nat.le_max_left _ _, Nat.le_max_right _ _⟩
  rw [assemble_of_deeper ht hkeyed hdeep] at h
  rw [assemble_of_deeper ht' hkeyed hdeep', hbegun, hparts]
  cases hrun : relocateParts t depth (begun t ds) ((sortDocuments ds).map (partOf t)) with
  | error e =>
    rw [hrun] at h
    cases h
  | ok made =>
    rw [hrun] at h
    rw [relocateParts_again ht ht' hstays hboth ?_ hrun]
    · exact h
    · intro part hpart
      obtain ⟨d, hd, rfl⟩ := List.mem_map.mp hpart
      have hd' := List.mem_mergeSort.mp hd
      exact ⟨(seeded_knownFrom t ds).known _ hpart, hkeyed d hd', (hds d hd').kept⟩

end Bundle

end SchemaBindings
