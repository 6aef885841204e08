import SchemaBindings.Proofs.BundleEnds

/-! # A dereferencing comes to an end

The targets that are open are all different, and each was led to by a reference
text in a document that can be loaded, so there are fewer of them than such
texts. The count of targets that may still be opened is therefore never used up.
It does not matter either: any way to follow references that keeps the rule of
the expansion on stacks like these, and has no count, comes to the same. -/

namespace SchemaBindings.Dereference

open SchemaBindings.Bundle (find?_isSome_of_within isOwnError liftExcept_stops parse_isOwnError
  Unresolvable targetDocument circle intoCircle)
open DocumentCache (Sound Within liftExcept_runs)

variable {t : FileTree} {known : DocumentCache} {doc start : Path} {v n : Json}
  {reference : String} {stack : List Target} {links : List (List PathStep × String)}

/-! ## The rule without a count -/

/-- Replaces a reference by its target, unless this is open. References in the target are followed
with the target open. -/
def followOnce (t : FileTree) (inner : Target → Follow) (stack : List Target) : Follow :=
  fun reference doc => do
    let target ← DocumentCache.resolve.liftExcept (RefTarget.parse reference)
    let (document, node) ← DocumentCache.resolve t reference doc target
    let here : Target := ⟨document, target.pointer⟩
    let loop := stack.dropWhile fun frame => !frame.same here
    if loop.isEmpty then
      let v ← expandNode (inner here) document node
      return taken here v
    else
      throw (.cycle ((loop ++ [here]).map Target.label))

theorem expandRef_succ (t : FileTree) (depth : Nat) (stack : List Target) :
    expandRef t (depth + 1) stack =
      followOnce t (fun here => expandRef t depth (stack ++ [here])) stack := rfl

/-- Follows references by the rule, with nothing said about stacks on which a target stands twice
or that hold as many targets as the bound. -/
def Uncounted (t : FileTree) (bound : Nat) (follow : List Target → Follow) : Prop :=
  ∀ stack : List Target, stack.Pairwise (fun x y => x.same y = false) → stack.length < bound →
    follow stack = followOnce t (fun here => follow (stack ++ [here])) stack

/-- A count that starts high enough is as good as none. -/
theorem expandRef_uncounted {bound depth : Nat} (h : bound ≤ depth) :
    Uncounted t bound fun stack => expandRef t (depth - stack.length) stack := by
  intro stack _ hlt
  obtain ⟨d, hd⟩ : ∃ d, depth - stack.length = d + 1 := ⟨depth - stack.length - 1, by omega⟩
  show expandRef t (depth - stack.length) stack = _
  rw [hd, expandRef_succ]
  have hinner (here : Target) : depth - (stack ++ [here]).length = d := by
    simp only [List.length_append, List.length_singleton]
    omega
  simp only [hinner]

/-! ## Runs that do the same -/

/-- From some known documents, two computations do the same, do not run out of depth, and keep what
is known. -/
structure AlikeFrom (t : FileTree) (known c : DocumentCache) {α : Type} (act act' : CacheM α) :
    Prop where
  run_eq : act.run c = act'.run c
  not_exhausted : ∀ reference c', ¬ Stops act c (.exhausted reference) c'
  keeps : ∀ a c', Runs act c a c' → Sound t known c' ∧ Within c c'

/-- Two computations do the same whenever a document is known. -/
def Alike (t : FileTree) (known : DocumentCache) (doc : Path) {α : Type} (act act' : CacheM α) :
    Prop :=
  ∀ c, Sound t known c → (c.find? doc).isSome = true → AlikeFrom t known c act act'

section

variable {α β : Type} {c : DocumentCache}

theorem alikeFrom_pure (hc : Sound t known c) (a : α) :
    AlikeFrom t known c (pure a : CacheM α) (pure a) where
  run_eq := rfl
  not_exhausted _ _ := Stops.not_pure
  keeps b c' hrun := by
    obtain ⟨-, rfl⟩ := hrun.pure
    exact ⟨hc, fun _ _ h => h⟩

theorem alikeFrom_throw {e : ResolveError} (he : ∀ reference, e ≠ .exhausted reference) :
    AlikeFrom t known c (throw e : CacheM α) (throw e) where
  run_eq := rfl
  not_exhausted reference _ hstop := he reference hstop.throw.1.symm
  keeps _ _ hrun := absurd hrun Runs.not_throw

theorem alikeFrom_bind {act act' : CacheM α} {next next' : α → CacheM β}
    (h : AlikeFrom t known c act act')
    (h' : ∀ a u, Sound t known u → Within c u → Runs act c a u →
      AlikeFrom t known u (next a) (next' a)) :
    AlikeFrom t known c (act >>= next) (act' >>= next') where
  run_eq := by
    rcases runs_or_stops act c with ⟨a, u, hact⟩ | ⟨e, u, hact⟩
    · obtain ⟨hu, hwithin⟩ := h.keeps a u hact
      have hact' : Runs act' c a u := h.run_eq.symm.trans hact
      rw [hact.run_bind, hact'.run_bind]
      exact (h' a u hu hwithin hact).run_eq
    · have hact' : Stops act' c e u := h.run_eq.symm.trans hact
      exact hact.first.trans hact'.first.symm
  not_exhausted reference c' hstop := by
    rcases hstop.bind with hstop | ⟨a, u, hact, hnext⟩
    · exact h.not_exhausted reference c' hstop
    · obtain ⟨hu, hwithin⟩ := h.keeps a u hact
      exact (h' a u hu hwithin hact).not_exhausted reference c' hnext
  keeps b c' hrun := by
    obtain ⟨a, u, hact, hnext⟩ := hrun.bind
    obtain ⟨hu, hwithin⟩ := h.keeps a u hact
    obtain ⟨hc', hwithin'⟩ := (h' a u hu hwithin hact).keeps b c' hnext
    exact ⟨hc', hwithin.trans hwithin'⟩

end

theorem chains_alike : Chains CacheM fun {_} act act' => Alike t known doc act act' where
  pure a _ hc _ := alikeFrom_pure hc a
  bind h h' c hc hdoc := alikeFrom_bind (h c hc hdoc) fun a u hu hwithin _ =>
    h' a u hu (find?_isSome_of_within hwithin hdoc)

theorem ne_exhausted_of_isOwnError {e : ResolveError} (h : isOwnError e = true)
    (reference : String) : e ≠ .exhausted reference := by
  rintro rfl
  cases h

theorem parse_alike {c : DocumentCache} (hc : Sound t known c) (reference : String) :
    AlikeFrom t known c (DocumentCache.resolve.liftExcept (RefTarget.parse reference))
      (DocumentCache.resolve.liftExcept (RefTarget.parse reference)) where
  run_eq := rfl
  not_exhausted other _ hstop :=
    ne_exhausted_of_isOwnError (parse_isOwnError (liftExcept_stops hstop).1) other rfl
  keeps _ _ hrun := by
    obtain ⟨-, rfl⟩ := liftExcept_runs hrun
    exact ⟨hc, fun _ _ h => h⟩

theorem resolve_alike (ht : t.Real) {c : DocumentCache} (hc : Sound t known c)
    (hdoc : (c.find? doc).isSome = true) {target : RefTarget}
    (hparse : RefTarget.parse reference = .ok target) :
    AlikeFrom t known c (DocumentCache.resolve t reference doc target)
      (DocumentCache.resolve t reference doc target) where
  run_eq := rfl
  not_exhausted other c' hstop := by
    have hown : Unresolvable t c doc reference (.exhausted other) := .inr ⟨target, c', hparse, hstop⟩
    exact ne_exhausted_of_isOwnError hown.isOwnError other rfl
  keeps found c' hrun := by
    obtain ⟨-, hc', hwithin, -⟩ := DocumentCache.resolve_runs ht hc hdoc hrun
    exact ⟨hc', hwithin⟩

/-! ## Open targets -/

/-- No target is open twice. -/
theorem Opened.pairwise (h : Opened t known start v stack links doc n) :
    stack.Pairwise fun x y => x.same y = false := by
  induction h with
  | none => exact List.Pairwise.nil
  | more _ _ _ hnew ih =>
    rw [List.pairwise_append]
    refine ⟨ih, List.pairwise_singleton .., fun frame hframe x hx => ?_⟩
    rw [List.mem_singleton.mp hx]
    exact hnew frame hframe

/-- With targets open as a run opens them, following a reference does not depend on the count. -/
theorem expandRef_alike (ht : t.Real) {follow : List Target → Follow}
    (hfollow : Uncounted t (known.allowance t) follow)
    (hv : (start.steps, v) ∈ documentsInReach t known) {depth : Nat}
    (h : Opened t known start v stack links doc n)
    (hdepth : depth + stack.length = known.allowance t) (hm : Mentions .schema n reference) :
    Alike t known doc (expandRef t depth stack reference doc) (follow stack reference doc) := by
  have hlt : stack.length < known.allowance t := h.length_lt ht hv
  induction depth generalizing stack links doc n reference with
  | zero => omega
  | succ depth ih =>
    intro c hc hdoc
    rw [expandRef_succ, hfollow stack h.pairwise hlt]
    unfold followOnce
    refine alikeFrom_bind (parse_alike hc reference) fun target c₁ hc₁ hwithin hparsed => ?_
    obtain ⟨hparse, rfl⟩ := liftExcept_runs hparsed
    refine alikeFrom_bind (resolve_alike ht hc₁ hdoc hparse) fun ⟨document, m⟩ c₂ hc₂ _ hresolve => ?_
    obtain ⟨rfl, -, -, whole, hwhole, hat⟩ := DocumentCache.resolve_runs ht hc₁ hdoc hresolve
    dsimp only
    split
    · rename_i hloop
      rw [List.isEmpty_iff, List.dropWhile_eq_nil_iff] at hloop
      have hopened := h.more hm ⟨target, whole, hparse, rfl, hc₂.source _ _ hwhole, hat⟩
        fun frame hframe => by simpa using hloop frame hframe
      have hdepth' : depth + (stack ++ [Target.mk (targetDocument t doc target) target.pointer]).length =
          known.allowance t := by
        rw [List.length_append, List.length_singleton]
        omega
      have hnode := expandNode_related chains_alike m
        fun other hm' => ih hopened hdepth' hm' (hopened.length_lt ht hv)
      refine alikeFrom_bind (hnode c₂ hc₂ (by rw [hwhole]; rfl)) fun u c₃ hc₃ _ _ => ?_
      exact alikeFrom_pure hc₃ _
    · exact alikeFrom_throw fun _ => by simp

/-! ## Whole schemas -/

/-- A schema is expanded within the count, and the count does not matter: a higher one gives the
same, and so does the rule without one. -/
structure Finishes (t : FileTree) (known : DocumentCache) (key : Path) (v : Json) : Prop where
  not_exhausted : ∀ reference, expandFrom t v key known ≠ .error (.exhausted reference)
  uncounted : ∀ follow, Uncounted t (known.allowance t) follow →
    ((expandNode (follow []) key v).run known).1 = expandFrom t v key known
  deeper : ∀ depth, known.allowance t ≤ depth →
    ((expandNode (expandRef t depth []) key v).run known).1 = expandFrom t v key known

theorem finishes_of_find? (ht : t.Real) {key : Path} (hkey : known.find? key = some v) :
    Finishes t known key v := by
  have halike : ∀ follow, Uncounted t (known.allowance t) follow → AlikeFrom t known known
      (expandNode (expandRef t (known.allowance t) []) key v) (expandNode (follow []) key v) := by
    intro follow hfollow
    have hnode := expandNode_related chains_alike v fun reference hm =>
      expandRef_alike ht hfollow (mem_documentsInReach (Or.inl hkey)) .none rfl hm
    exact hnode known (.refl t known) (by rw [hkey]; rfl)
  have huncounted : ∀ follow, Uncounted t (known.allowance t) follow →
      ((expandNode (follow []) key v).run known).1 = expandFrom t v key known := by
    intro follow hfollow
    unfold expandFrom
    rw [(halike follow hfollow).run_eq]
  refine ⟨fun reference hexpand => ?_, huncounted, fun depth hdepth => ?_⟩
  · have hself := halike _ (expandRef_uncounted (Nat.le_refl (known.allowance t)))
    exact hself.not_exhausted reference _ (Prod.ext hexpand rfl)
  · exact huncounted (fun stack => expandRef t (depth - stack.length) stack)
      (expandRef_uncounted hdepth)

/-- Every dereferencing ends, whatever refers to what. The count of targets that may be opened, one
more than the reference texts in the documents that can be loaded, is never used up. Without it, and
with nothing said about stacks on which a target stands twice, the outcome is the same. -/
theorem dereferencing_finishes (ht : t.Real) :
    (∀ v base, dereferenceValue t v base =
        expandFrom t v (documentKey t base) (seededWith t v base) ∧
      Finishes t (seededWith t v base) (documentKey t base) v) ∧
    ∀ p, (∃ cause, readDocument t (documentKey t p) = .error cause ∧
        dereferenceFile t p = .error (.unreadableFile p.text (documentKey t p) cause)) ∨
      ∃ v, readDocument t (documentKey t p) = .ok v ∧
        dereferenceFile t p = expandFrom t v (documentKey t p)
          (DocumentCache.empty.put (documentKey t p) v) ∧
        Finishes t (DocumentCache.empty.put (documentKey t p) v) (documentKey t p) v := by
  refine ⟨fun v base => ⟨rfl, finishes_of_find? ht (find?_seededWith t v base)⟩, fun p => ?_⟩
  rw [dereferenceFile_eq]
  cases hread : readDocument t (documentKey t p) with
  | error cause => exact .inl ⟨cause, rfl, rfl⟩
  | ok v =>
    have hkey : (DocumentCache.empty.put (documentKey t p) v).find? (documentKey t p) = some v :=
      (DocumentCache.find?_put ..).trans (if_pos rfl)
    exact .inr ⟨v, rfl, rfl, finishes_of_find? ht hkey⟩

/-- Two files that refer to each other: the reference that leads back is found, and at every count
that is as high as there are reference texts. -/
theorem dereferencing_finishes_circle :
    dereferenceValue circle intoCircle.value intoCircle.path =
      .error (.cycle ["x.json#", "y.json#", "x.json#"]) ∧
    ∀ depth, (seededWith circle intoCircle.value intoCircle.path).allowance circle ≤ depth →
      ((expandNode (expandRef circle depth []) (documentKey circle intoCircle.path)
        intoCircle.value).run (seededWith circle intoCircle.value intoCircle.path)).1 =
          .error (.cycle ["x.json#", "y.json#", "x.json#"]) := by
  have hrun : dereferenceValue circle intoCircle.value intoCircle.path =
      .error (.cycle ["x.json#", "y.json#", "x.json#"]) := by decide +kernel
  obtain ⟨hvalue, hfinishes⟩ := (dereferencing_finishes (t := circle) (by decide +kernel)).1
    intoCircle.value intoCircle.path
  refine ⟨hrun, fun depth hdepth => ?_⟩
  rw [hfinishes.deeper depth hdepth, ← hvalue]
  exact hrun

end SchemaBindings.Dereference
