import Mathlib.Data.List.Chain
import SchemaBindings.Proofs.DereferenceEnds
import SchemaBindings.Proofs.LeftReferences

/-! # Circles of references

A dereferencing that meets a target that is open reports the targets from that
one on. The open targets are linked at every moment: each has, somewhere in its
node, the reference over which the next one was opened, and what is reported
last is where a reference of the last one leads to. Siblings are expanded after
their target was closed, so they are references of the node that is open then.
What is reported is a circle, and one that is reached from the schema. -/

namespace SchemaBindings.Dereference

open SchemaBindings.Bundle (find?_isSome_of_within isOwnError liftExcept_stops parse_isOwnError
  Unresolvable targetDocument)
open DocumentCache (Sound liftExcept_runs)

variable {t : FileTree} {known : DocumentCache} {doc start : Path} {v n m : Json}
  {reference : String} {stack : List Target} {links : List (List PathStep × String)}

/-! ## What is reported -/

/-- Targets, all reached from a schema, that lead back to the first of them: each has a reference in
its node that leads to the next, and the last to one that is the same as the first, maybe with its
path in another spelling. No two of them are the same. -/
structure Circle (t : FileTree) (known : DocumentCache) (start : Path) (v : Json)
    (targets : List Target) (back : Target) : Prop where
  linked : (targets ++ [back]).IsChain (Next t known)
  distinct : targets.Pairwise fun x y => x.same y = false
  closed : ∃ first ∈ targets.head?, first.same back = true
  reached : ∀ x ∈ targets, ∃ d r k, Reached t known start v d r ∧ Points t known d r x k

/-- An error that reports a chain of labels names the targets of a circle. -/
def TellsCircle (t : FileTree) (known : DocumentCache) (start : Path) (v : Json)
    (e : ResolveError) : Prop :=
  ∀ chain, e = .cycle chain → ∃ targets back, Circle t known start v targets back ∧
    chain = (targets ++ [back]).map Target.label

theorem tellsCircle_of_isOwnError {e : ResolveError} (h : isOwnError e = true) :
    TellsCircle t known start v e := by
  rintro chain rfl
  cases h

/-! ## Open targets are linked -/

namespace Opened

/-- Each open target leads to the next, and the last to where its references lead. -/
theorem isChain (h : Opened t known start v stack links doc n) (hm : Mentions .schema n reference)
    {y : Target} (hp : Points t known doc reference y m) :
    (stack ++ [y]).IsChain (Next t known) := by
  induction h generalizing reference y m with
  | none => exact .singleton y
  | more _ hm' hp' _ ih =>
    rw [List.append_assoc, List.singleton_append, List.isChain_append_cons_cons]
    exact ⟨ih hm' hp', hp'.next hm hp, .singleton y⟩

/-- The open targets from one on that is met again are a circle. -/
theorem circle (h : Opened t known start v stack links doc n) (hm : Mentions .schema n reference)
    {y : Target} (hp : Points t known doc reference y m)
    (hloop : stack.dropWhile (fun frame => !frame.same y) ≠ []) :
    Circle t known start v (stack.dropWhile fun frame => !frame.same y) y where
  linked := by
    obtain ⟨before, hsplit⟩ := List.dropWhile_suffix (l := stack) fun frame => !frame.same y
    refine (h.isChain hm hp).suffix ⟨before, ?_⟩
    rw [← List.append_assoc, hsplit]
  distinct := h.pairwise.sublist (List.dropWhile_sublist _)
  closed := by
    refine ⟨_, List.head?_eq_some_head hloop, ?_⟩
    simpa using List.head_dropWhile_not (fun frame : Target => !frame.same y) hloop
  reached x hx := (h.transGen hm hp x ((List.dropWhile_sublist _).subset hx)).1

end Opened

/-! ## How a run fails -/

/-- A computation on a document that is known keeps what is known, and fails in one way only. -/
structure FailsWith (t : FileTree) (known : DocumentCache) (doc : Path)
    (Fault : ResolveError → Prop) {α : Type} (act : CacheM α) : Prop where
  keeps : Gives t known doc (fun _ => True) act
  fault : ∀ {c e c'}, Sound t known c → (c.find? doc).isSome = true → Stops act c e c' → Fault e

theorem chains_failsWith {Fault : ResolveError → Prop} :
    Chains CacheM fun {_} act _ => FailsWith t known doc Fault act where
  pure _ := ⟨gives_pure trivial, fun _ _ hstop => absurd hstop Stops.not_pure⟩
  bind h h' := by
    refine ⟨gives_bind h.keeps fun a _ => (h' a).keeps, fun hc hdoc hstop => ?_⟩
    rcases hstop.bind with hstop | ⟨a, u, hact, hstop⟩
    · exact h.fault hc hdoc hstop
    · obtain ⟨hu, hwithin, -⟩ := h.keeps _ a u hc hdoc hact
      exact (h' a).fault hu (find?_isSome_of_within hwithin hdoc) hstop

/-- A run on a schema fails as following one of its references does. -/
theorem expandNode_failsWith {follow : Follow} {Fault : ResolveError → Prop}
    (hfollow : ∀ reference, Mentions .schema n reference →
      FailsWith t known doc Fault (follow reference doc)) :
    FailsWith t known doc Fault (expandNode follow doc n) := by
  have hnode : NodeRelated (fun act _ => FailsWith t known doc Fault act) follow follow doc n :=
    expandNode_related chains_failsWith n
  exact hnode hfollow

/-- Following a reference fails because it cannot be resolved, or as the expansion of its target does,
or because the target is open. -/
theorem followOnce_stops (ht : t.Real) {inner : Target → Follow} {c c' : DocumentCache}
    {e : ResolveError} (hc : Sound t known c) (hdoc : (c.find? doc).isSome = true)
    (h : Stops (followOnce t inner stack reference doc) c e c') :
    Unresolvable t c doc reference e ∨
    ∃ x m c₁, Points t known doc reference x m ∧ Sound t known c₁ ∧
      (c₁.find? x.document).isSome = true ∧
      ((∀ frame ∈ stack, frame.same x = false) ∧ Stops (expandNode (inner x) x.document m) c₁ e c' ∨
        stack.dropWhile (fun frame => !frame.same x) ≠ [] ∧
        e = .cycle ((stack.dropWhile (fun frame => !frame.same x) ++ [x]).map Target.label)) := by
  unfold followOnce at h
  rcases h.bind with hparse | ⟨target, c₁, hparsed, hrest⟩
  · exact .inl (.inl (liftExcept_stops hparse).1)
  obtain ⟨hparse, rfl⟩ := liftExcept_runs hparsed
  rcases hrest.bind with hresolve | ⟨⟨document, m⟩, c₂, hresolve, hopen⟩
  · exact .inl (.inr ⟨target, c', hparse, hresolve⟩)
  obtain ⟨rfl, hc₂, -, whole, hwhole, hat⟩ := DocumentCache.resolve_runs ht hc hdoc hresolve
  refine .inr ⟨⟨targetDocument t doc target, target.pointer⟩, m, c₂,
    ⟨target, whole, hparse, rfl, hc₂.source _ _ hwhole, hat⟩, hc₂, by rw [hwhole]; rfl, ?_⟩
  dsimp only at hopen
  split at hopen
  · rename_i hloop
    rw [List.isEmpty_iff, List.dropWhile_eq_nil_iff] at hloop
    exact .inl ⟨fun frame hframe => by simpa using hloop frame hframe, hopen.map⟩
  · rename_i hloop
    exact .inr ⟨fun hnil => hloop (List.isEmpty_iff.mpr hnil), hopen.throw.1⟩

/-- With targets open as a run opens them, following a reference reports nothing but circles. -/
theorem expandRef_failsWith (ht : t.Real) {depth : Nat}
    (h : Opened t known start v stack links doc n) (hm : Mentions .schema n reference) :
    FailsWith t known doc (TellsCircle t known start v) (expandRef t depth stack reference doc) := by
  induction depth generalizing stack links doc n reference with
  | zero =>
    refine ⟨fun _ _ _ _ _ hrun => absurd hrun Runs.not_throw, fun _ _ hstop chain hchain => ?_⟩
    rw [hstop.throw.1] at hchain
    cases hchain
  | succ depth ih =>
    refine ⟨fun c a c' hc hdoc hrun => ?_, fun {c e c'} hc hdoc hstop => ?_⟩
    · obtain ⟨hc', hwithin, -⟩ := expandRef_unfolds ht (depth + 1) stack doc reference c a c' hc hdoc hrun
      exact ⟨hc', hwithin, trivial⟩
    · rw [expandRef_succ] at hstop
      rcases followOnce_stops ht hc hdoc hstop with
        hown | ⟨x, m, c₁, hp, hc₁, hfound, ⟨hnew, hnode⟩ | ⟨hloop, rfl⟩⟩
      · exact tellsCircle_of_isOwnError hown.isOwnError
      · have hopened := h.more hm hp hnew
        exact (expandNode_failsWith fun other hm' => ih hopened hm').fault hc₁ hfound hnode
      · rintro chain hchain
        cases hchain
        exact ⟨_, _, h.circle hm hp hloop, rfl⟩

/-! ## Whole schemas -/

theorem expandFrom_tellsCircle (ht : t.Real) {key : Path} (hkey : known.find? key = some v)
    {e : ResolveError} (h : expandFrom t v key known = .error e) :
    TellsCircle t known key v e := by
  have hnode : FailsWith t known key (TellsCircle t known key v)
      (expandNode (expandRef t (known.allowance t) []) key v) :=
    expandNode_failsWith fun _ hm => expandRef_failsWith ht .none hm
  exact hnode.fault (.refl t known) (by rw [hkey]; rfl) (Prod.ext h rfl)

/-- If a dereferencing reports a cycle, what it reports are the labels of targets that lead back to
the first of them: each has a reference to the next somewhere in its node, no two are the same, and
all are reached from the value or the file. -/
theorem reported_cycles_lead_back (ht : t.Real) :
    (∀ v base chain, dereferenceValue t v base = .error (.cycle chain) →
      ∃ targets back, Circle t (seededWith t v base) (documentKey t base) v targets back ∧
        chain = (targets ++ [back]).map Target.label) ∧
    ∀ p chain, dereferenceFile t p = .error (.cycle chain) →
      ∃ v targets back, readDocument t (documentKey t p) = .ok v ∧
        Circle t (DocumentCache.empty.put (documentKey t p) v) (documentKey t p) v targets back ∧
        chain = (targets ++ [back]).map Target.label := by
  constructor
  · intro v base chain h
    exact expandFrom_tellsCircle ht (find?_seededWith t v base) h chain rfl
  · intro p chain h
    rw [dereferenceFile_eq] at h
    cases hread : readDocument t (documentKey t p) with
    | error cause =>
      rw [hread] at h
      cases h
    | ok v =>
      rw [hread] at h
      obtain ⟨targets, back, hcircle, hchain⟩ :=
        expandFrom_tellsCircle ht (DocumentCache.find?_put_self ..) h chain rfl
      exact ⟨v, targets, back, rfl, hcircle, hchain⟩

/-- A schema on the way into a circle that is closed beside a reference to something else. -/
def treeSchema : Json :=
  .object [("$ref", .string "#/$defs/root"), ("$defs", .object [
    ("root", .object [("$ref", .string "#/$defs/tree")]),
    ("tree", .object [("items", .object [("$ref", .string "#/$defs/branch")])]),
    ("branch", .object [("$ref", .string "#/$defs/leaf"),
      ("items", .object [("$ref", .string "#/$defs/tree")])]),
    ("leaf", .bool true)])]

theorem reported_cycles_lead_back_tree :
    dereferenceValue noFiles treeSchema ⟨"a.json"⟩ =
      .error (.cycle ["a.json#/$defs/tree", "a.json#/$defs/branch", "a.json#/$defs/tree"]) ∧
    ∃ targets back, Circle noFiles (seededWith noFiles treeSchema ⟨"a.json"⟩)
        (documentKey noFiles ⟨"a.json"⟩) treeSchema targets back ∧
      ["a.json#/$defs/tree", "a.json#/$defs/branch", "a.json#/$defs/tree"] =
        (targets ++ [back]).map Target.label := by
  have hrun : dereferenceValue noFiles treeSchema ⟨"a.json"⟩ =
      .error (.cycle ["a.json#/$defs/tree", "a.json#/$defs/branch", "a.json#/$defs/tree"]) := by
    decide +kernel
  exact ⟨hrun, (reported_cycles_lead_back (t := noFiles) (by decide +kernel)).1 _ _ _ hrun⟩

end SchemaBindings.Dereference
