import SchemaBindings.Proofs.BundleReferences
import SchemaBindings.Proofs.SchemaMentions

/-! # What a schema unfolds to

`Unfolds` says what a schema is when every reference in it is replaced by what
it leads to, without saying how that is found: there is no order, no stack and
no documents that come to be known on the way. It is decided by the disk and the
documents in memory alone, and a schema unfolds to one value at most. It unfolds
to some value only if every reference that is reached leads to a node, and no
such node leads back to itself. -/

namespace SchemaBindings

theorem Target.same_iff {x y : Target} :
    x.same y = true ↔ x.document.steps = y.document.steps ∧ x.pointer = y.pointer := by
  simp [Target.same, Bundle.same_iff]

namespace Dereference

open SchemaBindings.Bundle (Source kindOf targetDocument)

variable {t : FileTree} {known : DocumentCache}

/-! ## Where references lead -/

/-- A reference in a document leads to a node of a document. -/
def Points (t : FileTree) (known : DocumentCache) (doc : Path) (reference : String) (x : Target)
    (n : Json) : Prop :=
  ∃ target v, RefTarget.parse reference = .ok target ∧
    x = ⟨targetDocument t doc target, target.pointer⟩ ∧ Source t known x.document v ∧
    v.at? x.pointer = some n

/-- The file that a reference names is on the disk, or in memory from the start. -/
def Located (t : FileTree) (known : DocumentCache) (doc : Path) (reference : String) : Prop :=
  ∀ target file, RefTarget.parse reference = .ok target → target.file? = some file →
    (t.canonical? (doc.directory.join file)).isSome = true ∨
      (known.find? (doc.directory.join file)).isSome = true

theorem Points.unique (ht : t.Real) {doc : Path} {reference : String} {x x' : Target} {n n' : Json}
    (h : Points t known doc reference x n) (h' : Points t known doc reference x' n') :
    x = x' ∧ n = n' := by
  obtain ⟨target, v, hparse, rfl, hv, hn⟩ := h
  obtain ⟨target', v', hparse', rfl, hv', hn'⟩ := h'
  cases hparse.symm.trans hparse'
  obtain rfl := hv.eq ht hv' rfl
  exact ⟨rfl, Option.some.inj (hn.symm.trans hn')⟩

/-- From another spelling of the document's path a reference leads to another spelling of the
target. -/
theorem Points.congr {doc doc' : Path} {reference : String} {x : Target} {n : Json}
    (h : Points t known doc reference x n) (hdoc : doc.steps = doc'.steps) :
    ∃ x', Points t known doc' reference x' n ∧ x.same x' = true := by
  obtain ⟨target, v, hparse, rfl, hv, hn⟩ := h
  have hsteps := Bundle.targetDocument_congr (t := t) hdoc target
  exact ⟨_, ⟨target, v, hparse, rfl, hv.congr hsteps, hn⟩, Target.same_iff.mpr ⟨hsteps, rfl⟩⟩

/-! ## Unfolding -/

/-- A target with the keywords beside the reference to it. They go over those of an object; other
targets stand beside them. -/
inductive Overlays : Json → Members → Json → Prop where
  | alone {target : Json} : Overlays target [] target
  | merged {ms siblings : Members} (h : siblings ≠ []) :
      Overlays (.object ms) siblings (.object (ms.insertAll siblings))
  | beside {target : Json} {siblings : Members} (h : siblings ≠ []) (hm : target.members? = none) :
      Overlays target siblings (.object [("allOf", .array [target, .object siblings])])

theorem overlays_iff {target w : Json} {siblings : Members} :
    Overlays target siblings w ↔ w = overlay target siblings := by
  constructor
  · intro h
    cases h with
    | alone => rfl
    | merged h => simp [overlay, h]
    | beside h hm => cases target <;> simp_all [overlay, Json.members?]
  · rintro rfl
    unfold overlay
    split
    · rename_i h
      rw [List.isEmpty_iff.mp h]
      exact .alone
    · rename_i h
      have hne : siblings ≠ [] := fun hnil => h (List.isEmpty_iff.mpr hnil)
      cases target with
      | object ms => exact .merged hne
      | _ => exact .beside hne rfl

/-- What a target gives: a whole document is taken without its root keywords. -/
def taken (x : Target) (u : Json) : Json := if x.pointer.isRoot then withoutRootKeywords u else u

/-- What a value in a document, read as data, as named schemas or as a schema, unfolds to. Only
references that are admitted are replaced. -/
inductive Unfolds (t : FileTree) (known : DocumentCache) (Admits : Path → String → Prop) :
    ChildKind → Path → Json → Json → Prop where
  | data {doc : Path} {v : Json} : Unfolds t known Admits .data doc v v
  | leaf {doc : Path} {v : Json} (hm : v.members? = none) (hi : v.items? = none) :
      Unfolds t known Admits .schema doc v v
  | array {doc : Path} {xs ys : List Json} (hlen : ys.length = xs.length)
      (h : ∀ (i : Nat) x y, xs[i]? = some x → ys[i]? = some y →
        Unfolds t known Admits .schema doc x y) :
      Unfolds t known Admits .schema doc (.array xs) (.array ys)
  | named {doc : Path} {ms ns : Members} (hnames : ns.names = ms.names)
      (h : ∀ (i : Nat) e x, ms[i]? = some e → ns[i]? = some x →
        Unfolds t known Admits .schema doc e.2 x.2) :
      Unfolds t known Admits .namedSchemas doc (.object ms) (.object ns)
  | plain {doc : Path} {ms ns : Members} (href : refText? (.object ms) = none)
      (hnames : ns.names = ms.names)
      (h : ∀ (i : Nat) e x, ms[i]? = some e → ns[i]? = some x →
        Unfolds t known Admits (kindOf e.1 e.2) doc e.2 x.2) :
      Unfolds t known Admits .schema doc (.object ms) (.object ns)
  | reference {doc : Path} {ms ns : Members} {reference : String} {x : Target} {n u w : Json}
      (href : refText? (.object ms) = some reference) (hadmits : Admits doc reference)
      (hp : Points t known doc reference x n) (hu : Unfolds t known Admits .schema x.document n u)
      (hnames : ns.names = (ms.remove "$ref").names)
      (h : ∀ (i : Nat) e x, (ms.remove "$ref")[i]? = some e → ns[i]? = some x →
        Unfolds t known Admits (kindOf e.1 e.2) doc e.2 x.2)
      (hw : Overlays (taken x u) ns w) : Unfolds t known Admits .schema doc (.object ms) w

variable {Admits Admits' : Path → String → Prop} {kind : ChildKind} {doc : Path} {v w : Json}

theorem length_of_names {ms ns : Members} (h : ns.names = ms.names) : ns.length = ms.length := by
  simpa [OrderedMap.names] using congrArg List.length h

theorem exists_getElem?_of_names {ms ns : Members} (h : ns.names = ms.names) {e : String × Json}
    (he : e ∈ ms) : ∃ (i : Nat) (x : String × Json), ms[i]? = some e ∧ ns[i]? = some x := by
  obtain ⟨i, hi, rfl⟩ := List.getElem_of_mem he
  have hi' : i < ns.length := length_of_names h ▸ hi
  exact ⟨i, ns[i], List.getElem?_eq_getElem hi, List.getElem?_eq_getElem hi'⟩

theorem name_eq_of_names {ms ns : Members} (hnames : ns.names = ms.names) {i : Nat}
    {e x : String × Json} (he : ms[i]? = some e) (hx : ns[i]? = some x) : x.1 = e.1 := by
  have hname := congrArg (fun names : List String => names[i]?) hnames
  simpa [OrderedMap.names, he, hx] using hname

/-- An entry has one of the same name at its index. -/
theorem exists_entry_of_names {ms ns : Members} (hnames : ns.names = ms.names) {key : String}
    {v : Json} (h : (key, v) ∈ ms) :
    ∃ (i : Nat) (w : Json), ms[i]? = some (key, v) ∧ ns[i]? = some (key, w) := by
  obtain ⟨i, ⟨other, w⟩, he, hx⟩ := exists_getElem?_of_names hnames h
  obtain rfl : other = key := name_eq_of_names hnames he hx
  exact ⟨i, w, he, hx⟩

theorem eq_of_names {ns ns' : Members} (hnames : ns.names = ns'.names)
    (h : ∀ (i : Nat) x x', ns[i]? = some x → ns'[i]? = some x' → x.2 = x'.2) : ns = ns' := by
  refine List.ext_getElem (length_of_names hnames) fun i hi hi' => Prod.ext ?_ ?_
  · exact name_eq_of_names hnames (List.getElem?_eq_getElem hi') (List.getElem?_eq_getElem hi)
  · exact h i _ _ (List.getElem?_eq_getElem hi) (List.getElem?_eq_getElem hi')

/-- A schema unfolds to one value at most. -/
theorem Unfolds.unique (ht : t.Real) {w' : Json} (h : Unfolds t known Admits kind doc v w)
    (h' : Unfolds t known Admits' kind doc v w') : w = w' := by
  have hmembers {doc : Path} {ms ns ns' : Members} {kindFor : String × Json → ChildKind}
      (hnames : ns.names = ms.names) (hnames' : ns'.names = ms.names)
      (ih : ∀ (i : Nat) e x, ms[i]? = some e → ns[i]? = some x → ∀ {w' : Json},
        Unfolds t known Admits' (kindFor e) doc e.2 w' → x.2 = w')
      (h' : ∀ (i : Nat) e x, ms[i]? = some e → ns'[i]? = some x →
        Unfolds t known Admits' (kindFor e) doc e.2 x.2) : ns = ns' := by
    refine eq_of_names (hnames.trans hnames'.symm) fun i x x' hx hx' => ?_
    obtain ⟨hi, -⟩ := List.getElem?_eq_some_iff.mp hx
    have he := List.getElem?_eq_getElem (length_of_names hnames ▸ hi : i < ms.length)
    exact ih i _ x he hx (h' i _ x' he hx')
  induction h generalizing w' with
  | data =>
    cases h'
    rfl
  | leaf hm hi =>
    cases h' with
    | leaf => rfl
    | array => cases hi
    | plain => cases hm
    | reference => cases hm
  | array hlen h ih =>
    cases h' with
    | leaf hm hi => cases hi
    | array hlen' h' =>
      refine congrArg Json.array (List.ext_getElem (hlen.trans hlen'.symm) fun i hi hi' => ?_)
      have hx := List.getElem?_eq_getElem (hlen ▸ hi)
      exact ih i _ _ hx (List.getElem?_eq_getElem hi) (h' i _ _ hx (List.getElem?_eq_getElem hi'))
  | named hnames h ih =>
    cases h' with
    | named hnames' h' => exact congrArg Json.object (hmembers hnames hnames' ih h')
  | plain href hnames h ih =>
    cases h' with
    | leaf hm => cases hm
    | plain _ hnames' h' => exact congrArg Json.object (hmembers hnames hnames' ih h')
    | reference href' => cases href.symm.trans href'
  | reference href _ hp hu hnames h hw ihu ih =>
    cases h' with
    | leaf hm => cases hm
    | plain href' => cases href.symm.trans href'
    | reference href' _ hp' hu' hnames' h' hw' =>
      cases href.symm.trans href'
      obtain ⟨rfl, rfl⟩ := hp.unique ht hp'
      obtain rfl := ihu hu'
      obtain rfl := hmembers hnames hnames' ih h'
      rw [overlays_iff.mp hw, overlays_iff.mp hw']

/-- How the path of its document is spelled does not matter for what a schema unfolds to. -/
theorem Unfolds.congr (hadmits : ∀ doc doc' reference, doc.steps = doc'.steps → Admits doc reference →
      Admits doc' reference) {doc' : Path} (h : Unfolds t known Admits kind doc v w)
    (hdoc : doc.steps = doc'.steps) : Unfolds t known Admits kind doc' v w := by
  induction h generalizing doc' with
  | data => exact .data
  | leaf hm hi => exact .leaf hm hi
  | array hlen _ ih => exact .array hlen fun i x y hx hy => ih i x y hx hy hdoc
  | named hnames _ ih => exact .named hnames fun i e x he hx => ih i e x he hx hdoc
  | plain href hnames _ ih => exact .plain href hnames fun i e x he hx => ih i e x he hx hdoc
  | reference href hadm hp _ hnames _ hw ihu ih =>
    obtain ⟨x', hp', hsame⟩ := hp.congr hdoc
    obtain ⟨hsteps, hpointer⟩ := Target.same_iff.mp hsame
    refine .reference href (hadmits _ _ _ hdoc hadm) hp' (ihu hsteps) hnames
      (fun i e x he hx => ih i e x he hx hdoc) ?_
    unfold taken at hw ⊢
    rwa [← hpointer]

/-! ## References on the way -/

/-- References that are reached from a value: those in it, and those in what they lead to. -/
inductive Reached (t : FileTree) (known : DocumentCache) (start : Path) (v : Json) :
    Path → String → Prop where
  | here {reference : String} (h : Mentions .schema v reference) : Reached t known start v start reference
  | next {doc : Path} {reference other : String} {x : Target} {n : Json}
      (h : Reached t known start v doc reference) (hp : Points t known doc reference x n)
      (hm : Mentions .schema n other) : Reached t known start v x.document other

/-- The node of one target has a reference to another one. -/
def Next (t : FileTree) (known : DocumentCache) (x y : Target) : Prop :=
  ∃ v n reference m, Source t known x.document v ∧ v.at? x.pointer = some n ∧
    Mentions .schema n reference ∧ Points t known x.document reference y m

/-- Every reference that is reached is located and leads to a node, and no such node leads back to
itself. -/
structure Grounded (t : FileTree) (known : DocumentCache) (start : Path) (v : Json) : Prop where
  leads : ∀ doc reference, Reached t known start v doc reference →
    Located t known doc reference ∧ ∃ x n, Points t known doc reference x n
  acyclic : ∀ doc reference x n, Reached t known start v doc reference →
    Points t known doc reference x n →
      ∀ y, Relation.TransGen (Next t known) x y → x.same y = false

theorem Points.next {doc : Path} {reference other : String} {x y : Target} {n m : Json}
    (h : Points t known doc reference x n) (hm : Mentions .schema n other)
    (h' : Points t known x.document other y m) : Next t known x y := by
  obtain ⟨target, v, -, -, hv, hn⟩ := h
  exact ⟨v, n, other, m, hv, hn, hm, h'⟩

theorem Next.congr {x x' y : Target} (h : Next t known x y) (hsame : x.same x' = true) :
    ∃ y', Next t known x' y' ∧ y.same y' = true := by
  obtain ⟨hsteps, hpointer⟩ := Target.same_iff.mp hsame
  obtain ⟨v, n, reference, m, hv, hn, hm, hp⟩ := h
  obtain ⟨y', hp', hsame'⟩ := hp.congr hsteps
  exact ⟨y', ⟨v, n, reference, m, hv.congr hsteps, hpointer ▸ hn, hm, hp'⟩, hsame'⟩

theorem Next.of_points (ht : t.Real) {doc : Path} {reference : String} {x y : Target} {n : Json}
    (h : Points t known doc reference x n) (hy : Next t known x y) :
    ∃ other m, Mentions .schema n other ∧ Points t known x.document other y m := by
  obtain ⟨target, v, -, -, hv, hn⟩ := h
  obtain ⟨v', n', other, m, hv', hn', hm, hp⟩ := hy
  obtain rfl := hv.eq ht hv' rfl
  cases hn.symm.trans hn'
  exact ⟨other, m, hm, hp⟩

/-- Every reference in an unfolded schema is replaced, and its target is at the start of no infinite
way. -/
theorem Unfolds.of_mentions (ht : t.Real) (h : Unfolds t known Admits kind doc v w)
    {reference : String} (hm : Mentions kind v reference) : ∃ x n u, Admits doc reference ∧
      Points t known doc reference x n ∧ Unfolds t known Admits .schema x.document n u ∧
      Acc (flip (Next t known)) x := by
  induction h generalizing reference with
  | data => exact absurd hm Mentions.not_data
  | leaf hmembers hitems => exact absurd hm (Mentions.not_leaf hmembers hitems)
  | array hlen _ ih =>
    cases hm with
    | here href => cases href
    | item hx hm =>
      obtain ⟨i, hi, rfl⟩ := List.getElem_of_mem hx
      exact ih i _ _ (List.getElem?_eq_getElem hi) (List.getElem?_eq_getElem (hlen ▸ hi)) hm
  | named hnames _ ih =>
    cases hm with
    | named hv hm =>
      obtain ⟨i, x, he, hx⟩ := exists_getElem?_of_names hnames hv
      exact ih i _ x he hx hm
  | plain href hnames _ ih =>
    cases hm with
    | here href' => cases href.symm.trans href'
    | member hv hm =>
      obtain ⟨i, x, he, hx⟩ := exists_getElem?_of_names hnames hv
      exact ih i _ x he hx hm
  | reference href hadmits hp hu hnames _ _ ihu ih =>
    cases hm with
    | here href' =>
      cases href.symm.trans href'
      refine ⟨_, _, _, hadmits, hp, hu, Acc.intro _ fun y hy => ?_⟩
      -- A way that starts here goes on through a reference in the target.
      obtain ⟨other, m, hm, hq⟩ := Next.of_points ht hp hy
      obtain ⟨x, n, u, -, hq', -, hacc⟩ := ihu hm
      obtain ⟨rfl, -⟩ := hq.unique ht hq'
      exact hacc
    | member hv hm =>
      rcases OrderedMap.mem_remove_or hv "$ref" with hv | ⟨-, hget⟩
      · obtain ⟨i, x, he, hx⟩ := exists_getElem?_of_names hnames hv
        exact ih i _ x he hx hm
      · rw [refText?_eq_some.mp href] at hget
        cases hget
        exact absurd hm Mentions.not_text

/-- From where no infinite way starts, no way leads back. -/
theorem not_same_of_acc {x : Target} (h : Acc (flip (Next t known)) x) {y : Target}
    (hy : Relation.TransGen (Next t known) x y) : x.same y = false := by
  induction h generalizing y with
  | intro x _ ih =>
    rw [← Bool.not_eq_true]
    intro hsame
    obtain ⟨z, hz, hway⟩ := Relation.TransGen.head'_iff.mp hy
    -- A way back to `x`, in whatever spelling, goes on as it started.
    obtain ⟨z', hz', hsame'⟩ := hz.congr hsame
    have hback := ih z hz (Relation.TransGen.tail' hway hz')
    rw [hsame'] at hback
    cases hback

/-- What is reached from an unfolded schema is unfolded itself. -/
theorem Unfolds.of_reached (ht : t.Real) {start : Path}
    (h : Unfolds t known Admits .schema start v w) {reference : String}
    (hr : Reached t known start v doc reference) : ∃ x n u, Admits doc reference ∧
      Points t known doc reference x n ∧ Unfolds t known Admits .schema x.document n u ∧
      Acc (flip (Next t known)) x := by
  induction hr with
  | here hm => exact h.of_mentions ht hm
  | next _ hp hm ih =>
    obtain ⟨x, n, u, -, hp', hu, -⟩ := ih
    obtain ⟨rfl, rfl⟩ := hp.unique ht hp'
    exact hu.of_mentions ht hm

/-- A schema that unfolds is grounded. -/
theorem Unfolds.grounded (ht : t.Real) {start : Path}
    (h : Unfolds t known (Located t known) .schema start v w) : Grounded t known start v where
  leads doc reference hr := by
    obtain ⟨x, n, u, hlocated, hp, -⟩ := h.of_reached ht hr
    exact ⟨hlocated, x, n, hp⟩
  acyclic doc reference x n hr hp y hy := by
    obtain ⟨x', n', u, -, hp', -, hacc⟩ := h.of_reached ht hr
    obtain ⟨rfl, -⟩ := hp.unique ht hp'
    exact not_same_of_acc hacc hy

/-- What is admitted and what is known matters for the references that are reached only. -/
theorem Unfolds.carry {known' : DocumentCache} {R : Path → String → Prop}
    (hnext : ∀ doc reference x n other, R doc reference → Points t known doc reference x n →
      Mentions .schema n other → R x.document other)
    (hR : ∀ doc reference x n, R doc reference → Points t known doc reference x n →
      Admits' doc reference ∧ Points t known' doc reference x n)
    (h : Unfolds t known Admits kind doc v w) (hall : ∀ reference, Mentions kind v reference →
      R doc reference) : Unfolds t known' Admits' kind doc v w := by
  induction h with
  | data => exact .data
  | leaf hm hi => exact .leaf hm hi
  | array hlen _ ih =>
    refine .array hlen fun i x y hx hy => ih i x y hx hy fun reference hm => hall reference ?_
    exact .item (List.mem_of_getElem? hx) hm
  | named hnames _ ih =>
    refine .named hnames fun i e x he hx => ih i e x he hx fun reference hm => hall reference ?_
    exact .named (List.mem_of_getElem? he) hm
  | plain href hnames _ ih =>
    refine .plain href hnames fun i e x he hx => ih i e x he hx fun reference hm => hall reference ?_
    exact .member (List.mem_of_getElem? he) hm
  | reference href _ hp _ hnames _ hw ihu ih =>
    have hreached := hall _ (.here href)
    obtain ⟨hadmits, hp'⟩ := hR _ _ _ _ hreached hp
    refine .reference href hadmits hp'
      (ihu fun other hm => hnext _ _ _ _ _ hreached hp hm) hnames (fun i e x he hx => ?_) hw
    refine ih i e x he hx fun reference hm => hall reference ?_
    exact .member (OrderedMap.mem_of_mem_remove (List.mem_of_getElem? he)) hm

end Dereference

end SchemaBindings
