import SchemaBindings.Proofs.BundleLinks
import SchemaBindings.Proofs.BundleSites
import SchemaBindings.Proofs.JsonAgreement

/-! # Documents that refer to each other only

If all references of some documents lead to schemas of these documents, the
bundle of them comes about in one way: the documents have their places from the
start, every reference is written as the place that it leads to, and no file is
read. The same documents are known then as when one of them is dereferenced. -/

namespace SchemaBindings

namespace Mentions

open SchemaBindings.Bundle (kindBelow kindAt Plain)

variable {kind : ChildKind} {v u n : Json} {reference : String}

theorem of_kindBelow {token : String} (hu : Pointer.step? v token = some u)
    (h : Mentions (kindBelow kind v token u) u reference) : Mentions kind v reference := by
  cases kind with
  | data => exact absurd h not_data
  | namedSchemas =>
    cases v with
    | object ms => exact .named (OrderedMap.mem_of_get? hu) h
    | _ => exact absurd h not_data
  | schema =>
    cases v with
    | object ms => exact .member (OrderedMap.mem_of_get? hu) h
    | array xs =>
      obtain ⟨i, -, hx⟩ := Option.bind_eq_some_iff.mp hu
      exact .item (List.mem_of_getElem? hx) h
    | _ => exact absurd h not_data

/-- The references of a schema below a value are references of the value. -/
theorem of_kindAt {tokens : List String} (hn : v.at? ⟨tokens⟩ = some n)
    (hkind : kindAt kind v tokens = .schema) (h : Mentions .schema n reference) :
    Mentions kind v reference := by
  induction tokens generalizing kind v with
  | nil =>
    cases hn
    cases hkind
    exact h
  | cons token rest ih =>
    rw [Json.at?_cons] at hn
    obtain ⟨u, hu, hn⟩ := Option.bind_eq_some_iff.mp hn
    rw [kindAt, hu] at hkind
    exact of_kindBelow hu (ih hn hkind)

theorem not_plain (hv : Plain v) : ¬ Mentions kind v reference := by
  intro h
  obtain ⟨w, hw, href⟩ := h.exists_node
  rw [hv w hw] at href
  cases href

end Mentions

namespace Bundle

open Dereference (Points seededWith find?_seededWith)

variable {t : FileTree} {ds : List SchemaDocument}

/-! ## Schemas that pointers lead to -/

/-- In a value a pointer leads to a schema or to what holds no references, and not to the text of a
reference. -/
structure SchemaAt (v : Json) (p : Pointer) (n : Json) : Prop where
  found : v.at? p = some n
  node : ToNode v p.tokens
  read : kindAt .schema v p.tokens = .schema ∨ Plain n

/-- Only the last token can lead to the text of a reference. -/
theorem toNode_iff {v : Json} {tokens : List String} : ToNode v tokens ↔
    ∀ token ∈ tokens.getLast?, ∀ a ∈ v.at? ⟨tokens.dropLast⟩,
      (refText? a).isSome = true → Pointer.unescapeToken token ≠ "$ref" := by
  constructor
  · intro h token htoken a ha
    exact h _ token a (List.dropLast_append_getLast? token htoken).symm ha
  · rintro h before token a rfl ha
    exact h token (by simp) a (by simpa using ha)

instance (v : Json) (p : Pointer) : Decidable (∃ n, SchemaAt v p n) :=
  decidable_of_iff (∃ n ∈ v.at? p, (∀ token ∈ p.tokens.getLast?, ∀ a ∈ v.at? ⟨p.tokens.dropLast⟩,
    (refText? a).isSome = true → Pointer.unescapeToken token ≠ "$ref") ∧
      (kindAt .schema v p.tokens = .schema ∨ Plain n)) <| exists_congr fun _ =>
    ⟨fun h => ⟨h.1, toNode_iff.mpr h.2.1, h.2.2⟩, fun h => ⟨h.found, toNode_iff.mp h.node, h.read⟩⟩

namespace SchemaAt

variable {v w n : Json} {p : Pointer}

theorem mentions (h : SchemaAt v p n) {reference : String} (hm : Mentions .schema n reference) :
    Mentions .schema v reference :=
  h.read.elim (fun hkind => .of_kindAt h.found hkind hm) fun hplain => absurd hm (Mentions.not_plain hplain)

/-- Where a schema was there is the schema relinked. -/
theorem relinked {Goes : String → Pointer → Prop} (h : SchemaAt v p n) (hv : v.Proper)
    (hw : Relinked Goes .schema v w) : ∃ x, w.at? p = some x ∧ Relinked Goes .schema n x := by
  obtain ⟨x, hx, hform⟩ := hw.walk hv h.found h.node
  refine ⟨x, hx, ?_⟩
  rcases h.read with hkind | hplain
  · exact hkind ▸ hform
  · rw [hform.eq_of_plain hplain]
    exact .of_plain hplain

/-- What is there without root keywords is there with them, apart from the document itself. -/
theorem of_withoutRootKeywords (h : SchemaAt (withoutRootKeywords v) p n) (hv : v.Proper) :
    ∃ m, v.at? p = some m ∧ n = stripped p.isRoot m := by
  obtain ⟨tokens⟩ := p
  have hfound := h.found
  cases tokens with
  | nil =>
    cases hfound
    exact ⟨v, rfl, rfl⟩
  | cons token rest =>
    refine ⟨n, ?_, rfl⟩
    cases v with
    | object ms =>
      rw [Json.at?_cons] at hfound
      obtain ⟨u, hu, hn⟩ := Option.bind_eq_some_iff.mp hfound
      have hget : (withoutRoot ms).get? (Pointer.unescapeToken token) = some u := hu
      rw [get?_withoutRoot hv.distinct] at hget
      split at hget
      · cases hget
      · rw [Json.at?_cons, Pointer.step?, hget, Option.bind_some, hn]
    | _ => exact hfound

end SchemaAt

/-! ## Links between documents -/

/-- A reference in a document leads to a schema of one of some documents, and where that stands in
their bundle can be written as a reference. -/
def Linked (t : FileTree) (ds : List SchemaDocument) (doc : Path) (reference : String) : Prop :=
  ∃ target, RefTarget.parse reference = .ok target ∧
    (∃ d ∈ ds, (documentKey t d.path).steps = (targetDocument t doc target).steps) ∧
    ∀ d ∈ ds, (documentKey t d.path).steps = (targetDocument t doc target).steps →
      (∃ n, SchemaAt (withoutRootKeywords d.value) target.pointer n) ∧
      RefTarget.isRemote ((BundleMember.ofFile d.fileName).location.append
        target.pointer.tokens).fragment = false

instance (doc : Path) (reference : String) : Decidable (Linked t ds doc reference) :=
  decidable_of_iff (∃ target ∈ (RefTarget.parse reference).toOption,
    (∃ d ∈ ds, (documentKey t d.path).steps = (targetDocument t doc target).steps) ∧
    ∀ d ∈ ds, (documentKey t d.path).steps = (targetDocument t doc target).steps →
      (∃ n, SchemaAt (withoutRootKeywords d.value) target.pointer n) ∧
      RefTarget.isRemote ((BundleMember.ofFile d.fileName).location.append
        target.pointer.tokens).fragment = false) <| by
    simp only [Linked, Option.mem_def, toOption_eq_some]

/-- Whichever of some documents is in memory, those known under the paths of the others are these. -/
def Consistent (t : FileTree) (ds : List SchemaDocument) : Prop :=
  ∀ d ∈ ds, ∀ d' ∈ ds, ∀ v,
    Source t (seededWith t d.value d.path) (documentKey t d'.path) v → v = d'.value

/-- Documents that refer to each other only, and can be told apart in a bundle. -/
structure Closed (t : FileTree) (ds : List SchemaDocument) : Prop where
  stems : (ds.map fun d => schemaStem d.fileName).Nodup
  proper : ∀ d ∈ ds, d.value.Proper
  consistent : Consistent t ds
  linked : ∀ d ∈ ds, ∀ reference, Mentions .schema d.value reference →
    Linked t ds (documentKey t d.path) reference

theorem Linked.congr {doc doc' : Path} {reference : String} (h : Linked t ds doc reference)
    (hdoc : doc.steps = doc'.steps) : Linked t ds doc' reference := by
  obtain ⟨target, hparse, hd, hall⟩ := h
  have hsteps := targetDocument_congr (t := t) hdoc target
  rw [hsteps] at hd hall
  exact ⟨target, hparse, hd, hall⟩

/-- One document is known under a path. -/
theorem Consistent.value_eq (h : Consistent t ds) {d d' : SchemaDocument} (hd : d ∈ ds) (hd' : d' ∈ ds)
    (hsteps : (documentKey t d.path).steps = (documentKey t d'.path).steps) : d.value = d'.value := by
  refine h d hd d' hd' d.value (.inl ?_)
  rw [← DocumentCache.find?_congr _ hsteps]
  exact find?_seededWith t d.value d.path

/-- All of the documents are known when their bundle is begun. -/
theorem Consistent.find?_knownFrom (h : Consistent t ds) {d : SchemaDocument} (hd : d ∈ ds) {doc : Path}
    (hsteps : (documentKey t d.path).steps = doc.steps) :
    (knownFrom t ds).find? doc = some d.value := by
  obtain ⟨d', hd', -, hplace⟩ := exists_place_of_mem (t := t) hd
  obtain ⟨part, hpart, -, hdocument, hvalue⟩ := (seeded_knownFrom t ds).paired _ _ hplace
  obtain ⟨d₀, hd₀, rfl⟩ := List.mem_map.mp hpart
  rw [← DocumentCache.find?_congr _ hsteps, ← h.value_eq (List.mem_mergeSort.mp hd₀) hd hdocument]
  exact hvalue

/-- Documents that are what their files hold are consistent. -/
theorem consistent_of_read (ht : t.Real) (h : ∀ d ∈ ds, readDocument t d.path = .ok d.value) :
    Consistent t ds := by
  have hkey : ∀ d ∈ ds, t.canonical? (documentKey t d.path) = some (documentKey t d.path) ∧
      readDocument t (documentKey t d.path) = .ok d.value := by
    intro d hd
    have hread := h d hd
    unfold readDocument at hread ⊢
    split at hread
    · cases hread
    · rename_i text htext
      obtain ⟨q, hq, hqtext⟩ := FileTree.readText_canonical ht htext
      have hkey : documentKey t d.path = q := by
        rw [documentKey, hq]
        rfl
      rw [hkey, hqtext]
      exact ⟨FileTree.canonical?_canonical ht hq, hread⟩
  intro d hd d' hd' v hv
  obtain ⟨hself, hread⟩ := hkey d' hd'
  rcases hv with hv | ⟨-, p, hp, hcanonical, hpread⟩
  · have hfind : (seededWith t d.value d.path).find? (documentKey t d'.path) =
        if (documentKey t d'.path).steps = (documentKey t d.path).steps then some d.value else none :=
      DocumentCache.find?_put ..
    rw [hfind] at hv
    split at hv
    · rename_i hsteps
      obtain ⟨hself', hread'⟩ := hkey d hd
      rw [FileTree.eq_of_canonical? ht hself hself' hsteps, hread'] at hread
      cases hv
      exact Except.ok.inj hread
    · cases hv
  · rw [FileTree.eq_of_canonical? ht hcanonical hself hp, hread] at hpread
    exact (Except.ok.inj hpread).symm

/-- A reference goes to where its target stands below the place of a document. -/
theorem Linked.exists_place {doc : Path} {reference : String} (h : Linked t ds doc reference) :
    ∃ d ∈ ds, ∃ target n, RefTarget.parse reference = .ok target ∧
      (documentKey t d.path).steps = (targetDocument t doc target).steps ∧
      SchemaAt (withoutRootKeywords d.value) target.pointer n ∧
      site? (begun t ds).sites (targetDocument t doc target) target.pointer =
        some ((BundleMember.ofFile d.fileName).location.append target.pointer.tokens) ∧
      RefTarget.isRemote ((BundleMember.ofFile d.fileName).location.append
        target.pointer.tokens).fragment = false := by
  obtain ⟨target, hparse, ⟨d, hd, hsteps⟩, hall⟩ := h
  obtain ⟨d', hd', hsteps', hplace⟩ := exists_place_of_mem (t := t) hd
  obtain ⟨⟨n, hn⟩, hlocal⟩ := hall d' hd' (hsteps'.trans hsteps)
  refine ⟨d', hd', target, n, hparse, hsteps'.trans hsteps, hn, ?_, hlocal⟩
  refine site?_eq_of_atRoot (seeded_knownFrom t ds).atRoot ?_ _
  exact (placeOf?_same hsteps).symm.trans hplace

theorem Leads.unique {sites : List Site} {doc : Path} {reference : String} {l l' : Pointer}
    (h : Leads t sites doc reference l) (h' : Leads t sites doc reference l') : l = l' := by
  obtain ⟨target, hparse, hsite⟩ := h
  obtain ⟨target', hparse', hsite'⟩ := h'
  cases hparse.symm.trans hparse'
  exact Option.some.inj (hsite.symm.trans hsite')

theorem leads_congr {sites : List Site} {doc doc' : Path} (hdoc : doc.steps = doc'.steps) :
    Leads t sites doc = Leads t sites doc' := by
  have hsame (target : RefTarget) : site? sites (targetDocument t doc target) target.pointer =
      site? sites (targetDocument t doc' target) target.pointer :=
    siteFrom?_same (targetDocument_congr hdoc target) _ _
  funext reference l
  unfold Leads
  simp only [hsame]

/-- A reference in a document leads to a node of one of some documents, which is a schema there, and to a
place below that of the document, which can be written as a reference. -/
structure LandsIn (t : FileTree) (ds : List SchemaDocument) (doc : Path) (reference : String)
    (x : Target) (n : Json) (d : SchemaDocument) : Prop where
  mem : d ∈ ds
  steps : (documentKey t d.path).steps = x.document.steps
  found : d.value.at? x.pointer = some n
  schema : SchemaAt (withoutRootKeywords d.value) x.pointer (stripped x.pointer.isRoot n)
  spelled : x.pointer.Spelled
  place : Leads t (begun t ds).sites doc reference
    ((BundleMember.ofFile d.fileName).location.append x.pointer.tokens)
  writable : RefTarget.isRemote ((BundleMember.ofFile d.fileName).location.append
    x.pointer.tokens).fragment = false

theorem Closed.exists_landsIn (h : Closed t ds) {known : DocumentCache}
    (hknown : ∀ d ∈ ds, ∀ v, Source t known (documentKey t d.path) v → v = d.value) {doc : Path}
    {reference : String} {x : Target} {n : Json} (hl : Linked t ds doc reference)
    (hp : Points t known doc reference x n) : ∃ d, LandsIn t ds doc reference x n d := by
  obtain ⟨d, hd, target, m, hparse, hsteps, hschema, hsite, hwritable⟩ := hl.exists_place
  obtain ⟨target', v, hparse', rfl, hv, hn⟩ := hp
  cases hparse.symm.trans hparse'
  obtain rfl := hknown d hd v (hv.congr hsteps.symm)
  obtain ⟨n', hn', rfl⟩ := hschema.of_withoutRootKeywords (h.proper d hd)
  cases hn.symm.trans hn'
  exact ⟨d, hd, hsteps, hn, hschema, spelled_of_parse hparse, ⟨target, hparse, hsite⟩, hwritable⟩

namespace LandsIn

variable {doc : Path} {reference : String} {x : Target} {n : Json} {d : SchemaDocument}

theorem eq_of_isRoot (h : LandsIn t ds doc reference x n d) (hroot : x.pointer.isRoot = true) :
    n = d.value := by
  have hfound := h.found
  rw [show x.pointer = .root from congrArg Pointer.mk (List.isEmpty_iff.mp hroot)] at hfound
  exact (Option.some.inj hfound).symm

theorem proper (h : LandsIn t ds doc reference x n d) (hc : Closed t ds) : n.Proper :=
  (hc.proper d h.mem).of_mem (Json.at?_mem_nodes h.found)

/-- The references of the node are references of the document. -/
theorem mentions (h : LandsIn t ds doc reference x n d) (hc : Closed t ds) {other : String}
    (hm : Mentions .schema n other) : Mentions .schema d.value other := by
  cases hroot : x.pointer.isRoot with
  | true => exact h.eq_of_isRoot hroot ▸ hm
  | false =>
    have hschema := h.schema
    rw [hroot] at hschema
    exact Mentions.of_withoutRootKeywords (hc.proper d h.mem).keyed (hschema.mentions hm)

theorem linked (h : LandsIn t ds doc reference x n d) (hc : Closed t ds) {other : String}
    (hm : Mentions .schema n other) : Linked t ds x.document other :=
  (hc.linked d h.mem other (h.mentions hc hm)).congr h.steps

end LandsIn

/-! ## Bundling them -/

/-- A reference to one of the documents is kept, and nothing else changes. -/
theorem Linked.arrives (ht : t.Real) (hc : Consistent t ds) {doc : Path} {reference : String}
    (h : Linked t ds doc reference) {depth : Nat} (hdepth : 0 < depth) :
    Arrives (· = begun t ds) (Leads t (begun t ds).sites doc) (followRef t depth) doc reference := by
  obtain ⟨d, hd, target, n, hparse, hsteps, -, hsite, -⟩ := h.exists_place
  obtain ⟨depth, rfl⟩ := Nat.exists_eq_add_one_of_ne_zero (Nat.ne_of_gt hdepth)
  rintro spot s rfl
  refine ⟨_, ?_, _, rfl, target, hparse, hsite⟩
  have htarget : Runs (followTarget t (followRef t depth) reference doc spot target
      (targetDocument t doc target)) (begun t ds) (.placed _) (begun t ds) := followTarget_of_site? hsite
  have hknown : ((begun t ds).cache.find? (targetDocument t doc target)).isSome = true := by
    rw [show (begun t ds).cache = knownFrom t ds from rfl, hc.find?_knownFrom hd hsteps]
    rfl
  rw [followRef_succ]
  have hread : Runs (DocumentCache.resolve.liftExcept (RefTarget.parse reference))
      (begun t ds).cache target (begun t ds).cache := by
    rw [hparse]
    rfl
  refine (withCache_of_runs hread).andThen ?_
  unfold targetDocument at hknown htarget
  cases hfile : target.file? with
  | none =>
    rw [hfile] at htarget
    exact htarget
  | some file =>
    rw [hfile] at hknown htarget
    have hlocate := DocumentCache.locate_of_find? reference hknown
    obtain ⟨-, hself, -⟩ := DocumentCache.locate_eq_ok ht hlocate
    refine Runs.andThen (withCache_of_runs (a := documentKey t (doc.directory.join file))
      (c := (begun t ds).cache) (Runs.andThen (a := (begun t ds).cache) rfl ?_)) htarget
    refine Runs.andThen (a := documentKey t (doc.directory.join file)) (u := (begun t ds).cache) ?_ ?_
    · rw [hlocate]
      rfl
    · rw [hself]
      rfl

/-- The definitions of a bundle are the documents relinked, each under its key. -/
structure Relinks (t : FileTree) (ds : List SchemaDocument) (definitions : Members) : Prop where
  distinct : definitions.Distinct
  keyed : ∀ e ∈ definitions, ∃ d ∈ ds, e.1 = schemaStem d.fileName
  relinked : ∀ d ∈ ds, ∃ w, definitions.get? (schemaStem d.fileName) = some w ∧
    Relinked (Leads t (begun t ds).sites (documentKey t d.path)) .schema (withoutRootKeywords d.value) w

/-- Each document stands at its place. -/
theorem Relinks.exists_at? {definitions : Members} (h : Relinks t ds definitions) {d : SchemaDocument}
    (hd : d ∈ ds) : ∃ w, (∀ tokens, (documentOf definitions).at?
        ((BundleMember.ofFile d.fileName).location.append tokens) = w.at? ⟨tokens⟩) ∧
      Relinked (Leads t (begun t ds).sites (documentKey t d.path)) .schema
        (withoutRootKeywords d.value) w := by
  obtain ⟨w, hw, hform⟩ := h.relinked d hd
  refine ⟨w, fun tokens => ?_, hform⟩
  have hplace : (BundleMember.ofFile d.fileName).location.append tokens =
      definitionsPlace.append (Pointer.escapeToken (schemaStem d.fileName) :: tokens) :=
    congrArg Pointer.mk (List.append_assoc ..)
  rw [hplace, at?_documentOf h.distinct]
  exact Json.at?_entry h.distinct (OrderedMap.mem_of_get? hw) tokens

theorem relocateParts_of_runs {depth : Nat} {s : State} {parts : List Part} {R : Part → Json → Prop}
    (h : ∀ part ∈ parts, ∃ w, Runs (relocateNode (followRef t depth) part.document
      part.member.location (withoutRootKeywords part.source.value)) s w s ∧ R part w) :
    ∃ definitions, relocateParts t depth s parts = .ok (definitions, s) ∧
      ∀ e ∈ definitions, ∃ part ∈ parts, e.1 = part.member.key ∧ R part e.2 := by
  induction parts with
  | nil => exact ⟨[], rfl, fun _ he => absurd he List.not_mem_nil⟩
  | cons part parts ih =>
    obtain ⟨w, hrun, hw⟩ := h part (List.mem_cons_self ..)
    obtain ⟨definitions, hok, hforms⟩ := ih fun part hp => h part (List.mem_cons_of_mem _ hp)
    refine ⟨(part.member.key, w) :: definitions, ?_, fun e he => ?_⟩
    · have hrun : (relocateNode (followRef t depth) part.document part.member.location
        (withoutRootKeywords part.source.value)).run s = (.ok w, s) := hrun
      rw [relocateParts, hrun]
      dsimp only
      rw [hok]
    · rcases List.mem_cons.mp he with rfl | he
      · exact ⟨part, List.mem_cons_self .., rfl, hw⟩
      · obtain ⟨part', hpart, hname, hform⟩ := hforms e he
        exact ⟨part', List.mem_cons_of_mem _ hpart, hname, hform⟩

/-- Documents that refer to each other only are bundled by writing their references anew. -/
theorem Closed.assembled (ht : t.Real) (h : Closed t ds) : ∃ definitions,
    ofDocuments t ds = .ok ⟨documentOf definitions, (sortDocuments ds).map fun d => .ofFile d.fileName⟩ ∧
      Relinks t ds definitions := by
  have hdepth : 0 < (knownFrom t ds).allowance t :=
    Nat.zero_lt_of_lt (Dereference.length_linksInReach_lt t (knownFrom t ds))
  let R (part : Part) : Json → Prop := Relinked (Leads t (begun t ds).sites part.document) .schema
    (withoutRootKeywords part.source.value)
  have hparts : ∀ part ∈ (sortDocuments ds).map (partOf t), ∃ w, Runs (partRun t ds part)
      (begun t ds) w (begun t ds) ∧ R part w := by
    intro part hpart
    obtain ⟨d, hd, rfl⟩ := List.mem_map.mp hpart
    have hd : d ∈ ds := List.mem_mergeSort.mp hd
    have hproper := h.proper d hd
    have hnode : NodeKeeps (· = begun t ds) (Leads t (begun t ds).sites (documentKey t d.path))
        (followRef t ((knownFrom t ds).allowance t)) (documentKey t d.path) (withoutRootKeywords d.value) :=
      relocateNode_keeps (proper_withoutRootKeywords hproper)
    refine hnode (fun reference hm => ?_) _ _ rfl
    exact (h.linked d hd reference (Mentions.of_withoutRootKeywords hproper.keyed hm)).arrives ht
      h.consistent hdepth
  obtain ⟨definitions, hok, hforms⟩ := relocateParts_of_runs hparts
  have hnames : definitions.names = (sortDocuments ds).map fun d => schemaStem d.fileName := by
    rw [names_of_relocateParts hok, List.map_map]
    rfl
  refine ⟨definitions, ?_, distinct_of_relocateParts h.stems hok, fun e he => ?_, fun d hd => ?_⟩
  · unfold ofDocuments
    rw [assemble_eq]
    change (((relocateParts t ((knownFrom t ds).allowance t) (begun t ds)
      ((sortDocuments ds).map (partOf t))).map _).map _) = _
    rw [hok]
    exact congrArg (fun members => Except.ok (Bundle.mk (documentOf definitions) members))
      (List.map_map ..)
  · obtain ⟨part, hpart, hname, -⟩ := hforms e he
    obtain ⟨d, hd, rfl⟩ := List.mem_map.mp hpart
    exact ⟨d, List.mem_mergeSort.mp hd, hname⟩
  · have hkey : schemaStem d.fileName ∈ definitions.names := by
      rw [hnames]
      exact List.mem_map_of_mem (List.mem_mergeSort.mpr hd)
    obtain ⟨w, hw⟩ := OrderedMap.exists_get?_of_mem_names hkey
    obtain ⟨part, hpart, hname, hform⟩ := hforms _ (OrderedMap.mem_of_get? hw)
    obtain ⟨d', hd', rfl⟩ := List.mem_map.mp hpart
    obtain rfl := List.inj_on_of_nodup_map h.stems hd (List.mem_mergeSort.mp hd') hname
    exact ⟨w, hw, hform⟩

end Bundle

end SchemaBindings
