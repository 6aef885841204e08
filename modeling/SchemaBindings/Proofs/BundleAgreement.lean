import SchemaBindings.Proofs.MemberLinks

/-! # Dereferencing a bundle

A document that is dereferenced and the document's schema in a bundle that is
dereferenced come to the same. Every reference in the bundle leads to where the
target of the document's reference stands, so the one unfolding can be followed
step by step in the other. They part at whole documents only: in a bundle root
keywords are taken off before references are replaced, otherwise afterwards. -/

namespace SchemaBindings.Dereference

open SchemaBindings.Bundle
open Json (Agrees)

variable {t : FileTree} {ds : List SchemaDocument}

/-! ## All documents in memory -/

theorem known_of_consistent (h : Consistent t ds) : ∀ d ∈ ds, ∀ v,
    Source t (knownFrom t ds) (documentKey t d.path) v → v = d.value := by
  intro d hd v hv
  have hfind := h.find?_knownFrom hd rfl
  rcases hv with hv | ⟨hnone, -⟩
  · exact Option.some.inj (hv.symm.trans hfind)
  · rw [hfind] at hnone
    cases hnone

/-- A document unfolds to the same if the others are in memory too. -/
theorem unfolds_knownFrom (h : Closed t ds) {d : SchemaDocument} (hd : d ∈ ds) {v : Json}
    (hu : Unfolds t (seededWith t d.value d.path) AnyReference .schema (documentKey t d.path) d.value v) :
    Unfolds t (knownFrom t ds) AnyReference .schema (documentKey t d.path) d.value v := by
  let R (doc : Path) (reference : String) : Prop := ∃ d' ∈ ds,
    (documentKey t d'.path).steps = doc.steps ∧ Mentions .schema d'.value reference
  have hlands {doc : Path} {reference : String} {x : Target} {n : Json} (hr : R doc reference)
      (hp : Points t (seededWith t d.value d.path) doc reference x n) :
      ∃ d', LandsIn t ds doc reference x n d' := by
    obtain ⟨d', hd', hsteps, hm⟩ := hr
    exact h.exists_landsIn (fun d' hd' v hv => h.consistent d hd d' hd' v hv)
      ((h.linked d' hd' reference hm).congr hsteps) hp
  refine hu.carry (R := R) (fun doc reference x n other hr hp hm => ?_)
    (fun doc reference x n hr hp => ⟨trivial, ?_⟩) fun reference hm => ⟨d, hd, rfl, hm⟩
  · obtain ⟨d', hland⟩ := hlands hr hp
    exact ⟨d', hland.mem, hland.steps, hland.mentions h hm⟩
  · obtain ⟨d', hland⟩ := hlands hr hp
    obtain ⟨target, v, hparse, rfl, -, -⟩ := hp
    exact ⟨target, d'.value, hparse, rfl, .inl (h.consistent.find?_knownFrom hland.mem hland.steps),
      hland.found⟩

/-- Where a whole document is a reference, root keywords may be taken off before it is replaced. -/
def RootFits (t : FileTree) (ds : List SchemaDocument) (d : SchemaDocument) : Prop :=
  ∀ (ms : Members) reference x n u, d.value = .object ms → refText? (.object ms) = some reference →
    Points t (knownFrom t ds) (documentKey t d.path) reference x n →
      Unfolds t (knownFrom t ds) AnyReference .schema x.document n u →
        Fits (taken x u) (ms.remove "$ref")

/-! ## Following one unfolding in another -/

/-- What becomes of a value by relinking, in a document that is known, unfolds to what the value does,
apart from the order of members. -/
def Carries (t : FileTree) (c : DocumentCache) (key : Path) (Goes : String → Pointer → Prop)
    (whole : Bool) (kind : ChildKind) (v u : Json) : Prop :=
  ∀ w, Relinked Goes kind (stripped whole v) w →
    ∃ u', Unfolds t c (Located t c) kind key w u' ∧ Agrees (stripped whole u) u'

section

variable {c : DocumentCache} {key : Path} {Goes : String → Pointer → Prop}

theorem exists_agreeing {R : String × Json → Json → Prop} {ks ms : Members} (hks : ks.Distinct)
    (hms : ms.Distinct) (hnames : ∀ name, (ms.get? name).isSome = (ks.get? name).isSome)
    (h : ∀ e ∈ ms, ∀ u, ks.get? e.1 = some u → ∃ w, R e w ∧ Agrees u w) :
    ∃ ns, Aligned R ms ns ∧ Agrees (.object ks) (.object ns) := by
  have heach : ∀ e ∈ ms, ∃ w, R e w ∧ ∀ u, ks.get? e.1 = some u → Agrees u w := by
    intro e he
    have hsome := hnames e.1
    rw [OrderedMap.get?_of_mem hms he] at hsome
    obtain ⟨u, hu⟩ := Option.isSome_iff_exists.mp hsome.symm
    obtain ⟨w, hw, hagree⟩ := h e he u hu
    exact ⟨w, hw, fun u' hu' => Option.some.inj (hu.symm.trans hu') ▸ hagree⟩
  obtain ⟨ns, hns⟩ := Aligned.exists_of_forall heach
  refine ⟨ns, hns.imp fun _ _ _ h => h.1, ?_⟩
  refine .object hks (hns.distinct hms) (fun name => ?_) fun name u w hu hw => ?_
  · rw [hns.names, ← not_iff_not, ← OrderedMap.get?_eq_none, ← OrderedMap.get?_eq_none,
      ← Option.isNone_iff_eq_none, ← Option.isNone_iff_eq_none, ← Option.not_isSome,
      ← Option.not_isSome, hnames]
  · obtain ⟨v, -, -, hagree⟩ := hns.exists_of_mem (OrderedMap.mem_of_get? hw)
    exact hagree u hu

theorem exists_items {P : Nat → Json → Prop} {length : Nat} (h : ∀ i < length, ∃ x, P i x) :
    ∃ xs : List Json, xs.length = length ∧ ∀ (i : Nat) x, xs[i]? = some x → P i x := by
  choose f hf using h
  refine ⟨List.ofFn fun i : Fin length => f i i.isLt, List.length_ofFn, fun i x hx => ?_⟩
  rw [List.getElem?_ofFn] at hx
  split at hx
  · rename_i hi
    cases hx
    exact hf i hi
  · cases hx

/-- Members that are relinked one by one unfold to members that agree. -/
theorem members_carried (kindFor : String → Json → ChildKind) (whole : Bool)
    (hkind : ∀ name v w, Relinked Goes (kindFor name v) v w → kindFor name w = kindFor name v)
    {ms ms' ns : Members} (hd : ms.Distinct) (hd' : ms'.Distinct)
    (hunfolds : Aligned (fun e u => Carries t c key Goes false (kindFor e.1 e.2) e.2 u) ms ns)
    (hnames : ∀ name, (ms'.get? name).isSome = ((strippedMembers whole ms).get? name).isSome)
    (hrelinked : ∀ e ∈ ms', ∃ v, (e.1, v) ∈ ms ∧ Relinked Goes (kindFor e.1 v) v e.2) :
    ∃ ns', Aligned (fun e w => Unfolds t c (Located t c) (kindFor e.1 e.2) key e.2 w) ms' ns' ∧
      Agrees (.object (strippedMembers whole ns)) (.object ns') := by
  have hns := hunfolds.distinct hd
  refine exists_agreeing (hns.stripped whole) hd' (fun name => ?_) fun e he u hu => ?_
  · rw [hnames, get?_stripped hd, get?_stripped hns]
    split
    · rfl
    · exact (OrderedMap.isSome_get?_of_names hunfolds.names name).symm
  · obtain ⟨v, hv, hform⟩ := hrelinked e he
    obtain ⟨u', hu', hcarries⟩ := hunfolds.exists_get? hd (OrderedMap.get?_of_mem hd hv)
    rw [get?_stripped hns] at hu
    split at hu
    · cases hu
    · cases hu.symm.trans hu'
      obtain ⟨w, hw, hagree⟩ := hcarries e.2 hform
      exact ⟨w, hkind e.1 v e.2 hform ▸ hw, hagree⟩

theorem array_carried {whole : Bool} {xs ys : List Json} (hlen : ys.length = xs.length)
    (h : ∀ (i : Nat) x y, xs[i]? = some x → ys[i]? = some y → Carries t c key Goes false .schema x y) :
    Carries t c key Goes whole .schema (.array xs) (.array ys) := by
  intro w hw
  rw [stripped_of_members? whole rfl] at hw ⊢
  cases hw with
  | leaf hm hi => cases hi
  | @array _ xs' hlen' hitems =>
    have heach : ∀ i < xs'.length, ∃ u', ∀ x' y, xs'[i]? = some x' → ys[i]? = some y →
        Unfolds t c (Located t c) .schema key x' u' ∧ Agrees y u' := by
      intro i hi
      have hx := List.getElem?_eq_getElem (hlen' ▸ hi)
      have hy := List.getElem?_eq_getElem (hlen.symm ▸ hlen' ▸ hi : i < ys.length)
      have hx' := List.getElem?_eq_getElem hi
      obtain ⟨u', hu', hagree⟩ := h i _ _ hx hy _ (hitems i _ _ hx hx')
      refine ⟨u', fun x' y hx'' hy' => ?_⟩
      cases hx'.symm.trans hx''
      cases hy.symm.trans hy'
      exact ⟨hu', hagree⟩
    obtain ⟨ys', hlen'', hys⟩ := exists_items heach
    refine ⟨.array ys', .array hlen'' fun i x' y' hx' hy' => ?_, .array (hlen''.trans (hlen'.trans hlen.symm))
      fun i y y' hy hy' => ?_⟩
    · obtain ⟨hi, -⟩ := List.getElem?_eq_some_iff.mp hx'
      have hy := List.getElem?_eq_getElem (hlen.symm ▸ hlen' ▸ hi : i < ys.length)
      exact (hys i y' hy' x' _ hx' hy).1
    · obtain ⟨hi, -⟩ := List.getElem?_eq_some_iff.mp hy'
      have hx' := List.getElem?_eq_getElem (hlen'' ▸ hi)
      exact (hys i y' hy' _ y hx' hy).2

theorem named_carried {ms ns : Members} (hd : ms.Distinct)
    (h : Aligned (fun e u => Carries t c key Goes false .schema e.2 u) ms ns) :
    Carries t c key Goes false .namedSchemas (.object ms) (.object ns) := by
  intro w hw
  cases hw with
  | @named _ ms' hnames hrelinked =>
    have hforms : Aligned (fun e w => Relinked Goes .schema e.2 w) ms ms' := ⟨hnames, hrelinked⟩
    obtain ⟨ns', hns', hagree⟩ := members_carried (fun _ _ => .schema) false
      (fun _ _ _ _ => rfl) hd (hforms.distinct hd) h (OrderedMap.isSome_get?_of_names hnames)
      fun e he => hforms.exists_of_mem he
    exact ⟨.object ns', .named hns'.names hns'.each, hagree⟩

theorem refText?_stripped {ms : Members} (hd : ms.Distinct) (whole : Bool) :
    refText? (.object (strippedMembers whole ms)) = refText? (.object ms) := by
  have hget : (strippedMembers whole ms).get? "$ref" = ms.get? "$ref" := by
    rw [get?_stripped hd, if_neg fun h => absurd h.2 (by decide)]
  rw [Option.ext_iff]
  intro reference
  rw [refText?_eq_some, refText?_eq_some, hget]

theorem mem_of_mem_stripped {whole : Bool} {ms : Members} {e : String × Json}
    (h : e ∈ strippedMembers whole ms) : e ∈ ms := by
  cases whole
  · exact h
  · exact OrderedMap.mem_of_mem_remove (OrderedMap.mem_of_mem_remove h)

theorem plain_carried {whole : Bool} {ms ns : Members} (hd : ms.Distinct)
    (href : refText? (.object ms) = none)
    (h : Aligned (fun e u => Carries t c key Goes false (kindOf e.1 e.2) e.2 u) ms ns) :
    Carries t c key Goes whole .schema (.object ms) (.object ns) := by
  intro w hw
  rw [stripped_object] at hw ⊢
  have hds := hd.stripped whole
  have hnone := (refText?_stripped hd whole).trans href
  cases hw with
  | leaf hm => cases hm
  | kept href' => cases href'.symm.trans hnone
  | @plain _ ms' _ hnames hrelinked =>
    have hforms : Aligned (fun e w => Relinked Goes (kindOf e.1 e.2) e.2 w) (strippedMembers whole ms)
      ms' := ⟨hnames, hrelinked⟩
    obtain ⟨ns', hns', hagree⟩ := members_carried kindOf whole (fun name _ _ hform => hform.kindOf_eq name)
      hd (hforms.distinct hds) h (OrderedMap.isSome_get?_of_names hnames) fun e he => by
        obtain ⟨v, hv, hform⟩ := hforms.exists_of_mem he
        exact ⟨v, mem_of_mem_stripped hv, hform⟩
    refine ⟨.object ns', .plain ?_ hns'.names hns'.each, hagree⟩
    exact Relinked.refText?_eq_none hds hnone hforms fun v text hform => hform.of_string

/-- A reference is written as one that leads, in the bundle, to what unfolds as its target does. -/
theorem reference_carried {whole : Bool} {ms ns : Members} {reference : String} {x : Target} {u : Json}
    (hd : ms.Distinct) (href : refText? (.object ms) = some reference)
    (hfits : whole = true → Fits (taken x u) ns)
    (h : Aligned (fun e u => Carries t c key Goes false (kindOf e.1 e.2) e.2 u) (ms.remove "$ref") ns)
    (htarget : ∀ l, Goes reference l → ∃ y u', Points t c key l.fragment ⟨key, l⟩ y ∧
      l.isRoot = false ∧ Unfolds t c (Located t c) .schema key y u' ∧ Agrees (taken x u) u')
    (hlocal : ∀ l, Goes reference l → Located t c key l.fragment) :
    Carries t c key Goes whole .schema (.object ms) (overlay (taken x u) ns) := by
  intro w hw
  rw [stripped_object] at hw
  have hds := hd.stripped whole
  have hsome := (refText?_stripped hd whole).trans href
  cases hw with
  | leaf hm => cases hm
  | plain href' => cases href'.symm.trans hsome
  | @kept _ ms' reference' l href' hgoes hnames htext hrelinked =>
    cases href'.symm.trans hsome
    obtain ⟨y, u', hp, hroot, hu', hagree⟩ := htarget l hgoes
    have hforms : Aligned (fun e w => e.1 ≠ "$ref" → Relinked Goes (kindOf e.1 e.2) e.2 w)
      (strippedMembers whole ms) ms' := ⟨hnames, hrelinked⟩
    have hd' := hforms.distinct hds
    have hdr := hd.remove "$ref"
    have hsame (name : String) : ((ms'.remove "$ref").get? name).isSome =
        ((strippedMembers whole (ms.remove "$ref")).get? name).isSome := by
      have hname := OrderedMap.isSome_get?_of_names hnames name
      rw [get?_stripped hd] at hname
      rw [OrderedMap.get?_remove hd', get?_stripped hdr, OrderedMap.get?_remove hd]
      split <;> split <;> simp_all
    obtain ⟨ns', hns', hsiblings⟩ := members_carried kindOf whole (fun name _ _ hform => hform.kindOf_eq name)
      hdr (hd'.remove "$ref") h hsame fun e he => by
        have hne : e.1 ≠ "$ref" := fun heq =>
          OrderedMap.not_mem_names_remove hd' "$ref" (List.mem_map.mpr ⟨e, he, heq⟩)
        obtain ⟨v, hv, hform⟩ := hforms.exists_of_mem (OrderedMap.mem_of_mem_remove he)
        exact ⟨v, OrderedMap.mem_remove_of_ne (mem_of_mem_stripped hv) hne, hform hne⟩
    refine ⟨overlay u' ns', ?_, agrees_overlay_stripped hfits hagree hsiblings (h.distinct hdr)⟩
    refine .reference (refText?_eq_some.mpr htext) (hlocal l hgoes) hp hu' hns'.names hns'.each ?_
    rw [overlays_iff, taken, hroot]
    rfl

end

/-! ## Documents of a bundle -/

/-- Where the documents are relinked, the target of a reference unfolds to what it does elsewhere. -/
theorem target_carried {c : DocumentCache} {key : Path} {definitions : Members}
    (hkey : c.find? key = some (documentOf definitions)) (hrelinks : Relinks t ds definitions)
    (hclosed : Closed t ds) {doc : Path} {reference : String} {x : Target} {n u : Json}
    {d : SchemaDocument} (hland : LandsIn t ds doc reference x n d)
    (hcarries : Carries t c key (Leads t (begun t ds).sites x.document) x.pointer.isRoot .schema n u)
    {l : Pointer} (hgoes : Leads t (begun t ds).sites doc reference l) :
    RefTarget.parse l.fragment = .ok ⟨none, l⟩ ∧ ∃ y u', Points t c key l.fragment ⟨key, l⟩ y ∧
      l.isRoot = false ∧ Unfolds t c (Located t c) .schema key y u' ∧ Agrees (taken x u) u' := by
  obtain rfl := hgoes.unique hland.place
  obtain ⟨w, hw, hform⟩ := hrelinks.exists_at? hland.mem
  obtain ⟨y, hy, hrelinked⟩ := hland.schema.relinked
    (proper_withoutRootKeywords (hclosed.proper d hland.mem)) hform
  rw [leads_congr hland.steps] at hrelinked
  obtain ⟨u', hu', hagree⟩ := hcarries y hrelinked
  have hlocation : (BundleMember.ofFile d.fileName).location.Spelled :=
    spelled_definitionsPlace.append (Pointer.spelled_name _)
  have hparse := Pointer.parse_fragment (hlocation.append hland.spelled)
    (List.append_ne_nil_of_left_ne_nil (List.append_ne_nil_of_right_ne_nil _ (List.cons_ne_nil _ _)) _)
    hland.writable
  refine ⟨hparse, y, u', ⟨_, documentOf definitions, hparse, rfl, .inl hkey, ?_⟩, rfl, hu', hagree⟩
  exact (hw _).trans hy

/-- What a value of a document unfolds to, it unfolds to in the bundle. -/
theorem Unfolds.carries (hclosed : Closed t ds) (hfits : ∀ d ∈ ds, RootFits t ds d)
    {c : DocumentCache} {key : Path} {definitions : Members}
    (hkey : c.find? key = some (documentOf definitions)) (hrelinks : Relinks t ds definitions)
    {kind : ChildKind} {doc : Path} {v u : Json}
    (h : Unfolds t (knownFrom t ds) AnyReference kind doc v u) (whole : Bool)
    (hwhole : whole = true → kind = .schema ∧ ∃ d ∈ ds,
      (documentKey t d.path).steps = doc.steps ∧ v = d.value)
    (hproper : v.Proper) (hlinked : ∀ reference, Mentions kind v reference → Linked t ds doc reference) :
    Carries t c key (Leads t (begun t ds).sites doc) whole kind v u := by
  induction h generalizing whole with
  | data =>
    intro w hw
    cases whole with
    | true => cases (hwhole rfl).1
    | false =>
      cases hw
      exact ⟨_, .data, .refl hproper.keyed⟩
  | leaf hm hi =>
    intro w hw
    rw [stripped_of_members? whole hm] at hw ⊢
    cases hw with
    | leaf => exact ⟨_, .leaf hm hi, .leaf hm hi⟩
    | array => cases hi
    | plain => cases hm
    | kept => cases hm
  | array hlen _ ih =>
    refine array_carried hlen fun i x y hx hy => ih i x y hx hy false (fun h => by cases h) ?_ ?_
    · exact hproper.of_mem (Json.item_mem_nodes (List.mem_of_getElem? hx))
    · exact fun reference hm => hlinked reference (.item (List.mem_of_getElem? hx) hm)
  | named hnames _ ih =>
    cases whole with
    | true => cases (hwhole rfl).1
    | false =>
      refine named_carried hproper.distinct ⟨hnames, fun i e x he hx =>
        ih i e x he hx false (fun h => by cases h) ?_ ?_⟩
      · exact hproper.of_mem (Json.member_mem_nodes (List.mem_of_getElem? he))
      · exact fun reference hm => hlinked reference (.named (List.mem_of_getElem? he) hm)
  | plain href hnames _ ih =>
    refine plain_carried hproper.distinct href ⟨hnames, fun i e x he hx =>
      ih i e x he hx false (fun h => by cases h) ?_ ?_⟩
    · exact hproper.of_mem (Json.member_mem_nodes (List.mem_of_getElem? he))
    · exact fun reference hm => hlinked reference (.member (List.mem_of_getElem? he) hm)
  | @reference doc ms ns reference x n u w href _ hp hu hnames _ hw ihu ih =>
    obtain rfl := overlays_iff.mp hw
    obtain ⟨d, hland⟩ := hclosed.exists_landsIn (known_of_consistent hclosed.consistent)
      (hlinked reference (.here href)) hp
    have hcarries := ihu x.pointer.isRoot (fun hroot => ⟨rfl, d, hland.mem, hland.steps, hland.eq_of_isRoot hroot⟩)
      (hland.proper hclosed) fun other hm => hland.linked hclosed hm
    have htarget {l : Pointer} := target_carried hkey hrelinks hclosed hland hcarries (l := l)
    refine reference_carried hproper.distinct href (fun hroot => ?_) ⟨hnames, fun i e x he hx =>
      ih i e x he hx false (fun h => by cases h) ?_ ?_⟩ (fun l hgoes => (htarget hgoes).2) fun l hgoes => ?_
    · obtain ⟨-, d, hd, hsteps, hvalue⟩ := hwhole hroot
      obtain ⟨x', hp', hsame⟩ := hp.congr hsteps.symm
      obtain ⟨hdocument, hpointer⟩ := Target.same_iff.mp hsame
      have hu' := hu.congr (fun _ _ _ _ _ => trivial) hdocument
      have hfit := hfits d hd ms reference x' n u hvalue.symm href hp' hu'
      unfold taken at hfit ⊢
      rw [hpointer]
      refine ⟨hfit.1, fun hnone name hname => ?_⟩
      rw [hnames]
      exact hfit.2 hnone name hname
    · exact hproper.of_mem (Json.member_mem_nodes
        (OrderedMap.mem_of_mem_remove (List.mem_of_getElem? he)))
    · exact fun reference hm => hlinked reference
        (.member (OrderedMap.mem_of_mem_remove (List.mem_of_getElem? he)) hm)
    · intro target file hparse hfile
      cases (htarget hgoes).1.symm.trans hparse
      cases hfile

/-- A bundle unfolds, and each schema in it to what its document unfolds to. -/
theorem exists_unfolds_documentOf (ht : t.Real) (hclosed : Closed t ds)
    (hfits : ∀ d ∈ ds, RootFits t ds d) {c : DocumentCache} {key : Path} {definitions : Members}
    (hkey : c.find? key = some (documentOf definitions)) (hrelinks : Relinks t ds definitions)
    (h : ∀ d ∈ ds, ∃ u, Unfolds t (knownFrom t ds) AnyReference .schema (documentKey t d.path) d.value u) :
    ∃ ns : Members, Unfolds t c (Located t c) .schema key (documentOf definitions)
        (.object [("$schema", .string dialect), ("$defs", .object ns)]) ∧
      ∀ d ∈ ds, ∀ u, Unfolds t (knownFrom t ds) AnyReference .schema (documentKey t d.path) d.value u →
        ∃ w, ns.get? (schemaStem d.fileName) = some w ∧ Agrees (withoutRootKeywords u) w := by
  let R (e : String × Json) (w : Json) : Prop := Unfolds t c (Located t c) .schema key e.2 w ∧
    ∀ d ∈ ds, schemaStem d.fileName = e.1 → ∀ u,
      Unfolds t (knownFrom t ds) AnyReference .schema (documentKey t d.path) d.value u →
        Agrees (withoutRootKeywords u) w
  have heach : ∀ e ∈ definitions, ∃ w, R e w := by
    intro e he
    obtain ⟨d, hd, hname⟩ := hrelinks.keyed e he
    obtain ⟨w₀, hw₀, hform⟩ := hrelinks.relinked d hd
    rw [← hname, OrderedMap.get?_of_mem hrelinks.distinct he] at hw₀
    cases hw₀
    obtain ⟨u, hu⟩ := h d hd
    obtain ⟨w, hw, hagree⟩ := hu.carries hclosed hfits hkey hrelinks true
      (fun _ => ⟨rfl, d, hd, rfl, rfl⟩) (hclosed.proper d hd) (hclosed.linked d hd) e.2 hform
    refine ⟨w, hw, fun d' hd' hname' u' hu' => ?_⟩
    obtain rfl := List.inj_on_of_nodup_map hclosed.stems hd' hd (hname'.trans hname)
    rw [hu'.unique ht hu]
    exact hagree
  obtain ⟨ns, hns⟩ := Aligned.exists_of_forall heach
  refine ⟨ns, ?_, fun d hd u hu => ?_⟩
  · rw [documentOf, OrderedMap.insertAll_nil hrelinks.distinct]
    refine .plain rfl rfl fun i e x he hx => ?_
    cases i with
    | zero =>
      cases he
      cases hx
      exact .leaf rfl rfl
    | succ i =>
      cases i with
      | zero =>
        cases he
        cases hx
        exact .named hns.names fun i e x he hx => (hns.each i e x he hx).1
      | succ i => cases he
  · obtain ⟨w₀, hw₀, -⟩ := hrelinks.relinked d hd
    obtain ⟨w, hw, -, hagrees⟩ := hns.exists_get? hrelinks.distinct hw₀
    exact ⟨w, hw, hagrees d hd rfl u hu⟩

/-! ## Whole bundles -/

theorem dereferenceDocument_eq_ok {d : SchemaDocument} {v : Json} :
    dereferenceDocument t d = .ok v ↔
      expandFrom t d.value (documentKey t d.path) (seededWith t d.value d.path) = .ok v := by
  change (expandFrom t d.value (documentKey t d.path) (seededWith t d.value d.path)).mapError _ = _ ↔ _
  cases expandFrom t d.value (documentKey t d.path) (seededWith t d.value d.path) with
  | error e => exact ⟨fun h => (by cases h), fun h => by cases h⟩
  | ok w => exact ⟨fun h => congrArg Except.ok (Except.ok.inj h), fun h => congrArg Except.ok (Except.ok.inj h)⟩

/-- Dereferencing the bundle of some documents gives, under the key of each, what dereferencing the
document gives, without root keywords and but for the order of members. -/
def Agreeing (t : FileTree) (ds : List SchemaDocument) (b : Bundle) (base : Path) : Prop :=
  ∃ w, dereferenceValue t b.document base = .ok w ∧ ∀ d ∈ ds, ∃ v u, dereferenceDocument t d = .ok v ∧
    Bundle.schema? ⟨w, b.members⟩ (BundleMember.ofFile d.fileName).key = some u ∧
    (withoutRootKeywords v).same u = true

/-- Documents that refer to each other only are bundled, and if each of them is dereferenced so is the
bundle, from wherever, and to the same. -/
theorem bundle_agrees (ht : t.Real) (hclosed : Closed t ds) (hfits : ∀ d ∈ ds, RootFits t ds d)
    (h : ∀ d ∈ ds, ∃ v, dereferenceDocument t d = .ok v) :
    ∃ b, ofDocuments t ds = .ok b ∧ b.members.Perm (ds.map fun d => .ofFile d.fileName) ∧
      ∀ base, Agreeing t ds b base := by
  obtain ⟨definitions, hok, hrelinks⟩ := hclosed.assembled ht
  refine ⟨_, hok, (List.mergeSort_perm ds _).map _, fun base => ?_⟩
  have hunfolds : ∀ d ∈ ds, ∀ v, dereferenceDocument t d = .ok v →
      Unfolds t (knownFrom t ds) AnyReference .schema (documentKey t d.path) d.value v :=
    fun d hd v hv => unfolds_knownFrom hclosed hd
      (unfolds_of_expandFrom ht (find?_seededWith ..) (dereferenceDocument_eq_ok.mp hv))
  have hkey := find?_seededWith t (documentOf definitions) base
  obtain ⟨ns, hns, hagrees⟩ := exists_unfolds_documentOf ht hclosed hfits hkey hrelinks fun d hd => by
    obtain ⟨v, hv⟩ := h d hd
    exact ⟨v, hunfolds d hd v hv⟩
  obtain ⟨w, hw⟩ := expandFrom_of_grounded ht hkey (hns.grounded ht)
  obtain rfl := (unfolds_of_expandFrom ht hkey hw).unique ht hns
  refine ⟨_, hw, fun d hd => ?_⟩
  obtain ⟨v, hv⟩ := h d hd
  obtain ⟨u, hu, hagree⟩ := hagrees d hd v (hunfolds d hd v hv)
  exact ⟨v, u, hv, hu, hagree.same⟩

/-! ## Two files of a directory -/

/-- A disk with the schema of a name and that of a person, who has two of them. -/
def peopleFolder : FileTree where
  entries := [
    ([.text "name.schema.json"], .file (.text "\x7b\"$id\":\"name\"\x7d")),
    ([.text "person.schema.json"], .file (.text
      "\x7b\"properties\":\x7b\"first\":\x7b\"$ref\":\"name.schema.json\"\x7d,\"last\":\x7b\"$ref\":\"#/properties/first\"\x7d\x7d\x7d"))]
  workingPlace := []

/-- The two schemas. -/
def people : List SchemaDocument := [
  .ofPath ⟨"name.schema.json"⟩ (.object [("$id", .string "name")]),
  .ofPath ⟨"person.schema.json"⟩ (.object [("properties", .object [
    ("first", .object [("$ref", .string "name.schema.json")]),
    ("last", .object [("$ref", .string "#/properties/first")])])])]

theorem bundle_agrees_people : ∃ b, ofDocuments peopleFolder people = .ok b ∧
    ∀ base, Agreeing peopleFolder people b base := by
  have ht : peopleFolder.Real := by decide +kernel
  have hread : ∀ d ∈ people, (readDocument peopleFolder d.path).toOption = some d.value := by
    decide +kernel
  have hlinked : ∀ d ∈ people, ∀ reference ∈ referenceTexts d.value,
      Linked peopleFolder people (documentKey peopleFolder d.path) reference := by decide +kernel
  have hclosed : Closed peopleFolder people := by
    refine ⟨by decide +kernel, by decide +kernel,
      consistent_of_read ht fun d hd => toOption_eq_some.mp (hread d hd), fun d hd reference hm => ?_⟩
    exact hlinked d hd reference (hm.mem_referenceTexts (Json.self_mem_nodes _))
  have hfits : ∀ d ∈ people, RootFits peopleFolder people d := by
    have hplain : ∀ d ∈ people, refText? d.value = none := by decide +kernel
    intro d hd ms reference x n u hvalue href
    rw [← hvalue, hplain d hd] at href
    cases href
  have hresults : ∀ d ∈ people, (dereferenceDocument peopleFolder d).toOption.isSome = true := by
    decide +kernel
  obtain ⟨b, hb, -, hall⟩ := bundle_agrees ht hclosed hfits fun d hd => by
    obtain ⟨v, hv⟩ := Option.isSome_iff_exists.mp (hresults d hd)
    exact ⟨v, toOption_eq_some.mp hv⟩
  exact ⟨b, hb, hall⟩

/-! ## Where the results part -/

/-- Documents refer to each other only and are dereferenced, and their bundle is not dereferenced to the
same. -/
def Differing (t : FileTree) (ds : List SchemaDocument) : Prop :=
  (ds.map fun d => schemaStem d.fileName).Nodup ∧
  (∀ d ∈ ds, ∀ reference, Mentions .schema d.value reference → ∃ target,
    RefTarget.parse reference = .ok target ∧ ∃ d' ∈ ds,
      (documentKey t d'.path).steps = (targetDocument t (documentKey t d.path) target).steps) ∧
  (∀ d ∈ ds, ∃ v, dereferenceDocument t d = .ok v) ∧
  ∃ b base, ofDocuments t ds = .ok b ∧ ¬ Agreeing t ds b base

/-- Whether dereferencing a bundle gives what dereferencing a document of it gives. -/
def agreesOn (t : FileTree) (b : Bundle) (base : Path) (d : SchemaDocument) : Bool :=
  (dereferenceValue t b.document base).toOption.any fun w =>
    (dereferenceDocument t d).toOption.any fun v =>
      (Bundle.schema? ⟨w, b.members⟩ (BundleMember.ofFile d.fileName).key).any fun u =>
        (withoutRootKeywords v).same u

theorem agreesOn_of_agreeing {b : Bundle} {base : Path} (h : Agreeing t ds b base) {d : SchemaDocument}
    (hd : d ∈ ds) : agreesOn t b base d = true := by
  obtain ⟨w, hw, hall⟩ := h
  obtain ⟨v, u, hv, hu, hsame⟩ := hall d hd
  unfold agreesOn
  rw [hw, hv]
  change (Bundle.schema? ⟨w, b.members⟩ _).any _ = true
  rw [hu]
  exact hsame

theorem differing_of_computed (hstems : (ds.map fun d => schemaStem d.fileName).Nodup)
    (hrefs : ∀ d ∈ ds, ∀ reference ∈ referenceTexts d.value, ∃ target ∈ (RefTarget.parse reference).toOption,
      ∃ d' ∈ ds, (documentKey t d'.path).steps = (targetDocument t (documentKey t d.path) target).steps)
    (hresults : ∀ d ∈ ds, (dereferenceDocument t d).toOption.isSome = true)
    (hb : (ofDocuments t ds).toOption.any (fun b =>
      ds.any fun d => !agreesOn t b d.path d) = true) : Differing t ds := by
  refine ⟨hstems, fun d hd reference hm => ?_, fun d hd => ?_, ?_⟩
  · obtain ⟨target, hparse, hto⟩ := hrefs d hd reference (hm.mem_referenceTexts (Json.self_mem_nodes _))
    exact ⟨target, toOption_eq_some.mp hparse, hto⟩
  · obtain ⟨v, hv⟩ := Option.isSome_iff_exists.mp (hresults d hd)
    exact ⟨v, toOption_eq_some.mp hv⟩
  · obtain ⟨b, hsome, hdiffers⟩ := (Option.any_eq_true _ _).mp hb
    obtain ⟨d, hd, hnot⟩ := List.any_eq_true.mp hdiffers
    refine ⟨b, d.path, toOption_eq_some.mp hsome, fun hagree => ?_⟩
    rw [agreesOn_of_agreeing hagree hd] at hnot
    cases hnot

/-- A schema in memory, under a name without a suffix. -/
def inMemory (name : String) (v : Json) : SchemaDocument := .ofPath ⟨name⟩ v

/-- A schema with a reference in a value that is data, and a reference to that value. -/
def intoData : Json := .object [("not", .bool true), ("default", .object [("$ref", .string "#/not")]),
  ("items", .object [("$ref", .string "#/default")])]

/-- A schema with a reference to the text of another one. -/
def intoText : Json := .object [("not", .bool true), ("then", .object [("$ref", .string "#/not")]),
  ("items", .object [("$ref", .string "#/then/$ref")])]

/-- A schema with a reference to its identifier. -/
def intoIdentifier : Json := .object [("$id", .string "a"), ("items", .object [("$ref", .string "#/$id")])]

/-- A schema that is a reference to one with an identifier. -/
def toIdentified : Json := .object [("not", .object [("$id", .string "a")]), ("$ref", .string "#/not")]

/-- A schema with an identifier that is a reference to one that is no object. -/
def besideIdentifier : Json := .object [("$id", .string "a"), ("not", .bool true),
  ("$ref", .string "#/not")]

/-- The results part if a reference leads into data, to a text or to what is taken off a document, if a
document is a reference and root keywords stand behind it or beside it, and if a file holds something else
than the document in memory. -/
theorem bundle_differs :
    (∀ v ∈ [intoData, intoText, intoIdentifier, toIdentified, besideIdentifier],
      Differing ⟨[], []⟩ [inMemory "a" v]) ∧
    Differing ⟨[([.text "b"], .file (.text "1"))], []⟩ [inMemory "a" (.object [("$ref", .string "b")]),
      inMemory "b" (.bool true)] := by
  refine ⟨fun v hv => differing_of_computed ?_ ?_ ?_ ?_, differing_of_computed ?_ ?_ ?_ ?_⟩
  · exact List.nodup_singleton _
  · revert v
    decide +kernel
  · revert v
    decide +kernel
  · revert v
    decide +kernel
  · decide +kernel
  · decide +kernel
  · decide +kernel
  · unfold ofDocuments assemble
    rw [show sortDocuments [inMemory "a" (.object [("$ref", .string "b")]),
      inMemory "b" (.bool true)] = _ from List.mergeSort_of_pairwise (by decide +kernel)]
    decide +kernel

end SchemaBindings.Dereference
