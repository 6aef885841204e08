import SchemaBindings.Proofs.LoweringBoxes

/-! # Aliases that are made of themselves

A box does not help an alias, which has no size of its own: an alias that names
itself, boxed or not, has no meaning. References become boxes or names as soon
as their target is open, whatever it is compiled to. So an alias names itself
exactly where the type of a schema is made around that schema again. -/

namespace SchemaBindings.Lowering

open Relation (TransGen ReflTransGen)

variable {root : Option Json} {s t : LowerState}

/-- The type of the first alias names the second one. -/
def Renames (items : List Item) (x y : Item) : Prop :=
  x ∈ items ∧ y ∈ items ∧ y.isAlias = true ∧ ∃ ty, x.shape = .alias ty ∧ y.name ∈ ty.names

/-- The type of the first schema is made around the type of the second. -/
inductive Bears (root : Option Json) : Json → Json → Prop where
  | core {v w : Json} (hw : w ∈ core root v) : Bears root v w
  | target {v w : Json} {reference : String} {p : Pointer} (hr : refText? v = some reference)
      (ht : localTarget? root reference = some (p, w)) : Bears root v w

/-! ## The core of a schema is a part of it -/

theorem lone_subset {α : Type} (xs : List α) : lone xs ⊆ xs := by
  match xs with
  | [] => exact List.Subset.refl _
  | [x] => exact List.Subset.refl _
  | x :: y :: rest => exact List.nil_subset _

theorem objectCore_subset (ms : Members) : objectCore ms ⊆ objectParts ms := by
  unfold objectCore objectParts
  rcases ms.get? "properties" with _ | v
  · exact List.Subset.refl _
  · cases v with
    | object properties => exact List.nil_subset _
    | _ => exact List.Subset.refl _

theorem kindCore_subset (ms : Members) (kind : String) : kindCore ms kind ⊆ kindParts ms kind := by
  intro w hw
  unfold kindCore at hw
  split at hw
  · exact hw
  · exact objectCore_subset ms hw
  · cases hw

theorem typeCore_subset (ms : Members) : typeCore ms ⊆ typeParts ms := by
  have hfree : (if ms.has "properties" || ms.has "additionalProperties" then objectCore ms
      else if ms.has "items" then itemParts ms else []) ⊆
      if ms.has "properties" || ms.has "additionalProperties" then objectParts ms
      else if ms.has "items" then itemParts ms else [] := by
    split
    · exact objectCore_subset ms
    · exact List.Subset.refl _
  unfold typeCore typeParts
  rcases ms.get? "type" with _ | v
  · exact hfree
  · cases v with
    | string kind => exact kindCore_subset ms kind
    | array kinds =>
      intro w hw
      obtain ⟨kind, hk, hw⟩ := List.mem_flatMap.mp hw
      exact List.mem_flatMap.mpr ⟨kind, lone_subset _ hk, kindCore_subset ms kind hw⟩
    | _ => exact hfree

theorem composedCore_subset (ms : Members) : composedCore root ms ⊆ composedParts root ms := by
  unfold composedCore composedParts
  rcases ms.get? "allOf" with _ | v
  · rcases unionArms? ms with _ | arms
    · exact typeCore_subset ms
    · exact lone_subset _
  · cases v with
    | array arms => exact List.Subset.refl _
    | _ =>
      rcases unionArms? ms with _ | arms
      · exact typeCore_subset ms
      · exact lone_subset _

theorem memberCore_subset (ms : Members) : memberCore root ms ⊆ memberParts root ms := by
  unfold memberCore memberParts
  rcases ms.get? "const" with _ | c
  · rcases ms.get? "enum" with _ | v
    · exact composedCore_subset ms
    · cases v with
      | array values => exact List.nil_subset _
      | _ => exact composedCore_subset ms
  · exact List.nil_subset _

theorem core_subset_parts (v : Json) : core root v ⊆ parts root v := by
  unfold core parts
  rcases refText? v with _ | reference
  · cases v with
    | object ms => exact memberCore_subset ms
    | _ => exact List.nil_subset _
  · exact List.nil_subset _

theorem Bears.leads {v w : Json} (h : Bears root v w) : Leads root v w := by
  cases h with
  | core hw => exact .part (core_subset_parts v hw)
  | target hr ht => exact .target hr ht

/-! ## From node to node -/

/-- The type of a node that references lead to is made around what a reference to another one
becomes. -/
def Next (root : Option Json) (p q : Pointer) : Prop :=
  ∃ target, IsTarget root p target ∧ Stands root target q

theorem IsTarget.unique {p : Pointer} {v w : Json} (hv : IsTarget root p v)
    (hw : IsTarget root p w) : v = w := by
  obtain ⟨_, hv⟩ := hv
  obtain ⟨_, hw⟩ := hw
  exact localTarget?_unique hv hw

/-- Where a type is made around a reference, the way leads to the target of the reference. -/
theorem Stands.bears {v : Json} {p : Pointer} (h : Stands root v p) :
    ∃ target, IsTarget root p target ∧ TransGen (Bears root) v target := by
  induction h with
  | reference hr ht => exact ⟨_, ⟨_, ht⟩, .single (.target hr ht)⟩
  | core hw _ ih =>
    obtain ⟨target, ht, hto⟩ := ih
    exact ⟨target, ht, .head (.core hw) hto⟩

theorem Next.bears {p q : Pointer} {v w : Json} (hv : IsTarget root p v) (hw : IsTarget root q w)
    (h : TransGen (Next root) p q) : TransGen (Bears root) v w := by
  induction h generalizing w with
  | single h =>
    obtain ⟨v', hv', hs⟩ := h
    obtain ⟨w', hw', hto⟩ := hs.bears
    rwa [hv.unique hv', hw.unique hw']
  | tail _ h ih =>
    obtain ⟨u, hu, hs⟩ := h
    obtain ⟨w', hw', hto⟩ := hs.bears
    rw [hw.unique hw']
    exact (ih hu).trans hto

/-- The way to a reference passes other references, one after the other. -/
theorem next_of_bears {v w target : Json} {p : Pointer} {reference : String}
    (hr : refText? w = some reference) (ht : localTarget? root reference = some (p, target))
    (h : ReflTransGen (Bears root) v w) :
    ∃ q, Stands root v q ∧ ReflTransGen (Next root) q p := by
  induction h using ReflTransGen.head_induction_on with
  | refl => exact ⟨p, .reference hr ht, .refl⟩
  | head hstep _ ih =>
    obtain ⟨q, hs, hto⟩ := ih
    cases hstep with
    | core hw => exact ⟨q, .core hw hs, hto⟩
    | target hr' ht' => exact ⟨_, .reference hr' ht', .head ⟨_, ⟨_, ht'⟩, hs⟩ hto⟩

/-- A way that passes no reference leads from schema to part. -/
theorem exists_reference_of_bears {v w : Json} (h : TransGen (Bears root) v w) :
    TransGen (Holds root) v w ∨ ∃ u reference p target, ReflTransGen (Bears root) v u ∧
      refText? u = some reference ∧ localTarget? root reference = some (p, target) ∧
        ReflTransGen (Bears root) target w := by
  induction h with
  | single hstep =>
    cases hstep with
    | core hw => exact .inl (.single (core_subset_parts v hw))
    | target hr ht => exact .inr ⟨v, _, _, _, .refl, hr, ht, .refl⟩
  | @tail w w' hvw hstep ih =>
    rcases ih with hparts | ⟨u, reference, p, target, hu, hr, ht, hto⟩
    · cases hstep with
      | core hw => exact .inl (hparts.tail (core_subset_parts w hw))
      | target hr ht => exact .inr ⟨w, _, _, _, hvw.to_reflTransGen, hr, ht, .refl⟩
    · exact .inr ⟨u, reference, p, target, hu, hr, ht, hto.tail hstep⟩

/-! ## What a compilation has come to -/

theorem foldlM_reached {go : List Pointer → Json → Option (List Pointer)} {p : Pointer}
    {Reached : Json → Prop} (hgo : ∀ {finished v final}, go finished v = some final → p ∈ final →
      p ∈ finished ∨ Reached v)
    {vs : List Json} {finished final : List Pointer} (h : vs.foldlM go finished = some final)
    (hp : p ∈ final) : p ∈ finished ∨ ∃ v ∈ vs, Reached v := by
  induction vs generalizing finished with
  | nil =>
    cases h
    exact .inl hp
  | cons v vs ih =>
    rw [List.foldlM_cons] at h
    obtain ⟨between, hv, hvs⟩ := Option.bind_eq_some_iff.mp h
    rcases ih hvs with hb | ⟨u, hu, hto⟩
    · exact (hgo hv hb).imp_right fun hto => ⟨v, List.mem_cons_self .., hto⟩
    · exact .inr ⟨u, List.mem_cons_of_mem _ hu, hto⟩

/-- A reference is finished because something leads to it. -/
theorem visit_reached (depth : Nat) {opened finished final : List Pointer} {v : Json} {p : Pointer}
    (h : visit root depth opened finished v = some final) (hp : p ∈ final) :
    p ∈ finished ∨ ∃ target, IsTarget root p target ∧ ReflTransGen (Leads root) v target := by
  induction depth generalizing opened finished final v with
  | zero => cases h
  | succ depth ih =>
    cases hr : refText? v with
    | none =>
      rw [visit_part hr] at h
      refine (foldlM_reached (fun hgo hp => ih hgo hp) h hp).imp_right ?_
      rintro ⟨w, hw, target, ht, hto⟩
      exact ⟨target, ht, .head (.part hw) hto⟩
    | some reference =>
      cases ht : localTarget? root reference with
      | none =>
        rw [visit_nowhere hr ht] at h
        cases h
        exact .inl hp
      | some found =>
        obtain ⟨q, target⟩ := found
        by_cases hk : q ∈ opened ∨ q ∈ finished
        · rw [visit_known hr ht hk] at h
          cases h
          exact .inl hp
        · obtain ⟨ho, hf⟩ := not_or.mp hk
          rw [visit_target hr ht ho hf] at h
          obtain ⟨inner, hi, rfl⟩ := Option.map_eq_some_iff.mp h
          have hstep : Leads root v target := .target hr ht
          rcases List.mem_cons.mp hp with rfl | hp
          · exact .inr ⟨target, ⟨reference, ht⟩, .single hstep⟩
          · exact (ih hi hp).imp_right fun ⟨u, hu, hto⟩ => ⟨u, hu, .head hstep hto⟩

theorem Fine.stands {known : List Pointer} {v : Json} {p : Pointer} (h : Fine root known v)
    (hs : Stands root v p) : p ∈ known := by
  induction hs with
  | reference hr ht => exact h.known_target hr ht
  | core hw _ ih => exact ih (h.part (core_subset_parts _ hw))

/-! ## Items and nodes -/

/-- A compilation that is over: nothing is open, and whatever a finished node leads to is finished
as well. -/
structure Over (root : Option Json) (built : List Item) (s : LowerState) : Prop
    extends Inv root built s where
  closed : s.inProgress = []
  next : ∀ p ∈ s.done, ∀ q, Next root p q → q ∈ s.done

variable {built : List Item}

/-- An alias is the type of the node that it is the name of. -/
theorem Over.alias_node (h : Over root built s) {x : Item} {ty : Ty} (hx : x ∈ built)
    (hshape : x.shape = .alias ty) :
    ∃ p ∈ s.done, ∃ target, s.named.lookup p = some x.name ∧ IsTarget root p target ∧
      Told built s.named ty (Stands root target) := by
  have halias : x.isAlias = true := by simp [Item.isAlias, hshape]
  obtain ⟨p, target, hp, ht⟩ := h.aliased x hx halias
  have hd : p ∈ s.done := by
    have hbegun := h.begun p x hx hp
    rwa [h.closed, or_iff_right List.not_mem_nil] at hbegun
  obtain ⟨y, hy, hpy, hset⟩ := h.settled p hd target ht
  obtain rfl : x = y := h.ordered.eq_of_name hx hy (Option.some.inj (hp.symm.trans hpy))
  rcases hset with ⟨ty', hshape', htold⟩ | ⟨hno, -⟩
  · cases hshape.symm.trans hshape'
    exact ⟨p, hd, target, hp, ht, htold⟩
  · rw [halias] at hno
    cases hno

/-- Where an alias names another one, the way leads from node to node. -/
theorem Over.next_of_renames (h : Over root built s) {x y : Item} (hxy : Renames built x y)
    {p : Pointer} (hp : s.named.lookup p = some x.name) :
    ∃ q, s.named.lookup q = some y.name ∧ Next root p q := by
  obtain ⟨hx, hy, ha, ty, hshape, hn⟩ := hxy
  obtain ⟨p', -, target, hp', ht, htold⟩ := h.alias_node hx hshape
  obtain rfl : p = p' := h.apart p p' _ hp hp'
  rcases htold.known y.name hn with ⟨z, hz, hzy, hno⟩ | ⟨q, hs, hq⟩
  · obtain rfl : z = y := h.ordered.eq_of_name hz hy hzy
    rw [ha] at hno
    cases hno
  · exact ⟨q, hq, target, ht, hs⟩

theorem Over.next_of_transGen (h : Over root built s) {x y : Item}
    (hxy : TransGen (Renames built) x y) {p : Pointer} (hp : s.named.lookup p = some x.name) :
    ∃ q, s.named.lookup q = some y.name ∧ TransGen (Next root) p q := by
  induction hxy with
  | single hxy =>
    obtain ⟨q, hq, hpq⟩ := h.next_of_renames hxy hp
    exact ⟨q, hq, .single hpq⟩
  | tail _ hyz ih =>
    obtain ⟨q, hq, hpq⟩ := ih
    obtain ⟨r, hr, hqr⟩ := h.next_of_renames hyz hq
    exact ⟨r, hr, hpq.tail hqr⟩

/-- The item of a node that leads on is an alias. -/
theorem Over.node_alias (h : Over root built s) {p q : Pointer} (hd : p ∈ s.done)
    (hpq : Next root p q) :
    ∃ x ∈ built, ∃ ty, s.named.lookup p = some x.name ∧ x.shape = .alias ty ∧
      ∃ n ∈ ty.names, s.named.lookup q = some n := by
  obtain ⟨target, ht, hs⟩ := hpq
  obtain ⟨x, hx, hp, hset⟩ := h.settled p hd target ht
  rcases hset with ⟨ty, hshape, htold⟩ | ⟨-, hnone⟩
  · obtain ⟨n, hq, hn⟩ := htold.around q hs
    exact ⟨x, hx, ty, hp, hshape, n, hn, hq⟩
  · exact absurd hs (hnone q)

theorem Over.renames_of_next (h : Over root built s) {p q : Pointer} (hd : p ∈ s.done)
    (hpq : TransGen (Next root) p q) (hq : ∃ r, Next root q r) {x : Item} (hx : x ∈ built)
    (hp : s.named.lookup p = some x.name) :
    q ∈ s.done ∧ ∃ y ∈ built, s.named.lookup q = some y.name ∧ TransGen (Renames built) x y := by
  have hstep {p q r : Pointer} {x : Item} (hd : p ∈ s.done) (hpq : Next root p q)
      (hqr : Next root q r) (hx : x ∈ built) (hp : s.named.lookup p = some x.name) :
      q ∈ s.done ∧ ∃ y ∈ built, s.named.lookup q = some y.name ∧ Renames built x y := by
    have hqd := h.next p hd q hpq
    obtain ⟨x', hx', ty, hp', hshape, n, hn, hq⟩ := h.node_alias hd hpq
    obtain rfl : x = x' := h.ordered.eq_of_name hx hx' (Option.some.inj (hp.symm.trans hp'))
    obtain ⟨y, hy, ty', hq', hshape', -⟩ := h.node_alias hqd hqr
    cases hq.symm.trans hq'
    exact ⟨hqd, y, hy, hq, hx, hy, by simp [Item.isAlias, hshape'], ty, hshape, hn⟩
  induction hpq with
  | single hpq =>
    obtain ⟨r, hqr⟩ := hq
    obtain ⟨hqd, y, hy, hq, hxy⟩ := hstep hd hpq hqr hx hp
    exact ⟨hqd, y, hy, hq, .single hxy⟩
  | tail _ hqr ih =>
    obtain ⟨r, hrs⟩ := hq
    obtain ⟨hqd, y, hy, hq, hxy⟩ := ih ⟨_, hqr⟩
    obtain ⟨hrd, z, hz, hr, hyz⟩ := hstep hqd hqr hrs hy hq
    exact ⟨hrd, z, hz, hr, hxy.tail hyz⟩

/-- An alias is made of itself exactly if a finished node leads back to itself. -/
theorem Over.renames_self_iff (h : Over root built s) :
    (∃ x, TransGen (Renames built) x x) ↔ ∃ p ∈ s.done, TransGen (Next root) p p := by
  constructor
  · rintro ⟨x, hloop⟩
    obtain ⟨y, hxy, -⟩ := TransGen.head'_iff.mp hloop
    obtain ⟨hx, -, -, ty, hshape, -⟩ := hxy
    obtain ⟨p, hd, -, hp, -⟩ := h.alias_node hx hshape
    obtain ⟨q, hq, hpq⟩ := h.next_of_transGen hloop hp
    rw [h.apart q p _ hq hp] at hpq
    exact ⟨p, hd, hpq⟩
  · rintro ⟨p, hd, hloop⟩
    obtain ⟨q, hpq, -⟩ := TransGen.head'_iff.mp hloop
    obtain ⟨x, hx, -, hp, -⟩ := h.node_alias hd hpq
    obtain ⟨-, y, hy, hp', hxy⟩ := h.renames_of_next hd hloop ⟨q, hpq⟩ hx hp
    rw [h.ordered.eq_of_name hy hx (Option.some.inj (hp'.symm.trans hp))] at hxy
    exact ⟨x, hxy⟩

/-! ## Bundles -/

theorem lowerBundleWith_over {b : Bundle} {depth : Nat}
    (hnames : (b.members.map fun m => Code.typeIdent m.canonicalName).Nodup)
    (hrun : Yields (lowerBundleWith depth b) .empty () t) :
    (∃ built, Over (some b.document) built t) ∧
      (b.members.map fun m => refTo m.reference).foldlM
        (visit (some b.document) (depth + 1) []) [] = some t.done := by
  obtain ⟨built, hinv, hclosed⟩ := lowerBundleWith_built hnames hrun
  have hvisit : (b.members.map fun m => refTo m.reference).foldlM
      (visit (some b.document) (depth + 1) []) [] = some t.done := by
    cases hv : (b.members.map fun m => refTo m.reference).foldlM
        (visit (some b.document) (depth + 1) []) [] with
    | none => cases ((lowerBundleWith_visits depth b).none_of (s := .empty) hv).symm.trans hrun
    | some final =>
      obtain ⟨_, _, hrun', -, hd⟩ := (lowerBundleWith_visits depth b).some_of (s := .empty) hv
      cases hrun.symm.trans hrun'
      rw [hd]
  refine ⟨⟨built, hinv, hclosed, fun p hp q hpq => ?_⟩, hvisit⟩
  obtain ⟨target, ⟨reference, ht⟩, hs⟩ := hpq
  have hc := Closes.foldlM (fun _ _ _ hvisit => visit_closes _ hvisit) hvisit
  exact (hc.targets p hp List.not_mem_nil reference target ht).stands hs

/-- A generated alias is made of itself exactly where the type of a schema that the compilation
comes to is made around that schema. -/
theorem aliases_recursive_iff {b : Bundle} {items : List Item}
    (hnames : (b.members.map fun m => Code.typeIdent m.canonicalName).Nodup)
    (h : lowerBundle b = some items) :
    (∃ x, TransGen (Renames items) x x) ↔
      ∃ m ∈ b.members, ∃ v, ReflTransGen (Leads (some b.document)) (refTo m.reference) v ∧
        TransGen (Bears (some b.document)) v v := by
  obtain ⟨t, hrun, rfl⟩ := lowerBundle_eq_some h
  obtain ⟨⟨built, hover⟩, hvisit⟩ := lowerBundleWith_over hnames hrun
  have hitems : Renames t.items = Renames built := by
    funext x y
    simp only [Renames, hover.items.mem_iff]
  rw [hitems, hover.renames_self_iff]
  constructor
  · rintro ⟨p, hp, hloop⟩
    rcases foldlM_reached (fun hgo hp => visit_reached _ hgo hp) hvisit hp with hp | ⟨v, hv, hto⟩
    · cases hp
    · obtain ⟨m, hm, rfl⟩ := List.mem_map.mp hv
      obtain ⟨target, ht, hto⟩ := hto
      exact ⟨m, hm, target, hto, Next.bears ht ht hloop⟩
  · rintro ⟨m, hm, v, hto, hloop⟩
    have hv : refTo m.reference ∈ b.members.map fun m => refTo m.reference :=
      List.mem_map_of_mem hm
    rcases exists_reference_of_bears hloop with hparts |
      ⟨u, reference, p, target, hu, hr, ht, hback⟩
    · exact absurd ⟨v, hto, hparts⟩ (not_loops_of_visit hvisit hv)
    · have hreach : ReflTransGen (Leads (some b.document)) (refTo m.reference) u :=
        hto.trans (hu.lift id fun _ _ h => h.leads)
      have hp : p ∈ t.done := (fine_of_reached hvisit hv hreach).known_target hr ht
      obtain ⟨q, hs, hqp⟩ := next_of_bears hr ht (hback.trans hu)
      exact ⟨p, hp, .head' ⟨target, ⟨reference, ht⟩, hs⟩ hqp⟩

/-! ## Lists of themselves -/

/-- Lists of what a reference leads to. -/
def listOf (reference : String) : Json :=
  .object [("type", .string "array"), ("items", refTo reference)]

/-- The bundle of a file with lists of such lists. -/
def nestedLists : Bundle where
  document := Bundle.documentOf [("a", listOf "#/$defs/a")]
  members := [⟨"a", "a.schema.json"⟩]

/-- The alias for such lists, with a box that does not help. -/
def nestedAlias : Item := ⟨"A", none, .alias (.array (.boxed (.named "A")))⟩

theorem renames_nestedAlias : TransGen (Renames [nestedAlias]) nestedAlias nestedAlias :=
  .single ⟨List.mem_singleton_self _, List.mem_singleton_self _, rfl, _, rfl,
    List.mem_singleton_self _⟩

theorem lowerBundle_nestedLists : lowerBundle nestedLists = some [nestedAlias] := by
  decide +kernel

theorem aliases_recursive_nestedLists :
    (nestedLists.members.map fun m => Code.typeIdent m.canonicalName).Nodup ∧
      lowerBundle nestedLists = some [nestedAlias] ∧
      ∃ m ∈ nestedLists.members, ∃ v,
        ReflTransGen (Leads (some nestedLists.document)) (refTo m.reference) v ∧
          TransGen (Bears (some nestedLists.document)) v v := by
  have hnames : (nestedLists.members.map fun m => Code.typeIdent m.canonicalName).Nodup :=
    List.nodup_singleton _
  exact ⟨hnames, lowerBundle_nestedLists,
    (aliases_recursive_iff hnames lowerBundle_nestedLists).mp ⟨_, renames_nestedAlias⟩⟩

/-- Lists of such lists are one schema file, and its type is an alias that names itself. -/
theorem ofDocuments_nestedLists :
    (Bundle.ofDocuments ⟨[], []⟩ [.ofPath ⟨"a.schema.json"⟩ (listOf "#")]).toOption =
        some nestedLists ∧
      (nestedLists.members.map fun m => Code.typeIdent m.canonicalName).Nodup ∧
      lowerBundle nestedLists = some [nestedAlias] ∧
      TransGen (Renames [nestedAlias]) nestedAlias nestedAlias :=
  ⟨by decide +kernel, List.nodup_singleton _, lowerBundle_nestedLists, renames_nestedAlias⟩

end SchemaBindings.Lowering
