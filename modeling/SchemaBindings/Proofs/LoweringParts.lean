import SchemaBindings.Proofs.JsonNodes
import SchemaBindings.Proofs.LoweringVisit

/-! # Where the parts of a schema come from

Merging the arms of an `allOf` makes a schema that stands nowhere in the
document. Its members do: each is a member of an arm, apart from `properties`,
whose values are, and `required`, which holds no schema. So the parts of a
merged schema are nodes of the document again. All this is said of any values
that are closed under what is in them: the nodes of a document are, and so are
those within one schema. -/

namespace SchemaBindings.Lowering

open OrderedMap (Distinct)

/-- Values of some kind, with all that is in them. -/
structure Closed (S : Json → Prop) : Prop where
  below : ∀ {v w}, S v → w ∈ v.nodes → S w
  distinct : ∀ {ms}, S (.object ms) → Distinct ms

/-- Schemas that are merged: among them are the arms of each and what each refers to. -/
structure AreArms (root : Option Json) (S A : Json → Prop) : Prop where
  kept : ∀ {v}, A v → S v
  arms : ∀ {ms : Members} {arms : List Json} {x : Json}, A (.object ms) →
    ms.get? "allOf" = some (.array arms) → x ∈ arms → A x
  target : ∀ {v reference found}, A v → refText? v = some reference →
    localTarget? root reference = some found → A found.2

/-- A value that may stand under a keyword of a merged schema. -/
def Fits (S : Json → Prop) (key : String) (v : Json) : Prop :=
  if key = "properties" then ∀ ps, v = .object ps → ∀ e ∈ ps, S e.2
  else key = "required" ∨ S v

/-- Members that come from such values, one by one. -/
structure Gathered (S : Json → Prop) (ms : Members) : Prop where
  distinct : Distinct ms
  fits : ∀ e ∈ ms, Fits S e.1 e.2

variable {S A : Json → Prop} {root : Option Json} {doc : Json}

theorem Closed.member (hS : Closed S) {ms : Members} {e : String × Json} (h : S (.object ms))
    (he : e ∈ ms) : S e.2 := hS.below h (Json.member_mem_nodes he)

theorem Closed.item (hS : Closed S) {xs : List Json} {x : Json} (h : S (.array xs)) (hx : x ∈ xs) :
    S x := hS.below h (Json.item_mem_nodes hx)

theorem Fits.of_value (hS : Closed S) {key : String} {v : Json} (h : S v) : Fits S key v := by
  unfold Fits
  split
  · rintro ps rfl e he
    exact hS.member h he
  · exact Or.inr h

theorem Fits.value {key : String} {v : Json} (h : Fits S key v) (hp : key ≠ "properties")
    (hr : key ≠ "required") : S v := by
  simpa [Fits, hp, hr] using h

theorem Fits.property {v : Json} {ps : Members} {e : String × Json}
    (h : Fits S "properties" v) (hv : v = .object ps) (he : e ∈ ps) : S e.2 := by
  simp only [Fits, if_true] at h
  exact h ps hv e he

theorem Gathered.of_members (hS : Closed S) {ms : Members} (hd : Distinct ms)
    (h : ∀ e ∈ ms, S e.2) : Gathered S ms := ⟨hd, fun e he => .of_value hS (h e he)⟩

theorem Gathered.of_object (hS : Closed S) {ms : Members} (h : S (.object ms)) : Gathered S ms :=
  .of_members hS (hS.distinct h) fun _ he => hS.member h he

theorem Gathered.of_get? {ms : Members} {key : String} {v : Json} (h : Gathered S ms)
    (hg : ms.get? key = some v) (hp : key ≠ "properties") (hr : key ≠ "required") : S v :=
  (h.fits _ (OrderedMap.mem_of_get? hg)).value hp hr

/-! ## Merging -/

theorem mem_addProperty {ms : Members} {new e : String × Json} (h : e ∈ addProperty ms new) :
    e ∈ ms ∨ e = new := by
  unfold addProperty at h
  split at h
  · exact Or.inl h
  · simpa using h

theorem mem_foldl_addProperty {new ms : Members} {e : String × Json}
    (h : e ∈ new.foldl addProperty ms) : e ∈ ms ∨ e ∈ new := by
  induction new generalizing ms with
  | nil => exact Or.inl h
  | cons x new ih =>
    rcases ih h with h | h
    · rcases mem_addProperty h with h | rfl
      · exact Or.inl h
      · exact Or.inr (List.mem_cons_self ..)
    · exact Or.inr (List.mem_cons_of_mem _ h)

/-- Members under distinct keys, each of which may stand where it does. -/
structure Each (F : String → Json → Prop) (ms : Members) : Prop where
  distinct : Distinct ms
  all : ∀ e ∈ ms, F e.1 e.2

/-- Two values that may stand under a keyword are merged to one that may. -/
def Merges (F : String → Json → Prop) : Prop :=
  ∀ {key v w}, F key v → F key w → F key (mergeValue key v w)

section Each

variable {F : String → Json → Prop} {target source merged : Members}

theorem Each.remove {ms : Members} (h : Each F ms) (key : String) : Each F (ms.remove key) where
  distinct := h.distinct.remove key
  all e he := h.all e (OrderedMap.mem_of_mem_remove he)

theorem mergeMember_each (hF : Merges F) {e : String × Json} (ht : Each F target)
    (he : F e.1 e.2) : Each F (mergeMember target e) := by
  unfold mergeMember
  split
  · rename_i hn
    rw [← OrderedMap.insert_of_not_mem e.2 (OrderedMap.get?_eq_none.mp hn)]
    refine ⟨ht.distinct.insert _ _, fun x hx => ?_⟩
    rcases OrderedMap.mem_insert hx with hx | rfl
    · exact ht.all x hx
    · exact he
  · rename_i existing hs
    refine ⟨ht.distinct.insert _ _, fun x hx => ?_⟩
    rcases OrderedMap.mem_insert hx with hx | rfl
    · exact ht.all x hx
    · exact hF (ht.all _ (OrderedMap.mem_of_get? hs)) he

theorem mergeSchema_each (hF : Merges F) (ht : Each F target) (hs : Each F source) :
    Each F (mergeSchema target source) := by
  obtain ⟨-, hs⟩ := hs
  unfold mergeSchema
  induction source generalizing target with
  | nil => exact ht
  | cons e source ih =>
    obtain ⟨he, hs⟩ := List.forall_mem_cons.mp hs
    exact ih (mergeMember_each hF ht he) hs

theorem mergeAll_cons {schemaOf : Json → Option Members} {x : Json} {xs : List Json} :
    mergeAll schemaOf target (x :: xs) = some merged ↔ ∃ flat, schemaOf x = some flat ∧
      mergeAll schemaOf (mergeSchema target flat) xs = some merged := by
  unfold mergeAll
  rw [List.foldlM_cons, Option.bind_eq_bind, Option.bind_eq_some_iff]
  constructor
  · rintro ⟨next, hnext, hrest⟩
    obtain ⟨flat, hflat, rfl⟩ := Option.map_eq_some_iff.mp hnext
    exact ⟨flat, hflat, hrest⟩
  · rintro ⟨flat, hflat, hrest⟩
    exact ⟨_, Option.map_eq_some_iff.mpr ⟨flat, hflat, rfl⟩, hrest⟩

theorem mergeAll_each {schemaOf : Json → Option Members} {xs : List Json} (hF : Merges F)
    (ht : Each F target) (hx : ∀ x ∈ xs, ∀ flat, schemaOf x = some flat → Each F flat)
    (h : mergeAll schemaOf target xs = some merged) : Each F merged := by
  induction xs generalizing target with
  | nil =>
    cases h
    exact ht
  | cons x xs ih =>
    obtain ⟨hfirst, hx⟩ := List.forall_mem_cons.mp hx
    obtain ⟨flat, hflat, hrest⟩ := mergeAll_cons.mp h
    exact ih (mergeSchema_each hF ht (hfirst flat hflat)) hx hrest

end Each

theorem mergeValue_fits : Merges (Fits S) := by
  intro key existing incoming he hi
  unfold mergeValue
  split
  · rename_i a b
    split
    · rename_i hk
      subst hk
      simp only [Fits, if_true]
      rintro ps hps e hm
      cases hps
      rcases mem_foldl_addProperty hm with hm | hm
      · exact he.property rfl hm
      · exact hi.property rfl hm
    · exact he
  · split
    · rename_i hk
      subst hk
      simp [Fits]
    · exact he
  · exact he

theorem get?_mergeMember_of_ne {target : Members} {e : String × Json} {key : String}
    (hk : e.1 ≠ key) : (mergeMember target e).get? key = target.get? key := by
  unfold mergeMember
  split
  · exact OrderedMap.get?_append_of_ne hk
  · exact OrderedMap.get?_insert_of_ne hk

theorem get?_mergeSchema {source target : Members} {key : String}
    (h : source.get? key = none) : (mergeSchema target source).get? key = target.get? key := by
  have hk := OrderedMap.get?_eq_none.mp h
  clear h
  unfold mergeSchema
  induction source generalizing target with
  | nil => rfl
  | cons e source ih =>
    rw [OrderedMap.names, List.map_cons, List.mem_cons, not_or] at hk
    rw [List.foldl_cons, ih hk.2]
    exact get?_mergeMember_of_ne (Ne.symm hk.1)

theorem get?_mergeAll {schemaOf : Json → Option Members} {xs : List Json}
    {target merged : Members} {key : String}
    (hx : ∀ x ∈ xs, ∀ flat, schemaOf x = some flat → flat.get? key = none)
    (h : mergeAll schemaOf target xs = some merged) : merged.get? key = target.get? key := by
  induction xs generalizing target with
  | nil =>
    cases h
    rfl
  | cons x xs ih =>
    obtain ⟨hfirst, hx⟩ := List.forall_mem_cons.mp hx
    obtain ⟨flat, hflat, hrest⟩ := mergeAll_cons.mp h
    exact (ih hx hrest).trans (get?_mergeSchema (hfirst flat hflat))

theorem localTarget?_node (hroot : ∀ v, root = some v → v = doc)
    {reference : String} {found : Pointer × Json} (h : localTarget? root reference = some found) :
    found.2 ∈ doc.nodes ∧ doc.at? found.1 = some found.2 := by
  unfold localTarget? at h
  obtain ⟨v, hv, h⟩ := Option.bind_eq_some_iff.mp h
  obtain ⟨q, _, h⟩ := Option.bind_eq_some_iff.mp h
  obtain ⟨u, hu, h⟩ := Option.bind_eq_some_iff.mp h
  cases h
  rw [← hroot v hv]
  exact ⟨Json.at?_mem_nodes hu, hu⟩

/-- An arm's own members with what its reference leads to merged in. -/
def withTarget (root : Option Json) (depth : Nat) (ms : Members) : Option Members :=
  match refText? (.object ms) with
  | some reference =>
    (localTarget? root reference).bind fun found =>
      (flatten root depth found.2).map (mergeSchema (ms.remove "$ref"))
  | none => some (ms.remove "$ref")

theorem flatten_object {depth : Nat} {ms : Members} :
    flatten root (depth + 1) (.object ms) =
      (withTarget root depth ms).bind fun own =>
        match own.get? "allOf" with
        | some (.array arms) => mergeAll (flatten root depth) (own.remove "allOf") arms
        | _ => some (own.remove "allOf") := by
  simp only [flatten, withTarget, refText?]
  rcases OrderedMap.get? ms "$ref" with _ | v
  · rfl
  · cases v <;> rfl

section Flatten

variable {F : String → Json → Prop} {ms own flat : Members}

theorem withTarget_each (hF : Merges F) {depth : Nat} (hms : Each F ms)
    (h : withTarget root depth ms = some own)
    (htarget : ∀ {reference found flat}, refText? (.object ms) = some reference →
      localTarget? root reference = some found → flatten root depth found.2 = some flat →
        Each F flat ∧ flat.get? "$ref" = none ∧ flat.get? "allOf" = none) :
    Each F own ∧ own.get? "$ref" = none ∧ own.get? "allOf" = ms.get? "allOf" := by
  have hfree : (ms.remove "$ref").get? "$ref" = none := OrderedMap.get?_remove_self hms.distinct
  have harms : (ms.remove "$ref").get? "allOf" = ms.get? "allOf" :=
    OrderedMap.get?_remove_of_ne hms.distinct (by decide)
  unfold withTarget at h
  split at h
  · rename_i reference hr
    obtain ⟨found, hf, h⟩ := Option.bind_eq_some_iff.mp h
    obtain ⟨flat, hflat, rfl⟩ := Option.map_eq_some_iff.mp h
    obtain ⟨heach, hnoRef, hnoArms⟩ := htarget hr hf hflat
    exact ⟨mergeSchema_each hF (hms.remove _) heach, (get?_mergeSchema hnoRef).trans hfree,
      (get?_mergeSchema hnoArms).trans harms⟩
  · cases h
    exact ⟨hms.remove _, hfree, harms⟩

/-- A flattened arm is made of members of the schemas that it is merged from, and has no reference and
no arms. -/
theorem flatten_each (hF : Merges F) (hA : AreArms root S A)
    (hown : ∀ {ms}, A (.object ms) → Each F ms) (depth : Nat) {arm : Json} (harm : A arm)
    (h : flatten root depth arm = some flat) :
    Each F flat ∧ flat.get? "$ref" = none ∧ flat.get? "allOf" = none := by
  induction depth generalizing arm flat with
  | zero => cases h
  | succ depth ih =>
    cases arm with
    | bool b =>
      cases b with
      | false => cases h
      | true =>
        cases h
        exact ⟨⟨List.nodup_nil, fun e he => by cases he⟩, rfl, rfl⟩
    | object members =>
      rw [flatten_object] at h
      obtain ⟨own, ho, h⟩ := Option.bind_eq_some_iff.mp h
      obtain ⟨heach, hr, ha⟩ := withTarget_each hF (hown harm) ho
        fun hr hf hflat => ih (hA.target harm hr hf) hflat
      have hnoArms : (own.remove "allOf").get? "allOf" = none :=
        OrderedMap.get?_remove_self heach.distinct
      have hnoRef : (own.remove "allOf").get? "$ref" = none := by
        rw [OrderedMap.get?_remove_of_ne heach.distinct (by decide)]
        exact hr
      split at h
      · rename_i arms harms
        have hall (x : Json) (hx : x ∈ arms) (flat : Members)
            (hflat : flatten root depth x = some flat) :=
          ih (hA.arms harm (ha.symm.trans harms) hx) hflat
        have hmerged := mergeAll_each hF (heach.remove _)
          (fun x hx flat hflat => (hall x hx flat hflat).1) h
        refine ⟨hmerged, ?_, ?_⟩
        · rw [get?_mergeAll (fun x hx flat hflat => (hall x hx flat hflat).2.1) h, hnoRef]
        · rw [get?_mergeAll (fun x hx flat hflat => (hall x hx flat hflat).2.2) h, hnoArms]
      · cases h
        exact ⟨heach.remove _, hnoRef, hnoArms⟩
    | _ => cases h

end Flatten

/-- What an arm is merged as: a schema without reference and without arms. -/
structure Flat (S : Json → Prop) (ms : Members) : Prop extends Gathered S ms where
  noRef : ms.get? "$ref" = none
  noArms : ms.get? "allOf" = none

theorem gathered_iff {ms : Members} : Gathered S ms ↔ Each (Fits S) ms :=
  ⟨fun h => ⟨h.distinct, h.fits⟩, fun h => ⟨h.distinct, h.all⟩⟩

theorem flatten_flat (hS : Closed S) (hA : AreArms root S A) (depth : Nat) {arm : Json}
    {ms : Members} (harm : A arm) (h : flatten root depth arm = some ms) : Flat S ms := by
  obtain ⟨heach, hr, ha⟩ := flatten_each mergeValue_fits hA
    (fun hms => gathered_iff.mp (.of_object hS (hA.kept hms))) depth harm h
  exact ⟨gathered_iff.mpr heach, hr, ha⟩

/-! ## Parts -/

theorem extraParts_of {ms : Members} {w : Json} (h : Gathered S ms) (hw : w ∈ extraParts ms) :
    S w := by
  unfold extraParts at hw
  split at hw
  · rename_i values hv
    rw [List.mem_singleton.mp hw]
    exact h.of_get? hv (by decide) (by decide)
  · cases hw

theorem objectParts_of {ms : Members} {w : Json} (h : Gathered S ms) (hw : w ∈ objectParts ms) :
    S w := by
  unfold objectParts at hw
  split at hw
  · rename_i properties hp
    rcases List.mem_append.mp hw with hw | hw
    · obtain ⟨e, he, rfl⟩ := List.mem_map.mp hw
      exact (h.fits _ (OrderedMap.mem_of_get? hp)).property rfl he
    · exact extraParts_of h hw
  · exact extraParts_of h hw

theorem itemParts_of {ms : Members} {w : Json} (h : Gathered S ms) (hw : w ∈ itemParts ms) :
    S w := by
  unfold itemParts at hw
  split at hw
  case h_3 => cases hw
  all_goals
    rename_i item hi
    rw [List.mem_singleton.mp hw]
    exact h.of_get? hi (by decide) (by decide)

theorem kindParts_of {ms : Members} {kind : String} {w : Json} (h : Gathered S ms)
    (hw : w ∈ kindParts ms kind) : S w := by
  unfold kindParts at hw
  split at hw
  · exact itemParts_of h hw
  · exact objectParts_of h hw
  · cases hw

theorem typeParts_of {ms : Members} {w : Json} (h : Gathered S ms) (hw : w ∈ typeParts ms) :
    S w := by
  unfold typeParts at hw
  split at hw
  · exact kindParts_of h hw
  · obtain ⟨kind, -, hk⟩ := List.mem_flatMap.mp hw
    exact kindParts_of h hk
  · split at hw
    · exact objectParts_of h hw
    · split at hw
      · exact itemParts_of h hw
      · cases hw

theorem unionArms?_of (hS : Closed S) {ms : Members} {arms : List Json} {w : Json}
    (h : Gathered S ms) (ha : unionArms? ms = some arms) (hw : w ∈ arms) : S w := by
  unfold unionArms? at ha
  split at ha
  · cases ha
  · have hitem : ∀ {key}, ms.get? key = some (.array arms) → key ≠ "properties" →
        key ≠ "required" → S w := fun hk hp hr => hS.item (h.of_get? hk hp hr) hw
    split at ha
    · rename_i hone
      cases ha
      exact hitem hone (by decide) (by decide)
    · rename_i hany _
      cases ha
      exact hitem hany (by decide) (by decide)
    · cases ha

/-- What the arms of an `allOf` are merged to stands nowhere, but its parts do. -/
structure Merged (S : Json → Prop) (ms : Members) : Prop extends Gathered S ms where
  noRef : refText? (.object ms) = none
  noArms : ms.get? "allOf" = none

theorem mergedParts_merged (hS : Closed S) (hA : AreArms root S A) {ms : Members}
    {arms : List Json} {w : Json} (hown : Gathered S ms) (harms : ∀ x ∈ arms, A x)
    (hr : refText? (.object ms) = none) (hw : w ∈ mergedParts root ms arms) :
    ∃ merged, w = .object merged ∧ Merged S merged := by
  unfold mergedParts at hw
  split at hw
  · rename_i merged hm
    have hflat (x : Json) (hx : x ∈ arms) (flat : Members)
        (h : flatten root (mergeDepth + 1) x = some flat) : Flat S flat :=
      flatten_flat hS hA _ (harms x hx) h
    have heach := mergeAll_each mergeValue_fits ((gathered_iff.mp hown).remove "allOf")
      (fun x hx flat h => gathered_iff.mp (hflat x hx flat h).toGathered) hm
    have hgr := get?_mergeAll (fun x hx flat h => (hflat x hx flat h).noRef) hm
    have hga := get?_mergeAll (fun x hx flat h => (hflat x hx flat h).noArms) hm
    refine ⟨merged, List.mem_singleton.mp hw, gathered_iff.mpr heach, ?_, ?_⟩
    · rw [OrderedMap.get?_remove_of_ne hown.distinct (by decide)] at hgr
      simpa only [refText?, hgr] using hr
    · rw [hga, OrderedMap.get?_remove_self hown.distinct]
  · cases hw

/-- The parts of a schema are values in it, but for the one that the arms of an `allOf` make
together. -/
theorem memberParts_of (hS : Closed S) {ms : Members} {w : Json} (h : Gathered S ms)
    (hw : w ∈ memberParts root ms) :
    S w ∨ ∃ arms, ms.get? "allOf" = some (.array arms) ∧ w ∈ mergedParts root ms arms := by
  unfold memberParts at hw
  split at hw
  · cases hw
  · split at hw
    · cases hw
    · unfold composedParts at hw
      split at hw
      · rename_i arms ha
        exact Or.inr ⟨arms, ha, hw⟩
      · split at hw
        · rename_i arms ha
          exact Or.inl (unionArms?_of hS h ha (List.mem_of_mem_filter hw))
        · exact Or.inl (typeParts_of h hw)

theorem parts_object {v w : Json} (hw : w ∈ parts root v) :
    ∃ ms, v = .object ms ∧ refText? v = none ∧ w ∈ memberParts root ms := by
  unfold parts at hw
  split at hw
  · rename_i ms hr
    exact ⟨ms, rfl, hr, hw⟩
  · cases hw

/-- The parts of a merged schema are values that it was merged from. -/
theorem Merged.parts_of (hS : Closed S) {ms : Members} {w : Json} (h : Merged S ms)
    (hw : w ∈ parts root (.object ms)) : S w := by
  obtain ⟨_, heq, -, hw⟩ := parts_object hw
  cases heq
  rcases memberParts_of hS h.toGathered hw with hw | ⟨arms, ha, -⟩
  · exact hw
  · rw [h.noArms] at ha
    cases ha

/-! ## Parts of a document -/

theorem closed_nodes (hd : doc.Keyed) : Closed (· ∈ doc.nodes) where
  below hv hw := Json.mem_nodes_trans doc hv hw
  distinct h := (hd.of_mem h).distinct

theorem areArms_nodes (hd : doc.Keyed) (hroot : ∀ v, root = some v → v = doc) :
    AreArms root (· ∈ doc.nodes) (· ∈ doc.nodes) where
  kept h := h
  arms hv ha hx := (closed_nodes hd).item ((closed_nodes hd).member hv (OrderedMap.mem_of_get? ha)) hx
  target _ _ hf := (localTarget?_node hroot hf).1

/-- The parts of a schema of the document are schemas of the document or a merged one. -/
theorem parts_node (hd : doc.Keyed) (hroot : ∀ v, root = some v → v = doc) {v w : Json}
    (hv : v ∈ doc.nodes) (hw : w ∈ parts root v) :
    w ∈ doc.nodes ∨ ∃ merged, w = .object merged ∧ Merged (· ∈ doc.nodes) merged := by
  obtain ⟨ms, rfl, hr, hw⟩ := parts_object hw
  have hown := Gathered.of_object (closed_nodes hd) hv
  rcases memberParts_of (closed_nodes hd) hown hw with hw | ⟨arms, ha, hw⟩
  · exact Or.inl hw
  · have hA := areArms_nodes hd hroot
    exact Or.inr (mergedParts_merged (closed_nodes hd) hA hown
      (fun x hx => hA.arms hv ha hx) hr hw)

end SchemaBindings.Lowering
