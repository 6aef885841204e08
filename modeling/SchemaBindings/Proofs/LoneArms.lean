import SchemaBindings.Proofs.LoweringEnds
import SchemaBindings.Proofs.LoweringItems
import SchemaBindings.Proofs.Merging

/-! # An `allOf` with one arm

Such a schema is compiled as the copy that the arm is merged to. That is what
the arm itself becomes if it is a schema in place. A reference among the arms
is copied as well, although alone it becomes the type of its node. -/

namespace SchemaBindings.Lowering

open OrderedMap (Distinct)

variable {root : Option Json} {ms ns flat : Members} {arm : Json} {name : ItemName}

/-! ## Schemas that say the same -/

section Alike

variable {lower : Lower}

theorem lowerMembers_plain (hr : refText? (.object ms) = none) :
    lowerMembers root lower ms name =
      match ms.get? "const" with
      | some v => pure (constantType v)
      | none =>
        match ms.get? "enum" with
        | some (.array values) => lowerEnum values ms name
        | _ => lowerComposed root lower ms name := by
  unfold lowerMembers
  split
  · rename_i reference h
    cases (refText?_eq_some.mpr h).symm.trans hr
  · rfl

theorem lowerComposed_plain (ha : ∀ arms, ms.get? "allOf" ≠ some (.array arms)) :
    lowerComposed root lower ms name =
      match unionArms? ms with
      | some arms => lowerUnion lower ms arms name
      | none => lowerByType lower ms name := by
  unfold lowerComposed
  split
  · rename_i arms h
    exact absurd h (ha arms)
  · rfl

/-- Two schemas say the same under all keywords other than the reference and the arms, and have
neither. -/
structure Alike (ms ns : Members) : Prop where
  words : ∀ key, key ≠ "$ref" → key ≠ "allOf" → ms.get? key = ns.get? key
  noRef : refText? (.object ms) = none
  noRef' : refText? (.object ns) = none
  noArms : ∀ arms, ms.get? "allOf" ≠ some (.array arms)
  noArms' : ∀ arms, ns.get? "allOf" ≠ some (.array arms)

namespace Alike

theorem descriptionOf (h : Alike ms ns) : descriptionOf ms = descriptionOf ns := by
  simp only [Lowering.descriptionOf, h.words "description" (by decide) (by decide),
    h.words "title" (by decide) (by decide)]

theorem alternatives (h : Alike ms ns) {α : Type} (lowerArm : α → ItemName → LowerM Ty)
    (xs : List α) (nullable : Bool) : lowerAlternatives lowerArm ms name xs nullable =
      lowerAlternatives lowerArm ns name xs nullable := by
  unfold lowerAlternatives
  rw [h.descriptionOf]

theorem enum (h : Alike ms ns) (values : List Json) :
    lowerEnum values ms name = lowerEnum values ns name := by
  unfold lowerEnum
  rw [h.descriptionOf]

theorem object (h : Alike ms ns) : lowerObject lower ms name = lowerObject lower ns name := by
  simp only [lowerObject, requiredNames, lowerExtra, lowerFreeObject, h.descriptionOf,
    h.words "properties" (by decide) (by decide), h.words "required" (by decide) (by decide),
    h.words "additionalProperties" (by decide) (by decide)]

theorem array (h : Alike ms ns) : lowerArray lower ms name = lowerArray lower ns name := by
  simp only [lowerArray, h.words "items" (by decide) (by decide)]

theorem kind (h : Alike ms ns) (kind : String) :
    lowerKind lower kind ms name = lowerKind lower kind ns name := by
  simp only [lowerKind, h.object, h.array, isNonNegative, hasBound,
    h.words "minimum" (by decide) (by decide), h.words "exclusiveMinimum" (by decide) (by decide)]
  rfl

theorem byType (h : Alike ms ns) : lowerByType lower ms name = lowerByType lower ns name := by
  have hkinds : (fun kind => lowerKind lower kind ms) = fun kind => lowerKind lower kind ns := by
    funext kind inner
    exact h.kind kind
  simp only [lowerByType, lowerKinds, OrderedMap.has, hkinds, h.alternatives, h.kind, h.object,
    h.array, h.words "type" (by decide) (by decide), h.words "items" (by decide) (by decide),
    h.words "properties" (by decide) (by decide),
    h.words "additionalProperties" (by decide) (by decide)]
  rfl

theorem members (h : Alike ms ns) : lowerMembers root lower ms name =
    lowerMembers root lower ns name := by
  have hunion : unionArms? ms = unionArms? ns := by
    simp only [unionArms?, OrderedMap.has, h.words "properties" (by decide) (by decide),
      h.words "oneOf" (by decide) (by decide), h.words "anyOf" (by decide) (by decide)]
    rfl
  have harms (arms : List Json) : lowerUnion lower ms arms name = lowerUnion lower ns arms name :=
    h.alternatives lower _ _
  rw [lowerMembers_plain h.noRef, lowerMembers_plain h.noRef', lowerComposed_plain h.noArms,
    lowerComposed_plain h.noArms', hunion, h.byType, h.words "const" (by decide) (by decide),
    h.words "enum" (by decide) (by decide)]
  simp only [h.enum, harms]

end Alike

end Alike

/-! ## What an arm is merged to -/

theorem closed_keyed : Closed Json.Keyed where
  below hv hw := hv.of_mem hw
  distinct h := h.distinct

theorem flatten_flat_keyed (hroot : RootKeyed root) {depth : Nat} (harm : arm.Keyed)
    (h : flatten root depth arm = some flat) : Flat Json.Keyed flat :=
  flatten_flat closed_keyed (areArms_keyed hroot) depth harm h

section Merge

variable {schemaOf : Json → Option Members} {xs : List Json} {target other merged : Members}

/-- More arms may be had. -/
theorem mergeAll_mono {schemaOf' : Json → Option Members}
    (hx : ∀ x ∈ xs, ∀ flat, schemaOf x = some flat → schemaOf' x = some flat)
    (h : mergeAll schemaOf target xs = some merged) :
    mergeAll schemaOf' target xs = some merged := by
  induction xs generalizing target with
  | nil => exact h
  | cons x xs ih =>
    obtain ⟨hfirst, hx⟩ := List.forall_mem_cons.mp hx
    obtain ⟨flat, hflat, hrest⟩ := mergeAll_cons.mp h
    exact mergeAll_cons.mpr ⟨flat, hfirst flat hflat, ih hx hrest⟩

/-- Whether arms can be merged does not depend on what they are merged into, and a keyword under
which that says the same is merged to the same. -/
theorem mergeAll_words (hx : ∀ x ∈ xs, ∀ flat, schemaOf x = some flat → Distinct flat)
    (h : mergeAll schemaOf target xs = some merged) (other : Members) :
    ∃ merged', mergeAll schemaOf other xs = some merged' ∧
      ∀ key, target.get? key = other.get? key → merged.get? key = merged'.get? key := by
  induction xs generalizing target other with
  | nil =>
    cases h
    exact ⟨other, rfl, fun key hkey => hkey⟩
  | cons x xs ih =>
    obtain ⟨hfirst, hx⟩ := List.forall_mem_cons.mp hx
    obtain ⟨flat, hflat, hrest⟩ := mergeAll_cons.mp h
    obtain ⟨merged', hmerged, hwords⟩ := ih hx hrest (mergeSchema other flat)
    refine ⟨merged', mergeAll_cons.mpr ⟨flat, hflat, hmerged⟩, fun key hkey => hwords key ?_⟩
    have hd := hfirst flat hflat
    rw [get?_merge hd, get?_merge hd, hkey]

end Merge

theorem flatten_mono {depth : Nat} (h : flatten root depth arm = some flat) :
    flatten root (depth + 1) arm = some flat := by
  induction depth generalizing arm flat with
  | zero => cases h
  | succ depth ih =>
    cases arm with
    | bool b =>
      cases b with
      | false => cases h
      | true => exact h
    | object ms =>
      rw [flatten_object] at h ⊢
      obtain ⟨own, hown, h⟩ := Option.bind_eq_some_iff.mp h
      refine Option.bind_eq_some_iff.mpr ⟨own, ?_, ?_⟩
      · unfold withTarget at hown ⊢
        split at hown
        · obtain ⟨found, hfound, hown⟩ := Option.bind_eq_some_iff.mp hown
          obtain ⟨behind, hbehind, rfl⟩ := Option.map_eq_some_iff.mp hown
          refine Option.bind_eq_some_iff.mpr ⟨found, hfound, ?_⟩
          exact Option.map_eq_some_iff.mpr ⟨behind, ih hbehind, rfl⟩
        · exact hown
      · split at h
        · exact mergeAll_mono (fun x _ _ hx => ih hx) h
        · exact h
    | _ => cases h

/-! ## Lone arms -/

/-- A schema with one arm. -/
def loneArm (arm : Json) : Json := .object [("allOf", .array [arm])]

/-- A schema is compiled to a type, if enough schemas may be open within one another. -/
def LowersTo (root : Option Json) (v : Json) (name : ItemName) (s : LowerState) (ty : Ty)
    (t : LowerState) : Prop := ∃ depth, Yields (lower root depth v name) s ty t

variable {s t : LowerState} {ty : Ty}

/-- What is said of all depths but the first may be said of all depths. -/
theorem lowersTo_succ {v : Json} : LowersTo root v name s ty t ↔
    ∃ depth, Yields (lower root (depth + 1) v name) s ty t := by
  constructor
  · rintro ⟨depth, hrun⟩
    cases depth with
    | zero => cases hrun
    | succ depth => exact ⟨depth, hrun⟩
  · rintro ⟨depth, hrun⟩
    exact ⟨depth + 1, hrun⟩

theorem lowersTo_pure {v : Json} {a : Ty}
    (h : ∀ depth, lower root (depth + 1) v name = pure a) :
    LowersTo root v name s ty t ↔ ty = a ∧ t = s := by
  rw [lowersTo_succ]
  constructor
  · rintro ⟨depth, hrun⟩
    rw [h] at hrun
    exact hrun.pure
  · rintro ⟨rfl, rfl⟩
    refine ⟨0, ?_⟩
    rw [h]
    rfl

theorem Alike.lowersTo (h : Alike ms ns) :
    LowersTo root (.object ms) name s ty t ↔ LowersTo root (.object ns) name s ty t := by
  simp only [lowersTo_succ, lower, h.members]

/-- A schema with arms that is no reference, constant or enumeration. -/
structure HasArms (ms : Members) (arms : List Json) : Prop where
  noRef : refText? (.object ms) = none
  noConst : ms.get? "const" = none
  noEnum : ∀ values, ms.get? "enum" ≠ some (.array values)
  arms : ms.get? "allOf" = some (.array arms)

theorem HasArms.step {arms : List Json} (h : HasArms ms arms) (depth : Nat) :
    lower root (depth + 1) (.object ms) name =
      lowerAllOf root (lower root depth) ms arms name := by
  change lowerMembers root (lower root depth) ms name = _
  rw [lowerMembers_plain h.noRef, h.noConst]
  dsimp only
  split
  · rename_i values hvalues
    exact absurd hvalues (h.noEnum values)
  · simp only [lowerComposed, h.arms]

/-- A schema with arms is compiled as what they are merged to. -/
theorem HasArms.lowersTo {arms : List Json} (h : HasArms ms arms) :
    LowersTo root (.object ms) name s ty t ↔
      match mergeAll (flatten root (mergeDepth + 1)) (ms.remove "allOf") arms with
      | some merged => LowersTo root (.object merged) name s ty t
      | none => ty = .any ∧ t = s := by
  cases hm : mergeAll (flatten root (mergeDepth + 1)) (ms.remove "allOf") arms with
  | none => exact lowersTo_pure fun depth => by simp only [h.step, lowerAllOf, hm]
  | some merged =>
    rw [lowersTo_succ]
    simp only [h.step, lowerAllOf, hm]
    exact Iff.rfl

/-- A schema that is merged into nothing says the same. -/
theorem mergeSchema_nil (h : Flat Json.Keyed flat) : Alike (mergeSchema [] flat) flat := by
  have hwords (key : String) : (mergeSchema [] flat).get? key = flat.get? key := by
    rw [get?_merge h.distinct]
    cases flat.get? key <;> rfl
  have hnoRef {ms : Members} (hms : ms.get? "$ref" = none) : refText? (.object ms) = none := by
    simp only [refText?, hms]
  refine ⟨fun key _ _ => hwords key, hnoRef ((hwords _).trans h.noRef), hnoRef h.noRef,
    fun arms harms => ?_, fun arms harms => ?_⟩
  · cases (hwords _).symm.trans harms |>.symm.trans h.noArms
  · cases harms.symm.trans h.noArms

/-- A schema with one arm is compiled as the copy that the arm is merged to. -/
theorem loneArm_copied (hroot : RootKeyed root) (harm : arm.Keyed) :
    LowersTo root (loneArm arm) name s ty t ↔
      match flatten root (mergeDepth + 1) arm with
      | some flat => LowersTo root (.object flat) name s ty t
      | none => ty = .any ∧ t = s := by
  have h : HasArms [("allOf", .array [arm])] [arm] := ⟨rfl, rfl, fun _ => nofun, rfl⟩
  have hmerge : mergeAll (flatten root (mergeDepth + 1))
      (OrderedMap.remove [("allOf", .array [arm])] "allOf") [arm] =
        (flatten root (mergeDepth + 1) arm).map (mergeSchema []) := by
    change ((flatten root (mergeDepth + 1) arm).map (mergeSchema [])).bind some = _
    rw [Option.bind_fun_some]
  rw [loneArm, h.lowersTo, hmerge]
  cases hflat : flatten root (mergeDepth + 1) arm with
  | none => exact Iff.rfl
  | some flat => exact (mergeSchema_nil (flatten_flat_keyed hroot harm hflat)).lowersTo

/-- An arm that is a schema in place: it is no reference to a node, and if it has arms itself, it is
no constant and no enumeration, and its arms can be merged as deep as they then are. -/
structure InPlace (root : Option Json) (arm : Json) : Prop where
  nowhere : ∀ reference, refText? arm = some reference → localTarget? root reference = none
  nested : ∀ (ms : Members) (arms : List Json), arm = .object ms → refText? arm = none →
    ms.get? "allOf" = some (.array arms) → HasArms ms arms ∧
      ((mergeAll (flatten root (mergeDepth + 1)) (ms.remove "allOf") arms).isSome →
        (flatten root (mergeDepth + 1) arm).isSome)

theorem withTarget_plain {depth : Nat} (hr : refText? (.object ms) = none) :
    withTarget root depth ms = some (ms.remove "$ref") := by
  simp only [withTarget, hr]

theorem flatten_plain {depth : Nat} (hk : (Json.object ms).Keyed)
    (hr : refText? (.object ms) = none) : flatten root (depth + 1) (.object ms) =
      match ms.get? "allOf" with
      | some (.array arms) =>
        mergeAll (flatten root depth) ((ms.remove "$ref").remove "allOf") arms
      | _ => some ((ms.remove "$ref").remove "allOf") := by
  have hget : (ms.remove "$ref").get? "allOf" = ms.get? "allOf" :=
    OrderedMap.get?_remove_of_ne hk.distinct (by decide)
  have h : flatten root (depth + 1) (.object ms) = _ := flatten_object
  rw [withTarget_plain hr, Option.bind_some, hget] at h
  exact h

/-- What is taken out for the merging is no word. -/
theorem get?_remove_two (hk : (Json.object ms).Keyed) {key : String} (hr : key ≠ "$ref")
    (ha : key ≠ "allOf") : ((ms.remove "$ref").remove "allOf").get? key = ms.get? key := by
  rw [OrderedMap.get?_remove_of_ne (hk.distinct.remove _) ha,
    OrderedMap.get?_remove_of_ne hk.distinct hr]

theorem Flat.noText (h : Flat Json.Keyed flat) : refText? (.object flat) = none := by
  simp only [refText?, h.noRef]

theorem Flat.noArray (h : Flat Json.Keyed flat) (arms : List Json) :
    flat.get? "allOf" ≠ some (.array arms) := by
  rw [h.noArms]
  nofun

/-- Without arms of its own a schema is merged as it is. -/
theorem alike_flatten {depth : Nat} (hroot : RootKeyed root) (hk : (Json.object ms).Keyed)
    (hr : refText? (.object ms) = none) (ha : ∀ arms, ms.get? "allOf" ≠ some (.array arms)) :
    ∃ flat, flatten root (depth + 1) (.object ms) = some flat ∧ Alike flat ms := by
  have hflat : flatten root (depth + 1) (.object ms) =
      some ((ms.remove "$ref").remove "allOf") := by
    rw [flatten_plain hk hr]
    split
    · rename_i arms harms
      exact absurd harms (ha arms)
    · rfl
  have hbare := flatten_flat_keyed hroot hk hflat
  exact ⟨_, hflat, fun key hkr hka => get?_remove_two hk hkr hka, hbare.noText, hr,
    hbare.noArray, ha⟩

/-- With arms of its own it is merged as it is compiled. -/
theorem alike_nested {depth : Nat} {arms : List Json} (hroot : RootKeyed root)
    (hk : (Json.object ms).Keyed) (h : HasArms ms arms)
    (hflat : flatten root (depth + 1) (.object ms) = some flat) :
    ∃ merged, mergeAll (flatten root (depth + 1)) (ms.remove "allOf") arms = some merged ∧
      Alike flat merged := by
  have hbare := flatten_flat_keyed hroot hk hflat
  have harms : ∀ x ∈ arms, ∀ flat, flatten root (depth + 1) x = some flat →
      Flat Json.Keyed flat := fun x hx flat hx' =>
    flatten_flat_keyed hroot ((hk.member (OrderedMap.mem_of_get? h.arms)).item hx) hx'
  rw [flatten_plain hk h.noRef, h.arms] at hflat
  have hmono := mergeAll_mono (fun x _ _ hx => flatten_mono hx) hflat
  obtain ⟨merged, hmerged, hwords⟩ := mergeAll_words
    (fun x hx flat hx' => (harms x hx flat hx').distinct) hmono (ms.remove "allOf")
  have hrefs := get?_mergeAll (fun x hx flat hx' => (harms x hx flat hx').noRef) hmerged
  have hnone := get?_mergeAll (fun x hx flat hx' => (harms x hx flat hx').noArms) hmerged
  refine ⟨merged, hmerged, fun key hkr hka => hwords key ?_, hbare.noText, ?_, hbare.noArray, ?_⟩
  · rw [get?_remove_two hk hkr hka, OrderedMap.get?_remove_of_ne hk.distinct hka]
  · have hsame : merged.get? "$ref" = ms.get? "$ref" :=
      hrefs.trans (OrderedMap.get?_remove_of_ne hk.distinct (by decide))
    have hms := h.noRef
    simp only [refText?] at hms ⊢
    rwa [hsame]
  · intro others hothers
    rw [hnone, OrderedMap.get?_remove_self hk.distinct] at hothers
    cases hothers

/-- A schema in place becomes what a schema with it as the one arm becomes. -/
theorem InPlace.lowersTo (hroot : RootKeyed root) (harm : arm.Keyed) (h : InPlace root arm) :
    LowersTo root (loneArm arm) name s ty t ↔ LowersTo root arm name s ty t := by
  rw [loneArm_copied hroot harm]
  cases arm with
  | object ms =>
    cases hr : refText? (.object ms) with
    | some reference =>
      have hnowhere := h.nowhere reference hr
      have hflat : flatten root (mergeDepth + 1) (.object ms) = none := by
        rw [flatten_object, withTarget, hr]
        simp only [hnowhere, Option.bind_none]
      rw [hflat]
      refine (lowersTo_pure fun depth => ?_).symm
      change lowerMembers root (lower root depth) ms name = pure .any
      simp only [lowerMembers, refText?_eq_some.mp hr, lowerReference, hnowhere]
    | none =>
      by_cases ha : ∃ arms, OrderedMap.get? ms "allOf" = some (.array arms)
      · obtain ⟨arms, ha⟩ := ha
        obtain ⟨harms, hdeep⟩ := h.nested ms arms rfl hr ha
        rw [harms.lowersTo]
        cases hflat : flatten root (mergeDepth + 1) (.object ms) with
        | some flat =>
          obtain ⟨merged, hmerged, halike⟩ := alike_nested hroot harm harms hflat
          rw [hmerged]
          exact halike.lowersTo
        | none =>
          cases hmerged : mergeAll (flatten root (mergeDepth + 1))
              (OrderedMap.remove ms "allOf") arms with
          | none => exact Iff.rfl
          | some merged => simp [hflat, hmerged] at hdeep
      · obtain ⟨flat, hflat, halike⟩ := alike_flatten hroot harm hr (not_exists.mp ha)
        rw [hflat]
        exact halike.lowersTo
  | bool b =>
    cases b with
    | false => exact (lowersTo_pure fun _ => rfl).symm
    | true =>
      refine Iff.trans (lowersTo_pure fun _ => ?_) (lowersTo_pure fun _ => rfl).symm
      rfl
  | _ => exact (lowersTo_pure fun _ => rfl).symm

theorem lowerNamed_type {lower : Lower} {schema : Json} {n : String}
    (hrun : Yields (lowerNamed lower schema n) s ty t) : ty = .named n := by
  obtain ⟨slot, s₁, -, hrun⟩ := hrun.bind
  obtain ⟨ty', u, -, hrun⟩ := hrun.bind
  split at hrun
  · obtain ⟨_, v, -, hrun⟩ := hrun.bind
    exact hrun.pure.1
  · exact hrun.pure.1

/-- A reference alone becomes the type of the node, by its name. -/
theorem reference_lowersTo {reference : String} {p : Pointer} {target : Json}
    (hr : refText? arm = some reference) (ht : localTarget? root reference = some (p, target))
    (h : LowersTo root arm name s ty t) :
    ∃ n u, Yields (nodeName p) s n u ∧ (ty = .named n ∨ ty = .boxed (.named n)) := by
  obtain ⟨depth, hrun⟩ := lowersTo_succ.mp h
  cases arm with
  | object ms =>
    have hstep : lower root (depth + 1) (.object ms) name =
        lowerReference root (lower root depth) reference := by
      change lowerMembers root (lower root depth) ms name = _
      simp only [lowerMembers, refText?_eq_some.mp hr]
    rw [hstep, lowerReference_eq ht] at hrun
    obtain ⟨n, u, hnode, hrun⟩ := hrun.bind
    refine ⟨n, u, hnode, ?_⟩
    rcases lowerTarget_yields hrun with ⟨-, hty, -⟩ | ⟨-, hty, -⟩ | ⟨-, -, v, hnamed, -⟩
    · exact .inr hty
    · exact .inl hty
    · exact .inl (lowerNamed_type hnamed)
  | _ => cases hr

/-- An `allOf` with one arm becomes what the arm is merged to, with what its reference leads to
copied. That is what the arm alone becomes if it is a schema in place; if it is a reference to a node
it becomes the type with the node's name. -/
theorem loneArm_lowered (hroot : RootKeyed root) (harm : arm.Keyed) (name : ItemName)
    (s t : LowerState) (ty : Ty) :
    (LowersTo root (loneArm arm) name s ty t ↔
      match flatten root (mergeDepth + 1) arm with
      | some flat => LowersTo root (.object flat) name s ty t
      | none => ty = .any ∧ t = s) ∧
    (InPlace root arm →
      (LowersTo root (loneArm arm) name s ty t ↔ LowersTo root arm name s ty t)) ∧
    ∀ reference p target, refText? arm = some reference →
      localTarget? root reference = some (p, target) → LowersTo root arm name s ty t →
        ∃ n u, Yields (nodeName p) s n u ∧ (ty = .named n ∨ ty = .boxed (.named n)) :=
  ⟨loneArm_copied hroot harm, fun h => h.lowersTo hroot harm,
    fun _ _ _ hr ht h => reference_lowersTo hr ht h⟩

/-- A schema with arms of its own, beside which it has a reference that is no text. -/
def labelled : Json := .object [
  ("$ref", .null),
  ("allOf", .array [.object [("properties", .object [("label", .object [("type", .string "string")])])],
    .object [("required", .array [.string "label"])]]),
  ("properties", .object [("id", .object [("type", .string "integer")])])]

/-- The struct for it. -/
def labelledItem : Item := ⟨"Labelled", none, .record [⟨"id", "id", .option .integer, false, none⟩,
  ⟨"label", "label", .string, true, none⟩] false none⟩

theorem loneArm_lowered_labelled :
    RootKeyed none ∧ labelled.Keyed ∧ InPlace none labelled ∧ ∃ t,
      LowersTo none (loneArm labelled) (.hint "Labelled") .empty (.named "Labelled") t ∧
      LowersTo none labelled (.hint "Labelled") .empty (.named "Labelled") t ∧
      t.items = [labelledItem] := by
  have hroot : RootKeyed none := fun _ hd => nomatch hd
  have hk : labelled.Keyed := by decide +kernel
  have hplace : InPlace none labelled := by
    refine ⟨fun reference hr => (nomatch hr), fun ms arms hms _ harms => ?_⟩
    cases hms
    cases harms
    refine ⟨⟨rfl, rfl, fun _ => nofun, rfl⟩, fun _ => ?_⟩
    decide +kernel
  have hrun : ((lower none 3 labelled (.hint "Labelled")).run .empty).map
      (fun r => (r.1, r.2.items)) = some (.named "Labelled", [labelledItem]) := by decide +kernel
  obtain ⟨⟨ty, t⟩, hrun, heq⟩ := Option.map_eq_some_iff.mp hrun
  obtain ⟨rfl, hitems⟩ := Prod.mk.inj heq
  have hplain : LowersTo none labelled (.hint "Labelled") .empty (.named "Labelled") t := ⟨3, hrun⟩
  obtain ⟨-, hsame, -⟩ := loneArm_lowered hroot hk (.hint "Labelled") .empty t (.named "Labelled")
  exact ⟨hroot, hk, hplace, t, (hsame hplace).mpr hplain, hplain, hitems⟩

/-- A document with a schema for objects without properties. -/
def blankDocument : Json := .object [("$defs", .object [("x", .object [("properties", .object [])])])]

/-- The state in which that schema has a name. -/
def blankNamed : LowerState :=
  { LowerState.empty with scope := .reserve .empty "X", named := [(⟨["$defs", "x"]⟩, "X")] }

/-- A reference to that schema becomes the type `X`, and an `allOf` with that reference as its only
arm does not. -/
theorem loneArm_reference_differs :
    ∃ t, LowersTo (some blankDocument) (refTo "#/$defs/x") (.exact "Y") blankNamed (.named "X") t ∧
      t.items = [⟨"X", none, .record [] false none⟩] ∧
      (∃ u, LowersTo (some blankDocument) (loneArm (refTo "#/$defs/x")) (.exact "Y") blankNamed
        (.named "Y") u ∧ u.items = [⟨"Y", none, .record [] false none⟩]) ∧
      ¬ LowersTo (some blankDocument) (loneArm (refTo "#/$defs/x")) (.exact "Y") blankNamed
        (.named "X") t := by
  have halone : ((lower (some blankDocument) 2 (refTo "#/$defs/x") (.exact "Y")).run
      blankNamed).map (fun r => (r.1, r.2.items)) =
        some (.named "X", [⟨"X", none, .record [] false none⟩]) := by decide +kernel
  have harm : ((lower (some blankDocument) 2 (loneArm (refTo "#/$defs/x")) (.exact "Y")).run
      blankNamed).map (fun r => (r.1, r.2.items)) =
        some (.named "Y", [⟨"Y", none, .record [] false none⟩]) := by decide +kernel
  obtain ⟨⟨_, t⟩, hrun, heq⟩ := Option.map_eq_some_iff.mp halone
  obtain ⟨rfl, hitems⟩ := Prod.mk.inj heq
  obtain ⟨⟨_, u⟩, hrun', heq⟩ := Option.map_eq_some_iff.mp harm
  obtain ⟨rfl, hitems'⟩ := Prod.mk.inj heq
  refine ⟨t, ⟨2, hrun⟩, hitems, ⟨u, ⟨2, hrun'⟩, hitems'⟩, fun h => ?_⟩
  have hroot : RootKeyed (some blankDocument) := by
    intro document hd
    obtain rfl := Option.some.inj hd
    decide +kernel
  have hflat : flatten (some blankDocument) (mergeDepth + 1) (refTo "#/$defs/x") =
      some [("properties", .object [])] := by decide +kernel
  rw [loneArm_copied hroot (by decide), hflat] at h
  obtain ⟨depth, hcopy⟩ := lowersTo_succ.mp h
  have hname : Ty.named "Y" = .named "X" := congrArg Prod.fst (Option.some.inj hcopy)
  exact absurd hname (by decide)

end SchemaBindings.Lowering
