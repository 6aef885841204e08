import SchemaBindings.Proofs.LoweringWords
import SchemaBindings.Proofs.Merging

/-! # Items are consistent in themselves

Identifiers are made from texts by casing, so different texts often come to the
same identifier. In every item they are handed out by one scope, and so are
apart. What they stand for is apart because the keys of an object are and an
enumeration drops repeated texts. Beside the items the types are followed: a
property of types that is passed on to the types around holds of all of them. -/

namespace SchemaBindings

/-- A type and all types in it. -/
def Ty.within : Ty → List Ty
  | .array t => .array t :: t.within
  | .map t => .map t :: t.within
  | .option t => .option t :: t.within
  | .boxed t => .boxed t :: t.within
  | t => [t]

theorem Ty.self_mem_within (ty : Ty) : ty ∈ ty.within := by
  cases ty <;> simp [within]

/-- Somewhere in the type an option is directly within an option. -/
def Ty.NestsOptions (ty : Ty) : Prop := ∃ inner, Ty.option (.option inner) ∈ ty.within

/-- The texts that the parts of an item stand for. -/
def ItemShape.keys : ItemShape → List String
  | .record fields _ _ => fields.map (·.jsonName)
  | .enumeration variants => variants.map (·.value)
  | .union _ => []
  | .alias _ => []

/-- The fields of an item. -/
def ItemShape.fields : ItemShape → List Field
  | .record fields _ _ => fields
  | .enumeration _ => []
  | .union _ => []
  | .alias _ => []

/-- The parts of an item are told apart by their identifiers and by what they stand for, and a
field that need not be there has a type that admits it. -/
structure ItemShape.Consistent (shape : ItemShape) : Prop where
  idents : shape.idents.Nodup
  keys : shape.keys.Nodup
  optional : ∀ f ∈ shape.fields, f.required = false → ∃ inner, f.ty = .option inner

theorem Ty.exists_option (ty : Ty) : ∃ inner, ty.optional = .option inner := by
  cases ty with
  | option t => exact ⟨t, rfl⟩
  | _ => exact ⟨_, rfl⟩

namespace Lowering

variable {root : Option Json} {s t u : LowerState} {name : ItemName} {T : Ty → Prop}

/-- A property of types that holds of every type if it holds of those in it. Boxes only come from
references. -/
structure Lasting (root : Option Json) (T : Ty → Prop) : Prop where
  plain : ∀ {ty}, ty.within = [ty] → T ty
  array : ∀ {ty}, T ty → T (.array ty)
  map : ∀ {ty}, T ty → T (.map ty)
  optional : ∀ {ty : Ty}, T ty → T ty.optional
  boxed : root.isSome = true → ∀ n, T (.boxed (.named n))

/-- All items are consistent, and their types have a property. -/
def Sound (T : Ty → Prop) (s : LowerState) : Prop :=
  ∀ x ∈ s.items, x.shape.Consistent ∧ ∀ ty ∈ x.shape.types, T ty

/-- A step keeps the items sound and comes to a type with the property. -/
structure Builds (T : Ty → Prop) (act : LowerM Ty) : Prop where
  sound : ∀ {s ty t}, Sound T s → Yields act s ty t → Sound T t ∧ T ty

/-- Every schema with distinct keys is compiled to sound items. -/
def BuildsAll (T : Ty → Prop) (lower : Lower) : Prop :=
  ∀ v name, v.Keyed → Builds T (lower v name)

theorem Builds.pure {ty : Ty} (h : T ty) : Builds T (Pure.pure ty) := by
  refine ⟨fun {s ty' t} hs hrun => ?_⟩
  obtain ⟨rfl, rfl⟩ := hrun.pure
  exact ⟨hs, h⟩

theorem Builds.wrap {act : LowerM Ty} {f : Ty → Ty} (hf : ∀ {ty}, T ty → T (f ty))
    (h : Builds T act) : Builds T (do return f (← act)) := by
  refine ⟨fun {s ty t} hs hrun => ?_⟩
  obtain ⟨ty, hact, rfl⟩ := hrun.some
  obtain ⟨ht, hty⟩ := h.sound hs hact
  exact ⟨ht, hf hty⟩

theorem Sound.of_slots (h : Sound T s) (hslots : t.slots = s.slots) : Sound T t := by
  intro x hx
  refine h x ?_
  rwa [LowerState.items, ← hslots]

/-! ## Items -/

theorem openSlot_sound {slot : Nat} (h : Sound T s) (hrun : Yields openSlot s slot t) :
    Sound T t := by
  obtain ⟨-, rfl⟩ := openSlot_yields hrun
  intro x hx
  exact h x (by simpa [LowerState.items] using hx)

theorem fill_sound {slot : Nat} {x : Item} {a : Unit} (h : Sound T s)
    (hx : x.shape.Consistent ∧ ∀ ty ∈ x.shape.types, T ty) (hrun : Yields (fill slot x) s a t) :
    Sound T t := by
  obtain rfl := fill_yields hrun
  intro y hy
  obtain ⟨e, he, heq⟩ := List.mem_filterMap.mp hy
  obtain rfl : e = some y := heq
  rcases List.mem_or_eq_of_mem_set he with he | he
  · exact h y (List.mem_filterMap.mpr ⟨_, he, rfl⟩)
  · rwa [Option.some.inj he]

theorem claim_slots {n : String} (hrun : Yields (claim name) s n t) : t.slots = s.slots := by
  cases name with
  | exact m =>
    obtain ⟨-, rfl⟩ := hrun.pure
    rfl
  | hint m => rw [claimName_state hrun]

theorem itemType_lasting (hT : Lasting root T) (n : String) (nullable : Bool) :
    T (itemType n nullable) := by
  cases nullable with
  | false => exact hT.plain rfl
  | true =>
    have hnamed : T (.named n) := hT.plain rfl
    exact hT.optional hnamed

/-- A schema that becomes an item, when the item is consistent. -/
theorem item_sound (hT : Lasting root T) {nullable : Bool} {n : String} {slot : Nat}
    {doc : Option String} {shape : ItemShape} {a : Unit} {s₁ s₂ s₃ : LowerState} (h : Sound T s)
    (hclaim : Yields (claim name) s n s₁) (hopen : Yields openSlot s₁ slot s₂)
    (hbody : Sound T s₂ → Sound T s₃ ∧ shape.Consistent ∧ ∀ ty ∈ shape.types, T ty)
    (hfill : Yields (fill slot ⟨n, doc, shape⟩) s₃ a t) :
    Sound T t ∧ T (itemType n nullable) := by
  obtain ⟨hs₃, hshape⟩ := hbody (openSlot_sound (h.of_slots (claim_slots hclaim)) hopen)
  exact ⟨fill_sound hs₃ hshape hfill, itemType_lasting hT n nullable⟩

/-! ## Fields, variants and arms -/

section Parts

variable {lower : Lower}

/-- Fields that stand for some properties, with identifiers that were free. -/
structure Declares (required : List String) (properties : Members)
    (idents idents' : Code.NameScope) (fields : List Field) : Prop where
  names : fields.map (·.jsonName) = properties.names
  required : ∀ f ∈ fields, f.required = required.contains f.jsonName
  optional : ∀ f ∈ fields, f.required = false → ∃ inner, f.ty = .option inner
  taken : idents'.taken = (fields.map (·.ident)).reverse ++ idents.taken
  nodup : idents.taken.Nodup → idents'.taken.Nodup

theorem lowerFields_declares {itemName : String} {required : List String}
    {idents idents' : Code.NameScope} {properties : Members} {fields : List Field}
    (hrun : Yields (lowerFields lower itemName required idents properties) s (fields, idents') t) :
    Declares required properties idents idents' fields := by
  induction properties generalizing idents idents' s fields with
  | nil =>
    obtain ⟨hnil, rfl⟩ := hrun.pure
    cases hnil
    exact ⟨rfl, fun f hf => (nomatch hf), fun f hf => (nomatch hf), rfl, id⟩
  | cons e rest ih =>
    obtain ⟨property, schema⟩ := e
    obtain ⟨ty, u, hx, hrun⟩ := hrun.bind
    obtain ⟨⟨others, _⟩, hrest, heq⟩ := hrun.some
    cases heq
    have hothers := ih hrest
    refine ⟨?_, ?_, ?_, ?_, ?_⟩
    · simp [OrderedMap.names, hothers.names]
    · exact List.forall_mem_cons.mpr ⟨rfl, hothers.required⟩
    · refine List.forall_mem_cons.mpr ⟨fun hfree => ?_, hothers.optional⟩
      dsimp only at hfree ⊢
      rw [hfree]
      exact Ty.exists_option ty
    · rw [hothers.taken]
      simp [Code.NameScope.reserve]
    · intro hnodup
      exact hothers.nodup (List.nodup_cons.mpr ⟨Code.NameScope.freshName_not_mem _ _, hnodup⟩)

theorem lowerFields_sound (hT : Lasting root T) (hl : BuildsAll T lower) {itemName : String}
    {required : List String} {idents idents' : Code.NameScope} {properties : Members}
    {fields : List Field} (hk : (Json.object properties).Keyed) (h : Sound T s)
    (hrun : Yields (lowerFields lower itemName required idents properties) s (fields, idents') t) :
    Sound T t ∧ ∀ f ∈ fields, T f.ty := by
  have hkeyed : ∀ e ∈ properties, e.2.Keyed := fun e he => hk.member he
  clear hk
  induction properties generalizing idents idents' s fields with
  | nil =>
    obtain ⟨hnil, rfl⟩ := hrun.pure
    cases hnil
    exact ⟨h, fun f hf => nomatch hf⟩
  | cons e rest ih =>
    obtain ⟨property, schema⟩ := e
    obtain ⟨hschema, hkeyed⟩ := List.forall_mem_cons.mp hkeyed
    obtain ⟨ty, u, hx, hrun⟩ := hrun.bind
    obtain ⟨⟨others, _⟩, hrest, heq⟩ := hrun.some
    cases heq
    obtain ⟨hu, hty⟩ := (hl schema _ hschema).sound h hx
    obtain ⟨ht, hothers⟩ := ih hu hrest hkeyed
    refine ⟨ht, List.forall_mem_cons.mpr ⟨?_, hothers⟩⟩
    dsimp only
    split
    · exact hty
    · exact hT.optional hty

theorem lowerExtra_sound (hl : BuildsAll T lower) {ms : Members} {itemName : String}
    {idents : Code.NameScope} {denyUnknown : Bool} {extra : Option (String × Ty)}
    (hk : (Json.object ms).Keyed) (h : Sound T s)
    (hrun : Yields (lowerExtra lower ms itemName idents) s (denyUnknown, extra) t) :
    Sound T t ∧ ∀ e ∈ extra, e.1 ∉ idents.taken ∧ T e.2 := by
  have hnone {deny : Bool} (hrun : Yields (pure (deny, none)) s (denyUnknown, extra) t) :
      Sound T t ∧ ∀ e ∈ extra, e.1 ∉ idents.taken ∧ T e.2 := by
    obtain ⟨heq, rfl⟩ := hrun.pure
    cases heq
    exact ⟨h, fun e he => nomatch he⟩
  unfold lowerExtra at hrun
  split at hrun
  · exact hnone hrun
  · rename_i values hvalues
    obtain ⟨ty, hx, heq⟩ := hrun.some
    cases heq
    obtain ⟨ht, hty⟩ := (hl _ _ (hk.member (OrderedMap.mem_of_get? hvalues))).sound h hx
    refine ⟨ht, fun e he => ?_⟩
    obtain rfl := Option.some.inj he
    exact ⟨Code.NameScope.freshName_not_mem _ _, hty⟩
  · exact hnone hrun

theorem record_consistent {required : List String} {properties : Members}
    {idents : Code.NameScope} {fields : List Field} {denyUnknown : Bool}
    {extra : Option (String × Ty)} (h : Declares required properties .empty idents fields)
    (hk : properties.Distinct) (hextra : ∀ e ∈ extra, e.1 ∉ idents.taken) :
    (ItemShape.record fields denyUnknown extra).Consistent where
  idents := by
    have hnodup := h.nodup List.nodup_nil
    have htaken : idents.taken = (fields.map (·.ident)).reverse := by
      simpa [Code.NameScope.empty] using h.taken
    rw [htaken, List.nodup_reverse] at hnodup
    refine List.nodup_append.mpr ⟨hnodup, ?_, fun n hn m hm heq => ?_⟩
    · cases extra <;> simp
    · obtain ⟨e, he, rfl⟩ := Option.map_eq_some_iff.mp (Option.mem_toList.mp hm)
      refine hextra e he ?_
      rw [htaken, List.mem_reverse, ← heq]
      exact hn
  keys := by
    rw [ItemShape.keys, h.names]
    exact hk
  optional := h.optional

theorem lowerArms_sound {α : Type} {lowerArm : α → ItemName → LowerM Ty} {xs : List α}
    (hl : ∀ x ∈ xs, ∀ name, Builds T (lowerArm x name)) {itemName : String} {number : Nat}
    {idents : Code.NameScope} {arms : List Arm} (h : Sound T s)
    (hrun : Yields (lowerArms lowerArm itemName number idents xs) s arms t) :
    Sound T t ∧ (∀ a ∈ arms, T a.ty) ∧ (arms.map (·.ident)).Nodup ∧
      ∀ n ∈ arms.map (·.ident), n ∉ idents.taken := by
  induction xs generalizing number idents s arms with
  | nil =>
    obtain ⟨rfl, rfl⟩ := hrun.pure
    exact ⟨h, fun a ha => (nomatch ha), List.nodup_nil, fun n hn => nomatch hn⟩
  | cons x xs ih =>
    obtain ⟨hx, hxs⟩ := List.forall_mem_cons.mp hl
    obtain ⟨ty, u, hfirst, hrun⟩ := hrun.bind
    obtain ⟨rest, hrest, rfl⟩ := hrun.some
    obtain ⟨hu, hty⟩ := (hx _).sound h hfirst
    obtain ⟨ht, htypes, hnodup, hfree⟩ := ih hxs hu hrest
    refine ⟨ht, List.forall_mem_cons.mpr ⟨hty, htypes⟩, ?_, ?_⟩
    · refine List.nodup_cons.mpr ⟨fun hn => ?_, hnodup⟩
      exact hfree _ hn (List.mem_cons_self ..)
    · refine List.forall_mem_cons.mpr ⟨Code.NameScope.freshName_not_mem _ _, ?_⟩
      exact fun n hn htaken => hfree n hn (List.mem_cons_of_mem _ htaken)

theorem lowerAlternatives_builds (hT : Lasting root T) {α : Type}
    {lowerArm : α → ItemName → LowerM Ty} (ms : Members) (name : ItemName) (xs : List α)
    (nullable : Bool) (hl : ∀ x ∈ xs, ∀ name, Builds T (lowerArm x name)) :
    Builds T (lowerAlternatives lowerArm ms name xs nullable) := by
  match xs, nullable with
  | [], true => exact .pure (hT.plain rfl)
  | [], false => exact .pure (hT.plain rfl)
  | [x], false => exact hl x (List.mem_singleton_self x) name
  | [x], true => exact .wrap hT.optional (hl x (List.mem_singleton_self x) name.inner)
  | x :: y :: rest, nullable =>
    refine ⟨fun {s ty t} hs hrun => ?_⟩
    obtain ⟨n, s₁, hclaim, hrun⟩ := hrun.bind
    obtain ⟨slot, s₂, hopen, hrun⟩ := hrun.bind
    obtain ⟨arms, s₃, harms, hrun⟩ := hrun.bind
    obtain ⟨_, hfill, rfl⟩ := hrun.some
    refine item_sound hT hs hclaim hopen (fun hs₂ => ?_) hfill
    obtain ⟨hs₃, htypes, hnodup, -⟩ := lowerArms_sound hl hs₂ harms
    refine ⟨hs₃, ⟨hnodup, List.nodup_nil, fun f hf => nomatch hf⟩, fun ty hty => ?_⟩
    obtain ⟨a, ha, rfl⟩ := List.mem_map.mp hty
    exact htypes a ha

theorem nodup_enumTexts {values : List Json} {texts texts' : List String}
    {nullable nullable' : Bool} (hnodup : texts.Nodup)
    (h : enumTexts? texts nullable values = some (texts', nullable')) : texts'.Nodup := by
  fun_induction enumTexts? texts nullable values with
  | case1 =>
    cases h
    exact hnodup
  | case2 texts nullable s rest ih =>
    refine ih ?_ h
    split
    · exact hnodup
    · rename_i hnew
      simpa [List.nodup_append, hnodup] using fun x hx heq => hnew (by simpa [heq] using hx)
  | case3 texts _ rest ih => exact ih hnodup h
  | case4 => cases h

theorem map_zipWith_variants {idents texts : List String} (h : idents.length = texts.length) :
    (idents.zipWith Variant.mk texts).map (·.ident) = idents ∧
      (idents.zipWith Variant.mk texts).map (·.value) = texts := by
  induction idents generalizing texts with
  | nil =>
    rw [List.length_eq_zero_iff.mp h.symm]
    simp
  | cons ident idents ih =>
    cases texts with
    | nil => cases h
    | cons text texts =>
      obtain ⟨hidents, hvalues⟩ := ih (Nat.succ.inj h)
      simp [hidents, hvalues]

theorem enumeration_consistent {texts : List String} (h : texts.Nodup) :
    (ItemShape.enumeration ((Code.NameScope.empty.claimAll (texts.map Code.variantIdent)).1.zipWith
      Variant.mk texts)).Consistent := by
  obtain ⟨hlen, hnodup, -⟩ :=
    Code.NameScope.empty.claimAll_spec (texts.map Code.variantIdent)
  rw [List.length_map] at hlen
  obtain ⟨hidents, hvalues⟩ := map_zipWith_variants hlen
  refine ⟨?_, ?_, fun f hf => nomatch hf⟩
  · rw [ItemShape.idents, hidents]
    exact hnodup
  · rw [ItemShape.keys, hvalues]
    exact h

theorem alias_consistent (ty : Ty) : (ItemShape.alias ty).Consistent where
  idents := List.nodup_nil
  keys := List.nodup_nil
  optional _ hf := nomatch hf

theorem lowerEnum_builds (hT : Lasting root T) (values : List Json) (ms : Members)
    (name : ItemName) : Builds T (lowerEnum values ms name) := by
  unfold lowerEnum
  split
  · exact .pure (hT.plain rfl)
  · exact .pure (hT.plain (by split <;> rfl))
  · rename_i texts nullable _ htexts
    refine ⟨fun {s ty t} hs hrun => ?_⟩
    obtain ⟨n, s₁, hclaim, hrun⟩ := hrun.bind
    obtain ⟨slot, s₂, hopen, hrun⟩ := hrun.bind
    obtain ⟨_, hfill, rfl⟩ := hrun.some
    refine item_sound hT hs hclaim hopen (fun hs₂ => ?_) hfill
    exact ⟨hs₂, enumeration_consistent (nodup_enumTexts List.nodup_nil htexts),
      fun ty hty => nomatch hty⟩

/-! ## Schemas -/

theorem lowerFreeObject_builds (hT : Lasting root T) (hl : BuildsAll T lower) {ms : Members}
    (hk : (Json.object ms).Keyed) (name : ItemName) :
    Builds T (lowerFreeObject lower ms name) := by
  unfold lowerFreeObject
  split
  · rename_i values hvalues
    exact .wrap hT.map (hl _ _ (hk.member (OrderedMap.mem_of_get? hvalues)))
  · exact .pure (hT.plain rfl)

theorem lowerObject_builds (hT : Lasting root T) (hl : BuildsAll T lower) {ms : Members}
    (hk : (Json.object ms).Keyed) (name : ItemName) : Builds T (lowerObject lower ms name) := by
  unfold lowerObject
  split
  · rename_i properties hproperties
    have hps : (Json.object properties).Keyed := hk.member (OrderedMap.mem_of_get? hproperties)
    refine ⟨fun {s ty t} hs hrun => ?_⟩
    obtain ⟨n, s₁, hclaim, hrun⟩ := hrun.bind
    obtain ⟨slot, s₂, hopen, hrun⟩ := hrun.bind
    obtain ⟨⟨fields, idents⟩, u, hfields, hrun⟩ := hrun.bind
    obtain ⟨⟨denyUnknown, extra⟩, s₃, hextra, hrun⟩ := hrun.bind
    obtain ⟨_, hfill, rfl⟩ := hrun.some
    change Sound T t ∧ T (itemType n false)
    refine item_sound hT hs hclaim hopen (fun hs₂ => ?_) hfill
    obtain ⟨hu, htypes⟩ := lowerFields_sound hT hl hps hs₂ hfields
    obtain ⟨hs₃, hrest⟩ := lowerExtra_sound hl hk hu hextra
    refine ⟨hs₃, record_consistent (lowerFields_declares hfields) hps.distinct
      fun e he => (hrest e he).1, fun ty hty => ?_⟩
    rcases List.mem_append.mp hty with hty | hty
    · obtain ⟨f, hf, rfl⟩ := List.mem_map.mp hty
      exact htypes f hf
    · obtain ⟨e, he, rfl⟩ := Option.map_eq_some_iff.mp (Option.mem_toList.mp hty)
      exact (hrest e he).2
  · exact lowerFreeObject_builds hT hl hk name

theorem lowerArray_builds (hT : Lasting root T) (hl : BuildsAll T lower) {ms : Members}
    (hk : (Json.object ms).Keyed) (name : ItemName) : Builds T (lowerArray lower ms name) := by
  have hany : T .any := hT.plain rfl
  unfold lowerArray
  split
  · rename_i item hitem
    exact .wrap hT.array (hl _ _ (hk.member (OrderedMap.mem_of_get? hitem)))
  · rename_i item hitem
    exact .wrap hT.array (hl _ _ (hk.member (OrderedMap.mem_of_get? hitem)))
  · exact .pure (hT.array hany)

theorem lowerKind_builds (hT : Lasting root T) (hl : BuildsAll T lower) (kind : String)
    {ms : Members} (hk : (Json.object ms).Keyed) (name : ItemName) :
    Builds T (lowerKind lower kind ms name) := by
  unfold lowerKind
  split
  case h_2 => exact .pure (hT.plain (by split <;> rfl))
  case h_6 => exact lowerArray_builds hT hl hk name
  case h_7 => exact lowerObject_builds hT hl hk name
  all_goals exact .pure (hT.plain rfl)

theorem lowerByType_builds (hT : Lasting root T) (hl : BuildsAll T lower) {ms : Members}
    (hk : (Json.object ms).Keyed) (name : ItemName) : Builds T (lowerByType lower ms name) := by
  unfold lowerByType
  split
  · exact lowerKind_builds hT hl _ hk name
  · exact lowerAlternatives_builds hT ms name _ _ fun kind _ => lowerKind_builds hT hl kind hk
  · split
    · exact lowerObject_builds hT hl hk name
    · split
      · exact lowerArray_builds hT hl hk name
      · exact .pure (hT.plain rfl)

theorem unionArms?_keyed {ms : Members} {arms : List Json} (hk : (Json.object ms).Keyed)
    (h : unionArms? ms = some arms) : ∀ x ∈ arms, x.Keyed := by
  have harms {key : String} (hget : ms.get? key = some (.array arms)) : ∀ x ∈ arms, x.Keyed :=
    fun x hx => (hk.member (OrderedMap.mem_of_get? hget)).item hx
  unfold unionArms? at h
  split at h
  · cases h
  · split at h
    · rename_i hone
      cases h
      exact harms hone
    · rename_i hany _
      cases h
      exact harms hany
    · cases h

theorem lowerComposed_builds (hT : Lasting root T) (hroot : RootKeyed root)
    (hl : BuildsAll T lower) {ms : Members} (hk : (Json.object ms).Keyed) (name : ItemName) :
    Builds T (lowerComposed root lower ms name) := by
  unfold lowerComposed
  split
  · rename_i arms harms
    unfold lowerAllOf
    split
    · rename_i merged hmerged
      refine hl _ name (mergeAll_keyed (remove_keyed hk _) (fun x hx flat hflat => ?_) hmerged)
      exact flatten_keyed hroot ((hk.member (OrderedMap.mem_of_get? harms)).item hx) hflat
    · exact .pure (hT.plain rfl)
  · split
    · rename_i arms harms
      refine lowerAlternatives_builds hT ms name _ _ fun x hx name => hl x name ?_
      exact unionArms?_keyed hk harms x (List.mem_of_mem_filter hx)
    · exact lowerByType_builds hT hl hk name

theorem constantType_lasting (hT : Lasting root T) (v : Json) : T (constantType v) := by
  have hany : T .any := hT.plain rfl
  unfold constantType
  split
  case h_3 => exact hT.plain (by split <;> rfl)
  case h_6 => exact hT.array hany
  all_goals exact hT.plain rfl

/-! ## References -/

theorem nodeName_slots {p : Pointer} {n : String} (hrun : Yields (nodeName p) s n t) :
    t.slots = s.slots := by
  unfold nodeName at hrun
  obtain ⟨_, _, hget, hrun⟩ := hrun.bind
  cases hget
  split at hrun
  · obtain ⟨-, rfl⟩ := hrun.pure
    rfl
  · obtain ⟨m, u, hclaim, hrun⟩ := hrun.bind
    obtain ⟨_, v, hset, hrun⟩ := hrun.bind
    obtain ⟨-, rfl⟩ := hrun.pure
    obtain rfl := modify_yields hset
    rw [claimName_state hclaim]

theorem lowerNamed_sound (hl : BuildsAll T lower) {schema : Json} {n : String} {ty : Ty}
    (hk : schema.Keyed) (h : Sound T s) (hrun : Yields (lowerNamed lower schema n) s ty t) :
    Sound T t ∧ ty = .named n := by
  obtain ⟨slot, s₁, hopen, hrun⟩ := hrun.bind
  obtain ⟨ty', u, htype, hrun⟩ := hrun.bind
  obtain ⟨hu, hty⟩ := (hl schema (.exact n) hk).sound (openSlot_sound h hopen) htype
  by_cases heq : ty' = .named n
  · simp only [heq, ne_eq, not_true_eq_false, if_false] at hrun
    obtain ⟨rfl, rfl⟩ := hrun.pure
    exact ⟨hu, rfl⟩
  · simp only [ne_eq, heq, not_false_eq_true, if_true] at hrun
    obtain ⟨_, v, hfill, hrun⟩ := hrun.bind
    obtain ⟨rfl, rfl⟩ := hrun.pure
    refine ⟨fill_sound hu ⟨alias_consistent ty', ?_⟩ hfill, rfl⟩
    simpa [ItemShape.types] using hty

theorem lowerReference_builds (hT : Lasting root T) (hroot : RootKeyed root)
    (hl : BuildsAll T lower) (reference : String) :
    Builds T (lowerReference root lower reference) := by
  cases ht : localTarget? root reference with
  | none =>
    have hrun : lowerReference root lower reference = pure .any := by
      simp only [lowerReference, ht]
    rw [hrun]
    exact .pure (hT.plain rfl)
  | some found =>
    obtain ⟨p, target⟩ := found
    have hsome : root.isSome = true := by
      cases root with
      | none => cases ht
      | some document => rfl
    rw [lowerReference_eq ht]
    refine ⟨fun {s ty t} hs hrun => ?_⟩
    obtain ⟨n, u, hnode, hrun⟩ := hrun.bind
    have hu := hs.of_slots (nodeName_slots hnode)
    rcases lowerTarget_yields hrun with ⟨-, rfl, rfl⟩ | ⟨-, rfl, rfl⟩ | ⟨-, -, v, hnamed, rfl⟩
    · exact ⟨hu, hT.boxed hsome n⟩
    · exact ⟨hu, hT.plain rfl⟩
    · obtain ⟨hv, rfl⟩ := lowerNamed_sound hl (localTarget?_keyed hroot ht)
        (s := { u with inProgress := p :: u.inProgress }) (hu.of_slots rfl) hnamed
      exact ⟨hv.of_slots rfl, hT.plain rfl⟩

theorem lowerMembers_builds (hT : Lasting root T) (hroot : RootKeyed root)
    (hl : BuildsAll T lower) {ms : Members} (hk : (Json.object ms).Keyed) (name : ItemName) :
    Builds T (lowerMembers root lower ms name) := by
  unfold lowerMembers
  split
  · exact lowerReference_builds hT hroot hl _
  · split
    · exact .pure (constantType_lasting hT _)
    · split
      · exact lowerEnum_builds hT _ ms name
      · exact lowerComposed_builds hT hroot hl hk name

end Parts

/-- However deep schemas are nested, the items for them are consistent. -/
theorem lower_builds (hT : Lasting root T) (hroot : RootKeyed root) (depth : Nat) :
    BuildsAll T (lower root depth) := by
  induction depth with
  | zero => exact fun v name hk => ⟨fun _ hrun => nomatch hrun⟩
  | succ depth ih =>
    intro v name hk
    cases v with
    | object ms => exact lowerMembers_builds hT hroot ih hk name
    | _ => exact .pure (hT.plain rfl)

/-! ## Whole compilations -/

/-- No option is directly within an option. -/
theorem lasting_flat (root : Option Json) : Lasting root fun ty => ¬ ty.NestsOptions where
  plain {ty} hty := by
    rintro ⟨inner, hmem⟩
    rw [hty, List.mem_singleton] at hmem
    subst hmem
    simp [Ty.within] at hty
  array {ty} hty := by
    simpa [Ty.NestsOptions, Ty.within] using hty
  map {ty} hty := by
    simpa [Ty.NestsOptions, Ty.within] using hty
  optional {ty} hty := by
    cases ty with
    | option t => exact hty
    | array t | map t | boxed t => simpa [Ty.NestsOptions, Ty.optional, Ty.within] using hty
    | _ => simp [Ty.NestsOptions, Ty.optional, Ty.within]
  boxed _ n := by
    simp [Ty.NestsOptions, Ty.within]

/-- What a compiler can have come to by giving nodes names and compiling schemas and nodes in any
order, and the types that it has answered with. -/
inductive Operated (root : Option Json) : List Ty → LowerState → Prop where
  | start : Operated root [] .empty
  | bind {tys : List Ty} {s t : LowerState} {p : Pointer} {n : String} {a : Unit}
      (h : Operated root tys s) (hrun : Yields (Lowering.bind p n) s a t) : Operated root tys t
  | schema {tys : List Ty} {s t : LowerState} {depth : Nat} {v : Json} {n : String} {ty : Ty}
      (h : Operated root tys s) (hv : v.Keyed) (hrun : Yields (lowerRoot root depth v n) s ty t) :
      Operated root (ty :: tys) t
  | pointer {tys : List Ty} {s t : LowerState} {depth : Nat} {p : Pointer} {ty : Ty}
      (h : Operated root tys s) (hrun : Yields (lowerPointer root depth p) s ty t) :
      Operated root (ty :: tys) t

theorem lowerRoot_sound (hT : Lasting root T) (hroot : RootKeyed root) {depth : Nat} {v : Json}
    {n : String} {ty : Ty} (hv : v.Keyed) (h : Sound T s)
    (hrun : Yields (lowerRoot root depth v n) s ty t) : Sound T t ∧ ty = .named n := by
  obtain ⟨_, u, hreserve, hrun⟩ := hrun.bind
  obtain rfl := modify_yields hreserve
  have hreserved : Sound T { s with scope := s.scope.reserve n } := h.of_slots rfl
  exact lowerNamed_sound (lower_builds hT hroot depth) hv hreserved hrun

theorem Operated.sound (hT : Lasting root T) (hroot : RootKeyed root) {tys : List Ty}
    (h : Operated root tys s) : Sound T s ∧ ∀ ty ∈ tys, T ty := by
  induction h with
  | start => exact ⟨(fun x hx => nomatch hx), fun ty hty => nomatch hty⟩
  | bind _ hrun ih =>
    obtain ⟨_, u, hreserve, hrun⟩ := hrun.bind
    obtain rfl := modify_yields hreserve
    obtain rfl := modify_yields hrun
    exact ⟨ih.1.of_slots rfl, ih.2⟩
  | schema _ hv hrun ih =>
    obtain ⟨ht, rfl⟩ := lowerRoot_sound hT hroot hv ih.1 hrun
    exact ⟨ht, List.forall_mem_cons.mpr ⟨hT.plain rfl, ih.2⟩⟩
  | pointer _ hrun ih =>
    obtain ⟨ht, hty⟩ :=
      (lowerReference_builds hT hroot (lower_builds hT hroot _) _).sound ih.1 hrun
    exact ⟨ht, List.forall_mem_cons.mpr ⟨hty, ih.2⟩⟩

/-- Whatever a compiler was asked for, its items are consistent: no two identifiers and no two keys
of an item are the same, fields that need not be there have optional types, and no option is
directly within an option. -/
theorem items_consistent {tys : List Ty} (hroot : RootKeyed root) (h : Operated root tys s) :
    (∀ x ∈ s.items, x.shape.Consistent ∧ ∀ ty ∈ x.shape.types, ¬ ty.NestsOptions) ∧
      ∀ ty ∈ tys, ¬ ty.NestsOptions :=
  h.sound (lasting_flat root) hroot

/-- A document with a schema whose properties come to the same identifiers, also the identifier
of the field for all others. -/
def namesakes : Json := .object [("$defs", .object [("a", .object [
  ("properties", .object [("first-name", .object [("type", .array [.string "string", .string "null"])]),
    ("first_name", .object [("type", .string "integer")]), ("extra", .bool true)]),
  ("required", .array [.string "first_name"]),
  ("additionalProperties", .object [("enum", .array [.string "x", .string "X", .string "x"])])])])]

/-- The items for that schema and for texts. -/
def namesakeItems : List Item := [
  ⟨"A", none, .record [
    ⟨"first-name", "first_name", .option .string, false, none⟩,
    ⟨"first_name", "first_name2", .integer, true, none⟩,
    ⟨"extra", "extra", .option .any, false, none⟩] false (some ("extra2", .named "AExtra"))⟩,
  ⟨"AExtra", none, .enumeration [⟨"X", "x"⟩, ⟨"X2", "X"⟩]⟩,
  ⟨"Text", none, .alias .string⟩]

theorem items_consistent_namesakes :
    RootKeyed (some namesakes) ∧ ∃ s, Operated (some namesakes) [.named "Text", .named "A"] s ∧
      s.items = namesakeItems ∧ ∀ x ∈ namesakeItems, x.shape.Consistent := by
  have hroot : RootKeyed (some namesakes) := by
    intro document hd
    obtain rfl := Option.some.inj hd
    decide +kernel
  let text : Json := .object [("type", .string "string")]
  let act : LowerM (Ty × Ty) := do
    bind ⟨["$defs", "a"]⟩ "A"
    let first ← lowerPointer (some namesakes) 4 ⟨["$defs", "a"]⟩
    let second ← lowerRoot (some namesakes) 1 text "Text"
    return (second, first)
  have hact : (act.run .empty).map (fun r => (r.1, r.2.items)) =
      some ((.named "Text", .named "A"), namesakeItems) := by
    decide +kernel
  obtain ⟨⟨tys, s⟩, hrun, heq⟩ := Option.map_eq_some_iff.mp hact
  obtain ⟨htys, hitems⟩ := Prod.mk.inj heq
  subst htys
  obtain ⟨_, s₁, hbind, hrun⟩ := Yields.bind hrun
  obtain ⟨first, s₂, hfirst, hrun⟩ := Yields.bind hrun
  obtain ⟨second, hsecond, hpair⟩ := Yields.some hrun
  obtain ⟨rfl, rfl⟩ := Prod.mk.inj hpair
  have hoperated : Operated (some namesakes) [.named "Text", .named "A"] s :=
    .schema (.pointer (.bind .start hbind) hfirst) (by decide) hsecond
  refine ⟨hroot, s, hoperated, hitems, fun x hx => ?_⟩
  exact ((items_consistent hroot hoperated).1 x (hitems ▸ hx)).1

end Lowering

end SchemaBindings
