import SchemaBindings.Proofs.LoweringPlaces

/-! # What the arms of an `allOf` declare

An `allOf` is compiled as one schema. `Brings` says which schemas an arm puts
into it and in which order: the arm itself, then what its reference leads to,
then its own arms. Of each property the first definition in that order stands,
and what any of the schemas requires is required. -/

namespace SchemaBindings.Lowering

variable {root : Option Json} {ms target source merged flat : Members} {arm x : Json}
  {arms : List Json} {cs ds : List Members}

/-- What a schema says of properties. -/
def propertiesOf (ms : Members) : Members :=
  match ms.get? "properties" with
  | some (.object properties) => properties
  | _ => []

/-- What a schema lists as required. -/
def requiredOf (ms : Members) : List Json :=
  match ms.get? "required" with
  | some (.array names) => names
  | _ => []

/-- A schema lists a value as required. -/
def Requires (ms : Members) (x : Json) : Prop := ∃ y ∈ requiredOf ms, y.same x = true

/-- If a schema says something of properties, it is an object, and if of what is required, a list. -/
structure Readable (ms : Members) : Prop where
  properties : ∃ given : Option Members, ms.get? "properties" = given.map .object
  required : ∃ given : Option (List Json), ms.get? "required" = given.map .array

/-- The arms of a schema. -/
def ownArms (ms : Members) : List Json :=
  match ms.get? "allOf" with
  | some (.array arms) => arms
  | _ => []

/-- The schemas that some arms put into the schema that they are merged into, in order. An arm puts
in itself, then what its reference leads to, then its own arms. -/
inductive Brings (root : Option Json) : List Json → List Members → Prop where
  | nil : Brings root [] []
  | anything {arms : List Json} {cs : List Members} (h : Brings root arms cs) :
      Brings root (.bool true :: arms) cs
  | plain {ms : Members} {arms : List Json} {nested cs : List Members}
      (hr : refText? (.object ms) = none) (hnested : Brings root (ownArms ms) nested)
      (h : Brings root arms cs) : Brings root (.object ms :: arms) (ms :: nested ++ cs)
  | reference {ms : Members} {arms : List Json} {reference : String} {found : Pointer × Json}
      {behind nested cs : List Members} (hr : refText? (.object ms) = some reference)
      (hfound : localTarget? root reference = some found) (hbehind : Brings root [found.2] behind)
      (hnested : Brings root (ownArms ms) nested) (h : Brings root arms cs) :
      Brings root (.object ms :: arms) (ms :: (behind ++ nested) ++ cs)

theorem Brings.unique (h : Brings root arms cs) (h' : Brings root arms ds) : ds = cs := by
  induction h generalizing ds with
  | nil =>
    cases h'
    rfl
  | anything _ ih =>
    cases h' with
    | anything h' => exact ih h'
  | plain hr _ _ ihn ih =>
    cases h' with
    | plain _ hn' h' => rw [ihn hn', ih h']
    | reference hr' => cases hr.symm.trans hr'
  | reference hr hfound _ _ _ ihb ihn ih =>
    cases h' with
    | plain hr' => cases hr.symm.trans hr'
    | reference hr' hfound' hb' hn' h' =>
      cases hr.symm.trans hr'
      cases hfound.symm.trans hfound'
      rw [ihb hb', ihn hn', ih h']

theorem Brings.one_plain (hr : refText? (.object ms) = none) (h : Brings root (ownArms ms) cs) :
    Brings root [.object ms] (ms :: cs) := by
  simpa using Brings.plain hr h .nil

theorem Brings.one_reference {reference : String} {found : Pointer × Json}
    (hr : refText? (.object ms) = some reference)
    (hfound : localTarget? root reference = some found) (hbehind : Brings root [found.2] cs)
    (h : Brings root (ownArms ms) ds) : Brings root [.object ms] (ms :: (cs ++ ds)) := by
  simpa using Brings.reference hr hfound hbehind h .nil

theorem Brings.append (h : Brings root arms cs) {others : List Json} (h' : Brings root others ds) :
    Brings root (arms ++ others) (cs ++ ds) := by
  induction h with
  | nil => exact h'
  | anything _ ih => exact .anything ih
  | plain hr hn _ _ ih =>
    rw [List.append_assoc]
    exact .plain hr hn ih
  | reference hr hfound hb hn _ _ _ ih =>
    rw [List.append_assoc]
    exact .reference hr hfound hb hn ih

/-! ## Two schemas -/

theorem propertiesOf_eq {given : Option Members} (h : ms.get? "properties" = given.map .object) :
    propertiesOf ms = given.getD [] := by
  cases given with
  | none =>
    rw [Option.map_none] at h
    simp only [propertiesOf, h, Option.getD_none]
  | some properties =>
    rw [Option.map_some] at h
    simp only [propertiesOf, h, Option.getD_some]

theorem requiredOf_eq {given : Option (List Json)} (h : ms.get? "required" = given.map .array) :
    requiredOf ms = given.getD [] := by
  cases given with
  | none =>
    rw [Option.map_none] at h
    simp only [requiredOf, h, Option.getD_none]
  | some names =>
    rw [Option.map_some] at h
    simp only [requiredOf, h, Option.getD_some]

/-- What two schemas say of properties, merged. -/
theorem properties_merge (hd : source.Distinct) (ht : Readable target) (hs : Readable source) :
    (∃ given : Option Members, (mergeSchema target source).get? "properties" =
        given.map .object) ∧
      ∀ p, (propertiesOf (mergeSchema target source)).get? p =
        ((propertiesOf target).get? p).or ((propertiesOf source).get? p) := by
  obtain ⟨a, ha⟩ := ht.properties
  obtain ⟨b, hb⟩ := hs.properties
  have hmerge : (mergeSchema target source).get? "properties" =
      (a.merge (fun a b => b.foldl addProperty a) b).map .object := by
    rw [get?_merge hd, ha, hb]
    cases a <;> cases b <;> simp [mergeValue]
  refine ⟨⟨_, hmerge⟩, fun p => ?_⟩
  rw [propertiesOf_eq hmerge, propertiesOf_eq ha, propertiesOf_eq hb]
  cases b with
  | none => simp [OrderedMap.get?]
  | some new =>
    cases a with
    | none => simp [OrderedMap.get?]
    | some old => exact get?_addProperties new p

/-- What two schemas require, merged. -/
theorem requires_merge (hk : (Json.object source).Keyed) (ht : Readable target)
    (hs : Readable source) :
    (∃ given : Option (List Json), (mergeSchema target source).get? "required" =
        given.map .array) ∧
      ∀ x, Requires (mergeSchema target source) x ↔ Requires target x ∨ Requires source x := by
  obtain ⟨a, ha⟩ := ht.required
  obtain ⟨b, hb⟩ := hs.required
  have hmerge : (mergeSchema target source).get? "required" =
      (a.merge (fun a b => b.foldl addRequired a) b).map .array := by
    rw [get?_merge hk.distinct, ha, hb]
    cases a <;> cases b <;> simp [mergeValue]
  refine ⟨⟨_, hmerge⟩, fun x => ?_⟩
  unfold Requires
  rw [requiredOf_eq hmerge, requiredOf_eq ha, requiredOf_eq hb]
  cases b with
  | none => cases a <;> simp
  | some new =>
    have hkeyed : ∀ y ∈ new, y.Keyed := fun y hy =>
      (hk.member (OrderedMap.mem_of_get? hb)).item hy
    cases a with
    | none => simp
    | some old =>
      simp only [Option.merge_some_some, Option.getD_some]
      constructor
      · rintro ⟨y, hy, hsame⟩
        exact (mem_of_mem_addRequireds hy).imp (fun hy => ⟨y, hy, hsame⟩) fun hy => ⟨y, hy, hsame⟩
      · rintro (⟨y, hy, hsame⟩ | ⟨y, hy, hsame⟩)
        · exact ⟨y, subset_addRequireds _ _ hy, hsame⟩
        · obtain ⟨z, hz, hzy⟩ : ∃ z ∈ new.foldl addRequired old, z.same y = true :=
            exists_same_addRequireds hy (hkeyed y hy)
          exact ⟨z, hz, Json.same_trans hzy hsame⟩

/-- A schema that says of properties and of what is required what some schemas say together. -/
structure Unites (merged : Members) (cs : List Members) : Prop where
  readable : Readable merged
  property : ∀ p, (propertiesOf merged).get? p = cs.findSome? fun c => (propertiesOf c).get? p
  required : ∀ x, Requires merged x ↔ ∃ c ∈ cs, Requires c x

theorem Unites.self (h : Readable ms) : Unites ms [ms] where
  readable := h
  property p := by simp
  required x := by simp

theorem Unites.merge (hk : (Json.object source).Keyed) (ht : Unites target cs)
    (hs : Unites source ds) : Unites (mergeSchema target source) (cs ++ ds) := by
  obtain ⟨hproperties, hget⟩ := properties_merge hk.distinct ht.readable hs.readable
  obtain ⟨hrequired, hrequires⟩ := requires_merge hk ht.readable hs.readable
  refine ⟨⟨hproperties, hrequired⟩, fun p => ?_, fun x => ?_⟩
  · rw [hget, ht.property, hs.property, List.findSome?_append]
  · simp [hrequires, ht.required, hs.required, or_and_right, exists_or]

/-- Other keywords do not matter. -/
theorem Unites.remove (h : Unites ms cs) (hd : ms.Distinct) {key : String}
    (hp : "properties" ≠ key) (hr : "required" ≠ key) : Unites (ms.remove key) cs := by
  have hproperties := OrderedMap.get?_remove_of_ne hd hp
  have hrequired := OrderedMap.get?_remove_of_ne hd hr
  refine ⟨⟨?_, ?_⟩, fun p => ?_, fun x => ?_⟩
  · rw [hproperties]
    exact h.readable.properties
  · rw [hrequired]
    exact h.readable.required
  · rw [← h.property, propertiesOf, hproperties, propertiesOf]
  · rw [← h.required, Requires, requiredOf, hrequired, Requires, requiredOf]

/-! ## All arms -/

/-- An arm that is merged as one schema puts in some schemas, and the one says what they say. -/
structure Puts (root : Option Json) (arm : Json) (flat : Members) (cs : List Members) :
    Prop where
  brings : Brings root [arm] cs
  keyed : (Json.object flat).Keyed
  noArms : flat.get? "allOf" = none
  unites : (∀ c ∈ cs, Readable c) → Unites flat cs

theorem mergeAll_unites {schemaOf : Json → Option Members}
    (hall : ∀ x ∈ arms, ∀ flat, schemaOf x = some flat → ∃ cs, Puts root x flat cs)
    (h : mergeAll schemaOf target arms = some merged) :
    ∃ cs, Brings root arms cs ∧ merged.get? "allOf" = target.get? "allOf" ∧
      ∀ {ds}, Unites target ds → (∀ c ∈ cs, Readable c) → Unites merged (ds ++ cs) := by
  induction arms generalizing target with
  | nil =>
    cases h
    exact ⟨[], .nil, rfl, fun ht _ => by simpa using ht⟩
  | cons x arms ih =>
    obtain ⟨hfirst, hall⟩ := List.forall_mem_cons.mp hall
    obtain ⟨flat, hflat, hrest⟩ := mergeAll_cons.mp h
    obtain ⟨cs, hputs⟩ := hfirst flat hflat
    obtain ⟨cs', hbrings, hkept, hunites⟩ := ih hall hrest
    refine ⟨cs ++ cs', hputs.brings.append hbrings, ?_, fun {ds} ht hread => ?_⟩
    · rw [hkept, get?_mergeSchema hputs.noArms]
    · obtain ⟨hcs, hcs'⟩ := List.forall_mem_append.mp hread
      rw [← List.append_assoc]
      exact hunites (ht.merge hputs.keyed (hputs.unites hcs)) hcs'

theorem ownArms_eq (h : ms.get? "allOf" = some (.array arms)) : ownArms ms = arms := by
  simp only [ownArms, h]

/-- An arm's own members with what its reference leads to. -/
theorem withTarget_unites {depth : Nat} {own : Members} (hms : (Json.object ms).Keyed)
    (ih : ∀ {found flat}, found.Keyed → flatten root depth found = some flat →
      ∃ cs, Puts root found flat cs)
    (hroot : RootKeyed root) (h : withTarget root depth ms = some own) :
    ∃ behind, (Json.object own).Keyed ∧ own.get? "allOf" = ms.get? "allOf" ∧
      (∀ {nested}, Brings root (ownArms ms) nested →
        Brings root [.object ms] (ms :: (behind ++ nested))) ∧
      ((∀ c ∈ ms :: behind, Readable c) → Unites own (ms :: behind)) := by
  have hfree : (ms.remove "$ref").get? "allOf" = ms.get? "allOf" :=
    OrderedMap.get?_remove_of_ne hms.distinct (by decide)
  have hself {h : Readable ms} : Unites (ms.remove "$ref") [ms] :=
    (Unites.self h).remove hms.distinct (by decide) (by decide)
  unfold withTarget at h
  split at h
  · rename_i reference hr
    obtain ⟨found, hfound, h⟩ := Option.bind_eq_some_iff.mp h
    obtain ⟨flat, hflat, rfl⟩ := Option.map_eq_some_iff.mp h
    obtain ⟨behind, hputs⟩ := ih (localTarget?_keyed hroot hfound) hflat
    refine ⟨behind, ?_, ?_, fun hnested => ?_, fun hread => ?_⟩
    · exact mergeSchema_keyed (remove_keyed hms _) hputs.keyed
    · rw [get?_mergeSchema hputs.noArms, hfree]
    · exact .one_reference hr hfound hputs.brings hnested
    · obtain ⟨hms', hbehind⟩ := List.forall_mem_cons.mp hread
      exact (hself (h := hms')).merge hputs.keyed (hputs.unites hbehind)
  · rename_i hr
    cases h
    refine ⟨[], remove_keyed hms _, hfree, fun hnested => ?_, fun hread => ?_⟩
    · exact .one_plain hr hnested
    · exact hself (h := hread ms (List.mem_cons_self ..))

theorem flatten_puts (hroot : RootKeyed root) {depth : Nat} (harm : arm.Keyed)
    (h : flatten root depth arm = some flat) : ∃ cs, Puts root arm flat cs := by
  induction depth generalizing arm flat with
  | zero => cases h
  | succ depth ih =>
    have hkeyed := flatten_keyed hroot harm h
    cases arm with
    | bool b =>
      cases b with
      | false => cases h
      | true =>
        cases h
        refine ⟨[], .anything .nil, hkeyed, rfl, fun _ => ⟨⟨⟨none, rfl⟩, ⟨none, rfl⟩⟩, ?_, ?_⟩⟩
        · exact fun p => rfl
        · simp [Requires, requiredOf, OrderedMap.get?]
    | object ms =>
      rw [flatten_object] at h
      obtain ⟨own, hown, h⟩ := Option.bind_eq_some_iff.mp h
      obtain ⟨behind, hk, harms, hbrings, hunites⟩ := withTarget_unites harm ih hroot hown
      have hnone : (own.remove "allOf").get? "allOf" = none :=
        OrderedMap.get?_remove_self hk.distinct
      have hrest (hread : ∀ c ∈ ms :: behind, Readable c) :
          Unites (own.remove "allOf") (ms :: behind) :=
        (hunites hread).remove hk.distinct (by decide) (by decide)
      split at h
      · rename_i arms hget
        have hall : ∀ x ∈ arms, ∀ flat, flatten root depth x = some flat →
            ∃ cs, Puts root x flat cs := fun x hx _ =>
          ih ((hk.member (OrderedMap.mem_of_get? hget)).item hx)
        obtain ⟨nested, hnested, hkept, hmerged⟩ := mergeAll_unites hall h
        rw [harms] at hget
        refine ⟨ms :: (behind ++ nested), hbrings (ownArms_eq hget ▸ hnested), hkeyed,
          hkept.trans hnone, fun hread => ?_⟩
        rw [← List.cons_append] at hread ⊢
        obtain ⟨hread, hreadNested⟩ := List.forall_mem_append.mp hread
        exact hmerged (hrest hread) hreadNested
      · rename_i hget
        cases h
        have hnil : ownArms ms = [] := by
          unfold ownArms
          split
          · rename_i arms harray
            exact absurd (harms.trans harray) (hget arms)
          · rfl
        refine ⟨ms :: (behind ++ []), hbrings (hnil ▸ .nil), hkeyed, hnone, fun hread => ?_⟩
        rw [List.append_nil] at hread ⊢
        exact hrest hread
    | _ => cases h

/-! ## Structs -/

/-- The kinds of value other than null that a schema admits, of those that have properties. -/
def kindsOf (ms : Members) : List String :=
  match ms.get? "type" with
  | some (.string kind) => [kind]
  | some (.array kinds) => otherKinds (kinds.filterMap Json.text?)
  | _ => ["object"]

/-- A schema that is compiled to a struct: it admits objects alone, and null at most, declares
properties, and is no reference, constant or enumeration. -/
structure MakesRecord (ms : Members) : Prop where
  noRef : refText? (.object ms) = none
  noConst : ms.get? "const" = none
  noEnum : ∀ values, ms.get? "enum" ≠ some (.array values)
  properties : ∃ ps, ms.get? "properties" = some (.object ps)
  kinds : kindsOf ms = ["object"]

variable {s t : LowerState} {name : ItemName} {ty : Ty}

theorem lowerByType_object {lower : Lower} {ps : Members}
    (hps : ms.get? "properties" = some (.object ps)) (hkinds : kindsOf ms = ["object"])
    (hrun : Yields (lowerByType lower ms name) s ty t) :
    ∃ inner own, Yields (lowerObject lower ms inner) s own t ∧ (ty = own ∨ ty = own.optional) := by
  unfold kindsOf at hkinds
  unfold lowerByType at hrun
  split at hkinds
  · rename_i kind hkind
    obtain rfl : kind = "object" := by simpa using hkinds
    simp only [hkind] at hrun
    exact ⟨name, ty, hrun, .inl rfl⟩
  · rename_i kinds hlist
    simp only [hlist, lowerKinds, hkinds] at hrun
    cases hnull : (kinds.filterMap Json.text?).contains "null" with
    | false =>
      rw [hnull] at hrun
      exact ⟨name, ty, hrun, .inl rfl⟩
    | true =>
      rw [hnull] at hrun
      obtain ⟨own, hown, rfl⟩ := hrun.some
      exact ⟨name.inner, own, hown, .inr rfl⟩
  · rename_i hstring harray
    have hhas : ms.has "properties" = true := by simp [OrderedMap.has, hps]
    split at hrun
    · rename_i kind hkind
      exact absurd hkind (hstring kind)
    · rename_i kinds hlist
      exact absurd hlist (harray kinds)
    · rw [hhas, Bool.true_or, if_pos rfl] at hrun
      exact ⟨name, ty, hrun, .inl rfl⟩

theorem MakesRecord.lower {depth : Nat} (h : MakesRecord ms) (hnone : ms.get? "allOf" = none)
    (hrun : Yields (lower root depth (.object ms) name) s ty t) :
    ∃ depth inner own, Yields (lowerObject (Lowering.lower root depth) ms inner) s own t ∧
      (ty = own ∨ ty = own.optional) := by
  obtain ⟨ps, hps⟩ := h.properties
  have hunion : unionArms? ms = none := by simp [unionArms?, OrderedMap.has, hps]
  cases depth with
  | zero => cases hrun
  | succ depth =>
    change Yields (lowerMembers root (Lowering.lower root depth) ms name) s ty t at hrun
    unfold lowerMembers at hrun
    split at hrun
    · rename_i reference hr
      cases (refText?_eq_some.mpr hr).symm.trans h.noRef
    · simp only [h.noConst] at hrun
      split at hrun
      · rename_i values hvalues
        exact absurd hvalues (h.noEnum values)
      · simp only [lowerComposed, hnone, hunion] at hrun
        exact ⟨depth, lowerByType_object hps h.kinds hrun⟩

theorem mem_requiredNames {n : String} : n ∈ requiredNames ms ↔ Requires ms (.string n) := by
  have hnames : requiredNames ms = (requiredOf ms).filterMap Json.text? := by
    unfold requiredNames requiredOf
    rcases ms.get? "required" with _ | v
    · rfl
    · cases v <;> rfl
  rw [hnames, List.mem_filterMap, Requires]
  refine exists_congr fun y => and_congr_right fun _ => ?_
  cases y <;> simp [Json.text?, Json.same]

theorem Unites.mem_names (h : Unites merged cs) {p : String} :
    p ∈ (propertiesOf merged).names ↔ ∃ c ∈ cs, p ∈ (propertiesOf c).names := by
  have hget (m : Members) : p ∈ m.names ↔ (m.get? p).isSome = true := by
    rw [Option.isSome_iff_ne_none, ne_eq, OrderedMap.get?_eq_none, not_not]
  simp only [hget, h.property, List.isSome_findSome?, List.any_eq_true]

/-- Nothing that the arms of an `allOf` declare is lost. The merged schema has the properties of
the schema, its arms, what these refer to and their own arms, each with its first definition, and
requires what any of them requires. If it becomes a struct, that has one field for each property,
required exactly if one of the schemas requires it. -/
theorem allOf_unites (hroot : RootKeyed root) (hk : (Json.object ms).Keyed)
    (harms : ms.get? "allOf" = some (.array arms))
    (h : mergeAll (flatten root (mergeDepth + 1)) (ms.remove "allOf") arms = some merged) :
    ∃ cs, Brings root arms cs ∧ (∀ ds, Brings root arms ds → ds = cs) ∧
      ((∀ c ∈ ms :: cs, Readable c) →
        (propertiesOf merged).names.Nodup ∧
        (∀ p, p ∈ (propertiesOf merged).names ↔ ∃ c ∈ ms :: cs, p ∈ (propertiesOf c).names) ∧
        (∀ p, (propertiesOf merged).get? p =
          (ms :: cs).findSome? fun c => (propertiesOf c).get? p) ∧
        (∀ x, Requires merged x ↔ ∃ c ∈ ms :: cs, Requires c x) ∧
        ∀ {depth name s ty t}, MakesRecord merged →
          Yields (lowerComposed root (lower root depth) ms name) s ty t →
          ∃ x fields denyUnknown extra, t.slots[s.slots.length]? = some (some x) ∧
            (ty = .named x.name ∨ ty = .option (.named x.name)) ∧
            x.shape = .record fields denyUnknown extra ∧
            fields.map (·.jsonName) = (propertiesOf merged).names ∧
            ∀ f ∈ fields, f.required = true ↔ ∃ c ∈ ms :: cs, f.jsonName ∈ requiredNames c) := by
  have hall : ∀ x ∈ arms, ∀ flat, flatten root (mergeDepth + 1) x = some flat →
      ∃ cs, Puts root x flat cs := fun x hx _ =>
    flatten_puts hroot ((hk.member (OrderedMap.mem_of_get? harms)).item hx)
  have hkeyed : (Json.object merged).Keyed :=
    mergeAll_keyed (remove_keyed hk _) (fun x hx flat hflat => (hall x hx flat hflat).elim
      fun _ hputs => hputs.keyed) h
  obtain ⟨cs, hbrings, hkept, hunites⟩ := mergeAll_unites hall h
  refine ⟨cs, hbrings, fun ds => hbrings.unique, fun hread => ?_⟩
  obtain ⟨hms, hcs⟩ := List.forall_mem_cons.mp hread
  have hmerged : Unites merged (ms :: cs) :=
    hunites ((Unites.self hms).remove hk.distinct (by decide) (by decide)) hcs
  refine ⟨?_, fun p => hmerged.mem_names, hmerged.property, hmerged.required,
    fun {depth name s ty t} hrecord hrun => ?_⟩
  · obtain ⟨given, hgiven⟩ := hmerged.readable.properties
    rw [propertiesOf_eq hgiven]
    cases given with
    | none => exact List.nodup_nil
    | some ps =>
      have hps : (Json.object ps).Keyed := hkeyed.member (OrderedMap.mem_of_get? hgiven)
      exact hps.distinct
  · have hnone : merged.get? "allOf" = none :=
      hkept.trans (OrderedMap.get?_remove_self hk.distinct)
    obtain ⟨ps, hps⟩ := hrecord.properties
    simp only [lowerComposed, harms, lowerAllOf, h] at hrun
    obtain ⟨d, inner, own, hown, hty⟩ := hrecord.lower hnone hrun
    obtain ⟨x, fields, denyUnknown, extra, _, hplace, rfl, hshape, hdeclares⟩ :=
      lowerObject_record (lower_widens root d) hps hown
    have hpropertiesOf : propertiesOf merged = ps := by simp only [propertiesOf, hps]
    refine ⟨x, fields, denyUnknown, extra, hplace, hty, hshape, ?_, fun f hf => ?_⟩
    · rw [hpropertiesOf]
      exact hdeclares.names
    · rw [hdeclares.required f hf, List.contains_iff_mem, mem_requiredNames, hmerged.required]
      simp only [mem_requiredNames]

/-- What is said of a record in general. -/
def entryMembers : Members := [
  ("properties", .object [("id", .object [("type", .string "string")]),
    ("note", .object [("type", .string "string")])]),
  ("required", .array [.string "id"])]

/-- A reference to that. -/
def entryReference : Members := [("$ref", .string "#/$defs/entry")]

/-- What is said of somebody with a name. -/
def namedMembers : Members := [
  ("allOf", .array [.object entryReference]),
  ("properties", .object [("name", .object [("type", .string "string")])])]

/-- A document with both. -/
def staffDocument : Json := .object [("$defs", .object [
  ("entry", .object entryMembers), ("named", .object namedMembers)])]

/-- An arm that refers to one and says more. -/
def armMembers : Members := [("$ref", .string "#/$defs/named"),
  ("required", .array [.string "note"])]

/-- Somebody with a name whose identifier is a number. -/
def employeeMembers : Members := [
  ("allOf", .array [.object armMembers, .bool true]),
  ("properties", .object [("id", .object [("type", .string "integer")])])]

/-- The schemas that are merged then. -/
def employeeParts : List Members :=
  [employeeMembers, armMembers, namedMembers, entryReference, entryMembers]

/-- What they are merged to. -/
def employeeMerged : Members := [
  ("properties", .object [("id", .object [("type", .string "integer")]),
    ("name", .object [("type", .string "string")]),
    ("note", .object [("type", .string "string")])]),
  ("required", .array [.string "note", .string "id"])]

/-- The struct for it. -/
def employeeItem : Item := ⟨"Employee", none, .record [⟨"id", "id", .integer, true, none⟩,
  ⟨"name", "name", .option .string, false, none⟩, ⟨"note", "note", .string, true, none⟩] false none⟩

theorem allOf_unites_employee :
    RootKeyed (some staffDocument) ∧ (Json.object employeeMembers).Keyed ∧
    employeeMembers.get? "allOf" = some (.array [.object armMembers, .bool true]) ∧
    mergeAll (flatten (some staffDocument) (mergeDepth + 1)) (employeeMembers.remove "allOf")
      [.object armMembers, .bool true] = some employeeMerged ∧
    Brings (some staffDocument) [.object armMembers, .bool true] employeeParts.tail ∧
    (∀ c ∈ employeeParts, Readable c) ∧
    (∀ p, (propertiesOf employeeMerged).get? p =
      employeeParts.findSome? fun c => (propertiesOf c).get? p) ∧
    MakesRecord employeeMerged ∧ ∃ t,
      Yields (lowerComposed (some staffDocument) (lower (some staffDocument) 2) employeeMembers
        (.exact "Employee")) .empty (.named "Employee") t ∧ t.slots = [some employeeItem] ∧
      ∀ f ∈ employeeItem.shape.fields,
        f.required = true ↔ ∃ c ∈ employeeParts, f.jsonName ∈ requiredNames c := by
  have hroot : RootKeyed (some staffDocument) := by
    intro document hd
    obtain rfl := Option.some.inj hd
    decide +kernel
  have hk : (Json.object employeeMembers).Keyed := by decide +kernel
  have harms : employeeMembers.get? "allOf" = some (.array [.object armMembers, .bool true]) := rfl
  have hmerged : mergeAll (flatten (some staffDocument) (mergeDepth + 1))
      (employeeMembers.remove "allOf") [.object armMembers, .bool true] = some employeeMerged := by
    decide +kernel
  have hentry : localTarget? (some staffDocument) "#/$defs/entry" =
      some (⟨["$defs", "entry"]⟩, .object entryMembers) := by decide +kernel
  have hnamed : localTarget? (some staffDocument) "#/$defs/named" =
      some (⟨["$defs", "named"]⟩, .object namedMembers) := by decide +kernel
  have hbehind : Brings (some staffDocument) [.object namedMembers]
      [namedMembers, entryReference, entryMembers] :=
    .one_plain rfl (.one_reference rfl hentry (.one_plain rfl .nil) .nil)
  have harm : Brings (some staffDocument) [.object armMembers] employeeParts.tail :=
    .one_reference rfl hnamed hbehind .nil
  have hbrings : Brings (some staffDocument) [.object armMembers, .bool true]
      employeeParts.tail := harm.append (.anything .nil)
  have hread : ∀ c ∈ employeeParts, Readable c := by
    simp only [employeeParts, List.forall_mem_cons]
    exact ⟨⟨⟨some _, rfl⟩, none, rfl⟩, ⟨⟨none, rfl⟩, some _, rfl⟩, ⟨⟨some _, rfl⟩, none, rfl⟩,
      ⟨⟨none, rfl⟩, none, rfl⟩, ⟨⟨some _, rfl⟩, some _, rfl⟩, fun c hc => nomatch hc⟩
  have hrecord : MakesRecord employeeMerged := ⟨rfl, rfl, fun _ => nofun, ⟨_, rfl⟩, rfl⟩
  have hlowered : ((lowerComposed (some staffDocument) (lower (some staffDocument) 2)
      employeeMembers (.exact "Employee")).run .empty).map (fun r => (r.1, r.2.slots)) =
        some (.named "Employee", [some employeeItem]) := by decide +kernel
  obtain ⟨⟨ty, t⟩, hrun, heq⟩ := Option.map_eq_some_iff.mp hlowered
  obtain ⟨rfl, hslots⟩ := Prod.mk.inj heq
  obtain ⟨cs, -, hunique, hunites⟩ := allOf_unites hroot hk harms hmerged
  obtain rfl := hunique _ hbrings
  obtain ⟨-, -, hproperties, -, hstruct⟩ := hunites hread
  obtain ⟨x, fields, deny, extra, hplace, -, hshape, -, hrequired⟩ := hstruct hrecord hrun
  refine ⟨hroot, hk, harms, hmerged, hbrings, hread, hproperties, hrecord, t, hrun, hslots, ?_⟩
  rw [hslots] at hplace
  obtain rfl : employeeItem = x := by simpa [LowerState.empty] using hplace
  rw [hshape]
  exact hrequired

end SchemaBindings.Lowering
