import SchemaBindings.Proofs.ItemConsistency

/-! # The items for one schema

A schema without a document around it is always compiled: references lead
nowhere then, so whatever an `allOf` merges is within the schema, and nothing
can hold itself. The first item is the type itself: its name is kept for the
schema, which either becomes an item of that name at once, with the place right
behind the one that was taken for it, or a type that is given the name. -/

namespace SchemaBindings.Lowering

variable {s t u : LowerState} {name : ItemName}

/-! ## The compilation ends -/

theorem not_loops_alone {schema : Json} (hk : schema.Keyed) : ¬ Loops none schema := by
  refine not_loops_of_plain hk (fun v hv => nomatch hv) (.inr (Json.self_mem_nodes schema)) ?_
  rintro v - ⟨_, _, _, _, -, -, -, -, hsome⟩
  cases hsome

theorem visit_alone_isSome {schema : Json} (hk : schema.Keyed) :
    (visit none (depthFor schema.size) [] [] schema).isSome := by
  have hroot : ∀ v, none = some v → v = schema := by
    intro v hv
    cases hv
  have hm : Moment none schema (targets schema) [] [] (targets schema).length
      (plainNodes schema).length schema := {
    openedNodup := List.nodup_nil
    openedEnds := List.nil_subset _
    openedLeft := Nat.le_add_left ..
    pathNodup := List.nodup_nil
    pathPlain := List.nil_subset _
    pathLeft := Nat.le_add_left ..
    above := fun _ hu => absurd hu List.not_mem_nil
    noLoop := not_loops_alone hk }
  exact visit_ends hk hroot (List.Subset.refl _) _ [] hm
    (.inl ⟨Json.self_mem_nodes schema, reach_le_depthFor schema⟩)

theorem lowerRoot_visits (root : Option Json) (depth : Nat) (schema : Json) (n : String) :
    Visits (visit root depth) [schema] (lowerRoot root depth schema n) :=
  (reserve_visits n).after fun _ => lowerNamed_visits (lower_visits root depth) schema n

/-- A schema alone is compiled within the depth that it is given. -/
theorem exists_lowerRoot {schema : Json} (hk : schema.Keyed) (n : String) : ∃ ty t,
    Yields (lowerRoot none (depthFor schema.size) schema n) .empty ty t := by
  obtain ⟨final, hfinal⟩ := Option.isSome_iff_exists.mp (visit_alone_isSome hk)
  have hone : [schema].foldlM (visit none (depthFor schema.size) []) [] = some final := by
    simp [hfinal]
  obtain ⟨ty, t, hrun, -⟩ := (lowerRoot_visits none _ schema n).some_of (s := .empty) hone
  exact ⟨ty, t, hrun⟩

/-! ## The first item -/

/-- A step that comes to the name that it is given has put the item of that name first. -/
structure Heads (name : ItemName) (act : LowerM Ty) : Prop where
  first : ∀ {s ty t n}, Promises s → n ∈ name.owned → Yields act s ty t → ty = .named n →
    ∃ x after, t.slots = s.slots ++ some x :: after ∧ x.name = n

/-- Every schema alone that becomes the item of its name puts that item first. -/
def HeadsAll (lower : Lower) : Prop := ∀ v name, Heads name (lower v name)

theorem Heads.pure {ty : Ty} (hty : ty.names = []) : Heads name (Pure.pure ty) := by
  refine ⟨fun {s ty' t n} _ _ hrun heq => ?_⟩
  obtain ⟨rfl, -⟩ := hrun.pure
  rw [heq] at hty
  cases hty

theorem Heads.wrap {act : LowerM Ty} {f : Ty → Ty} (hf : ∀ ty n, f ty ≠ .named n) :
    Heads name (do return f (← act)) := by
  refine ⟨fun {s ty t n} _ _ hrun heq => ?_⟩
  obtain ⟨ty', -, hty⟩ := hrun.some
  exact absurd (hty.symm.trans heq) (hf ty' n)

/-- An item of a name that is taken already stands at the next place. -/
theorem item_first {nullable : Bool} {n m : String} {slot : Nat} {doc : Option String}
    {shape : ItemShape} {a : Unit} {s₁ s₂ s₃ : LowerState} (h : Promises s)
    (hclaim : Yields (claim (payloadName name nullable)) s n s₁)
    (hopen : Yields openSlot s₁ slot s₂) (hbody : Promises s₂ → Grows [] [] s₂ s₃)
    (hfill : Yields (fill slot ⟨n, doc, shape⟩) s₃ a t) (hty : itemType n nullable = .named m) :
    ∃ x after, t.slots = s.slots ++ some x :: after ∧ x.name = m := by
  have hclaimed := claim_supplies h hclaim
  have hslots := claim_slots hclaim
  obtain ⟨rfl, rfl⟩ := openSlot_yields hopen
  obtain ⟨after, hafter⟩ := (hbody (openSlot_supplies hclaimed.promises).promises).slots
  obtain rfl := fill_yields hfill
  have hname : n = m := by
    cases nullable with
    | false => exact Ty.named.inj hty
    | true => cases hty
  refine ⟨⟨n, doc, shape⟩, after, ?_, hname⟩
  simp [← hafter, hslots]

section Parts

variable {lower : Lower}

theorem lowerAlternatives_heads {α : Type} {lowerArm : α → ItemName → LowerM Ty}
    (hb : ∀ x name, Backs (lowerArm x name)) (hl : ∀ x name, Heads name (lowerArm x name))
    (ms : Members) (name : ItemName) (xs : List α) (nullable : Bool) :
    Heads name (lowerAlternatives lowerArm ms name xs nullable) := by
  match xs, nullable with
  | [], true => exact .pure rfl
  | [], false => exact .pure rfl
  | [x], false => exact hl x name
  | [x], true => exact .wrap fun ty n => by cases ty <;> simp [Ty.optional]
  | x :: y :: rest, nullable =>
    refine ⟨fun {s ty t n} hs _ hrun heq => ?_⟩
    obtain ⟨m, s₁, hclaim, hrun⟩ := hrun.bind
    obtain ⟨slot, s₂, hopen, hrun⟩ := hrun.bind
    obtain ⟨arms, s₃, harms, hrun⟩ := hrun.bind
    obtain ⟨_, hfill, rfl⟩ := hrun.some
    exact item_first hs hclaim hopen (fun hs₂ => (lowerArms_supplies hb hs₂ harms).grows) hfill heq

theorem lowerEnum_heads (values : List Json) (ms : Members) (name : ItemName) :
    Heads name (lowerEnum values ms name) := by
  unfold lowerEnum
  split
  · exact .pure rfl
  · exact .pure (by split <;> rfl)
  · refine ⟨fun {s ty t n} hs _ hrun heq => ?_⟩
    obtain ⟨m, s₁, hclaim, hrun⟩ := hrun.bind
    obtain ⟨slot, s₂, hopen, hrun⟩ := hrun.bind
    obtain ⟨_, hfill, rfl⟩ := hrun.some
    exact item_first hs hclaim hopen (fun _ => .refl [] _) hfill heq

theorem lowerObject_heads (hb : BacksAll lower) (ms : Members) (name : ItemName) :
    Heads name (lowerObject lower ms name) := by
  unfold lowerObject
  split
  · refine ⟨fun {s ty t n} hs _ hrun heq => ?_⟩
    obtain ⟨m, s₁, hclaim, hrun⟩ := hrun.bind
    obtain ⟨slot, s₂, hopen, hrun⟩ := hrun.bind
    obtain ⟨⟨fields, idents⟩, u, hfields, hrun⟩ := hrun.bind
    obtain ⟨⟨denyUnknown, extra⟩, s₃, hextra, hrun⟩ := hrun.bind
    obtain ⟨_, hfill, rfl⟩ := hrun.some
    change Yields (claim (payloadName name false)) s m s₁ at hclaim
    change itemType m false = .named n at heq
    refine item_first hs hclaim hopen (fun hs₂ => ?_) hfill heq
    have hfields := lowerFields_supplies hb hs₂ hfields
    exact (hfields.trans (lowerExtra_supplies hb hfields.promises hextra)).grows
  · unfold lowerFreeObject
    split
    · exact .wrap fun ty n => by simp
    · exact .pure rfl

theorem lowerArray_heads (ms : Members) (name : ItemName) :
    Heads name (lowerArray lower ms name) := by
  unfold lowerArray
  split
  · exact .wrap fun ty n => by simp
  · exact .wrap fun ty n => by simp
  · exact .pure rfl

theorem lowerKind_heads (hb : BacksAll lower) (kind : String) (ms : Members) (name : ItemName) :
    Heads name (lowerKind lower kind ms name) := by
  unfold lowerKind
  split
  case h_2 => exact .pure (by split <;> rfl)
  case h_6 => exact lowerArray_heads ms name
  case h_7 => exact lowerObject_heads hb ms name
  all_goals exact .pure rfl

theorem lowerByType_heads (hb : BacksAll lower) (ms : Members) (name : ItemName) :
    Heads name (lowerByType lower ms name) := by
  unfold lowerByType
  split
  · exact lowerKind_heads hb _ ms name
  · exact lowerAlternatives_heads (fun kind => lowerKind_backs hb kind ms)
      (fun kind => lowerKind_heads hb kind ms) ms name _ _
  · split
    · exact lowerObject_heads hb ms name
    · split
      · exact lowerArray_heads ms name
      · exact .pure rfl

theorem lowerMembers_heads (hb : BacksAll lower) (hl : HeadsAll lower) (ms : Members)
    (name : ItemName) : Heads name (lowerMembers none lower ms name) := by
  unfold lowerMembers
  split
  · exact .pure rfl
  · split
    · exact .pure (names_constantType _)
    · split
      · exact lowerEnum_heads _ ms name
      · unfold lowerComposed
        split
        · unfold lowerAllOf
          split
          · exact hl _ name
          · exact .pure rfl
        · split
          · exact lowerAlternatives_heads hb hl ms name _ _
          · exact lowerByType_heads hb ms name

end Parts

theorem lower_heads (depth : Nat) : HeadsAll (lower none depth) := by
  induction depth with
  | zero => exact fun v name => ⟨fun _ _ hrun => nomatch hrun⟩
  | succ depth ih =>
    intro v name
    cases v with
    | object ms => exact lowerMembers_heads (lower_backs none depth) ih ms name
    | _ => exact .pure rfl

/-! ## All items -/

/-- The state in which the schema of a module is compiled: its name is taken, and the first place. -/
def readyFor (n : String) : LowerState where
  scope := Code.NameScope.empty.reserve n
  slots := [none]
  named := []
  inProgress := []
  done := []

theorem readyFor_promises (n : String) : Promises (readyFor n) where
  promised x hx := by simp [readyFor, LowerState.items] at hx
  closed p hp := by simp [readyFor] at hp

theorem readyFor_inv (n : String) : Inv none [] (readyFor n) where
  ordered := .nil
  items := by simp [readyFor, LowerState.items]
  taken x hx := nomatch hx
  reserved p m hp := nomatch hp
  apart p q m hp := nomatch hp
  begun p x hx := nomatch hx
  aliased x hx := nomatch hx
  settled p hp := nomatch hp

/-- What a schema becomes that is compiled alone: the item of its name, with the place that was
taken first empty, or a type that is given the name at that place. -/
theorem lowerRoot_cases {depth : Nat} {schema : Json} {n : String} {ty : Ty}
    (hrun : Yields (lowerRoot none depth schema n) .empty ty t) :
    ∃ ty' u, Yields (lower none depth schema (.exact n)) (readyFor n) ty' u ∧
      (ty' = .named n ∧ t = u ∨
        ty' ≠ .named n ∧
          t = { u with slots := u.slots.set 0 (some ⟨n, description schema, .alias ty'⟩) }) := by
  obtain ⟨_, s₀, hreserve, hrun⟩ := hrun.bind
  obtain rfl := modify_yields hreserve
  obtain ⟨slot, s₁, hopen, hrun⟩ := hrun.bind
  obtain ⟨rfl, rfl⟩ := openSlot_yields hopen
  obtain ⟨ty', u, htype, hrun⟩ := hrun.bind
  refine ⟨ty', u, htype, ?_⟩
  by_cases hty : ty' = .named n
  · simp only [hty, ne_eq, not_true_eq_false, if_false] at hrun
    obtain ⟨-, rfl⟩ := hrun.pure
    exact .inl ⟨hty, rfl⟩
  · simp only [ne_eq, hty, not_false_eq_true, if_true] at hrun
    obtain ⟨_, v, hfill, hrun⟩ := hrun.bind
    obtain ⟨-, rfl⟩ := hrun.pure
    exact .inr ⟨hty, fill_yields hfill⟩

/-- The items of a schema that is compiled alone: the first one has its name, and no two have the
same name. -/
theorem lowerRoot_items {depth : Nat} {schema : Json} {n : String} {ty : Ty}
    (hrun : Yields (lowerRoot none depth schema n) .empty ty t) :
    t.itemNames.Nodup ∧ ∃ first rest, t.items = first :: rest ∧ first.name = n := by
  obtain ⟨ty', u, htype, hcases⟩ := lowerRoot_cases hrun
  have hpending : Pending [] (readyFor n) n :=
    ⟨List.mem_cons_self .., List.not_mem_nil, fun p hp => nomatch hp⟩
  obtain ⟨built, hmade⟩ := (lower_compiles none depth schema (.exact n)).made (readyFor_inv n)
    (fun m hm => List.mem_singleton.mp hm ▸ hpending) htype
  have hnodup : (u.items.map (·.name)).Nodup :=
    (hmade.inv.items.map (·.name)).nodup_iff.mpr hmade.inv.ordered.nodup
  rcases hcases with ⟨hty, rfl⟩ | ⟨hty, rfl⟩
  · obtain ⟨x, after, hslots, hx⟩ := (lower_heads depth schema (.exact n)).first
      (readyFor_promises n) (List.mem_singleton_self n) htype hty
    exact ⟨hnodup, x, after.filterMap id, by simp [LowerState.items, hslots, readyFor], hx⟩
  · obtain ⟨after, hafter⟩ := hmade.slots
    have hitems : u.items = after.filterMap id := by simp [LowerState.items, ← hafter, readyFor]
    have hset : u.slots.set 0 (some ⟨n, description schema, .alias ty'⟩) =
        some ⟨n, description schema, .alias ty'⟩ :: after := by simp [← hafter, readyFor]
    have hfresh : n ∉ u.itemNames := by
      rcases hmade.owned n (List.mem_singleton_self n) with ⟨heq, -⟩ | hpend
      · exact absurd heq hty
      · exact fun hn => hpend.unfinished ((hmade.inv.items.map (·.name)).mem_iff.mp hn)
    refine ⟨?_, _, after.filterMap id, by rw [hset]; rfl, rfl⟩
    rw [hset]
    exact List.nodup_cons.mpr ⟨hitems ▸ hfresh, hitems ▸ hnodup⟩

/-- Every name in the items of a schema that is compiled alone is that of an item. -/
theorem lowerRoot_closed {depth : Nat} {schema : Json} {n : String} {ty : Ty}
    (hrun : Yields (lowerRoot none depth schema n) .empty ty t) :
    ∀ x ∈ t.items, ∀ ty ∈ x.shape.types, ∀ m ∈ ty.names, m ∈ t.itemNames := by
  obtain ⟨_, s₀, hreserve, hrun⟩ := hrun.bind
  obtain rfl := modify_yields hreserve
  have huntouched : Untouched { LowerState.empty with scope := LowerState.empty.scope.reserve n } :=
    ⟨rfl, rfl, rfl⟩
  obtain ⟨hm, -⟩ := lowerNamed_supplies (lower_backs none depth) huntouched.promises hrun
  intro x hx ty hty m hmem
  rcases hm.promises.promised x hx ty hty m hmem with hn | ⟨p, hp, -⟩
  · exact hn
  · rw [hm.grows.opened] at hp
    cases hp

/-- Without a document no type is boxed. -/
theorem lasting_unboxed : Lasting none fun ty => ∀ inner, .boxed inner ∉ ty.within where
  plain {ty} hty inner := by
    rw [hty, List.mem_singleton]
    rintro rfl
    have hself := Ty.self_mem_within inner
    simp_all [Ty.within]
  array {ty} hty inner := by simpa [Ty.within] using hty inner
  map {ty} hty inner := by simpa [Ty.within] using hty inner
  optional {ty} hty inner := by
    cases ty with
    | option t => exact hty inner
    | array t | map t | boxed t => simpa [Ty.optional, Ty.within] using hty inner
    | _ => simp [Ty.optional, Ty.within]
  boxed h := by cases h

/-- A schema alone always becomes a module. Its first item is the type itself, no two items have the
same name, every name in an item is that of one item, and nothing is boxed. -/
theorem type_module_complete {schema : Json} (hk : schema.Keyed) (canonical : String) :
    ∃ first rest, lowerTypeModule canonical schema = some (first :: rest) ∧
      first.name = Code.typeIdent canonical ∧ ((first :: rest).map (·.name)).Nodup ∧
      ∀ x ∈ first :: rest, ∀ ty ∈ x.shape.types,
        (∀ n ∈ ty.names, ((first :: rest).map (·.name)).count n = 1) ∧
          ∀ inner, .boxed inner ∉ ty.within := by
  obtain ⟨ty, t, hrun⟩ := exists_lowerRoot hk (Code.typeIdent canonical)
  obtain ⟨hnodup, first, rest, hitems, hfirst⟩ := lowerRoot_items hrun
  have hmodule : lowerTypeModule canonical schema = some (first :: rest) := by
    unfold Yields at hrun
    rw [lowerTypeModule, hrun, Option.map_some, hitems]
  have hroot : RootKeyed none := fun _ hd => nomatch hd
  have hunboxed := (Operated.sound lasting_unboxed hroot (.schema .start hk hrun)).1
  unfold LowerState.itemNames at hnodup
  rw [hitems] at hnodup
  refine ⟨first, rest, hmodule, hfirst, hnodup, fun x hx ty hty => ⟨fun n hn => ?_, ?_⟩⟩
  · refine List.count_eq_one_of_mem hnodup ?_
    have hmem := lowerRoot_closed hrun x (hitems ▸ hx) ty hty n hn
    rwa [LowerState.itemNames, hitems] at hmem
  · exact (hunboxed x (hitems ▸ hx)).2 ty hty

/-- What is said of a person within another `allOf`, with a reference that leads nowhere. -/
def friendship : Json := .object [("properties", .object [
  ("name", .object [("type", .array [.string "string", .string "null"])]), ("friend", refTo "#")])]

/-- A person, with keywords that are not what they should be. -/
def personSchema : Json := .object [
  ("allOf", .array [.object [("allOf", .array [friendship])],
    .object [("required", .array [.string "name", .null]), ("items", .null)]]),
  ("additionalProperties", .object [("oneOf", .array [.object [("type", .string "integer")],
    .object [("properties", .object [("at", .object [("const", .null)])])]])])]

/-- The items for a person. -/
def personItems : List Item := [
  ⟨"Person", none, .record [⟨"name", "name", .option .string, true, none⟩,
    ⟨"friend", "friend", .option .any, false, none⟩] false (some ("extra", .named "PersonExtra"))⟩,
  ⟨"PersonExtra", none, .union [⟨"Integer", .integer⟩,
    ⟨"PersonExtraVariant2", .named "PersonExtraVariant2"⟩]⟩,
  ⟨"PersonExtraVariant2", none, .record [⟨"at", "at", .option .unit, false, none⟩] false none⟩]

theorem type_module_complete_person :
    personSchema.Keyed ∧ lowerTypeModule "Person" personSchema = some personItems ∧
      (personItems.map (·.name)).Nodup ∧ ∀ x ∈ personItems, ∀ ty ∈ x.shape.types,
        ∀ n ∈ ty.names, (personItems.map (·.name)).count n = 1 := by
  have hk : personSchema.Keyed := by decide +kernel
  have hitems : lowerTypeModule "Person" personSchema = some personItems := by decide +kernel
  obtain ⟨first, rest, hmodule, -, hnodup, hnames⟩ := type_module_complete hk "Person"
  obtain hsame : personItems = first :: rest := Option.some.inj (hitems.symm.trans hmodule)
  rw [hsame]
  exact ⟨hk, hsame ▸ hitems, hnodup, fun x hx ty hty => (hnames x hx ty hty).1⟩

end SchemaBindings.Lowering
