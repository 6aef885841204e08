import SchemaBindings.Proofs.LoweringEnds
import SchemaBindings.Proofs.LoweringItems

/-! # Recursive types are boxed

Each step of the compilation keeps `Inv` and leaves pending names pending. So
the items of a module can be ordered: each holds, with no box around, only
items that were finished before it. -/

namespace SchemaBindings.Lowering

variable {root : Option Json} {own : List String} {built built' : List Item} {s t : LowerState}
  {name : ItemName} {Around : Pointer → Prop}

theorem Yields.some {α β : Type} {act : LowerM α} {f : α → β} {b : β}
    (h : Yields (act >>= fun a => Pure.pure (f a)) s b t) : ∃ a, Yields act s a t ∧ b = f a := by
  obtain ⟨a, u, ha, hb⟩ := h.bind
  obtain ⟨rfl, rfl⟩ := hb.pure
  exact ⟨a, ha, rfl⟩

/-! ## Types without items -/

/-- What is made by compiling a type under a name, from any state. -/
structure Makes (root : Option Json) (Around : Pointer → Prop) (name : ItemName)
    (act : LowerM Ty) : Prop where
  made : ∀ {built s ty t}, Inv root built s → (∀ n ∈ name.owned, Pending built s n) →
    Yields act s ty t → ∃ built', Made root Around name.owned built built' s t ty

/-- A schema is compiled to what the schema that it is made around is compiled to. -/
def Compiles (root : Option Json) (lower : Lower) : Prop :=
  ∀ v name, Makes root (Stands root v) name (lower v name)

theorem Made.of_leaves {ty : Ty} (hown : ∀ n ∈ own, Pending built s n)
    (h : Leaves root [] built built' s t) (hbare : ∀ n ∈ ty.bareNames, n ∈ built'.map (·.name))
    (htold : Told built' t.named ty Around) : Made root Around own built built' s t ty where
  toLeaves := h.mono (List.nil_subset _)
  bare := hbare
  told := htold
  owned n hn := .inr (h.pending n (hown n hn) List.not_mem_nil)

theorem Told.congr {named : List (Pointer × String)} {ty ty' : Ty} {Around' : Pointer → Prop}
    (hty : ty'.names = ty.names) (ha : ∀ p, Around' p ↔ Around p)
    (h : Told built named ty Around) : Told built named ty' Around' where
  known n hn := (h.known n (hty ▸ hn)).imp_right fun ⟨p, hp, hl⟩ => ⟨p, (ha p).mpr hp, hl⟩
  around p hp := by
    obtain ⟨n, hl, hn⟩ := h.around p ((ha p).mp hp)
    exact ⟨n, hl, hty ▸ hn⟩

theorem Makes.congr {act : LowerM Ty} {Around' : Pointer → Prop}
    (ha : ∀ p, Around' p ↔ Around p) (h : Makes root Around name act) :
    Makes root Around' name act := by
  refine ⟨fun {built s ty t} hi hown hrun => ?_⟩
  obtain ⟨built', hm⟩ := h.made hi hown hrun
  exact ⟨built', hm.toLeaves, hm.bare, hm.told.congr rfl ha, fun n hn =>
    (hm.owned n hn).imp_left fun ⟨hty, hnone⟩ => ⟨hty, fun p hp => hnone p ((ha p).mp hp)⟩⟩

/-- A type that names nothing. -/
theorem Makes.pure {ty : Ty} (hty : ty.names = []) (hnone : ∀ p, ¬ Around p) :
    Makes root Around name (Pure.pure ty) := by
  refine ⟨fun {built s ty' t} hi hown hrun => ?_⟩
  obtain ⟨rfl, rfl⟩ := hrun.pure
  refine ⟨built, .of_leaves hown (.refl hi) ?_ (.nothing hty hnone)⟩
  intro n hn
  have hn := Ty.mem_names_of_mem_bareNames hn
  simp [hty] at hn

/-- A type around another one, which has no name of its own. -/
theorem Makes.wrap {act : LowerM Ty} {inner : ItemName} {f : Ty → Ty}
    (hinner : inner.owned = []) (hbare : ∀ ty, (f ty).bareNames = ty.bareNames)
    (hnames : ∀ ty, (f ty).names = ty.names) (h : Makes root Around inner act) :
    Makes root Around name (do return f (← act)) := by
  refine ⟨fun {built s ty t} hi hown hrun => ?_⟩
  obtain ⟨ty, hact, rfl⟩ := hrun.some
  obtain ⟨built', hm⟩ := h.made hi (by simp [hinner]) hact
  refine ⟨built', .of_leaves hown (hinner ▸ hm.toLeaves) ?_ (hm.told.congr (hnames ty) fun _ => .rfl)⟩
  rw [hbare]
  exact hm.bare

section Parts

variable {lower : Lower}

/-! ## Unions and enumerations -/

theorem lowerArms_leaves {α : Type} {lowerArm : α → ItemName → LowerM Ty}
    {Holds : α → Pointer → Prop} (hl : ∀ x name, Makes root (Holds x) name (lowerArm x name))
    {itemName : String} {number : Nat} {idents : Code.NameScope} {xs : List α} {arms : List Arm}
    (h : Inv root built s) (hrun : Yields (lowerArms lowerArm itemName number idents xs) s arms t) :
    ∃ built', Leaves root [] built built' s t ∧
      ∀ ty ∈ arms.map (·.ty), ∀ m ∈ ty.bareNames, m ∈ built'.map (·.name) := by
  induction xs generalizing number idents built s arms with
  | nil =>
    obtain ⟨rfl, rfl⟩ := hrun.pure
    exact ⟨built, .refl h, by simp⟩
  | cons x xs ih =>
    obtain ⟨ty, u, hx, hrun⟩ := hrun.bind
    obtain ⟨rest, hrest, rfl⟩ := hrun.some
    obtain ⟨between, hm⟩ := (hl x _).made h (by simp [ItemName.owned]) hx
    obtain ⟨built', hleaves, hbare⟩ := ih hm.inv hrest
    refine ⟨built', hm.toLeaves.trans hleaves, ?_⟩
    intro ty' hty'
    rcases List.mem_cons.mp hty' with rfl | hty'
    · exact fun m hmem => hleaves.names (hm.bare m hmem)
    · exact hbare ty' hty'

theorem lowerAlternatives_makes {α : Type} {lowerArm : α → ItemName → LowerM Ty}
    {Holds : α → Pointer → Prop} (hl : ∀ x name, Makes root (Holds x) name (lowerArm x name))
    (ms : Members) (name : ItemName) (xs : List α) (nullable : Bool) :
    Makes root (fun p => ∃ x ∈ lone xs, Holds x p) name
      (lowerAlternatives lowerArm ms name xs nullable) := by
  match xs, nullable with
  | [], true => exact .pure rfl (by simp [lone])
  | [], false => exact .pure rfl (by simp [lone])
  | [x], false => exact (hl x name).congr fun p => by simp [lone]
  | [x], true =>
    exact .wrap (name.owned_inner) Ty.bareNames_optional Ty.names_optional
      ((hl x name.inner).congr fun p => by simp [lone])
  | x :: y :: rest, nullable =>
    refine ⟨fun {built s ty t} hi hown hrun => ?_⟩
    obtain ⟨n, s₁, hclaim, hrun⟩ := hrun.bind
    obtain ⟨slot, s₂, hopen, hrun⟩ := hrun.bind
    obtain ⟨arms, s₃, harms, hrun⟩ := hrun.bind
    obtain ⟨_, hfill, rfl⟩ := hrun.some
    exact item_made hi hown hclaim hopen (fun hi' => lowerArms_leaves hl hi' harms) hfill rfl
      (by simp [lone])

theorem lowerUnion_makes (hl : Compiles root lower) (ms : Members) (arms : List Json)
    (name : ItemName) :
    Makes root (AnyStands root (lone (arms.filter (!isNullSchema ·)))) name
      (lowerUnion lower ms arms name) :=
  lowerAlternatives_makes hl ms name _ _

theorem lowerEnum_makes (values : List Json) (ms : Members) (name : ItemName)
    (hnone : ∀ p, ¬ Around p) : Makes root Around name (lowerEnum values ms name) := by
  unfold lowerEnum
  split
  · exact .pure rfl hnone
  · exact .pure (by split <;> rfl) hnone
  · refine ⟨fun {built s ty t} hi hown hrun => ?_⟩
    obtain ⟨n, s₁, hclaim, hrun⟩ := hrun.bind
    obtain ⟨slot, s₂, hopen, hrun⟩ := hrun.bind
    obtain ⟨_, hfill, rfl⟩ := hrun.some
    exact item_made hi hown hclaim hopen (fun hi' => ⟨built, .refl hi', by simp [ItemShape.types]⟩)
      hfill rfl hnone

/-! ## Objects and arrays -/

theorem lowerFields_leaves (hl : Compiles root lower) {itemName : String} {required : List String}
    {idents idents' : Code.NameScope} {properties : Members} {fields : List Field}
    (h : Inv root built s)
    (hrun : Yields (lowerFields lower itemName required idents properties) s (fields, idents') t) :
    ∃ built', Leaves root [] built built' s t ∧
      ∀ ty ∈ fields.map (·.ty), ∀ m ∈ ty.bareNames, m ∈ built'.map (·.name) := by
  induction properties generalizing idents idents' built s fields with
  | nil =>
    obtain ⟨hnil, rfl⟩ := hrun.pure
    cases hnil
    exact ⟨built, .refl h, by simp⟩
  | cons e rest ih =>
    obtain ⟨property, schema⟩ := e
    obtain ⟨ty, u, hx, hrun⟩ := hrun.bind
    obtain ⟨⟨others, _⟩, hrest, heq⟩ := hrun.some
    cases heq
    obtain ⟨between, hm⟩ := (hl schema _).made h (by simp [ItemName.owned]) hx
    obtain ⟨built', hleaves, hbare⟩ := ih hm.inv hrest
    refine ⟨built', hm.toLeaves.trans hleaves, ?_⟩
    intro ty' hty'
    rcases List.mem_cons.mp hty' with rfl | hty'
    · intro m hmem
      have hmem : m ∈ ty.bareNames := by
        dsimp only at hmem
        split at hmem
        · exact hmem
        · rwa [Ty.bareNames_optional] at hmem
      exact hleaves.names (hm.bare m hmem)
    · exact hbare ty' hty'

theorem extra_makes (hl : Compiles root lower) (v : Json) (name inner : ItemName)
    (hinner : inner.owned = []) {f : Ty → Ty} (hbare : ∀ ty, (f ty).bareNames = ty.bareNames)
    (hnames : ∀ ty, (f ty).names = ty.names) :
    Makes root (AnyStands root [v]) name (do return f (← lower v inner)) :=
  .wrap hinner hbare hnames ((hl v inner).congr fun p => by simp [AnyStands])

theorem not_anyStands_nil (p : Pointer) : ¬ AnyStands root [] p := by simp [AnyStands]

theorem lowerFreeObject_makes (hl : Compiles root lower) (ms : Members) (name : ItemName) :
    Makes root (AnyStands root (extraParts ms)) name (lowerFreeObject lower ms name) := by
  unfold lowerFreeObject extraParts
  rcases ms.get? "additionalProperties" with _ | v
  · exact .pure rfl not_anyStands_nil
  · cases v with
    | object values => exact extra_makes hl _ name _ rfl (fun _ => rfl) fun _ => rfl
    | _ => exact .pure rfl not_anyStands_nil

theorem lowerExtra_leaves (hl : Compiles root lower) {ms : Members} {itemName : String}
    {idents : Code.NameScope} {denyUnknown : Bool} {extra : Option (String × Ty)}
    (h : Inv root built s)
    (hrun : Yields (lowerExtra lower ms itemName idents) s (denyUnknown, extra) t) :
    ∃ built', Leaves root [] built built' s t ∧
      ∀ ty ∈ (extra.map (·.2)).toList, ∀ m ∈ ty.bareNames, m ∈ built'.map (·.name) := by
  unfold lowerExtra at hrun
  have hnone {deny : Bool} (hrun : Yields (pure (deny, none)) s (denyUnknown, extra) t) :
      ∃ built', Leaves root [] built built' s t ∧
        ∀ ty ∈ (extra.map (·.2)).toList, ∀ m ∈ ty.bareNames, m ∈ built'.map (·.name) := by
    obtain ⟨heq, rfl⟩ := hrun.pure
    cases heq
    exact ⟨built, .refl h, by simp⟩
  split at hrun
  · exact hnone hrun
  · obtain ⟨ty, hx, heq⟩ := hrun.some
    cases heq
    obtain ⟨built', hm⟩ := (hl _ _).made h (by simp [ItemName.owned]) hx
    exact ⟨built', hm.toLeaves, by simpa using hm.bare⟩
  · exact hnone hrun

theorem lowerObject_makes (hl : Compiles root lower) (ms : Members) (name : ItemName) :
    Makes root (AnyStands root (objectCore ms)) name (lowerObject lower ms name) := by
  unfold lowerObject objectCore
  rcases ms.get? "properties" with _ | v
  · exact lowerFreeObject_makes hl ms name
  · cases v with
    | object properties =>
      refine ⟨fun {built s ty t} hi hown hrun => ?_⟩
      obtain ⟨n, s₁, hclaim, hrun⟩ := hrun.bind
      obtain ⟨slot, s₂, hopen, hrun⟩ := hrun.bind
      obtain ⟨⟨fields, idents⟩, u, hfields, hrun⟩ := hrun.bind
      obtain ⟨⟨denyUnknown, extra⟩, s₃, hextra, hrun⟩ := hrun.bind
      obtain ⟨_, hfill, rfl⟩ := hrun.some
      change ∃ built', Made root _ name.owned built built' s t (itemType n false)
      refine item_made hi hown hclaim hopen ?_ hfill rfl not_anyStands_nil
      intro hi'
      obtain ⟨between, hleaves, hbare⟩ := lowerFields_leaves hl hi' hfields
      obtain ⟨built', hleaves', hbare'⟩ := lowerExtra_leaves hl hleaves.inv hextra
      refine ⟨built', hleaves.trans hleaves', ?_⟩
      intro ty hty
      rcases List.mem_append.mp hty with hty | hty
      · exact fun m hm => hleaves'.names (hbare ty hty m hm)
      · exact hbare' ty hty
    | _ => exact lowerFreeObject_makes hl ms name

theorem lowerArray_makes (hl : Compiles root lower) (ms : Members) (name : ItemName) :
    Makes root (AnyStands root (itemParts ms)) name (lowerArray lower ms name) := by
  unfold lowerArray itemParts
  rcases ms.get? "items" with _ | v
  · exact .pure rfl not_anyStands_nil
  · cases v with
    | object item => exact extra_makes hl _ name _ rfl (fun _ => rfl) fun _ => rfl
    | bool item => exact extra_makes hl _ name _ rfl (fun _ => rfl) fun _ => rfl
    | _ => exact .pure rfl not_anyStands_nil

theorem lowerKind_makes (hl : Compiles root lower) (ms : Members) (kind : String)
    (name : ItemName) :
    Makes root (AnyStands root (kindCore ms kind)) name (lowerKind lower kind ms name) := by
  unfold lowerKind
  split
  case h_2 => exact .pure (by split <;> rfl) not_anyStands_nil
  case h_6 => exact lowerArray_makes hl ms name
  case h_7 => exact lowerObject_makes hl ms name
  case h_8 _ _ _ _ _ _ ha ho =>
    have hnone : kindCore ms kind = [] := by
      unfold kindCore
      split
      · exact absurd rfl ha
      · exact absurd rfl ho
      · rfl
    rw [hnone]
    exact .pure rfl not_anyStands_nil
  all_goals exact .pure rfl not_anyStands_nil

theorem lowerKinds_makes (hl : Compiles root lower) (kinds : List Json) (ms : Members)
    (name : ItemName) :
    Makes root
      (AnyStands root ((lone (otherKinds (kinds.filterMap Json.text?))).flatMap (kindCore ms)))
      name (lowerKinds lower kinds ms name) := by
  refine (lowerAlternatives_makes (fun kind name => lowerKind_makes hl ms kind name) ms name _
    _).congr fun p => ?_
  constructor
  · rintro ⟨v, hv, hp⟩
    obtain ⟨kind, hk, hv⟩ := List.mem_flatMap.mp hv
    exact ⟨kind, hk, v, hv, hp⟩
  · rintro ⟨kind, hk, v, hv, hp⟩
    exact ⟨v, List.mem_flatMap.mpr ⟨kind, hk, hv⟩, hp⟩

/-! ## Schemas -/

theorem lowerByType_makes (hl : Compiles root lower) (ms : Members) (name : ItemName) :
    Makes root (AnyStands root (typeCore ms)) name (lowerByType lower ms name) := by
  have hfree : Makes root
      (AnyStands root (if ms.has "properties" || ms.has "additionalProperties" then objectCore ms
        else if ms.has "items" then itemParts ms else [])) name
      (if ms.has "properties" || ms.has "additionalProperties" then lowerObject lower ms name
        else if ms.has "items" then lowerArray lower ms name else pure .any) := by
    by_cases ho : (ms.has "properties" || ms.has "additionalProperties") = true
    · rw [if_pos ho, if_pos ho]
      exact lowerObject_makes hl ms name
    · rw [if_neg ho, if_neg ho]
      by_cases hi : ms.has "items" = true
      · rw [if_pos hi, if_pos hi]
        exact lowerArray_makes hl ms name
      · rw [if_neg hi, if_neg hi]
        exact .pure rfl not_anyStands_nil
  unfold lowerByType typeCore
  rcases ms.get? "type" with _ | v
  · exact hfree
  · cases v with
    | string kind => exact lowerKind_makes hl ms kind name
    | array kinds => exact lowerKinds_makes hl kinds ms name
    | _ => exact hfree

theorem lowerAllOf_makes (hl : Compiles root lower) (ms : Members) (arms : List Json)
    (name : ItemName) :
    Makes root (AnyStands root (mergedParts root ms arms)) name
      (lowerAllOf root lower ms arms name) := by
  unfold lowerAllOf mergedParts
  rcases mergeAll (flatten root (mergeDepth + 1)) (ms.remove "allOf") arms with _ | merged
  · exact .pure rfl not_anyStands_nil
  · exact (hl _ name).congr fun p => by simp [AnyStands]

theorem lowerComposed_makes (hl : Compiles root lower) (ms : Members) (name : ItemName) :
    Makes root (AnyStands root (composedCore root ms)) name
      (lowerComposed root lower ms name) := by
  unfold lowerComposed composedCore
  rcases ms.get? "allOf" with _ | v
  · rcases unionArms? ms with _ | arms
    · exact lowerByType_makes hl ms name
    · exact lowerUnion_makes hl ms arms name
  · cases v with
    | array arms => exact lowerAllOf_makes hl ms arms name
    | _ =>
      rcases unionArms? ms with _ | arms
      · exact lowerByType_makes hl ms name
      · exact lowerUnion_makes hl ms arms name

theorem names_constantType (v : Json) : (constantType v).names = [] := by
  unfold constantType
  split
  case h_3 => split <;> rfl
  all_goals rfl

/-- A schema that is no reference is compiled to an item of its own, or to a type around what its
core is compiled to. -/
theorem lowerMembers_makes (hl : Compiles root lower) (ms : Members) (name : ItemName)
    (hr : refText? (.object ms) = none) :
    Makes root (AnyStands root (memberCore root ms)) name (lowerMembers root lower ms name) := by
  unfold lowerMembers
  split
  · rename_i reference h
    rw [refText?_eq_some.mpr h] at hr
    cases hr
  · unfold memberCore
    rcases ms.get? "const" with _ | c
    · rcases ms.get? "enum" with _ | v
      · exact lowerComposed_makes hl ms name
      · cases v with
        | array values => exact lowerEnum_makes values ms name not_anyStands_nil
        | _ => exact lowerComposed_makes hl ms name
    · exact .pure (names_constantType c) not_anyStands_nil

/-! ## References -/

/-- The node that a reference leads to is given a name that nobody waits for. -/
theorem named_leaves {p : Pointer} {n : String} (h : Inv root built s)
    (hp : s.named.lookup p = none) (hn : Pending built s n)
    (hfresh : ∀ q, s.named.lookup q ≠ some n) :
    Leaves root [n] built built s { s with named := (p, n) :: s.named } := by
  have hself : ((p, n) :: s.named).lookup p = some n := by simp
  have hother {q : Pointer} (hq : q ≠ p) : ((p, n) :: s.named).lookup q = s.named.lookup q := by
    simp [List.lookup_cons, beq_false_of_ne hq]
  have hnamed (q : Pointer) (m : String) (hq : s.named.lookup q = some m) :
      ((p, n) :: s.named).lookup q = some m := by
    rw [hother fun he => by simp [he, hp] at hq]
    exact hq
  have hback {q : Pointer} {m : String} (hq : ((p, n) :: s.named).lookup q = some m)
      (hm : m ≠ n) : s.named.lookup q = some m := by
    by_cases he : q = p
    · rw [he, hself] at hq
      exact absurd (Option.some.inj hq).symm hm
    · rwa [hother he] at hq
  have honly {q : Pointer} (hq : ((p, n) :: s.named).lookup q = some n) : q = p := by
    by_contra he
    rw [hother he] at hq
    exact hfresh q hq
  have hbuilt {x : Item} (hx : x ∈ built) : x.name ≠ n := fun he =>
    hn.unfinished (he ▸ List.mem_map_of_mem hx)
  refine ⟨⟨fun _ hx => hx, List.prefix_refl _, hnamed, rfl, fun _ hq => hq⟩, ?_, ?_⟩
  · exact {
      ordered := h.ordered
      items := h.items
      taken := h.taken
      reserved := fun q m hq => by
        by_cases hm : m = n
        · exact hm ▸ hn.taken
        · exact h.reserved q m (hback hq hm)
      apart := fun q r m hq hr => by
        by_cases hm : m = n
        · subst hm
          rw [honly hq, honly hr]
        · exact h.apart q r m (hback hq hm) (hback hr hm)
      begun := fun q x hx hq => h.begun q x hx (hback hq (hbuilt hx))
      aliased := fun x hx ha => by
        obtain ⟨q, target, hq, ht⟩ := h.aliased x hx ha
        exact ⟨q, target, hnamed q _ hq, ht⟩
      settled := fun q hq target ht => by
        obtain ⟨x, hx, hl, hset⟩ := h.settled q hq target ht
        exact ⟨x, hx, hnamed q _ hl, hset.mono (List.Subset.refl _) hnamed⟩ }
  · intro m hm ho
    have hne : m ≠ n := by simpa using ho
    exact ⟨hm.taken, hm.unfinished, fun q hq => hm.opened q (hback hq hne)⟩

theorem nodeName_leaves {p : Pointer} {n : String} (h : Inv root built s)
    (hrun : Yields (nodeName p) s n t) :
    Leaves root [] built built s t ∧ t.named.lookup p = some n := by
  unfold nodeName at hrun
  obtain ⟨_, _, hget, hrun⟩ := hrun.bind
  cases hget
  split at hrun
  · rename_i name hp
    obtain ⟨rfl, rfl⟩ := hrun.pure
    exact ⟨.refl h, hp⟩
  · rename_i hp
    obtain ⟨m, u, hclaim, hrun⟩ := hrun.bind
    obtain ⟨_, v, hset, hrun⟩ := hrun.bind
    obtain ⟨rfl, rfl⟩ := hrun.pure
    obtain ⟨hl, hpend, hfree, rfl⟩ := claimName_yields [n] h hclaim
    obtain rfl := modify_yields hset
    have hnamed := hl.trans (named_leaves hl.inv hp hpend fun q hq => hfree (h.reserved q n hq))
    have hleaves : Leaves root (ItemName.hint n).owned built built s _ :=
      hnamed.of_claimed (.inr hfree)
    exact ⟨hleaves, by simp⟩

/-- The node that a reference leads to is compiled to the item of its name. -/
theorem lowerNamed_leaves (hl : Compiles root lower) {p : Pointer} {target : Json} {n : String}
    {ty : Ty} (h : Inv root built s) (hp : Pending built s n)
    (hname : s.named.lookup p = some n) (ht : IsTarget root p target)
    (hrun : Yields (lowerNamed lower target n) s ty t) :
    ∃ built', Leaves root [n] built built' s t ∧ ty = .named n ∧
      ∃ x ∈ built', x.name = n ∧ Settled root built' t.named target x := by
  obtain ⟨slot, s₁, hopen, hrun⟩ := hrun.bind
  obtain ⟨rfl, rfl⟩ := openSlot_yields hopen
  obtain ⟨ty', u, htype, hrun⟩ := hrun.bind
  have hopened := openSlot_leaves [] h
  obtain ⟨built', hm⟩ := (hl target (.exact n)).made hopened.inv
    (fun m hmem => List.mem_singleton.mp hmem ▸ hopened.pending n hp List.not_mem_nil) htype
  have hown := hm.owned n (List.mem_singleton_self n)
  by_cases hty : ty' = .named n
  · -- The type is the item, which is finished already.
    subst hty
    simp only [ne_eq, not_true_eq_false, if_false] at hrun
    obtain ⟨rfl, rfl⟩ := hrun.pure
    have hbuilt : n ∈ built'.map (·.name) := hm.bare n (List.mem_singleton_self n)
    have hnone : ∀ q, ¬ Stands root target q := by
      rcases hown with ⟨-, hnone⟩ | hpend
      · exact hnone
      · exact absurd hbuilt hpend.unfinished
    refine ⟨built', (hopened.mono (List.nil_subset _)).trans hm.toLeaves, rfl, ?_⟩
    rcases hm.told.known n (List.mem_singleton_self n) with ⟨x, hx, hxn, ha⟩ | ⟨q, hq, -⟩
    · exact ⟨x, hx, hxn, .inr ⟨ha, hnone⟩⟩
    · exact absurd hq (hnone q)
  · -- Another type is given the name.
    simp only [ne_eq, hty, not_false_eq_true, if_true] at hrun
    obtain ⟨_, v, hfill, hrun⟩ := hrun.bind
    obtain ⟨rfl, rfl⟩ := hrun.pure
    obtain rfl := fill_yields hfill
    have hpend : Pending built' u n := by
      rcases hown with ⟨heq, -⟩ | hpend
      · exact absurd heq hty
      · exact hpend
    let x : Item := ⟨n, description target, .alias ty'⟩
    have hleaves := fill_leaves (x := x) hm.toLeaves (List.mem_singleton_self n) hpend
      (by simpa [Item.bareNames, ItemShape.types, x] using hm.bare)
      fun _ => ⟨p, target, hm.named p n hname, ht⟩
    refine ⟨_, hleaves, rfl, x, List.mem_cons_self .., rfl, .inl ⟨ty', rfl, ?_⟩⟩
    exact hm.told.mono (List.subset_cons_self ..) fun _ _ h => h

theorem lowerTarget_leaves (hl : Compiles root lower) {p : Pointer} {target : Json} {n : String}
    {ty : Ty} (h : Inv root built s) (hname : s.named.lookup p = some n)
    (ht : IsTarget root p target) (hrun : Yields (lowerTarget lower p target n) s ty t) :
    ∃ built', Leaves root [] built built' s t ∧ ty.names = [n] ∧
      ∀ m ∈ ty.bareNames, m ∈ built'.map (·.name) := by
  rcases lowerTarget_yields hrun with ⟨ho, rfl, rfl⟩ | ⟨hd, rfl, rfl⟩ | ⟨ho, hd, u, hnamed, rfl⟩
  · exact ⟨built, .refl h, rfl, by simp [Ty.bareNames]⟩
  · obtain ⟨x, hx, hxn, -⟩ := h.settled p hd target ht
    have hxn : n = x.name := Option.some.inj (hname.symm.trans hxn)
    exact ⟨built, .refl h, rfl, by simpa [Ty.bareNames, hxn] using ⟨x, hx, rfl⟩⟩
  -- References to the node within it are boxed while it is compiled.
  have hopened : Inv root built { s with inProgress := p :: s.inProgress } :=
    { h with begun := fun q x hx hq => (h.begun q x hx hq).imp_left (List.mem_cons_of_mem _) }
  have hpend : Pending built { s with inProgress := p :: s.inProgress } n := by
    refine ⟨h.reserved p n hname, ?_, fun q hq => ?_⟩
    · intro hmem
      obtain ⟨x, hx, rfl⟩ := List.mem_map.mp hmem
      exact (h.begun p x hx hname).elim ho hd
    · rw [h.apart q p n hq hname]
      exact List.mem_cons_self ..
  obtain ⟨built', hleaves, rfl, x, hx, hxn, hset⟩ :=
    lowerNamed_leaves hl hopened hpend hname ht hnamed
  have hinner : u.inProgress = p :: s.inProgress := hleaves.opened
  rw [hinner, filter_ne_of_not_mem ho]
  refine ⟨built', ⟨⟨hleaves.kept, hleaves.slots, hleaves.named, rfl, ?_⟩, ?_, ?_⟩, rfl, ?_⟩
  · exact List.Subset.trans hleaves.done (List.subset_cons_self ..)
  · exact { hleaves.inv with
      begun := fun q y hy hq => by
        rcases hleaves.inv.begun q y hy hq with hq | hq
        · rw [hinner] at hq
          rcases List.mem_cons.mp hq with rfl | hq
          · exact .inr (List.mem_cons_self ..)
          · exact .inl hq
        · exact .inr (List.mem_cons_of_mem _ hq)
      settled := fun q hq target' ht' => by
        rcases List.mem_cons.mp hq with rfl | hq
        · obtain ⟨_, ht⟩ := ht
          obtain ⟨_, ht'⟩ := ht'
          rw [localTarget?_unique ht' ht]
          exact ⟨x, hx, hxn ▸ hleaves.named _ _ hname, hset⟩
        · exact hleaves.inv.settled q hq target' ht' }
  · intro m hm _
    have hne : m ≠ n := by
      rintro rfl
      exact ho (hm.opened p hname)
    have hm' := hleaves.pending m ⟨hm.taken, hm.unfinished, fun q hq =>
      List.mem_cons_of_mem _ (hm.opened q hq)⟩ (by simpa using hne)
    refine ⟨hm'.taken, hm'.unfinished, fun q hq => ?_⟩
    have hq' := hm'.opened q hq
    rw [hinner] at hq'
    rcases List.mem_cons.mp hq' with rfl | hq'
    · exact absurd (Option.some.inj (hq.symm.trans (hleaves.named _ _ hname))) hne
    · exact hq'
  · simpa [Ty.bareNames] using ⟨x, hx, hxn⟩

/-- A reference becomes the item of the node that it leads to. -/
theorem lowerReference_makes (hl : Compiles root lower) {v : Json} {reference : String}
    (hr : refText? v = some reference) (name : ItemName) :
    Makes root (Stands root v) name (lowerReference root lower reference) := by
  cases ht : localTarget? root reference with
  | none =>
    have hrun : lowerReference root lower reference = pure .any := by
      simp only [lowerReference, ht]
    rw [hrun]
    refine .pure rfl fun p hp => ?_
    obtain ⟨target, htarget⟩ := (stands_reference hr).mp hp
    cases ht.symm.trans htarget
  | some found =>
    obtain ⟨p, target⟩ := found
    rw [lowerReference_eq ht]
    refine ⟨fun {built s ty t} hi hown hrun => ?_⟩
    obtain ⟨n, u, hnode, hrun⟩ := hrun.bind
    obtain ⟨hleaves, hname⟩ := nodeName_leaves hi hnode
    obtain ⟨built', hleaves', hnames, hbare⟩ :=
      lowerTarget_leaves hl hleaves.inv hname ⟨reference, ht⟩ hrun
    have hname' := hleaves'.named p n hname
    refine ⟨built', .of_leaves hown (hleaves.trans hleaves') hbare ⟨fun m hm => ?_, fun q hq => ?_⟩⟩
    · rw [hnames, List.mem_singleton] at hm
      exact .inr ⟨p, (stands_reference hr).mpr ⟨target, ht⟩, hm ▸ hname'⟩
    · obtain ⟨_, hq⟩ := (stands_reference hr).mp hq
      cases ht.symm.trans hq
      exact ⟨n, hname', by simp [hnames]⟩

end Parts

/-! ## The whole compilation -/

/-- A schema is compiled to a type around what its core is compiled to, and each item on the way
is finished after those that it holds with no box around. -/
theorem lower_compiles (root : Option Json) (depth : Nat) : Compiles root (lower root depth) := by
  induction depth with
  | zero => exact fun v name => ⟨fun _ _ hrun => nomatch hrun⟩
  | succ depth ih =>
    intro v name
    cases hr : refText? v with
    | some reference =>
      obtain ⟨ms, rfl⟩ : ∃ ms, v = .object ms := by
        cases v with
        | object ms => exact ⟨ms, rfl⟩
        | _ => cases hr
      have hrun : lower root (depth + 1) (.object ms) name =
          lowerReference root (lower root depth) reference := by
        have hg : OrderedMap.get? ms "$ref" = some (.string reference) := refText?_eq_some.mp hr
        simp only [lower, lowerMembers, hg]
      rw [hrun]
      exact lowerReference_makes ih hr name
    | none =>
      cases v with
      | object ms =>
        refine (lowerMembers_makes ih ms name hr).congr fun p => ?_
        rw [stands_core hr]
        simp only [core, hr]
      | _ => exact .pure rfl fun p hp => not_anyStands_nil p ((stands_core hr).mp hp)

/-! ## Bundles -/

/-- Names are given to nodes, each to one, and nothing is compiled. -/
structure Bound (s : LowerState) : Prop where
  reserved : ∀ p n, s.named.lookup p = some n → n ∈ s.scope.taken
  apart : ∀ p q n, s.named.lookup p = some n → s.named.lookup q = some n → p = q
  no_slots : s.slots = []
  none_open : s.inProgress = []
  none_done : s.done = []

theorem Bound.inv (h : Bound s) : Inv root [] s where
  ordered := .nil
  items := by simp [LowerState.items, h.no_slots]
  taken x hx := by cases hx
  reserved := h.reserved
  apart := h.apart
  begun p x hx := by cases hx
  aliased x hx := by cases hx
  settled p hp := by simp [h.none_done] at hp

theorem bind_bound {p : Pointer} {n : String} {a : Unit} (h : Bound s)
    (hn : ∀ q, s.named.lookup q ≠ some n) (hrun : Yields (bind p n) s a t) :
    Bound t ∧ ∀ q m, t.named.lookup q = some m → m = n ∨ s.named.lookup q = some m := by
  obtain ⟨_, u, hreserve, hrun⟩ := hrun.bind
  obtain rfl := modify_yields hreserve
  obtain rfl := modify_yields hrun
  have hlookup (q : Pointer) (m : String) (hq : ((p, n) :: s.named).lookup q = some m) :
      q = p ∧ m = n ∨ s.named.lookup q = some m := by
    by_cases he : q = p
    · subst he
      exact .inl ⟨rfl, by simpa [eq_comm] using hq⟩
    · exact .inr (by simpa [List.lookup_cons, beq_false_of_ne he] using hq)
  refine ⟨⟨fun q m hq => ?_, fun q r m hq hr => ?_, h.no_slots, h.none_open, h.none_done⟩,
    fun q m hq => (hlookup q m hq).imp_left And.right⟩
  · rcases hlookup q m hq with ⟨-, rfl⟩ | hq'
    · exact List.mem_cons_self ..
    · exact List.mem_cons_of_mem _ (h.reserved q m hq')
  · rcases hlookup q m hq with ⟨rfl, rfl⟩ | hq'
    · rcases hlookup r m hr with ⟨rfl, -⟩ | hr'
      · rfl
      · exact absurd hr' (hn r)
    · rcases hlookup r m hr with ⟨-, rfl⟩ | hr'
      · exact absurd hq' (hn q)
      · exact h.apart q r m hq' hr'

theorem forM_bind_bound {members : List BundleMember} {a : Unit} (h : Bound s)
    (hnames : (members.map fun m => Code.typeIdent m.canonicalName).Nodup)
    (hn : ∀ m ∈ members, ∀ q, s.named.lookup q ≠ some (Code.typeIdent m.canonicalName))
    (hrun : Yields (members.forM fun m => bind m.location (Code.typeIdent m.canonicalName))
      s a t) : Bound t := by
  induction members generalizing s with
  | nil =>
    obtain ⟨-, rfl⟩ := hrun.pure
    exact h
  | cons m members ih =>
    obtain ⟨_, u, hfirst, hrun⟩ := hrun.bind
    obtain ⟨hother, hnames⟩ := List.nodup_cons.mp hnames
    obtain ⟨hu, hlookup⟩ := bind_bound h (hn m (List.mem_cons_self ..)) hfirst
    refine ih hu hnames (fun m' hm' q hq => ?_) hrun
    rcases hlookup q _ hq with heq | hq
    · exact hother (List.mem_map.mpr ⟨m', hm', heq⟩)
    · exact hn m' (List.mem_cons_of_mem _ hm') q hq

theorem forM_lowerPointer_leaves {depth : Nat} {members : List BundleMember} {a : Unit}
    (h : Inv root built s)
    (hrun : Yields (members.forM fun m => do
      let _ ← lowerPointer root depth m.location) s a t) :
    ∃ built', Leaves root [] built built' s t := by
  induction members generalizing built s with
  | nil =>
    obtain ⟨-, rfl⟩ := hrun.pure
    exact ⟨built, .refl h⟩
  | cons m members ih =>
    obtain ⟨_, u, hfirst, hrun⟩ := hrun.bind
    obtain ⟨ty, hfirst, -⟩ := hfirst.some
    have hmakes : Makes root (Stands root (refTo m.reference)) (.hint "")
        (lowerPointer root depth m.location) :=
      lowerReference_makes (lower_compiles root depth) rfl _
    obtain ⟨between, hm⟩ := hmakes.made h (by simp [ItemName.owned]) hfirst
    obtain ⟨built', hleaves⟩ := ih hm.inv hrun
    exact ⟨built', hm.toLeaves.trans hleaves⟩

/-- When a bundle is compiled, its items have been finished one by one. -/
theorem lowerBundleWith_built {b : Bundle} {depth : Nat} {a : Unit}
    (hnames : (b.members.map fun m => Code.typeIdent m.canonicalName).Nodup)
    (hrun : Yields (lowerBundleWith depth b) .empty a t) :
    ∃ built, Inv (some b.document) built t ∧ t.inProgress = [] := by
  obtain ⟨_, u, hbind, hlower⟩ := hrun.bind
  have hempty : Bound .empty :=
    ⟨fun _ _ h => (nomatch h), fun _ _ _ h => (nomatch h), rfl, rfl, rfl⟩
  have hbound := forM_bind_bound hempty hnames (fun _ _ _ h => nomatch h) hbind
  obtain ⟨built, hleaves⟩ := forM_lowerPointer_leaves hbound.inv hlower
  exact ⟨built, hleaves.inv, hleaves.opened.trans hbound.none_open⟩

theorem lowerBundle_eq_some {b : Bundle} {items : List Item} (h : lowerBundle b = some items) :
    ∃ t, Yields (lowerBundleWith (depthFor b.document.size) b) .empty () t ∧ t.items = items := by
  obtain ⟨⟨_, t⟩, hrun, hitems⟩ := Option.map_eq_some_iff.mp h
  exact ⟨t, hrun, hitems⟩

/-- No generated type holds itself but through a box. -/
theorem containment_boxed {b : Bundle} {items : List Item}
    (hnames : (b.members.map fun m => Code.typeIdent m.canonicalName).Nodup)
    (h : lowerBundle b = some items) (x : Item) :
    ¬ Relation.TransGen (Contains items) x x := by
  obtain ⟨t, hrun, rfl⟩ := lowerBundle_eq_some h
  obtain ⟨built, hinv, -⟩ := lowerBundleWith_built hnames hrun
  intro hx
  refine hinv.ordered.acyclic x (hx.lift id ?_)
  rintro y z ⟨hy, hz, hn⟩
  exact ⟨hinv.items.mem_iff.mp hy, hinv.items.mem_iff.mp hz, hn⟩

/-- Trees and lists of trees, each made of the other. -/
def forest : Bundle where
  document := Bundle.documentOf [
    ("tree", .object [("properties", .object [("left", refTo "#/$defs/tree"),
      ("others", refTo "#/$defs/forest")])]),
    ("forest", .object [("type", .string "array"), ("items", refTo "#/$defs/tree")])]
  members := [⟨"tree", "tree.schema.json"⟩, ⟨"forest", "forest.schema.json"⟩]

/-- The items for trees and lists of trees. -/
def forestItems : List Item := [
  ⟨"Tree", none, .record [
    ⟨"left", "left", .option (.boxed (.named "Tree")), false, none⟩,
    ⟨"others", "others", .option (.named "Forest"), false, none⟩] false none⟩,
  ⟨"Forest", none, .alias (.array (.boxed (.named "Tree")))⟩]

theorem containment_boxed_forest :
    (forest.members.map fun m => Code.typeIdent m.canonicalName).Nodup ∧
      lowerBundle forest = some forestItems ∧
      ∀ x, ¬ Relation.TransGen (Contains forestItems) x x := by
  have hnames : (forest.members.map fun m => Code.typeIdent m.canonicalName).Nodup := by
    decide +kernel
  have hitems : lowerBundle forest = some forestItems := by decide +kernel
  exact ⟨hnames, hitems, containment_boxed hnames hitems⟩

end SchemaBindings.Lowering
