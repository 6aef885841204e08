import SchemaBindings.BundledParser
import SchemaBindings.Manifest
import SchemaBindings.Proofs.BundleReferences
import SchemaBindings.Proofs.LoweringBoxes
import SchemaBindings.Proofs.TypeSets

/-! # The names in a module are those of its items

A type names an item long before there is one: the members of a bundle have
their names before anything is compiled, and a reference to a node that is open
is given the name of the node. Such a name is `Promised`. It is kept as long as
the node is open, and closing the node finishes its item, so when no node is
open any more, every name that is promised is the name of an item. Whether two
nodes have the same name does not matter for this. -/

namespace SchemaBindings

/-- The names of the items that are finished. -/
def LowerState.itemNames (s : LowerState) : List String := s.items.map (·.name)

namespace Lowering

variable {root : Option Json} {s t u : LowerState} {name : ItemName} {tys tys' : List Ty}

/-- A name is that of an item, or of a node that is open. -/
def Promised (s : LowerState) (n : String) : Prop :=
  n ∈ s.itemNames ∨ ∃ p ∈ s.inProgress, s.named.lookup p = some n

/-- Items name what is promised, and a node that was closed has its item. -/
structure Promises (s : LowerState) : Prop where
  promised : ∀ x ∈ s.items, ∀ ty ∈ x.shape.types, ∀ n ∈ ty.names, Promised s n
  closed : ∀ p ∈ s.done, ∃ n ∈ s.itemNames, s.named.lookup p = some n

/-- A type names what is promised, and with no box around only items. -/
structure Backed (s : LowerState) (ty : Ty) : Prop where
  bare : ∀ n ∈ ty.bareNames, n ∈ s.itemNames
  promised : ∀ n ∈ ty.names, Promised s n

/-- What a step leaves that comes to some types. Which items are finished can be read off the
state, so nothing is said of them beside it. -/
structure Supplies (s t : LowerState) (tys : List Ty) : Prop where
  promises : Promises t
  grows : Grows [] [] s t
  backed : ∀ ty ∈ tys, Backed t ty

theorem Grows.itemNames (h : Grows [] [] s t) : s.itemNames ⊆ t.itemNames :=
  List.map_subset _ (h.slots.filterMap id).subset

theorem Promised.mono (h : Grows [] [] s t) {n : String} (hn : Promised s n) : Promised t n :=
  hn.imp (fun hn => h.itemNames hn) fun ⟨p, hp, hl⟩ => ⟨p, h.opened ▸ hp, h.named p n hl⟩

theorem Backed.mono (h : Grows [] [] s t) {ty : Ty} (hty : Backed s ty) : Backed t ty where
  bare n hn := h.itemNames (hty.bare n hn)
  promised n hn := (hty.promised n hn).mono h

theorem Backed.congr {ty ty' : Ty} (hbare : ty'.bareNames = ty.bareNames)
    (hnames : ty'.names = ty.names) (h : Backed s ty) : Backed s ty' where
  bare n hn := h.bare n (hbare ▸ hn)
  promised n hn := h.promised n (hnames ▸ hn)

theorem Backed.of_mem {n : String} (nullable : Bool) (hn : n ∈ s.itemNames) :
    Backed s (itemType n nullable) := by
  have hnamed : Backed s (.named n) :=
    ⟨fun _ hm => List.mem_singleton.mp hm ▸ hn, fun _ hm => .inl (List.mem_singleton.mp hm ▸ hn)⟩
  cases nullable with
  | false => exact hnamed
  | true => exact ⟨hnamed.bare, hnamed.promised⟩

theorem Backed.of_names_eq_nil {ty : Ty} (hty : ty.names = []) : Backed s ty where
  bare n hn := by simpa [hty] using Ty.mem_names_of_mem_bareNames hn
  promised n hn := by simp [hty] at hn

theorem Supplies.refl (h : Promises s) : Supplies s s [] where
  promises := h
  grows := .refl [] s
  backed _ hty := by cases hty

theorem Supplies.trans (h : Supplies s u tys) (h' : Supplies u t tys') :
    Supplies s t (tys ++ tys') where
  promises := h'.promises
  grows := h.grows.trans h'.grows
  backed ty hty := by
    rcases List.mem_append.mp hty with hty | hty
    · exact (h.backed ty hty).mono h'.grows
    · exact h'.backed ty hty

/-- Nothing that was promised depends on the names that are taken. -/
theorem Supplies.of_scope (h : Promises s) (scope : Code.NameScope) :
    Supplies s { s with scope := scope } [] where
  promises := ⟨h.promised, h.closed⟩
  grows := { Grows.refl [] s with }
  backed _ hty := by cases hty

/-- A step that comes to a type comes to one that names what is promised. -/
structure Backs (act : LowerM Ty) : Prop where
  supplies : ∀ {s ty t}, Promises s → Yields act s ty t → Supplies s t [ty]

/-- Every schema is compiled to a type that names what is promised. -/
def BacksAll (lower : Lower) : Prop := ∀ v name, Backs (lower v name)

theorem Backs.pure {ty : Ty} (hty : ty.names = []) : Backs (Pure.pure ty) := by
  refine ⟨fun {s ty' t} hs hrun => ?_⟩
  obtain ⟨rfl, rfl⟩ := hrun.pure
  exact ⟨hs, .refl [] _, by simpa using .of_names_eq_nil hty⟩

theorem Backs.wrap {act : LowerM Ty} {f : Ty → Ty} (hbare : ∀ ty, (f ty).bareNames = ty.bareNames)
    (hnames : ∀ ty, (f ty).names = ty.names) (h : Backs act) : Backs (do return f (← act)) := by
  refine ⟨fun {s ty t} hs hrun => ?_⟩
  obtain ⟨ty, hact, rfl⟩ := hrun.some
  have hm := h.supplies hs hact
  refine ⟨hm.promises, hm.grows, ?_⟩
  simpa using (hm.backed ty (by simp)).congr (hbare ty) (hnames ty)

/-! ## Items -/

theorem openSlot_supplies (h : Promises s) :
    Supplies s { s with slots := s.slots ++ [none] } [] where
  promises := by
    have hitems : LowerState.items { s with slots := s.slots ++ [none] } = s.items := by
      simp [LowerState.items]
    have hpromised {n : String} (hn : Promised s n) :
        Promised { s with slots := s.slots ++ [none] } n := by
      simpa [Promised, LowerState.itemNames, hitems] using hn
    refine ⟨fun x hx ty hty n hn => ?_, fun p hp => ?_⟩
    · exact hpromised (h.promised x (hitems ▸ hx) ty hty n hn)
    · simpa [LowerState.itemNames, hitems] using h.closed p hp
  grows := { Grows.refl [] s with slots := List.prefix_append .. }
  backed _ hty := by cases hty

theorem claimName_state {candidate n : String} (hrun : Yields (claimName candidate) s n t) :
    t = { s with scope := s.scope.reserve n } := by
  cases hrun
  rfl

theorem claim_supplies {n : String} (h : Promises s) (hrun : Yields (claim name) s n t) :
    Supplies s t [] := by
  cases name with
  | exact m =>
    obtain ⟨rfl, rfl⟩ := hrun.pure
    exact .refl h
  | hint m =>
    rw [claimName_state hrun]
    exact .of_scope h _

/-- An item that is put at its place keeps what was promised, and its own name is one now. -/
theorem fill_supplies {x : Item}
    (h : Supplies { s with slots := s.slots ++ [none] } u tys) (hx : x.shape.types ⊆ tys) :
    Supplies s { u with slots := u.slots.set s.slots.length (some x) } tys ∧
      x.name ∈ LowerState.itemNames { u with slots := u.slots.set s.slots.length (some x) } := by
  obtain ⟨after, hafter⟩ := h.grows.slots
  have hslots : u.slots = s.slots ++ none :: after := by simp [← hafter]
  have hset : u.slots.set s.slots.length (some x) = s.slots ++ some x :: after := by simp [hslots]
  rw [hset]
  have hitems : ∀ y, y ∈ LowerState.items { u with slots := s.slots ++ some x :: after } ↔
      y = x ∨ y ∈ u.items := by
    intro y
    simp [LowerState.items, hslots, or_left_comm]
  have hnames {n : String} (hn : n ∈ u.itemNames) :
      n ∈ LowerState.itemNames { u with slots := s.slots ++ some x :: after } := by
    obtain ⟨y, hy, rfl⟩ := List.mem_map.mp hn
    exact List.mem_map.mpr ⟨y, (hitems y).mpr (.inr hy), rfl⟩
  have hpromised {n : String} (hn : Promised u n) :
      Promised { u with slots := s.slots ++ some x :: after } n := hn.imp_left hnames
  refine ⟨⟨⟨fun y hy ty hty n hn => ?_, fun p hp => ?_⟩, ?_, fun ty hty => ?_⟩, ?_⟩
  · rcases (hitems y).mp hy with rfl | hy
    · exact hpromised ((h.backed ty (hx hty)).promised n hn)
    · exact hpromised (h.promises.promised y hy ty hty n hn)
  · obtain ⟨n, hn, hl⟩ := h.promises.closed p hp
    exact ⟨n, hnames hn, hl⟩
  · exact { h.grows with slots := List.prefix_append .. }
  · exact ⟨fun n hn => hnames ((h.backed ty hty).bare n hn),
      fun n hn => hpromised ((h.backed ty hty).promised n hn)⟩
  · exact List.mem_map.mpr ⟨x, (hitems x).mpr (.inl rfl), rfl⟩

/-- A type that becomes an item, when its parts are backed. -/
theorem item_supplies {nullable : Bool} {n : String} {slot : Nat} {doc : Option String}
    {shape : ItemShape} {a : Unit} {s₁ s₂ s₃ : LowerState} (h : Promises s)
    (hclaim : Yields (claim name) s n s₁) (hopen : Yields openSlot s₁ slot s₂)
    (hbody : Promises s₂ → Supplies s₂ s₃ shape.types)
    (hfill : Yields (fill slot ⟨n, doc, shape⟩) s₃ a t) :
    Supplies s t [itemType n nullable] := by
  have hclaimed := claim_supplies h hclaim
  obtain ⟨rfl, rfl⟩ := openSlot_yields hopen
  obtain ⟨hfilled, hn⟩ := fill_supplies (x := ⟨n, doc, shape⟩)
    (hbody (openSlot_supplies hclaimed.promises).promises) (List.Subset.refl _)
  obtain rfl := fill_yields hfill
  refine ⟨hfilled.promises, hclaimed.grows.trans hfilled.grows, ?_⟩
  intro ty hty
  obtain rfl := List.mem_singleton.mp hty
  exact .of_mem nullable hn

/-! ## Schemas -/

section Parts

variable {lower : Lower}

theorem lowerArms_supplies {α : Type} {lowerArm : α → ItemName → LowerM Ty}
    (hl : ∀ x name, Backs (lowerArm x name)) {itemName : String} {number : Nat}
    {idents : Code.NameScope} {xs : List α} {arms : List Arm} (h : Promises s)
    (hrun : Yields (lowerArms lowerArm itemName number idents xs) s arms t) :
    Supplies s t (arms.map (·.ty)) := by
  induction xs generalizing number idents s arms with
  | nil =>
    obtain ⟨rfl, rfl⟩ := hrun.pure
    exact .refl h
  | cons x xs ih =>
    obtain ⟨ty, u, hx, hrun⟩ := hrun.bind
    obtain ⟨rest, hrest, rfl⟩ := hrun.some
    have hfirst := (hl x _).supplies h hx
    exact hfirst.trans (ih hfirst.promises hrest)

theorem lowerAlternatives_backs {α : Type} {lowerArm : α → ItemName → LowerM Ty}
    (hl : ∀ x name, Backs (lowerArm x name)) (ms : Members) (name : ItemName) (xs : List α)
    (nullable : Bool) : Backs (lowerAlternatives lowerArm ms name xs nullable) := by
  match xs, nullable with
  | [], true => exact .pure rfl
  | [], false => exact .pure rfl
  | [x], false => exact hl x name
  | [x], true => exact .wrap Ty.bareNames_optional Ty.names_optional (hl x name.inner)
  | x :: y :: rest, nullable =>
    refine ⟨fun {s ty t} hs hrun => ?_⟩
    obtain ⟨n, s₁, hclaim, hrun⟩ := hrun.bind
    obtain ⟨slot, s₂, hopen, hrun⟩ := hrun.bind
    obtain ⟨arms, s₃, harms, hrun⟩ := hrun.bind
    obtain ⟨_, hfill, rfl⟩ := hrun.some
    exact item_supplies hs hclaim hopen (fun hs₂ => lowerArms_supplies hl hs₂ harms) hfill

theorem lowerEnum_backs (values : List Json) (ms : Members) (name : ItemName) :
    Backs (lowerEnum values ms name) := by
  unfold lowerEnum
  split
  · exact .pure rfl
  · exact .pure (by split <;> rfl)
  · refine ⟨fun {s ty t} hs hrun => ?_⟩
    obtain ⟨n, s₁, hclaim, hrun⟩ := hrun.bind
    obtain ⟨slot, s₂, hopen, hrun⟩ := hrun.bind
    obtain ⟨_, hfill, rfl⟩ := hrun.some
    exact item_supplies hs hclaim hopen .refl hfill

theorem lowerFields_supplies (hl : BacksAll lower) {itemName : String} {required : List String}
    {idents idents' : Code.NameScope} {properties : Members} {fields : List Field}
    (h : Promises s)
    (hrun : Yields (lowerFields lower itemName required idents properties) s (fields, idents') t) :
    Supplies s t (fields.map (·.ty)) := by
  induction properties generalizing idents idents' s fields with
  | nil =>
    obtain ⟨hnil, rfl⟩ := hrun.pure
    cases hnil
    exact .refl h
  | cons e rest ih =>
    obtain ⟨property, schema⟩ := e
    obtain ⟨ty, u, hx, hrun⟩ := hrun.bind
    obtain ⟨⟨others, _⟩, hrest, heq⟩ := hrun.some
    cases heq
    have hfirst := (hl schema _).supplies h hx
    have hty : Backed u ty := hfirst.backed ty (by simp)
    -- A field that is not required has an optional type.
    have hfield : Backed u (if required.contains property then ty else ty.optional) := by
      split
      · exact hty
      · exact hty.congr (Ty.bareNames_optional ty) (Ty.names_optional ty)
    have hone : Supplies s u [if required.contains property then ty else ty.optional] :=
      ⟨hfirst.promises, hfirst.grows, by simpa using hfield⟩
    exact hone.trans (ih hfirst.promises hrest)

theorem lowerFreeObject_backs (hl : BacksAll lower) (ms : Members) (name : ItemName) :
    Backs (lowerFreeObject lower ms name) := by
  unfold lowerFreeObject
  split
  · exact .wrap (fun _ => rfl) (fun _ => rfl) (hl _ _)
  · exact .pure rfl

theorem lowerExtra_supplies (hl : BacksAll lower) {ms : Members} {itemName : String}
    {idents : Code.NameScope} {denyUnknown : Bool} {extra : Option (String × Ty)} (h : Promises s)
    (hrun : Yields (lowerExtra lower ms itemName idents) s (denyUnknown, extra) t) :
    Supplies s t (extra.map (·.2)).toList := by
  unfold lowerExtra at hrun
  split at hrun
  · obtain ⟨heq, rfl⟩ := hrun.pure
    cases heq
    exact .refl h
  · obtain ⟨ty, hx, heq⟩ := hrun.some
    cases heq
    exact (hl _ _).supplies h hx
  · obtain ⟨heq, rfl⟩ := hrun.pure
    cases heq
    exact .refl h

theorem lowerObject_backs (hl : BacksAll lower) (ms : Members) (name : ItemName) :
    Backs (lowerObject lower ms name) := by
  unfold lowerObject
  split
  · refine ⟨fun {s ty t} hs hrun => ?_⟩
    obtain ⟨n, s₁, hclaim, hrun⟩ := hrun.bind
    obtain ⟨slot, s₂, hopen, hrun⟩ := hrun.bind
    obtain ⟨⟨fields, idents⟩, u, hfields, hrun⟩ := hrun.bind
    obtain ⟨⟨denyUnknown, extra⟩, s₃, hextra, hrun⟩ := hrun.bind
    obtain ⟨_, hfill, rfl⟩ := hrun.some
    have hbody (hs₂ : Promises s₂) :
        Supplies s₂ s₃ (ItemShape.record fields denyUnknown extra).types := by
      have hfields := lowerFields_supplies hl hs₂ hfields
      exact hfields.trans (lowerExtra_supplies hl hfields.promises hextra)
    change Supplies s t [itemType n false]
    exact item_supplies hs hclaim hopen hbody hfill
  · exact lowerFreeObject_backs hl ms name

theorem lowerArray_backs (hl : BacksAll lower) (ms : Members) (name : ItemName) :
    Backs (lowerArray lower ms name) := by
  unfold lowerArray
  split
  · exact .wrap (fun _ => rfl) (fun _ => rfl) (hl _ _)
  · exact .wrap (fun _ => rfl) (fun _ => rfl) (hl _ _)
  · exact .pure rfl

theorem lowerKind_backs (hl : BacksAll lower) (kind : String) (ms : Members) (name : ItemName) :
    Backs (lowerKind lower kind ms name) := by
  unfold lowerKind
  split
  case h_2 => exact .pure (by split <;> rfl)
  case h_6 => exact lowerArray_backs hl ms name
  case h_7 => exact lowerObject_backs hl ms name
  all_goals exact .pure rfl

theorem lowerByType_backs (hl : BacksAll lower) (ms : Members) (name : ItemName) :
    Backs (lowerByType lower ms name) := by
  unfold lowerByType
  split
  · exact lowerKind_backs hl _ ms name
  · exact lowerAlternatives_backs (fun kind => lowerKind_backs hl kind ms) ms name _ _
  · split
    · exact lowerObject_backs hl ms name
    · split
      · exact lowerArray_backs hl ms name
      · exact .pure rfl

theorem lowerComposed_backs (hl : BacksAll lower) (ms : Members) (name : ItemName) :
    Backs (lowerComposed root lower ms name) := by
  unfold lowerComposed
  split
  · unfold lowerAllOf
    split
    · exact hl _ name
    · exact .pure rfl
  · split
    · exact lowerAlternatives_backs hl ms name _ _
    · exact lowerByType_backs hl ms name

/-! ## References -/

/-- What is promised stays so when another node is given a name. -/
theorem named_supplies {p : Pointer} {n : String} (h : Promises s)
    (hnone : s.named.lookup p = none) :
    Supplies s { s with named := (p, n) :: s.named } [] := by
  have hkept (q : Pointer) (m : String) (hq : s.named.lookup q = some m) :
      ((p, n) :: s.named).lookup q = some m := by
    have hne : q ≠ p := by
      rintro rfl
      cases hnone.symm.trans hq
    simpa [List.lookup_cons, beq_false_of_ne hne] using hq
  have hgrows : Grows [] [] s { s with named := (p, n) :: s.named } :=
    { Grows.refl [] s with named := hkept }
  refine ⟨⟨fun x hx ty hty m hm => ?_, fun q hq => ?_⟩, hgrows, fun _ hty => nomatch hty⟩
  · exact (h.promised x hx ty hty m hm).mono hgrows
  · obtain ⟨m, hm, hl⟩ := h.closed q hq
    exact ⟨m, hm, hkept q m hl⟩

theorem nodeName_supplies {p : Pointer} {n : String} (h : Promises s)
    (hrun : Yields (nodeName p) s n t) : Supplies s t [] ∧ t.named.lookup p = some n := by
  unfold nodeName at hrun
  obtain ⟨_, _, hget, hrun⟩ := hrun.bind
  cases hget
  split at hrun
  · rename_i hl
    obtain ⟨rfl, rfl⟩ := hrun.pure
    exact ⟨.refl h, hl⟩
  · rename_i hnone
    obtain ⟨m, u, hclaim, hrun⟩ := hrun.bind
    obtain ⟨_, v, hset, hrun⟩ := hrun.bind
    obtain ⟨rfl, rfl⟩ := hrun.pure
    obtain rfl := claimName_state hclaim
    obtain rfl := modify_yields hset
    have hclaimed := Supplies.of_scope h (s.scope.reserve n)
    exact ⟨hclaimed.trans (named_supplies hclaimed.promises hnone), by simp⟩

/-- A schema that is compiled under a name becomes the item of that name. -/
theorem lowerNamed_supplies (hl : BacksAll lower) {target : Json} {n : String} {ty : Ty}
    (h : Promises s) (hrun : Yields (lowerNamed lower target n) s ty t) :
    Supplies s t [] ∧ ty = .named n ∧ n ∈ t.itemNames := by
  obtain ⟨slot, s₁, hopen, hrun⟩ := hrun.bind
  obtain ⟨rfl, rfl⟩ := openSlot_yields hopen
  obtain ⟨ty', u, htype, hrun⟩ := hrun.bind
  have hopened := openSlot_supplies h
  have hm := (hl target (.exact n)).supplies hopened.promises htype
  by_cases hty : ty' = .named n
  · -- With no box around, a type only names items.
    subst hty
    simp only [ne_eq, not_true_eq_false, if_false] at hrun
    obtain ⟨rfl, rfl⟩ := hrun.pure
    refine ⟨⟨hm.promises, hopened.grows.trans hm.grows, fun _ hty => nomatch hty⟩, rfl, ?_⟩
    exact (hm.backed _ (List.mem_singleton_self _)).bare n (List.mem_singleton_self n)
  · simp only [ne_eq, hty, not_false_eq_true, if_true] at hrun
    obtain ⟨_, v, hfill, hrun⟩ := hrun.bind
    obtain ⟨rfl, rfl⟩ := hrun.pure
    obtain rfl := fill_yields hfill
    obtain ⟨hfilled, hn⟩ := fill_supplies (x := ⟨n, description target, .alias ty'⟩) hm
      (List.Subset.refl _)
    exact ⟨⟨hfilled.promises, hfilled.grows, fun _ hty => nomatch hty⟩, rfl, hn⟩

/-- A node that is not open is closed once it is compiled. -/
theorem lowerTarget_supplies (hl : BacksAll lower) {p : Pointer} {target : Json} {n : String}
    {ty : Ty} (h : Promises s) (hname : s.named.lookup p = some n)
    (hrun : Yields (lowerTarget lower p target n) s ty t) :
    Supplies s t [ty] ∧ (p ∉ s.inProgress → p ∈ t.done) := by
  rcases lowerTarget_yields hrun with ⟨ho, rfl, rfl⟩ | ⟨hd, rfl, rfl⟩ | ⟨ho, hd, u, hnamed, rfl⟩
  · refine ⟨⟨h, .refl [] t, fun ty hty => ?_⟩, fun hp => absurd ho hp⟩
    obtain rfl := List.mem_singleton.mp hty
    refine ⟨fun _ hm => absurd hm List.not_mem_nil, fun m hm => ?_⟩
    obtain rfl := List.mem_singleton.mp hm
    exact .inr ⟨p, ho, hname⟩
  · obtain ⟨m, hm, hl⟩ := h.closed p hd
    obtain rfl : n = m := Option.some.inj (hname.symm.trans hl)
    exact ⟨⟨h, .refl [] t, by simpa using .of_mem false hm⟩, fun _ => hd⟩
  -- The node is open while it is compiled, and its name is promised.
  have hopened : Promises { s with inProgress := p :: s.inProgress } := by
    refine ⟨fun x hx ty hty m hm => ?_, h.closed⟩
    rcases h.promised x hx ty hty m hm with hm | ⟨q, hq, hl⟩
    · exact .inl hm
    · exact .inr ⟨q, List.mem_cons_of_mem _ hq, hl⟩
  obtain ⟨hm, rfl, hn⟩ := lowerNamed_supplies hl hopened hnamed
  have hinner : u.inProgress = p :: s.inProgress := hm.grows.opened
  rw [hinner, filter_ne_of_not_mem ho]
  have hnamed : u.named.lookup p = some n := hm.grows.named p n hname
  -- What was promised for the node is kept by its item.
  have hkept {m : String} (hm' : Promised u m) :
      Promised { u with inProgress := s.inProgress, done := p :: u.done } m := by
    rcases hm' with hm' | ⟨q, hq, hq'⟩
    · exact .inl hm'
    · rcases List.mem_cons.mp (hinner ▸ hq) with rfl | hq
      · obtain rfl : n = m := Option.some.inj (hnamed.symm.trans hq')
        exact .inl hn
      · exact .inr ⟨q, hq, hq'⟩
  refine ⟨⟨⟨fun x hx ty hty m hm' => ?_, fun q hq => ?_⟩, ?_, ?_⟩, fun _ => List.mem_cons_self ..⟩
  · exact hkept (hm.promises.promised x hx ty hty m hm')
  · rcases List.mem_cons.mp hq with rfl | hq
    · exact ⟨n, hn, hnamed⟩
    · exact hm.promises.closed q hq
  · exact ⟨List.Subset.refl _, hm.grows.slots, hm.grows.named, rfl,
      List.Subset.trans hm.grows.done (List.subset_cons_self ..)⟩
  · intro ty hty
    obtain rfl := List.mem_singleton.mp hty
    exact .of_mem false hn

/-- A reference that leads somewhere leaves its node open or closed. -/
theorem lowerReference_supplies (hl : BacksAll lower) {reference : String} {p : Pointer}
    {target : Json} {ty : Ty} (ht : localTarget? root reference = some (p, target))
    (h : Promises s) (hrun : Yields (lowerReference root lower reference) s ty t) :
    Supplies s t [ty] ∧ (p ∉ s.inProgress → p ∈ t.done) := by
  rw [lowerReference_eq ht] at hrun
  obtain ⟨n, u, hnode, hrun⟩ := hrun.bind
  obtain ⟨hfirst, hname⟩ := nodeName_supplies h hnode
  obtain ⟨hsecond, hdone⟩ := lowerTarget_supplies hl hfirst.promises hname hrun
  exact ⟨hfirst.trans hsecond, hfirst.grows.opened ▸ hdone⟩

theorem lowerReference_backs (hl : BacksAll lower) (reference : String) :
    Backs (lowerReference root lower reference) := by
  cases ht : localTarget? root reference with
  | none =>
    have hrun : lowerReference root lower reference = pure .any := by
      simp only [lowerReference, ht]
    rw [hrun]
    exact .pure rfl
  | some found => exact ⟨fun hs hrun => (lowerReference_supplies hl ht hs hrun).1⟩

theorem lowerMembers_backs (hl : BacksAll lower) (ms : Members) (name : ItemName) :
    Backs (lowerMembers root lower ms name) := by
  unfold lowerMembers
  split
  · exact lowerReference_backs hl _
  · split
    · exact .pure (names_constantType _)
    · split
      · exact lowerEnum_backs _ ms name
      · exact lowerComposed_backs hl ms name

end Parts

/-- Compiling keeps what is promised, however deep schemas are nested. -/
theorem lower_backs (root : Option Json) (depth : Nat) : BacksAll (lower root depth) := by
  induction depth with
  | zero => exact fun v name => ⟨fun _ hrun => nomatch hrun⟩
  | succ depth ih =>
    intro v name
    cases v with
    | object ms => exact lowerMembers_backs ih ms name
    | _ => exact .pure rfl

/-! ## The members of a bundle -/

/-- Nothing is compiled yet. -/
structure Untouched (s : LowerState) : Prop where
  no_slots : s.slots = []
  none_open : s.inProgress = []
  none_done : s.done = []

theorem Untouched.promises (h : Untouched s) : Promises s where
  promised x hx := by simp [LowerState.items, h.no_slots] at hx
  closed p hp := by simp [h.none_done] at hp

/-- Before anything is compiled, each member has its name. -/
theorem forM_bind_named {members : List BundleMember} {a : Unit}
    (hlocations : (members.map (·.location)).Nodup) (h : Untouched s)
    (hrun : Yields (members.forM fun m => bind m.location (Code.typeIdent m.canonicalName))
      s a t) :
    Untouched t ∧
      (∀ p, p ∉ members.map (·.location) → t.named.lookup p = s.named.lookup p) ∧
      ∀ m ∈ members, t.named.lookup m.location = some (Code.typeIdent m.canonicalName) := by
  induction members generalizing s with
  | nil =>
    obtain ⟨-, rfl⟩ := hrun.pure
    exact ⟨h, fun _ _ => rfl, by simp⟩
  | cons m members ih =>
    obtain ⟨_, u, hfirst, hrun⟩ := hrun.bind
    obtain ⟨_, v, hreserve, hbind⟩ := hfirst.bind
    obtain rfl := modify_yields hreserve
    have hu := modify_yields hbind
    have hnamed : u.named = (m.location, Code.typeIdent m.canonicalName) :: s.named := by rw [hu]
    have huntouched : Untouched u := by
      rw [hu]
      exact ⟨h.no_slots, h.none_open, h.none_done⟩
    rw [List.map_cons] at hlocations
    obtain ⟨hfresh, hlocations⟩ := List.nodup_cons.mp hlocations
    obtain ⟨ht, hkept, hothers⟩ := ih hlocations huntouched hrun
    refine ⟨ht, fun p hp => ?_, fun m' hm' => ?_⟩
    · rw [List.map_cons, List.mem_cons, not_or] at hp
      rw [hkept p hp.2, hnamed, List.lookup_cons, beq_false_of_ne hp.1]
    · rcases List.mem_cons.mp hm' with rfl | hm'
      · rw [hkept _ hfresh, hnamed, List.lookup_cons_self]
      · exact hothers m' hm'

/-- Each node that is compiled for its own sake is closed in the end. -/
theorem forM_lowerPointer_supplies {b : Bundle} {depth : Nat} {members : List BundleMember}
    {a : Unit} (hfound : ∀ m ∈ members, ∃ v,
      localTarget? (some b.document) m.reference = some (m.location, v))
    (h : Promises s) (hopen : s.inProgress = [])
    (hrun : Yields (members.forM fun m => do
      let _ ← lowerPointer (some b.document) depth m.location) s a t) :
    Supplies s t [] ∧ ∀ m ∈ members, m.location ∈ t.done := by
  induction members generalizing s with
  | nil =>
    obtain ⟨-, rfl⟩ := hrun.pure
    exact ⟨.refl h, by simp⟩
  | cons m members ih =>
    obtain ⟨_, u, hfirst, hrun⟩ := hrun.bind
    obtain ⟨ty, hfirst, -⟩ := hfirst.some
    obtain ⟨v, hv⟩ := hfound m (List.mem_cons_self ..)
    obtain ⟨hm, hclosed⟩ := lowerReference_supplies (lower_backs _ depth) hv h hfirst
    obtain ⟨hrest, hothers⟩ := ih (fun m' hm' => hfound m' (List.mem_cons_of_mem _ hm'))
      hm.promises (hm.grows.opened.trans hopen) hrun
    refine ⟨⟨hrest.promises, hm.grows.trans hrest.grows, fun _ hty => nomatch hty⟩, ?_⟩
    intro m' hm'
    rcases List.mem_cons.mp hm' with rfl | hm'
    · exact hrest.grows.done (hclosed (by simp [hopen]))
    · exact hothers m' hm'

/-- Whatever the names of the members are: when a bundle is compiled, no node is open, nothing is
promised that there is not, and the node of every member is closed. -/
theorem lowerBundleWith_supplies {b : Bundle} {depth : Nat} {a : Unit}
    (hlocations : (b.members.map (·.location)).Nodup)
    (hfound : ∀ m ∈ b.members, ∃ v,
      localTarget? (some b.document) m.reference = some (m.location, v))
    (hrun : Yields (lowerBundleWith depth b) .empty a t) :
    (∀ m ∈ b.members, Code.typeIdent m.canonicalName ∈ t.itemNames) ∧
      ∀ x ∈ t.items, ∀ ty ∈ x.shape.types, ∀ n ∈ ty.names, n ∈ t.itemNames := by
  obtain ⟨_, u, hbind, hlower⟩ := hrun.bind
  obtain ⟨hu, -, hnamed⟩ := forM_bind_named hlocations ⟨rfl, rfl, rfl⟩ hbind
  obtain ⟨hm, hdone⟩ := forM_lowerPointer_supplies hfound hu.promises hu.none_open hlower
  refine ⟨fun m hmem => ?_, fun x hx ty hty n hn => ?_⟩
  · obtain ⟨n, hn, hl⟩ := hm.promises.closed _ (hdone m hmem)
    rwa [Option.some.inj ((hm.grows.named _ _ (hnamed m hmem)).symm.trans hl)]
  · rcases hm.promises.promised x hx ty hty n hn with hn | ⟨p, hp, -⟩
    · exact hn
    · rw [hm.grows.opened, hu.none_open] at hp
      cases hp

theorem localTarget?_reference {b : Bundle} {m : BundleMember} {v : Json}
    (h : b.document.at? m.location = some v) :
    localTarget? (some b.document) m.reference = some (m.location, v) := by
  have hspelled : m.location.Spelled :=
    Bundle.spelled_definitionsPlace.append (Pointer.spelled_name m.key)
  have hpointer : localPointer? m.reference = some m.location :=
    Pointer.localPointer?_fragment hspelled
  simp [localTarget?, hpointer, h]

theorem location_injective {m m' : BundleMember} (h : m.location = m'.location) :
    m.key = m'.key := by
  have htoken : Pointer.escapeToken m.key = Pointer.escapeToken m'.key := by
    simpa [BundleMember.location, Pointer.child] using congrArg Pointer.tokens h
  simpa using congrArg Pointer.unescapeToken htoken

theorem nodup_locations {members : List BundleMember} (h : (members.map (·.key)).Nodup) :
    (members.map (·.location)).Nodup :=
  List.pairwise_map.mpr ((List.pairwise_map.mp h).imp fun hne he => hne (location_injective he))

theorem typeName_ofCanonical (canonical : String) :
    (ManifestEntry.ofCanonical canonical).typeName = Code.typeIdent canonical := rfl

theorem variant_ofMember (items : List Item) (m : BundleMember) :
    (BundledParser.KeyedMember.ofMember items m).variant = Code.typeIdent m.canonicalName := by
  simp only [BundledParser.KeyedMember.ofMember]

/-- A file stands for the same type whether it is a type of the run or a member of a bundle. -/
theorem canonicalName_ofFile (fileName : String) (v : Json) :
    (TypeDescriptor.ofFile fileName v).canonicalName =
      (BundleMember.ofFile fileName).canonicalName := by
  have hmember : (BundleMember.ofFile fileName).canonicalName = canonicalName fileName := rfl
  rw [hmember]
  rfl

/-- The module of a bundle is closed: every member has its item, and every name in an item is that
of an item. If the members' names differ, no two items have one name, and whatever the root of the
package exports or the parser module imports is there exactly once. -/
theorem item_names_complete {tree : FileTree} {ds : List SchemaDocument} {b : Bundle}
    {items : List Item} (hstems : (ds.map fun d => schemaStem d.fileName).Nodup)
    (hb : Bundle.ofDocuments tree ds = .ok b) (h : lowerBundle b = some items) :
    let names := items.map (·.name)
    (∀ m ∈ b.members, Code.typeIdent m.canonicalName ∈ names) ∧
    (∀ x ∈ items, ∀ ty ∈ x.shape.types, ∀ n ∈ ty.names, n ∈ names) ∧
    ((b.members.map fun m => Code.typeIdent m.canonicalName).Nodup → names.Nodup ∧
      (∀ types, typesOfDocuments ds = .ok types →
        ∀ e ∈ types.canonicalNames.map ManifestEntry.ofCanonical, names.count e.typeName = 1) ∧
      ∀ m ∈ b.members.map (BundledParser.KeyedMember.ofMember items),
        names.count m.variant = 1) := by
  intro names
  obtain ⟨t, hrun, rfl⟩ := lowerBundle_eq_some h
  obtain ⟨hkeys, hfound⟩ := Bundle.members_of_ofDocuments hstems hb
  obtain ⟨hmembers, hclosed⟩ := lowerBundleWith_supplies (nodup_locations hkeys)
    (fun m hm => (hfound m hm).imp fun _ => localTarget?_reference) hrun
  refine ⟨hmembers, hclosed, fun hnames => ?_⟩
  obtain ⟨built, hinv, -⟩ := lowerBundleWith_built hnames hrun
  have hnodup : names.Nodup := (hinv.items.map (·.name)).nodup_iff.mpr hinv.ordered.nodup
  have hone {m : BundleMember} (hm : m ∈ b.members) :
      names.count (Code.typeIdent m.canonicalName) = 1 :=
    List.count_eq_one_of_mem hnodup (hmembers m hm)
  refine ⟨hnodup, fun types htypes e he => ?_, fun m hm => ?_⟩
  · obtain ⟨rfl, -⟩ := TypeSet.ofList_eq_ok.mp htypes
    obtain ⟨canonical, hcanonical, rfl⟩ := List.mem_map.mp he
    obtain ⟨descriptor, hdescriptor, rfl⟩ := List.mem_map.mp hcanonical
    obtain ⟨d, hd, rfl⟩ := List.mem_map.mp hdescriptor
    obtain ⟨a, ha, rfl⟩ := Bundle.ofDocuments_eq_ok hb
    have hmember : BundleMember.ofFile d.fileName ∈ a.bundle.members := by
      rw [Bundle.members_of_assemble ha]
      exact List.mem_map.mpr ⟨d, List.mem_mergeSort.mpr hd, rfl⟩
    rw [typeName_ofCanonical, canonicalName_ofFile]
    exact hone hmember
  · obtain ⟨member, hmember, rfl⟩ := List.mem_map.mp hm
    rw [variant_ofMember]
    exact hone hmember

/-- The files of lists of trees and of trees, each of which refers to the other. -/
def treeFiles : List SchemaDocument := [
  .ofPath ⟨"forest.schema.json"⟩ (.object [("type", .string "array"),
    ("items", refTo "tree.schema.json")]),
  .ofPath ⟨"tree.schema.json"⟩ (.object [("properties", .object [("left", refTo "#"),
    ("others", refTo "forest.schema.json")])])]

/-- The items for these files. -/
def treeItems : List Item := [
  ⟨"Forest", none, .alias (.array (.named "Tree"))⟩,
  ⟨"Tree", none, .record [
    ⟨"left", "left", .option (.boxed (.named "Tree")), false, none⟩,
    ⟨"others", "others", .option (.boxed (.named "Forest")), false, none⟩] false none⟩]

theorem item_names_complete_trees :
    (treeFiles.map fun d => schemaStem d.fileName).Nodup ∧
    ∃ b, Bundle.ofDocuments ⟨[], []⟩ treeFiles = .ok b ∧ lowerBundle b = some treeItems ∧
      (∀ x ∈ treeItems, ∀ ty ∈ x.shape.types, ∀ n ∈ ty.names, n ∈ treeItems.map (·.name)) ∧
      ∀ m ∈ b.members, (treeItems.map (·.name)).count (Code.typeIdent m.canonicalName) = 1 := by
  have hstems : (treeFiles.map fun d => schemaStem d.fileName).Nodup := by decide +kernel
  have hrun : (Bundle.ofDocuments ⟨[], []⟩ treeFiles).toOption.any (fun b =>
      decide (lowerBundle b = some treeItems ∧
        (b.members.map fun m => Code.typeIdent m.canonicalName).Nodup)) = true := by
    have hsorted : Bundle.sortDocuments treeFiles = treeFiles :=
      List.mergeSort_of_pairwise (by decide +kernel)
    unfold Bundle.ofDocuments Bundle.assemble
    rw [hsorted]
    decide +kernel
  obtain ⟨b, hsome, hb⟩ := (Option.any_eq_true _ _).mp hrun
  have hok := toOption_eq_some.mp hsome
  obtain ⟨hitems, hnames⟩ := of_decide_eq_true hb
  obtain ⟨-, hclosed, hdistinct⟩ := item_names_complete hstems hok hitems
  refine ⟨hstems, b, hok, hitems, hclosed, fun m hm => ?_⟩
  rw [← variant_ofMember treeItems]
  exact (hdistinct hnames).2.2 _ (List.mem_map_of_mem hm)

end Lowering

end SchemaBindings
