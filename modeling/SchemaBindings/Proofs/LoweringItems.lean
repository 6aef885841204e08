import Mathlib.Logic.Relation
import SchemaBindings.Proofs.FreshNames
import SchemaBindings.Proofs.LoweringVisit

/-! # The items that a compilation finishes

A name is taken long before its item is finished: for the members of a bundle
before anything is compiled, for all others before what is in them. `Pending`
says of a name that it is taken and that nobody else will finish an item under
it. Items are finished one by one, and a type names without a box only items
that are finished. So an item holds only items that were finished before it,
and no item holds itself but through a box.

What the type of a schema is made around is followed on the way: `Stands` says
to which references it leads without an item in between. -/

namespace SchemaBindings

namespace Ty

/-- The names in a type. -/
def names : Ty → List String
  | .array t => t.names
  | .map t => t.names
  | .option t => t.names
  | .boxed t => t.names
  | .named n => [n]
  | _ => []

/-- The names in a type around which there is no box. -/
def bareNames : Ty → List String
  | .array t => t.bareNames
  | .map t => t.bareNames
  | .option t => t.bareNames
  | .named n => [n]
  | _ => []

@[simp] theorem names_optional (t : Ty) : t.optional.names = t.names := by
  cases t <;> rfl

@[simp] theorem bareNames_optional (t : Ty) : t.optional.bareNames = t.bareNames := by
  cases t <;> rfl

theorem mem_names_of_mem_bareNames {t : Ty} {n : String} (h : n ∈ t.bareNames) : n ∈ t.names := by
  induction t with
  | boxed t => cases h
  | array t ih => exact ih h
  | map t ih => exact ih h
  | option t ih => exact ih h
  | _ => exact h

end Ty

/-- The types in an item. -/
def ItemShape.types : ItemShape → List Ty
  | .record fields _ extra => fields.map (·.ty) ++ (extra.map (·.2)).toList
  | .enumeration _ => []
  | .union arms => arms.map (·.ty)
  | .alias ty => [ty]

/-- The names in an item around which there is no box. -/
def Item.bareNames (x : Item) : List String := x.shape.types.flatMap Ty.bareNames

/-- An item of some names another one with no box around. -/
def Contains (items : List Item) (x y : Item) : Prop :=
  x ∈ items ∧ y ∈ items ∧ y.name ∈ x.bareNames

/-- Items, the last one that was finished first. Each has a name of its own and names, with no box
around, only items that were finished before. -/
inductive Ordered : List Item → Prop where
  | nil : Ordered []
  | cons {x : Item} {built : List Item} (hnew : x.name ∉ built.map (·.name))
      (hbare : ∀ n ∈ x.bareNames, n ∈ built.map (·.name)) (h : Ordered built) :
      Ordered (x :: built)

namespace Ordered

variable {built : List Item} {x y : Item}

theorem bareNames_mem (h : Ordered built) (hx : x ∈ built) {n : String} (hn : n ∈ x.bareNames) :
    n ∈ built.map (·.name) := by
  induction h with
  | nil => cases hx
  | cons hnew hbare h ih =>
    rcases List.mem_cons.mp hx with rfl | hx
    · exact List.mem_cons_of_mem _ (hbare n hn)
    · exact List.mem_cons_of_mem _ (ih hx)

theorem nodup (h : Ordered built) : (built.map (·.name)).Nodup := by
  induction h with
  | nil => exact List.nodup_nil
  | cons hnew _ _ ih => exact List.nodup_cons.mpr ⟨hnew, ih⟩

/-- The name of an item tells which it is. -/
theorem eq_of_name (h : Ordered built) (hx : x ∈ built) (hy : y ∈ built) (hn : x.name = y.name) :
    x = y := List.inj_on_of_nodup_map h.nodup hx hy hn

/-- The item that was finished last is held by none, so a cycle would be one of the others. -/
theorem acyclic (h : Ordered built) (z : Item) : ¬ Relation.TransGen (Contains built) z z := by
  induction h generalizing z with
  | nil =>
    intro hz
    obtain ⟨y, -, hy⟩ := Relation.TransGen.tail'_iff.mp hz
    cases hy.1
  | @cons x built hnew hbare h ih =>
    have hheld {a b : Item} (hab : Contains (x :: built) a b) : b ∈ built := by
      obtain ⟨ha, hb, hn⟩ := hab
      have hname : b.name ∈ built.map (·.name) := by
        rcases List.mem_cons.mp ha with rfl | ha
        · exact hbare _ hn
        · exact h.bareNames_mem ha hn
      rcases List.mem_cons.mp hb with rfl | hb
      · exact absurd hname hnew
      · exact hb
    have hwithin {a b : Item} (ha : a ∈ built) (hab : Relation.TransGen (Contains (x :: built)) a b) :
        b ∈ built ∧ Relation.TransGen (Contains built) a b := by
      induction hab with
      | single hab => exact ⟨hheld hab, .single ⟨ha, hheld hab, hab.2.2⟩⟩
      | tail _ hbc ih => exact ⟨hheld hbc, ih.2.tail ⟨ih.1, hheld hbc, hbc.2.2⟩⟩
    intro hz
    obtain ⟨y, -, hy⟩ := Relation.TransGen.tail'_iff.mp hz
    exact ih z (hwithin (hheld hy) hz).2

end Ordered

/-- The name that is taken for an item already. -/
def ItemName.owned : ItemName → List String
  | .exact n => [n]
  | .hint _ => []

@[simp] theorem ItemName.owned_inner (name : ItemName) : name.inner.owned = [] := by
  cases name <;> rfl

namespace Lowering

/-! ## What a type is made around -/

/-- The element of a list that has no other. -/
def lone {α : Type} : List α → List α
  | [x] => [x]
  | _ => []

/-- The schema that the type of an object is made around, unless the object is an item. -/
def objectCore (ms : Members) : List Json :=
  match ms.get? "properties" with
  | some (.object _) => []
  | _ => extraParts ms

/-- The schema that the type of some kind of value is made around. -/
def kindCore (ms : Members) (kind : String) : List Json :=
  match kind with
  | "array" => itemParts ms
  | "object" => objectCore ms
  | _ => []

/-- The schema that the type of a schema is made around by its type. -/
def typeCore (ms : Members) : List Json :=
  match ms.get? "type" with
  | some (.string kind) => kindCore ms kind
  | some (.array kinds) => (lone (otherKinds (kinds.filterMap Json.text?))).flatMap (kindCore ms)
  | _ =>
    if ms.has "properties" || ms.has "additionalProperties" then objectCore ms
    else if ms.has "items" then itemParts ms
    else []

/-- The schema that the type of a schema is made around when it is no constant and no
enumeration. -/
def composedCore (root : Option Json) (ms : Members) : List Json :=
  match ms.get? "allOf" with
  | some (.array arms) => mergedParts root ms arms
  | _ =>
    match unionArms? ms with
    | some arms => lone (arms.filter (!isNullSchema ·))
    | none => typeCore ms

/-- The schema that the type of a schema other than a reference is made around. -/
def memberCore (root : Option Json) (ms : Members) : List Json :=
  match ms.get? "const" with
  | some _ => []
  | none =>
    match ms.get? "enum" with
    | some (.array _) => []
    | _ => composedCore root ms

/-- The schema that the type of a schema is made around, if there is one and no reference in
between. -/
def core (root : Option Json) (v : Json) : List Json :=
  match refText? v, v with
  | none, .object ms => memberCore root ms
  | _, _ => []

/-- The type of a schema is made around what a reference to a node becomes. -/
inductive Stands (root : Option Json) : Json → Pointer → Prop where
  | reference {v target : Json} {reference : String} {p : Pointer} (hr : refText? v = some reference)
      (ht : localTarget? root reference = some (p, target)) : Stands root v p
  | core {v w : Json} {p : Pointer} (hw : w ∈ core root v) (h : Stands root w p) : Stands root v p

/-- The type of one of some schemas is made around what a reference to a node becomes. -/
def AnyStands (root : Option Json) (vs : List Json) (p : Pointer) : Prop := ∃ v ∈ vs, Stands root v p

variable {root : Option Json}

theorem core_of_refText {v : Json} {reference : String} (hr : refText? v = some reference) :
    core root v = [] := by
  simp only [core, hr]

theorem stands_reference {v : Json} {reference : String} (hr : refText? v = some reference)
    {p : Pointer} : Stands root v p ↔ ∃ target, localTarget? root reference = some (p, target) := by
  constructor
  · intro h
    cases h with
    | reference hr' ht =>
      cases hr.symm.trans hr'
      exact ⟨_, ht⟩
    | core hw =>
      rw [core_of_refText hr] at hw
      cases hw
  · rintro ⟨target, ht⟩
    exact .reference hr ht

theorem stands_core {v : Json} (hr : refText? v = none) {p : Pointer} :
    Stands root v p ↔ AnyStands root (core root v) p := by
  constructor
  · intro h
    cases h with
    | reference hr' =>
      rw [hr] at hr'
      cases hr'
    | core hw h => exact ⟨_, hw, h⟩
  · rintro ⟨w, hw, h⟩
    exact .core hw h

/-! ## Invariants -/

/-- A node that a reference leads to. -/
def IsTarget (root : Option Json) (p : Pointer) (target : Json) : Prop :=
  ∃ reference, localTarget? root reference = some (p, target)

/-- The names in a type are those of items that are no aliases, and those of the nodes that it is
made around. -/
structure Told (built : List Item) (named : List (Pointer × String)) (ty : Ty)
    (Around : Pointer → Prop) : Prop where
  known : ∀ n ∈ ty.names, (∃ y ∈ built, y.name = n ∧ y.isAlias = false) ∨
    ∃ p, Around p ∧ named.lookup p = some n
  around : ∀ p, Around p → ∃ n, named.lookup p = some n ∧ n ∈ ty.names

/-- What the item of a node is: the type that the node was compiled to, if that is no item of its
own. -/
def Settled (root : Option Json) (built : List Item) (named : List (Pointer × String))
    (target : Json) (x : Item) : Prop :=
  (∃ ty, x.shape = .alias ty ∧ Told built named ty (Stands root target)) ∨
    x.isAlias = false ∧ ∀ p, ¬ Stands root target p

/-- What holds when some items are finished. -/
structure Inv (root : Option Json) (built : List Item) (s : LowerState) : Prop where
  ordered : Ordered built
  items : s.items.Perm built
  taken : ∀ x ∈ built, x.name ∈ s.scope.taken
  reserved : ∀ p n, s.named.lookup p = some n → n ∈ s.scope.taken
  apart : ∀ p q n, s.named.lookup p = some n → s.named.lookup q = some n → p = q
  begun : ∀ p, ∀ x ∈ built, s.named.lookup p = some x.name → p ∈ s.inProgress ∨ p ∈ s.done
  aliased : ∀ x ∈ built, x.isAlias = true → ∃ p target, s.named.lookup p = some x.name ∧
    IsTarget root p target
  settled : ∀ p ∈ s.done, ∀ target, IsTarget root p target →
    ∃ x ∈ built, s.named.lookup p = some x.name ∧ Settled root built s.named target x

/-- A name is taken, and nobody else will finish an item under it. -/
structure Pending (built : List Item) (s : LowerState) (n : String) : Prop where
  taken : n ∈ s.scope.taken
  unfinished : n ∉ built.map (·.name)
  opened : ∀ p, s.named.lookup p = some n → p ∈ s.inProgress

/-- What a step adds to. -/
structure Grows (built built' : List Item) (s t : LowerState) : Prop where
  kept : built ⊆ built'
  slots : s.slots <+: t.slots
  named : ∀ p n, s.named.lookup p = some n → t.named.lookup p = some n
  opened : t.inProgress = s.inProgress
  done : s.done ⊆ t.done

/-- What a step leaves that may finish the items of some names. -/
structure Leaves (root : Option Json) (own : List String) (built built' : List Item)
    (s t : LowerState) : Prop extends Grows built built' s t where
  inv : Inv root built' t
  pending : ∀ n, Pending built s n → n ∉ own → Pending built' t n

/-- What the compilation of a type leaves. It may finish the item of the name that it is given,
and then the type is that item. -/
structure Made (root : Option Json) (Around : Pointer → Prop) (own : List String)
    (built built' : List Item) (s t : LowerState) (ty : Ty) : Prop
    extends Leaves root own built built' s t where
  bare : ∀ n ∈ ty.bareNames, n ∈ built'.map (·.name)
  told : Told built' t.named ty Around
  owned : ∀ n ∈ own, (ty = .named n ∧ ∀ p, ¬ Around p) ∨ Pending built' t n

variable {own : List String} {built built' built'' : List Item} {s t u : LowerState}
  {Around : Pointer → Prop}

theorem Grows.refl (built : List Item) (s : LowerState) : Grows built built s s where
  kept _ hx := hx
  slots := List.prefix_refl _
  named _ _ h := h
  opened := rfl
  done _ hp := hp

theorem Grows.trans (h : Grows built built' s u) (h' : Grows built' built'' u t) :
    Grows built built'' s t where
  kept := List.Subset.trans h.kept h'.kept
  slots := h.slots.trans h'.slots
  named p n hp := h'.named p n (h.named p n hp)
  opened := h'.opened.trans h.opened
  done := List.Subset.trans h.done h'.done

theorem Grows.names (h : Grows built built' s t) {n : String} (hn : n ∈ built.map (·.name)) :
    n ∈ built'.map (·.name) := List.map_subset _ h.kept hn

theorem Leaves.refl (h : Inv root built s) : Leaves root own built built s s :=
  { Grows.refl built s with inv := h, pending := fun _ hn _ => hn }

theorem Leaves.trans (h : Leaves root own built built' s u)
    (h' : Leaves root own built' built'' u t) : Leaves root own built built'' s t :=
  { h.toGrows.trans h'.toGrows with
    inv := h'.inv
    pending := fun n hn ho => h'.pending n (h.pending n hn ho) ho }

theorem Leaves.mono {own' : List String} (hsub : own ⊆ own')
    (h : Leaves root own built built' s t) : Leaves root own' built built' s t :=
  { h.toGrows with
    inv := h.inv
    pending := fun n hn ho => h.pending n hn fun hmem => ho (hsub hmem) }

theorem Told.mono {named named' : List (Pointer × String)} {ty : Ty} (hb : built ⊆ built')
    (hn : ∀ p n, named.lookup p = some n → named'.lookup p = some n)
    (h : Told built named ty Around) : Told built' named' ty Around where
  known n hmem := (h.known n hmem).imp
    (fun ⟨y, hy, hname⟩ => ⟨y, hb hy, hname⟩) fun ⟨p, hp, hl⟩ => ⟨p, hp, hn p n hl⟩
  around p hp := by
    obtain ⟨n, hl, hmem⟩ := h.around p hp
    exact ⟨n, hn p n hl, hmem⟩

theorem Told.nothing {named : List (Pointer × String)} {ty : Ty} (hty : ty.names = [])
    (h : ∀ p, ¬ Around p) : Told built named ty Around where
  known n hn := by
    rw [hty] at hn
    cases hn
  around p hp := absurd hp (h p)

theorem Settled.mono {named named' : List (Pointer × String)} {target : Json} {x : Item}
    (hb : built ⊆ built') (hn : ∀ p n, named.lookup p = some n → named'.lookup p = some n)
    (h : Settled root built named target x) : Settled root built' named' target x :=
  h.imp_left fun ⟨ty, hx, hty⟩ => ⟨ty, hx, hty.mono hb hn⟩

/-! ## Steps -/

/-- A step comes to a result and a state. -/
def Yields {α : Type} (act : LowerM α) (s : LowerState) (a : α) (t : LowerState) : Prop :=
  act.run s = some (a, t)

namespace Yields

variable {α β : Type}

theorem bind {act : LowerM α} {next : α → LowerM β} {b : β} (h : Yields (act >>= next) s b t) :
    ∃ a u, Yields act s a u ∧ Yields (next a) u b t := by
  unfold Yields at h
  rw [StateT.run_bind] at h
  obtain ⟨⟨a, u⟩, ha, hb⟩ := Option.bind_eq_some_iff.mp h
  exact ⟨a, u, ha, hb⟩

theorem pure {a b : α} (h : Yields (Pure.pure a : LowerM α) s b t) : b = a ∧ t = s := by
  cases h
  exact ⟨rfl, rfl⟩

end Yields

theorem modify_yields {f : LowerState → LowerState} {a : Unit} (h : Yields (modify f) s a t) :
    t = f s := by
  cases h
  rfl

/-- A node that a reference leads to is boxed while it is open, is taken by its name once it is closed,
and is compiled otherwise. -/
theorem lowerTarget_yields {lower : Lower} {p : Pointer} {target : Json} {n : String}
    {s t : LowerState} {ty : Ty} (h : Yields (lowerTarget lower p target n) s ty t) :
    (p ∈ s.inProgress ∧ ty = .boxed (.named n) ∧ t = s) ∨
    (p ∈ s.done ∧ ty = .named n ∧ t = s) ∨
    p ∉ s.inProgress ∧ p ∉ s.done ∧ ∃ u,
      Yields (lowerNamed lower target n) { s with inProgress := p :: s.inProgress } ty u ∧
      t = { u with inProgress := u.inProgress.filter (· ≠ p), done := p :: u.done } := by
  by_cases ho : p ∈ s.inProgress
  · have heq : (lowerTarget lower p target n).run s = some (.boxed (.named n), s) := by
      simp [lowerTarget, StateT.run_bind, ho]
    cases heq.symm.trans h
    exact .inl ⟨ho, rfl, rfl⟩
  by_cases hd : p ∈ s.done
  · have heq : (lowerTarget lower p target n).run s = some (.named n, s) := by
      simp [lowerTarget, StateT.run_bind, ho, hd]
    cases heq.symm.trans h
    exact .inr (.inl ⟨hd, rfl, rfl⟩)
  have hrun : Yields (lowerNamed lower target n >>= fun ty => do
      modify fun s => { s with inProgress := s.inProgress.filter (· ≠ p), done := p :: s.done }
      return ty) { s with inProgress := p :: s.inProgress } ty t := by
    unfold Yields at h ⊢
    rw [← h]
    simp [lowerTarget, StateT.run_bind, ho, hd]
  obtain ⟨ty', u, hnamed, hrun⟩ := hrun.bind
  obtain ⟨_, v, hclose, hrun⟩ := hrun.bind
  obtain ⟨rfl, rfl⟩ := hrun.pure
  exact .inr (.inr ⟨ho, hd, u, hnamed, modify_yields hclose⟩)

theorem openSlot_yields {slot : Nat} (h : Yields openSlot s slot t) :
    slot = s.slots.length ∧ t = { s with slots := s.slots ++ [none] } := by
  cases h
  exact ⟨rfl, rfl⟩

theorem fill_yields {slot : Nat} {x : Item} {a : Unit} (h : Yields (fill slot x) s a t) :
    t = { s with slots := s.slots.set slot (some x) } := by
  cases h
  rfl

/-- Taking a place for an item changes nothing that matters. -/
theorem openSlot_leaves (own : List String) (h : Inv root built s) :
    Leaves root own built built s { s with slots := s.slots ++ [none] } where
  toGrows := { Grows.refl built s with slots := List.prefix_append .. }
  inv := { h with items := by simpa [LowerState.items] using h.items }
  pending _ hn _ := ⟨hn.taken, hn.unfinished, hn.opened⟩

/-- A name that is claimed is taken and pending. -/
theorem claimName_yields (own : List String) {candidate n : String} (h : Inv root built s)
    (hrun : Yields (claimName candidate) s n t) :
    Leaves root own built built s t ∧ Pending built t n ∧ n ∉ s.scope.taken ∧
      t = { s with scope := s.scope.reserve n } := by
  have hfree : n ∉ s.scope.taken := by
    cases hrun
    exact Code.NameScope.freshName_not_mem _ _
  obtain rfl : t = { s with scope := s.scope.reserve n } := by
    cases hrun
    rfl
  have htaken {m : String} (hm : m ∈ s.scope.taken) : m ∈ (s.scope.reserve n).taken :=
    List.mem_cons_of_mem _ hm
  refine ⟨⟨{ Grows.refl built s with }, ?_, ?_⟩, ⟨List.mem_cons_self .., ?_, ?_⟩, hfree, rfl⟩
  · exact { h with
      taken := fun x hx => htaken (h.taken x hx)
      reserved := fun p m hm => htaken (h.reserved p m hm) }
  · intro m hm _
    exact ⟨htaken hm.taken, hm.unfinished, hm.opened⟩
  · intro hn
    obtain ⟨x, hx, rfl⟩ := List.mem_map.mp hn
    exact hfree (h.taken x hx)
  · intro p hp
    exact absurd (h.reserved p n hp) hfree

theorem claim_yields (own : List String) {name : ItemName} {n : String} (h : Inv root built s)
    (hown : ∀ m ∈ name.owned, Pending built s m) (hrun : Yields (claim name) s n t) :
    Leaves root own built built s t ∧ Pending built t n ∧
      (n ∈ name.owned ∨ n ∉ s.scope.taken) := by
  cases name with
  | exact m =>
    obtain ⟨rfl, rfl⟩ := hrun.pure
    exact ⟨.refl h, hown n (List.mem_singleton_self n), .inl (List.mem_singleton_self n)⟩
  | hint m =>
    obtain ⟨hl, hp, hfree, -⟩ := claimName_yields own h hrun
    exact ⟨hl, hp, .inr hfree⟩

/-- Nobody waits for a name that was free. -/
theorem Leaves.of_claimed {name : ItemName} {n : String}
    (hfresh : n ∈ name.owned ∨ n ∉ s.scope.taken) (h : Leaves root [n] built built' s t) :
    Leaves root name.owned built built' s t :=
  { h.toGrows with
    inv := h.inv
    pending := fun m hm ho => h.pending m hm fun hmem => by
      obtain rfl := List.mem_singleton.mp hmem
      rcases hfresh with hfresh | hfresh
      · exact ho hfresh
      · exact hfresh hm.taken }

/-- The item that is finished comes before all others, and may hold each of them. -/
theorem Inv.finish {x : Item} {before after : List (Option Item)} (h : Inv root built u)
    (hp : Pending built u x.name) (hslots : u.slots = before ++ none :: after)
    (hbare : ∀ n ∈ x.bareNames, n ∈ built.map (·.name))
    (halias : x.isAlias = true →
      ∃ p target, u.named.lookup p = some x.name ∧ IsTarget root p target) :
    Inv root (x :: built) { u with slots := before ++ some x :: after } where
  ordered := .cons hp.unfinished hbare h.ordered
  items := by
    have hrest : (before.filterMap id ++ after.filterMap id).Perm built := by
      simpa [LowerState.items, hslots] using h.items
    simpa [LowerState.items] using List.perm_middle.trans (hrest.cons x)
  taken y hy := by
    rcases List.mem_cons.mp hy with rfl | hy
    · exact hp.taken
    · exact h.taken y hy
  reserved := h.reserved
  apart := h.apart
  begun p y hy hl := by
    rcases List.mem_cons.mp hy with rfl | hy
    · exact .inl (hp.opened p hl)
    · exact h.begun p y hy hl
  aliased y hy ha := by
    rcases List.mem_cons.mp hy with rfl | hy
    · exact halias ha
    · exact h.aliased y hy ha
  settled p hd target ht := by
    obtain ⟨y, hy, hl, hset⟩ := h.settled p hd target ht
    exact ⟨y, List.mem_cons_of_mem _ hy, hl, hset.mono (List.subset_cons_self ..) fun _ _ h => h⟩

/-- An item is put at the place that was taken for it, once what is in it is compiled. -/
theorem fill_leaves {x : Item}
    (h : Leaves root own built built' { s with slots := s.slots ++ [none] } u)
    (hx : x.name ∈ own) (hp : Pending built' u x.name)
    (hbare : ∀ n ∈ x.bareNames, n ∈ built'.map (·.name))
    (halias : x.isAlias = true →
      ∃ p target, u.named.lookup p = some x.name ∧ IsTarget root p target) :
    Leaves root own built (x :: built') s
      { u with slots := u.slots.set s.slots.length (some x) } := by
  obtain ⟨after, hafter⟩ := h.slots
  have hslots : u.slots = s.slots ++ none :: after := by simp [← hafter]
  have hset : u.slots.set s.slots.length (some x) = s.slots ++ some x :: after := by simp [hslots]
  rw [hset]
  refine ⟨⟨?_, List.prefix_append .., h.named, h.opened, h.done⟩,
    h.inv.finish hp hslots hbare halias, ?_⟩
  · exact List.Subset.trans h.kept (List.subset_cons_self ..)
  · intro n hn ho
    have hn' := h.pending n ⟨hn.taken, hn.unfinished, hn.opened⟩ ho
    have hne : n ≠ x.name := fun he => ho (he ▸ hx)
    exact ⟨hn'.taken, by simp [hne, hn'.unfinished], hn'.opened⟩

/-- A type that becomes an item: a name is claimed and a place taken, then the parts are compiled,
and then the item is put at its place. -/
theorem item_made {name : ItemName} {nullable : Bool} {n : String} {slot : Nat}
    {doc : Option String} {shape : ItemShape} {a : Unit} {s₁ s₂ s₃ : LowerState}
    (h : Inv root built s) (hown : ∀ m ∈ name.owned, Pending built s m)
    (hclaim : Yields (claim (payloadName name nullable)) s n s₁)
    (hopen : Yields openSlot s₁ slot s₂)
    (hbody : Inv root built s₂ → ∃ built', Leaves root [] built built' s₂ s₃ ∧
      ∀ ty ∈ shape.types, ∀ m ∈ ty.bareNames, m ∈ built'.map (·.name))
    (hfill : Yields (fill slot ⟨n, doc, shape⟩) s₃ a t)
    (hshape : Item.isAlias ⟨n, doc, shape⟩ = false) (hnone : ∀ p, ¬ Around p) :
    ∃ built', Made root Around name.owned built built' s t (itemType n nullable) := by
  have hpayload : (payloadName name nullable).owned ⊆ name.owned := by
    cases nullable with
    | false => exact fun m hm => hm
    | true => simp [payloadName]
  obtain ⟨hl, hpend, hfresh⟩ :=
    claim_yields [n] h (fun m hm => hown m (hpayload hm)) hclaim
  obtain ⟨rfl, rfl⟩ := openSlot_yields hopen
  obtain ⟨built', hbody, hbare⟩ := hbody (openSlot_leaves [] hl.inv).inv
  have hpend' := hbody.pending n ⟨hpend.taken, hpend.unfinished, hpend.opened⟩ List.not_mem_nil
  obtain rfl := fill_yields hfill
  have hleaves := (hl.trans (fill_leaves (x := ⟨n, doc, shape⟩) (hbody.mono (List.nil_subset _))
    (List.mem_singleton_self n) hpend' (fun m hm => by
      obtain ⟨ty, hty, hm⟩ := List.mem_flatMap.mp hm
      exact hbare ty hty m hm) fun ha => by simp [hshape] at ha)).of_claimed hfresh
  refine ⟨_, hleaves.mono hpayload, ?_, ?_, ?_⟩
  · intro m hm
    obtain rfl : m = n := by cases nullable <;> simpa [itemType, Ty.bareNames] using hm
    exact List.mem_cons_self ..
  · refine ⟨fun m hm => .inl ⟨_, List.mem_cons_self .., ?_, hshape⟩, fun p hp => absurd hp (hnone p)⟩
    cases nullable <;> simpa [itemType, Ty.names, eq_comm] using hm
  · intro m hm
    cases nullable with
    | false =>
      left
      cases name with
      | exact k =>
        obtain ⟨rfl, -⟩ := hclaim.pure
        exact ⟨by rw [List.mem_singleton.mp hm]; rfl, hnone⟩
      | hint k => cases hm
    | true => exact .inr (hleaves.pending m (hown m hm) (by simp [payloadName]))

end Lowering

end SchemaBindings
