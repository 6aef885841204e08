import SchemaBindings.Proofs.ItemConsistency

/-! # The places of items

An item takes its place before what is in it is compiled, and is put there
afterwards. In between places are only added, so it stands where the next place
was. For an object with properties that item is a struct with a field for each
of them. -/

namespace SchemaBindings.Lowering

variable {s t u : LowerState} {α β : Type}

/-- A step gives no place back. -/
structure Widens (act : LowerM α) : Prop where
  length_le : ∀ {s a t}, Yields act s a t → s.slots.length ≤ t.slots.length

namespace Widens

theorem pure (a : α) : Widens (Pure.pure a : LowerM α) := by
  refine ⟨fun {s b t} hrun => ?_⟩
  obtain ⟨-, rfl⟩ := hrun.pure
  exact Nat.le_refl _

theorem bind {act : LowerM α} {next : α → LowerM β} (h : Widens act)
    (hn : ∀ a, Widens (next a)) : Widens (act >>= next) := by
  refine ⟨fun {s b t} hrun => ?_⟩
  obtain ⟨a, u, hact, hrun⟩ := hrun.bind
  exact Nat.le_trans (h.length_le hact) ((hn a).length_le hrun)

/-- A step that leaves the places as they are. -/
theorem of_slots {act : LowerM α} (h : ∀ {s a t}, Yields act s a t → t.slots = s.slots) :
    Widens act := by
  refine ⟨fun hrun => ?_⟩
  rw [h hrun]

end Widens

/-- No schema that is compiled gives a place back. -/
def WidensAll (lower : Lower) : Prop := ∀ v name, Widens (lower v name)

theorem openSlot_widens : Widens openSlot := by
  refine ⟨fun hrun => ?_⟩
  obtain ⟨-, rfl⟩ := openSlot_yields hrun
  simp

theorem fill_widens (slot : Nat) (x : Item) : Widens (fill slot x) := by
  refine ⟨fun hrun => ?_⟩
  obtain rfl := fill_yields hrun
  simp

theorem claim_widens (name : ItemName) : Widens (claim name) := .of_slots claim_slots

section Parts

variable {lower : Lower}

theorem lowerNamed_widens (hl : WidensAll lower) (schema : Json) (n : String) :
    Widens (lowerNamed lower schema n) := by
  refine openSlot_widens.bind fun slot => (hl schema _).bind fun ty => ?_
  by_cases h : ty = .named n
  · simp only [h, ne_eq, not_true_eq_false, if_false]
    exact .pure _
  · simp only [h, ne_eq, not_false_eq_true, if_true]
    exact (fill_widens _ _).bind fun _ => .pure _

theorem lowerReference_widens (root : Option Json) (hl : WidensAll lower) (reference : String) :
    Widens (lowerReference root lower reference) := by
  cases ht : localTarget? root reference with
  | none =>
    have hrun : lowerReference root lower reference = pure .any := by
      simp only [lowerReference, ht]
    rw [hrun]
    exact .pure _
  | some found =>
    obtain ⟨p, target⟩ := found
    rw [lowerReference_eq ht]
    refine (Widens.of_slots nodeName_slots).bind fun n => ⟨fun hrun => ?_⟩
    rcases lowerTarget_yields hrun with ⟨-, -, rfl⟩ | ⟨-, -, rfl⟩ | ⟨-, -, v, hnamed, rfl⟩
    · exact Nat.le_refl _
    · exact Nat.le_refl _
    · have hle := (lowerNamed_widens hl target n).length_le hnamed
      exact hle

theorem lowerArms_widens {α : Type} {lowerArm : α → ItemName → LowerM Ty}
    (hl : ∀ x name, Widens (lowerArm x name)) (itemName : String) (number : Nat)
    (idents : Code.NameScope) (xs : List α) :
    Widens (lowerArms lowerArm itemName number idents xs) := by
  induction xs generalizing number idents with
  | nil => exact .pure _
  | cons x xs ih => exact (hl x _).bind fun ty => (ih _ _).bind fun arms => .pure _

theorem lowerAlternatives_widens {α : Type} {lowerArm : α → ItemName → LowerM Ty}
    (hl : ∀ x name, Widens (lowerArm x name)) (ms : Members) (name : ItemName) (xs : List α)
    (nullable : Bool) : Widens (lowerAlternatives lowerArm ms name xs nullable) := by
  match xs, nullable with
  | [], true => exact .pure _
  | [], false => exact .pure _
  | [x], false => exact hl x name
  | [x], true => exact (hl x name.inner).bind fun ty => .pure _
  | x :: y :: rest, nullable =>
    exact (claim_widens _).bind fun itemName => openSlot_widens.bind fun slot =>
      (lowerArms_widens hl _ _ _ _).bind fun arms => (fill_widens _ _).bind fun _ => .pure _

theorem lowerEnum_widens (values : List Json) (ms : Members) (name : ItemName) :
    Widens (lowerEnum values ms name) := by
  unfold lowerEnum
  split
  · exact .pure _
  · exact .pure _
  · exact (claim_widens _).bind fun itemName => openSlot_widens.bind fun slot =>
      (fill_widens _ _).bind fun _ => .pure _

theorem lowerFields_widens (hl : WidensAll lower) (itemName : String) (required : List String)
    (idents : Code.NameScope) (properties : Members) :
    Widens (lowerFields lower itemName required idents properties) := by
  induction properties generalizing idents with
  | nil => exact .pure _
  | cons e rest ih =>
    obtain ⟨property, schema⟩ := e
    exact (hl schema _).bind fun ty => (ih _).bind fun r => .pure _

theorem lowerFreeObject_widens (hl : WidensAll lower) (ms : Members) (name : ItemName) :
    Widens (lowerFreeObject lower ms name) := by
  unfold lowerFreeObject
  split
  · exact (hl _ _).bind fun ty => .pure _
  · exact .pure _

theorem lowerExtra_widens (hl : WidensAll lower) (ms : Members) (itemName : String)
    (idents : Code.NameScope) : Widens (lowerExtra lower ms itemName idents) := by
  unfold lowerExtra
  split
  · exact .pure _
  · exact (hl _ _).bind fun ty => .pure _
  · exact .pure _

theorem lowerObject_widens (hl : WidensAll lower) (ms : Members) (name : ItemName) :
    Widens (lowerObject lower ms name) := by
  unfold lowerObject
  split
  · exact (claim_widens _).bind fun itemName => openSlot_widens.bind fun slot =>
      (lowerFields_widens hl _ _ _ _).bind fun fields => (lowerExtra_widens hl _ _ _).bind
        fun extra => (fill_widens _ _).bind fun _ => .pure _
  · exact lowerFreeObject_widens hl ms name

theorem lowerArray_widens (hl : WidensAll lower) (ms : Members) (name : ItemName) :
    Widens (lowerArray lower ms name) := by
  unfold lowerArray
  split
  · exact (hl _ _).bind fun ty => .pure _
  · exact (hl _ _).bind fun ty => .pure _
  · exact .pure _

theorem lowerKind_widens (hl : WidensAll lower) (ms : Members) (kind : String) (name : ItemName) :
    Widens (lowerKind lower kind ms name) := by
  unfold lowerKind
  split
  case h_6 => exact lowerArray_widens hl ms name
  case h_7 => exact lowerObject_widens hl ms name
  all_goals exact .pure _

theorem lowerByType_widens (hl : WidensAll lower) (ms : Members) (name : ItemName) :
    Widens (lowerByType lower ms name) := by
  unfold lowerByType
  split
  · exact lowerKind_widens hl ms _ name
  · exact lowerAlternatives_widens (fun kind => lowerKind_widens hl ms kind) ms name _ _
  · split
    · exact lowerObject_widens hl ms name
    · split
      · exact lowerArray_widens hl ms name
      · exact .pure _

theorem lowerComposed_widens (root : Option Json) (hl : WidensAll lower) (ms : Members)
    (name : ItemName) : Widens (lowerComposed root lower ms name) := by
  unfold lowerComposed
  split
  · unfold lowerAllOf
    split
    · exact hl _ name
    · exact .pure _
  · split
    · exact lowerAlternatives_widens hl ms name _ _
    · exact lowerByType_widens hl ms name

theorem lowerMembers_widens (root : Option Json) (hl : WidensAll lower) (ms : Members)
    (name : ItemName) : Widens (lowerMembers root lower ms name) := by
  unfold lowerMembers
  split
  · exact lowerReference_widens root hl _
  · split
    · exact .pure _
    · split
      · exact lowerEnum_widens _ ms name
      · exact lowerComposed_widens root hl ms name

end Parts

theorem lower_widens (root : Option Json) (depth : Nat) : WidensAll (lower root depth) := by
  induction depth with
  | zero => exact fun v name => ⟨fun hrun => nomatch hrun⟩
  | succ depth ih =>
    intro v name
    cases v with
    | object ms => exact lowerMembers_widens root ih ms name
    | _ => exact .pure _

/-! ## Structs -/

/-- The struct for an object stands at the next place, under the name that it claims, with a field
for each property. -/
theorem lowerObject_record {lower : Lower} {ms properties : Members} {name : ItemName} {ty : Ty}
    (hl : WidensAll lower) (hps : ms.get? "properties" = some (.object properties))
    (hrun : Yields (lowerObject lower ms name) s ty t) :
    ∃ x fields denyUnknown extra idents, t.slots[s.slots.length]? = some (some x) ∧
      ty = .named x.name ∧ x.shape = .record fields denyUnknown extra ∧
        Declares (requiredNames ms) properties .empty idents fields := by
  simp only [lowerObject, hps] at hrun
  obtain ⟨n, s₁, hclaim, hrun⟩ := hrun.bind
  obtain ⟨slot, s₂, hopen, hrun⟩ := hrun.bind
  obtain ⟨⟨fields, idents⟩, u, hfields, hrun⟩ := hrun.bind
  obtain ⟨⟨denyUnknown, extra⟩, s₃, hextra, hrun⟩ := hrun.bind
  obtain ⟨_, hfill, rfl⟩ := hrun.some
  have hslots := claim_slots hclaim
  obtain ⟨rfl, rfl⟩ := openSlot_yields hopen
  have hu := (lowerFields_widens hl _ _ _ _).length_le hfields
  have hs₃ := (lowerExtra_widens hl _ _ _).length_le hextra
  obtain rfl := fill_yields hfill
  have hplace : s.slots.length < s₃.slots.length := by
    simp only [List.length_append, List.length_singleton, hslots] at hu
    omega
  refine ⟨⟨n, descriptionOf ms, .record fields denyUnknown extra⟩, fields, denyUnknown, extra,
    idents, ?_, rfl, rfl, lowerFields_declares hfields⟩
  simp [hslots, hplace]

end SchemaBindings.Lowering
