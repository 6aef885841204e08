import SchemaBindings.Json.Equality
import SchemaBindings.Json.Pointer
import SchemaBindings.Proofs.OrderedMaps

/-! # The values inside a JSON value

`Json.nodes` lists a value and all values in it. `Json.Keyed` says of every
object among them that its keys are distinct, as the reader makes them, and
`Json.Proper` also of every array that an index can tell its items apart: what a
document in memory is by its construction. -/

namespace SchemaBindings

/-- The reference that a schema is. -/
def refText? : Json → Option String
  | .object ms =>
    match OrderedMap.get? ms "$ref" with
    | some (.string reference) => some reference
    | _ => none
  | _ => none

theorem refText?_eq_some {ms : Members} {reference : String} :
    refText? (.object ms) = some reference ↔ ms.get? "$ref" = some (.string reference) := by
  simp only [refText?]
  rcases OrderedMap.get? ms "$ref" with _ | v
  · simp
  · cases v <;> simp

namespace Json

mutual
/-- A value and the values in it. -/
def nodes : Json → List Json
  | .array xs => .array xs :: itemNodes xs
  | .object ms => .object ms :: memberNodes ms
  | v => [v]

/-- The values in some items. -/
def itemNodes : List Json → List Json
  | [] => []
  | x :: xs => nodes x ++ itemNodes xs

/-- The values in some members. -/
def memberNodes : List (String × Json) → List Json
  | [] => []
  | (_, v) :: ms => nodes v ++ memberNodes ms
end

mutual
theorem length_nodes : ∀ v : Json, v.nodes.length = v.size
  | .null | .bool _ | .number _ | .string _ => rfl
  | .array xs => by simp [nodes, size, length_itemNodes xs]
  | .object ms => by simp [nodes, size, length_memberNodes ms]

theorem length_itemNodes : ∀ xs : List Json, (itemNodes xs).length = sizeItems xs
  | [] => rfl
  | x :: xs => by simp [itemNodes, sizeItems, length_nodes x, length_itemNodes xs]

theorem length_memberNodes : ∀ ms : List (String × Json),
    (memberNodes ms).length = sizeMembers ms
  | [] => rfl
  | (_, v) :: ms => by simp [memberNodes, sizeMembers, length_nodes v, length_memberNodes ms]
end

theorem self_mem_nodes (v : Json) : v ∈ v.nodes := by
  cases v <;> simp [nodes]

theorem mem_itemNodes {xs : List Json} {w : Json} :
    w ∈ itemNodes xs ↔ ∃ x ∈ xs, w ∈ x.nodes := by
  induction xs with
  | nil => simp [itemNodes]
  | cons x xs ih => simp [itemNodes, ih]

theorem mem_memberNodes {ms : List (String × Json)} {w : Json} :
    w ∈ memberNodes ms ↔ ∃ e ∈ ms, w ∈ e.2.nodes := by
  induction ms with
  | nil => simp [memberNodes]
  | cons e ms ih =>
    obtain ⟨key, v⟩ := e
    simp [memberNodes, ih]

mutual
/-- What is in a value that is in another one is in that other one. -/
theorem mem_nodes_trans : ∀ (v : Json) {u w : Json}, u ∈ v.nodes → w ∈ u.nodes → w ∈ v.nodes
  | .null, _, _, hu, hw | .bool _, _, _, hu, hw | .number _, _, _, hu, hw
  | .string _, _, _, hu, hw => by
    simp only [nodes, List.mem_singleton] at hu
    exact hu ▸ hw
  | .array xs, _, _, hu, hw => by
    rcases List.mem_cons.mp hu with rfl | hu
    · exact hw
    · exact List.mem_cons_of_mem _ (mem_itemNodes_trans xs hu hw)
  | .object ms, _, _, hu, hw => by
    rcases List.mem_cons.mp hu with rfl | hu
    · exact hw
    · exact List.mem_cons_of_mem _ (mem_memberNodes_trans ms hu hw)

theorem mem_itemNodes_trans : ∀ (xs : List Json) {u w : Json},
    u ∈ itemNodes xs → w ∈ u.nodes → w ∈ itemNodes xs
  | [], _, _, hu, _ => by cases hu
  | x :: xs, _, _, hu, hw => by
    rcases List.mem_append.mp hu with hu | hu
    · exact List.mem_append_left _ (mem_nodes_trans x hu hw)
    · exact List.mem_append_right _ (mem_itemNodes_trans xs hu hw)

theorem mem_memberNodes_trans : ∀ (ms : List (String × Json)) {u w : Json},
    u ∈ memberNodes ms → w ∈ u.nodes → w ∈ memberNodes ms
  | [], _, _, hu, _ => by cases hu
  | (_, v) :: ms, _, _, hu, hw => by
    rcases List.mem_append.mp hu with hu | hu
    · exact List.mem_append_left _ (mem_nodes_trans v hu hw)
    · exact List.mem_append_right _ (mem_memberNodes_trans ms hu hw)
end

theorem item_mem_nodes {xs : List Json} {x : Json} (h : x ∈ xs) : x ∈ (Json.array xs).nodes :=
  List.mem_cons_of_mem _ (mem_itemNodes.mpr ⟨x, h, self_mem_nodes x⟩)

theorem member_mem_nodes {ms : List (String × Json)} {e : String × Json} (h : e ∈ ms) :
    e.2 ∈ (Json.object ms).nodes :=
  List.mem_cons_of_mem _ (mem_memberNodes.mpr ⟨e, h, self_mem_nodes e.2⟩)

theorem size_lt_of_item {xs : List Json} {x : Json} (h : x ∈ xs) : x.size < (Json.array xs).size := by
  have hle : x.size ≤ sizeItems xs := by
    induction xs with
    | nil => cases h
    | cons first xs ih =>
      rw [sizeItems]
      rcases List.mem_cons.mp h with rfl | h
      · omega
      · have := ih h
        omega
  exact Nat.lt_succ_of_le hle

theorem size_lt_of_member {ms : List (String × Json)} {e : String × Json} (h : e ∈ ms) :
    e.2.size < (Json.object ms).size := by
  have hle : e.2.size ≤ sizeMembers ms := by
    induction ms with
    | nil => cases h
    | cons first ms ih =>
      rw [sizeMembers]
      rcases List.mem_cons.mp h with rfl | h
      · omega
      · have := ih h
        omega
  exact Nat.lt_succ_of_le hle

/-- What holds of a value if it holds of the values right below it, and of those that an object right
below it names, holds of all values. -/
@[elab_as_elim]
theorem byParts {motive : Json → Prop} (v : Json)
    (object : ∀ ms : Members, (∀ e ∈ ms, motive e.2 ∧
      ∀ named : Members, e.2 = .object named → ∀ x ∈ named, motive x.2) → motive (.object ms))
    (array : ∀ xs : List Json, (∀ x ∈ xs, motive x) → motive (.array xs))
    (leaf : ∀ v : Json, v.members? = none → v.items? = none → motive v) : motive v := by
  induction hn : v.size using Nat.strongRecOn generalizing v with
  | _ size ih =>
    subst hn
    cases v with
    | object ms =>
      refine object ms fun e he => ⟨ih _ (size_lt_of_member he) e.2 rfl, fun named hnamed x hx => ?_⟩
      have hsize := size_lt_of_member he
      rw [hnamed] at hsize
      exact ih _ (Nat.lt_trans (size_lt_of_member hx) hsize) x.2 rfl
    | array xs => exact array xs fun x hx => ih _ (size_lt_of_item hx) x rfl
    | _ => exact leaf _ rfl rfl

theorem size_le_of_mem_nodes {v w : Json} (h : w ∈ v.nodes) : w.size ≤ v.size := by
  induction v using byParts with
  | array xs ih =>
    rcases List.mem_cons.mp h with rfl | h
    · exact Nat.le_refl _
    · obtain ⟨x, hx, hw⟩ := mem_itemNodes.mp h
      exact Nat.le_trans (ih x hx hw) (Nat.le_of_lt (size_lt_of_item hx))
  | object ms ih =>
    rcases List.mem_cons.mp h with rfl | h
    · exact Nat.le_refl _
    · obtain ⟨e, he, hw⟩ := mem_memberNodes.mp h
      exact Nat.le_trans ((ih e he).1 hw) (Nat.le_of_lt (size_lt_of_member he))
  | leaf v hm hi =>
    have hself : v.nodes = [v] := by
      cases v with
      | object ms => cases hm
      | array xs => cases hi
      | _ => rfl
    rw [hself, List.mem_singleton] at h
    exact Nat.le_of_eq (congrArg size h)

theorem step?_mem_nodes {v w : Json} {token : String} (h : Pointer.step? v token = some w) :
    w ∈ v.nodes := by
  cases v with
  | object ms => exact member_mem_nodes (OrderedMap.mem_of_get? h)
  | array xs =>
    obtain ⟨i, _, hi⟩ := Option.bind_eq_some_iff.mp h
    exact item_mem_nodes (List.mem_of_getElem? hi)
  | _ => cases h

/-- What a pointer leads to is in the value. -/
theorem at?_mem_nodes {v w : Json} {p : Pointer} (h : v.at? p = some w) : w ∈ v.nodes := by
  obtain ⟨tokens⟩ := p
  simp only [at?] at h
  induction tokens generalizing v with
  | nil =>
    cases h
    exact self_mem_nodes _
  | cons token tokens ih =>
    rw [List.foldlM_cons] at h
    obtain ⟨u, hu, hw⟩ := Option.bind_eq_some_iff.mp h
    exact mem_nodes_trans v (step?_mem_nodes hu) (ih hw)

/-! ## Equality -/

mutual
/-- Whether two values are equal, the order of members included. -/
def decEq : (v w : Json) → Decidable (v = w)
  | .null, .null => .isTrue rfl
  | .bool a, .bool b => decidable_of_iff (a = b) (by rw [Json.bool.injEq])
  | .number a, .number b => decidable_of_iff (a = b) (by rw [Json.number.injEq])
  | .string a, .string b => decidable_of_iff (a = b) (by rw [Json.string.injEq])
  | .array xs, .array ys =>
    have := decItemsEq xs ys
    decidable_of_iff (xs = ys) (by rw [Json.array.injEq])
  | .object ms, .object ns =>
    have := decMembersEq ms ns
    decidable_of_iff (ms = ns) (by rw [Json.object.injEq])
  | .null, .bool _ | .null, .number _ | .null, .string _ | .null, .array _ | .null, .object _
  | .bool _, .null | .bool _, .number _ | .bool _, .string _ | .bool _, .array _ | .bool _, .object _
  | .number _, .null | .number _, .bool _ | .number _, .string _ | .number _, .array _ | .number _, .object _
  | .string _, .null | .string _, .bool _ | .string _, .number _ | .string _, .array _ | .string _, .object _
  | .array _, .null | .array _, .bool _ | .array _, .number _ | .array _, .string _ | .array _, .object _
  | .object _, .null | .object _, .bool _ | .object _, .number _ | .object _, .string _ | .object _, .array _ => .isFalse nofun

/-- Whether items are equal one by one. -/
def decItemsEq : (xs ys : List Json) → Decidable (xs = ys)
  | [], [] => .isTrue rfl
  | [], _ :: _ | _ :: _, [] => .isFalse nofun
  | x :: xs, y :: ys =>
    have := decEq x y
    have := decItemsEq xs ys
    decidable_of_iff (x = y ∧ xs = ys) (by rw [List.cons.injEq])

/-- Whether members are equal one by one. -/
def decMembersEq : (ms ns : List (String × Json)) → Decidable (ms = ns)
  | [], [] => .isTrue rfl
  | [], _ :: _ | _ :: _, [] => .isFalse nofun
  | (key, v) :: ms, (key', w) :: ns =>
    have := decEq v w
    have := decMembersEq ms ns
    decidable_of_iff ((key = key' ∧ v = w) ∧ ms = ns) (by rw [List.cons.injEq, Prod.mk.injEq])
end

instance : DecidableEq Json := decEq

/-! ## Well-formed values -/

/-- Whether a value alone, without those in it, is what a document can hold. -/
def isTidy : Json → Bool
  | .object ms => decide (OrderedMap.names ms).Nodup
  | .array xs => decide (xs.length ≤ Pointer.indexLimit)
  | _ => true

/-- Every object has distinct keys, and every array's items can be told by an index. -/
def Proper (v : Json) : Prop := ∀ w ∈ v.nodes, w.isTidy = true

instance (v : Json) : Decidable v.Proper :=
  inferInstanceAs (Decidable (∀ w ∈ v.nodes, w.isTidy = true))

theorem Proper.of_mem {v w : Json} (h : v.Proper) (hw : w ∈ v.nodes) : w.Proper :=
  fun _ hu => h _ (mem_nodes_trans v hw hu)

theorem Proper.distinct {ms : List (String × Json)} (h : (Json.object ms).Proper) :
    OrderedMap.Distinct ms := by
  have hself := h _ (self_mem_nodes _)
  simp only [isTidy, decide_eq_true_eq] at hself
  exact hself

theorem Proper.remove {ms : Members} (h : (Json.object ms).Proper) (key : String) :
    (Json.object (ms.remove key)).Proper := by
  intro w hw
  rcases List.mem_cons.mp hw with rfl | hw
  · exact decide_eq_true (h.distinct.remove key)
  · obtain ⟨e, he, hwe⟩ := mem_memberNodes.mp hw
    have hmem := member_mem_nodes (OrderedMap.mem_of_mem_remove he)
    exact h w (mem_nodes_trans _ hmem hwe)

theorem Proper.length_le {xs : List Json} (h : (Json.array xs).Proper) :
    xs.length ≤ Pointer.indexLimit := by
  simpa only [isTidy, decide_eq_true_eq] using h _ (self_mem_nodes _)

/-- Whether a value alone, without those in it, has each key once. -/
def isKeyed : Json → Bool
  | .object ms => decide (OrderedMap.names ms).Nodup
  | _ => true

/-- Every object in a value has each key once. -/
def Keyed (v : Json) : Prop := ∀ w ∈ v.nodes, w.isKeyed = true

instance (v : Json) : Decidable v.Keyed :=
  inferInstanceAs (Decidable (∀ w ∈ v.nodes, w.isKeyed = true))

namespace Keyed

theorem of_mem {v w : Json} (h : v.Keyed) (hw : w ∈ v.nodes) : w.Keyed :=
  fun _ hu => h _ (mem_nodes_trans v hw hu)

theorem distinct {ms : Members} (h : (Json.object ms).Keyed) : ms.Distinct := by
  have hself := h _ (self_mem_nodes _)
  simp only [isKeyed, decide_eq_true_eq] at hself
  exact hself

theorem leaf {v : Json} (hm : v.members? = none) (hi : v.items? = none) : v.Keyed := by
  intro w hw
  cases v with
  | object ms => cases hm
  | array xs => cases hi
  | _ =>
    rw [List.mem_singleton.mp hw]
    rfl

theorem array {xs : List Json} (h : ∀ x ∈ xs, x.Keyed) : (Json.array xs).Keyed := by
  intro w hw
  rcases List.mem_cons.mp hw with rfl | hw
  · rfl
  · obtain ⟨x, hx, hwx⟩ := mem_itemNodes.mp hw
    exact h x hx w hwx

theorem object {ms : Members} (hd : ms.Distinct) (h : ∀ e ∈ ms, e.2.Keyed) :
    (Json.object ms).Keyed := by
  intro w hw
  rcases List.mem_cons.mp hw with rfl | hw
  · exact decide_eq_true hd
  · obtain ⟨e, he, hwe⟩ := mem_memberNodes.mp hw
    exact h e he w hwe

theorem item {xs : List Json} (h : (Json.array xs).Keyed) {x : Json} (hx : x ∈ xs) : x.Keyed :=
  h.of_mem (item_mem_nodes hx)

theorem member {ms : Members} (h : (Json.object ms).Keyed) {e : String × Json} (he : e ∈ ms) :
    e.2.Keyed :=
  h.of_mem (member_mem_nodes he)

theorem insert {ms : Members} (hd : ms.Distinct) (h : ∀ e ∈ ms, e.2.Keyed) {key : String} {v : Json}
    (hv : v.Keyed) : (ms.insert key v).Distinct ∧ ∀ e ∈ ms.insert key v, e.2.Keyed := by
  refine ⟨hd.insert key v, fun e he => ?_⟩
  rcases OrderedMap.mem_insert he with he | rfl
  · exact h e he
  · exact hv

end Keyed

theorem Proper.keyed {v : Json} (h : v.Proper) : v.Keyed := by
  intro w hw
  have htidy := h w hw
  cases w with
  | object ms => exact htidy
  | _ => rfl

end Json

end SchemaBindings
