import SchemaBindings.Dereference
import SchemaBindings.Proofs.JsonNodes

/-! # Values that are the same but for the order of members

Two values agree if they are built alike and every object in one has the keys of
the object in the same place of the other. Such values are the same, and taking
root keywords off or putting keywords over a target keeps them so. -/

namespace SchemaBindings

/-- Two values differ in the order of members only. -/
inductive Json.Agrees : Json → Json → Prop where
  | leaf {v : Json} (hm : v.members? = none) (hi : v.items? = none) : Agrees v v
  | array {xs ys : List Json} (hlen : ys.length = xs.length)
      (h : ∀ (i : Nat) x y, xs[i]? = some x → ys[i]? = some y → Agrees x y) :
      Agrees (.array xs) (.array ys)
  | object {ms ns : Members} (hms : ms.Distinct) (hns : ns.Distinct)
      (hkeys : ∀ key, key ∈ ns.names ↔ key ∈ ms.names)
      (h : ∀ key v w, ms.get? key = some v → ns.get? key = some w → Agrees v w) :
      Agrees (.object ms) (.object ns)

namespace Json

theorem Agrees.refl {v : Json} (hv : v.Keyed) : Agrees v v := by
  induction v using byParts with
  | object ms ih =>
    refine .object hv.distinct hv.distinct (fun _ => Iff.rfl) fun key v w hv' hw => ?_
    cases hv'.symm.trans hw
    have hmem := OrderedMap.mem_of_get? hv'
    exact (ih _ hmem).1 (hv.of_mem (member_mem_nodes hmem))
  | array xs ih =>
    refine .array rfl fun i x y hx hy => ?_
    cases hx.symm.trans hy
    have hmem := List.mem_of_getElem? hx
    exact ih x hmem (hv.of_mem (item_mem_nodes hmem))
  | leaf v hm hi => exact .leaf hm hi

theorem same_leaf {v : Json} (hm : v.members? = none) (hi : v.items? = none) : v.same v = true := by
  cases v with
  | object ms => cases hm
  | array xs => cases hi
  | number n => cases n <;> simp [same, JsonNumber.same]
  | _ => simp [same]

theorem sameItems_of {xs ys : List Json} (hlen : ys.length = xs.length)
    (h : ∀ (i : Nat) x y, xs[i]? = some x → ys[i]? = some y → x.same y = true) :
    sameItems xs ys = true := by
  induction xs generalizing ys with
  | nil =>
    rw [List.length_eq_zero_iff.mp hlen]
    rfl
  | cons x xs ih =>
    cases ys with
    | nil => cases hlen
    | cons y ys =>
      rw [sameItems, h 0 x y rfl rfl, ih (Nat.succ.inj hlen) fun i => h (i + 1)]
      rfl

theorem sameMembers_of {ms ns : Members}
    (h : ∀ e ∈ ms, ∃ w, ns.get? e.1 = some w ∧ e.2.same w = true) : sameMembers ms ns = true := by
  induction ms with
  | nil => rfl
  | cons e ms ih =>
    obtain ⟨key, v⟩ := e
    obtain ⟨w, hw, hsame⟩ := h _ (List.mem_cons_self ..)
    dsimp only at hw hsame
    rw [sameMembers, hw, ih fun e he => h e (List.mem_cons_of_mem _ he)]
    dsimp only
    rw [hsame]
    rfl

/-- Values that agree are the same. -/
theorem Agrees.same {v w : Json} (h : Agrees v w) : v.same w = true := by
  induction h with
  | leaf hm hi => exact same_leaf hm hi
  | array hlen _ ih => exact sameItems_of hlen ih
  | @object ms ns hms hns hkeys _ ih =>
    have hlen : ms.length = ns.length := by
      have hperm := (List.perm_ext_iff_of_nodup hms hns).mpr fun key => (hkeys key).symm
      simpa [OrderedMap.names] using hperm.length_eq
    have hmembers : sameMembers ms ns = true := sameMembers_of fun e he => by
      obtain ⟨w, hw⟩ := OrderedMap.exists_get?_of_mem_names ((hkeys e.1).mpr (List.mem_map_of_mem he))
      exact ⟨w, hw, ih e.1 e.2 w (OrderedMap.get?_of_mem hms he) hw⟩
    rw [Json.same, hmembers, hlen]
    simp

theorem Agrees.members?_eq_none {v w : Json} (h : Agrees v w) (hv : v.members? = none) :
    w.members? = none := by
  cases h with
  | leaf => exact hv
  | array => rfl
  | object => cases hv

/-- Objects agree if under every key there is nothing in both, or values that agree. -/
theorem agrees_object_iff {ms ns : Members} : Agrees (.object ms) (.object ns) ↔
    ms.Distinct ∧ ns.Distinct ∧ ∀ key, Option.Rel Agrees (ms.get? key) (ns.get? key) := by
  constructor
  · intro h
    cases h with
    | leaf hm => cases hm
    | object hms hns hkeys h =>
      refine ⟨hms, hns, fun key => ?_⟩
      cases hv : ms.get? key with
      | none =>
        have hnone : ns.get? key = none := by
          rw [OrderedMap.get?_eq_none, hkeys, ← OrderedMap.get?_eq_none, hv]
        rw [hnone]
        exact .none
      | some v =>
        have hmem : key ∈ ns.names :=
          (hkeys key).mpr (List.mem_map_of_mem (OrderedMap.mem_of_get? hv))
        obtain ⟨w, hw⟩ := OrderedMap.exists_get?_of_mem_names hmem
        rw [hw]
        exact .some (h key v w hv hw)
  · rintro ⟨hms, hns, h⟩
    refine .object hms hns (fun key => ?_) fun key v w hv hw => ?_
    · rw [← not_iff_not, ← OrderedMap.get?_eq_none, ← OrderedMap.get?_eq_none]
      have hkey := h key
      revert hkey
      generalize ms.get? key = v, ns.get? key = w
      rintro (hvw | _) <;> simp
    · have hkey := h key
      rw [hv, hw] at hkey
      cases hkey with
      | some h => exact h

theorem Agrees.exists_object {ms : Members} {w : Json} (h : Agrees (.object ms) w) :
    ∃ ns : Members, w = .object ns := by
  cases h with
  | leaf hm => cases hm
  | object => exact ⟨_, rfl⟩

end Json

/-! ## Root keywords -/

/-- The members of a whole document without those that only mean something at its root. -/
def withoutRoot (ms : Members) : Members := rootKeywords.foldl OrderedMap.remove ms

theorem withoutRootKeywords_object (ms : Members) :
    withoutRootKeywords (.object ms) = .object (withoutRoot ms) := rfl

theorem withoutRootKeywords_of_members? {v : Json} (h : v.members? = none) :
    withoutRootKeywords v = v := by
  cases v with
  | object ms => cases h
  | _ => rfl

theorem OrderedMap.Distinct.withoutRoot {ms : Members} (h : ms.Distinct) :
    (withoutRoot ms).Distinct := (h.remove "$schema").remove "$id"

theorem get?_withoutRoot {ms : Members} (hd : ms.Distinct) (key : String) :
    (withoutRoot ms).get? key = if key ∈ rootKeywords then none else ms.get? key := by
  change OrderedMap.get? (OrderedMap.remove (OrderedMap.remove ms "$schema") "$id") key = _
  split
  · rename_i hkey
    have hname : key = "$schema" ∨ key = "$id" := by simpa [rootKeywords] using hkey
    rcases hname with rfl | rfl
    · rw [OrderedMap.get?_remove_of_ne (hd.remove _) (by decide), OrderedMap.get?_remove_self hd]
    · rw [OrderedMap.get?_remove_self (hd.remove _)]
  · rename_i hkey
    simp only [rootKeywords, List.mem_cons, List.not_mem_nil, or_false, not_or] at hkey
    exact (OrderedMap.get?_remove_of_ne (hd.remove _) hkey.2).trans
      (OrderedMap.get?_remove_of_ne hd hkey.1)

/-- No keyword of some members is one that only means something at the root of a document. -/
def Rootless (ms : Members) : Prop := ∀ key ∈ rootKeywords, key ∉ ms.names

theorem withoutRoot_of_rootless {ms : Members} (h : Rootless ms) : withoutRoot ms = ms := by
  change OrderedMap.remove (OrderedMap.remove ms "$schema") "$id" = ms
  rw [OrderedMap.remove_of_not_mem (h "$schema" (by decide)),
    OrderedMap.remove_of_not_mem (h "$id" (by decide))]

/-- A value, taken without root keywords if it is a whole document. -/
def stripped (whole : Bool) (v : Json) : Json := if whole then withoutRootKeywords v else v

/-- The members of an object, without root keywords if it is a whole document. -/
def strippedMembers (whole : Bool) (ms : Members) : Members := if whole then withoutRoot ms else ms

theorem stripped_object (whole : Bool) (ms : Members) :
    stripped whole (.object ms) = .object (strippedMembers whole ms) := by
  cases whole <;> rfl

theorem stripped_of_members? (whole : Bool) {v : Json} (h : v.members? = none) :
    stripped whole v = v := by
  cases whole
  · rfl
  · exact withoutRootKeywords_of_members? h

theorem OrderedMap.Distinct.stripped {ms : Members} (h : ms.Distinct) (whole : Bool) :
    (strippedMembers whole ms).Distinct := by
  cases whole
  · exact h
  · exact h.withoutRoot

theorem get?_stripped {ms : Members} (hd : ms.Distinct) (whole : Bool) (key : String) :
    (strippedMembers whole ms).get? key =
      if whole = true ∧ key ∈ rootKeywords then none else ms.get? key := by
  cases whole
  · rfl
  · exact (get?_withoutRoot hd key).trans (by simp)

namespace Json

theorem Agrees.withoutRootKeywords {v w : Json} (h : Agrees v w) :
    Agrees (withoutRootKeywords v) (withoutRootKeywords w) := by
  cases hm : v.members? with
  | none =>
    rwa [withoutRootKeywords_of_members? hm, withoutRootKeywords_of_members? (h.members?_eq_none hm)]
  | some ms =>
    cases v with
    | object ms =>
      obtain ⟨ns, rfl⟩ := h.exists_object
      obtain ⟨hms, hns, hrel⟩ := agrees_object_iff.mp h
      rw [withoutRootKeywords_object, withoutRootKeywords_object, agrees_object_iff]
      refine ⟨hms.withoutRoot, hns.withoutRoot, fun key => ?_⟩
      rw [get?_withoutRoot hms, get?_withoutRoot hns]
      split
      · exact .none
      · exact hrel key
    | _ => cases hm

end Json

/-! ## Keywords over a target -/

namespace Dereference

open Json (Agrees agrees_object_iff)

theorem overlay_object (ms siblings : Members) :
    overlay (.object ms) siblings = .object (ms.insertAll siblings) := by
  cases siblings <;> rfl

theorem rel_or {a b a' b' : Option Json} (h : Option.Rel Agrees a b)
    (h' : Option.Rel Agrees a' b') : Option.Rel Agrees (a.or a') (b.or b') := by
  cases h with
  | some h => exact .some h
  | none => exact h'

theorem overlay_of_members? {target : Json} (h : target.members? = none) {siblings : Members}
    (hne : siblings ≠ []) :
    overlay target siblings = .object [("allOf", .array [target, .object siblings])] := by
  cases siblings with
  | nil => exact absurd rfl hne
  | cons e siblings =>
    cases target with
    | object ms => cases h
    | _ => rfl

/-- A value and keywords beside it agree with such ones if both parts do. -/
theorem agrees_beside {target target' : Json} {siblings siblings' : Members}
    (h : Agrees target target') (hs : Agrees (.object siblings) (.object siblings')) :
    Agrees (.object [("allOf", .array [target, .object siblings])])
      (.object [("allOf", .array [target', .object siblings'])]) := by
  have hone (v : Json) : OrderedMap.Distinct [("allOf", v)] := List.nodup_singleton _
  refine agrees_object_iff.mpr ⟨hone _, hone _, fun key => ?_⟩
  rw [OrderedMap.get?_cons, OrderedMap.get?_cons]
  split
  · refine .some (.array rfl fun i x y hx hy => ?_)
    match i with
    | 0 =>
      cases hx
      cases hy
      exact h
    | 1 =>
      cases hx
      cases hy
      exact hs
    | i + 2 => cases hx
  · exact .none

theorem eq_nil_iff_of_agrees {ms ns : Members} (h : Agrees (.object ms) (.object ns)) :
    ms = [] ↔ ns = [] := by
  obtain ⟨-, -, hrel⟩ := agrees_object_iff.mp h
  cases ms with
  | nil =>
    cases ns with
    | nil => exact Iff.rfl
    | cons e ns =>
      have hkey := hrel e.1
      rw [OrderedMap.get?_cons e ns, if_pos rfl] at hkey
      cases hkey
  | cons e ms =>
    cases ns with
    | nil =>
      have hkey := hrel e.1
      rw [OrderedMap.get?_cons e ms, if_pos rfl] at hkey
      cases hkey
    | cons e' ns => simp

/-- Targets that agree, with keywords over them that agree, give values that agree. -/
theorem agrees_overlay {target target' : Json} {siblings siblings' : Members}
    (h : Agrees target target') (hs : Agrees (.object siblings) (.object siblings')) :
    Agrees (overlay target siblings) (overlay target' siblings') := by
  cases hm : target.members? with
  | none =>
    by_cases hnil : siblings = []
    · rw [hnil, (eq_nil_iff_of_agrees hs).mp hnil]
      exact h
    · rw [overlay_of_members? hm hnil, overlay_of_members? (h.members?_eq_none hm)
        ((eq_nil_iff_of_agrees hs).not.mp hnil)]
      exact agrees_beside h hs
  | some ms =>
    cases target with
    | object ms =>
      obtain ⟨ns, rfl⟩ := h.exists_object
      obtain ⟨hms, hns, hrel⟩ := agrees_object_iff.mp h
      obtain ⟨hsd, hsd', hsrel⟩ := agrees_object_iff.mp hs
      rw [overlay_object, overlay_object, agrees_object_iff]
      refine ⟨hms.insertAll _, hns.insertAll _, fun key => ?_⟩
      rw [OrderedMap.get?_insertAll hsd, OrderedMap.get?_insertAll hsd']
      exact rel_or (hsrel key) (hrel key)
    | _ => cases hm

/-- A target and the keywords beside a reference to it are such that root keywords may be taken off
before the keywords go over the target: an object has none, and none stand beside another value. -/
def Fits (target : Json) (siblings : Members) : Prop :=
  (∀ ms, target = .object ms → Rootless ms) ∧ (target.members? = none → Rootless siblings)

/-- If they fit, root keywords may be taken off before or after the keywords go over the target. -/
theorem agrees_overlay_withoutRoot {target target' : Json} {siblings siblings' : Members}
    (hfits : Fits target siblings) (h : Agrees target target')
    (hs : Agrees (.object (withoutRoot siblings)) (.object siblings')) (hd : siblings.Distinct) :
    Agrees (withoutRootKeywords (overlay target siblings)) (overlay target' siblings') := by
  cases hm : target.members? with
  | none =>
    rw [withoutRoot_of_rootless (hfits.2 hm)] at hs
    have hall : withoutRootKeywords (overlay target siblings) = overlay target siblings := by
      by_cases hnil : siblings = []
      · rw [hnil]
        exact withoutRootKeywords_of_members? hm
      · rw [overlay_of_members? hm hnil, withoutRootKeywords_object, withoutRoot_of_rootless]
        intro key hkey hmem
        have hname : key = "allOf" := by simpa [OrderedMap.names] using hmem
        rw [hname] at hkey
        exact absurd hkey (by decide)
    rw [hall]
    exact agrees_overlay h hs
  | some ms =>
    cases target with
    | object ms =>
      obtain ⟨ns, rfl⟩ := h.exists_object
      obtain ⟨hms, hns, hrel⟩ := agrees_object_iff.mp h
      obtain ⟨hsd, hsd', hsrel⟩ := agrees_object_iff.mp hs
      rw [overlay_object, overlay_object, withoutRootKeywords_object, agrees_object_iff]
      refine ⟨(hms.insertAll _).withoutRoot, hns.insertAll _, fun key => ?_⟩
      have hkey := hsrel key
      rw [get?_withoutRoot hd] at hkey
      rw [get?_withoutRoot (hms.insertAll _), OrderedMap.get?_insertAll hd,
        OrderedMap.get?_insertAll hsd']
      split
      · rename_i hroot
        rw [if_pos hroot] at hkey
        have hnone := OrderedMap.get?_eq_none.mpr (hfits.1 ms rfl key hroot)
        have hrest := rel_or hkey (hrel key)
        rw [hnone] at hrest
        exact hrest
      · rename_i hroot
        rw [if_neg hroot] at hkey
        exact rel_or hkey (hrel key)
    | _ => cases hm

/-- Root keywords may be taken off a whole document before or after the keywords of the schema that it is
go over the target of its reference, if they fit. -/
theorem agrees_overlay_stripped {whole : Bool} {target target' : Json} {siblings siblings' : Members}
    (hfits : whole = true → Fits target siblings) (h : Agrees target target')
    (hs : Agrees (.object (strippedMembers whole siblings)) (.object siblings'))
    (hd : siblings.Distinct) :
    Agrees (stripped whole (overlay target siblings)) (overlay target' siblings') := by
  cases whole
  · exact agrees_overlay h hs
  · exact agrees_overlay_withoutRoot (hfits rfl) h hs hd

end Dereference

end SchemaBindings
