import SchemaBindings.Proofs.JsonAgreement
import SchemaBindings.Proofs.LoweringParts

/-! # Schemas that are merged

What a merged schema says under a keyword, told from what the two schemas say.
Of `properties` the first definition of each stands, `required` lists what
either lists, and of all else the first schema's word stands. Merging keeps
keys distinct, so whatever is compiled has distinct keys. -/

namespace SchemaBindings

theorem JsonNumber.same_trans {m n k : JsonNumber} (hmn : m.same n = true)
    (hnk : n.same k = true) : m.same k = true := by
  cases m <;> cases n <;> cases k <;> simp only [same] at hmn hnk ⊢ <;> grind

namespace Json

theorem sameItems_iff {xs ys : List Json} :
    sameItems xs ys = true ↔ List.Forall₂ (fun x y => x.same y = true) xs ys := by
  induction xs generalizing ys with
  | nil => cases ys <;> simp [sameItems]
  | cons x xs ih => cases ys <;> simp [sameItems, ih]

theorem sameMembers_iff {ms ns : Members} : sameMembers ms ns = true ↔
    ∀ e ∈ ms, ∃ w, ns.get? e.1 = some w ∧ e.2.same w = true := by
  induction ms with
  | nil => simp [sameMembers]
  | cons e ms ih =>
    obtain ⟨key, v⟩ := e
    rw [sameMembers, Bool.and_eq_true, ih, List.forall_mem_cons]
    cases OrderedMap.get? ns key <;> simp

theorem same_trans {u v w : Json} (huv : u.same v = true) (hvw : v.same w = true) :
    u.same w = true := by
  induction u using byParts generalizing v w with
  | object ms ih =>
    cases v with
    | object ns =>
      cases w with
      | object os =>
        simp only [same, Bool.and_eq_true, decide_eq_true_eq, sameMembers_iff] at huv hvw ⊢
        refine ⟨huv.1.trans hvw.1, ?_⟩
        intro e he
        obtain ⟨x, hx, hex⟩ := huv.2 e he
        obtain ⟨y, hy, hxy⟩ := hvw.2 _ (OrderedMap.mem_of_get? hx)
        exact ⟨y, hy, (ih e he).1 hex hxy⟩
      | _ => simp [same] at hvw
    | _ => simp [same] at huv
  | array xs ih =>
    cases v with
    | array ys =>
      cases w with
      | array zs =>
        simp only [same, sameItems_iff] at huv hvw ⊢
        induction huv generalizing zs with
        | nil => exact hvw
        | cons hxy _ ihs =>
          cases hvw with
          | cons hyz hrest =>
            refine .cons (ih _ (List.mem_cons_self ..) hxy hyz) ?_
            exact ihs (fun x hx => ih x (List.mem_cons_of_mem _ hx)) _ hrest
      | _ => simp [same] at hvw
    | _ => simp [same] at huv
  | leaf u hm hi =>
    cases u with
    | object ms => cases hm
    | array xs => cases hi
    | number m =>
      cases v with
      | number n =>
        cases w with
        | number k =>
          simp only [same] at huv hvw ⊢
          exact JsonNumber.same_trans huv hvw
        | _ => simp [same] at hvw
      | _ => simp [same] at huv
    | _ => cases v <;> cases w <;> simp_all [same]

theorem same_refl {v : Json} (hv : v.Keyed) : v.same v = true := (Agrees.refl hv).same

end Json

namespace Lowering

open OrderedMap (Distinct)

variable {target source ms merged : Members} {key : String} {root : Option Json}

/-! ## One keyword -/

theorem get?_mergeMember_self (e : String × Json) :
    (mergeMember target e).get? e.1 = (target.get? e.1).merge (mergeValue e.1) (some e.2) := by
  unfold mergeMember
  cases h : OrderedMap.get? target e.1 with
  | none =>
    dsimp only
    rw [← OrderedMap.insert_of_not_mem e.2 (OrderedMap.get?_eq_none.mp h)]
    exact OrderedMap.get?_insert_self
  | some v => exact OrderedMap.get?_insert_self

/-- Under each keyword the values are merged. -/
theorem get?_merge (hs : Distinct source) (key : String) : (mergeSchema target source).get? key =
    (target.get? key).merge (mergeValue key) (source.get? key) := by
  induction source generalizing target with
  | nil =>
    change target.get? key = (target.get? key).merge (mergeValue key) none
    simp
  | cons e source ih =>
    have hrest : mergeSchema target (e :: source) = mergeSchema (mergeMember target e) source := rfl
    rw [hrest, OrderedMap.get?_cons]
    by_cases hkey : key = e.1
    · subst hkey
      have hnone : OrderedMap.get? source e.1 = none :=
        OrderedMap.get?_eq_none.mpr (List.nodup_cons.mp hs).1
      rw [get?_mergeSchema hnone, get?_mergeMember_self, if_pos rfl]
    · rw [ih hs.tail, get?_mergeMember_of_ne (Ne.symm hkey), if_neg hkey]

theorem get?_addProperty (e : String × Json) (key : String) :
    (addProperty ms e).get? key =
      (ms.get? key).or (if key = e.1 then some e.2 else none) := by
  unfold addProperty OrderedMap.has
  cases h : OrderedMap.get? ms e.1 with
  | some v =>
    simp only [Option.isSome_some, if_true]
    split
    · rename_i hkey
      rw [hkey, h, Option.some_or]
    · rw [Option.or_none]
  | none =>
    simp only [Option.isSome_none, Bool.false_eq_true, if_false]
    split
    · rename_i hkey
      rw [hkey, h, ← OrderedMap.insert_of_not_mem e.2 (OrderedMap.get?_eq_none.mp h)]
      exact OrderedMap.get?_insert_self
    · rename_i hkey
      rw [OrderedMap.get?_append_of_ne (Ne.symm hkey), Option.or_none]

/-- Of each property the first definition stands. -/
theorem get?_addProperties (new : Members) (key : String) :
    (new.foldl addProperty ms).get? key = (ms.get? key).or (new.get? key) := by
  induction new generalizing ms with
  | nil =>
    change ms.get? key = (ms.get? key).or none
    rw [Option.or_none]
  | cons e new ih =>
    rw [List.foldl_cons, ih, get?_addProperty, Option.or_assoc, OrderedMap.get?_cons]
    split <;> rfl

theorem mem_addRequired {xs : List Json} {x y : Json} (h : y ∈ addRequired xs x) :
    y ∈ xs ∨ y = x := by
  unfold addRequired at h
  split at h
  · exact .inl h
  · simpa using h

/-- A required name comes from one of the two lists. -/
theorem mem_of_mem_addRequireds {xs new : List Json} {y : Json}
    (h : y ∈ new.foldl addRequired xs) : y ∈ xs ∨ y ∈ new := by
  induction new generalizing xs with
  | nil => exact .inl h
  | cons x new ih =>
    rcases ih h with h | h
    · rcases mem_addRequired h with h | rfl
      · exact .inl h
      · exact .inr (List.mem_cons_self ..)
    · exact .inr (List.mem_cons_of_mem _ h)

theorem subset_addRequireds (xs new : List Json) : xs ⊆ new.foldl addRequired xs := by
  induction new generalizing xs with
  | nil => exact List.Subset.refl _
  | cons x new ih =>
    refine List.Subset.trans (fun y hy => ?_) (ih (addRequired xs x))
    unfold addRequired
    split
    · exact hy
    · exact List.mem_append_left _ hy

/-- What the second list requires is required, by the word of one of the lists. -/
theorem exists_same_addRequireds {xs new : List Json} {x : Json} (hx : x ∈ new) (hk : x.Keyed) :
    ∃ y ∈ new.foldl addRequired xs, y.same x = true := by
  induction new generalizing xs with
  | nil => cases hx
  | cons z new ih =>
    rcases List.mem_cons.mp hx with rfl | hx
    · rw [List.foldl_cons]
      by_cases hany : xs.any (·.same x) = true
      · obtain ⟨y, hy, hsame⟩ := List.any_eq_true.mp hany
        refine ⟨y, subset_addRequireds _ _ ?_, hsame⟩
        rwa [addRequired, if_pos hany]
      · refine ⟨x, subset_addRequireds _ _ ?_, Json.same_refl hk⟩
        rw [addRequired, if_neg hany]
        simp
    · exact ih hx

/-! ## Keys stay distinct -/

theorem addProperties_keyed {new : Members} (hms : (Json.object ms).Keyed)
    (hnew : (Json.object new).Keyed) : (Json.object (new.foldl addProperty ms)).Keyed := by
  refine .object ?_ fun e he => ?_
  · have hd := hms.distinct
    clear hms hnew
    induction new generalizing ms with
    | nil => exact hd
    | cons e new ih =>
      refine ih ?_
      unfold addProperty OrderedMap.has
      cases h : OrderedMap.get? ms e.1 with
      | some v => exact hd
      | none =>
        simp only [Option.isSome_none, Bool.false_eq_true, if_false]
        rw [← OrderedMap.insert_of_not_mem e.2 (OrderedMap.get?_eq_none.mp h)]
        exact hd.insert _ _
  · exact (mem_foldl_addProperty he).elim (fun he => hms.member he) fun he => hnew.member he

theorem mergeValue_keyed {v w : Json} (hv : v.Keyed) (hw : w.Keyed) :
    (mergeValue key v w).Keyed := by
  unfold mergeValue
  split
  · split
    · exact addProperties_keyed hv hw
    · exact hv
  · split
    · exact .array fun x hx =>
        (mem_of_mem_addRequireds hx).elim (fun hx => hv.item hx) fun hx => hw.item hx
    · exact hv
  · exact hv

theorem keyed_iff_each : (Json.object ms).Keyed ↔ Each (fun _ v => v.Keyed) ms :=
  ⟨fun h => ⟨h.distinct, fun _ he => h.member he⟩, fun h => .object h.distinct h.all⟩

theorem merges_keyed : Merges fun _ v => v.Keyed := fun hv hw => mergeValue_keyed hv hw

theorem mergeSchema_keyed (ht : (Json.object target).Keyed) (hs : (Json.object source).Keyed) :
    (Json.object (mergeSchema target source)).Keyed :=
  keyed_iff_each.mpr (mergeSchema_each merges_keyed (keyed_iff_each.mp ht) (keyed_iff_each.mp hs))

theorem remove_keyed (h : (Json.object ms).Keyed) (key : String) :
    (Json.object (ms.remove key)).Keyed := keyed_iff_each.mpr ((keyed_iff_each.mp h).remove key)

theorem mergeAll_keyed {schemaOf : Json → Option Members} {xs : List Json}
    (ht : (Json.object target).Keyed)
    (hx : ∀ x ∈ xs, ∀ flat, schemaOf x = some flat → (Json.object flat).Keyed)
    (h : mergeAll schemaOf target xs = some merged) : (Json.object merged).Keyed :=
  keyed_iff_each.mpr (mergeAll_each merges_keyed (keyed_iff_each.mp ht)
    (fun x hmem flat hflat => keyed_iff_each.mp (hx x hmem flat hflat)) h)

/-- The document that references lead into has distinct keys. -/
def RootKeyed (root : Option Json) : Prop := ∀ document, root = some document → document.Keyed

theorem localTarget?_keyed (hroot : RootKeyed root) {reference : String} {found : Pointer × Json}
    (h : localTarget? root reference = some found) : found.2.Keyed := by
  unfold localTarget? at h
  obtain ⟨document, hd, h⟩ := Option.bind_eq_some_iff.mp h
  obtain ⟨p, -, h⟩ := Option.bind_eq_some_iff.mp h
  obtain ⟨target, ht, h⟩ := Option.bind_eq_some_iff.mp h
  cases h
  exact (hroot document hd).of_mem (Json.at?_mem_nodes ht)

theorem areArms_keyed (hroot : RootKeyed root) : AreArms root Json.Keyed Json.Keyed where
  kept h := h
  arms hv harms hx := (hv.member (OrderedMap.mem_of_get? harms)).item hx
  target _ _ hf := localTarget?_keyed hroot hf

theorem flatten_keyed (hroot : RootKeyed root) {depth : Nat} {arm : Json} {flat : Members}
    (harm : arm.Keyed) (h : flatten root depth arm = some flat) : (Json.object flat).Keyed :=
  keyed_iff_each.mpr
    (flatten_each merges_keyed (areArms_keyed hroot) keyed_iff_each.mp depth harm h).1

end Lowering

end SchemaBindings
