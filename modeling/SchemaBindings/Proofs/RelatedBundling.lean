import SchemaBindings.Proofs.DereferenceRuns

/-! # Related runs of the bundling

A run on a node is its runs on the references in it, put in a row. So two ways
to follow references that are related make runs that are related, for every
relation that is kept when computations are put in a row. -/

namespace SchemaBindings.Bundle

open Dereference (Chains runEntries_related)

variable {R : ∀ {α : Type}, BundleM α → BundleM α → Prop} {follow follow' : Follow} {doc : Path}

theorem relocateItems_related (hR : Chains BundleM R) {here : Pointer} {index : Nat} {xs : List Json}
    (hnode : ∀ x ∈ xs, ∀ here,
      R (relocateNode follow doc here x) (relocateNode follow' doc here x)) :
    R (relocateItems follow doc here index xs) (relocateItems follow' doc here index xs) := by
  induction xs generalizing index with
  | nil =>
    rw [relocateItems, relocateItems]
    exact hR.pure []
  | cons x xs ih =>
    rw [relocateItems, relocateItems]
    have hothers : R (relocateItems follow doc here (index + 1) xs)
        (relocateItems follow' doc here (index + 1) xs) :=
      ih fun x hx => hnode x (List.mem_cons_of_mem _ hx)
    refine hR.bind (hnode x (List.mem_cons_self ..) _) fun y => ?_
    exact hR.bind hothers fun ys => hR.pure (y :: ys)

/-- Two runs on a schema are related, wherever it is to stand, if following the references in it
is. -/
def NodeRelated (R : ∀ {α : Type}, BundleM α → BundleM α → Prop) (follow follow' : Follow) (doc : Path)
    (v : Json) : Prop :=
  (∀ reference, Mentions .schema v reference → ∀ spot,
    R (follow reference doc spot) (follow' reference doc spot)) →
      ∀ here, R (relocateNode follow doc here v) (relocateNode follow' doc here v)

theorem relocateMember_related (hR : Chains BundleM R) {here : Pointer} {e : String × Json}
    (hnode : NodeRelated R follow follow' doc e.2)
    (hnamed : ∀ named, e.2 = .object named → ∀ x ∈ named, NodeRelated R follow follow' doc x.2)
    (hfollow : ∀ reference, Mentions (kindOf e.1 e.2) e.2 reference → ∀ spot,
      R (follow reference doc spot) (follow' reference doc spot)) :
    R (relocateMember follow doc here e) (relocateMember follow' doc here e) := by
  obtain ⟨key, v⟩ := e
  unfold kindOf at hfollow
  unfold relocateMember
  dsimp only at hnode hnamed hfollow ⊢
  cases hkind : childKind key with
  | data => exact hR.pure v
  | schema =>
    rw [hkind] at hfollow
    exact hnode hfollow _
  | namedSchemas =>
    rw [hkind] at hfollow
    cases v with
    | object named =>
      dsimp only
      rw [relocateNamed_eq_map, relocateNamed_eq_map]
      refine hR.bind (runEntries_related hR fun x hx => ?_) fun ns => hR.pure (Json.object ns)
      exact hnamed named rfl x hx (fun reference hm => hfollow reference (.named hx hm)) _
    | _ => exact hnode hfollow _

theorem object_related (hR : Chains BundleM R) {ms : Members}
    (hnode : ∀ e ∈ ms, NodeRelated R follow follow' doc e.2)
    (hnamed : ∀ e ∈ ms, ∀ named, e.2 = .object named →
      ∀ x ∈ named, NodeRelated R follow follow' doc x.2) :
    NodeRelated R follow follow' doc (.object ms) := by
  intro hfollow here
  have hmember (place : Pointer) : ∀ e ∈ ms,
      R (relocateMember follow doc place e) (relocateMember follow' doc place e) := fun e he =>
    relocateMember_related hR (hnode e he) (hnamed e he)
      fun reference hm => hfollow reference (.member he hm)
  rw [relocateNode.eq_def, relocateNode.eq_def]
  dsimp only
  split
  · rename_i reference hget
    refine hR.bind (hfollow reference (.here (refText?_eq_some.mpr hget)) _) fun outcome => ?_
    cases outcome with
    | placed location =>
      dsimp only
      rw [relocateMembers_eq_map, relocateMembers_eq_map, substitute_map, substitute_map]
      refine hR.bind (runEntries_related hR fun e he => ?_) fun ns => hR.pure (Json.object ns)
      split
      · exact hR.pure _
      · exact hmember here e he
    | copied w =>
      dsimp only
      split
      · exact hR.pure w
      · rw [relocateMembers_eq_map, relocateMembers_eq_map, OrderedMap.remove_map,
          OrderedMap.remove_map]
        have hsiblings := runEntries_related hR fun e (he : e ∈ OrderedMap.remove ms "$ref") =>
          hmember (arm here 1) e (OrderedMap.mem_of_mem_remove he)
        exact hR.bind hsiblings fun ns => hR.pure _
  · rw [relocateMembers_eq_map, relocateMembers_eq_map]
    exact hR.bind (runEntries_related hR (hmember here)) fun ns => hR.pure (Json.object ns)

theorem relocateNode_related (hR : Chains BundleM R) (v : Json) :
    NodeRelated R follow follow' doc v := by
  induction v using Json.byParts with
  | object ms ih => exact object_related hR (fun e he => (ih e he).1) fun e he => (ih e he).2
  | array xs ih =>
    intro hfollow here
    rw [relocateNode.eq_def, relocateNode.eq_def]
    refine hR.bind (relocateItems_related hR fun x hx => ?_) fun ys => hR.pure (Json.array ys)
    exact ih x hx fun reference hm => hfollow reference (.item hx hm)
  | leaf v hm hi =>
    intro _ here
    rw [relocateNode_leaf hm hi, relocateNode_leaf hm hi]
    exact hR.pure v

end SchemaBindings.Bundle
