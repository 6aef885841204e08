import SchemaBindings.Proofs.BundleForms
import SchemaBindings.Proofs.PathSteps

/-! # The references in a schema

A reference counts where a schema may stand: in items, in named schemas and
under all keywords but those of data. There are no more of them than texts
under `$ref`, wherever these stand. Where one leads to does not depend on how
the path of its document is spelled. -/

namespace SchemaBindings

/-- A value, read as data, as named schemas or as a schema, has a reference where a schema may
stand. -/
inductive Mentions : ChildKind → Json → String → Prop where
  | here {v : Json} {reference : String} (h : refText? v = some reference) :
      Mentions .schema v reference
  | item {xs : List Json} {x : Json} {reference : String} (hx : x ∈ xs)
      (h : Mentions .schema x reference) : Mentions .schema (.array xs) reference
  | named {ms : Members} {name : String} {v : Json} {reference : String} (hv : (name, v) ∈ ms)
      (h : Mentions .schema v reference) : Mentions .namedSchemas (.object ms) reference
  | member {ms : Members} {key : String} {v : Json} {reference : String} (hv : (key, v) ∈ ms)
      (h : Mentions (Bundle.kindOf key v) v reference) : Mentions .schema (.object ms) reference

namespace Mentions

variable {kind : ChildKind} {v : Json} {reference : String}

theorem not_data : ¬ Mentions .data v reference := by
  intro h
  cases h

/-- A text has no reference in it, the text of a reference neither. -/
theorem not_text {text : String} : ¬ Mentions kind (.string text) reference := by
  intro h
  cases h with
  | here h => cases h

theorem not_leaf (hm : v.members? = none) (hi : v.items? = none) : ¬ Mentions .schema v reference := by
  intro h
  cases h with
  | here h =>
    cases v with
    | object ms => cases hm
    | _ => cases h
  | item => cases hi
  | member => cases hm

/-- What is mentioned is the reference of some value in there. -/
theorem exists_node (h : Mentions kind v reference) :
    ∃ w ∈ v.nodes, refText? w = some reference := by
  induction h with
  | here h => exact ⟨_, Json.self_mem_nodes _, h⟩
  | item hx _ ih =>
    obtain ⟨w, hw, h⟩ := ih
    exact ⟨w, Json.mem_nodes_trans _ (Json.item_mem_nodes hx) hw, h⟩
  | named hv _ ih =>
    obtain ⟨w, hw, h⟩ := ih
    exact ⟨w, Json.mem_nodes_trans _ (Json.member_mem_nodes hv) hw, h⟩
  | member hv _ ih =>
    obtain ⟨w, hw, h⟩ := ih
    exact ⟨w, Json.mem_nodes_trans _ (Json.member_mem_nodes hv) hw, h⟩

end Mentions

/-- In an object that has a reference, the others are below its other members. -/
theorem Mentions.member_cases {ms : Members} {reference other : String} (hd : ms.Distinct)
    (href : refText? (.object ms) = some reference) (h : Mentions .schema (.object ms) other) :
    other = reference ∨ ∃ e ∈ ms, e.1 ≠ "$ref" ∧ Mentions (Bundle.kindOf e.1 e.2) e.2 other := by
  cases h with
  | here h => exact Or.inl (Option.some.inj (h.symm.trans href))
  | @member _ key v _ hv h =>
    refine Or.inr ⟨_, hv, ?_, h⟩
    rintro rfl
    have htext := refText?_eq_some.mp href
    rw [OrderedMap.get?_of_mem hd hv] at htext
    cases htext
    exact Mentions.not_text h

/-- Root keywords are not where references are, and without them there are no new ones. -/
theorem Mentions.of_withoutRootKeywords {v : Json} (hv : v.Keyed) {reference : String}
    (h : Mentions .schema (withoutRootKeywords v) reference) : Mentions .schema v reference := by
  cases v with
  | object ms =>
    have hget : OrderedMap.get? (OrderedMap.remove (OrderedMap.remove ms "$schema") "$id") "$ref" =
        OrderedMap.get? ms "$ref" :=
      (OrderedMap.get?_remove_of_ne (hv.distinct.remove _) (by decide)).trans
        (OrderedMap.get?_remove_of_ne hv.distinct (by decide))
    cases h with
    | here href => exact .here (refText?_eq_some.mpr (hget ▸ refText?_eq_some.mp href))
    | member he hm =>
      exact .member (OrderedMap.mem_of_mem_remove (OrderedMap.mem_of_mem_remove he)) hm
  | _ => exact h

/-! ## Where they lead to -/

theorem canonical?_join_congr {t : FileTree} {doc doc' : Path} (h : doc.steps = doc'.steps)
    (file : String) : t.canonical? (doc.directory.join file) =
      t.canonical? (doc'.directory.join file) := by
  have hdir : doc.directory.steps = doc'.directory.steps := by
    rw [Path.directory_steps, Path.directory_steps, h]
  obtain ⟨hsteps, hidle⟩ := Path.join_congr hdir file
  exact FileTree.canonical?_congr hsteps hidle

theorem steps_join_congr {doc doc' : Path} (h : doc.steps = doc'.steps) (file : String) :
    (doc.directory.join file).steps = (doc'.directory.join file).steps := by
  refine (Path.join_congr ?_ file).1
  rw [Path.directory_steps, Path.directory_steps, h]

/-- A reference leads to one document from every spelling of its own one. -/
theorem Bundle.targetDocument_congr {t : FileTree} {doc doc' : Path} (h : doc.steps = doc'.steps)
    (target : RefTarget) :
    (targetDocument t doc target).steps = (targetDocument t doc' target).steps := by
  unfold targetDocument
  split
  · exact h
  · rename_i file _
    unfold documentKey
    rw [canonical?_join_congr h file]
    cases t.canonical? (doc'.directory.join file) with
    | none => exact steps_join_congr h file
    | some p => rfl

/-! ## How many there are -/

/-- The references of the values in a value. -/
def referenceTexts (v : Json) : List String := v.nodes.filterMap refText?

theorem Mentions.mem_referenceTexts {kind : ChildKind} {document v : Json} {reference : String}
    (hv : v ∈ document.nodes) (h : Mentions kind v reference) :
    reference ∈ referenceTexts document := by
  obtain ⟨w, hw, hr⟩ := h.exists_node
  exact List.mem_filterMap.mpr ⟨w, Json.mem_nodes_trans _ hv hw, hr⟩

theorem length_memberTexts_le {ms : Members}
    (h : ∀ e ∈ ms, (referenceTexts e.2).length ≤ referenceCount e.2) :
    (refText? (.object ms)).toList.length + ((Json.memberNodes ms).filterMap refText?).length ≤
      memberReferenceCount ms := by
  induction ms with
  | nil => exact Nat.le_refl _
  | cons e ms ih =>
    obtain ⟨key, v⟩ := e
    have hfirst := h (key, v) (List.mem_cons_self ..)
    have hrest := ih fun e he => h e (List.mem_cons_of_mem _ he)
    simp only [Json.memberNodes, List.filterMap_append, List.length_append, memberReferenceCount]
    simp only [referenceTexts] at hfirst
    by_cases hkey : key = "$ref"
    · subst hkey
      have hsome : (refText? (.object (("$ref", v) :: ms))).toList.length =
          if v.text?.isSome then 1 else 0 := by
        cases v <;> rfl
      rw [hsome]
      simp only [decide_true, Bool.true_and]
      omega
    · have hsame : refText? (.object ((key, v) :: ms)) = refText? (.object ms) := by
        simp only [refText?, OrderedMap.get?_cons, if_neg (Ne.symm hkey)]
      rw [hsame]
      simp only [hkey, decide_false, Bool.false_and, Bool.false_eq_true, if_false]
      omega

theorem length_itemTexts_le {xs : List Json}
    (h : ∀ x ∈ xs, (referenceTexts x).length ≤ referenceCount x) :
    ((Json.itemNodes xs).filterMap refText?).length ≤ itemReferenceCount xs := by
  induction xs with
  | nil => exact Nat.le_refl _
  | cons x xs ih =>
    have hfirst := h x (List.mem_cons_self ..)
    have hrest := ih fun y hy => h y (List.mem_cons_of_mem _ hy)
    simp only [referenceTexts] at hfirst
    simp only [Json.itemNodes, List.filterMap_append, List.length_append, itemReferenceCount]
    omega

/-- A value holds at least as many texts under `$ref` as there are references in it. -/
theorem length_referenceTexts_le (v : Json) : (referenceTexts v).length ≤ referenceCount v := by
  induction v using Json.byParts with
  | object ms ih =>
    have hmembers : (refText? (.object ms)).toList.length +
        ((Json.memberNodes ms).filterMap refText?).length ≤ memberReferenceCount ms :=
      length_memberTexts_le fun e he => (ih e he).1
    unfold referenceTexts referenceCount
    cases hr : refText? (.object ms) with
    | none => simpa [Json.nodes, hr] using hmembers
    | some reference =>
      simp [Json.nodes, hr] at hmembers ⊢
      omega
  | array xs ih =>
    have hitems : ((Json.itemNodes xs).filterMap refText?).length ≤ itemReferenceCount xs :=
      length_itemTexts_le ih
    unfold referenceTexts referenceCount
    rw [Json.nodes, List.filterMap_cons_none rfl]
    exact hitems
  | leaf v hm hi =>
    cases v with
    | object ms => cases hm
    | array xs => cases hi
    | _ => exact Nat.le_refl _

end SchemaBindings
