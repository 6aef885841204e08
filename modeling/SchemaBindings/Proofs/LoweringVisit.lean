import SchemaBindings.Lowering
import SchemaBindings.Proofs.JsonNodes

/-! # Which schemas the compilation opens

Names, slots and items do not decide which schemas are compiled next: only the
open and the finished references do. `visit` is the compilation with all else
left out, and `lower_visits` says that it opens the same schemas in the same
order and runs out of depth exactly when the compilation does. -/

namespace SchemaBindings.Lowering

/-- The schema of undeclared properties, if there is one. -/
def extraParts (ms : Members) : List Json :=
  match ms.get? "additionalProperties" with
  | some (.object values) => [.object values]
  | _ => []

/-- The schemas that an object is made of. -/
def objectParts (ms : Members) : List Json :=
  match ms.get? "properties" with
  | some (.object properties) => properties.map (·.2) ++ extraParts ms
  | _ => extraParts ms

/-- The schema of an array's items. -/
def itemParts (ms : Members) : List Json :=
  match ms.get? "items" with
  | some (.object item) => [.object item]
  | some (.bool item) => [.bool item]
  | _ => []

/-- The schemas that a value of some kind is made of. -/
def kindParts (ms : Members) (kind : String) : List Json :=
  match kind with
  | "array" => itemParts ms
  | "object" => objectParts ms
  | _ => []

/-- The schemas that a schema is made of by its type. -/
def typeParts (ms : Members) : List Json :=
  match ms.get? "type" with
  | some (.string kind) => kindParts ms kind
  | some (.array kinds) => (otherKinds (kinds.filterMap Json.text?)).flatMap (kindParts ms)
  | _ =>
    if ms.has "properties" || ms.has "additionalProperties" then objectParts ms
    else if ms.has "items" then itemParts ms
    else []

/-- The one schema that the arms of an `allOf` make together, if they can be merged. -/
def mergedParts (root : Option Json) (ms : Members) (arms : List Json) : List Json :=
  match mergeAll (flatten root (mergeDepth + 1)) (ms.remove "allOf") arms with
  | some merged => [.object merged]
  | none => []

/-- The schemas that a schema is made of when it is no constant and no enumeration. -/
def composedParts (root : Option Json) (ms : Members) : List Json :=
  match ms.get? "allOf" with
  | some (.array arms) => mergedParts root ms arms
  | _ =>
    match unionArms? ms with
    | some arms => arms.filter (!isNullSchema ·)
    | none => typeParts ms

/-- The schemas that a schema other than a reference is made of. -/
def memberParts (root : Option Json) (ms : Members) : List Json :=
  match ms.get? "const" with
  | some _ => []
  | none =>
    match ms.get? "enum" with
    | some (.array _) => []
    | _ => composedParts root ms

/-- The schemas that are compiled as parts of a schema, with no reference in between. -/
def parts (root : Option Json) (v : Json) : List Json :=
  match refText? v, v with
  | none, .object ms => memberParts root ms
  | _, _ => []

/-- The references that are finished after a schema is compiled, given those that are open and
those that were finished before. -/
def visit (root : Option Json) : (depth : Nat) → (opened finished : List Pointer) → Json →
    Option (List Pointer)
  | 0, _, _, _ => none
  | depth + 1, opened, finished, v =>
    match refText? v with
    | none => (parts root v).foldlM (visit root depth opened) finished
    | some reference =>
      match localTarget? root reference with
      | none => some finished
      | some (p, target) =>
        if opened.contains p || finished.contains p then some finished
        else (visit root depth (p :: opened) finished target).map (p :: ·)

/-- How one schema changes the finished references. -/
abbrev Visit := (opened finished : List Pointer) → Json → Option (List Pointer)

/-- A step opens some schemas in order, ends exactly when each of them does, and leaves the open
references as they were. -/
structure Visits {α : Type} (go : Visit) (vs : List Json) (act : LowerM α) : Prop where
  none_of : ∀ {s : LowerState}, vs.foldlM (go s.inProgress) s.done = none → act.run s = none
  some_of : ∀ {s : LowerState} {finished : List Pointer},
    vs.foldlM (go s.inProgress) s.done = some finished →
      ∃ a t, act.run s = some (a, t) ∧ t.inProgress = s.inProgress ∧ t.done = finished

namespace Visits

variable {α β : Type} {go : Visit}

/-- A step that opens nothing. -/
theorem quiet {act : LowerM α}
    (h : ∀ s, ∃ a t, act.run s = some (a, t) ∧ t.inProgress = s.inProgress ∧ t.done = s.done) :
    Visits go [] act where
  none_of hn := by cases hn
  some_of {s finished} hf := by
    obtain ⟨a, t, hr, ho, hd⟩ := h s
    exact ⟨a, t, hr, ho, hd.trans (Option.some.inj hf)⟩

theorem pure (a : α) : Visits go [] (Pure.pure a : LowerM α) :=
  quiet fun s => ⟨a, s, rfl, rfl, rfl⟩

theorem bind {vs ws : List Json} {act : LowerM α} {next : α → LowerM β}
    (h : Visits go vs act) (hn : ∀ a, Visits go ws (next a)) :
    Visits go (vs ++ ws) (act >>= next) where
  none_of {s} hf := by
    rw [List.foldlM_append] at hf
    cases hv : vs.foldlM (go s.inProgress) s.done with
    | none => rw [StateT.run_bind, h.none_of hv]; rfl
    | some finished =>
      obtain ⟨a, t, hr, ho, hd⟩ := h.some_of hv
      rw [hv] at hf
      rw [StateT.run_bind, hr]
      exact (hn a).none_of (by rw [ho, hd]; exact hf)
  some_of {s finished} hf := by
    rw [List.foldlM_append] at hf
    obtain ⟨between, hv, hw⟩ := Option.bind_eq_some_iff.mp hf
    obtain ⟨a, t, hr, ho, hd⟩ := h.some_of hv
    obtain ⟨b, u, hr', ho', hd'⟩ := (hn a).some_of (s := t) (by rw [ho, hd]; exact hw)
    exact ⟨b, u, by rw [StateT.run_bind, hr]; exact hr', ho'.trans ho, hd'⟩

/-- A step that opens nothing may come first. -/
theorem after {ws : List Json} {act : LowerM α} {next : α → LowerM β}
    (h : Visits go [] act) (hn : ∀ a, Visits go ws (next a)) : Visits go ws (act >>= next) :=
  h.bind hn

/-- A step that opens nothing may come last. -/
theorem before {vs : List Json} {act : LowerM α} {next : α → LowerM β}
    (h : Visits go vs act) (hn : ∀ a, Visits go [] (next a)) : Visits go vs (act >>= next) := by
  simpa using h.bind hn

end Visits

/-! ## Steps that open no schema -/

section Quiet

variable {go : Visit}

theorem openSlot_visits : Visits go [] openSlot :=
  .quiet fun s => ⟨s.slots.length, { s with slots := s.slots ++ [none] }, rfl, rfl, rfl⟩

theorem fill_visits (slot : Nat) (item : Item) : Visits go [] (fill slot item) :=
  .quiet fun s => ⟨(), { s with slots := s.slots.set slot (some item) }, rfl, rfl, rfl⟩

theorem reserve_visits (name : String) : Visits go [] (reserve name) :=
  .quiet fun s => ⟨(), { s with scope := s.scope.reserve name }, rfl, rfl, rfl⟩

theorem claimName_visits (candidate : String) : Visits go [] (claimName candidate) :=
  .quiet fun s => ⟨_, { s with scope := (s.scope.claim candidate).2 }, rfl, rfl, rfl⟩

theorem claim_visits (name : ItemName) : Visits go [] (claim name) := by
  cases name with
  | exact n => exact .pure n
  | hint n => exact claimName_visits _

theorem nodeName_visits (p : Pointer) : Visits go [] (nodeName p) := by
  refine .quiet fun s => ?_
  cases h : s.named.lookup p with
  | some name =>
    exact ⟨name, s, by simp [nodeName, StateT.run_bind, h], rfl, rfl⟩
  | none =>
    let claimed := s.scope.claim (Code.typeIdent (nameOfPointer p))
    refine ⟨claimed.1, { s with scope := claimed.2, named := (p, claimed.1) :: s.named }, ?_,
      rfl, rfl⟩
    simp [nodeName, StateT.run_bind, h]
    rfl

end Quiet

/-! ## Steps that open the parts of a schema -/

section Parts

variable {go : Visit} {lower : Lower}

/-- Compiling a schema opens that schema. -/
def Opens (go : Visit) (lower : Lower) : Prop := ∀ v name, Visits go [v] (lower v name)

theorem lowerNamed_visits (hl : Opens go lower) (schema : Json) (name : String) :
    Visits go [schema] (lowerNamed lower schema name) := by
  refine openSlot_visits.after fun slot => (hl schema _).before fun ty => ?_
  by_cases h : ty = .named name
  · simp only [h, ne_eq, not_true_eq_false, if_false]
    exact .pure _
  · simp only [h, ne_eq, not_false_eq_true, if_true]
    exact (fill_visits _ _).after fun _ => .pure _

theorem lowerArms_visits {α : Type} {lowerArm : α → ItemName → LowerM Ty} {opened : α → List Json}
    (hl : ∀ x name, Visits go (opened x) (lowerArm x name)) (itemName : String) (number : Nat)
    (idents : Code.NameScope) (xs : List α) :
    Visits go (xs.flatMap opened) (lowerArms lowerArm itemName number idents xs) := by
  induction xs generalizing number idents with
  | nil => exact .pure _
  | cons x xs ih =>
    rw [List.flatMap_cons]
    exact (hl x _).bind fun ty => (ih _ _).before fun arms => .pure _

theorem lowerAlternatives_visits {α : Type} {lowerArm : α → ItemName → LowerM Ty}
    {opened : α → List Json} (hl : ∀ x name, Visits go (opened x) (lowerArm x name))
    (ms : Members) (name : ItemName) (alternatives : List α) (nullable : Bool) :
    Visits go (alternatives.flatMap opened)
      (lowerAlternatives lowerArm ms name alternatives nullable) := by
  match alternatives, nullable with
  | [], true => exact .pure _
  | [], false => exact .pure _
  | [x], false => simpa [lowerAlternatives] using hl x name
  | [x], true =>
    simpa [lowerAlternatives] using (hl x name.inner).before fun ty => .pure ty.optional
  | x :: y :: rest, nullable =>
    exact (claim_visits _).after fun itemName => openSlot_visits.after fun slot =>
      (lowerArms_visits hl _ _ _ _).before fun arms => (fill_visits _ _).after fun _ => .pure _

theorem lowerUnion_visits (hl : Opens go lower) (ms : Members) (arms : List Json)
    (name : ItemName) :
    Visits go (arms.filter (!isNullSchema ·)) (lowerUnion lower ms arms name) := by
  have h := lowerAlternatives_visits hl ms name (arms.filter (!isNullSchema ·))
    (arms.any isNullSchema)
  rwa [List.flatMap_singleton'] at h

theorem lowerEnum_visits (values : List Json) (ms : Members) (name : ItemName) :
    Visits go [] (lowerEnum values ms name) := by
  unfold lowerEnum
  split
  · exact .pure _
  · exact .pure _
  · exact (claim_visits _).after fun itemName => openSlot_visits.after fun slot =>
      (fill_visits _ _).after fun _ => .pure _

theorem lowerFields_visits (hl : Opens go lower) (itemName : String) (required : List String)
    (idents : Code.NameScope) (properties : Members) :
    Visits go (properties.map (·.2)) (lowerFields lower itemName required idents properties) := by
  induction properties generalizing idents with
  | nil => exact .pure _
  | cons e rest ih =>
    obtain ⟨property, schema⟩ := e
    change Visits go ([schema] ++ rest.map (·.2)) _
    exact (hl schema _).bind fun ty => (ih _).before fun r => .pure _

theorem lowerFreeObject_visits (hl : Opens go lower) (ms : Members) (name : ItemName) :
    Visits go (extraParts ms) (lowerFreeObject lower ms name) := by
  unfold lowerFreeObject extraParts
  rcases ms.get? "additionalProperties" with _ | v
  · exact .pure _
  · cases v with
    | object values => exact (hl _ _).before fun ty => .pure _
    | _ => exact .pure _

theorem lowerExtra_visits (hl : Opens go lower) (ms : Members) (itemName : String)
    (idents : Code.NameScope) :
    Visits go (extraParts ms) (lowerExtra lower ms itemName idents) := by
  unfold lowerExtra extraParts
  rcases ms.get? "additionalProperties" with _ | v
  · exact .pure _
  · cases v with
    | object values => exact (hl _ _).before fun ty => .pure _
    | bool b => cases b <;> exact .pure _
    | _ => exact .pure _

theorem lowerObject_visits (hl : Opens go lower) (ms : Members) (name : ItemName) :
    Visits go (objectParts ms) (lowerObject lower ms name) := by
  unfold lowerObject objectParts
  rcases ms.get? "properties" with _ | v
  · exact lowerFreeObject_visits hl ms name
  · cases v with
    | object properties =>
      exact (claim_visits _).after fun itemName => openSlot_visits.after fun slot =>
        (lowerFields_visits hl _ _ _ _).bind fun fields => (lowerExtra_visits hl _ _ _).before
          fun extra => (fill_visits _ _).after fun _ => .pure _
    | _ => exact lowerFreeObject_visits hl ms name

theorem lowerArray_visits (hl : Opens go lower) (ms : Members) (name : ItemName) :
    Visits go (itemParts ms) (lowerArray lower ms name) := by
  unfold lowerArray itemParts
  rcases ms.get? "items" with _ | v
  · exact .pure _
  · cases v with
    | object item => exact (hl _ _).before fun ty => .pure _
    | bool item => exact (hl _ _).before fun ty => .pure _
    | _ => exact .pure _

theorem lowerKind_visits (hl : Opens go lower) (ms : Members) (kind : String) (name : ItemName) :
    Visits go (kindParts ms kind) (lowerKind lower kind ms name) := by
  unfold lowerKind
  split
  case h_6 => exact lowerArray_visits hl ms name
  case h_7 => exact lowerObject_visits hl ms name
  case h_8 _ _ _ _ _ _ ha ho =>
    have hnone : kindParts ms kind = [] := by
      unfold kindParts
      split
      · exact absurd rfl ha
      · exact absurd rfl ho
      · rfl
    rw [hnone]
    exact .pure _
  all_goals exact .pure _

theorem lowerByType_visits (hl : Opens go lower) (ms : Members) (name : ItemName) :
    Visits go (typeParts ms) (lowerByType lower ms name) := by
  have hfree : Visits go
      (if ms.has "properties" || ms.has "additionalProperties" then objectParts ms
        else if ms.has "items" then itemParts ms else [])
      (if ms.has "properties" || ms.has "additionalProperties" then lowerObject lower ms name
        else if ms.has "items" then lowerArray lower ms name else pure .any) := by
    by_cases ho : (ms.has "properties" || ms.has "additionalProperties") = true
    · rw [if_pos ho, if_pos ho]
      exact lowerObject_visits hl ms name
    · rw [if_neg ho, if_neg ho]
      by_cases hi : ms.has "items" = true
      · rw [if_pos hi, if_pos hi]
        exact lowerArray_visits hl ms name
      · rw [if_neg hi, if_neg hi]
        exact .pure _
  unfold lowerByType typeParts
  rcases ms.get? "type" with _ | v
  · exact hfree
  · cases v with
    | string kind => exact lowerKind_visits hl ms kind name
    | array kinds =>
      exact lowerAlternatives_visits (fun kind name => lowerKind_visits hl ms kind name) _ _ _ _
    | _ => exact hfree

theorem lowerAllOf_visits (root : Option Json) (hl : Opens go lower) (ms : Members)
    (arms : List Json) (name : ItemName) :
    Visits go (mergedParts root ms arms) (lowerAllOf root lower ms arms name) := by
  unfold lowerAllOf mergedParts
  rcases mergeAll (flatten root (mergeDepth + 1)) (ms.remove "allOf") arms with _ | merged
  · exact .pure _
  · exact hl _ name

theorem lowerComposed_visits (root : Option Json) (hl : Opens go lower) (ms : Members)
    (name : ItemName) :
    Visits go (composedParts root ms) (lowerComposed root lower ms name) := by
  have hplain : Visits go
      (match unionArms? ms with
        | some arms => arms.filter (!isNullSchema ·)
        | none => typeParts ms)
      (match unionArms? ms with
        | some arms => lowerUnion lower ms arms name
        | none => lowerByType lower ms name) := by
    rcases unionArms? ms with _ | arms
    · exact lowerByType_visits hl ms name
    · exact lowerUnion_visits hl ms arms name
  unfold lowerComposed composedParts
  rcases ms.get? "allOf" with _ | v
  · exact hplain
  · cases v with
    | array arms => exact lowerAllOf_visits root hl ms arms name
    | _ => exact hplain

/-- A schema that is no reference is compiled by compiling its parts. -/
theorem lowerMembers_visits (root : Option Json) (hl : Opens go lower) (ms : Members)
    (name : ItemName) (hr : refText? (.object ms) = none) :
    Visits go (memberParts root ms) (lowerMembers root lower ms name) := by
  have hplain : Visits go (memberParts root ms)
      (match ms.get? "const" with
        | some v => pure (constantType v)
        | none =>
          match ms.get? "enum" with
          | some (.array values) => lowerEnum values ms name
          | _ => lowerComposed root lower ms name) := by
    unfold memberParts
    rcases ms.get? "const" with _ | c
    · rcases ms.get? "enum" with _ | v
      · exact lowerComposed_visits root hl ms name
      · cases v with
        | array values => exact lowerEnum_visits values ms name
        | _ => exact lowerComposed_visits root hl ms name
    · exact .pure _
  unfold lowerMembers
  split
  · rename_i reference h
    rw [refText?_eq_some.mpr h] at hr
    cases hr
  · exact hplain

end Parts

/-! ## The whole compilation -/

theorem visit_part {root : Option Json} {depth : Nat} {opened finished : List Pointer} {v : Json}
    (hv : refText? v = none) :
    visit root (depth + 1) opened finished v =
      (parts root v).foldlM (visit root depth opened) finished := by
  simp only [visit, hv]

theorem visit_nowhere {root : Option Json} {depth : Nat} {opened finished : List Pointer}
    {v : Json} {reference : String} (hv : refText? v = some reference)
    (ht : localTarget? root reference = none) :
    visit root (depth + 1) opened finished v = some finished := by
  simp only [visit, hv, ht]

theorem visit_known {root : Option Json} {depth : Nat} {opened finished : List Pointer}
    {v target : Json} {reference : String} {p : Pointer} (hv : refText? v = some reference)
    (ht : localTarget? root reference = some (p, target)) (hp : p ∈ opened ∨ p ∈ finished) :
    visit root (depth + 1) opened finished v = some finished := by
  have hc : (opened.contains p || finished.contains p) = true := by simpa using hp
  simp only [visit, hv, ht, hc, if_true]

theorem visit_target {root : Option Json} {depth : Nat} {opened finished : List Pointer}
    {v target : Json} {reference : String} {p : Pointer} (hv : refText? v = some reference)
    (ht : localTarget? root reference = some (p, target)) (ho : p ∉ opened) (hf : p ∉ finished) :
    visit root (depth + 1) opened finished v =
      (visit root depth (p :: opened) finished target).map (p :: ·) := by
  have hc : (opened.contains p || finished.contains p) = false := by simp [ho, hf]
  simp only [visit, hv, ht, hc, Bool.false_eq_true, if_false]

theorem filter_ne_of_not_mem {p : Pointer} {opened : List Pointer} (h : p ∉ opened) :
    (p :: opened).filter (· ≠ p) = opened := by
  rw [List.filter_cons_of_neg (by simp)]
  exact List.filter_eq_self.mpr fun q hq => by
    simpa using fun he : q = p => h (he ▸ hq)

/-- What is compiled for a reference, after its target has a name. -/
def lowerTarget (lower : Lower) (p : Pointer) (target : Json) (name : String) : LowerM Ty := do
  let s ← get
  if s.inProgress.contains p then return .boxed (.named name)
  if s.done.contains p then return .named name
  modify fun s => { s with inProgress := p :: s.inProgress }
  let ty ← lowerNamed lower target name
  modify fun s => { s with inProgress := s.inProgress.filter (· ≠ p), done := p :: s.done }
  return ty

theorem lowerReference_eq {root : Option Json} {lower : Lower} {reference : String}
    {p : Pointer} {target : Json} (ht : localTarget? root reference = some (p, target)) :
    lowerReference root lower reference =
      nodeName p >>= fun name => lowerTarget lower p target name := by
  simp only [lowerReference, ht]
  rfl

theorem lowerTarget_visits {root : Option Json} {lower : Lower} {depth : Nat}
    (hl : Opens (visit root depth) lower) {v target : Json} {reference : String} {p : Pointer}
    (hv : refText? v = some reference) (ht : localTarget? root reference = some (p, target))
    (name : String) :
    Visits (visit root (depth + 1)) [v] (lowerTarget lower p target name) := by
  have hn := lowerNamed_visits hl target name
  have hone : ∀ (opened finished : List Pointer),
      [v].foldlM (visit root (depth + 1) opened) finished =
        visit root (depth + 1) opened finished v := by
    intro opened finished
    simp
  refine ⟨fun {s} hf => ?_, fun {s finished} hf => ?_⟩
  · rw [hone] at hf
    by_cases hk : p ∈ s.inProgress ∨ p ∈ s.done
    · rw [visit_known hv ht hk] at hf
      cases hf
    · obtain ⟨ho, hd⟩ := not_or.mp hk
      rw [visit_target hv ht ho hd, Option.map_eq_none_iff] at hf
      have hr := hn.none_of (s := { s with inProgress := p :: s.inProgress })
        (by simpa using hf)
      simp [lowerTarget, StateT.run_bind, ho, hd, hr]
  · rw [hone] at hf
    by_cases ho : p ∈ s.inProgress
    · rw [visit_known hv ht (.inl ho)] at hf
      exact ⟨.boxed (.named name), s, by simp [lowerTarget, StateT.run_bind, ho], rfl,
        Option.some.inj hf⟩
    · by_cases hd : p ∈ s.done
      · rw [visit_known hv ht (.inr hd)] at hf
        exact ⟨.named name, s, by simp [lowerTarget, StateT.run_bind, ho, hd], rfl,
          Option.some.inj hf⟩
      · rw [visit_target hv ht ho hd] at hf
        obtain ⟨inner, hin, hfin⟩ := Option.map_eq_some_iff.mp hf
        obtain ⟨ty, t, hr, hto, htd⟩ := hn.some_of
          (s := { s with inProgress := p :: s.inProgress }) (by simpa using hin)
        refine ⟨ty, { t with inProgress := t.inProgress.filter (· ≠ p), done := p :: t.done },
          ?_, ?_, ?_⟩
        · simp [lowerTarget, StateT.run_bind, ho, hd, hr]
        · simp only [hto]
          exact filter_ne_of_not_mem ho
        · rw [← hfin, ← htd]

theorem lowerReference_visits {root : Option Json} {lower : Lower} {depth : Nat}
    (hl : Opens (visit root depth) lower) {v : Json} {reference : String}
    (hv : refText? v = some reference) :
    Visits (visit root (depth + 1)) [v] (lowerReference root lower reference) := by
  cases ht : localTarget? root reference with
  | none =>
    have hrun : lowerReference root lower reference = pure .any := by
      simp only [lowerReference, ht]
    rw [hrun]
    have hgo : ∀ (opened finished : List Pointer),
        [v].foldlM (visit root (depth + 1) opened) finished = some finished := by
      intro opened finished
      simp [visit_nowhere hv ht]
    refine ⟨fun {s} hf => ?_, fun {s finished} hf => ?_⟩
    · rw [hgo] at hf
      cases hf
    · rw [hgo] at hf
      exact ⟨.any, s, rfl, rfl, Option.some.inj hf⟩
  | some found =>
    obtain ⟨p, target⟩ := found
    rw [lowerReference_eq ht]
    exact (nodeName_visits p).after fun name => lowerTarget_visits hl hv ht name

/-- The compilation of a schema opens what `visit` opens and runs out of depth when `visit`
does. -/
theorem lower_visits (root : Option Json) (depth : Nat) :
    Opens (visit root depth) (lower root depth) := by
  induction depth with
  | zero => exact fun v name => ⟨fun _ => rfl, fun h => by cases h⟩
  | succ depth ih =>
    intro v name
    cases hv : refText? v with
    | some reference =>
      obtain ⟨ms, rfl⟩ : ∃ ms, v = .object ms := by
        cases v with
        | object ms => exact ⟨ms, rfl⟩
        | _ => cases hv
      have hrun : lower root (depth + 1) (.object ms) name =
          lowerReference root (lower root depth) reference := by
        have hg : OrderedMap.get? ms "$ref" = some (.string reference) := refText?_eq_some.mp hv
        simp only [lower, lowerMembers, hg]
      rw [hrun]
      exact lowerReference_visits ih hv
    | none =>
      have hgo : ∀ (opened finished : List Pointer),
          [v].foldlM (visit root (depth + 1) opened) finished =
            (parts root v).foldlM (visit root depth opened) finished := by
        intro opened finished
        simp [visit_part hv]
      have hp : Visits (visit root depth) (parts root v) (lower root (depth + 1) v name) := by
        cases v with
        | object ms =>
          have hparts : parts root (.object ms) = memberParts root ms := by
            simp only [parts, hv]
          rw [hparts]
          exact lowerMembers_visits root ih ms name hv
        | _ => exact .pure _
      exact ⟨fun hf => hp.none_of (by rwa [hgo] at hf), fun hf => hp.some_of (by rwa [hgo] at hf)⟩

end SchemaBindings.Lowering
