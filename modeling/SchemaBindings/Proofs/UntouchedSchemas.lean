import SchemaBindings.Proofs.BundleEnds
import SchemaBindings.Proofs.LeftReferences

/-! # Schemas that are left alone

Two walks decide where a reference stands: one that looks whether there is any,
and the expansion, which follows them. They agree on every position. If there is
none, nothing is followed, so no document is looked up or read, and the schema
comes out as it went in, with the members of every object in their order. If
there is one, it is followed, or one before it is. -/

namespace SchemaBindings.Dereference

open SchemaBindings.Bundle (kindOf)

variable {follow : Follow} {doc : Path} {v : Json} {kind : ChildKind} {reference : String}

/-- How a value, read as data, as named schemas or as a schema, is expanded. -/
def expandKind (follow : Follow) (doc : Path) : ChildKind → Json → CacheM Json
  | .data, v => pure v
  | .namedSchemas, .object named => do
    return .object (← runEntries (expandNamed follow doc named))
  | _, v => expandNode follow doc v

theorem expandMember_eq (e : String × Json) :
    expandMember follow doc e = expandKind follow doc (kindOf e.1 e.2) e.2 := by
  obtain ⟨key, v⟩ := e
  unfold expandMember kindOf
  dsimp only
  cases childKind key <;> cases v <;> rfl

/-! ## Nothing is followed -/

theorem runEntries_pure {act : String × Json → CacheM Json} {ms : Members}
    (hact : ∀ e ∈ ms, act e = pure e.2) :
    runEntries (ms.map fun e => (e.1, act e)) = pure ms := by
  induction ms with
  | nil => rfl
  | cons e ms ih =>
    have hothers := ih fun e he => hact e (List.mem_cons_of_mem _ he)
    rw [List.map_cons, runEntries, hact e (List.mem_cons_self ..), hothers, pure_bind, pure_bind]

theorem expandItems_pure {xs : List Json} (hnode : ∀ x ∈ xs, expandNode follow doc x = pure x) :
    expandItems follow doc xs = pure xs := by
  induction xs with
  | nil => rw [expandItems]
  | cons x xs ih =>
    have hothers := ih fun x hx => hnode x (List.mem_cons_of_mem _ hx)
    rw [expandItems, hnode x (List.mem_cons_self ..), hothers, pure_bind, pure_bind]

/-- A value without references is not changed, read as what it is under its keyword. -/
theorem expandKind_pure (h : kindContainsRef kind v = false)
    (hnode : containsRef v = false → expandNode follow doc v = pure v)
    (hnamed : ∀ named, v = .object named → ∀ x ∈ named,
      containsRef x.2 = false → expandNode follow doc x.2 = pure x.2) :
    expandKind follow doc kind v = pure v := by
  cases kind with
  | data => rfl
  | schema => exact hnode h
  | namedSchemas =>
    cases v with
    | object named =>
      have hentry (x : String × Json) (hx : x ∈ named) : expandNode follow doc x.2 = pure x.2 :=
        hnamed named rfl x hx (namedContainRef_eq_false.mp h x hx)
      show (do return Json.object (← runEntries (expandNamed follow doc named))) = _
      rw [expandNamed_eq_map, runEntries_pure hentry, pure_bind]
    | _ => exact hnode h

/-- The expansion of a schema without references is the schema, whatever following one would do. -/
theorem expandNode_pure (h : containsRef v = false) : expandNode follow doc v = pure v := by
  induction v using Json.byParts with
  | object ms ih =>
    rw [containsRef] at h
    have hnone := membersContainRef_eq_false.mp h
    have hmember : ∀ e ∈ ms, expandMember follow doc e = pure e.2 := by
      intro e he
      rw [expandMember_eq]
      exact expandKind_pure (hnone e he).2 (ih e he).1 (ih e he).2
    rw [expandNode.eq_def]
    dsimp only
    split
    · rename_i text hget
      exact absurd ⟨rfl, rfl⟩ (hnone _ (OrderedMap.mem_of_get? hget)).1
    · rw [expandMembers_eq_map, runEntries_pure hmember, pure_bind]
  | array xs ih =>
    rw [containsRef] at h
    have hitem (x : Json) (hx : x ∈ xs) : expandNode follow doc x = pure x :=
      ih x hx (itemsContainRef_eq_false.mp h x hx)
    rw [expandNode.eq_def]
    dsimp only
    rw [expandItems_pure hitem, pure_bind]
  | leaf v hm hi => exact expandNode_leaf hm hi

/-! ## One is followed -/

/-- A computation fails, whatever is known. -/
def Refuses {α : Type} (act : CacheM α) : Prop := ∀ c, ∃ e c', Stops act c e c'

section

variable {α β : Type} {act : CacheM α} {next : α → CacheM β}

theorem Refuses.first (h : Refuses act) : Refuses (act >>= next) := by
  intro c
  obtain ⟨e, c', hstop⟩ := h c
  exact ⟨e, c', hstop.first⟩

theorem Refuses.after (h : ∀ a, Refuses (next a)) : Refuses (act >>= next) := by
  intro c
  rcases runs_or_stops act c with ⟨a, u, hrun⟩ | ⟨e, u, hstop⟩
  · obtain ⟨e, c', hstop⟩ := h a u
    exact ⟨e, c', hstop.andThen hrun⟩
  · exact ⟨e, u, hstop.first⟩

end

theorem runEntries_refuses {act : String × Json → CacheM Json} {ms : Members} {e : String × Json}
    (he : e ∈ ms) (h : Refuses (act e)) : Refuses (runEntries (ms.map fun e => (e.1, act e))) := by
  induction ms with
  | nil => cases he
  | cons first ms ih =>
    rw [List.map_cons, runEntries]
    rcases List.mem_cons.mp he with rfl | he
    · exact h.first
    · exact .after fun _ => (ih he).first

theorem expandItems_refuses {xs : List Json} {x : Json} (hx : x ∈ xs)
    (h : Refuses (expandNode follow doc x)) : Refuses (expandItems follow doc xs) := by
  induction xs with
  | nil => cases hx
  | cons first xs ih =>
    rw [expandItems]
    rcases List.mem_cons.mp hx with rfl | hx
    · exact h.first
    · exact .after fun _ => (ih hx).first

/-- Where references cannot be followed, a value that has one cannot be expanded. -/
theorem expandKind_refuses (hfollow : ∀ reference, Refuses (follow reference doc))
    (h : Mentions kind v reference) : Refuses (expandKind follow doc kind v) := by
  induction h with
  | @here v reference href =>
    cases v with
    | object ms =>
      show Refuses (expandNode follow doc (.object ms))
      rw [expandNode.eq_def]
      dsimp only
      rw [refText?_eq_some.mp href]
      exact (hfollow reference).first
    | _ => cases href
  | @item xs x _ hx _ ih =>
    show Refuses (expandNode follow doc (.array xs))
    rw [expandNode.eq_def]
    exact (expandItems_refuses hx ih).first
  | @named ms name _ _ hv _ ih =>
    show Refuses (do return Json.object (← runEntries (expandNamed follow doc ms)))
    rw [expandNamed_eq_map]
    exact (runEntries_refuses hv ih).first
  | @member ms key _ _ hv _ ih =>
    show Refuses (expandNode follow doc (.object ms))
    rw [expandNode.eq_def]
    dsimp only
    split
    · rename_i text _
      exact (hfollow text).first
    · rw [expandMembers_eq_map]
      refine (runEntries_refuses hv ?_).first
      rw [expandMember_eq]
      exact ih

/-- The expansion leaves just those schemas alone that have no reference. -/
theorem expandNode_eq_pure_iff (hv : v.Keyed) :
    (∀ follow doc, expandNode follow doc v = pure v) ↔ containsRef v = false := by
  refine ⟨fun hpure => Bool.eq_false_iff.mpr fun hcontains => ?_, fun h _ _ => expandNode_pure h⟩
  obtain ⟨reference, hm⟩ := (containsRef_eq_true hv).mp hcontains
  let follow : Follow := fun text _ => throw (.exhausted text)
  have hrefuses : Refuses (expandKind follow ⟨""⟩ .schema v) :=
    expandKind_refuses (fun text c => ⟨.exhausted text, c, rfl⟩) hm
  obtain ⟨e, c', hstop⟩ := hrefuses .empty
  change Stops (expandNode follow ⟨""⟩ v) .empty e c' at hstop
  rw [hpure] at hstop
  exact Stops.not_pure hstop

/-! ## Whole schemas -/

/-- A schema without references is what it is dereferenced to, with the members of every object in
their order, on every disk and under every path. A document is looked up or read only where a
reference is followed; whatever following one would do, the run comes to the schema and leaves the
known documents as they are. -/
theorem dereferenceValue_unchanged (t : FileTree) (base : Path) (h : containsRef v = false) :
    dereferenceValue t v base = .ok v ∧
      ∀ (follow : Follow) (doc : Path) (c : DocumentCache), Runs (expandNode follow doc v) c v c := by
  have hruns (follow : Follow) (doc : Path) (c : DocumentCache) :
      Runs (expandNode follow doc v) c v c := by
    rw [expandNode_pure h]
    rfl
  exact ⟨expandFrom_eq_ok.mpr ⟨_, hruns _ _ _⟩, hruns⟩

/-- References that are data, a property that has the name of the keyword, named schemas that are
none, and a reference that is no text. -/
def withoutReferences : Json :=
  .object [("const", .object [("$ref", .string "#/nowhere")]),
    ("properties", .object [("$ref", .string "#/nowhere")]), ("$defs", .array [.string "$ref"]),
    ("$ref", .object [("examples", .array [.object [("$ref", .string "gone.json")]])])]

theorem dereferenceValue_unchanged_data :
    containsRef withoutReferences = false ∧
      dereferenceValue twoSchemas withoutReferences ⟨"a.json"⟩ = .ok withoutReferences :=
  ⟨by decide +kernel, (dereferenceValue_unchanged twoSchemas ⟨"a.json"⟩ (by decide +kernel)).1⟩

end SchemaBindings.Dereference
