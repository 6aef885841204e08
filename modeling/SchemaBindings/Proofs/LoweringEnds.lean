import Mathlib.Data.List.Perm.Subperm
import Mathlib.Logic.Relation
import Mathlib.Tactic.Linarith
import SchemaBindings.Proofs.LoweringParts

/-! # When the compilation of a bundle ends

A reference is opened once, so references alone cannot keep the compilation
going. Merging the arms of an `allOf` copies what their references lead to, and
no reference is opened for the copy: a schema whose copy holds the same `allOf`
again is compiled for ever. That is the only way not to end: the compilation of
a bundle ends exactly if no schema that it comes to holds itself, and it ends
for every bundle in which no arm of an `allOf` is a reference. -/

namespace SchemaBindings.Lowering

variable {root : Option Json} {doc : Json}

/-- The second schema is compiled as a part of the first. -/
def Holds (root : Option Json) (v w : Json) : Prop := w ∈ parts root v

/-- From a schema the compilation goes on to its parts and to what it refers to. -/
inductive Leads (root : Option Json) : Json → Json → Prop where
  | part {v w : Json} (h : Holds root v w) : Leads root v w
  | target {v w : Json} {reference : String} {p : Pointer} (hr : refText? v = some reference)
      (ht : localTarget? root reference = some (p, w)) : Leads root v w

/-- The compilation of a schema comes to one that holds itself, with no reference in between. -/
def Loops (root : Option Json) (start : Json) : Prop :=
  ∃ v, Relation.ReflTransGen (Leads root) start v ∧ Relation.TransGen (Holds root) v v

theorem Loops.of_leads {v w : Json} (h : Leads root v w) (hw : Loops root w) : Loops root v := by
  obtain ⟨u, hu, hloop⟩ := hw
  exact ⟨u, hu.head h, hloop⟩

theorem foldlM_isSome {α β : Type} {f : β → α → Option β} {xs : List α}
    (h : ∀ x ∈ xs, ∀ b, (f b x).isSome) (b : β) : (xs.foldlM f b).isSome := by
  induction xs generalizing b with
  | nil => rfl
  | cons x xs ih =>
    obtain ⟨next, hn⟩ := Option.isSome_iff_exists.mp (h x (List.mem_cons_self ..) b)
    rw [List.foldlM_cons, hn]
    exact ih (fun y hy => h y (List.mem_cons_of_mem _ hy)) next

/-! ## How deep a compilation that ends can go -/

/-- The schemas of a document that are no references. -/
def plainNodes (doc : Json) : List Json := doc.nodes.filter fun v => (refText? v).isNone

/-- Where the references of a document lead. -/
def targets (doc : Json) : List Pointer :=
  doc.nodes.filterMap fun v => (refText? v).bind localPointer?

theorem length_targets_add_plainNodes (doc : Json) :
    (targets doc).length + (plainNodes doc).length ≤ doc.size := by
  rw [← Json.length_nodes]
  unfold targets plainNodes
  induction doc.nodes with
  | nil => rfl
  | cons v vs ih =>
    rcases hv : refText? v with _ | reference
    · simp only [List.filterMap_cons, List.filter_cons, hv, Option.bind_none, Option.isNone_none,
        if_true, List.length_cons]
      omega
    · rcases hp : localPointer? reference with _ | p <;>
        simp only [List.filterMap_cons, List.filter_cons, hv, hp, Option.bind_some,
          Option.isNone_some, Bool.false_eq_true, if_false, List.length_cons] <;>
        omega

theorem mem_targets {v target : Json} {reference : String} {p : Pointer} (hv : v ∈ doc.nodes)
    (hr : refText? v = some reference) (ht : localTarget? root reference = some (p, target)) :
    p ∈ targets doc := by
  refine List.mem_filterMap.mpr ⟨v, hv, ?_⟩
  unfold localTarget? at ht
  obtain ⟨_, _, ht⟩ := Option.bind_eq_some_iff.mp ht
  obtain ⟨q, hq, ht⟩ := Option.bind_eq_some_iff.mp ht
  obtain ⟨_, _, ht⟩ := Option.bind_eq_some_iff.mp ht
  cases ht
  rw [hr]
  exact hq

theorem mem_plainNodes {v : Json} (hv : v ∈ doc.nodes) (hr : refText? v = none) :
    v ∈ plainNodes doc :=
  List.mem_filter.mpr ⟨hv, by rw [hr]; rfl⟩

/-- How deep the compilation of a schema of the document goes at most, when `k` references can
still be opened and `m` schemas are not open. A schema with `allOf` takes two steps, its own and
the one of what its arms make together. -/
def reach (doc : Json) (k m : Nat) : Nat := k * (2 * (plainNodes doc).length + 1) + 2 * m + 1

/-- A moment of a compilation that ends: the references in `opened` are open, and since the last
of them was opened the schemas in `path`. All references lead to one of `ends`. -/
structure Moment (root : Option Json) (doc : Json) (ends opened : List Pointer)
    (path : List Json) (k m : Nat) (v : Json) : Prop where
  openedNodup : opened.Nodup
  openedEnds : opened ⊆ ends
  openedLeft : ends.length ≤ opened.length + k
  pathNodup : path.Nodup
  pathPlain : path ⊆ plainNodes doc
  pathLeft : (plainNodes doc).length ≤ path.length + m
  above : ∀ u ∈ path, Relation.TransGen (Holds root) u v
  noLoop : ¬ Loops root v

namespace Moment

variable {ends opened : List Pointer} {path : List Json} {k m : Nat} {v w : Json}

theorem part (h : Moment root doc ends opened path k m v) (hw : w ∈ parts root v) :
    Moment root doc ends opened path k m w :=
  { h with
    above := fun u hu => (h.above u hu).tail hw
    noLoop := fun hl => h.noLoop (.of_leads (.part hw) hl) }

/-- A schema that is opened was not open: else it would hold itself. -/
theorem open_part (h : Moment root doc ends opened path k m v) (hv : v ∈ plainNodes doc)
    (hw : w ∈ parts root v) :
    ∃ m', m = m' + 1 ∧ Moment root doc ends opened (v :: path) k m' w := by
  have hfresh : v ∉ path := fun hm => h.noLoop ⟨v, .refl, h.above v hm⟩
  have hnodup : (v :: path).Nodup := List.nodup_cons.mpr ⟨hfresh, h.pathNodup⟩
  have hplain : v :: path ⊆ plainNodes doc := List.cons_subset.mpr ⟨hv, h.pathPlain⟩
  have hlen := (hnodup.subperm hplain).length_le
  have hleft := h.pathLeft
  rw [List.length_cons] at hlen
  obtain ⟨m', rfl⟩ : ∃ m', m = m' + 1 := ⟨m - 1, by omega⟩
  refine ⟨m', rfl, { h.part hw with
    pathNodup := hnodup
    pathPlain := hplain
    pathLeft := by rw [List.length_cons]; omega
    above := fun u hu => ?_ }⟩
  rcases List.mem_cons.mp hu with rfl | hu
  · exact .single hw
  · exact (h.above u hu).tail hw

theorem target {reference : String} {p : Pointer} (h : Moment root doc ends opened path k m v)
    (hr : refText? v = some reference) (ht : localTarget? root reference = some (p, w))
    (hp : p ∈ ends) (ho : p ∉ opened) :
    ∃ k', k = k' + 1 ∧ Moment root doc ends (p :: opened) [] k' (plainNodes doc).length w := by
  have hnodup : (p :: opened).Nodup := List.nodup_cons.mpr ⟨ho, h.openedNodup⟩
  have hends : p :: opened ⊆ ends := List.cons_subset.mpr ⟨hp, h.openedEnds⟩
  have hlen := (hnodup.subperm hends).length_le
  have hleft := h.openedLeft
  rw [List.length_cons] at hlen
  obtain ⟨k', rfl⟩ : ∃ k', k = k' + 1 := ⟨k - 1, by omega⟩
  exact ⟨k', rfl, {
    openedNodup := hnodup
    openedEnds := hends
    openedLeft := by rw [List.length_cons]; omega
    pathNodup := List.nodup_nil
    pathPlain := List.nil_subset _
    pathLeft := Nat.le_add_left ..
    above := fun _ hu => absurd hu List.not_mem_nil
    noLoop := fun hl => h.noLoop (.of_leads (.target hr ht) hl) }⟩

end Moment

/-- A compilation that comes to no loop ends within its reach. The induction is on the depth; a
moment bounds how much of it references, schemas and merged schemas can use up. -/
theorem visit_ends (hd : doc.Keyed) (hroot : ∀ v, root = some v → v = doc)
    {ends : List Pointer} (hends : targets doc ⊆ ends) (depth : Nat) :
    ∀ {opened : List Pointer} {path : List Json} {k m : Nat} {v : Json} (finished : List Pointer),
      Moment root doc ends opened path k m v →
      v ∈ doc.nodes ∧ reach doc k m ≤ depth ∨
        (∃ merged, v = .object merged ∧ Merged (· ∈ doc.nodes) merged) ∧ reach doc k m + 1 ≤ depth →
      (visit root depth opened finished v).isSome := by
  induction depth with
  | zero =>
    intro opened path k m v finished _ hv
    unfold reach at hv
    rcases hv with ⟨_, h⟩ | ⟨_, h⟩ <;> omega
  | succ depth ih =>
    intro opened path k m v finished hm hv
    rcases hv with ⟨hv, hdepth⟩ | ⟨⟨merged, rfl, hmerged⟩, hdepth⟩
    · cases hr : refText? v with
      | none =>
        rw [visit_part hr]
        refine foldlM_isSome (fun w hw between => ?_) finished
        obtain ⟨m', rfl, hm'⟩ := hm.open_part (mem_plainNodes hv hr) hw
        unfold reach at hdepth
        rcases parts_node hd hroot hv hw with hw | hw
        · exact ih between hm' (.inl ⟨hw, by unfold reach; omega⟩)
        · exact ih between hm' (.inr ⟨hw, by unfold reach; omega⟩)
      | some reference =>
        cases ht : localTarget? root reference with
        | none => rw [visit_nowhere hr ht]; rfl
        | some found =>
          obtain ⟨p, target⟩ := found
          by_cases hk : p ∈ opened ∨ p ∈ finished
          · rw [visit_known hr ht hk]; rfl
          · obtain ⟨ho, hf⟩ := not_or.mp hk
            obtain ⟨k', rfl, hm'⟩ := hm.target hr ht (hends (mem_targets hv hr ht)) ho
            unfold reach at hdepth
            rw [Nat.succ_mul] at hdepth
            rw [visit_target hr ht ho hf, Option.isSome_map]
            exact ih finished hm'
              (.inl ⟨(localTarget?_node hroot ht).1, by unfold reach; omega⟩)
    · rw [visit_part hmerged.noRef]
      refine foldlM_isSome (fun w hw between => ?_) finished
      exact ih between (hm.part hw) (.inl ⟨hmerged.parts_of (closed_nodes hd) hw, by omega⟩)

/-- The depth that the compilation is given is enough for every document. -/
theorem reach_le_depthFor (doc : Json) :
    reach doc (targets doc).length (plainNodes doc).length ≤ depthFor doc.size := by
  have h := length_targets_add_plainNodes doc
  unfold reach depthFor
  nlinarith [Nat.mul_le_mul h h]

/-- Compiling what a reference leads to ends if it comes to no loop. -/
theorem visit_reference_ends (hd : doc.Keyed) (hroot : ∀ v, root = some v → v = doc)
    {v : Json} {reference : String} (hr : refText? v = some reference) (hloop : ¬ Loops root v)
    (finished : List Pointer) :
    (visit root (depthFor doc.size + 1) [] finished v).isSome := by
  cases ht : localTarget? root reference with
  | none => rw [visit_nowhere hr ht]; rfl
  | some found =>
    obtain ⟨p, target⟩ := found
    by_cases hf : p ∈ finished
    · rw [visit_known hr ht (.inr hf)]; rfl
    · have hm : Moment root doc (p :: targets doc) [] [] ((targets doc).length + 1)
          (plainNodes doc).length v := {
        openedNodup := List.nodup_nil
        openedEnds := List.nil_subset _
        openedLeft := Nat.le_add_left ..
        pathNodup := List.nodup_nil
        pathPlain := List.nil_subset _
        pathLeft := Nat.le_add_left ..
        above := fun _ hu => absurd hu List.not_mem_nil
        noLoop := hloop }
      obtain ⟨k, hk, hm'⟩ := hm.target hr ht (List.mem_cons_self ..) List.not_mem_nil
      cases hk
      rw [visit_target hr ht List.not_mem_nil hf, Option.isSome_map]
      exact visit_ends hd hroot (List.subset_cons_self ..) _ finished hm'
        (.inl ⟨(localTarget?_node hroot ht).1, reach_le_depthFor doc⟩)

theorem localTarget?_unique {reference other : String} {p : Pointer} {v w : Json}
    (hv : localTarget? root reference = some (p, v)) (hw : localTarget? root other = some (p, w)) :
    v = w := by
  have hat : ∀ {text : String} {u : Json}, localTarget? root text = some (p, u) →
      (root.bind fun document => document.at? p) = some u := by
    intro text u hu
    unfold localTarget? at hu
    obtain ⟨document, hd, hu⟩ := Option.bind_eq_some_iff.mp hu
    obtain ⟨q, _, hu⟩ := Option.bind_eq_some_iff.mp hu
    obtain ⟨target, ht, hu⟩ := Option.bind_eq_some_iff.mp hu
    cases hu
    rw [hd]
    exact ht
  exact Option.some.inj ((hat hv).symm.trans (hat hw))

/-! ## What a compilation that ended has come to -/

/-- Nothing below a schema holds itself, and every reference there leads to one of `known`. -/
inductive Fine (root : Option Json) (known : List Pointer) : Json → Prop where
  | intro {v : Json} (hp : ∀ w ∈ parts root v, Fine root known w)
      (hr : ∀ reference found, refText? v = some reference →
        localTarget? root reference = some found → found.1 ∈ known) : Fine root known v

namespace Fine

variable {known more : List Pointer} {v w : Json}

theorem mono (hs : known ⊆ more) (h : Fine root known v) : Fine root more v := by
  induction h with
  | intro _ hr ih => exact .intro ih fun reference found hv ht => hs (hr reference found hv ht)

/-- A reference is fine if it leads to one of `known` or nowhere. -/
theorem of_refText {reference : String} (hr : refText? v = some reference)
    (hk : ∀ found, localTarget? root reference = some found → found.1 ∈ known) :
    Fine root known v := by
  refine .intro (fun w hw => ?_) fun reference' found hv ht => ?_
  · obtain ⟨_, _, hnone, _⟩ := parts_object hw
    rw [hr] at hnone
    cases hnone
  · cases hr.symm.trans hv
    exact hk found ht

theorem part (h : Fine root known v) (hw : w ∈ parts root v) : Fine root known w := by
  cases h with
  | intro hp _ => exact hp w hw

theorem known_target {reference : String} {found : Pointer × Json} (h : Fine root known v)
    (hr : refText? v = some reference) (ht : localTarget? root reference = some found) :
    found.1 ∈ known := by
  cases h with
  | intro _ hk => exact hk reference found hr ht

theorem not_holds_self (h : Fine root known v) : ¬ Relation.TransGen (Holds root) v v := by
  induction h with
  | @intro v _ _ ih =>
    intro hloop
    obtain ⟨w, hw, hback⟩ := Relation.TransGen.head'_iff.mp hloop
    exact ih w hw (Relation.TransGen.tail' hback hw)

end Fine

/-- What the compilation of some schemas leaves behind. -/
structure Closes (root : Option Json) (opened finished final : List Pointer) (vs : List Json) :
    Prop where
  grows : finished ⊆ final
  fine : ∀ v ∈ vs, Fine root (opened ++ final) v
  targets : ∀ p ∈ final, p ∉ finished → ∀ reference target,
    localTarget? root reference = some (p, target) → Fine root (opened ++ final) target

namespace Closes

variable {opened finished between final : List Pointer} {v : Json} {vs ws : List Json}

theorem nil : Closes root opened finished finished [] where
  grows := List.Subset.refl _
  fine _ hv := absurd hv List.not_mem_nil
  targets _ hp hf := absurd hp hf

theorem stay (h : Fine root (opened ++ finished) v) :
    Closes root opened finished finished [v] where
  grows := List.Subset.refl _
  fine u hu := by
    rw [List.mem_singleton.mp hu]
    exact h
  targets _ hp hf := absurd hp hf

theorem append (h : Closes root opened finished between vs)
    (h' : Closes root opened between final ws) : Closes root opened finished final (vs ++ ws) := by
  have hmore : opened ++ between ⊆ opened ++ final :=
    List.append_subset.mpr ⟨List.subset_append_left .., fun p hp =>
      List.mem_append_right _ (h'.grows hp)⟩
  refine ⟨List.Subset.trans h.grows h'.grows, fun v hv => ?_, fun p hp hf reference target ht => ?_⟩
  · rcases List.mem_append.mp hv with hv | hv
    · exact (h.fine v hv).mono hmore
    · exact h'.fine v hv
  · by_cases hb : p ∈ between
    · exact (h.targets p hb hf reference target ht).mono hmore
    · exact h'.targets p hp hb reference target ht

theorem foldlM {go : List Pointer → Json → Option (List Pointer)}
    (hgo : ∀ finished v final, go finished v = some final → Closes root opened finished final [v])
    (h : vs.foldlM go finished = some final) : Closes root opened finished final vs := by
  induction vs generalizing finished with
  | nil =>
    cases h
    exact nil
  | cons v vs ih =>
    rw [List.foldlM_cons] at h
    obtain ⟨between, hv, hvs⟩ := Option.bind_eq_some_iff.mp h
    exact (hgo _ _ _ hv).append (ih hvs)

end Closes

theorem visit_closes (depth : Nat) {opened finished final : List Pointer} {v : Json}
    (h : visit root depth opened finished v = some final) :
    Closes root opened finished final [v] := by
  induction depth generalizing opened finished final v with
  | zero => cases h
  | succ depth ih =>
    cases hr : refText? v with
    | none =>
      rw [visit_part hr] at h
      have hc := Closes.foldlM (fun finished v final hv => ih hv) h
      refine ⟨hc.grows, fun u hu => ?_, hc.targets⟩
      rw [List.mem_singleton.mp hu]
      exact .intro hc.fine fun reference found hv _ => by rw [hr] at hv; cases hv
    | some reference =>
      cases ht : localTarget? root reference with
      | none =>
        rw [visit_nowhere hr ht] at h
        cases h
        refine .stay (.of_refText hr fun found hfound => ?_)
        cases ht.symm.trans hfound
      | some found =>
        obtain ⟨p, target⟩ := found
        have hfine {known : List Pointer} (hp : p ∈ known) : Fine root known v :=
          .of_refText hr fun found hfound => by
            cases ht.symm.trans hfound
            exact hp
        by_cases hk : p ∈ opened ∨ p ∈ finished
        · rw [visit_known hr ht hk] at h
          cases h
          exact .stay (hfine (List.mem_append.mpr hk))
        · obtain ⟨ho, hf⟩ := not_or.mp hk
          rw [visit_target hr ht ho hf] at h
          obtain ⟨inner, hi, rfl⟩ := Option.map_eq_some_iff.mp h
          have hc := ih hi
          have hmore : p :: opened ++ inner ⊆ opened ++ p :: inner := fun q hq => by
            simpa [or_left_comm] using hq
          refine ⟨List.Subset.trans hc.grows (List.subset_cons_self ..), fun u hu => ?_, ?_⟩
          · rw [List.mem_singleton.mp hu]
            exact hfine (List.mem_append_right _ (List.mem_cons_self ..))
          · intro q hq hqf reference' target' hq'
            rcases List.mem_cons.mp hq with rfl | hq
            · rw [localTarget?_unique hq' ht]
              exact (hc.fine target (List.mem_singleton_self _)).mono hmore
            · exact (hc.targets q hq hqf reference' target' hq').mono hmore

/-- All that a compilation has come to is fine if it started with nothing open and ended. -/
theorem fine_of_reached {depth : Nat} {vs : List Json} {final : List Pointer}
    (h : vs.foldlM (visit root depth []) [] = some final) {v u : Json} (hv : v ∈ vs)
    (hreach : Relation.ReflTransGen (Leads root) v u) : Fine root final u := by
  have hc := Closes.foldlM (fun _ _ _ hvisit => visit_closes depth hvisit) h
  induction hreach with
  | refl => exact hc.fine v hv
  | tail _ hstep ih =>
    cases hstep with
    | part hw => exact ih.part hw
    | target hr ht => exact hc.targets _ (ih.known_target hr ht) List.not_mem_nil _ _ ht

/-- A compilation that starts with nothing open and ends has come to no loop. -/
theorem not_loops_of_visit {depth : Nat} {vs : List Json} {final : List Pointer}
    (h : vs.foldlM (visit root depth []) [] = some final) {v : Json} (hv : v ∈ vs) :
    ¬ Loops root v := by
  rintro ⟨u, hreach, hloop⟩
  exact (fine_of_reached h hv hreach).not_holds_self hloop

/-! ## Bundles -/

/-- A schema that is a reference. -/
def refTo (reference : String) : Json := .object [("$ref", .string reference)]

theorem forM_visits {α : Type} {go : Visit} {act : α → LowerM Unit} (opened : α → List Json)
    (h : ∀ x, Visits go (opened x) (act x)) (xs : List α) :
    Visits go (xs.flatMap opened) (xs.forM act) := by
  induction xs with
  | nil => exact .pure _
  | cons x xs ih =>
    rw [List.flatMap_cons]
    exact (h x).bind fun _ => ih

theorem bind_visits (go : Visit) (p : Pointer) (name : String) : Visits go [] (bind p name) :=
  (reserve_visits name).after fun _ =>
    .quiet fun s => ⟨(), { s with named := (p, name) :: s.named }, rfl, rfl, rfl⟩

/-- The compilation of a bundle opens its members in order. -/
theorem lowerBundleWith_visits (depth : Nat) (b : Bundle) :
    Visits (visit (some b.document) (depth + 1)) (b.members.map fun m => refTo m.reference)
      (lowerBundleWith depth b) := by
  have hbind := forM_visits (fun _ => [])
    (fun m : BundleMember => bind_visits (visit (some b.document) (depth + 1)) m.location
      (Code.typeIdent m.canonicalName)) b.members
  have hmember (m : BundleMember) :
      Visits (visit (some b.document) (depth + 1)) [refTo m.reference] (do
        let _ ← lowerPointer (some b.document) depth m.location) :=
    (lowerReference_visits (lower_visits (some b.document) depth) rfl).before fun _ => .pure ()
  have hlower := forM_visits (fun m => [refTo m.reference]) hmember b.members
  rw [← List.map_eq_flatMap] at hlower
  rw [List.flatMap_eq_nil_iff.mpr fun _ _ => rfl] at hbind
  exact hbind.after fun _ => hlower

/-- The compilation of a bundle comes to a schema that holds itself. -/
def Endless (b : Bundle) : Prop := ∃ m ∈ b.members, Loops (some b.document) (refTo m.reference)

/-- No depth is enough for a bundle whose compilation comes to a loop. -/
theorem lowerBundleWith_eq_none {b : Bundle} (h : Endless b) (depth : Nat) :
    (lowerBundleWith depth b).run .empty = none := by
  obtain ⟨m, hm, hloop⟩ := h
  refine (lowerBundleWith_visits depth b).none_of (s := .empty) ?_
  cases hv : (b.members.map fun m => refTo m.reference).foldlM
      (visit (some b.document) (depth + 1) []) [] with
  | none => exact hv
  | some final => exact absurd hloop (not_loops_of_visit hv (List.mem_map_of_mem hm))

/-- The depth that a bundle is given is enough if its compilation comes to no loop. -/
theorem lowerBundle_isSome {b : Bundle} (hd : b.document.Proper) (h : ¬ Endless b) :
    (lowerBundle b).isSome := by
  have hvisit : ((b.members.map fun m => refTo m.reference).foldlM
      (visit (some b.document) (depthFor b.document.size + 1) []) []).isSome := by
    refine foldlM_isSome (fun v hv finished => ?_) []
    obtain ⟨m, hm, rfl⟩ := List.mem_map.mp hv
    exact visit_reference_ends hd.keyed (fun v hv => (Option.some.inj hv).symm) rfl
      (fun hloop => h ⟨m, hm, hloop⟩) finished
  obtain ⟨final, hfinal⟩ := Option.isSome_iff_exists.mp hvisit
  obtain ⟨_, _, hrun, _⟩ := (lowerBundleWith_visits _ b).some_of (s := .empty) hfinal
  unfold lowerBundle
  rw [hrun]
  rfl

/-! ## References that are merged -/

/-- A schema has an `allOf` with a reference among its arms. -/
def MergesReference (v : Json) : Prop :=
  ∃ ms arms x, v = .object ms ∧ OrderedMap.get? ms "allOf" = some (.array arms) ∧ x ∈ arms ∧
    (refText? x).isSome = true

/-- A schema has an `allOf` with a reference among its arms that leads somewhere. -/
def MergesTarget (root : Option Json) (v : Json) : Prop :=
  ∃ ms arms x reference, v = .object ms ∧ OrderedMap.get? ms "allOf" = some (.array arms) ∧
    x ∈ arms ∧ refText? x = some reference ∧ (localTarget? root reference).isSome = true

theorem MergesTarget.mergesReference {v : Json} (h : MergesTarget root v) : MergesReference v := by
  obtain ⟨ms, arms, x, reference, hv, ha, hx, hr, -⟩ := h
  exact ⟨ms, arms, x, hv, ha, hx, by rw [hr]; rfl⟩

/-- The second value is within the first. -/
def Within (v w : Json) : Prop := w ∈ v.nodes ∧ w.size < v.size

theorem closed_within {v : Json} (hd : v.Keyed) : Closed (Within v) where
  below h hw :=
    ⟨Json.mem_nodes_trans v h.1 hw, Nat.lt_of_le_of_lt (Json.size_le_of_mem_nodes hw) h.2⟩
  distinct h := (hd.of_mem h.1).distinct

/-- A schema that is no reference, or one that leads nowhere. -/
def LeadsNowhere (root : Option Json) (v : Json) : Prop :=
  ∀ reference, refText? v = some reference → localTarget? root reference = none

theorem leadsNowhere_of_arm {v x : Json} {ms : Members} {arms : List Json}
    (hno : ¬ MergesTarget root v) (hv : v = .object ms)
    (ha : OrderedMap.get? ms "allOf" = some (.array arms)) (hx : x ∈ arms) :
    LeadsNowhere root x := by
  intro reference hr
  by_contra hsome
  exact hno ⟨ms, arms, x, reference, hv, ha, hx, hr, Option.isSome_iff_ne_none.mpr hsome⟩

/-- If nothing that a reference leads to is merged, what is merged within a schema is within it. -/
theorem areArms_within {v : Json} (hd : v.Keyed) (hno : ∀ w ∈ v.nodes, ¬ MergesTarget root w) :
    AreArms root (Within v) (fun w => Within v w ∧ LeadsNowhere root w) where
  kept h := h.1
  arms {ms arms x} h ha hx := by
    have hS := closed_within hd
    exact ⟨hS.item (hS.member h.1 (OrderedMap.mem_of_get? ha)) hx,
      leadsNowhere_of_arm (hno _ h.1.1) rfl ha hx⟩
  target h hr ht := by
    rw [h.2 _ hr] at ht
    cases ht

theorem parts_within {v w : Json} (hd : v.Keyed) (hno : ∀ u ∈ v.nodes, ¬ MergesTarget root u)
    (hw : w ∈ parts root v) : Within v w ∨ ∃ ms arms merged, v = .object ms ∧
      OrderedMap.get? ms "allOf" = some (.array arms) ∧ w = .object merged ∧
        Merged (Within v) merged := by
  obtain ⟨ms, rfl, hr, hw⟩ := parts_object hw
  have hS := closed_within hd
  have hmember : ∀ e ∈ ms, Within (.object ms) e.2 := fun e he =>
    ⟨Json.member_mem_nodes he, Json.size_lt_of_member he⟩
  have hown := Gathered.of_members hS hd.distinct hmember
  rcases memberParts_of hS hown hw with hw | ⟨arms, ha, hw⟩
  · exact Or.inl hw
  · have harms : ∀ x ∈ arms, Within (.object ms) x ∧ LeadsNowhere root x := by
      intro x hx
      exact ⟨hS.item (hmember _ (OrderedMap.mem_of_get? ha)) hx,
        leadsNowhere_of_arm (hno _ (Json.self_mem_nodes _)) rfl ha hx⟩
    obtain ⟨merged, rfl, hm⟩ := mergedParts_merged hS (areArms_within hd hno) hown harms hr hw
    exact Or.inr ⟨ms, arms, merged, rfl, ha, rfl, hm⟩

/-- A schema in which nothing that a reference leads to is merged does not hold itself. -/
theorem not_transGen_of_plain {v : Json} (hd : v.Keyed)
    (hno : ∀ w ∈ v.nodes, ¬ MergesTarget root w) : ¬ Relation.TransGen (Holds root) v v := by
  induction hn : v.size using Nat.strongRecOn generalizing v with
  | _ size ih =>
    subst hn
    -- The way leads on to a schema within the first one, and round to it again.
    have hround {w : Json} (hw : Within v w) (hto : Relation.TransGen (Holds root) w w) : False :=
      ih _ hw.2 (hd.of_mem hw.1) (fun u hu => hno u (Json.mem_nodes_trans v hw.1 hu)) rfl hto
    intro hloop
    obtain ⟨w, hvw, hwv⟩ := Relation.TransGen.head'_iff.mp hloop
    rcases parts_within hd hno hvw with hw | ⟨ms, arms, merged, rfl, ha, rfl, hm⟩
    · exact hround hw (Relation.TransGen.tail' hwv hvw)
    · rcases Relation.ReflTransGen.cases_head hwv with heq | ⟨u, hwu, huv⟩
      · rw [← Json.object.inj heq, hm.noArms] at ha
        cases ha
      · have hu : Within _ u := hm.parts_of (closed_within hd) hwu
        exact hround hu (Relation.TransGen.tail' (huv.tail hvw) hwu)

/-- Where the compilation that starts at a reference or in the document comes to: there, to schemas
of the document and to merged ones. -/
theorem reached_of_leads {start v : Json} (hd : doc.Keyed)
    (hroot : ∀ v, root = some v → v = doc)
    (hstart : (refText? start).isSome = true ∨ start ∈ doc.nodes)
    (h : Relation.ReflTransGen (Leads root) start v) :
    v = start ∨ v ∈ doc.nodes ∨ ∃ merged, v = .object merged ∧ Merged (· ∈ doc.nodes) merged := by
  induction h with
  | refl => exact Or.inl rfl
  | tail _ hlead ih =>
    cases hlead with
    | target hr ht => exact Or.inr (Or.inl (localTarget?_node hroot ht).1)
    | part hw =>
      rcases ih with rfl | hv | ⟨merged, rfl, hm⟩
      · rcases hstart with hstart | hstart
        · obtain ⟨ms, -, hnone, -⟩ := parts_object hw
          rw [hnone] at hstart
          cases hstart
        · exact Or.inr (parts_node hd hroot hstart hw)
      · exact Or.inr (parts_node hd hroot hv hw)
      · exact Or.inr (Or.inl (hm.parts_of (closed_nodes hd) hw))

/-- Where nothing that a reference leads to is merged, a compilation comes to no loop. -/
theorem not_loops_of_plain {start : Json} (hd : doc.Keyed) (hroot : ∀ v, root = some v → v = doc)
    (hstart : (refText? start).isSome = true ∨ start ∈ doc.nodes)
    (hno : ∀ v ∈ doc.nodes, ¬ MergesTarget root v) : ¬ Loops root start := by
  rintro ⟨v, hreach, hloop⟩
  have hnode {w : Json} (hw : w ∈ doc.nodes) : ¬ Relation.TransGen (Holds root) w w :=
    not_transGen_of_plain (hd.of_mem hw) fun u hu => hno u (Json.mem_nodes_trans _ hw hu)
  obtain ⟨w, hvw, hwv⟩ := Relation.TransGen.head'_iff.mp hloop
  rcases reached_of_leads hd hroot hstart hreach with rfl | hv | ⟨merged, rfl, hm⟩
  · rcases hstart with hstart | hstart
    · obtain ⟨ms, -, hnone, -⟩ := parts_object hvw
      rw [hnone] at hstart
      cases hstart
    · exact hnode hstart hloop
  · exact hnode hv hloop
  · exact hnode (hm.parts_of (closed_nodes hd) hvw) (Relation.TransGen.tail' hwv hvw)

/-- Only where a reference is merged can the compilation of a bundle come to a loop. -/
theorem exists_mergesReference {b : Bundle} (hd : b.document.Proper) (h : Endless b) :
    ∃ v ∈ b.document.nodes, MergesReference v := by
  by_contra hnone
  obtain ⟨m, -, hloop⟩ := h
  refine not_loops_of_plain hd.keyed (fun v hv => (Option.some.inj hv).symm) (.inl rfl) ?_ hloop
  intro v hv hm
  exact hnone ⟨v, hv, hm.mergesReference⟩

/-- The compilation of a bundle ends exactly if it comes to no schema that holds itself, and then
within the depth that it is given. In a bundle without references among the arms of an `allOf` it
comes to none. -/
theorem lowerBundle_ends_iff {b : Bundle} (hd : b.document.Proper) :
    ((lowerBundle b).isSome ↔ ¬ Endless b) ∧
      ((∃ depth, ((lowerBundleWith depth b).run .empty).isSome) ↔ ¬ Endless b) ∧
      (Endless b → ∃ v ∈ b.document.nodes, MergesReference v) := by
  have hends : (lowerBundle b).isSome →
      ∃ depth, ((lowerBundleWith depth b).run .empty).isSome := fun h => by
    unfold lowerBundle at h
    rw [Option.isSome_map] at h
    exact ⟨_, h⟩
  have hnot : (∃ depth, ((lowerBundleWith depth b).run .empty).isSome) → ¬ Endless b := by
    rintro ⟨depth, h⟩ hloop
    rw [lowerBundleWith_eq_none hloop] at h
    cases h
  exact ⟨⟨fun h => hnot (hends h), lowerBundle_isSome hd⟩,
    ⟨hnot, fun h => hends (lowerBundle_isSome hd h)⟩, exists_mergesReference hd⟩

/-! ## A schema that merges itself -/

deriving instance DecidableEq for Bundle

/-- A property that consists of the schema that it belongs to, as `allOf` has it. -/
def mergedProperty (reference : String) : Json :=
  .object [("properties", .object [("x", .object [("allOf", .array [refTo reference])])])]

/-- The file `a.schema.json` with a schema that merges itself. -/
def selfMerging : SchemaDocument := .ofPath ⟨"a.schema.json"⟩ (mergedProperty "#")

/-- The bundle of that file. -/
def selfMerged : Bundle where
  document := Bundle.documentOf [("a", mergedProperty "#/$defs/a")]
  members := [⟨"a", "a.schema.json"⟩]

theorem selfMerged_endless : Endless selfMerged := by
  have hopen : Holds (some selfMerged.document) (mergedProperty "#/$defs/a")
      (.object [("allOf", .array [refTo "#/$defs/a"])]) := by
    unfold Holds
    decide +kernel
  have hmerge : Holds (some selfMerged.document)
      (.object [("allOf", .array [refTo "#/$defs/a"])]) (mergedProperty "#/$defs/a") := by
    unfold Holds
    decide +kernel
  have htarget : localTarget? (some selfMerged.document) "#/$defs/a" =
      some (⟨["$defs", "a"]⟩, mergedProperty "#/$defs/a") := by
    decide +kernel
  have hmember : (⟨"a", "a.schema.json"⟩ : BundleMember).reference = "#/$defs/a" := by
    decide +kernel
  refine ⟨_, List.mem_singleton_self _, mergedProperty "#/$defs/a", ?_, .tail (.single hopen) hmerge⟩
  rw [hmember]
  exact .single (.target rfl htarget)

/-- The bundle is made, and its compilation does not end. -/
theorem ofDocuments_selfMerging :
    (Bundle.ofDocuments ⟨[], []⟩ [selfMerging]).toOption = some selfMerged ∧
      ∀ depth, (lowerBundleWith depth selfMerged).run .empty = none :=
  ⟨by decide +kernel, lowerBundleWith_eq_none selfMerged_endless⟩

theorem lowerBundle_selfMerged :
    selfMerged.document.Proper ∧ ¬ (lowerBundle selfMerged).isSome :=
  ⟨by decide, fun h => (lowerBundle_ends_iff (by decide)).1.mp h selfMerged_endless⟩

end SchemaBindings.Lowering
