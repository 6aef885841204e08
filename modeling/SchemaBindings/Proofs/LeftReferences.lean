import SchemaBindings.Proofs.DereferenceRuns
import SchemaBindings.Proofs.JsonReading

/-! # References that are left

A reference is a text under `$ref`, and every one of them is replaced. What else
stands under `$ref` is no reference, and is unfolded as a schema; if it unfolds
to a text, this stands under `$ref` in the result and is a reference there.
Nothing else leaves one: no reference of the result comes about but by such an
object in the schema, or in a node that a reference led to. -/

namespace SchemaBindings

open SchemaBindings.Bundle (kindOf)

/-! ## Where a reference is found -/

theorem itemsContainRef_eq_true {xs : List Json} :
    itemsContainRef xs = true ↔ ∃ x ∈ xs, containsRef x = true := by
  induction xs with
  | nil => simp [itemsContainRef]
  | cons x xs ih => simp [itemsContainRef, ih]

theorem namedContainRef_eq_true {ms : List (String × Json)} :
    namedContainRef ms = true ↔ ∃ e ∈ ms, containsRef e.2 = true := by
  induction ms with
  | nil => simp [namedContainRef]
  | cons e ms ih =>
    obtain ⟨name, v⟩ := e
    simp [namedContainRef, ih]

theorem itemsContainRef_eq_false {xs : List Json} :
    itemsContainRef xs = false ↔ ∀ x ∈ xs, containsRef x = false := by
  rw [Bool.eq_false_iff, ne_eq, itemsContainRef_eq_true]
  simp

theorem namedContainRef_eq_false {ms : List (String × Json)} :
    namedContainRef ms = false ↔ ∀ e ∈ ms, containsRef e.2 = false := by
  rw [Bool.eq_false_iff, ne_eq, namedContainRef_eq_true]
  simp

/-- Whether a reference is left in a value that is read as data, as named schemas or as a schema. -/
def kindContainsRef : ChildKind → Json → Bool
  | .data, _ => false
  | .namedSchemas, .object named => namedContainRef named
  | _, v => containsRef v

theorem membersContainRef_eq_true {ms : List (String × Json)} :
    membersContainRef ms = true ↔ ∃ e ∈ ms, e.1 = "$ref" ∧ e.2.text?.isSome = true ∨
      kindContainsRef (kindOf e.1 e.2) e.2 = true := by
  induction ms with
  | nil => simp [membersContainRef]
  | cons e ms ih =>
    obtain ⟨key, v⟩ := e
    have hcons : membersContainRef ((key, v) :: ms) = (decide (key = "$ref") && v.text?.isSome ||
        kindContainsRef (kindOf key v) v || membersContainRef ms) := by
      refine (membersContainRef.eq_def ..).trans ?_
      unfold kindOf
      dsimp only
      cases childKind key <;> cases v <;> rfl
    rw [hcons]
    simp only [Bool.or_eq_true, Bool.and_eq_true, decide_eq_true_eq, ih, List.mem_cons,
      exists_eq_or_imp]

theorem membersContainRef_eq_false {ms : List (String × Json)} :
    membersContainRef ms = false ↔ ∀ e ∈ ms, ¬ (e.1 = "$ref" ∧ e.2.text?.isSome = true) ∧
      kindContainsRef (kindOf e.1 e.2) e.2 = false := by
  rw [Bool.eq_false_iff, ne_eq, membersContainRef_eq_true]
  push Not
  exact forall₂_congr fun e _ => and_congr_right fun _ => Bool.eq_false_iff.symm

theorem kindContainsRef_of_below {e : String × Json}
    (hnode : containsRef e.2 = true ↔ ∃ reference, Mentions .schema e.2 reference)
    (hnamed : ∀ named, e.2 = .object named → ∀ x ∈ named,
      (containsRef x.2 = true ↔ ∃ reference, Mentions .schema x.2 reference)) :
    kindContainsRef (kindOf e.1 e.2) e.2 = true ↔
      ∃ reference, Mentions (kindOf e.1 e.2) e.2 reference := by
  obtain ⟨key, v⟩ := e
  dsimp only at hnode hnamed ⊢
  unfold kindOf
  cases childKind key with
  | data => simp [kindContainsRef, Mentions.not_data]
  | schema => exact hnode
  | namedSchemas =>
    cases v with
    | object named =>
      show namedContainRef named = true ↔ _
      rw [namedContainRef_eq_true]
      constructor
      · rintro ⟨x, hx, hcontains⟩
        obtain ⟨reference, hm⟩ := (hnamed named rfl x hx).mp hcontains
        exact ⟨reference, .named hx hm⟩
      · rintro ⟨reference, hm⟩
        cases hm with
        | named hx hm => exact ⟨_, hx, (hnamed named rfl _ hx).mpr ⟨reference, hm⟩⟩
    | _ => exact hnode

/-- A reference is found exactly if there is one where a schema may stand. -/
theorem containsRef_eq_true {v : Json} (hv : v.Keyed) :
    containsRef v = true ↔ ∃ reference, Mentions .schema v reference := by
  induction v using Json.byParts with
  | object ms ih =>
    have hmember (e : String × Json) (he : e ∈ ms) := kindContainsRef_of_below
      ((ih e he).1 (hv.member he)) fun named hnamed x hx =>
        (ih e he).2 named hnamed x hx ((hnamed ▸ hv.member he).member hx)
    rw [containsRef, membersContainRef_eq_true]
    constructor
    · rintro ⟨⟨key, u⟩, he, ⟨hkey, htext⟩ | hbelow⟩
      · dsimp only at hkey htext
        subst hkey
        obtain ⟨reference, htext⟩ := Option.isSome_iff_exists.mp htext
        cases u with
        | string text =>
          exact ⟨text, .here (refText?_eq_some.mpr (OrderedMap.get?_of_mem hv.distinct he))⟩
        | _ => cases htext
      · obtain ⟨reference, hm⟩ := (hmember _ he).mp hbelow
        exact ⟨reference, .member he hm⟩
    · rintro ⟨reference, hm⟩
      cases hm with
      | here href =>
        exact ⟨_, OrderedMap.mem_of_get? (refText?_eq_some.mp href), .inl ⟨rfl, rfl⟩⟩
      | member he hm => exact ⟨_, he, .inr ((hmember _ he).mpr ⟨reference, hm⟩)⟩
  | array xs ih =>
    rw [containsRef, itemsContainRef_eq_true]
    constructor
    · rintro ⟨x, hx, hcontains⟩
      obtain ⟨reference, hm⟩ := (ih x hx (hv.item hx)).mp hcontains
      exact ⟨reference, .item hx hm⟩
    · rintro ⟨reference, hm⟩
      cases hm with
      | here href => cases href
      | item hx hm => exact ⟨_, hx, (ih _ hx (hv.item hx)).mpr ⟨reference, hm⟩⟩
  | leaf v hm hi =>
    constructor
    · intro hcontains
      cases v with
      | object ms => cases hm
      | array xs => cases hi
      | _ => simp [containsRef] at hcontains
    · rintro ⟨reference, hmention⟩
      exact absurd hmention (Mentions.not_leaf hm hi)

namespace Dereference

open SchemaBindings.Bundle (Source targetDocument)

variable {t : FileTree} {known : DocumentCache} {Admits : Path → String → Prop} {kind : ChildKind}
  {doc start : Path} {v w : Json} {text : String}

/-! ## Keys stay distinct -/

theorem keyed_of_readDocument {p : Path} (h : readDocument t p = .ok v) : v.Keyed := by
  unfold readDocument at h
  split at h
  · cases h
  · split at h
    · cases h
    · rename_i hjson
      cases h
      exact Json.read_keyed hjson

theorem source_keyed (hknown : ∀ doc u, known.find? doc = some u → u.Keyed)
    (h : Source t known doc v) : v.Keyed := by
  rcases h with h | ⟨-, p, -, -, hread⟩
  · exact hknown doc v h
  · exact keyed_of_readDocument hread

theorem Points.keyed (hsource : ∀ doc u, Source t known doc u → u.Keyed) {reference : String}
    {x : Target} {n : Json} (h : Points t known doc reference x n) : n.Keyed := by
  obtain ⟨target, u, -, -, hu, hat⟩ := h
  exact (hsource _ u hu).of_mem (Json.at?_mem_nodes hat)

theorem taken_keyed {x : Target} (hv : v.Keyed) : (taken x v).Keyed := by
  unfold taken
  split
  · cases v with
    | object ms =>
      refine .object ((hv.distinct.remove _).remove _) fun e he => ?_
      exact hv.member (OrderedMap.mem_of_mem_remove (OrderedMap.mem_of_mem_remove he))
    | _ => exact hv
  · exact hv

theorem insertAll_keyed {ms ns : Members} (hm : (Json.object ms).Keyed) (hn : (Json.object ns).Keyed) :
    (Json.object (ms.insertAll ns)).Keyed := by
  refine .object (hm.distinct.insertAll ns) fun ⟨key, u⟩ he => ?_
  have hget := OrderedMap.get?_of_mem (hm.distinct.insertAll ns) he
  rw [OrderedMap.get?_insertAll hn.distinct] at hget
  rcases Option.or_eq_some_iff.mp hget with hget | ⟨-, hget⟩
  · exact hn.member (OrderedMap.mem_of_get? hget)
  · exact hm.member (OrderedMap.mem_of_get? hget)

theorem Overlays.keyed {target : Json} {siblings : Members} (h : Overlays target siblings w)
    (ht : target.Keyed) (hs : (Json.object siblings).Keyed) : w.Keyed := by
  cases h with
  | alone => exact ht
  | merged => exact insertAll_keyed ht hs
  | beside =>
    refine .object (List.nodup_singleton "allOf") fun e he => ?_
    rw [List.mem_singleton.mp he]
    refine .array fun x hx => ?_
    rcases List.mem_cons.mp hx with rfl | hx
    · exact ht
    · rw [List.mem_singleton.mp hx]
      exact hs

/-- What a schema unfolds to has each key once in every object, as the documents have. -/
theorem Unfolds.keyed (hsource : ∀ doc u, Source t known doc u → u.Keyed)
    (h : Unfolds t known Admits kind doc v w) (hv : v.Keyed) : w.Keyed := by
  have hmembers {ms ns : Members} (hd : ms.Distinct) (hnames : ns.names = ms.names)
      (ih : ∀ (i : Nat) e x, ms[i]? = some e → ns[i]? = some x → e.2.Keyed → x.2.Keyed)
      (hms : ∀ e ∈ ms, e.2.Keyed) : (Json.object ns).Keyed := by
    refine .object (show ns.names.Nodup from hnames ▸ hd) fun x hx => ?_
    obtain ⟨i, e, hx, he⟩ := exists_getElem?_of_names hnames.symm hx
    exact ih i e x he hx (hms e (List.mem_of_getElem? he))
  induction h with
  | data => exact hv
  | leaf => exact hv
  | array hlen _ ih =>
    refine .array fun y hy => ?_
    obtain ⟨i, hi, rfl⟩ := List.getElem_of_mem hy
    have hx := List.getElem?_eq_getElem (hlen ▸ hi)
    exact ih i _ _ hx (List.getElem?_eq_getElem hi) (hv.item (List.mem_of_getElem? hx))
  | named hnames _ ih => exact hmembers hv.distinct hnames ih fun e he => hv.member he
  | plain _ hnames _ ih => exact hmembers hv.distinct hnames ih fun e he => hv.member he
  | reference _ _ hp _ hnames _ hw ihu ih =>
    have hsiblings := hmembers (hv.distinct.remove "$ref") hnames ih fun e he =>
      hv.member (OrderedMap.mem_of_mem_remove he)
    exact hw.keyed (taken_keyed (ihu (hp.keyed hsource))) hsiblings

/-! ## References beside a target -/

theorem mentions_of_taken {x : Target} (hv : v.Keyed) (h : Mentions .schema (taken x v) text) :
    Mentions .schema v text := by
  unfold taken at h
  split at h
  · exact Mentions.of_withoutRootKeywords hv h
  · exact h

/-- A reference of a target with its siblings is one of the target or of a sibling. -/
theorem Overlays.mentions_cases {target : Json} {siblings : Members}
    (hw : Overlays target siblings w) (ht : target.Keyed) (hs : siblings.Distinct) (href : "$ref" ∉ siblings.names)
    (h : Mentions .schema w text) : Mentions .schema target text ∨
      ∃ e ∈ siblings, Mentions (kindOf e.1 e.2) e.2 text := by
  have hnone : siblings.get? "$ref" = none := OrderedMap.get?_eq_none.mpr href
  cases hw with
  | alone => exact .inl h
  | @merged ms _ =>
    cases h with
    | here h =>
      have hget := refText?_eq_some.mp h
      rw [OrderedMap.get?_insertAll hs, hnone, Option.none_or] at hget
      exact .inl (.here (refText?_eq_some.mpr hget))
    | member he hm =>
      have hget := OrderedMap.get?_of_mem (ht.distinct.insertAll siblings) he
      rw [OrderedMap.get?_insertAll hs] at hget
      rcases Option.or_eq_some_iff.mp hget with hget | ⟨-, hget⟩
      · exact .inr ⟨_, OrderedMap.mem_of_get? hget, hm⟩
      · exact .inl (.member (OrderedMap.mem_of_get? hget) hm)
  | beside =>
    cases h with
    | here h => cases h
    | member he hm =>
      cases List.mem_singleton.mp he
      cases hm with
      | here h => cases h
      | item hx hm =>
        rcases List.mem_cons.mp hx with rfl | hx
        · exact .inl hm
        · cases List.mem_singleton.mp hx
          cases hm with
          | here h =>
            rw [refText?_eq_some, hnone] at h
            cases h
          | member he hm => exact .inr ⟨_, he, hm⟩

/-- A reference of a sibling stays when a target is put under it. -/
theorem Overlays.mentions_of_sibling {target : Json} {siblings : Members}
    (hw : Overlays target siblings w) (hs : siblings.Distinct) {e : String × Json} (he : e ∈ siblings)
    (h : Mentions (kindOf e.1 e.2) e.2 text) : Mentions .schema w text := by
  cases hw with
  | alone => cases he
  | @merged ms _ =>
    have hget : (ms.insertAll siblings).get? e.1 = some e.2 := by
      rw [OrderedMap.get?_insertAll hs, OrderedMap.get?_of_mem hs he, Option.some_or]
    exact .member (OrderedMap.mem_of_get? hget) h
  | beside =>
    have hitem : Mentions .schema (.array [target, .object siblings]) text :=
      .item (List.mem_cons_of_mem _ (List.mem_singleton_self _)) (.member he h)
    exact .member (List.mem_singleton_self _) hitem

/-! ## What hides a reference -/

/-- In a value of a document, read as data, as named schemas or as a schema, an object has something
under `$ref` where a schema may stand that is no text and unfolds to a text. -/
inductive Hides (t : FileTree) (known : DocumentCache) :
    ChildKind → Path → Json → String → Prop where
  | here {doc : Path} {ms : Members} {u : Json} {text : String}
      (hu : OrderedMap.get? ms "$ref" = some u) (hplain : u.text? = none)
      (h : Unfolds t known AnyReference .schema doc u (.string text)) :
      Hides t known .schema doc (.object ms) text
  | item {doc : Path} {xs : List Json} {x : Json} {text : String} (hx : x ∈ xs)
      (h : Hides t known .schema doc x text) : Hides t known .schema doc (.array xs) text
  | named {doc : Path} {ms : Members} {name : String} {v : Json} {text : String}
      (hv : (name, v) ∈ ms) (h : Hides t known .schema doc v text) :
      Hides t known .namedSchemas doc (.object ms) text
  | member {doc : Path} {ms : Members} {key : String} {v : Json} {text : String}
      (hv : (key, v) ∈ ms) (h : Hides t known (kindOf key v) doc v text) :
      Hides t known .schema doc (.object ms) text

theorem Hides.not_text {other : String} : ¬ Hides t known kind doc (.string other) text := by
  intro h
  cases h

/-- What the value under a keyword is does not change when it is unfolded. -/
theorem Unfolds.kindOf_eq {key : String} (h : Unfolds t known Admits (kindOf key v) doc v w) :
    kindOf key w = kindOf key v := by
  unfold kindOf at h ⊢
  cases hkind : childKind key with
  | data => rfl
  | schema => rfl
  | namedSchemas =>
    rw [hkind] at h
    cases v with
    | object ms =>
      cases h with
      | named => rfl
    | array xs =>
      cases h with
      | leaf => rfl
      | array => rfl
    | _ =>
      cases h with
      | leaf => rfl

/-- A reference in what a schema unfolds to is hidden in the schema, or in a node that a reference on
the way leads to. -/
theorem Unfolds.hides_of_mentions {R : Path → String → Prop}
    (hnext : ∀ doc reference x n other, R doc reference → Points t known doc reference x n →
      Mentions .schema n other → R x.document other)
    (hsource : ∀ doc u, Source t known doc u → u.Keyed)
    (h : Unfolds t known AnyReference kind doc v w) (hv : v.Keyed)
    (hall : ∀ reference, Mentions kind v reference → R doc reference)
    (hm : Mentions kind w text) : Hides t known kind doc v text ∨
      ∃ d reference x n, R d reference ∧ Points t known d reference x n ∧
        Hides t known .schema x.document n text := by
  induction h with
  | data => exact absurd hm Mentions.not_data
  | leaf hmembers hitems => exact absurd hm (Mentions.not_leaf hmembers hitems)
  | array hlen _ ih =>
    cases hm with
    | here href => cases href
    | item hy hm =>
      obtain ⟨i, hi, rfl⟩ := List.getElem_of_mem hy
      have hx := List.getElem?_eq_getElem (hlen ▸ hi)
      have hmem := List.mem_of_getElem? hx
      have hitem := ih i _ _ hx (List.getElem?_eq_getElem hi) (hv.item hmem)
        (fun reference hm => hall reference (.item hmem hm)) hm
      exact hitem.imp_left (.item hmem)
  | named hnames _ ih =>
    cases hm with
    | named hx hm =>
      obtain ⟨i, ⟨name, u⟩, hx, he⟩ := exists_getElem?_of_names hnames.symm hx
      have hmem := List.mem_of_getElem? he
      have hbelow := ih i _ _ he hx (hv.member hmem)
        (fun reference hm => hall reference (.named hmem hm)) hm
      exact hbelow.imp_left (.named hmem)
  | @plain doc ms ns href hnames h ih =>
    have hd : ns.Distinct := show ns.names.Nodup from hnames ▸ hv.distinct
    cases hm with
    | here href' =>
      -- The text stands under `$ref`, where the schema has no text.
      have hx := OrderedMap.mem_of_get? (refText?_eq_some.mp href')
      obtain ⟨i, u, hx, he⟩ := exists_entry_of_names hnames.symm hx
      have hget := OrderedMap.get?_of_mem hv.distinct (List.mem_of_getElem? he)
      refine .inl (.here hget ?_ (h i _ _ he hx))
      cases u with
      | string other => exact absurd (refText?_eq_some.mpr hget) (by rw [href]; simp)
      | _ => rfl
    | member hx hm =>
      obtain ⟨i, u, hx, he⟩ := exists_entry_of_names hnames.symm hx
      have hmem := List.mem_of_getElem? he
      rw [(h i _ _ he hx).kindOf_eq] at hm
      have hbelow := ih i _ _ he hx (hv.member hmem)
        (fun reference hm => hall reference (.member hmem hm)) hm
      exact hbelow.imp_left (.member hmem)
  | @reference doc ms ns reference x n u w href _ hp hu hnames h hw ihu ih =>
    have hdr : (ms.remove "$ref").Distinct := hv.distinct.remove "$ref"
    have hd : ns.Distinct := show ns.names.Nodup from hnames ▸ hdr
    have hnone : "$ref" ∉ ns.names := hnames ▸ OrderedMap.not_mem_names_remove hv.distinct "$ref"
    have hn := hp.keyed hsource
    have hreached : R doc reference := hall _ (.here href)
    rcases hw.mentions_cases (taken_keyed (hu.keyed hsource hn)) hd hnone hm with
      hm | ⟨⟨key, u''⟩, hx, hm⟩
    · have hleft := ihu hn (fun other hm => hnext _ _ _ _ _ hreached hp hm)
        (mentions_of_taken (hu.keyed hsource hn) hm)
      exact .inr (hleft.elim (fun hhides => ⟨_, _, _, _, hreached, hp, hhides⟩) id)
    · obtain ⟨i, u', hx, he⟩ := exists_entry_of_names hnames.symm hx
      have hmem := OrderedMap.mem_of_mem_remove (List.mem_of_getElem? he)
      rw [(h i _ _ he hx).kindOf_eq] at hm
      have hbelow := ih i _ _ he hx (hv.member hmem)
        (fun reference hm => hall reference (.member hmem hm)) hm
      exact hbelow.imp_left (.member hmem)

/-- What a schema hides itself is a reference in what it unfolds to. -/
theorem Hides.mentions (ht : t.Real) (h : Hides t known kind doc v text) (hv : v.Keyed)
    (hw : Unfolds t known Admits kind doc v w) : Mentions kind w text := by
  induction h generalizing w with
  | @here doc ms u text hu hplain hunfolds =>
    cases hw with
    | leaf hm => cases hm
    | @plain _ _ ns _ hnames h =>
      obtain ⟨i, x, he, hx⟩ := exists_entry_of_names hnames (OrderedMap.mem_of_get? hu)
      obtain rfl : x = .string text := Unfolds.unique ht (h i _ _ he hx) hunfolds
      have hd : ns.Distinct := show ns.names.Nodup from hnames ▸ hv.distinct
      exact .here (refText?_eq_some.mpr (OrderedMap.get?_of_mem hd (List.mem_of_getElem? hx)))
    | reference href =>
      rw [refText?_eq_some.mp href] at hu
      cases hu
      cases hplain
  | item hx _ ih =>
    cases hw with
    | leaf _ hi => cases hi
    | array hlen h =>
      obtain ⟨i, hi, rfl⟩ := List.getElem_of_mem hx
      have hy := List.getElem?_eq_getElem (hlen ▸ hi)
      have hm := ih (hv.item hx) (h i _ _ (List.getElem?_eq_getElem hi) hy)
      exact .item (List.mem_of_getElem? hy) hm
  | named hmem _ ih =>
    cases hw with
    | named hnames h =>
      obtain ⟨i, x, he, hx⟩ := exists_getElem?_of_names hnames hmem
      exact .named (List.mem_of_getElem? hx) (ih (hv.member hmem) (h i _ _ he hx))
  | member hmem hhides ih =>
    cases hw with
    | leaf hm => cases hm
    | plain _ hnames h =>
      obtain ⟨i, x, he, hx⟩ := exists_entry_of_names hnames hmem
      have hm := ih (hv.member hmem) (h i _ _ he hx)
      rw [← (h i _ _ he hx).kindOf_eq] at hm
      exact .member (List.mem_of_getElem? hx) hm
    | @reference _ _ ns _ _ _ _ _ href _ _ _ hnames h hw =>
      have hd : ns.Distinct := show ns.names.Nodup from hnames ▸ hv.distinct.remove "$ref"
      rcases OrderedMap.mem_remove_or hmem "$ref" with hrest | ⟨-, hget⟩
      · obtain ⟨i, x, he, hx⟩ := exists_entry_of_names hnames hrest
        have hm := ih (hv.member hmem) (h i _ _ he hx)
        rw [← (h i _ _ he hx).kindOf_eq] at hm
        exact hw.mentions_of_sibling hd (List.mem_of_getElem? hx) hm
      · -- The reference itself is a text, which hides nothing.
        rw [refText?_eq_some.mp href] at hget
        cases hget
        exact absurd hhides Hides.not_text

/-! ## Whole schemas -/

/-- A schema, or a node that a reference on the way leads to, hides a reference. -/
def HidesInReach (t : FileTree) (known : DocumentCache) (start : Path) (v : Json) : Prop :=
  (∃ text, Hides t known .schema start v text) ∨
    ∃ doc reference x n text, Reached t known start v doc reference ∧
      Points t known doc reference x n ∧ Hides t known .schema x.document n text

/-- Whether what an object has under `$ref`, if anything, is a text. -/
def refIsText : Json → Bool
  | .object ms => (OrderedMap.get? ms "$ref").all fun u => u.text?.isSome
  | _ => true

theorem Hides.exists_node (h : Hides t known kind doc v text) : ∃ n ∈ v.nodes, refIsText n = false := by
  induction h with
  | here hu hplain =>
    refine ⟨_, Json.self_mem_nodes _, ?_⟩
    simp [refIsText, hu, hplain]
  | item hx _ ih =>
    obtain ⟨n, hn, hplain⟩ := ih
    exact ⟨n, Json.mem_nodes_trans _ (Json.item_mem_nodes hx) hn, hplain⟩
  | named hv _ ih =>
    obtain ⟨n, hn, hplain⟩ := ih
    exact ⟨n, Json.mem_nodes_trans _ (Json.member_mem_nodes hv) hn, hplain⟩
  | member hv _ ih =>
    obtain ⟨n, hn, hplain⟩ := ih
    exact ⟨n, Json.mem_nodes_trans _ (Json.member_mem_nodes hv) hn, hplain⟩

/-- Nothing is hidden if nothing but texts stands under `$ref` in the documents in reach. -/
theorem not_hidesInReach (hv : known.find? start = some v)
    (h : ∀ document ∈ DocumentCache.inReach t known, ∀ n ∈ document.nodes, refIsText n = true) :
    ¬ HidesInReach t known start v := by
  have hsource {doc : Path} {document n : Json} {text : String} (hd : Source t known doc document)
      (hn : n ∈ document.nodes) : ¬ Hides t known .schema doc n text := by
    intro hhides
    obtain ⟨m, hm, hplain⟩ := hhides.exists_node
    rw [h document hd.mem_inReach m (Json.mem_nodes_trans _ hn hm)] at hplain
    cases hplain
  rintro (⟨text, hhides⟩ | ⟨doc, reference, x, n, text, -, ⟨target, document, -, -, hd, hn⟩, hhides⟩)
  · exact hsource (.inl hv) (Json.self_mem_nodes v) hhides
  · exact hsource hd (Json.at?_mem_nodes hn) hhides

/-- A schema in memory that is expanded has no reference left if none is hidden in reach, and has
one if it hides one itself. -/
theorem expandFrom_containsRef (ht : t.Real) (hknown : ∀ doc u, known.find? doc = some u → u.Keyed)
    (hv : known.find? start = some v) (h : expandFrom t v start known = .ok w) :
    (¬ HidesInReach t known start v → containsRef w = false) ∧
      ∀ text, Hides t known .schema start v text → containsRef w = true := by
  have hunfolds := unfolds_of_expandFrom ht hv h
  have hsource (doc : Path) (u : Json) (hu : Source t known doc u) : u.Keyed := source_keyed hknown hu
  have hkeyed := hknown start v hv
  have hw := hunfolds.keyed hsource hkeyed
  constructor
  · intro hnone
    rw [Bool.eq_false_iff]
    intro hcontains
    obtain ⟨text, hm⟩ := (containsRef_eq_true hw).mp hcontains
    have hhides := hunfolds.hides_of_mentions (R := Reached t known start v)
      (fun doc reference x n other hr hp hm => .next hr hp hm) hsource hkeyed
      (fun reference hm => .here hm) hm
    rcases hhides with hhides | ⟨d, reference, x, n, hr, hp, hhides⟩
    · exact hnone (.inl ⟨text, hhides⟩)
    · exact hnone (.inr ⟨d, reference, x, n, text, hr, hp, hhides⟩)
  · intro text hhides
    exact (containsRef_eq_true hw).mpr ⟨text, hhides.mentions ht hkeyed hunfolds⟩

theorem keyed_of_put {key : Path} (hv : v.Keyed) (doc : Path) (u : Json)
    (hu : (DocumentCache.empty.put key v).find? doc = some u) : u.Keyed := by
  rw [DocumentCache.find?_put] at hu
  split at hu
  · cases hu
    exact hv
  · cases hu

/-- A dereferenced value or file has no reference left, unless an object with something else than a
text under `$ref`, in it or in a node that a reference on the way leads to, unfolds to one with a
text there. Such an object in the value or file itself does leave a reference. -/
theorem dereferenced_containsRef (ht : t.Real) :
    (∀ v base w, v.Keyed → dereferenceValue t v base = .ok w →
      (¬ HidesInReach t (seededWith t v base) (documentKey t base) v → containsRef w = false) ∧
      ∀ text, Hides t (seededWith t v base) .schema (documentKey t base) v text →
        containsRef w = true) ∧
    ∀ p w, dereferenceFile t p = .ok w → ∃ v, readDocument t (documentKey t p) = .ok v ∧
      (¬ HidesInReach t (DocumentCache.empty.put (documentKey t p) v) (documentKey t p) v →
        containsRef w = false) ∧
      ∀ text, Hides t (DocumentCache.empty.put (documentKey t p) v) .schema (documentKey t p) v text →
        containsRef w = true := by
  constructor
  · intro v base w hv h
    exact expandFrom_containsRef ht (keyed_of_put hv) (find?_seededWith t v base) h
  · intro p w h
    rw [dereferenceFile_eq] at h
    cases hread : readDocument t (documentKey t p) with
    | error cause =>
      rw [hread] at h
      cases h
    | ok v =>
      rw [hread] at h
      have hkey : (DocumentCache.empty.put (documentKey t p) v).find? (documentKey t p) = some v :=
        (DocumentCache.find?_put ..).trans (if_pos rfl)
      exact ⟨v, rfl, expandFrom_containsRef ht (keyed_of_put (keyed_of_readDocument hread)) hkey h⟩

/-! ## A title under a reference -/

/-- A schema with a note that has, under `$ref`, a reference to the title. -/
def titled : Json :=
  .object [("title", .string "Person"), ("x-note", .object [("$ref", .object [
    ("$ref", .string "#/title")])])]

/-- A disk without files. -/
def noFiles : FileTree := ⟨[], []⟩

/-- The title is left as a reference. -/
theorem dereferenceValue_titled :
    dereferenceValue noFiles titled ⟨"a.json"⟩ = .ok (.object [("title", .string "Person"),
      ("x-note", .object [("$ref", .string "Person")])]) ∧
    (dereferenceValue noFiles titled ⟨"a.json"⟩).toOption.any containsRef = true :=
  ⟨by decide +kernel, by decide +kernel⟩

/-- Two properties that are references are replaced, and nothing is left of them. -/
theorem dereferenced_containsRef_shared :
    ∃ w, dereferenceValue twoSchemas (twoReferences "b.json" "b.json") ⟨"a.json"⟩ = .ok w ∧
      containsRef w = false := by
  have hrun : (dereferenceValue twoSchemas (twoReferences "b.json" "b.json") ⟨"a.json"⟩).toOption =
      some (.object [("properties", .object [("x", .object []), ("y", .object [])])]) := by
    decide +kernel
  refine ⟨_, toOption_eq_some.mp hrun, ?_⟩
  refine ((dereferenced_containsRef (by decide +kernel)).1 (twoReferences "b.json" "b.json")
    ⟨"a.json"⟩ _ (by decide +kernel) (toOption_eq_some.mp hrun)).1 ?_
  exact not_hidesInReach (find?_seededWith ..) (by decide +kernel)

end Dereference

end SchemaBindings
