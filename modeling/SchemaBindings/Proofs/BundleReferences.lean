import SchemaBindings.Proofs.BundleRuns
import SchemaBindings.Proofs.Outcomes

/-! # Where the references of a bundle lead

Every schema of a bundle is the form of its document, and every reference that
is kept in it is written as a pointer into the bundle. The pointer goes to the
place of the nearest ancestor of the target that has one and then on as the
target's own pointer does. It is where the target stands unless a node on this
last way had its reference copied: what stood beside that reference moved into
the second arm of an `allOf`, and the pointer did not. -/

namespace SchemaBindings.Bundle

open DocumentCache (Sound Within)

variable {t : FileTree} {known : DocumentCache}

/-! ## The parts of a bundle -/

/-- A document as a part of a bundle. -/
def partOf (t : FileTree) (d : SchemaDocument) : Part :=
  ⟨d, .ofFile d.fileName, documentKey t d.path⟩

theorem enterAll_parts (s : State) (ds : List SchemaDocument) :
    (enterAll t s ds).1 = ds.map (partOf t) := by
  induction ds generalizing s with
  | nil => rfl
  | cons d ds ih => exact congrArg (List.cons _) (ih _)

/-- The places that are given to documents, each with the document that is known for it. -/
structure Seeded (parts : List Part) (s : State) : Prop where
  paired : ∀ doc l, placeOf? s.sites doc .root = some l → ∃ part ∈ parts,
    part.member.location = l ∧ part.document.steps = doc.steps ∧
      s.cache.find? doc = some part.source.value
  atRoot : ∀ x ∈ s.sites, x.pointer = .root
  known : ∀ part ∈ parts, (s.cache.find? part.document).isSome = true

theorem enter_seeded {s : State} {parts : List Part} (h : Seeded parts s) (d : SchemaDocument) :
    Seeded (parts ++ [partOf t d]) (enter t s d).2 := by
  have hfind (doc : Path) : (s.cache.put (documentKey t d.path) d.value).find? doc =
      if doc.steps = (documentKey t d.path).steps then some d.value else s.cache.find? doc :=
    DocumentCache.find?_put ..
  refine ⟨fun doc l hl => ?_, fun x hx => ?_, fun part hpart => ?_⟩
  · have hplace := (placeOf?_cons ⟨documentKey t d.path, .root, (partOf t d).member.location⟩
      s.sites doc .root).symm.trans hl
    split at hplace
    · rename_i hdoc
      refine ⟨partOf t d, by simp, Option.some.inj hplace, hdoc.1, ?_⟩
      exact (hfind doc).trans (if_pos hdoc.1.symm)
    · rename_i hdoc
      obtain ⟨part, hpart, hl, hsteps, hvalue⟩ := h.paired doc l hplace
      refine ⟨part, List.mem_append_left _ hpart, hl, hsteps, ?_⟩
      exact (hfind doc).trans ((if_neg fun hs => hdoc ⟨hs.symm, rfl⟩).trans hvalue)
  · rcases List.mem_cons.mp hx with rfl | hx
    · rfl
    · exact h.atRoot x hx
  · show ((s.cache.put (documentKey t d.path) d.value).find? part.document).isSome = true
    rw [hfind]
    split
    · rfl
    · rcases List.mem_append.mp hpart with hpart | hpart
      · exact h.known part hpart
      · rename_i hne
        rw [List.mem_singleton.mp hpart] at hne
        exact absurd rfl hne

theorem enterAll_seeded {s : State} {parts : List Part} (h : Seeded parts s)
    (ds : List SchemaDocument) :
    Seeded (parts ++ ds.map (partOf t)) (enterAll t s ds).2 := by
  induction ds generalizing s parts with
  | nil =>
    rw [List.map_nil, List.append_nil]
    exact h
  | cons d ds ih =>
    have hnext : Seeded (parts ++ [partOf t d]) (enter t s d).2 := enter_seeded h d
    have hrest := ih hnext
    rw [List.append_assoc] at hrest
    exact hrest

/-- Where the schemas of a bundle stand. -/
def definitionsPlace : Pointer := Pointer.root.child "$defs"

/-- What the schemas of a bundle are: each part under its key, in the form of its document. -/
def AreForms (t : FileTree) (known : DocumentCache) (Kept : Path → String → Pointer → Prop)
    (parts : List Part) (definitions : Members) : Prop :=
  List.Forall₂ (fun part e => e.1 = part.member.key ∧ Becomes t known Kept .schema part.document
    (withoutRootKeywords part.source.value) e.2) parts definitions

/-- The parts of a bundle leave each its form, under its key. -/
theorem relocateParts_settles (ht : t.Real) (hsource : ∀ doc v, Source t known doc v → v.Proper)
    {depth : Nat} {parts : List Part} (hparts : ∀ part ∈ parts, part.source.value.Proper)
    {s s' : State} {definitions : Members} (hs : Sound t known s.cache)
    (hknown : ∀ part ∈ parts, (s.cache.find? part.document).isSome = true)
    (hrun : relocateParts t depth s parts = .ok (definitions, s')) :
    Settles t known definitionsPlace (HeldBy definitions)
      (fun sites => AreForms t known (Leads t sites) parts definitions) s s' := by
  induction parts generalizing s definitions with
  | nil =>
    cases hrun
    exact .refl hs fun _ _ => .nil
  | cons part parts ih =>
    rw [relocateParts] at hrun
    split at hrun
    · cases hrun
    · rename_i w u hw
      split at hrun
      · cases hrun
      · rename_i ws u' hws
        cases hrun
        have hproper := proper_withoutRootKeywords (hparts part (List.mem_cons_self ..))
        have hfirst := relocateNode_settles (followRef_follows ht hsource depth) _ hproper
          part.document part.member.location s w u hs (hknown part (List.mem_cons_self ..)) hw
        have hothers := ih (fun p hp => hparts p (List.mem_cons_of_mem _ hp)) hfirst.sound
          (fun p hp => find?_isSome_of_within hfirst.within (hknown p (List.mem_cons_of_mem _ hp)))
          hws
        refine (hfirst.entry hothers).imp (fun _ _ h => h) ?_
        rintro sites ⟨hform, hforms⟩
        exact .cons ⟨rfl, hform⟩ hforms

/-! ## Kept references -/

/-- A place that was given to a node holds the node's form. -/
structure Stands (t : FileTree) (known : DocumentCache) (sites : List Site) (document : Json)
    (doc : Path) (p l : Pointer) (n w : Json) : Prop where
  spelled : l.Spelled
  original : Original t known doc p n
  found : document.at? l = some w
  form : Becomes t known (Leads t sites) .schema doc n w

/-- Tokens that lead from a whole document to a keyword that only means something at its root. Such
keywords are taken off, and nothing stands for them in a bundle. -/
def TakenOff (above below : List String) : Prop :=
  above = [] ∧ ∃ token ∈ below.head?, Pointer.unescapeToken token ∈ rootKeywords

/-- What some tokens lead to below a node that was given a place, or the schema whose reference's
text they lead to, has its form in the bundle. They lead there from the place too exactly if they
pass no node whose reference was copied; if they pass one, they lead nowhere or, by an `allOf`, to
the copy. -/
def Reached (t : FileTree) (known : DocumentCache) (sites : List Site) (document : Json)
    (doc : Path) (place : Pointer) (n₀ w₀ : Json) (below : List String) (n : Json) : Prop :=
  ∃ way rest a moved kind x, below = way ++ rest ∧ n₀.at? ⟨way⟩ = some a ∧
    a.at? ⟨rest⟩ = some n ∧ Closing a rest ∧ document.at? (place.append moved) = some x ∧
    Becomes t known (Leads t sites) kind doc a x ∧
    (place.append below = place.append (moved ++ rest) ↔ Whole n₀ w₀ way) ∧
    (Whole n₀ w₀ way ∨ ∃ before token after, PartedAt n₀ w₀ before token after way ∧
      (Pointer.unescapeToken token ≠ "allOf" → document.at? (place.append below) = none))

/-- What holds of a reference in a document that is kept, and of the pointer that it becomes: it
leads on from the place of a node above the target as the reference does from that node. -/
def Traced (t : FileTree) (known : DocumentCache) (sites : List Site) (document : Json)
    (doc : Path) (reference : String) (location : Pointer) : Prop :=
  Lowering.localPointer? location.fragment = some location ∧
  ∃ target doc' above below place n₀ w₀, RefTarget.parse reference = .ok target ∧
    target.pointer.tokens = above ++ below ∧
    doc'.steps = (targetDocument t doc target).steps ∧
    Stands t known sites document doc' ⟨above⟩ place n₀ w₀ ∧ location = place.append below ∧
    ∀ n, Original t known (targetDocument t doc target) target.pointer n →
      Reached t known sites document doc' place n₀ w₀ below n ∨
      TakenOff above below ∧
        ((∃ other, n₀ = .object [("$ref", .string other)]) ∨ document.at? location = none)

/-- There is one document that is known under some steps. -/
theorem Source.eq (ht : t.Real) {doc doc' : Path} {v v' : Json} (h : Source t known doc v)
    (h' : Source t known doc' v') (hsteps : doc.steps = doc'.steps) : v = v' := by
  have hfind : known.find? doc = known.find? doc' := DocumentCache.find?_congr known hsteps
  rcases h with h | ⟨hnone, p, hp, hcanonical, hread⟩
  · rcases h' with h' | ⟨hnone', -⟩
    · rw [hfind, h'] at h
      exact (Option.some.inj h).symm
    · rw [hfind, hnone'] at h
      cases h
  · rcases h' with h' | ⟨-, p', hp', hcanonical', hread'⟩
    · rw [hfind, h'] at hnone
      cases hnone
    · obtain rfl := FileTree.eq_of_canonical? ht hcanonical hcanonical'
        (hp.trans (hsteps.trans hp'.symm))
      rw [hread] at hread'
      exact Except.ok.inj hread'

theorem Source.congr {doc doc' : Path} {v : Json} (h : Source t known doc v)
    (hsteps : doc.steps = doc'.steps) : Source t known doc' v := by
  unfold Source at h ⊢
  rwa [← DocumentCache.find?_congr known hsteps, ← hsteps]

theorem spelled_of_parse {reference : String} {target : RefTarget}
    (h : RefTarget.parse reference = .ok target) : target.pointer.Spelled := by
  unfold RefTarget.parse at h
  split at h
  · cases h
  · dsimp only at h
    split at h
    · cases h
      exact fun token ht => by cases ht
    · split at h
      · cases h
      · split at h
        · rename_i p hp
          cases h
          exact Pointer.spelled_of_ofText? hp
        · cases h

/-- Root keywords apart, a document without them leads to the same nodes. -/
theorem at?_withoutRootKeywords {v : Json} (hv : v.Proper) {token : String} {rest : List String}
    (h : Pointer.unescapeToken token ∉ rootKeywords) :
    (withoutRootKeywords v).at? ⟨token :: rest⟩ = v.at? ⟨token :: rest⟩ := by
  cases v with
  | object ms =>
    simp only [rootKeywords, List.mem_cons, List.not_mem_nil, or_false, not_or] at h
    have hget : OrderedMap.get? (OrderedMap.remove (OrderedMap.remove ms "$schema") "$id")
        (Pointer.unescapeToken token) = OrderedMap.get? ms (Pointer.unescapeToken token) :=
      (OrderedMap.get?_remove_of_ne (hv.distinct.remove _) h.2).trans
        (OrderedMap.get?_remove_of_ne hv.distinct h.1)
    rw [Json.at?_cons, Json.at?_cons]
    exact congrArg (Option.bind · _) hget
  | _ => rfl

/-- No node stands for a keyword that was taken off. -/
theorem at?_eq_none_of_takenOff {Kept : Path → String → Pointer → Prop} {kind : ChildKind}
    {doc : Path} {v n w : Json} {tokens : List String} (hv : v.Proper)
    (hn : v.at? ⟨tokens⟩ = some n) (h : TakenOff [] tokens)
    (hform : Becomes t known Kept kind doc (withoutRootKeywords v) w) :
    (∃ other, withoutRootKeywords v = .object [("$ref", .string other)]) ∨
      w.at? ⟨tokens⟩ = none := by
  obtain ⟨-, token, htoken, hroot⟩ := h
  obtain ⟨rest, rfl⟩ : ∃ rest, tokens = token :: rest := List.head?_eq_some_iff.mp htoken
  rw [Json.at?_cons] at hn
  obtain ⟨u, hu, -⟩ := Option.bind_eq_some_iff.mp hn
  have hname : Pointer.unescapeToken token = "$schema" ∨ Pointer.unescapeToken token = "$id" := by
    simpa [rootKeywords] using hroot
  cases v with
  | object ms =>
    have hd := hv.distinct
    have hnone : Pointer.step? (withoutRootKeywords (.object ms)) token = none := by
      change OrderedMap.get? (OrderedMap.remove (OrderedMap.remove ms "$schema") "$id") _ = none
      rcases hname with hname | hname
      · rw [hname, OrderedMap.get?_remove_of_ne (hd.remove _) (by decide),
          OrderedMap.get?_remove_self hd]
      · rw [hname, OrderedMap.get?_remove_self (hd.remove _)]
    by_cases halone : ∃ other, withoutRootKeywords (.object ms) = .object [("$ref", .string other)]
    · exact Or.inl halone
    · refine Or.inr ?_
      have hall : Pointer.unescapeToken token ≠ "allOf" := by
        rcases hname with hname | hname <;> rw [hname] <;> decide
      rw [Json.at?_cons, hform.step?_eq_none hnone hall fun other ho => halone ⟨other, ?_⟩]
      · rfl
      · exact congrArg Json.object ho
  | array xs =>
    obtain ⟨i, hi, -⟩ := Option.bind_eq_some_iff.mp hu
    rcases hname with hname | hname <;> rw [hname] at hi <;> cases hi
  | _ => cases hu

/-- A node of a document is reached from any node above it, unless its keyword was taken off. -/
theorem Original.below (ht : t.Real) (hsource : ∀ doc v, Source t known doc v → v.Proper)
    {doc doc' : Path} {p : Pointer} {above below : List String} {n₀ n : Json}
    (hsteps : doc'.steps = doc.steps) (hp : p.tokens = above ++ below)
    (h₀ : Original t known doc' ⟨above⟩ n₀) (h : Original t known doc p n)
    (hroot : ¬ TakenOff above below) : n₀.at? ⟨below⟩ = some n := by
  obtain ⟨v₀, u₀, hv₀, hu₀, rfl⟩ := h₀
  obtain ⟨v, u, hv, hu, rfl⟩ := h
  obtain rfl := hv₀.eq ht hv hsteps
  obtain ⟨tokens⟩ := p
  dsimp only at hp
  subst hp
  rw [Json.at?_append, hu₀, Option.bind_some] at hu
  cases below with
  | nil =>
    cases hu
    rw [List.append_nil]
    rfl
  | cons token rest =>
    have hnot : (Pointer.mk (above ++ token :: rest)).isRoot = false := by
      simp [Pointer.isRoot]
    rw [hnot, if_neg Bool.false_ne_true]
    split
    · rename_i habove
      have habove : above = [] := by simpa [Pointer.isRoot] using habove
      subst habove
      cases hu₀
      rw [at?_withoutRootKeywords (hsource _ _ hv₀) fun hr => hroot ⟨rfl, token, rfl, hr⟩]
      exact hu
    · exact hu

theorem Stands.at?_append {sites : List Site} {document : Json} {doc : Path} {p l : Pointer}
    {n w : Json} (h : Stands t known sites document doc p l n w) (tokens : List String) :
    document.at? (l.append tokens) = w.at? ⟨tokens⟩ := by
  obtain ⟨start⟩ := l
  exact (Json.at?_append ..).trans (by rw [h.found, Option.bind_some])

/-- What is reached below a node that stands at a place has its form there. -/
theorem Stands.reached (hsource : ∀ doc v, Source t known doc v → v.Proper) {sites : List Site}
    {document : Json} {doc : Path} {p place : Pointer} {n₀ w₀ n : Json} {below : List String}
    (h : Stands t known sites document doc p place n₀ w₀) (hn : n₀.at? ⟨below⟩ = some n) :
    Reached t known sites document doc place n₀ w₀ below n := by
  obtain ⟨way, rest, a, rfl, ha, hrest, hnode, hclosing⟩ := exists_toNode hn
  obtain ⟨moved, kind, x, hx, hbecomes, -, hway⟩ :=
    h.form.walk (h.original.proper hsource) ha hnode
  refine ⟨way, rest, a, moved, kind, x, rfl, ha, hrest, hclosing, (h.at?_append moved).trans hx,
    hbecomes, ?_⟩
  have hsame : place.append (way ++ rest) = place.append (moved ++ rest) ↔ moved = way := by
    simp [Pointer.append, eq_comm]
  rw [hsame]
  rcases hway with ⟨heq, hwhole⟩ | ⟨hne, before, token, after, hparted, hdangles⟩
  · exact ⟨⟨fun _ => hwhole, fun _ => heq⟩, Or.inl hwhole⟩
  · refine ⟨⟨fun heq => absurd heq hne, fun hwhole => absurd hparted (hwhole before token after)⟩,
      Or.inr ⟨before, token, after, hparted, fun hall => ?_⟩⟩
    rw [h.at?_append, Json.at?_append, hdangles hall, Option.bind_none]

/-- If all places hold the forms of their nodes, kept references are as they are said to be. -/
theorem traced_of_leads (ht : t.Real) (hsource : ∀ doc v, Source t known doc v → v.Proper)
    {sites : List Site} {document : Json}
    (hstands : ∀ doc p l, placeOf? sites doc p = some l → ∃ doc' n w, doc'.steps = doc.steps ∧
      Stands t known sites document doc' p l n w)
    {doc : Path} {reference : String} {location : Pointer}
    (h : Leads t sites doc reference location) :
    Traced t known sites document doc reference location := by
  obtain ⟨target, hparse, hsite⟩ := h
  obtain ⟨above, below, place, htokens, hplace, rfl⟩ := site?_eq_some hsite
  obtain ⟨doc', n₀, w₀, hsteps, hs⟩ := hstands _ _ _ hplace
  have hspelled : (Pointer.mk below).Spelled := fun token hmem =>
    spelled_of_parse hparse token (htokens ▸ List.mem_append_right _ hmem)
  refine ⟨Pointer.localPointer?_fragment (hs.spelled.append hspelled), target, doc', above, below,
    place, n₀, w₀, hparse, htokens, hsteps, hs, rfl, fun n hn => ?_⟩
  by_cases hoff : TakenOff above below
  · refine Or.inr ⟨hoff, ?_⟩
    obtain ⟨rfl, hoff⟩ := hoff
    obtain ⟨v, u, hv, hu, rfl⟩ := hs.original
    obtain ⟨v', u', hv', hu', -⟩ := hn
    obtain rfl := hv.eq ht hv' hsteps
    cases hu
    have hat : v.at? ⟨below⟩ = some u' := by
      rw [← hu', ← List.nil_append below, ← htokens]
    rw [hs.at?_append]
    exact at?_eq_none_of_takenOff (hsource _ _ hv) hat ⟨rfl, hoff⟩ hs.form
  · exact Or.inl (hs.reached hsource (hs.original.below ht hsource hsteps htokens hn hoff))

/-! ## Whole bundles -/

/-- The documents that are known when a bundle is begun. -/
def knownFrom (t : FileTree) (ds : List SchemaDocument) : DocumentCache :=
  (enterAll t ⟨.empty, []⟩ (sortDocuments ds)).2.cache

theorem enterAll_eq (s : State) (ds : List SchemaDocument) : (enterAll t s ds).2 =
    ⟨⟨(ds.map fun d => ((documentKey t d.path).steps, d.value)).reverse ++ s.cache.documents⟩,
      (ds.map fun d => ⟨documentKey t d.path, .root, (BundleMember.ofFile d.fileName).location⟩).reverse
        ++ s.sites⟩ := by
  induction ds generalizing s with
  | nil => rfl
  | cons d ds ih =>
    refine (ih _).trans ?_
    simp [DocumentCache.put]

theorem documents_knownFrom (t : FileTree) (ds : List SchemaDocument) : (knownFrom t ds).documents =
    ((sortDocuments ds).map fun d => ((documentKey t d.path).steps, d.value)).reverse := by
  rw [knownFrom, enterAll_eq]
  exact List.append_nil _

/-- What is known or can be read is in reach. -/
theorem Source.mem_inReach {doc : Path} {v : Json} (h : Source t known doc v) :
    v ∈ DocumentCache.inReach t known := by
  unfold DocumentCache.inReach
  rcases h with h | ⟨-, p, -, -, hread⟩
  · obtain ⟨before, after, hsplit, -⟩ := List.lookup_eq_some_iff.mp h
    refine List.mem_append_left _ (List.mem_map.mpr ⟨(doc.steps, v), ?_, rfl⟩)
    rw [hsplit]
    exact List.mem_append_right _ (List.mem_cons_self ..)
  · refine List.mem_append_right _ (List.mem_filterMap.mpr ?_)
    unfold readDocument at hread
    split at hread
    · cases hread
    · rename_i text htext
      split at hread
      · cases hread
      · rename_i hjson
        cases hread
        obtain ⟨place, -, hplace⟩ := FileTree.mem_of_readText htext
        refine ⟨_, hplace, ?_⟩
        dsimp only
        rw [hjson]
        rfl

theorem AreForms.exists_of_mem {Kept : Path → String → Pointer → Prop} {parts : List Part}
    {definitions : Members} (h : AreForms t known Kept parts definitions) {part : Part}
    (hpart : part ∈ parts) : ∃ e ∈ definitions, e.1 = part.member.key ∧
      Becomes t known Kept .schema part.document (withoutRootKeywords part.source.value) e.2 := by
  induction h with
  | nil => cases hpart
  | cons hform _ ih =>
    rcases List.mem_cons.mp hpart with rfl | hpart
    · exact ⟨_, List.mem_cons_self .., hform⟩
    · obtain ⟨e, he, hform⟩ := ih hpart
      exact ⟨e, List.mem_cons_of_mem _ he, hform⟩

/-- Below `$defs` a bundle is its definitions. -/
theorem at?_documentOf {definitions : Members} (hd : definitions.Distinct) (rel : List String) :
    (documentOf definitions).at? (definitionsPlace.append rel) =
      (Json.object definitions).at? ⟨rel⟩ := by
  have hplace : definitionsPlace = ⟨["$defs"]⟩ := by decide
  have hname : Pointer.unescapeToken "$defs" = "$defs" := by decide
  have hstep : Pointer.step? (documentOf definitions) "$defs" = some (.object definitions) := by
    rw [documentOf, OrderedMap.insertAll_nil hd, Pointer.step?, hname]
    rfl
  rw [hplace]
  change (documentOf definitions).at? ⟨"$defs" :: rel⟩ = _
  rw [Json.at?_cons, hstep, Option.bind_some]

theorem spelled_definitionsPlace : definitionsPlace.Spelled := Pointer.spelled_name "$defs"

/-- A place that a part of a bundle was given holds the part's form. -/
theorem stands_of_part {s : State} {parts : List Part} (hseeded : Seeded parts s)
    {sites : List Site} {definitions : Members} (hd : definitions.Distinct)
    (hforms : AreForms t s.cache (Leads t sites) parts definitions) {doc : Path} {l : Pointer}
    (hplace : placeOf? s.sites doc .root = some l) : ∃ doc' n w, doc'.steps = doc.steps ∧
      Stands t s.cache sites (documentOf definitions) doc' .root l n w := by
  obtain ⟨part, hpart, rfl, hsteps, hvalue⟩ := hseeded.paired doc l hplace
  obtain ⟨e, he, hkey, hform⟩ := hforms.exists_of_mem hpart
  have hknown : s.cache.find? part.document = some part.source.value :=
    (DocumentCache.find?_congr s.cache hsteps).trans hvalue
  have hlocation : part.member.location = definitionsPlace.append [Pointer.escapeToken e.1] := by
    rw [hkey]
    rfl
  refine ⟨part.document, _, e.2, hsteps, ?_, ⟨_, _, Or.inl hknown, rfl, rfl⟩, ?_, hform⟩
  · rw [hlocation]
    exact spelled_definitionsPlace.append (Pointer.spelled_name e.1)
  · rw [hlocation, at?_documentOf hd, Json.at?_entry hd he]
    rfl

/-- The place that counts for a document that was there from the start is its first one. -/
theorem Seeded.placeOf?_eq {s : State} {parts : List Part} (h : Seeded parts s) {later : List Site}
    (hgrown : Grown s.sites later) {x : Site} (hx : x ∈ s.sites) {doc : Path} {p l : Pointer}
    (hdoc : x.document.steps = doc.steps) (hp : x.pointer = p) (hplace : placeOf? later doc p = some l) :
    p = .root ∧ placeOf? s.sites doc .root = some l := by
  obtain rfl : p = .root := hp ▸ h.atRoot x hx
  have hsome : (placeOf? s.sites doc .root).isSome = true := by
    unfold placeOf?
    rw [Option.isSome_map, List.find?_isSome]
    exact ⟨x, hx, by simp [same_iff, hdoc, hp]⟩
  obtain ⟨l', hl⟩ := Option.isSome_iff_exists.mp hsome
  have hkept := hgrown _ _ _ (site?_of_placeOf? hl)
  rw [site?_of_placeOf? hplace, Option.some.injEq] at hkept
  exact ⟨rfl, hkept ▸ hl⟩

/-- A run on the parts of a bundle leaves all places holding the forms of their nodes. -/
theorem stands_of_settles {s s' : State} {parts : List Part} (hseeded : Seeded parts s)
    {definitions : Members} (hd : definitions.Distinct)
    (h : Settles t s.cache definitionsPlace (HeldBy definitions)
      (fun sites => AreForms t s.cache (Leads t sites) parts definitions) s s')
    {doc : Path} {p l : Pointer} (hplace : placeOf? s'.sites doc p = some l) :
    ∃ doc' n w, doc'.steps = doc.steps ∧
      Stands t s.cache s'.sites (documentOf definitions) doc' p l n w := by
  have hforms := h.form _ (.refl _)
  obtain ⟨x, hx, hdoc, hp, hl⟩ := mem_of_placeOf? hplace
  rcases h.placed x hx with hx | ⟨rel, n, y, hrel, hspelled, horiginal, hheld, -, hform⟩
  · obtain ⟨rfl, hroot⟩ := hseeded.placeOf?_eq h.grown hx hdoc hp hplace
    exact stands_of_part hseeded hd hforms hroot
  · subst hp hl
    refine ⟨x.document, n, y, hdoc, ?_, horiginal, ?_, hform _ (.refl _)⟩
    · rw [hrel]
      exact spelled_definitionsPlace.append hspelled
    · rw [hrel, at?_documentOf hd]
      exact hheld.at? hd

/-- What a bundle is assembled of. -/
theorem assemble_eq (t : FileTree) (ds : List SchemaDocument) : assemble t ds =
    (relocateParts t ((knownFrom t ds).allowance t)
      (enterAll t ⟨.empty, []⟩ (sortDocuments ds)).2 ((sortDocuments ds).map (partOf t))).map
      fun made => ⟨⟨documentOf made.1, ((sortDocuments ds).map (partOf t)).map (·.member)⟩,
        made.2.sites⟩ := by
  unfold assemble knownFrom
  dsimp only
  rw [enterAll_parts]
  cases relocateParts t ((enterAll t ⟨.empty, []⟩ (sortDocuments ds)).2.cache.allowance t)
    (enterAll t ⟨.empty, []⟩ (sortDocuments ds)).2 ((sortDocuments ds).map (partOf t)) <;> rfl

theorem assemble_eq_ok {ds : List SchemaDocument} {a : Assembly} (h : assemble t ds = .ok a) :
    ∃ definitions s', relocateParts t ((knownFrom t ds).allowance t)
        (enterAll t ⟨.empty, []⟩ (sortDocuments ds)).2 ((sortDocuments ds).map (partOf t)) =
          .ok (definitions, s') ∧
      a.bundle.document = documentOf definitions ∧ a.sites = s'.sites := by
  rw [assemble_eq] at h
  cases hrun : relocateParts t ((knownFrom t ds).allowance t)
      (enterAll t ⟨.empty, []⟩ (sortDocuments ds)).2 ((sortDocuments ds).map (partOf t)) with
  | error e =>
    rw [hrun] at h
    cases h
  | ok result =>
    rw [hrun] at h
    cases h
    exact ⟨result.1, result.2, rfl, rfl, rfl⟩

/-- The definitions of a bundle are its parts, each under its key. -/
theorem names_of_relocateParts {depth : Nat} {s s' : State} {parts : List Part}
    {definitions : Members} (h : relocateParts t depth s parts = .ok (definitions, s')) :
    definitions.names = parts.map (·.member.key) := by
  induction parts generalizing s definitions with
  | nil =>
    cases h
    rfl
  | cons part parts ih =>
    rw [relocateParts] at h
    split at h
    · cases h
    · split at h
      · cases h
      · rename_i hrest
        cases h
        exact congrArg (List.cons _) (ih hrest)

theorem sortDocuments_perm (ds : List SchemaDocument) : (sortDocuments ds).Perm ds :=
  List.mergeSort_perm ds _

/-- Documents with stems of their own become definitions with keys of their own. -/
theorem distinct_of_relocateParts {depth : Nat} {s s' : State} {ds : List SchemaDocument}
    {definitions : Members} (hstems : (ds.map fun d => schemaStem d.fileName).Nodup)
    (h : relocateParts t depth s ((sortDocuments ds).map (partOf t)) = .ok (definitions, s')) :
    definitions.Distinct := by
  unfold OrderedMap.Distinct
  rw [names_of_relocateParts h, List.map_map]
  exact ((sortDocuments_perm ds).map _).nodup_iff.mpr hstems

theorem ofDocuments_eq_ok {ds : List SchemaDocument} {b : Bundle} (h : ofDocuments t ds = .ok b) :
    ∃ a, assemble t ds = .ok a ∧ a.bundle = b := by
  unfold ofDocuments at h
  cases ha : assemble t ds with
  | error e =>
    rw [ha] at h
    cases h
  | ok a =>
    rw [ha] at h
    exact ⟨a, rfl, Except.ok.inj h⟩

theorem members_of_assemble {ds : List SchemaDocument} {a : Assembly}
    (h : assemble t ds = .ok a) :
    a.bundle.members = (sortDocuments ds).map fun d => .ofFile d.fileName := by
  rw [assemble_eq] at h
  cases hrun : relocateParts t ((knownFrom t ds).allowance t)
      (enterAll t ⟨.empty, []⟩ (sortDocuments ds)).2 ((sortDocuments ds).map (partOf t)) with
  | error e =>
    rw [hrun] at h
    cases h
  | ok made =>
    rw [hrun] at h
    cases h
    exact List.map_map ..

/-- Files whose stems differ become members with keys of their own, and something stands at the
place of each. -/
theorem members_of_ofDocuments {ds : List SchemaDocument} {b : Bundle}
    (hstems : (ds.map fun d => schemaStem d.fileName).Nodup) (h : ofDocuments t ds = .ok b) :
    (b.members.map (·.key)).Nodup ∧ ∀ m ∈ b.members, ∃ v, b.document.at? m.location = some v := by
  obtain ⟨a, ha, rfl⟩ := ofDocuments_eq_ok h
  obtain ⟨definitions, s', hrun, hdocument, -⟩ := assemble_eq_ok ha
  have hmembers := members_of_assemble ha
  have hnames := names_of_relocateParts hrun
  have hkeys : a.bundle.members.map (·.key) = definitions.names := by
    rw [hmembers, hnames, List.map_map, List.map_map]
    rfl
  have hd := distinct_of_relocateParts hstems hrun
  refine ⟨hkeys ▸ hd, fun m hm => ?_⟩
  have hkey : m.key ∈ definitions.names := hkeys ▸ List.mem_map_of_mem hm
  obtain ⟨e, he, hname⟩ := List.mem_map.mp hkey
  refine ⟨e.2, ?_⟩
  have hlocation : m.location = definitionsPlace.append [Pointer.escapeToken e.1] := by
    rw [hname]
    rfl
  rw [hdocument, hlocation, at?_documentOf hd, Json.at?_entry hd he]
  rfl

/-- When a bundle is begun, the documents are known and each has its place. -/
theorem seeded_knownFrom (t : FileTree) (ds : List SchemaDocument) :
    Seeded ((sortDocuments ds).map (partOf t)) (enterAll t ⟨.empty, []⟩ (sortDocuments ds)).2 := by
  have hempty : Seeded [] ⟨.empty, []⟩ :=
    ⟨fun _ _ hl => (by cases hl), fun _ hx => (by cases hx), fun _ hp => (by cases hp)⟩
  have hseeded := enterAll_seeded hempty (sortDocuments ds) (t := t)
  rwa [List.nil_append] at hseeded

/-- The documents of a bundle are in reach. -/
theorem mem_inReach_of_part {ds : List SchemaDocument} {part : Part}
    (h : part ∈ (sortDocuments ds).map (partOf t)) :
    part.source.value ∈ DocumentCache.inReach t (knownFrom t ds) := by
  obtain ⟨d, hd, rfl⟩ := List.mem_map.mp h
  refine List.mem_append_left _ (List.mem_map.mpr ⟨((documentKey t d.path).steps, d.value), ?_, rfl⟩)
  rw [documents_knownFrom]
  exact List.mem_reverse.mpr (List.mem_map.mpr ⟨d, hd, rfl⟩)

/-- Every reference that is kept in a bundle is a pointer into the bundle that leads on from the
place of a node above its target. -/
theorem references_traced (ht : t.Real) {ds : List SchemaDocument} {b : Bundle}
    (hproper : ∀ v ∈ DocumentCache.inReach t (knownFrom t ds), v.Proper)
    (hstems : (ds.map fun d => schemaStem d.fileName).Nodup) (h : ofDocuments t ds = .ok b) :
    ∃ sites definitions, assemble t ds = .ok ⟨b, sites⟩ ∧ b.definitions? = some definitions ∧
      AreForms t (knownFrom t ds) (Leads t sites) ((sortDocuments ds).map (partOf t)) definitions ∧
      ∀ doc reference location, Leads t sites doc reference location →
        Traced t (knownFrom t ds) sites b.document doc reference location := by
  have hsource : ∀ doc v, Source t (knownFrom t ds) doc v → v.Proper :=
    fun doc v hv => hproper v hv.mem_inReach
  obtain ⟨a, ha, rfl⟩ : ∃ a, assemble t ds = .ok a ∧ a.bundle = b := by
    unfold ofDocuments at h
    cases ha : assemble t ds with
    | error e =>
      rw [ha] at h
      cases h
    | ok a =>
      rw [ha] at h
      exact ⟨a, rfl, Except.ok.inj h⟩
  obtain ⟨definitions, s', hrun, hdocument, hsites⟩ := assemble_eq_ok ha
  have hseeded := seeded_knownFrom t ds
  have hparts : ∀ part ∈ (sortDocuments ds).map (partOf t), part.source.value.Proper :=
    fun part hpart => hproper _ (mem_inReach_of_part hpart)
  have hsettles := relocateParts_settles ht hsource hparts ⟨fun _ _ h => h, fun _ _ h => Or.inl h⟩
    hseeded.known hrun
  have hforms := hsettles.form _ (.refl _)
  have hd : definitions.Distinct := by
    unfold OrderedMap.Distinct
    rw [names_of_forall₂ hforms, List.map_map]
    exact ((List.mergeSort_perm ds _).map _).nodup_iff.mpr hstems
  refine ⟨a.sites, definitions, ha, ?_, hsites ▸ hforms, fun doc reference location hl => ?_⟩
  · unfold definitions?
    rw [hdocument, documentOf, OrderedMap.insertAll_nil hd]
    rfl
  · rw [hdocument]
    rw [hsites] at hl ⊢
    exact traced_of_leads ht hsource (fun _ _ _ => stands_of_settles hseeded hd hsettles) hl

/-! ## A reference into what stood beside another -/

/-- A disk with the file `name.json` beside the directory `s`. -/
def namesFolder : FileTree where
  entries := [([.text "name.json"], .file (.text "\x7b\"type\": \"object\"\x7d")),
    ([.text "s"], .directory)]
  workingPlace := []

/-- A person whose first name is that of the file, with a nickname beside it, which the last name
refers to. -/
def person : SchemaDocument :=
  .ofPath ⟨"s/person.schema.json"⟩ (.object [("properties", .object [
    ("first", .object [("$ref", .string "../name.json"),
      ("properties", .object [("nick", .object [("type", .string "string")])])]),
    ("last", .object [("$ref", .string "#/properties/first/properties/nick")])])])

theorem references_traced_person :
    ∃ b sites, assemble namesFolder [person] = .ok ⟨b, sites⟩ ∧
      Traced namesFolder (knownFrom namesFolder [person]) sites b.document
        ⟨"s/person.schema.json"⟩ "#/properties/first/properties/nick"
        ⟨["$defs", "person", "properties", "first", "properties", "nick"]⟩ := by
  have hrun : (assemble namesFolder [person]).toOption.any (fun a =>
      decide (site? a.sites ⟨"s/person.schema.json"⟩ ⟨["properties", "first", "properties", "nick"]⟩ =
        some ⟨["$defs", "person", "properties", "first", "properties", "nick"]⟩)) = true := by
    decide +kernel
  obtain ⟨⟨b, sites⟩, hsome, hsite⟩ := (Option.any_eq_true _ _).mp hrun
  have ha := toOption_eq_some.mp hsome
  have hb : ofDocuments namesFolder [person] = .ok b := by
    unfold ofDocuments
    rw [ha]
    rfl
  obtain ⟨sites', -, ha', -, -, htraced⟩ := references_traced (by decide +kernel) (by decide +kernel)
    (by decide +kernel) hb
  cases ha.symm.trans ha'
  have hparse : (RefTarget.parse "#/properties/first/properties/nick").toOption =
      some ⟨none, ⟨["properties", "first", "properties", "nick"]⟩⟩ := by decide +kernel
  exact ⟨b, sites, ha, htraced _ _ _ ⟨_, toOption_eq_some.mp hparse, of_decide_eq_true hsite⟩⟩

/-- The nickname moves into the second arm of an `allOf`, and the pointer of the last name, which
led to it, leads nowhere. -/
theorem references_dangle_person :
    ∃ b, ofDocuments namesFolder [person] = .ok b ∧
      (person.value.at? ⟨["properties", "first", "properties", "nick"]⟩).isSome = true ∧
      b.document.at? ⟨["$defs", "person", "properties", "last", "$ref"]⟩ =
        some (.string "#/$defs/person/properties/first/properties/nick") ∧
      (Lowering.localPointer? "#/$defs/person/properties/first/properties/nick").map
        b.document.at? = some none := by
  have hdangles : (ofDocuments namesFolder [person]).toOption.any (fun b =>
      decide ((person.value.at? ⟨["properties", "first", "properties", "nick"]⟩).isSome = true ∧
        b.document.at? ⟨["$defs", "person", "properties", "last", "$ref"]⟩ =
          some (.string "#/$defs/person/properties/first/properties/nick") ∧
        (Lowering.localPointer? "#/$defs/person/properties/first/properties/nick").map
          b.document.at? = some none)) = true := by decide +kernel
  obtain ⟨b, hsome, hb⟩ := (Option.any_eq_true _ _).mp hdangles
  exact ⟨b, toOption_eq_some.mp hsome, of_decide_eq_true hb⟩

end SchemaBindings.Bundle
